import Mathlib.Algebra.Order.Field.Rat
import Mathlib.Tactic.Positivity
import Mathlib.Tactic.NormNum

set_option autoImplicit false

/-!
# Python's `/` on ints, and `random.random()`

`n / d` on two ints is the double nearest the exact quotient, ties to even: CPython's
`long_true_divide` rounds correctly. A double is `m * 2 ^ e` with `m` below `2 ^ 53` and `e` no
lower than `-1074`, where the subnormals end. Above, the exponent is left unbounded: a quotient of
`2 ^ 1024` or more, for which Python raises `OverflowError`, is not modelled. `random.random()`
is `k / 2 ^ 53` for `k` uniform below `2 ^ 53`, so `random.random() < x` holds for
`⌈x * 2 ^ 53⌉` of the `2 ^ 53` draws. The computation stays in `ℕ`, so that it evaluates.
-/

namespace QuarkChain

def bitLengthAux : ℕ → ℕ → ℕ
  | 0, _ => 0
  | fuel + 1, n => if n = 0 then 0 else bitLengthAux fuel (n / 2) + 1

def bitLength (n : ℕ) : ℕ := bitLengthAux n n

/-- `a / b` rounded to a natural number, ties to even. -/
def roundHalfEven (a b : ℕ) : ℕ :=
  if 2 * (a % b) < b then a / b
  else if b < 2 * (a % b) then a / b + 1
  else if a / b % 2 = 0 then a / b else a / b + 1

/-- `n / d` on ints, for `d > 0`: the double nearest `n / d`, ties to even, as `a / b` with `b` a
    power of two. -/
def trueDivParts (n d : ℕ) : ℕ × ℕ :=
  if n = 0 then (0, 1)
  else
    -- `2 ^ k ≤ n / d < 2 ^ (k + 1)`
    let k₀ : ℤ := (bitLength n : ℤ) - bitLength d
    let k := if n * 2 ^ (-k₀).toNat < d * 2 ^ k₀.toNat then k₀ - 1 else k₀
    -- the weight of the last of the 53 bits, no lower than that of the subnormals
    let e := max (k - 52) (-1074)
    (roundHalfEven (n * 2 ^ (-e).toNat) (d * 2 ^ e.toNat) * 2 ^ e.toNat, 2 ^ (-e).toNat)

/-- `n / d` on ints: the double Python returns, as a rational. -/
def trueDiv (n d : ℕ) : ℚ := ((trueDivParts n d).1 : ℚ) / (trueDivParts n d).2

/-- How many of the `2 ^ 53` values of `random.random()` lie below `a / b`. -/
def gridCount (a b : ℕ) : ℕ := min (2 ^ 53) ((a * 2 ^ 53 + b - 1) / b)

/-- The odds of `random.random() < 1 / n`, which the code decides against the double `1 / n`. -/
def drawOdds (n : ℕ) : ℚ :=
  (gridCount (trueDivParts 1 n).1 (trueDivParts 1 n).2 : ℚ) / 2 ^ 53

@[simp] theorem trueDivParts_zero (d : ℕ) : trueDivParts 0 d = (0, 1) := rfl

theorem trueDivParts_snd_pos (n d : ℕ) : 0 < (trueDivParts n d).2 := by
  unfold trueDivParts
  split_ifs <;> positivity

theorem trueDiv_one_two : trueDiv 1 2 = 1 / 2 := by
  have h : trueDivParts 1 2 = (2 ^ 52, 2 ^ 53) := by decide
  rw [trueDiv, h]
  norm_num

theorem drawOdds_two : drawOdds 2 = 1 / 2 := by
  have h : trueDivParts 1 2 = (2 ^ 52, 2 ^ 53) := by decide
  have hc : gridCount (2 ^ 52) (2 ^ 53) = 2 ^ 52 := by decide
  rw [drawOdds, h, hc]
  norm_num

/-- The double `1 / 3` lies just below `1 / 3`, yet `3002399751580331` of the `2 ^ 53` draws fall
    below it, a little more than a third. -/
theorem drawOdds_three : drawOdds 3 = 3002399751580331 / 2 ^ 53 := by
  have h : trueDivParts 1 3 = (6004799503160661, 2 ^ 54) := by decide
  have hc : gridCount 6004799503160661 (2 ^ 54) = 3002399751580331 := by decide
  rw [drawOdds, h, hc]
  norm_num

example : trueDivParts 5000000000000000001 1 = (5000000000000000000, 1) := by decide

end QuarkChain
