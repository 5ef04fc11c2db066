import Mathlib.Algebra.BigOperators.Ring.List
import Mathlib.Tactic.NormNum
import Mathlib.Tactic.Positivity
import Mathlib.Tactic.Ring
import QuarkChain.Selection

set_option autoImplicit false

/-!
# The odds of the randomized tie-break

When every `random.random()` is an independent uniform draw, the test `random.random() < 1 / n`
holds with some odds `odds n`: `drawOdds n` in the code, which compares with the double `1 / n`,
and `1 / n` exactly with an exact threshold. A `Dist` lists outcomes with their probabilities,
so the selection loop run in `Dist` gives the law of the selection (`selectDistBy`), and
`prob_selectDistBy_cons` steps it one candidate at a time.
-/

namespace QuarkChain.Mining

/-- A finite distribution: outcomes with their probabilities; an outcome may repeat. -/
def Dist (α : Type) : Type := List (α × ℚ)

def Dist.bind {α β : Type} (d : Dist α) (f : α → Dist β) : Dist β :=
  List.flatMap d fun x => List.map (fun y => (y.1, x.2 * y.2)) (f x.1)

instance : Monad Dist where
  pure a := [(a, 1)]
  bind := Dist.bind

def Dist.prob {α : Type} (d : Dist α) (P : α → Bool) : ℚ :=
  (List.map (·.2) (List.filter (fun x => P x.1) d)).sum

def bernoulli (p : ℚ) : Dist Bool := [(true, p), (false, 1 - p)]

/-- The law of the selection when `random.random() < 1 / n` holds with odds `odds n`. -/
def selectDistBy (odds : ℕ → ℚ) (core : Core) (shardMask : Option ℕ) (randomizeOutput : Bool)
    (sel : Selection) (items : List (ℕ × EcoInfo)) : Dist (Except PyError Selection) :=
  (selectLoop (fun n => bernoulli (odds n)) core shardMask randomizeOutput sel items).run

/-- The law of the selection with the exact odds `1 / n`. -/
def selectDist (core : Core) (shardMask : Option ℕ) (randomizeOutput : Bool) (sel : Selection)
    (items : List (ℕ × EcoInfo)) : Dist (Except PyError Selection) :=
  selectDistBy (fun n => 1 / n) core shardMask randomizeOutput sel items

namespace Dist
variable {α β : Type}

theorem prob_bind (d : Dist α) (f : α → Dist β) (P : β → Bool) :
    (d >>= f).prob P = (List.map (fun x => x.2 * (f x.1).prob P) d).sum := by
  show (d.bind f).prob P = _
  induction d with
  | nil => rfl
  | cons x d ih =>
    simp only [Dist.bind, prob, List.flatMap_cons, List.filter_append, List.map_append,
      List.sum_append, List.filter_map, List.map_map, List.map_cons, List.sum_cons] at ih ⊢
    rw [ih, ← List.sum_map_mul_left]
    rfl

@[simp] theorem prob_nil (P : α → Bool) : Dist.prob ([] : List (α × ℚ)) P = 0 := rfl

@[simp] theorem prob_cons (a : α) (q : ℚ) (d : List (α × ℚ)) (P : α → Bool) :
    Dist.prob ((a, q) :: d) P = (if P a then q else 0) + Dist.prob d P := by
  cases h : P a <;> simp [prob, h, List.filter_cons]

@[simp] theorem prob_pure (a : α) (P : α → Bool) :
    (pure a : Dist α).prob P = if P a then 1 else 0 := by
  cases h : P a <;> simp [prob, pure, h]

end Dist

variable {odds : ℕ → ℚ} {core : Core} {shardMask : Option ℕ} {randomizeOutput : Bool}

@[simp] theorem selectDistBy_nil (sel : Selection) :
    selectDistBy odds core shardMask randomizeOutput sel [] = [(.ok sel, 1)] := rfl

theorem prob_selectDistBy_cons (sel : Selection) (b : ℕ) (e : EcoInfo)
    (rest : List (ℕ × EcoInfo)) (P : Except PyError Selection → Bool) :
    (selectDistBy odds core shardMask randomizeOutput sel ((b, e) :: rest)).prob P =
      match selectStep core shardMask randomizeOutput sel b e with
      | .next s => (selectDistBy odds core shardMask randomizeOutput s rest).prob P
      | .draw n t f => odds n * (selectDistBy odds core shardMask randomizeOutput t rest).prob P +
          (1 - odds n) * (selectDistBy odds core shardMask randomizeOutput f rest).prob P
      | .raise err => if P (.error err) then 1 else 0 := by
  change ((Outcome.run (fun n => bernoulli (odds n))
    (selectStep core shardMask randomizeOutput sel b e) >>= fun s =>
      selectLoop (fun n => bernoulli (odds n)) core shardMask randomizeOutput s rest).run).prob P =
    _
  rw [ExceptT.run_bind, Dist.prob_bind]
  cases selectStep core shardMask randomizeOutput sel b e with
  | next s =>
    show (List.map _ [(Except.ok s, (1 : ℚ))]).sum = _
    simp [selectDistBy]
  | draw n t f =>
    show (List.map _ [(Except.ok t, odds n * 1 * 1), (Except.ok f, (1 - odds n) * 1 * 1)]).sum = _
    simp [selectDistBy]
  | raise err =>
    show (List.map _ [(Except.error err, (1 : ℚ))]).sum = _
    simp

def wins (b : ℕ) : Except PyError Selection → Bool
  | .ok sel => sel.branchValueWithMaxEco == some b
  | .error _ => false

/-- Two shards tie the root at the same height 1. The first one wins its draw half the time and
    then keeps the root's `blockHeight` 0, so the second one is skipped as higher than it. The
    double `1 / 2` is exact, so the code gives the first shard the same half; the root's and the
    second shard's odds move off `1 / 3` and `1 / 6` with the double `1 / 3`. -/
theorem tied_heights_skew_odds (core : Core) :
    let d := selectDist core none true (.init none 2) [(1, ⟨1, 1, 2, 1, 0⟩), (2, ⟨2, 1, 2, 1, 0⟩)]
    let code := selectDistBy drawOdds core none true (.init none 2)
      [(1, ⟨1, 1, 2, 1, 0⟩), (2, ⟨2, 1, 2, 1, 0⟩)]
    d.prob (wins 0) = 1 / 3 ∧ d.prob (wins 1) = 1 / 2 ∧ d.prob (wins 2) = 1 / 6 ∧
      code.prob (wins 0) = 6004799503160661 / 2 ^ 54 ∧ code.prob (wins 1) = 1 / 2 ∧
      code.prob (wins 2) = 3002399751580331 / 2 ^ 54 := by
  simp [selectDist, prob_selectDistBy_cons, selectStep, skipped, Selection.init, EcoInfo.eco,
    wins, drawOdds_two, drawOdds_three]
  norm_num

def Outcome.All (P : Selection → Prop) : Outcome → Prop
  | .next sel => P sel
  | .draw _ ifBelow ifNot => P ifBelow ∧ P ifNot
  | .raise _ => True

theorem selectStep_leader (sel : Selection) (b : ℕ) (e : EcoInfo) :
    (selectStep core shardMask randomizeOutput sel b e).All fun s =>
      s.branchValueWithMaxEco = sel.branchValueWithMaxEco ∨ s.branchValueWithMaxEco = some b :=
  selectStep_elim _ sel b e (fun _ => .inl rfl) (fun _ _ => trivial) (fun _ _ _ => .inr rfl)
    (fun _ _ _ _ _ _ => .inl rfl) (fun _ _ _ _ _ _ => ⟨.inr rfl, .inl rfl⟩)
    (fun _ _ _ _ => .inl rfl)

theorem prob_wins_eq_zero {x : ℕ} {sel : Selection} {rest : List (ℕ × EcoInfo)}
    (hs : sel.branchValueWithMaxEco ≠ some x) (hx : x ∉ rest.map (·.1)) :
    (selectDistBy odds core shardMask randomizeOutput sel rest).prob (wins x) = 0 := by
  induction rest generalizing sel with
  | nil => simp [wins, hs]
  | cons y rest ih =>
    obtain ⟨b, e⟩ := y
    simp only [List.map_cons, List.mem_cons, not_or] at hx
    have hb : ∀ s : Selection, s.branchValueWithMaxEco = sel.branchValueWithMaxEco ∨
        s.branchValueWithMaxEco = some b → s.branchValueWithMaxEco ≠ some x := by
      rintro s (h | h) <;> rw [h]
      exacts [hs, fun h => hx.1 (Option.some_inj.mp h).symm]
    have hl : (selectStep core shardMask randomizeOutput sel b e).All _ := selectStep_leader sel b e
    rw [prob_selectDistBy_cons]
    revert hl
    cases selectStep core shardMask randomizeOutput sel b e with
    | next s => exact fun hl => ih (hb s hl) hx.2
    | draw n t f =>
      exact fun hl => by dsimp only; rw [ih (hb t hl.1) hx.2, ih (hb f hl.2) hx.2]; ring
    | raise err => exact fun _ => by simp [wins]

/-! ## Shards that tie the root

All candidates have the root's eco `c` and one height `h`; the mask is 0 and the output is
randomized. The leader `v` after `k` ties is `tieState v c k`: every tie so far raised
`dupEcoCount`, and `blockHeight` is still the root's 0. The `j`-th tie from there is drawn for
with odds `odds (k + j + 2)`. -/

/-- The leader `v` at eco `c` after `k` ties. -/
def tieState (v : ℕ) (c : ℚ) (k : ℕ) : Selection := ⟨some v, c, k + 1, 0⟩

/-- Every shard has a positive branch value and difficulty, the eco `c` and the height `h`. -/
def TiedAt (c : ℚ) (h : ℕ) (rest : List (ℕ × EcoInfo)) : Prop :=
  ∀ x ∈ rest, 0 < x.1 ∧ 0 < x.2.difficulty ∧ x.2.eco = c ∧ x.2.height = h

theorem TiedAt.tail {c : ℚ} {h : ℕ} {x : ℕ × EcoInfo} {rest : List (ℕ × EcoInfo)}
    (ht : TiedAt c h (x :: rest)) : TiedAt c h rest :=
  fun y hy => ht y (List.mem_cons_of_mem _ hy)

/-- The odds that the leader after `k` ties loses none of the next `n` draws. -/
def keepOdds (odds : ℕ → ℚ) (k n : ℕ) : ℚ :=
  ((List.range n).map fun j => 1 - odds (k + j + 2)).prod

@[simp] theorem keepOdds_zero (k : ℕ) : keepOdds odds k 0 = 1 := rfl

theorem keepOdds_succ (k n : ℕ) :
    keepOdds odds k (n + 1) = (1 - odds (k + 2)) * keepOdds odds (k + 1) n := by
  simp only [keepOdds, List.range_succ_eq_map, List.map_cons, List.map_map, List.prod_cons]
  congr 3
  funext j
  simp only [Function.comp_apply]
  congr 2
  omega

theorem keepOdds_inv (k n : ℕ) :
    keepOdds (fun n => 1 / n) k n = ((k : ℚ) + 1) / ((k : ℚ) + 1 + n) := by
  induction n generalizing k with
  | zero => simp [div_self (by positivity : (k : ℚ) + 1 ≠ 0)]
  | succ n ih =>
    have hk : (k : ℚ) + 2 ≠ 0 := by positivity
    rw [keepOdds_succ, ih]
    push_cast
    rw [show (k : ℚ) + 1 + 1 = k + 2 by ring, show (k : ℚ) + 1 + (n + 1) = k + 2 + n by ring,
      one_sub_div hk, div_mul_div_cancel₀ hk, show (k : ℚ) + 2 - 1 = k + 1 by ring]

section Tied
variable {c : ℚ} {h b v k : ℕ} {e : EcoInfo} {rest : List (ℕ × EcoInfo)}

theorem selectStep_tie (hd : 0 < e.difficulty) (he : e.eco = c)
    (hskip : ¬ (0 < v ∧ 0 < e.height)) :
    selectStep core none true (tieState v c k) b e =
      .draw (k + 2) (tieState b c (k + 1)) (tieState v c (k + 1)) := by
  simp only [selectStep, skipped, tieState, Bool.false_eq_true, if_false, hd.ne', he]
  rw [if_neg (by simp), if_pos ⟨trivial, trivial⟩, if_neg (by simpa using hskip)]

theorem selectStep_tie_skip (hd : 0 < e.difficulty) (he : e.eco = c) (hv : 0 < v)
    (hh : 0 < e.height) :
    selectStep core none true (tieState v c k) b e = .next (tieState v c k) := by
  simp [selectStep, skipped, tieState, hd.ne', he, hv, hh]

theorem prob_tied_absorbed (hh : 0 < h) (hv : 0 < v) (ht : TiedAt c h rest)
    (P : Except PyError Selection → Bool) :
    (selectDistBy odds core none true (tieState v c k) rest).prob P =
      if P (.ok (tieState v c k)) then 1 else 0 := by
  induction rest with
  | nil => simp
  | cons x rest ih =>
    obtain ⟨-, hd, he, hhe⟩ := ht x (List.mem_cons_self _ _)
    rw [prob_selectDistBy_cons, selectStep_tie_skip hd he hv (hhe ▸ hh)]
    exact ih ht.tail

theorem prob_root_pos_height (hh : 0 < h) (ht : TiedAt c h rest) :
    (selectDistBy odds core none true (tieState 0 c k) rest).prob (wins 0) =
      keepOdds odds k rest.length := by
  induction rest generalizing k with
  | nil => simp [wins, tieState]
  | cons x rest ih =>
    obtain ⟨hb, hd, he, -⟩ := ht x (List.mem_cons_self _ _)
    rw [prob_selectDistBy_cons, selectStep_tie hd he (by simp)]
    dsimp only
    rw [prob_tied_absorbed hh hb ht.tail, ih ht.tail, List.length_cons, keepOdds_succ]
    simp [wins, tieState, hb.ne']

theorem prob_shard_pos_height (hh : 0 < h) (ht : TiedAt c h rest) (hnd : (rest.map (·.1)).Nodup)
    (i : ℕ) (hi : i < rest.length) :
    (selectDistBy odds core none true (tieState 0 c k) rest).prob (wins rest[i].1) =
      keepOdds odds k i * odds (k + i + 2) := by
  induction rest generalizing k i with
  | nil => exact absurd hi (Nat.not_lt_zero i)
  | cons x rest ih =>
    obtain ⟨hb, hd, he, -⟩ := ht x (List.mem_cons_self _ _)
    simp only [List.map_cons, List.nodup_cons] at hnd
    rw [prob_selectDistBy_cons, selectStep_tie hd he (by simp)]
    dsimp only
    rw [prob_tied_absorbed hh hb ht.tail]
    cases i with
    | zero =>
      rw [List.getElem_cons_zero, prob_wins_eq_zero (by simp [tieState, hb.ne]) hnd.1]
      simp [wins, tieState]
    | succ i =>
      have hi : i < rest.length := by simpa using hi
      have hne : x.1 ≠ rest[i].1 := by
        intro heq
        exact hnd.1 (heq ▸ List.mem_map_of_mem (·.1) (List.getElem_mem hi))
      rw [List.getElem_cons_succ, ih ht.tail hnd.2 i hi, keepOdds_succ,
        show k + 1 + i + 2 = k + (i + 1) + 2 by omega]
      simp only [wins, tieState, beq_iff_eq, Option.some_inj, hne, if_false, mul_zero, zero_add]
      ring

theorem prob_leader_zero_height (ht : TiedAt c 0 rest) (hv : v ∉ rest.map (·.1)) :
    (selectDistBy odds core none true (tieState v c k) rest).prob (wins v) =
      keepOdds odds k rest.length := by
  induction rest generalizing k with
  | nil => simp [wins, tieState]
  | cons x rest ih =>
    obtain ⟨-, hd, he, hhe⟩ := ht x (List.mem_cons_self _ _)
    simp only [List.map_cons, List.mem_cons, not_or] at hv
    rw [prob_selectDistBy_cons, selectStep_tie hd he (by simp [hhe])]
    dsimp only
    rw [prob_wins_eq_zero (by simp [tieState, Ne.symm hv.1]) hv.2, ih ht.tail hv.2,
      mul_zero, zero_add, List.length_cons, keepOdds_succ]

theorem prob_tied_zero_height (ht : TiedAt c 0 rest) (hnd : (rest.map (·.1)).Nodup)
    (hv : v ∉ rest.map (·.1)) (i : ℕ) (hi : i < rest.length) :
    (selectDistBy odds core none true (tieState v c k) rest).prob (wins rest[i].1) =
      odds (k + i + 2) * keepOdds odds (k + i + 1) (rest.length - i - 1) := by
  induction rest generalizing k i v with
  | nil => exact absurd hi (Nat.not_lt_zero i)
  | cons x rest ih =>
    obtain ⟨-, hd, he, hhe⟩ := ht x (List.mem_cons_self _ _)
    simp only [List.map_cons, List.nodup_cons] at hnd
    simp only [List.map_cons, List.mem_cons, not_or] at hv
    rw [prob_selectDistBy_cons, selectStep_tie hd he (by simp [hhe])]
    dsimp only
    cases i with
    | zero =>
      rw [List.getElem_cons_zero, prob_leader_zero_height ht.tail hnd.1,
        prob_wins_eq_zero (by simp [tieState, hv.1]) hnd.1, mul_zero, add_zero]
      simp
    | succ i =>
      have hi : i < rest.length := by simpa using hi
      rw [List.getElem_cons_succ, ih ht.tail hnd.2 hnd.1 i hi, ih ht.tail hnd.2 hv.2 i hi,
        ← add_mul, add_sub_cancel, one_mul, List.length_cons,
        show k + 1 + i + 2 = k + (i + 1) + 2 by omega,
        show k + 1 + i + 1 = k + (i + 1) + 1 by omega,
        show rest.length - i - 1 = rest.length + 1 - (i + 1) - 1 by omega]

end Tied

theorem init_none_eq_tieState (c : ℚ) : Selection.init none c = tieState 0 c 0 := rfl

theorem not_mem_zero_of_tiedAt {c : ℚ} {h : ℕ} {items : List (ℕ × EcoInfo)}
    (ht : TiedAt c h items) : 0 ∉ items.map (·.1) := fun h0 => by
  obtain ⟨x, hx, hx0⟩ := List.mem_map.mp h0
  exact (ht x hx).1.ne' hx0

/-- Shards that tie the root at height 0: in the code, the root keeps the lead with odds
    `(1 - p 2) ⋯ (1 - p (N + 1))` and shard `i` (from 0) takes it with odds
    `p (i + 2) (1 - p (i + 3)) ⋯ (1 - p (N + 1))`, where `p n = drawOdds n` is the chance that
    `random.random()` falls below the double `1 / n`. With exact odds `p n = 1 / n` all `N + 1`
    would share the lead evenly, `1 / (N + 1)` each. -/
theorem tied_odds_at_zero_height (c : ℚ) (items : List (ℕ × EcoInfo))
    (ht : TiedAt c 0 items) (hnd : (items.map (·.1)).Nodup) :
    (selectDistBy drawOdds core none true (.init none c) items).prob (wins 0) =
        keepOdds drawOdds 0 items.length ∧
      (∀ (i : ℕ) (hi : i < items.length),
        (selectDistBy drawOdds core none true (.init none c) items).prob (wins items[i].1) =
          drawOdds (i + 2) * keepOdds drawOdds (i + 1) (items.length - i - 1)) ∧
      (selectDist core none true (.init none c) items).prob (wins 0) = 1 / (items.length + 1) ∧
      ∀ (i : ℕ) (hi : i < items.length),
        (selectDist core none true (.init none c) items).prob (wins items[i].1) =
          1 / (items.length + 1) := by
  have h0 := not_mem_zero_of_tiedAt ht
  rw [init_none_eq_tieState]
  refine ⟨prob_leader_zero_height ht h0, fun i hi => ?_, ?_, fun i hi => ?_⟩
  · rw [prob_tied_zero_height ht hnd h0 i hi]
    simp only [Nat.zero_add]
  · rw [selectDist, prob_leader_zero_height ht h0, keepOdds_inv]
    push_cast
    ring
  · obtain ⟨m, hm⟩ : ∃ m, items.length = i + 1 + m := ⟨items.length - i - 1, by omega⟩
    rw [selectDist, prob_tied_zero_height ht hnd h0 i hi, keepOdds_inv, hm,
      show i + 1 + m - i - 1 = m by omega]
    push_cast
    rw [show (0 : ℚ) + i + 1 + 1 = 0 + i + 2 by ring, mul_div_assoc',
      one_div_mul_cancel (by positivity), show (0 : ℚ) + i + 2 + m = i + 1 + m + 1 by ring]

/-- Shards that tie the root at a positive height: in the code, the root keeps the lead with
    odds `(1 - p 2) ⋯ (1 - p (N + 1))` and shard `i` (from 0) takes it with odds
    `(1 - p 2) ⋯ (1 - p (i + 1)) p (i + 2)`, since the first shard to win a draw keeps the root's
    `blockHeight` 0 and skips every later one. With exact odds `p n = 1 / n` the root would have
    `1 / (N + 1)` and shard `i` only `1 / ((i + 1) (i + 2))`. -/
theorem tied_odds_at_pos_height (c : ℚ) {h : ℕ} (hh : 0 < h) (items : List (ℕ × EcoInfo))
    (ht : TiedAt c h items) (hnd : (items.map (·.1)).Nodup) :
    (selectDistBy drawOdds core none true (.init none c) items).prob (wins 0) =
        keepOdds drawOdds 0 items.length ∧
      (∀ (i : ℕ) (hi : i < items.length),
        (selectDistBy drawOdds core none true (.init none c) items).prob (wins items[i].1) =
          keepOdds drawOdds 0 i * drawOdds (i + 2)) ∧
      (selectDist core none true (.init none c) items).prob (wins 0) = 1 / (items.length + 1) ∧
      ∀ (i : ℕ) (hi : i < items.length),
        (selectDist core none true (.init none c) items).prob (wins items[i].1) =
          1 / ((i + 1) * (i + 2)) := by
  rw [init_none_eq_tieState]
  refine ⟨prob_root_pos_height hh ht, fun i hi => ?_, ?_, fun i hi => ?_⟩
  · rw [prob_shard_pos_height hh ht hnd i hi, zero_add]
  · rw [selectDist, prob_root_pos_height hh ht, keepOdds_inv]
    push_cast
    ring
  · rw [selectDist, prob_shard_pos_height hh ht hnd i hi, keepOdds_inv]
    push_cast
    rw [div_mul_div_comm]
    congr 1 <;> ring

/-- Two shards tie the root's eco 2 at height 0: the code gives the root and the first shard
    `(1 - p 3) / 2` each and the second shard `p 3`, a little more than a third. -/
theorem tied_at_zero_height_odds :
    let core : Core := ⟨fun _ s => s, id, fun _ => 1, fun _ _ => true, fun _ _ => true,
      fun _ _ => true⟩
    let items : List (ℕ × EcoInfo) := [(1, ⟨1, 0, 2, 1, 0⟩), (2, ⟨2, 0, 2, 1, 0⟩)]
    TiedAt 2 0 items ∧ (items.map (·.1)).Nodup ∧
      keepOdds drawOdds 0 items.length = 6004799503160661 / 2 ^ 54 ∧
      (selectDistBy drawOdds core none true (.init none 2) items).prob (wins 0) =
        keepOdds drawOdds 0 items.length ∧
      (∀ (i : ℕ) (hi : i < items.length),
        (selectDistBy drawOdds core none true (.init none 2) items).prob (wins items[i].1) =
          drawOdds (i + 2) * keepOdds drawOdds (i + 1) (items.length - i - 1)) ∧
      (selectDist core none true (.init none 2) items).prob (wins 0) = 1 / (items.length + 1) ∧
      ∀ (i : ℕ) (hi : i < items.length),
        (selectDist core none true (.init none 2) items).prob (wins items[i].1) =
          1 / (items.length + 1) := by
  intro core items
  have ht : TiedAt 2 0 items := by norm_num [TiedAt, items, EcoInfo.eco]
  have hnd : (items.map (·.1)).Nodup := by decide
  refine ⟨ht, hnd, ?_, tied_odds_at_zero_height 2 items ht hnd⟩
  simp [items, keepOdds, List.range_succ, drawOdds_two, drawOdds_three]
  norm_num

theorem tied_at_height_one_odds :
    let core : Core := ⟨fun _ s => s, id, fun _ => 1, fun _ _ => true, fun _ _ => true,
      fun _ _ => true⟩
    let items : List (ℕ × EcoInfo) := [(1, ⟨1, 1, 2, 1, 0⟩), (2, ⟨2, 1, 2, 1, 0⟩)]
    0 < 1 ∧ TiedAt 2 1 items ∧ (items.map (·.1)).Nodup ∧
      (selectDistBy drawOdds core none true (.init none 2) items).prob (wins 0) =
        keepOdds drawOdds 0 items.length ∧
      (∀ (i : ℕ) (hi : i < items.length),
        (selectDistBy drawOdds core none true (.init none 2) items).prob (wins items[i].1) =
          keepOdds drawOdds 0 i * drawOdds (i + 2)) ∧
      (selectDist core none true (.init none 2) items).prob (wins 0) = 1 / (items.length + 1) ∧
      ∀ (i : ℕ) (hi : i < items.length),
        (selectDist core none true (.init none 2) items).prob (wins items[i].1) =
          1 / ((i + 1) * (i + 2)) := by
  intro core items
  have ht : TiedAt 2 1 items := by norm_num [TiedAt, items, EcoInfo.eco]
  have hnd : (items.map (·.1)).Nodup := by decide
  exact ⟨Nat.one_pos, ht, hnd, tied_odds_at_pos_height 2 Nat.one_pos items ht hnd⟩

end QuarkChain.Mining
