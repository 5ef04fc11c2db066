import Mathlib.Data.List.Nodup

set_option autoImplicit false

/-!
# What master.py takes from Python and from `quarkchain.core`

A `dict` is its item list in insertion order: assigning to a present key replaces the value
in place, a new key goes last. Branches and shard masks live in `quarkchain.core`, which is
not part of this source; master.py only calls into it, so those functions are the fields of
`Core`, with no law assumed beyond what a statement names.
-/

namespace QuarkChain

/-- The exceptions that end a master.py coroutine. -/
inductive PyError where
  | checkFailed  -- `check(...)` of quarkchain.utils failed
  | keyError  -- A `dict` lookup of a missing key
  | invalidState  -- `set_result` on a future that is already done
  | zeroDivision  -- `/` of an int by zero
  | raised  -- An exception raised inside a collaborator (the root state, an RPC)
  | indexError  -- A list index out of range
  deriving DecidableEq, Repr

namespace PyDict
variable {κ ν : Type} [DecidableEq κ]

/-- `d[k] = v`. -/
def set : List (κ × ν) → κ → ν → List (κ × ν)
  | [], k, v => [(k, v)]
  | (k', v') :: d, k, v => if k' = k then (k, v) :: d else (k', v') :: set d k v

/-- `d.get(k)`. -/
def get? : List (κ × ν) → κ → Option ν
  | [], _ => none
  | (k', v') :: d, k => if k' = k then some v' else get? d k

/-- `d.setdefault(k, []).append(x)`. -/
def setdefaultAppend (d : List (κ × List ν)) (k : κ) (x : ν) : List (κ × List ν) :=
  set d k ((get? d k).getD [] ++ [x])

@[simp] theorem get?_nil (k : κ) : get? ([] : List (κ × ν)) k = none := rfl

theorem get?_cons (k k' : κ) (v' : ν) (d : List (κ × ν)) :
    get? ((k', v') :: d) k = if k' = k then some v' else get? d k := rfl

@[simp] theorem get?_set (d : List (κ × ν)) (k j : κ) (v : ν) :
    get? (set d k v) j = if k = j then some v else get? d j := by
  induction d with
  | nil => rfl
  | cons e d ih =>
    obtain ⟨k', v'⟩ := e
    by_cases hk : k' = k
    · subst hk; by_cases hj : k' = j <;> simp [set, get?_cons, hj]
    · by_cases hj : k' = j
      · subst hj; simp [set, get?_cons, hk, Ne.symm hk]
      · simp [set, get?_cons, hk, hj, ih]

theorem mem_set {d : List (κ × ν)} {k : κ} {v : ν} {p : κ × ν} (h : p ∈ set d k v) :
    p = (k, v) ∨ p ∈ d := by
  induction d with
  | nil => exact .inl (List.mem_singleton.mp h)
  | cons e d ih =>
    obtain ⟨k', v'⟩ := e
    simp only [set] at h
    split at h
    · rcases List.mem_cons.mp h with h | h
      exacts [.inl h, .inr (List.mem_cons_of_mem _ h)]
    · rcases List.mem_cons.mp h with h | h
      · exact .inr (h ▸ List.mem_cons_self _ _)
      · exact (ih h).imp_right (List.mem_cons_of_mem _)

theorem get?_eq_none_iff (d : List (κ × ν)) (k : κ) : get? d k = none ↔ k ∉ d.map Prod.fst := by
  induction d with
  | nil => simp
  | cons e d ih =>
    obtain ⟨k', v'⟩ := e
    by_cases h : k' = k
    · simp [get?_cons, h]
    · simp [get?_cons, h, Ne.symm h, ih]

theorem keys_set (d : List (κ × ν)) (k : κ) (v : ν) :
    (set d k v).map Prod.fst =
      if k ∈ d.map Prod.fst then d.map Prod.fst else d.map Prod.fst ++ [k] := by
  induction d with
  | nil => rfl
  | cons e d ih =>
    obtain ⟨k', v'⟩ := e
    by_cases h : k' = k
    · simp [set, h]
    · simp only [set, h, if_false, List.map_cons, ih, List.mem_cons, Ne.symm h, false_or]
      split <;> rfl

theorem nodup_keys_set {d : List (κ × ν)} (hd : (d.map Prod.fst).Nodup) (k : κ) (v : ν) :
    ((set d k v).map Prod.fst).Nodup := by
  rw [keys_set]
  split
  · exact hd
  · rename_i hk
    exact hd.append (List.nodup_singleton k) (List.disjoint_singleton.mpr hk)

theorem get?_of_mem {d : List (κ × ν)} (hd : (d.map Prod.fst).Nodup) {k : κ} {v : ν}
    (h : (k, v) ∈ d) : get? d k = some v := by
  induction d with
  | nil => simp at h
  | cons e d ih =>
    obtain ⟨k', v'⟩ := e
    simp only [List.map_cons, List.nodup_cons] at hd
    rcases List.mem_cons.mp h with h | h
    · cases h; simp [get?_cons]
    · have hk : k' ≠ k := fun e => hd.1 (e ▸ List.mem_map_of_mem Prod.fst h)
      simp [get?_cons, hk, ih hd.2 h]

theorem get?_foldl_set {α : Type} (key : α → κ) (val : α → ν) (l : List α) (d : List (κ × ν))
    (k : κ) : get? (l.foldl (fun d x => set d (key x) (val x)) d) k =
      ((l.reverse.find? (key · = k)).map val).or (get? d k) := by
  induction l generalizing d with
  | nil => simp
  | cons x l ih =>
    rw [List.foldl_cons, ih, get?_set, List.reverse_cons, List.find?_append]
    cases l.reverse.find? (key · = k) <;> by_cases hx : key x = k <;> simp [hx]

theorem mem_foldl_set {key : ν → κ} {l : List ν} {d : List (κ × ν)} {p : κ × ν}
    (h : p ∈ l.foldl (fun d x => set d (key x) x) d) : p ∈ d ∨ (p.1 = key p.2 ∧ p.2 ∈ l) := by
  induction l generalizing d with
  | nil => exact .inl h
  | cons x l ih =>
    rcases ih h with h | ⟨hk, hl⟩
    · rcases mem_set h with rfl | h
      exacts [.inr ⟨rfl, List.mem_cons_self _ _⟩, .inl h]
    · exact .inr ⟨hk, List.mem_cons_of_mem _ hl⟩

theorem nodup_keys_foldl_set {α : Type} (key : α → κ) (val : α → ν) (l : List α)
    {d : List (κ × ν)} (hd : (d.map Prod.fst).Nodup) :
    ((l.foldl (fun d x => set d (key x) (val x)) d).map Prod.fst).Nodup := by
  induction l generalizing d with
  | nil => exact hd
  | cons x l ih => exact ih (nodup_keys_set hd _ _)

end PyDict

/-- A Python loop whose body either leaves the function (`stop`) or updates the accumulator
    with `step`: it leaves exactly when some item is `bad`. -/
theorem foldlM_stop_or {m : Type → Type} [Monad m] [LawfulMonad m] {α σ : Type} (stop : m σ)
    (hstop : ∀ g : σ → m σ, stop >>= g = stop) (bad : α → Bool) (step : σ → α → σ)
    {f : σ → α → m σ} (hf : ∀ d a, f d a = if bad a then stop else pure (step d a))
    (l : List α) (d : σ) :
    l.foldlM f d = if l.any bad then stop else pure (l.foldl step d) := by
  induction l generalizing d with
  | nil => rfl
  | cons a l ih =>
    rw [List.foldlM_cons, hf, List.any_cons, List.foldl_cons]
    cases bad a
    · rw [if_neg Bool.false_ne_true, pure_bind, ih, Bool.false_or]
    · rw [if_pos rfl, hstop, Bool.true_or, if_pos rfl]

/-- What master.py calls of `quarkchain.core`. A branch and a shard mask are their `value`. -/
structure Core where
  create : ℕ → ℕ → ℕ  -- `Branch.create(shardSize, shardId).value`
  getShardId : ℕ → ℕ  -- `Branch(value).getShardId()`
  getShardSize : ℕ → ℕ  -- `Branch(value).getShardSize()`
  containShardId : ℕ → ℕ → Bool  -- `ShardMask(value).containShardId(shardId)`
  containBranch : ℕ → ℕ → Bool  -- `ShardMask(value).containBranch(Branch(branchValue))`
  hasOverlap : ℕ → ℕ → Bool  -- `ShardMask(value).hasOverlap(ShardMask(other))`

/-- A slave of the cluster configuration; `ip` and `port` only reach `__connect`, which
    retries until it succeeds. -/
structure SlaveInfo where
  id : String
  shardMaskList : List ℕ
  deriving DecidableEq, Repr

namespace SlaveInfo
variable (core : Core)

def hasShard (slave : SlaveInfo) (shardId : ℕ) : Bool :=
  slave.shardMaskList.any (core.containShardId · shardId)

def hasOverlap (slave : SlaveInfo) (shardMask : ℕ) : Bool :=
  slave.shardMaskList.any (core.hasOverlap · shardMask)

end SlaveInfo

end QuarkChain
