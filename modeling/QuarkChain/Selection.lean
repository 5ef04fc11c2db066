import QuarkChain.Core
import QuarkChain.Doubles

set_option autoImplicit false

/-!
# The selection loop of `getNextBlockToMine`

The loop walks `branchValueToEcoInfo.items()` and keeps the candidate of best eco
(`coinbaseAmount / difficulty`): the root, whose eco comes in as the initial `maxEco`, or a
shard. A tie with a shard goes to the lower height; with `randomizeOutput`, a tie may go to the
newcomer by `random.random() < 1 / dupEcoCount`. `selectStep` is one pass of the body; its one
draw is an `Outcome.draw`, so that the loop runs in any monad that answers draws: on the values
`random.random()` returns (`selectOnBy`), or as a distribution. The ecos it compares are those
of its entries, exact rationals; `getNextBlockToMine` hands it entries whose ecos are the doubles
Python computes. How `1 / dupEcoCount` is divided is the monad's: exactly (`selectOn`), or into
the double Python compares with.
-/

namespace QuarkChain.Mining

/-- An entry of a `GET_ECO_INFO_LIST` reply. -/
structure EcoInfo where
  branch : ℕ  -- `ecoInfo.branch.value`
  height : ℕ
  coinbaseAmount : ℕ
  difficulty : ℕ
  unconfirmedHeadersCoinbaseAmount : ℕ
  deriving DecidableEq, Repr

structure Selection where
  branchValueWithMaxEco : Option ℕ
  maxEco : ℚ
  dupEcoCount : ℕ
  blockHeight : ℕ
  deriving DecidableEq, Repr

/-- `ecoInfo.coinbaseAmount / ecoInfo.difficulty`. -/
def EcoInfo.eco (ecoInfo : EcoInfo) : ℚ := (ecoInfo.coinbaseAmount : ℚ) / ecoInfo.difficulty

/-- `shardMask and not shardMask.containBranch(Branch(branchValue))`: the loop's `continue`. -/
def skipped (core : Core) (shardMask : Option ℕ) (branchValue : ℕ) : Bool :=
  match shardMask with
  | some mask => !core.containBranch mask branchValue
  | none => false

/-- Where one pass of the loop body leaves the variables. -/
inductive Outcome where
  | next (sel : Selection)
  -- `if random.random() < 1 / dupEcoCount`: `ifBelow` when it is, `ifNot` otherwise
  | draw (dupEcoCount : ℕ) (ifBelow ifNot : Selection)
  | raise (e : PyError)

/-- `branchValueWithMaxEco = 0 if shardMask is None else None`, `dupEcoCount = 1`,
    `blockHeight = 0`. -/
def Selection.init (shardMask : Option ℕ) (maxEco : ℚ) : Selection :=
  ⟨if shardMask = none then some 0 else none, maxEco, 1, 0⟩

/-- One pass of the loop body for `(branchValue, ecoInfo)`. -/
def selectStep (core : Core) (shardMask : Option ℕ) (randomizeOutput : Bool) (sel : Selection)
    (branchValue : ℕ) (ecoInfo : EcoInfo) : Outcome :=
  if skipped core shardMask branchValue then .next sel
  else if ecoInfo.difficulty = 0 then .raise .zeroDivision
  else
    let eco := ecoInfo.eco
    -- `or` and `and` short-circuit, so `branchValueWithMaxEco > 0` is read only when it is set
    if sel.branchValueWithMaxEco = none ∨ eco > sel.maxEco ∨
        (eco = sel.maxEco ∧ sel.branchValueWithMaxEco.getD 0 > 0 ∧
          sel.blockHeight > ecoInfo.height) then
      .next ⟨some branchValue, eco, 1, ecoInfo.height⟩
    else if eco = sel.maxEco ∧ randomizeOutput then
      if sel.branchValueWithMaxEco.getD 0 > 0 ∧ sel.blockHeight < ecoInfo.height then .next sel
      else
        let sel := { sel with dupEcoCount := sel.dupEcoCount + 1 }
        .draw sel.dupEcoCount
          { sel with branchValueWithMaxEco := some branchValue, maxEco := eco } sel
    else .next sel

/-- The loop body in a monad `M` in which `below n` is `random.random() < 1 / n`. -/
def Outcome.run {M : Type → Type} [Monad M] (below : ℕ → M Bool) :
    Outcome → ExceptT PyError M Selection
  | .next sel => pure sel
  | .draw n ifBelow ifNot => do return if (← below n) then ifBelow else ifNot
  | .raise e => throw e

/-- `for branchValue, ecoInfo in branchValueToEcoInfo.items()`, from `sel`. -/
def selectLoop {M : Type → Type} [Monad M] (below : ℕ → M Bool) (core : Core)
    (shardMask : Option ℕ) (randomizeOutput : Bool) (sel : Selection)
    (items : List (ℕ × EcoInfo)) : ExceptT PyError M Selection :=
  items.foldlM (fun sel (branchValue, ecoInfo) =>
    (selectStep core shardMask randomizeOutput sel branchValue ecoInfo).run below) sel

/-- The values successive calls of `random.random()` return. -/
abbrev Draws := ℕ → ℚ

/-- `random.random() < 1 / n`, consuming one draw, where `threshold n` is the value of `1 / n`. -/
def drawBelow (threshold : ℕ → ℚ) (n : ℕ) : StateM Draws Bool :=
  fun u => (decide (u 0 < threshold n), fun k => u (k + 1))

/-- The loop on a given stream of draws, with `1 / n` worth `threshold n`. -/
def selectOnBy (threshold : ℕ → ℚ) (core : Core) (shardMask : Option ℕ) (randomizeOutput : Bool)
    (sel : Selection) (items : List (ℕ × EcoInfo)) (u : Draws) : Except PyError Selection :=
  ((selectLoop (drawBelow threshold) core shardMask randomizeOutput sel items).run.run u).1

/-- The loop on a given stream of draws, with `1 / n` the exact rational. -/
def selectOn (core : Core) (shardMask : Option ℕ) (randomizeOutput : Bool) (sel : Selection)
    (items : List (ℕ × EcoInfo)) (u : Draws) : Except PyError Selection :=
  selectOnBy (fun n => 1 / n) core shardMask randomizeOutput sel items u

variable {threshold : ℕ → ℚ} {core : Core} {shardMask : Option ℕ} {randomizeOutput : Bool}

theorem selectOnBy_nil (sel : Selection) (u : Draws) :
    selectOnBy threshold core shardMask randomizeOutput sel [] u = .ok sel := rfl

theorem selectOnBy_cons (sel : Selection) (b : ℕ) (e : EcoInfo) (rest : List (ℕ × EcoInfo))
    (u : Draws) :
    selectOnBy threshold core shardMask randomizeOutput sel ((b, e) :: rest) u =
      match selectStep core shardMask randomizeOutput sel b e with
      | .next s => selectOnBy threshold core shardMask randomizeOutput s rest u
      | .draw n t f => selectOnBy threshold core shardMask randomizeOutput
          (if u 0 < threshold n then t else f) rest (fun k => u (k + 1))
      | .raise err => .error err := by
  change (((selectStep core shardMask randomizeOutput sel b e).run (drawBelow threshold) >>=
    fun s => selectLoop (drawBelow threshold) core shardMask randomizeOutput s rest).run.run u).1 =
    _
  cases selectStep core shardMask randomizeOutput sel b e with
  | draw n t f =>
    show selectOnBy threshold core shardMask randomizeOutput
      (if decide (u 0 < threshold n) = true then t else f) rest _ = _
    simp only [decide_eq_true_eq]
  | _ => rfl

/-- `selectStep` by the branch it takes, each under its guards: a property of the outcome holds
    when it holds in every branch. -/
theorem selectStep_elim (motive : Outcome → Prop) (sel : Selection) (b : ℕ) (e : EcoInfo)
    (skip : skipped core shardMask b = true → motive (.next sel))
    (zero : skipped core shardMask b = false → e.difficulty = 0 → motive (.raise .zeroDivision))
    (take : skipped core shardMask b = false → e.difficulty ≠ 0 →
      (sel.branchValueWithMaxEco = none ∨ e.eco > sel.maxEco ∨
        (e.eco = sel.maxEco ∧ sel.branchValueWithMaxEco.getD 0 > 0 ∧
          sel.blockHeight > e.height)) →
      motive (.next ⟨some b, e.eco, 1, e.height⟩))
    (higher : skipped core shardMask b = false → e.difficulty ≠ 0 →
      ¬ (sel.branchValueWithMaxEco = none ∨ e.eco > sel.maxEco ∨
        (e.eco = sel.maxEco ∧ sel.branchValueWithMaxEco.getD 0 > 0 ∧
          sel.blockHeight > e.height)) →
      e.eco = sel.maxEco → randomizeOutput = true →
      sel.branchValueWithMaxEco.getD 0 > 0 ∧ sel.blockHeight < e.height → motive (.next sel))
    (draw : skipped core shardMask b = false → e.difficulty ≠ 0 →
      ¬ (sel.branchValueWithMaxEco = none ∨ e.eco > sel.maxEco ∨
        (e.eco = sel.maxEco ∧ sel.branchValueWithMaxEco.getD 0 > 0 ∧
          sel.blockHeight > e.height)) →
      e.eco = sel.maxEco → randomizeOutput = true →
      ¬ (sel.branchValueWithMaxEco.getD 0 > 0 ∧ sel.blockHeight < e.height) →
      motive (.draw (sel.dupEcoCount + 1) ⟨some b, e.eco, sel.dupEcoCount + 1, sel.blockHeight⟩
        { sel with dupEcoCount := sel.dupEcoCount + 1 }))
    (lower : skipped core shardMask b = false → e.difficulty ≠ 0 →
      ¬ (sel.branchValueWithMaxEco = none ∨ e.eco > sel.maxEco ∨
        (e.eco = sel.maxEco ∧ sel.branchValueWithMaxEco.getD 0 > 0 ∧
          sel.blockHeight > e.height)) →
      ¬ (e.eco = sel.maxEco ∧ randomizeOutput = true) → motive (.next sel)) :
    motive (selectStep core shardMask randomizeOutput sel b e) := by
  unfold selectStep
  by_cases hs : skipped core shardMask b = true
  · rw [if_pos hs]; exact skip hs
  have hk := Bool.eq_false_iff.mpr hs
  rw [if_neg hs]
  by_cases hd0 : e.difficulty = 0
  · rw [if_pos hd0]; exact zero hk hd0
  rw [if_neg hd0]
  dsimp only
  by_cases hfirst : sel.branchValueWithMaxEco = none ∨ e.eco > sel.maxEco ∨
      (e.eco = sel.maxEco ∧ sel.branchValueWithMaxEco.getD 0 > 0 ∧ sel.blockHeight > e.height)
  · rw [if_pos hfirst]; exact take hk hd0 hfirst
  rw [if_neg hfirst]
  by_cases htie : e.eco = sel.maxEco ∧ randomizeOutput = true
  · rw [if_pos htie]
    by_cases hskip : sel.branchValueWithMaxEco.getD 0 > 0 ∧ sel.blockHeight < e.height
    · rw [if_pos hskip]; exact higher hk hd0 hfirst htie.1 htie.2 hskip
    · rw [if_neg hskip]; exact draw hk hd0 hfirst htie.1 htie.2 hskip
  · rw [if_neg htie]; exact lower hk hd0 hfirst htie

def Outcome.Into (P : Selection → Prop) : Outcome → Prop
  | .next sel => P sel
  | .draw _ ifBelow ifNot => P ifBelow ∧ P ifNot
  | .raise _ => False

section Run
variable (I : List (ℕ × EcoInfo) → Selection → Prop) {items : List (ℕ × EcoInfo)}
  (hstep : ∀ pre b e sel, (b, e) ∈ items → I pre sel →
    (selectStep core shardMask randomizeOutput sel b e).Into (I (pre ++ [(b, e)])))
include hstep

theorem selectOnBy_inv_from {pre rest : List (ℕ × EcoInfo)} (hrest : ∀ x ∈ rest, x ∈ items)
    {sel : Selection} (h : I pre sel) (u : Draws) :
    ∃ s, selectOnBy threshold core shardMask randomizeOutput sel rest u = .ok s ∧
      I (pre ++ rest) s := by
  induction rest generalizing pre sel u with
  | nil => exact ⟨sel, rfl, by simpa using h⟩
  | cons x rest ih =>
    obtain ⟨b, e⟩ := x
    have hx := hstep pre b e sel (hrest _ (List.mem_cons_self _ _)) h
    have ih := fun {s} (hs : I (pre ++ [(b, e)]) s) u =>
      ih (fun y hy => hrest y (List.mem_cons_of_mem _ hy)) hs u
    simp only [List.append_assoc, List.singleton_append] at ih
    rw [selectOnBy_cons]
    revert hx
    cases selectStep core shardMask randomizeOutput sel b e with
    | next s => exact fun hx => ih hx u
    | draw n t f => exact fun hx => by dsimp only; split; exacts [ih hx.1 _, ih hx.2 _]
    | raise _ => exact False.elim

/-- A property of the processed prefix that every pass keeps, whatever it draws, holds when
    the loop ends, and the loop raises nothing. -/
theorem selectOnBy_inv (threshold : ℕ → ℚ) {sel : Selection} (h : I [] sel) (u : Draws) :
    ∃ s, selectOnBy threshold core shardMask randomizeOutput sel items u = .ok s ∧ I items s :=
  selectOnBy_inv_from I hstep (fun _ hx => hx) h u

theorem selectOn_inv {sel : Selection} (h : I [] sel) (u : Draws) :
    ∃ s, selectOn core shardMask randomizeOutput sel items u = .ok s ∧ I items s :=
  selectOnBy_inv I hstep _ h u

end Run

/-- The candidates in order whose branch `ShardMask(shardMaskValue)` contains; all of them when
    there is no mask. -/
def eligible (core : Core) (shardMask : Option ℕ) (items : List (ℕ × EcoInfo)) :
    List (ℕ × EcoInfo) :=
  items.filter fun x => shardMask.all (core.containBranch · x.1)

theorem skipped_eq (b : ℕ) :
    skipped core shardMask b = !shardMask.all (core.containBranch · b) := by
  cases shardMask <;> rfl

@[simp] theorem mem_eligible {x : ℕ × EcoInfo} {items : List (ℕ × EcoInfo)} :
    x ∈ eligible core shardMask items ↔ x ∈ items ∧ skipped core shardMask x.1 = false := by
  simp [eligible, skipped_eq]

theorem mem_eligible_append {x : ℕ × EcoInfo} {items : List (ℕ × EcoInfo)}
    (hx : x ∈ eligible core shardMask items) (l : List (ℕ × EcoInfo)) :
    x ∈ eligible core shardMask (items ++ l) :=
  mem_eligible.mpr ⟨List.mem_append_left _ (mem_eligible.mp hx).1, (mem_eligible.mp hx).2⟩

theorem eligible_cons_kept {items : List (ℕ × EcoInfo)} {b : ℕ} {e : EcoInfo}
    (hk : skipped core shardMask b = false) :
    eligible core shardMask ((b, e) :: items) = (b, e) :: eligible core shardMask items := by
  rw [skipped_eq, Bool.not_eq_false'] at hk
  simp [eligible, hk]

theorem eligible_cons_skipped {items : List (ℕ × EcoInfo)} {b : ℕ} {e : EcoInfo}
    (hs : skipped core shardMask b = true) :
    eligible core shardMask ((b, e) :: items) = eligible core shardMask items := by
  rw [skipped_eq, Bool.not_eq_true'] at hs
  simp [eligible, hs]

theorem eligible_append_kept {items : List (ℕ × EcoInfo)} {b : ℕ} {e : EcoInfo}
    (hk : skipped core shardMask b = false) :
    eligible core shardMask (items ++ [(b, e)]) = eligible core shardMask items ++ [(b, e)] := by
  rw [skipped_eq, Bool.not_eq_false'] at hk
  simp [eligible, hk]

theorem eligible_append_skipped {items : List (ℕ × EcoInfo)} {b : ℕ} {e : EcoInfo}
    (hs : skipped core shardMask b = true) :
    eligible core shardMask (items ++ [(b, e)]) = eligible core shardMask items := by
  rw [skipped_eq, Bool.not_eq_true'] at hs
  simp [eligible, hs]

theorem selectOnBy_of_eligible_nil {items : List (ℕ × EcoInfo)}
    (h : eligible core shardMask items = []) (sel : Selection) (u : Draws) :
    selectOnBy threshold core shardMask randomizeOutput sel items u = .ok sel := by
  induction items with
  | nil => rfl
  | cons x rest ih =>
    obtain ⟨b, e⟩ := x
    cases hs : skipped core shardMask b
    · simp [eligible_cons_kept hs] at h
    · rw [selectOnBy_cons, selectStep, if_pos hs]
      exact ih (eligible_cons_skipped hs ▸ h)

/-- What the loop knows of the maximum over the processed prefix `pre`. -/
structure MaxInv (core : Core) (shardMask : Option ℕ) (rootEco : ℚ) (pre : List (ℕ × EcoInfo))
    (sel : Selection) : Prop where
  bound : ∀ x ∈ eligible core shardMask pre, x.2.eco ≤ sel.maxEco
  root : shardMask = none → rootEco ≤ sel.maxEco
  undecided : sel.branchValueWithMaxEco = none → shardMask ≠ none ∧ eligible core shardMask pre = []
  named : ∀ v, sel.branchValueWithMaxEco = some v →
    (v = 0 ∧ shardMask = none ∧ sel.maxEco = rootEco) ∨
      ∃ e, (v, e) ∈ eligible core shardMask pre ∧ e.eco = sel.maxEco

namespace MaxInv
variable {rootEco : ℚ} {pre : List (ℕ × EcoInfo)} {sel sel' : Selection} {b : ℕ} {e : EcoInfo}

theorem init : MaxInv core shardMask rootEco [] (.init shardMask rootEco) where
  bound := by simp
  root := fun _ => le_rfl
  undecided := by cases shardMask <;> simp [Selection.init, eligible]
  named := by cases shardMask <;> simp [Selection.init]

theorem keep (h : MaxInv core shardMask rootEco pre sel)
    (hle : skipped core shardMask b = false → e.eco ≤ sel.maxEco)
    (hnone : sel.branchValueWithMaxEco = none → skipped core shardMask b = true)
    (hbv : sel'.branchValueWithMaxEco = sel.branchValueWithMaxEco)
    (hmax : sel'.maxEco = sel.maxEco) :
    MaxInv core shardMask rootEco (pre ++ [(b, e)]) sel' where
  bound x hx := by
    rw [hmax]
    rcases List.mem_append.mp (mem_eligible.mp hx).1 with hx' | hx'
    · exact h.bound x (mem_eligible.mpr ⟨hx', (mem_eligible.mp hx).2⟩)
    · obtain rfl := List.mem_singleton.mp hx'
      exact hle (mem_eligible.mp hx).2
  root hm := hmax ▸ h.root hm
  undecided hn := by
    obtain ⟨hm, he⟩ := h.undecided (hbv ▸ hn)
    refine ⟨hm, List.eq_nil_iff_forall_not_mem.mpr fun x hx => ?_⟩
    rcases List.mem_append.mp (mem_eligible.mp hx).1 with hx' | hx'
    · exact List.not_mem_nil x (he ▸ mem_eligible.mpr ⟨hx', (mem_eligible.mp hx).2⟩)
    · obtain rfl := List.mem_singleton.mp hx'
      simp [hnone (hbv ▸ hn)] at hx
  named v hv := by
    rcases h.named v (hbv ▸ hv) with hr | ⟨e', he', hee⟩
    · exact .inl (hmax ▸ hr)
    · exact .inr ⟨e', by simp_all, hmax ▸ hee⟩

theorem take (h : MaxInv core shardMask rootEco pre sel) (hk : skipped core shardMask b = false)
    (hge : sel.branchValueWithMaxEco = none ∨ sel.maxEco ≤ e.eco)
    (hbv : sel'.branchValueWithMaxEco = some b) (hmax : sel'.maxEco = e.eco) :
    MaxInv core shardMask rootEco (pre ++ [(b, e)]) sel' where
  bound x hx := by
    rw [hmax]
    rcases List.mem_append.mp (mem_eligible.mp hx).1 with hx' | hx'
    · have hxe := mem_eligible.mpr ⟨hx', (mem_eligible.mp hx).2⟩
      rcases hge with hn | hle
      · exact absurd ((h.undecided hn).2 ▸ hxe) (List.not_mem_nil x)
      · exact (h.bound x hxe).trans hle
    · rw [List.mem_singleton.mp hx']
  root hm := by
    rcases hge with hn | hle
    · exact absurd hm (h.undecided hn).1
    · exact hmax ▸ (h.root hm).trans hle
  undecided hn := by simp [hbv] at hn
  named v hv := .inr ⟨e, by simp_all, hmax.symm⟩

theorem step (h : MaxInv core shardMask rootEco pre sel)
    (hd : skipped core shardMask b = false → 0 < e.difficulty) :
    (selectStep core shardMask randomizeOutput sel b e).Into
      (MaxInv core shardMask rootEco (pre ++ [(b, e)])) := by
  refine selectStep_elim _ sel b e ?skip ?zero ?take ?higher ?draw ?lower
  case skip => exact fun hs => h.keep (by simp [hs]) (fun _ => hs) rfl rfl
  case zero => exact fun hk hd0 => absurd hd0 (hd hk).ne'
  case take =>
    rintro hk - (hn | hlt | ⟨heq, -⟩)
    exacts [h.take hk (.inl hn) rfl rfl, h.take hk (.inr hlt.le) rfl rfl,
      h.take hk (.inr heq.ge) rfl rfl]
  case higher =>
    exact fun _ _ hfirst htie _ _ =>
      h.keep (fun _ => htie.le) (fun hn => absurd (.inl hn) hfirst) rfl rfl
  case draw =>
    exact fun hk _ hfirst htie _ _ => ⟨h.take hk (.inr htie.ge) rfl rfl,
      h.keep (fun _ => htie.le) (fun hn => absurd (.inl hn) hfirst) rfl rfl⟩
  case lower =>
    exact fun _ _ hfirst _ => h.keep (fun _ => not_lt.mp fun hlt => hfirst (.inr (.inl hlt)))
      (fun hn => absurd (.inl hn) hfirst) rfl rfl

end MaxInv

theorem selection_attains_max (rootEco : ℚ) (items : List (ℕ × EcoInfo))
    (hdiff : ∀ x ∈ eligible core shardMask items, 0 < x.2.difficulty)
    (hne : shardMask = none ∨ eligible core shardMask items ≠ []) (u : Draws) :
    ∃ sel, selectOn core shardMask randomizeOutput (.init shardMask rootEco) items u = .ok sel ∧
      (∀ x ∈ eligible core shardMask items, x.2.eco ≤ sel.maxEco) ∧
      (shardMask = none → rootEco ≤ sel.maxEco) ∧
      ∃ v, sel.branchValueWithMaxEco = some v ∧
        ((v = 0 ∧ shardMask = none ∧ sel.maxEco = rootEco) ∨
          ∃ e, (v, e) ∈ eligible core shardMask items ∧ e.eco = sel.maxEco) := by
  obtain ⟨sel, hrun, h⟩ := selectOn_inv (MaxInv core shardMask rootEco)
    (fun _ b e _ hx h => h.step fun hk => hdiff (b, e) (mem_eligible.mpr ⟨hx, hk⟩)) MaxInv.init u
  refine ⟨sel, hrun, h.bound, h.root, ?_⟩
  cases hv : sel.branchValueWithMaxEco with
  | none => exact absurd (h.undecided hv) (by tauto)
  | some v => exact ⟨v, rfl, h.named v hv⟩

theorem tied_shards_reach_root_eco :
    let core : Core := ⟨fun _ s => s, id, fun _ => 1, fun _ _ => true, fun mask b => b == mask,
      fun _ _ => true⟩
    let items : List (ℕ × EcoInfo) := [(1, ⟨1, 5, 2, 1, 0⟩), (2, ⟨2, 3, 2, 1, 0⟩)]
    (∀ x ∈ eligible core none items, 0 < x.2.difficulty) ∧
      (∃ sel, selectOn core none true (.init none 2) items (fun _ => 0) = .ok sel ∧
        2 ≤ sel.maxEco) ∧
      (∀ x ∈ eligible core (some 2) items, 0 < x.2.difficulty) ∧ eligible core (some 2) items ≠ [] ∧
      ∃ sel, selectOn core (some 2) true (.init (some 2) 0) items (fun _ => 0) = .ok sel ∧
        ∃ v, sel.branchValueWithMaxEco = some v ∧
          ∃ e, (v, e) ∈ eligible core (some 2) items ∧ e.eco = sel.maxEco := by
  intro core items
  have hd : ∀ x ∈ eligible core none items, 0 < x.2.difficulty := by decide
  have hd₂ : ∀ x ∈ eligible core (some 2) items, 0 < x.2.difficulty := by decide
  have hne : eligible core (some 2) items ≠ [] := by decide
  refine ⟨hd, ?_, hd₂, hne, ?_⟩
  · exact (selection_attains_max 2 items hd (.inl rfl) _).imp fun _ h => ⟨h.1, h.2.2.1 rfl⟩
  · refine (selection_attains_max 0 items hd₂ (.inr hne) _).imp fun _ h => ⟨h.1, ?_⟩
    obtain ⟨v, hv, ⟨-, hm, -⟩ | he⟩ := h.2.2.2
    exacts [absurd hm (by decide), ⟨v, hv, he⟩]

/-- A shard that ties the root wins the draw but keeps the root's `blockHeight` 0, so the tied
    shard after it, lower than it, is skipped as higher; the double `1 / 2` is exact. -/
theorem tie_with_root_keeps_height (core : Core) :
    selectOn core none true (.init none 2) [(1, ⟨1, 5, 2, 1, 0⟩), (2, ⟨2, 3, 2, 1, 0⟩)]
      (fun _ => 0) = .ok ⟨some 1, 2, 2, 0⟩ ∧
    selectOnBy (trueDiv 1) core none true (.init none 2)
      [(1, ⟨1, 5, 2, 1, 0⟩), (2, ⟨2, 3, 2, 1, 0⟩)] (fun _ => 0) = .ok ⟨some 1, 2, 2, 0⟩ := by
  constructor <;>
  simp [selectOn, selectOnBy_cons, selectOnBy_nil, selectStep, skipped, Selection.init,
    EcoInfo.eco, trueDiv_one_two]

/-- Where `blockHeight` stands: the root's 0 while the root leads. A shard that took the lead from
    the root by a draw leaves it 0; any other leading shard has its own height there. -/
structure HeightInv (core : Core) (shardMask : Option ℕ) (randomizeOutput : Bool) (rootEco : ℚ)
    (pre : List (ℕ × EcoInfo)) (sel : Selection) : Prop where
  root : shardMask = none → rootEco ≤ sel.maxEco ∧ sel.branchValueWithMaxEco ≠ none
  height : ∀ v, sel.branchValueWithMaxEco = some v →
    (v = 0 ∧ shardMask = none ∧ sel.maxEco = rootEco ∧ sel.blockHeight = 0) ∨
    (0 < v ∧ ∃ e, (v, e) ∈ eligible core shardMask pre ∧ e.eco = sel.maxEco ∧
      if shardMask = none ∧ sel.maxEco = rootEco then sel.blockHeight = 0 ∧ randomizeOutput = true
      else sel.blockHeight = e.height)

namespace HeightInv
variable {rootEco : ℚ} {pre : List (ℕ × EcoInfo)} {sel sel' : Selection} {b : ℕ} {e : EcoInfo}

theorem init : HeightInv core shardMask randomizeOutput rootEco [] (.init shardMask rootEco) where
  root hm := by simp [Selection.init, hm]
  height v hv := by
    cases shardMask with
    | none => exact .inl ⟨(Option.some_inj.mp hv).symm, rfl, rfl, rfl⟩
    | some _ => simp [Selection.init] at hv

theorem keep (h : HeightInv core shardMask randomizeOutput rootEco pre sel)
    (hbv : sel'.branchValueWithMaxEco = sel.branchValueWithMaxEco) (hmax : sel'.maxEco = sel.maxEco)
    (hbh : sel'.blockHeight = sel.blockHeight) :
    HeightInv core shardMask randomizeOutput rootEco (pre ++ [(b, e)]) sel' where
  root hm := by rw [hbv, hmax]; exact h.root hm
  height v hv := by
    rw [hmax, hbh]
    exact (h.height v (hbv ▸ hv)).imp_right fun ⟨hv0, e', he', rest⟩ =>
      ⟨hv0, e', mem_eligible_append he' _, rest⟩

theorem step (h : HeightInv core shardMask randomizeOutput rootEco pre sel)
    (hb : skipped core shardMask b = false → 0 < b ∧ 0 < e.difficulty) :
    (selectStep core shardMask randomizeOutput sel b e).Into
      (HeightInv core shardMask randomizeOutput rootEco (pre ++ [(b, e)])) := by
  refine selectStep_elim _ sel b e ?skip ?zero ?take ?higher ?draw ?lower
  case skip => exact fun _ => h.keep rfl rfl rfl
  case zero => exact fun hk hd0 => absurd hd0 (hb hk).2.ne'
  case higher => exact fun _ _ _ _ _ _ => h.keep rfl rfl rfl
  case lower => exact fun _ _ _ _ => h.keep rfl rfl rfl
  case take =>
    intro hk _ hfirst
    -- the new leader never ties the root: it beats the running maximum, or ties a shard that
    -- holds a height above its own, which a shard tied with the root does not
    have hroot : ¬ (shardMask = none ∧ e.eco = rootEco) := by
      rintro ⟨hm, heq⟩
      obtain ⟨hle, hbv⟩ := h.root hm
      rcases hfirst with hn | hlt | ⟨htie, hpos, hgt⟩
      · exact hbv hn
      · exact (heq ▸ hle).not_lt hlt
      · obtain ⟨v, hv⟩ := Option.ne_none_iff_exists'.mp hbv
        rcases h.height v hv with ⟨rfl, -⟩ | ⟨-, e', -, -, hh⟩
        · simp [hv] at hpos
        · rw [if_pos ⟨hm, htie.symm.trans heq⟩] at hh
          exact absurd hh.1 (by omega)
    refine ⟨fun hm => ⟨?_, by simp⟩, fun v hv => .inr ?_⟩
    · rcases hfirst with hn | hlt | ⟨htie, -⟩
      exacts [absurd hn (h.root hm).2, (h.root hm).1.trans hlt.le, (h.root hm).1.trans htie.ge]
    · obtain rfl := Option.some_inj.mp hv
      exact ⟨(hb hk).1, e, mem_eligible.mpr ⟨by simp, hk⟩, rfl, by dsimp only; rw [if_neg hroot]⟩
  case draw =>
    intro hk _ hfirst htie hr hskip
    refine ⟨⟨fun hm => ⟨(h.root hm).1.trans htie.ge, by simp⟩, fun v hv => .inr ?_⟩,
      h.keep rfl rfl rfl⟩
    obtain rfl := Option.some_inj.mp hv
    refine ⟨(hb hk).1, e, mem_eligible.mpr ⟨by simp, hk⟩, rfl, ?_⟩
    obtain ⟨w, hw⟩ := Option.ne_none_iff_exists'.mp fun hn => hfirst (.inl hn)
    dsimp only
    rw [htie]
    rcases h.height w hw with ⟨rfl, hm, hmax, hbh⟩ | ⟨hw0, e', -, -, hh⟩
    · rw [if_pos ⟨hm, hmax⟩]
      exact ⟨hbh, hr⟩
    · -- a tie that is neither taken as lower nor skipped as higher is at the leader's height
      have hgt : ¬ sel.blockHeight > e.height := fun hgt =>
        hfirst (.inr (.inr ⟨htie, by simp [hw, hw0], hgt⟩))
      have hlt : ¬ sel.blockHeight < e.height := fun hlt => hskip ⟨by simp [hw, hw0], hlt⟩
      split_ifs at hh ⊢
      exacts [hh, by omega]

end HeightInv

/-- What does hold of `blockHeight` at the end, whatever the draws and however `1 / n` is
    divided. -/
theorem selection_height (threshold : ℕ → ℚ) (rootEco : ℚ) (items : List (ℕ × EcoInfo))
    (hpos : ∀ x ∈ eligible core shardMask items, 0 < x.1 ∧ 0 < x.2.difficulty) (u : Draws) :
    ∃ sel, selectOnBy threshold core shardMask randomizeOutput (.init shardMask rootEco) items u =
      .ok sel ∧ HeightInv core shardMask randomizeOutput rootEco items sel :=
  selectOnBy_inv _ (fun _ b e _ hx h => h.step fun hk => hpos (b, e) (mem_eligible.mpr ⟨hx, hk⟩))
    threshold HeightInv.init u

theorem tied_selection_height :
    let core : Core := ⟨fun _ s => s, id, fun _ => 1, fun _ _ => true, fun _ _ => true,
      fun _ _ => true⟩
    let items : List (ℕ × EcoInfo) := [(1, ⟨1, 5, 2, 1, 0⟩), (2, ⟨2, 3, 2, 1, 0⟩)]
    (∀ x ∈ eligible core none items, 0 < x.1 ∧ 0 < x.2.difficulty) ∧
      ∃ sel, selectOnBy (trueDiv 1) core none true (.init none 2) items (fun _ => 0) = .ok sel ∧
        HeightInv core none true 2 items sel := by
  intro core items
  have hpos : ∀ x ∈ eligible core none items, 0 < x.1 ∧ 0 < x.2.difficulty := by decide
  exact ⟨hpos, selection_height (trueDiv 1) 2 items hpos _⟩

section Untied
variable {rootEco : ℚ} {sel s : Selection} {b : ℕ} {e : EcoInfo}

theorem selectStep_next_maxEco (h : selectStep core shardMask randomizeOutput sel b e = .next s) :
    s.maxEco = sel.maxEco ∨ s.maxEco = e.eco := by
  revert h
  refine selectStep_elim (fun o => o = .next s → s.maxEco = sel.maxEco ∨ s.maxEco = e.eco) sel b e
    (fun _ h => .inl (by cases h; rfl)) (fun _ _ h => by cases h)
    (fun _ _ _ h => .inr (by cases h; rfl)) (fun _ _ _ _ _ _ h => .inl (by cases h; rfl))
    (fun _ _ _ _ _ _ h => by cases h) (fun _ _ _ _ h => .inl (by cases h; rfl))

theorem selectStep_false_ne_draw {n : ℕ} {t f : Selection} :
    selectStep core shardMask false sel b e ≠ .draw n t f :=
  selectStep_elim (· ≠ .draw n t f) sel b e (fun _ h => by cases h) (fun _ _ h => by cases h)
    (fun _ _ _ h => by cases h) (fun _ _ _ _ hr _ => absurd hr Bool.false_ne_true)
    (fun _ _ _ _ hr _ => absurd hr Bool.false_ne_true) (fun _ _ _ _ h => by cases h)

theorem selectStep_untied (h : e.eco ≠ sel.maxEco) :
    selectStep core shardMask true sel b e = selectStep core shardMask false sel b e := by
  simp only [selectStep, h, false_and, and_false, false_or, if_false]

def heldEcos (core : Core) (shardMask : Option ℕ) (rootEco : ℚ) (pre : List (ℕ × EcoInfo)) :
    List ℚ :=
  rootEco :: (eligible core shardMask pre).map (·.2.eco)

theorem selectOnBy_untied {pre items : List (ℕ × EcoInfo)}
    (hnd : (heldEcos core shardMask rootEco pre ++
      (eligible core shardMask items).map (·.2.eco)).Nodup)
    (hmax : sel.maxEco ∈ heldEcos core shardMask rootEco pre) (u u' : Draws) :
    selectOnBy threshold core shardMask true sel items u =
      selectOnBy threshold core shardMask false sel items u' := by
  induction items generalizing pre sel u u' with
  | nil => rfl
  | cons x items ih =>
    obtain ⟨b, e⟩ := x
    rw [selectOnBy_cons, selectOnBy_cons]
    cases hk : skipped core shardMask b
    · -- an eligible candidate: its eco is none the loop has held
      rw [eligible_cons_kept hk, List.map_cons] at hnd
      have hheld : heldEcos core shardMask rootEco (pre ++ [(b, e)]) =
          heldEcos core shardMask rootEco pre ++ [e.eco] := by
        simp [heldEcos, eligible_append_kept hk]
      have hne : e.eco ≠ sel.maxEco := fun heq =>
        List.disjoint_of_nodup_append hnd hmax (heq ▸ List.mem_cons_self _ _)
      rw [selectStep_untied hne]
      cases hout : selectStep core shardMask false sel b e with
      | next s =>
        have hmax' : s.maxEco ∈ heldEcos core shardMask rootEco (pre ++ [(b, e)]) := by
          rw [hheld]
          rcases selectStep_next_maxEco hout with h | h
          exacts [List.mem_append_left _ (h ▸ hmax),
            List.mem_append_right _ (h ▸ List.mem_singleton_self _)]
        exact ih (by simpa [hheld] using hnd) hmax' u u'
      | draw n t f => exact absurd hout selectStep_false_ne_draw
      | raise err => rfl
    · have hnext : ∀ r, selectStep core shardMask r sel b e = .next sel := fun r => by
        simp [selectStep, hk]
      have hheld : heldEcos core shardMask rootEco (pre ++ [(b, e)]) =
          heldEcos core shardMask rootEco pre := by
        simp [heldEcos, eligible_append_skipped hk]
      rw [eligible_cons_skipped hk] at hnd
      rw [hnext, hnext]
      exact ih
        (show (heldEcos core shardMask rootEco (pre ++ [(b, e)]) ++ _).Nodup from hheld ▸ hnd)
        (hheld ▸ hmax) u u'

theorem selectOnBy_init_untied (rootEco : ℚ) (items : List (ℕ × EcoInfo))
    (huntied : (rootEco :: (eligible core shardMask items).map (·.2.eco)).Nodup) (u u' : Draws) :
    selectOnBy threshold core shardMask true (.init shardMask rootEco) items u =
      selectOnBy threshold core shardMask false (.init shardMask rootEco) items u' :=
  selectOnBy_untied (show (heldEcos core shardMask rootEco [] ++ _).Nodup from huntied)
    (List.mem_cons_self _ _) u u'

end Untied

end QuarkChain.Mining
