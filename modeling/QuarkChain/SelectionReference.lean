import QuarkChain.Selection

set_option autoImplicit false

/-!
# Without `randomizeOutput`, the loop makes the reference choice

`referenceChoice` reads the choice off the words of the documentation: the root if it competes
and no eligible shard has a better eco, otherwise the first, in iteration order, of least height
among the eligible shards of maximal eco. The loop reaches it because it keeps the first
candidate that no candidate beats (`FirstBest`).
-/

namespace QuarkChain.Mining

/-- The branch the loop should pick when it does not randomize. -/
def referenceChoice (core : Core) (shardMask : Option ℕ) (rootEco : ℚ)
    (items : List (ℕ × EcoInfo)) : Option ℕ :=
  let shards := eligible core shardMask items
  if shardMask = none ∧ ∀ x ∈ shards, x.2.eco ≤ rootEco then some 0
  else
    match (shards.map (·.2.eco)).max? with
    | none => none
    | some top =>
      let tops := shards.filter (·.2.eco = top)
      match (tops.map (·.2.height)).min? with
      | none => none
      | some low => (tops.find? (·.2.height = low)).map (·.1)

/-- `x` beats `y`: a better eco, or the same eco at a lower height. -/
def Beats (x y : ℕ × EcoInfo) : Prop :=
  y.2.eco < x.2.eco ∨ (x.2.eco = y.2.eco ∧ x.2.height < y.2.height)

namespace Beats
variable {x y w : ℕ × EcoInfo}

theorem eco_le (h : Beats x y) : y.2.eco ≤ x.2.eco := by
  rcases h with h | ⟨h, -⟩
  exacts [h.le, h.ge]

theorem eco_le_of_not (h : ¬ Beats y w) : y.2.eco ≤ w.2.eco :=
  not_lt.mp fun hlt => h (.inl hlt)

theorem height_le_of_not (h : ¬ Beats y w) (he : y.2.eco = w.2.eco) : w.2.height ≤ y.2.height :=
  not_lt.mp fun hlt => h (.inr ⟨he, hlt⟩)

theorem of_not (hxw : Beats x w) (hyw : ¬ Beats y w) : Beats x y := by
  have hle := eco_le_of_not hyw
  rcases hxw with hlt | ⟨he, hh⟩
  · exact .inl (hle.trans_lt hlt)
  · rcases hle.lt_or_eq with hlt | hye
    · exact .inl (he ▸ hlt)
    · exact .inr ⟨he.trans hye.symm, hh.trans_le (height_le_of_not hyw hye)⟩

theorem asymm (h : Beats x y) : ¬ Beats y x := by
  rcases h with h | ⟨he, hh⟩ <;> rintro (h' | ⟨he', hh'⟩)
  exacts [lt_asymm h h', h.ne he', h'.ne he, lt_asymm hh hh']

theorem trans (hxw : Beats x w) (hwy : Beats w y) : Beats x y := of_not hxw hwy.asymm

end Beats

/-- `w` is the first entry of `l` that no entry beats. -/
def FirstBest (l : List (ℕ × EcoInfo)) (w : ℕ × EcoInfo) : Prop :=
  ∃ A B, l = A ++ w :: B ∧ (∀ y ∈ A, Beats w y) ∧ ∀ y ∈ B, ¬ Beats y w

namespace FirstBest
variable {l : List (ℕ × EcoInfo)} {w x : ℕ × EcoInfo}

theorem of_all (hx : ∀ y ∈ l, Beats x y) : FirstBest (l ++ [x]) x :=
  ⟨l, [], rfl, hx, by simp⟩

theorem append_beats (h : FirstBest l w) (hx : Beats x w) : FirstBest (l ++ [x]) x := by
  obtain ⟨A, B, rfl, hA, hB⟩ := h
  refine of_all fun y hy => ?_
  rcases List.mem_append.mp hy with hy | hy
  · exact hx.trans (hA y hy)
  · rcases List.mem_cons.mp hy with rfl | hy
    · exact hx
    · exact hx.of_not (hB y hy)

theorem append_beaten (h : FirstBest l w) (hx : ¬ Beats x w) : FirstBest (l ++ [x]) w := by
  obtain ⟨A, B, rfl, hA, hB⟩ := h
  refine ⟨A, B ++ [x], by simp, hA, fun y hy => ?_⟩
  rcases List.mem_append.mp hy with hy | hy
  exacts [hB y hy, List.mem_singleton.mp hy ▸ hx]

theorem mem (h : FirstBest l w) : w ∈ l := by
  obtain ⟨A, B, rfl, -⟩ := h
  simp

theorem eco_le (h : FirstBest l w) {y : ℕ × EcoInfo} (hy : y ∈ l) : y.2.eco ≤ w.2.eco := by
  obtain ⟨A, B, rfl, hA, hB⟩ := h
  rcases List.mem_append.mp hy with hy | hy
  · exact (hA y hy).eco_le
  · rcases List.mem_cons.mp hy with rfl | hy
    exacts [le_rfl, Beats.eco_le_of_not (hB y hy)]

theorem height_le (h : FirstBest l w) {y : ℕ × EcoInfo} (hy : y ∈ l) (he : y.2.eco = w.2.eco) :
    w.2.height ≤ y.2.height := by
  obtain ⟨A, B, rfl, hA, hB⟩ := h
  rcases List.mem_append.mp hy with hy | hy
  · rcases hA y hy with hlt | ⟨-, hh⟩
    exacts [absurd he hlt.ne, hh.le]
  · rcases List.mem_cons.mp hy with rfl | hy
    exacts [le_rfl, Beats.height_le_of_not (hB y hy) he]

theorem find?_tops (h : FirstBest l w) :
    (l.filter (·.2.eco = w.2.eco)).find? (·.2.height = w.2.height) = some w := by
  obtain ⟨A, B, rfl, hA, -⟩ := h
  rw [List.filter_append, List.find?_append, List.filter_cons_of_pos (by simp),
    List.find?_cons_of_pos _ (by simp)]
  have : (A.filter (·.2.eco = w.2.eco)).find? (·.2.height = w.2.height) = none := by
    refine List.find?_eq_none.mpr fun y hy hh => ?_
    obtain ⟨hy, hye⟩ := List.mem_filter.mp hy
    rcases hA y hy with hlt | ⟨-, hlt⟩
    · exact hlt.ne (of_decide_eq_true hye)
    · exact hlt.ne (of_decide_eq_true hh).symm
  rw [this, Option.none_or]

end FirstBest

section Reference
variable {core : Core} {shardMask : Option ℕ} {rootEco : ℚ} {items : List (ℕ × EcoInfo)}

theorem referenceChoice_root (hm : shardMask = none)
    (h : ∀ x ∈ eligible core shardMask items, x.2.eco ≤ rootEco) :
    referenceChoice core shardMask rootEco items = some 0 := by
  simp only [referenceChoice]
  rw [if_pos ⟨hm, h⟩]

theorem referenceChoice_of_firstBest {w : ℕ × EcoInfo}
    (h : FirstBest (eligible core shardMask items) w)
    (hroot : shardMask = none → rootEco < w.2.eco) :
    referenceChoice core shardMask rootEco items = some w.1 := by
  have : Std.Antisymm (fun a b : ℚ => a ≤ b) := ⟨le_antisymm⟩
  have hmax : ((eligible core shardMask items).map (·.2.eco)).max? = some w.2.eco :=
    (List.max?_eq_some_iff le_refl max_choice fun _ _ _ => max_le_iff).mpr
      ⟨List.mem_map_of_mem _ h.mem, fun _ hb => by
        obtain ⟨y, hy, rfl⟩ := List.mem_map.mp hb
        exact h.eco_le hy⟩
  have hmin : (((eligible core shardMask items).filter (·.2.eco = w.2.eco)).map
      (·.2.height)).min? = some w.2.height :=
    List.min?_eq_some_iff'.mpr ⟨List.mem_map_of_mem _ (List.mem_filter.mpr ⟨h.mem, by simp⟩),
      fun _ hb => by
        obtain ⟨y, hy, rfl⟩ := List.mem_map.mp hb
        obtain ⟨hy, hye⟩ := List.mem_filter.mp hy
        exact h.height_le hy (of_decide_eq_true hye)⟩
  have hcond : ¬ (shardMask = none ∧ ∀ x ∈ eligible core shardMask items, x.2.eco ≤ rootEco) :=
    fun ⟨hm, hall⟩ => (hroot hm).not_le (hall w h.mem)
  simp only [referenceChoice]
  rw [if_neg hcond, hmax]
  simp only [hmin, h.find?_tops, Option.map_some']

/-- What the loop that does not randomize knows of the eligible candidates `E` it has passed. -/
inductive DetInv (shardMask : Option ℕ) (rootEco : ℚ) (E : List (ℕ × EcoInfo)) (sel : Selection) :
    Prop
  | root (hm : shardMask = none) (hle : ∀ x ∈ E, x.2.eco ≤ rootEco)
      (hbv : sel.branchValueWithMaxEco = some 0) (hmax : sel.maxEco = rootEco)
  | undecided (hm : shardMask ≠ none) (hE : E = []) (hbv : sel.branchValueWithMaxEco = none)
  | shard (w : ℕ × EcoInfo) (hw : FirstBest E w) (hpos : 0 < w.1)
      (hroot : shardMask = none → rootEco < w.2.eco) (hbv : sel.branchValueWithMaxEco = some w.1)
      (hmax : sel.maxEco = w.2.eco) (hheight : sel.blockHeight = w.2.height)

namespace DetInv
variable {pre : List (ℕ × EcoInfo)} {sel : Selection} {b : ℕ} {e : EcoInfo}

theorem init : DetInv shardMask rootEco (eligible core shardMask []) (.init shardMask rootEco) := by
  cases shardMask with
  | none => exact .root rfl (by simp) rfl rfl
  | some _ => exact .undecided (by simp) rfl rfl

theorem step (h : DetInv shardMask rootEco (eligible core shardMask pre) sel)
    (hb : skipped core shardMask b = false → 0 < b ∧ 0 < e.difficulty) :
    (selectStep core shardMask false sel b e).Into
      (DetInv shardMask rootEco (eligible core shardMask (pre ++ [(b, e)]))) := by
  refine selectStep_elim _ sel b e ?skip ?zero ?take ?higher ?draw ?lower
  case skip =>
    intro hs
    rw [eligible_append_skipped hs]
    exact h
  case zero => exact fun hk hd0 => absurd hd0 (hb hk).2.ne'
  case higher => exact fun _ _ _ _ hr _ => absurd hr Bool.false_ne_true
  case draw => exact fun _ _ _ _ hr _ => absurd hr Bool.false_ne_true
  case take =>
    intro hk _ hfirst
    show DetInv _ _ _ _
    rw [eligible_append_kept hk]
    cases h with
    | root hm hle hbv hmax =>
      have hlt : rootEco < e.eco := by
        rcases hfirst with hn | hlt | ⟨-, hz, -⟩
        · simp [hbv] at hn
        · exact hmax ▸ hlt
        · simp [hbv] at hz
      exact .shard (b, e) (.of_all fun y hy => .inl ((hle y hy).trans_lt hlt)) (hb hk).1
        (fun _ => hlt) rfl rfl rfl
    | undecided hm hE =>
      exact .shard (b, e) (.of_all (by simp [hE])) (hb hk).1 (absurd · hm) rfl rfl rfl
    | shard w hw hpos hroot hbv hmax hh =>
      have hbeats : Beats (b, e) w := by
        rcases hfirst with hn | hlt | ⟨heq, -, hgt⟩
        · simp [hbv] at hn
        · exact .inl (hmax ▸ hlt)
        · exact .inr ⟨hmax ▸ heq, hh ▸ hgt⟩
      exact .shard (b, e) (hw.append_beats hbeats) (hb hk).1
        (fun hm => (hroot hm).trans_le hbeats.eco_le) rfl rfl rfl
  case lower =>
    intro hk _ hfirst _
    show DetInv _ _ _ _
    rw [eligible_append_kept hk]
    cases h with
    | root hm hle hbv hmax =>
      refine .root hm (fun y hy => ?_) hbv hmax
      rcases List.mem_append.mp hy with hy | hy
      · exact hle y hy
      · exact List.mem_singleton.mp hy ▸ hmax ▸ not_lt.mp fun hlt => hfirst (.inr (.inl hlt))
    | undecided _ _ hbv => exact absurd (.inl hbv) hfirst
    | shard w hw hpos hroot hbv hmax hh =>
      refine .shard w (hw.append_beaten fun hbeats => hfirst ?_) hpos hroot hbv hmax hh
      rcases hbeats with hlt | ⟨he, hlt⟩
      · exact .inr (.inl (hmax ▸ hlt))
      · exact .inr (.inr ⟨hmax ▸ he, by simp [hbv, hpos], hh ▸ hlt⟩)

end DetInv

theorem select_matches_reference (rootEco : ℚ) (items : List (ℕ × EcoInfo))
    (hpos : ∀ x ∈ eligible core shardMask items, 0 < x.1 ∧ 0 < x.2.difficulty)
    (hne : shardMask = none ∨ eligible core shardMask items ≠ []) (u : Draws) :
    ∃ sel, selectOn core shardMask false (.init shardMask rootEco) items u = .ok sel ∧
      sel.branchValueWithMaxEco = referenceChoice core shardMask rootEco items := by
  obtain ⟨sel, hrun, h⟩ := selectOn_inv
    (fun pre => DetInv shardMask rootEco (eligible core shardMask pre))
    (fun _ b e _ hx h => h.step fun hk => hpos (b, e) (mem_eligible.mpr ⟨hx, hk⟩)) DetInv.init u
  refine ⟨sel, hrun, ?_⟩
  cases h with
  | root hm hle hbv => rw [hbv, referenceChoice_root hm hle]
  | undecided hm hE => exact absurd hne (by simp [hm, hE])
  | shard w hw _ hroot hbv => rw [hbv, referenceChoice_of_firstBest hw hroot]

end Reference

theorem lower_shard_is_reference :
    let core : Core := ⟨fun _ s => s, id, fun _ => 1, fun _ _ => true, fun mask b => b == mask,
      fun _ _ => true⟩
    let items : List (ℕ × EcoInfo) := [(1, ⟨1, 5, 2, 1, 0⟩), (2, ⟨2, 3, 2, 1, 0⟩)]
    (∀ x ∈ eligible core none items, 0 < x.1 ∧ 0 < x.2.difficulty) ∧
      (∃ sel, selectOn core none false (.init none 0) items (fun _ => 0) = .ok sel ∧
        sel.branchValueWithMaxEco = referenceChoice core none 0 items) ∧
      (∀ x ∈ eligible core (some 2) items, 0 < x.1 ∧ 0 < x.2.difficulty) ∧
      eligible core (some 2) items ≠ [] ∧
      ∃ sel, selectOn core (some 2) false (.init (some 2) 0) items (fun _ => 0) = .ok sel ∧
        sel.branchValueWithMaxEco = referenceChoice core (some 2) 0 items := by
  intro core items
  have hpos : ∀ x ∈ eligible core none items, 0 < x.1 ∧ 0 < x.2.difficulty := by decide
  have hpos₂ : ∀ x ∈ eligible core (some 2) items, 0 < x.1 ∧ 0 < x.2.difficulty := by decide
  have hne : eligible core (some 2) items ≠ [] := by decide
  exact ⟨hpos, select_matches_reference 0 items hpos (.inl rfl) _, hpos₂, hne,
    select_matches_reference 0 items hpos₂ (.inr hne) _⟩

end QuarkChain.Mining
