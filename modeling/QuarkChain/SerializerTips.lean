import QuarkChain.SerializerDelivery
import QuarkChain.SerializerProgress

set_option autoImplicit false

/-!
# One drain's calls of `addBlock`, its broadcasts, and its tip announcement

`updateRooBlockAsync` keeps `updateTip = updateTip or self.rootState.addBlock(rBlock)`: the flag
starts `False`, turns `True` at the first call that returns `True`, and from then on `or`
short-circuits and `addBlock` is not called, while the block is still broadcast to every slave.
The drain ends with `if updateTip and self.network is not None`, and then sends `sendUpdatedTip`
to every peer.
While a drain is live it is the only one, so every event the trace records from its start on is
its own: `DrainLog` says what they are, and each of the drain's steps extends it. With the
collaborators cooperating, a live drain can always go on to its end, and a moved tip is then
announced.
-/

namespace QuarkChain.Serializer
variable {β : Type}
open State

def Event.movedTip : Event β → Bool
  | .addBlock _ (.returned updateTip) => updateTip
  | _ => false

def Event.tip? : Event β → Option ℕ
  | .sendUpdatedTip peer => some peer
  | _ => none

/-- The peers told the tip, in order. -/
def tips (es : List (Event β)) : List ℕ := es.filterMap Event.tip?

def Event.call? : Event β → Option (β × AddBlock)
  | .addBlock b r => some (b, r)
  | _ => none

/-- The calls of `rootState.addBlock`, with what each did. -/
def calls (es : List (Event β)) : List (β × AddBlock) := es.filterMap Event.call?

def Event.accepted? : Event β → Option β
  | .addBlock b (.returned _) => some b
  | _ => none

/-- The blocks `rootState.addBlock` returned on, whether or not the tip moved. -/
def accepted (es : List (Event β)) : List β := es.filterMap Event.accepted?

def Event.inert : Event β → Bool
  | .enqueue _ | .gathered _ | .returned _ => true
  | _ => false

@[simp] theorem tips_append (es fs : List (Event β)) : tips (es ++ fs) = tips es ++ tips fs :=
  List.filterMap_append ..

@[simp] theorem calls_append (es fs : List (Event β)) :
    calls (es ++ fs) = calls es ++ calls fs :=
  List.filterMap_append ..

@[simp] theorem popped_append (es fs : List (Event β)) :
    popped (es ++ fs) = popped es ++ popped fs :=
  List.filterMap_append ..

@[simp] theorem broadcasts_append (es fs : List (Event β)) :
    broadcasts (es ++ fs) = broadcasts es ++ broadcasts fs :=
  List.filterMap_append ..

@[simp] theorem accepted_append (es fs : List (Event β)) :
    accepted (es ++ fs) = accepted es ++ accepted fs :=
  List.filterMap_append ..

theorem inert_quiet {es : List (Event β)} (h : es.all Event.inert = true) :
    es.any Event.movedTip = false ∧ tips es = [] ∧ popped es = [] ∧ calls es = [] ∧
      broadcasts es = [] ∧ accepted es = [] := by
  induction es with
  | nil => exact ⟨rfl, rfl, rfl, rfl, rfl, rfl⟩
  | cons e es ih =>
    rw [List.all_cons, Bool.and_eq_true] at h
    obtain ⟨h1, h2, h3, h4, h5, h6⟩ := ih h.2
    cases e <;> first | exact ⟨h1, h2, h3, h4, h5, h6⟩ | cases h.1

theorem Event.movedTip_iff (e : Event β) :
    e.movedTip = true ↔ ∃ b, e.call? = some (b, .returned true) := by
  rcases e with _ | _ | ⟨b, ⟨_ | _⟩ | _ | _⟩ | _ | _ | _ | _ <;> simp [Event.movedTip, Event.call?]

theorem any_movedTip_iff (es : List (Event β)) :
    es.any Event.movedTip = true ↔ ∃ b, (b, .returned true) ∈ calls es := by
  simp only [List.any_eq_true, Event.movedTip_iff, calls, List.mem_filterMap]
  exact ⟨fun ⟨e, he, b, hb⟩ => ⟨b, e, he, hb⟩, fun ⟨b, e, he, hb⟩ => ⟨e, he, b, hb⟩⟩

theorem getLast?_of_not_mem_dropLast {α : Type} {l : List α} {a : α} (h : a ∈ l)
    (hn : a ∉ l.dropLast) : l.getLast? = some a := by
  have hne : l ≠ [] := List.ne_nil_of_mem h
  rw [← List.dropLast_append_getLast hne, List.mem_append, List.mem_singleton] at h
  rw [List.getLast?_eq_getLast l hne, (h.resolve_left hn).symm]

theorem step_network {s s' : State β} {a : Action β} (h : s.step a = some s') :
    s'.network = s.network := by
  cases a with
  | updateRootBlock b =>
    obtain ⟨-, rfl⟩ := step_updateRootBlock h
    cases hu : s.isUpdatingRootBlock <;> simp [State.updateRootBlock, hu, State.launch]
  | addRootBlock b v =>
    obtain ⟨-, rfl⟩ := step_addRootBlock h
    cases v
    · rfl
    · cases hu : s.isUpdatingRootBlock <;> simp [State.addRootBlock, hu, State.launch]
  | start i => obtain ⟨o, -, rfl⟩ := step_start h; rfl
  | iterate i r =>
    obtain ⟨u, o, -, rfl⟩ := step_iterate h
    unfold State.iterate
    split
    · cases o <;> cases u <;> rfl
    · cases u
      · cases r <;> rfl
      · rfl
  | resume i c =>
    obtain ⟨u, b, o, -, -, rfl⟩ := step_resume h
    cases c with
    | none => rfl
    | some c => simp only [State.resume]; split_ifs <;> rfl

theorem tips_iterate_of_empty {s : State β} (hq : s.rootBlockUpdateQueue = []) (i : ℕ)
    (o : Option β) (u : Bool) (r : AddBlock) :
    tips (s.iterate i o u r).trace = tips s.trace ++ if u then s.network.getD [] else [] := by
  unfold State.iterate
  rw [hq]
  cases o <;> cases u <;> simp [tips, Event.tip?, List.filterMap_map, Function.comp_def]

/-- What a drain's own events since a point where its `updateTip` was `False` say, with `u` its
    `updateTip` now: `u` is whether a call moved the tip, and no tip went out. The popped blocks
    are the ones passed to `addBlock`, in order, followed only once the tip moved by the ones
    popped since; the broadcast blocks are the ones `addBlock` returned on, followed by those same
    skipped blocks. No call but the last moved the tip. -/
structure DrainLog (u : Bool) (since : List (Event β)) : Prop where
  moved : u = since.any Event.movedTip
  noTips : tips since = []
  skipped : ∃ skipped, popped since = (calls since).map Prod.fst ++ skipped ∧
    broadcasts since = accepted since ++ skipped ∧ (u = false → skipped = [])
  onlyLast : ∀ c ∈ (calls since).dropLast, c.2 ≠ .returned true

namespace DrainLog
variable {u : Bool} {since : List (Event β)}

theorem start : DrainLog false ([] : List (Event β)) :=
  ⟨rfl, rfl, ⟨[], rfl, rfl, fun _ => rfl⟩, fun _ h => by cases h⟩

theorem quiet (h : DrainLog u since) {es : List (Event β)} (hes : es.all Event.inert = true) :
    DrainLog u (since ++ es) := by
  obtain ⟨hm, ht, hp, hc, hb, ha⟩ := inert_quiet hes
  obtain ⟨skipped, hpop, hbc, hsk⟩ := h.skipped
  refine ⟨?_, ?_, ⟨skipped, ?_, ?_, hsk⟩, ?_⟩
  · rw [List.any_append, hm, Bool.or_false, ← h.moved]
  · rw [tips_append, ht, h.noTips]; rfl
  · rw [popped_append, hp, List.append_nil, calls_append, hc, List.append_nil, hpop]
  · rw [broadcasts_append, hb, List.append_nil, accepted_append, ha, List.append_nil, hbc]
  · rw [calls_append, hc, List.append_nil]
    exact h.onlyLast

theorem call (h : DrainLog false since) (b : β) (r : AddBlock) :
    DrainLog (Event.addBlock b r).movedTip (since ++ .pop b :: .addBlock b r ::
      ((Event.addBlock b r).accepted?.toList.map .broadcast)) := by
  obtain ⟨skipped, hpop, hbc, hsk⟩ := h.skipped
  obtain rfl := hsk rfl
  have hcalls : calls (since ++ .pop b :: .addBlock b r ::
      ((Event.addBlock b r).accepted?.toList.map .broadcast)) = calls since ++ [(b, r)] := by
    rw [calls_append]
    cases r <;> rfl
  refine ⟨?_, ?_, ⟨[], ?_, ?_, fun _ => rfl⟩, ?_⟩
  · rw [List.any_append, ← h.moved]
    rcases r with ⟨_ | _⟩ | _ | _ <;> rfl
  · rw [tips_append, h.noTips]
    cases r <;> rfl
  · rw [hcalls, popped_append, hpop]
    cases r <;> simp [popped, Event.popped?]
  · rw [broadcasts_append, accepted_append, hbc]
    cases r <;> simp [broadcasts, accepted, Event.broadcast?, Event.accepted?]
  · rw [hcalls, List.dropLast_concat]
    intro c hc hmv
    exact absurd ((any_movedTip_iff since).mpr ⟨c.1, hmv ▸ hc⟩) (by rw [← h.moved]; decide)

theorem skip (h : DrainLog true since) (b : β) :
    DrainLog true (since ++ [.pop b, .broadcast b]) := by
  obtain ⟨skipped, hpop, hbc, -⟩ := h.skipped
  have hcalls : calls (since ++ [.pop b, .broadcast b]) = calls since := by
    rw [calls_append]
    exact List.append_nil _
  refine ⟨?_, ?_, ⟨skipped ++ [b], ?_, ?_, nofun⟩, hcalls ▸ h.onlyLast⟩
  · rw [List.any_append, ← h.moved, Bool.true_or]
  · rw [tips_append, h.noTips]; rfl
  · rw [hcalls, popped_append, hpop, List.append_assoc]; rfl
  · rw [broadcasts_append, accepted_append, hbc, List.append_assoc,
      show accepted [Event.pop b, .broadcast b] = [] from rfl, List.append_nil]
    rfl

end DrainLog

/-- Since the trace `pre`, drain `i` is past its start, and while it runs its events since `pre`
    form a `DrainLog` of its `updateTip`. -/
def TipSince (pre : List (Event β)) (i : ℕ) (s : State β) : Prop :=
  ∃ since d, s.trace = pre ++ since ∧ s.drains[i]? = some d ∧ d.pc ≠ .created ∧
    ∀ u, d.pc.updateTip? = some u → DrainLog u since

namespace TipSince
variable {pre : List (Event β)} {i : ℕ} {s s' : State β}

theorem start {o : Option β} (hd : s.drains[i]? = some ⟨.running false, o⟩) :
    TipSince s.trace i s :=
  ⟨[], _, (List.append_nil _).symm, hd, nofun, fun _ hu => by cases hu; exact DrainLog.start⟩

theorem finish (h : TipSince pre i s) (ht : s.trace <+: s'.trace) (d' : Drain β)
    (hds : s'.drains[i]? = some d') (hu : d'.pc.updateTip? = none) (hc : d'.pc ≠ .created) :
    TipSince pre i s' := by
  obtain ⟨since, -, hpre, -, -, -⟩ := h
  obtain ⟨es, hes⟩ := ht
  exact ⟨since ++ es, d', by rw [← hes, hpre, List.append_assoc], hds, hc,
    fun u hu' => by rw [hu] at hu'; cases hu'⟩

theorem update (h : TipSince pre i s) {d : Drain β} {u : Bool} (hd : s.drains[i]? = some d)
    (hu : d.pc.updateTip? = some u) (es : List (Event β)) (d' : Drain β)
    (ht : s'.trace = s.trace ++ es) (hds : s'.drains[i]? = some d') {u' : Bool}
    (hlog : ∀ since, DrainLog u since → DrainLog u' (since ++ es))
    (hu' : d'.pc.updateTip? = some u') : TipSince pre i s' := by
  obtain ⟨since, d₀, hpre, hd₀, -, hinv⟩ := h
  rw [hd, Option.some.injEq] at hd₀
  subst hd₀
  refine ⟨since ++ es, d', by rw [ht, hpre, List.append_assoc], hds, ?_, fun u'' hu'' => ?_⟩
  · intro hc
    rw [hc] at hu'
    cases hu'
  rw [hu', Option.some.injEq] at hu''
  exact hu'' ▸ hlog since (hinv u hu)

theorem frame (h : TipSince pre i s) (es : List (Event β)) (ht : s'.trace = s.trace ++ es)
    (hds : s'.drains[i]? = s.drains[i]?) (hes : es.all Event.inert = true) :
    TipSince pre i s' := by
  obtain ⟨since, d, hpre, hd, hc, hinv⟩ := h
  exact ⟨since ++ es, d, by rw [ht, hpre, List.append_assoc], hds ▸ hd, hc,
    fun u hu => (hinv u hu).quiet hes⟩

theorem lt_length (h : TipSince pre i s) : i < s.drains.length :=
  let ⟨_, _, _, hd, _⟩ := h
  (List.getElem?_eq_some_iff.mp hd).1

theorem not_created (h : TipSince pre i s) {d : Drain β} (hd : s.drains[i]? = some d) :
    d.pc ≠ .created := by
  obtain ⟨_, d₀, _, hd₀, hc, _⟩ := h
  rw [hd, Option.some.injEq] at hd₀
  exact hd₀ ▸ hc

theorem iterate (h : TipSince pre i s) {u : Bool} {o : Option β}
    (hd : s.drains[i]? = some ⟨.running u, o⟩) (r : AddBlock) :
    TipSince pre i (s.iterate i o u r) := by
  have hi := h.lt_length
  rcases hq : s.rootBlockUpdateQueue with _ | ⟨b, rest⟩
  · refine h.finish (iterate_trace s i o u r) ⟨.finished, o⟩ ?_ rfl nofun
    cases o <;> cases u <;> simp [State.iterate, hq, List.getElem?_set_self hi]
  · cases u
    · cases r with
      | returned t =>
        exact h.update hd rfl [.pop b, .addBlock b (.returned t), .broadcast b]
          ⟨.awaiting t b, o⟩ (by simp [State.iterate, hq, broadcast])
          (by simp [State.iterate, hq, broadcast, hi]) (fun _ hl => hl.call b _) rfl
      | valueError =>
        exact h.update hd rfl [.pop b, .addBlock b .valueError] ⟨.running false, o⟩
          (by simp [State.iterate, hq]) (by simp [State.iterate, hq, hi])
          (fun _ hl => hl.call b .valueError) rfl
      | raised =>
        exact h.finish (iterate_trace s i o false .raised) ⟨.aborted, o⟩
          (by simp [State.iterate, hq, hi]) rfl nofun
    · exact h.update hd rfl [.pop b, .broadcast b] ⟨.awaiting true b, o⟩
        (by simp [State.iterate, hq, broadcast]) (by simp [State.iterate, hq, broadcast, hi])
        (fun _ hl => hl.skip b) rfl

theorem resume (h : TipSince pre i s) {u : Bool} {b : β} {o : Option β}
    (hd : s.drains[i]? = some ⟨.awaiting u b, o⟩) (c : Option (List ℕ)) :
    TipSince pre i (s.resume i o u b c) := by
  have hi := h.lt_length
  cases c with
  | none =>
    exact h.finish (resume_trace s i o u b none) ⟨.aborted, o⟩
      (by simp [State.resume, hi]) rfl nofun
  | some c =>
    by_cases hc : c.all (· == 0) = true
    · exact h.update hd rfl [.gathered b] ⟨.running u, o⟩
        (by simp [State.resume, hc])
        (by simp [State.resume, hc, hi]) (fun _ hl => hl.quiet rfl) rfl
    · exact h.finish (resume_trace s i o u b (some c)) ⟨.aborted, o⟩
        (by simp [State.resume, hc, hi]) rfl nofun

theorem step (h : TipSince pre i s) (hm : Mode s) {a : Action β} (hs : s.step a = some s') :
    TipSince pre i s' := by
  have hi := h.lt_length
  cases a with
  | updateRootBlock b =>
    obtain ⟨-, rfl⟩ := step_updateRootBlock hs
    cases hu : s.isUpdatingRootBlock <;>
      exact h.frame [.enqueue b] (by simp [State.updateRootBlock, hu])
        (by simp [State.updateRootBlock, hu, List.getElem?_append_left hi]) rfl
  | addRootBlock b v =>
    obtain ⟨-, rfl⟩ := step_addRootBlock hs
    cases v
    · exact h
    cases hu : s.isUpdatingRootBlock
    · exact h.frame [.enqueue b] (by simp [State.addRootBlock, hu])
        (by simp [State.addRootBlock, hu, List.getElem?_append_left hi]) rfl
    · exact h.frame [.enqueue b, .returned b] (by simp [State.addRootBlock, hu])
        (by simp [State.addRootBlock, hu]) rfl
  | start j =>
    obtain ⟨o, hdj, rfl⟩ := step_start hs
    have hji : j ≠ i := by
      rintro rfl
      exact h.not_created hdj rfl
    exact h.frame [] (List.append_nil _).symm (List.getElem?_set_ne hji) rfl
  | iterate j r =>
    obtain ⟨u, o, hdj, rfl⟩ := step_iterate hs
    by_cases hji : j = i
    · subst hji
      exact h.iterate hdj r
    · obtain ⟨d, hd⟩ : ∃ d, s.drains[i]? = some d := ⟨_, List.getElem?_eq_getElem hi⟩
      have hfin := (hm.live_active hdj rfl).2 i d hd (Ne.symm hji)
      rcases iterate_cases s j o u r with ⟨-, -, -, hds⟩ | ⟨_, -, -, hds⟩ <;>
        exact h.finish (iterate_trace s j o u r) _ (by rw [hds, List.getElem?_set_ne hji, hd])
          (by rw [hfin]; rfl) (by rw [hfin]; nofun)
  | resume j c =>
    obtain ⟨u, b, o, hdj, -, rfl⟩ := step_resume hs
    by_cases hji : j = i
    · subst hji
      exact h.resume hdj c
    · obtain ⟨d, hd⟩ : ∃ d, s.drains[i]? = some d := ⟨_, List.getElem?_eq_getElem hi⟩
      have hfin := (hm.live_active hdj rfl).2 i d hd (Ne.symm hji)
      obtain ⟨_, -, -, hds⟩ := resume_cases s j o u b c
      exact h.finish (resume_trace s j o u b c) _ (by rw [hds, List.getElem?_set_ne hji, hd])
        (by rw [hfin]; rfl) (by rw [hfin]; nofun)

theorem run (h : TipSince pre i s) (hs : Reachable s) {as : List (Action β)} {s' : State β}
    (hrun : s.run as = some s') : TipSince pre i s' ∧ s'.network = s.network := by
  induction as generalizing s with
  | nil => cases hrun; exact ⟨h, rfl⟩
  | cons a as ih =>
    simp only [State.run, Option.bind_eq_some] at hrun
    obtain ⟨t, ht, hrun⟩ := hrun
    obtain ⟨h', hnet⟩ := ih (h.step hs.mode ht) (hs.step a ht) hrun
    exact ⟨h', hnet.trans (step_network ht)⟩

end TipSince

section Codes
variable {codes : List ℕ} (hc : ∀ c ∈ codes, c = 0)
include hc

theorem running_drain_tips {s : State β} (hm : Mode s) {i : ℕ} {u : Bool} {o : Option β}
    (hd : s.drains[i]? = some ⟨.running u, o⟩) :
    ∃ as s', (∀ a ∈ as, Cooperative i codes a) ∧ s.run as = some s' ∧ Idle s' ∧
      ∃ es, s'.trace = s.trace ++ es ∧ tips es = if u then s.network.getD [] else [] := by
  obtain ⟨as, s₁, -, hco, hrun, hm₁, hd₁, hq₁, hnet, es, hes, hnt⟩ := drain_to_empty hc _ hm hd rfl
  have h : s₁.step (.iterate i (.returned false)) = some (s₁.iterate i o u (.returned false)) := by
    simp [step, hd₁]
  obtain ⟨hf, hq'⟩ := iterate_empty s₁ i o u (.returned false) hq₁
  obtain ⟨es', hes'⟩ := iterate_trace s₁ i o u (.returned false)
  have hlast := tips_iterate_of_empty hq₁ i o u (.returned false)
  rw [← hes', tips_append] at hlast
  have hnone : tips es = [] := List.filterMap_eq_nil_iff.mpr fun e he => by
    cases e <;> first | rfl | exact absurd rfl (hnt _ he _)
  refine ⟨as ++ [.iterate i (.returned false)], s₁.iterate i o u (.returned false), ?_,
    by rw [run_append hrun]; simp [State.run, h], ⟨hf, hq', (hm₁.step h).quiet_of_flag hf⟩,
    es ++ es', by rw [← hes', hes, List.append_assoc], ?_⟩
  · simp only [List.mem_append, List.mem_singleton]
    rintro a (ha | rfl)
    exacts [hco a ha, .inr (.inl rfl)]
  · rw [tips_append, hnone, List.nil_append, ← hnet]
    exact List.append_cancel_left hlast

/-- A started drain, at its `while` test or awaiting a gather, can always run to its end by its
    own cooperative steps: with `addBlock` returning `False` and every gather answered with zero
    error codes, it empties the queue and resets the flag, and on its way out it tells the tip to
    the peers `self.network` yields, each once and in order, if its `updateTip` is set, and to no
    one otherwise. -/
theorem live_drain_announces_tip {s : State β} (hs : Reachable s) {i : ℕ} {d : Drain β}
    {u : Bool} (hd : s.drains[i]? = some d) (hu : d.pc.updateTip? = some u) :
    ∃ as s', (∀ a ∈ as, Cooperative i codes a) ∧ s.run as = some s' ∧ Idle s' ∧
      tips (s'.trace.drop s.trace.length) = if u then s.network.getD [] else [] := by
  obtain ⟨pc, o⟩ := d
  cases pc with
  | running u' =>
    cases hu
    obtain ⟨as, s', hco, hrun, hidle, es, hes, htips⟩ := running_drain_tips hc hs.mode hd
    exact ⟨as, s', hco, hrun, hidle, by rw [hes, List.drop_left, htips]⟩
  | awaiting u' b =>
    cases hu
    have hi : i < s.drains.length := (List.getElem?_eq_some_iff.mp hd).1
    have h : s.step (.resume i (some codes)) = some (s.resume i o u b (some codes)) := by
      simp [step, hd, busy_eq_false hd rfl (hs.mode.live_active hd rfl).2]
    obtain ⟨-, hds, hnet, htr⟩ := resume_acked s i o u b hc
    obtain ⟨as, s', hco, hrun, hidle, es, hes, htips⟩ :=
      running_drain_tips hc (hs.mode.step h) (i := i) (u := u) (o := o) (by simp [hds, hi])
    refine ⟨.resume i (some codes) :: as, s', ?_, by simp [State.run, h, hrun], hidle, ?_⟩
    · simp only [List.mem_cons]
      rintro a (rfl | ha)
      exacts [.inr (.inr rfl), hco a ha]
    · rw [hes, htr, List.append_assoc, List.drop_left, ← hnet]
      exact htips
  | created | finished | aborted => cases hu

end Codes

theorem DrainLog.of_run {s s₁ : State β} (hs : Reachable s) {i : ℕ} {o o₁ : Option β} {u : Bool}
    (hd : s.drains[i]? = some ⟨.running false, o⟩) {as : List (Action β)}
    (hrun : s.run as = some s₁) (hd₁ : s₁.drains[i]? = some ⟨.running u, o₁⟩) :
    DrainLog u (s₁.trace.drop s.trace.length) := by
  obtain ⟨⟨since, d, hpre, hd', -, hinv⟩, -⟩ := (TipSince.start hd).run hs hrun
  rw [hd₁, Option.some.injEq] at hd'
  rw [hpre, List.drop_left]
  exact hinv u (by rw [← hd']; rfl)

/-- From a point where drain `i`'s `updateTip` is still `False`, as at its start, the drain,
    when it finds the queue empty, tells the tip to the peers `self.network` yields, each once
    and in order, if an `addBlock` call since that point returned `True`, and to no one
    otherwise. -/
theorem finish_tips_iff_moved {s s₁ s' : State β} (hs : Reachable s) {i : ℕ} {o : Option β}
    (hd : s.drains[i]? = some ⟨.running false, o⟩) {as : List (Action β)}
    (hrun : s.run as = some s₁) (hq : s₁.rootBlockUpdateQueue = []) {r : AddBlock}
    (hstep : s₁.step (.iterate i r) = some s') :
    tips (s'.trace.drop s.trace.length) =
      if (s₁.trace.drop s.trace.length).any Event.movedTip then s.network.getD [] else [] := by
  obtain ⟨⟨since, d, hpre, hd₁, -, hinv⟩, hnet⟩ := (TipSince.start hd).run hs hrun
  obtain ⟨u, o₁, hdi, rfl⟩ := step_iterate hstep
  rw [hd₁, Option.some.injEq] at hdi
  obtain ⟨hu, hnone, -, -⟩ := hinv u (by rw [hdi]; rfl)
  obtain ⟨es, hes⟩ := iterate_trace s₁ i o₁ u r
  have htips := tips_iterate_of_empty hq i o₁ u r
  rw [← hes, tips_append, List.append_cancel_left_eq] at htips
  rw [← hes, hpre, List.append_assoc, List.drop_left, List.drop_left, tips_append, hnone, htips,
    hnet, ← hu, List.nil_append]

theorem moved_tip_told_to_peers :
    let s : State ℕ := ⟨[1], true, [⟨.running false, none⟩], some [7, 8], [.enqueue 1]⟩
    let s₁ : State ℕ := ⟨[], true, [⟨.running true, none⟩], some [7, 8],
      [.enqueue 1, .pop 1, .addBlock 1 (.returned true), .broadcast 1, .gathered 1]⟩
    let s' : State ℕ := ⟨[], false, [⟨.finished, none⟩], some [7, 8],
      [.enqueue 1, .pop 1, .addBlock 1 (.returned true), .broadcast 1, .gathered 1,
        .sendUpdatedTip 7, .sendUpdatedTip 8]⟩
    Reachable s ∧ s.drains[0]? = some ⟨.running false, none⟩ ∧
      s.run [.iterate 0 (.returned true), .resume 0 (some [0, 0])] = some s₁ ∧
      s₁.rootBlockUpdateQueue = [] ∧ s₁.step (.iterate 0 (.returned true)) = some s' ∧
      tips (s'.trace.drop s.trace.length) =
        if (s₁.trace.drop s.trace.length).any Event.movedTip then s.network.getD [] else [] := by
  intro s s₁ s'
  have hs : Reachable s := (Reachable.init (some [7, 8])).run
    (by decide : (State.init (some [7, 8])).run [.updateRootBlock 1, .start 0] = some s)
  have hrun : s.run [.iterate 0 (.returned true), .resume 0 (some [0, 0])] = some s₁ := by decide
  have hstep : s₁.step (.iterate 0 (.returned true)) = some s' := by decide
  exact ⟨hs, rfl, hrun, rfl, hstep, finish_tips_iff_moved hs rfl hrun rfl hstep⟩

/-- From a point where drain `i`'s `updateTip` is still `False`, as at its start, to any later
    point where it is back at its `while` test: the blocks it popped are the ones passed to
    `rootState.addBlock`, in order, followed by blocks popped only once a call returned `True`,
    and no call but the last returned `True`. So `addBlock` is called on every popped block up to
    the first that moves the tip, and on none after it. -/
theorem drain_calls_until_moved {s s₁ : State β} (hs : Reachable s) {i : ℕ} {o o₁ : Option β}
    {u : Bool} (hd : s.drains[i]? = some ⟨.running false, o⟩) {as : List (Action β)}
    (hrun : s.run as = some s₁) (hd₁ : s₁.drains[i]? = some ⟨.running u, o₁⟩) :
    ∃ skipped, popped (s₁.trace.drop s.trace.length) =
        (calls (s₁.trace.drop s.trace.length)).map Prod.fst ++ skipped ∧
      (∀ c ∈ (calls (s₁.trace.drop s.trace.length)).dropLast, c.2 ≠ .returned true) ∧
      (skipped ≠ [] →
        ∃ b, (calls (s₁.trace.drop s.trace.length)).getLast? = some (b, .returned true)) := by
  obtain ⟨hm, -, ⟨skipped, hpop, -, hsk⟩, honly⟩ := DrainLog.of_run hs hd hrun hd₁
  refine ⟨skipped, hpop, honly, fun hne => ?_⟩
  have hu : u = true := by
    cases u
    · exact absurd (hsk rfl) hne
    · rfl
  obtain ⟨b, hb⟩ := (any_movedTip_iff _).mp (hm ▸ hu)
  exact ⟨b, getLast?_of_not_mem_dropLast hb fun hmem => honly _ hmem rfl⟩

theorem third_block_not_added :
    let s : State ℕ := ⟨[1, 2, 3], true, [⟨.running false, none⟩], none,
      [.enqueue 1, .enqueue 2, .enqueue 3]⟩
    let s₁ : State ℕ := ⟨[], true, [⟨.running true, none⟩], none,
      [.enqueue 1, .enqueue 2, .enqueue 3, .pop 1, .addBlock 1 .valueError, .pop 2,
        .addBlock 2 (.returned true), .broadcast 2, .gathered 2, .pop 3, .broadcast 3,
        .gathered 3]⟩
    Reachable s ∧ s.drains[0]? = some ⟨.running false, none⟩ ∧
      s.run [.iterate 0 .valueError, .iterate 0 (.returned true), .resume 0 (some [0]),
        .iterate 0 .valueError, .resume 0 (some [0])] = some s₁ ∧
      s₁.drains[0]? = some ⟨.running true, none⟩ ∧
      ∃ skipped, popped (s₁.trace.drop s.trace.length) =
          (calls (s₁.trace.drop s.trace.length)).map Prod.fst ++ skipped ∧
        (∀ c ∈ (calls (s₁.trace.drop s.trace.length)).dropLast, c.2 ≠ .returned true) ∧
        (skipped ≠ [] →
          ∃ b, (calls (s₁.trace.drop s.trace.length)).getLast? = some (b, .returned true)) := by
  intro s s₁
  have hs : Reachable s := (Reachable.init none).run (by decide : (State.init none).run
    [.updateRootBlock 1, .updateRootBlock 2, .updateRootBlock 3, .start 0] = some s)
  have hrun : s.run [.iterate 0 .valueError, .iterate 0 (.returned true), .resume 0 (some [0]),
      .iterate 0 .valueError, .resume 0 (some [0])] = some s₁ := by decide
  exact ⟨hs, rfl, hrun, rfl, drain_calls_until_moved (i := 0) (u := true) hs rfl hrun rfl⟩

/-- Over the same span, the blocks broadcast to the slaves are the blocks `addBlock` returned on,
    in order, followed by the blocks popped without a call: once the tip has moved, a block goes
    to every shard although `rootState` never added it. -/
theorem drain_broadcasts_accepted_then_uncalled {s s₁ : State β} (hs : Reachable s) {i : ℕ}
    {o o₁ : Option β} {u : Bool} (hd : s.drains[i]? = some ⟨.running false, o⟩)
    {as : List (Action β)} (hrun : s.run as = some s₁)
    (hd₁ : s₁.drains[i]? = some ⟨.running u, o₁⟩) :
    broadcasts (s₁.trace.drop s.trace.length) =
      accepted (s₁.trace.drop s.trace.length) ++ (popped (s₁.trace.drop s.trace.length)).drop
        (calls (s₁.trace.drop s.trace.length)).length := by
  obtain ⟨-, -, ⟨skipped, hpop, hbc, -⟩, -⟩ := DrainLog.of_run hs hd hrun hd₁
  rw [hbc, hpop, List.drop_left' (List.length_map _ _)]

theorem unadded_block_broadcast :
    let s : State ℕ := ⟨[1, 2, 3], true, [⟨.running false, none⟩], none,
      [.enqueue 1, .enqueue 2, .enqueue 3]⟩
    let s₁ : State ℕ := ⟨[], true, [⟨.running true, none⟩], none,
      [.enqueue 1, .enqueue 2, .enqueue 3, .pop 1, .addBlock 1 (.returned false), .broadcast 1,
        .gathered 1, .pop 2, .addBlock 2 (.returned true), .broadcast 2, .gathered 2, .pop 3,
        .broadcast 3, .gathered 3]⟩
    Reachable s ∧ s.drains[0]? = some ⟨.running false, none⟩ ∧
      s.run [.iterate 0 (.returned false), .resume 0 (some [0]), .iterate 0 (.returned true),
        .resume 0 (some [0]), .iterate 0 .valueError, .resume 0 (some [0])] = some s₁ ∧
      s₁.drains[0]? = some ⟨.running true, none⟩ ∧
      broadcasts (s₁.trace.drop s.trace.length) =
        accepted (s₁.trace.drop s.trace.length) ++ (popped (s₁.trace.drop s.trace.length)).drop
          (calls (s₁.trace.drop s.trace.length)).length := by
  intro s s₁
  have hs : Reachable s := (Reachable.init none).run (by decide : (State.init none).run
    [.updateRootBlock 1, .updateRootBlock 2, .updateRootBlock 3, .start 0] = some s)
  have hrun : s.run [.iterate 0 (.returned false), .resume 0 (some [0]),
      .iterate 0 (.returned true), .resume 0 (some [0]), .iterate 0 .valueError,
      .resume 0 (some [0])] = some s₁ := by decide
  exact ⟨hs, rfl, hrun, rfl,
    drain_broadcasts_accepted_then_uncalled (i := 0) (u := true) hs rfl hrun rfl⟩

theorem moved_tip_announced :
    let s : State ℕ := ⟨[2], true, [⟨.awaiting true 1, none⟩], some [7, 8],
      [.enqueue 1, .enqueue 2, .pop 1, .addBlock 1 (.returned true), .broadcast 1]⟩
    (∀ c ∈ [0], c = 0) ∧ Reachable s ∧ s.drains[0]? = some ⟨.awaiting true 1, none⟩ ∧
      (Pc.awaiting true 1 : Pc ℕ).updateTip? = some true ∧
      ∃ as s', (∀ a ∈ as, Cooperative 0 [0] a) ∧ s.run as = some s' ∧ Idle s' ∧
        tips (s'.trace.drop s.trace.length) = [7, 8] := by
  intro s
  have hc : ∀ c ∈ [0], c = 0 := by decide
  have hs : Reachable s := (Reachable.init (some [7, 8])).run (by decide : (State.init
    (some [7, 8])).run [.updateRootBlock 1, .updateRootBlock 2, .start 0,
      .iterate 0 (.returned true)] = some s)
  exact ⟨hc, hs, rfl, rfl,
    live_drain_announces_tip hc hs (i := 0) (d := ⟨.awaiting true 1, none⟩) rfl rfl⟩

end QuarkChain.Serializer
