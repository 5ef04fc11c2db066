import QuarkChain.Serializer

set_option autoImplicit false

/-!
# One drain at a time

Every reachable state is in one of three modes: idle (flag clear, queue empty, every drain
finished), active (flag set, exactly one live drain, every other finished) or stuck (flag set
after a drain ended by an exception, no live drain). The mode is all the mutual exclusion of
`updateRooBlockAsync` needs.
-/

namespace QuarkChain.Serializer
variable {β : Type}
open State

theorem getElem?_append_singleton {α : Type} {l : List α} {a e : α} {j : ℕ}
    (h : (l ++ [a])[j]? = some e) (hj : j ≠ l.length) : l[j]? = some e := by
  rcases Nat.lt_or_ge j l.length with hlt | hge
  · rwa [List.getElem?_append_left hlt] at h
  · obtain ⟨k, hk⟩ : ∃ k, j - l.length = k + 1 := ⟨j - l.length - 1, by omega⟩
    simp [List.getElem?_append_right hge, hk] at h

section Steps
variable {s s' : State β}

theorem step_updateRootBlock {b : β} (h : s.step (.updateRootBlock b) = some s') :
    s.busy = false ∧ s' = s.updateRootBlock b := by
  simp only [step] at h
  split at h
  · cases h
  · cases h; exact ⟨Bool.eq_false_iff.mpr ‹_›, rfl⟩

theorem step_addRootBlock {b : β} {v : Bool} (h : s.step (.addRootBlock b v) = some s') :
    s.busy = false ∧ s' = s.addRootBlock b v := by
  simp only [step] at h
  split at h
  · cases h
  · cases h; exact ⟨Bool.eq_false_iff.mpr ‹_›, rfl⟩

theorem step_start {i : ℕ} (h : s.step (.start i) = some s') :
    ∃ o, s.drains[i]? = some ⟨.created, o⟩ ∧
      s' = s.setDrain i ⟨entry s.isUpdatingRootBlock, o⟩ := by
  simp only [step] at h
  split at h
  · rename_i o hd _; cases h; exact ⟨o, hd, rfl⟩
  · cases h

theorem step_iterate {i : ℕ} {r : AddBlock} (h : s.step (.iterate i r) = some s') :
    ∃ u o, s.drains[i]? = some ⟨.running u, o⟩ ∧ s' = s.iterate i o u r := by
  simp only [step] at h
  split at h
  · rename_i u o hd; cases h; exact ⟨u, o, hd, rfl⟩
  · cases h

theorem step_resume {i : ℕ} {c : Option (List ℕ)} (h : s.step (.resume i c) = some s') :
    ∃ u b o, s.drains[i]? = some ⟨.awaiting u b, o⟩ ∧ s.busy = false ∧ s' = s.resume i o u b c := by
  simp only [step] at h
  split at h
  · rename_i u b o hd hb; cases h; exact ⟨u, b, o, hd, hb, rfl⟩
  · cases h

end Steps

theorem iterate_cases (s : State β) (i : ℕ) (o : Option β) (u : Bool) (r : AddBlock) :
    (s.rootBlockUpdateQueue = [] ∧ (s.iterate i o u r).isUpdatingRootBlock = false ∧
      (s.iterate i o u r).rootBlockUpdateQueue = [] ∧
      (s.iterate i o u r).drains = s.drains.set i ⟨.finished, o⟩) ∨
    ∃ pc : Pc β, (pc.live = true ∨ pc = .aborted) ∧
      (s.iterate i o u r).isUpdatingRootBlock = s.isUpdatingRootBlock ∧
      (s.iterate i o u r).drains = s.drains.set i ⟨pc, o⟩ := by
  unfold iterate
  split
  · left; cases o <;> cases u <;> simp_all
  · right
    cases u
    · cases r <;> exact ⟨_, by simp [Pc.live], rfl, rfl⟩
    · exact ⟨_, by simp [Pc.live], rfl, rfl⟩

theorem resume_cases (s : State β) (i : ℕ) (o : Option β) (u : Bool) (b : β)
    (c : Option (List ℕ)) :
    ∃ pc : Pc β, (pc.live = true ∨ pc = .aborted) ∧
      (s.resume i o u b c).isUpdatingRootBlock = s.isUpdatingRootBlock ∧
      (s.resume i o u b c).drains = s.drains.set i ⟨pc, o⟩ := by
  cases c with
  | none => exact ⟨_, .inr rfl, rfl, rfl⟩
  | some c =>
    by_cases h : c.all (· == 0) = true
    · exact ⟨.running u, .inl rfl, by simp [resume, h], by simp [resume, h]⟩
    · exact ⟨.aborted, .inr rfl, by simp [resume, h], by simp [resume, h]⟩

/-- The three modes of the serializer. -/
inductive Mode (s : State β) : Prop
  -- the flag is clear, the queue empty and every drain finished
  | idle (flag : s.isUpdatingRootBlock = false) (queue : s.rootBlockUpdateQueue = [])
      (finished : ∀ (j : ℕ) (e : Drain β), s.drains[j]? = some e → e.pc = .finished)
  -- drain `i` is live, every other one finished
  | active (i : ℕ) (d : Drain β) (flag : s.isUpdatingRootBlock = true) (hd : s.drains[i]? = some d)
      (live : d.pc.live = true)
      (others : ∀ (j : ℕ) (e : Drain β), s.drains[j]? = some e → j ≠ i → e.pc = .finished)
  -- a drain ended by an exception, the flag is still set, and no drain is live
  | stuck (flag : s.isUpdatingRootBlock = true) (i : ℕ) (d : Drain β) (hd : s.drains[i]? = some d)
      (aborted : d.pc = .aborted)
      (dead : ∀ (j : ℕ) (e : Drain β), s.drains[j]? = some e → e.pc.live = false)

namespace Mode
variable {s s' : State β}

theorem init (network : Option (List ℕ)) : Mode (State.init network : State β) :=
  .idle rfl rfl (by simp [State.init])

theorem of_eq (hm : Mode s) (hf : s'.isUpdatingRootBlock = s.isUpdatingRootBlock)
    (hq : s'.rootBlockUpdateQueue = s.rootBlockUpdateQueue) (hds : s'.drains = s.drains) :
    Mode s' := by
  cases hm with
  | idle flag queue finished => exact .idle (hf ▸ flag) (hq ▸ queue) (hds ▸ finished)
  | active i d flag hd live others => exact .active i d (hf ▸ flag) (hds ▸ hd) live (hds ▸ others)
  | stuck flag i d hd aborted dead => exact .stuck (hf ▸ flag) i d (hds ▸ hd) aborted (hds ▸ dead)

theorem record (hm : Mode s) (es : List (Event β)) : Mode (s.record es) := hm.of_eq rfl rfl rfl

theorem enqueue (hm : Mode s) (hf : s.isUpdatingRootBlock = true) (b : β) : Mode (s.enqueue b) := by
  cases hm with
  | idle flag => simp_all
  | active i d flag hd live others => exact .active i d flag hd live others
  | stuck flag i d hd aborted dead => exact .stuck flag i d hd aborted dead

theorem launch (hm : Mode s) (hf : s.isUpdatingRootBlock = false) (b : β) {d : Drain β}
    (hl : d.pc.live = true) : Mode ((s.enqueue b).launch d) := by
  cases hm with
  | idle _ _ finished =>
    exact .active s.drains.length d rfl (by simp) hl fun j e he hj =>
      finished j e (getElem?_append_singleton he hj)
  | active _ _ flag | stuck flag => simp_all

theorem updateRootBlock (hm : Mode s) (b : β) : Mode (s.updateRootBlock b) := by
  unfold State.updateRootBlock
  cases hf : s.isUpdatingRootBlock
  · simpa [hf] using hm.launch hf b (d := ⟨.created, none⟩) rfl
  · simpa [hf] using hm.enqueue hf b

theorem addRootBlock (hm : Mode s) (b : β) (v : Bool) : Mode (s.addRootBlock b v) := by
  unfold State.addRootBlock
  cases v
  · exact hm
  · cases hf : s.isUpdatingRootBlock
    · simpa [hf] using hm.launch hf b (d := ⟨entry true, some b⟩) rfl
    · simpa [hf] using (hm.enqueue hf b).record [.returned b]

theorem live_active (hm : Mode s) {i : ℕ} {d : Drain β} (hd : s.drains[i]? = some d)
    (hl : d.pc.live = true) :
    s.isUpdatingRootBlock = true ∧
      ∀ (j : ℕ) (e : Drain β), s.drains[j]? = some e → j ≠ i → e.pc = .finished := by
  cases hm with
  | idle _ _ finished => simp [finished i d hd, Pc.live] at hl
  | active k _ flag _ _ others =>
    refine ⟨flag, ?_⟩
    by_cases hk : i = k
    · exact hk ▸ others
    · simp [others i d hd hk, Pc.live] at hl
  | stuck _ _ _ _ _ dead => simp [dead i d hd] at hl

theorem replace (hm : Mode s) {i : ℕ} {d d' : Drain β} (hd : s.drains[i]? = some d)
    (hl : d.pc.live = true) (hf : s'.isUpdatingRootBlock = s.isUpdatingRootBlock)
    (hds : s'.drains = s.drains.set i d') (h' : d'.pc.live = true ∨ d'.pc = .aborted) :
    Mode s' := by
  obtain ⟨flag, others⟩ := hm.live_active hd hl
  have hi : i < s.drains.length := (List.getElem?_eq_some_iff.mp hd).1
  have hself : s'.drains[i]? = some d' := by rw [hds, List.getElem?_set_self hi]
  have hother : ∀ (j : ℕ) (e : Drain β), s'.drains[j]? = some e → j ≠ i → e.pc = .finished :=
    fun j e he hj => others j e (by rwa [hds, List.getElem?_set_ne (Ne.symm hj)] at he) hj
  rcases h' with h' | h'
  · exact .active i d' (hf ▸ flag) hself h' hother
  · refine .stuck (hf ▸ flag) i d' hself h' fun j e he => ?_
    by_cases hj : j = i
    · subst hj
      rw [hself, Option.some.injEq] at he
      rw [← he, h']
      rfl
    · rw [hother j e he hj]
      rfl

theorem finish (hm : Mode s) {i : ℕ} {d : Drain β} {o : Option β} (hd : s.drains[i]? = some d)
    (hl : d.pc.live = true) (hf : s'.isUpdatingRootBlock = false)
    (hq : s'.rootBlockUpdateQueue = []) (hds : s'.drains = s.drains.set i ⟨.finished, o⟩) :
    Mode s' := by
  obtain ⟨-, others⟩ := hm.live_active hd hl
  refine .idle hf hq fun j e he => ?_
  by_cases hj : j = i
  · subst hj
    have hi : j < s.drains.length := (List.getElem?_eq_some_iff.mp hd).1
    simp only [hds, List.getElem?_set_self hi, Option.some.injEq] at he
    rw [← he]
  · exact others j e (by rwa [hds, List.getElem?_set_ne (Ne.symm hj)] at he) hj

theorem step (hm : Mode s) {a : Action β} (h : s.step a = some s') : Mode s' := by
  cases a with
  | updateRootBlock b => obtain ⟨-, rfl⟩ := step_updateRootBlock h; exact hm.updateRootBlock b
  | addRootBlock b v => obtain ⟨-, rfl⟩ := step_addRootBlock h; exact hm.addRootBlock b v
  | start i =>
    obtain ⟨o, hd, rfl⟩ := step_start h
    have flag := (hm.live_active hd rfl).1
    exact hm.replace hd rfl rfl rfl (by simp [flag, entry, Pc.live])
  | iterate i r =>
    obtain ⟨u, o, hd, rfl⟩ := step_iterate h
    rcases iterate_cases s i o u r with ⟨-, hf, hq, hds⟩ | ⟨pc, hpc, hf, hds⟩
    · exact hm.finish hd rfl hf hq hds
    · exact hm.replace hd rfl hf hds hpc
  | resume i c =>
    obtain ⟨u, b, o, hd, -, rfl⟩ := step_resume h
    obtain ⟨pc, hpc, hf, hds⟩ := resume_cases s i o u b c
    exact hm.replace hd rfl hf hds hpc

end Mode

theorem Reachable.mode {s : State β} (hs : Reachable s) : Mode s := by
  induction hs with
  | init network => exact .init network
  | step _ _ h ih => exact ih.step h

theorem step_launches {s s' : State β} {a : Action β} (h : s.step a = some s')
    (hlt : s.drains.length < s'.drains.length) :
    s.isUpdatingRootBlock = false ∧ s'.isUpdatingRootBlock = true := by
  cases a with
  | updateRootBlock b =>
    obtain ⟨-, rfl⟩ := step_updateRootBlock h
    cases hf : s.isUpdatingRootBlock <;> simp_all [State.updateRootBlock]
  | addRootBlock b v =>
    obtain ⟨-, rfl⟩ := step_addRootBlock h
    cases v <;> cases hf : s.isUpdatingRootBlock <;> simp_all [State.addRootBlock]
  | start i => obtain ⟨o, -, rfl⟩ := step_start h; simp at hlt
  | iterate i r =>
    obtain ⟨u, o, -, rfl⟩ := step_iterate h
    rcases iterate_cases s i o u r with ⟨-, -, -, hds⟩ | ⟨pc, -, -, hds⟩ <;> simp [hds] at hlt
  | resume i c =>
    obtain ⟨u, b, o, -, -, rfl⟩ := step_resume h
    obtain ⟨pc, -, -, hds⟩ := resume_cases s i o u b c
    simp [hds] at hlt

/-- At most one invocation of `updateRooBlockAsync` is live; the next step launches a drain
    only by turning `isUpdatingRootBlock` from False to True; and a drain the loop starts
    passes its `check(self.isUpdatingRootBlock)`. -/
def SingleDrain (s : State β) : Prop :=
  (∀ (i j : ℕ) (d e : Drain β), s.drains[i]? = some d → s.drains[j]? = some e →
    d.pc.live = true → e.pc.live = true → i = j) ∧
  (∀ (a : Action β) (s' : State β), s.step a = some s' → s.drains.length < s'.drains.length →
    s.isUpdatingRootBlock = false ∧ s'.isUpdatingRootBlock = true) ∧
  ∀ (i : ℕ) (s' : State β), s.step (.start i) = some s' →
    ∃ o, s'.drains[i]? = some ⟨.running false, o⟩

theorem reachable_single_drain {s : State β} (hs : Reachable s) : SingleDrain s := by
  have hm := hs.mode
  refine ⟨fun i j d e hd he hl hl' => ?_, fun a s' h hlt => step_launches h hlt, fun i s' h => ?_⟩
  · by_contra hij
    simp [(hm.live_active hd hl).2 j e he (Ne.symm hij), Pc.live] at hl'
  · obtain ⟨o, hd, rfl⟩ := step_start h
    have flag := (hm.live_active hd rfl).1
    have hi := (List.getElem?_eq_some_iff.mp hd).1
    exact ⟨o, by simp [flag, entry, hi]⟩

theorem single_drain_midway :
    let s : State ℕ := ⟨[2], true, [⟨.awaiting true 1, none⟩], none,
      [.enqueue 1, .enqueue 2, .pop 1, .addBlock 1 (.returned true), .broadcast 1]⟩
    Reachable s ∧ SingleDrain s := by
  intro s
  have hs : Reachable s := (Reachable.init none).run (by decide : (State.init none).run
    [.updateRootBlock 1, .updateRootBlock 2, .start 0, .iterate 0 (.returned true)] = some s)
  exact ⟨hs, reachable_single_drain hs⟩

def Quiet (s : State β) : Prop := ∀ (i : ℕ) (d : Drain β), s.drains[i]? = some d → d.pc.live = false

theorem Quiet.of_drains {s s' : State β} (h : Quiet s) (hds : s'.drains = s.drains) : Quiet s' :=
  fun i d hd => h i d (hds ▸ hd)

def Aborted (s : State β) : Prop := ∃ (i : ℕ) (d : Drain β), s.drains[i]? = some d ∧ d.pc = .aborted

/-- In every state a run reaches from `s`, the flag is set, no drain is live and the queue
    has only grown. -/
def Stays (s : State β) : Prop :=
  ∀ (as : List (Action β)) (s' : State β), s.run as = some s' →
    s'.isUpdatingRootBlock = true ∧ s.rootBlockUpdateQueue <+: s'.rootBlockUpdateQueue ∧ Quiet s'

theorem step_of_quiet {s s' : State β} {a : Action β} (hf : s.isUpdatingRootBlock = true)
    (hquiet : Quiet s)
    (h : s.step a = some s') :
    s'.isUpdatingRootBlock = true ∧ s'.drains = s.drains ∧
      s.rootBlockUpdateQueue <+: s'.rootBlockUpdateQueue := by
  cases a with
  | updateRootBlock b =>
    obtain ⟨-, rfl⟩ := step_updateRootBlock h
    simp [State.updateRootBlock, hf]
  | addRootBlock b v =>
    obtain ⟨-, rfl⟩ := step_addRootBlock h
    cases v <;> simp [State.addRootBlock, hf]
  | start i => obtain ⟨o, hd, -⟩ := step_start h; exact absurd (hquiet i _ hd) (by simp [Pc.live])
  | iterate i r =>
    obtain ⟨u, o, hd, -⟩ := step_iterate h; exact absurd (hquiet i _ hd) (by simp [Pc.live])
  | resume i c =>
    obtain ⟨u, b, o, hd, -⟩ := step_resume h; exact absurd (hquiet i _ hd) (by simp [Pc.live])

theorem run_of_quiet {s s' : State β} {as : List (Action β)} (hf : s.isUpdatingRootBlock = true)
    (hquiet : Quiet s)
    (h : s.run as = some s') :
    s'.isUpdatingRootBlock = true ∧ s'.drains = s.drains ∧
      s.rootBlockUpdateQueue <+: s'.rootBlockUpdateQueue := by
  induction as generalizing s with
  | nil => cases h; exact ⟨hf, rfl, List.prefix_refl _⟩
  | cons a as ih =>
    simp only [State.run, Option.bind_eq_some] at h
    obtain ⟨t, ht, h⟩ := h
    obtain ⟨hf', hds, hq⟩ := step_of_quiet hf hquiet ht
    obtain ⟨hf'', hds', hq'⟩ := ih hf' (hquiet.of_drains hds) h
    exact ⟨hf'', hds'.trans hds, hq.trans hq'⟩

/-- When no drain is live, either none ended by an exception, and the flag is clear and the
    queue empty; or one did, and the flag stays set for good, no drain is ever live again and
    every block enqueued from then on stays in the queue. -/
theorem reachable_quiet {s : State β} (hs : Reachable s) (hquiet : Quiet s) :
    (s.isUpdatingRootBlock = false ∧ s.rootBlockUpdateQueue = [] ∧ ¬ Aborted s) ∨
      (Aborted s ∧ Stays s) := by
  cases hs.mode with
  | idle flag queue finished =>
    refine .inl ⟨flag, queue, ?_⟩
    rintro ⟨i, d, hd, hab⟩
    simp [finished i d hd] at hab
  | active i d _ hd live => simp [hquiet i d hd] at live
  | stuck flag i d hd aborted =>
    refine .inr ⟨⟨i, d, hd, aborted⟩, fun as s' h => ?_⟩
    obtain ⟨hf, hds, hq⟩ := run_of_quiet flag hquiet h
    exact ⟨hf, hq, hquiet.of_drains hds⟩

theorem quiet_stuck_run :
    let s : State ℕ := ⟨[2], true, [⟨.aborted, none⟩], none,
      [.enqueue 1, .pop 1, .addBlock 1 .raised, .enqueue 2]⟩
    Reachable s ∧ Quiet s ∧
      ((s.isUpdatingRootBlock = false ∧ s.rootBlockUpdateQueue = [] ∧ ¬ Aborted s) ∨
        (Aborted s ∧ Stays s)) := by
  intro s
  have hs : Reachable s := (Reachable.init none).run (by decide : (State.init none).run
    [.updateRootBlock 1, .start 0, .iterate 0 .raised, .updateRootBlock 2] = some s)
  have hq : Quiet s := fun i d hd => by
    cases i with
    | zero => cases hd; rfl
    | succ i => simp [s] at hd
  exact ⟨hs, hq, reachable_quiet hs hq⟩

theorem quiet_not_idle : ¬ ∀ (s : State ℕ), Reachable s → Quiet s →
    s.isUpdatingRootBlock = false ∧ s.rootBlockUpdateQueue = [] := by
  intro h
  have hr : (State.init none : State ℕ).run
      [.updateRootBlock 1, .start 0, .iterate 0 .raised, .updateRootBlock 2] =
      some ⟨[2], true, [⟨.aborted, none⟩], none,
        [.enqueue 1, .pop 1, .addBlock 1 .raised, .enqueue 2]⟩ := by decide
  have := h _ ((Reachable.init none).run hr) fun i d hd => by
    cases i with
    | zero => cases hd; rfl
    | succ i => simp at hd
  simp at this

end QuarkChain.Serializer
