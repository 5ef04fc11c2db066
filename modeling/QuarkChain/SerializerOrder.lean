import QuarkChain.SerializerModes

set_option autoImplicit false

/-!
# What the collaborators see of the serializer

Blocks leave the queue in the order they entered it. A drain that `addRootBlock(b)` runs
inline deals with `b` first, so when that call returns, `addBlock(b)` has been called and
its broadcast gathered; a call that finds a drain already live returns at once.
-/

namespace QuarkChain.Serializer
variable {β : Type}
open State

def Event.enqueued? : Event β → Option β
  | .enqueue b => some b
  | _ => none

def Event.popped? : Event β → Option β
  | .pop b => some b
  | _ => none

def enqueued (es : List (Event β)) : List β := es.filterMap Event.enqueued?

def popped (es : List (Event β)) : List β := es.filterMap Event.popped?

@[simp] theorem enqueued_tips (ps : List ℕ) :
    (ps.filterMap (Event.enqueued? ∘ (.sendUpdatedTip : ℕ → Event β))) = [] := by
  simp [Event.enqueued?]
@[simp] theorem popped_tips (ps : List ℕ) :
    (ps.filterMap (Event.popped? ∘ (.sendUpdatedTip : ℕ → Event β))) = [] := by
  simp [Event.popped?]

/-- Everything enqueued so far is what was popped, followed by the queue. -/
def Fifo (s : State β) : Prop := popped s.trace ++ s.rootBlockUpdateQueue = enqueued s.trace

theorem Fifo.step {s s' : State β} {a : Action β} (hf : Fifo s) (h : s.step a = some s') :
    Fifo s' := by
  unfold Fifo enqueued popped at *
  cases a with
  | updateRootBlock b =>
    obtain ⟨-, rfl⟩ := step_updateRootBlock h
    cases hu : s.isUpdatingRootBlock <;>
      simp [State.updateRootBlock, hu, ← hf, Event.enqueued?, Event.popped?]
  | addRootBlock b v =>
    obtain ⟨-, rfl⟩ := step_addRootBlock h
    cases v
    · exact hf
    · cases hu : s.isUpdatingRootBlock <;>
        simp [State.addRootBlock, hu, ← hf, Event.enqueued?, Event.popped?]
  | start i => obtain ⟨o, -, rfl⟩ := step_start h; exact hf
  | iterate i r =>
    obtain ⟨u, o, -, rfl⟩ := step_iterate h
    unfold State.iterate
    split
    · rename_i hq
      cases o <;> cases u <;> simp_all [Event.enqueued?, Event.popped?]
    · rename_i b rest hq
      rw [hq] at hf
      cases u
      · cases r <;> simp [← hf, broadcast, Event.enqueued?, Event.popped?]
      · simp [← hf, broadcast, Event.enqueued?, Event.popped?]
  | resume i c =>
    obtain ⟨u, b, o, -, -, rfl⟩ := step_resume h
    cases c with
    | none => exact hf
    | some c =>
      simp only [State.resume]
      split_ifs <;> simp [← hf, Event.enqueued?, Event.popped?]

theorem Reachable.fifo {s : State β} (hs : Reachable s) : Fifo s := by
  induction hs with
  | init network => rfl
  | step _ _ h ih => exact ih.step h

/-- The run of the spec's scenario with two blocks: `addBlock(1)` moves the tip, and from then
    on `updateTip or self.rootState.addBlock(rBlock)` no longer calls `addBlock`, so block 2 is
    popped and broadcast to the slaves without the root state ever adding it. -/
theorem drain_skips_addBlock :
    (State.init (some [7]) : State ℕ).run
      [.updateRootBlock 1, .updateRootBlock 2, .start 0, .iterate 0 (.returned true),
       .resume 0 (some [0]), .iterate 0 (.returned true), .resume 0 (some [0]),
       .iterate 0 (.returned true)] =
    some ⟨[], false, [⟨.finished, none⟩], some [7],
      [.enqueue 1, .enqueue 2, .pop 1, .addBlock 1 (.returned true), .broadcast 1, .gathered 1,
       .pop 2, .broadcast 2, .gathered 2, .sendUpdatedTip 7]⟩ := by decide

theorem getElem?_set_cases {α : Type} {l : List α} {i j : ℕ} {a e : α}
    (h : (l.set i a)[j]? = some e) : (j = i ∧ e = a) ∨ (j ≠ i ∧ l[j]? = some e) := by
  by_cases hj : j = i
  · subst hj
    rw [List.getElem?_set] at h
    split at h <;> simp_all
  · exact .inr ⟨hj, by rwa [List.getElem?_set_ne (Ne.symm hj)] at h⟩

theorem not_running_of_busy {s : State β} (hb : s.busy = false) {j : ℕ} {e : Drain β}
    (he : s.drains[j]? = some e) : e.pc.isRunning = false := by
  simp only [busy, List.any_eq_false] at hb
  simpa using hb e (List.getElem?_mem he)

theorem iterate_trace (s : State β) (i : ℕ) (o : Option β) (u : Bool) (r : AddBlock) :
    s.trace <+: (s.iterate i o u r).trace := by
  unfold State.iterate
  split
  · cases o <;> cases u <;> simp
  · cases u
    · cases r <;> simp [broadcast]
    · simp [broadcast]

theorem resume_trace (s : State β) (i : ℕ) (o : Option β) (u : Bool) (b : β)
    (c : Option (List ℕ)) : s.trace <+: (s.resume i o u b c).trace := by
  cases c with
  | none => exact List.prefix_refl _
  | some c => simp only [State.resume]; split_ifs <;> simp

/-- `rootState.addBlock(b)` was called, and unless it raised `ValueError` the broadcast of `b`
    was gathered. -/
def Served (b : β) (trace : List (Event β)) : Prop :=
  ∃ r, Event.addBlock b r ∈ trace ∧ (r ≠ .valueError → Event.gathered b ∈ trace)

theorem Served.mono {b : β} {tr tr' : List (Event β)} (h : Served b tr) (ht : tr <+: tr') :
    Served b tr' :=
  let ⟨r, ha, hg⟩ := h
  ⟨r, ht.subset ha, fun hr => ht.subset (hg hr)⟩

/-- How far a drain that `addRootBlock(b)` awaits has got with `b`: `b` is at the head of the
    queue, or its broadcast is awaited, or it is served, or the drain raised. -/
def OwnerProgress (s : State β) (d : Drain β) : Prop :=
  ∀ b, d.owner = some b →
    Served b s.trace ∨ (d.pc = .running false ∧ s.rootBlockUpdateQueue.head? = some b) ∨
    (∃ t, d.pc = .awaiting t b ∧ Event.addBlock b (.returned t) ∈ s.trace) ∨ d.pc = .aborted

theorem OwnerProgress.mono {s s' : State β} {d : Drain β} (h : OwnerProgress s d)
    (hr : d.pc.isRunning = false) (ht : s.trace <+: s'.trace) : OwnerProgress s' d := by
  intro b hb
  rcases h b hb with h | ⟨h, -⟩ | ⟨t, h, ha⟩ | h
  · exact .inl (h.mono ht)
  · simp [h, Pc.isRunning] at hr
  · exact .inr (.inr (.inl ⟨t, h, ht.subset ha⟩))
  · exact .inr (.inr (.inr h))

theorem OwnerProgress.iterate {s : State β} {i : ℕ} {o : Option β} {u : Bool} (r : AddBlock)
    (hp : OwnerProgress s ⟨.running u, o⟩) :
    ∃ pc : Pc β, (s.iterate i o u r).drains = s.drains.set i ⟨pc, o⟩ ∧
      OwnerProgress (s.iterate i o u r) ⟨pc, o⟩ := by
  have hds : ∃ pc : Pc β, (s.iterate i o u r).drains = s.drains.set i ⟨pc, o⟩ := by
    rcases iterate_cases s i o u r with ⟨-, -, -, hds⟩ | ⟨pc, -, -, hds⟩
    exacts [⟨_, hds⟩, ⟨_, hds⟩]
  cases o with
  | none => obtain ⟨pc, hds⟩ := hds; exact ⟨pc, hds, fun _ h => by cases h⟩
  | some b =>
    rcases hp b rfl with h | ⟨h, hq⟩ | ⟨_, h, -⟩ | h
    · obtain ⟨pc, hds⟩ := hds
      exact ⟨pc, hds, fun _ hb => by cases hb; exact .inl (h.mono (iterate_trace s i _ u r))⟩
    · cases h
      obtain ⟨rest, hq⟩ : ∃ rest, s.rootBlockUpdateQueue = b :: rest := by
        cases hq' : s.rootBlockUpdateQueue <;> simp_all
      cases r with
      | returned t =>
        refine ⟨.awaiting t b, by simp [State.iterate, hq, broadcast], fun _ hb => ?_⟩
        cases hb
        exact .inr (.inr (.inl ⟨t, rfl, by simp [State.iterate, hq, broadcast]⟩))
      | valueError =>
        refine ⟨.running false, by simp [State.iterate, hq], fun _ hb => ?_⟩
        cases hb
        exact .inl ⟨.valueError, by simp [State.iterate, hq], by simp⟩
      | raised => exact ⟨.aborted, by simp [State.iterate, hq], fun _ _ => .inr (.inr (.inr rfl))⟩
    all_goals cases h

theorem OwnerProgress.resume {s : State β} {i : ℕ} {o : Option β} {u : Bool} {b' : β}
    (c : Option (List ℕ)) (hp : OwnerProgress s ⟨.awaiting u b', o⟩) :
    ∃ pc : Pc β, (s.resume i o u b' c).drains = s.drains.set i ⟨pc, o⟩ ∧
      OwnerProgress (s.resume i o u b' c) ⟨pc, o⟩ := by
  cases c with
  | none => exact ⟨.aborted, rfl, fun _ _ => .inr (.inr (.inr rfl))⟩
  | some c =>
    by_cases hc : c.all (· == 0) = true
    · refine ⟨.running u, by simp [State.resume, hc], fun b hb => .inl ?_⟩
      have ht : s.trace <+: (s.resume i o u b' (some c)).trace := resume_trace s i o u b' _
      rcases hp b hb with h | ⟨h, -⟩ | ⟨t, h, ha⟩ | h
      · exact h.mono ht
      · cases h
      · cases h
        exact ⟨_, ht.subset ha, fun _ => by simp [State.resume, hc]⟩
      · cases h
    · exact ⟨.aborted, by simp [State.resume, hc], fun _ _ => .inr (.inr (.inr rfl))⟩

def Owners (s : State β) : Prop :=
  ∀ (i : ℕ) (d : Drain β), s.drains[i]? = some d → OwnerProgress s d

namespace Owners
variable {s s' : State β}

theorem set (ho : Owners s) {i : ℕ} {d' : Drain β} (ht : s.trace <+: s'.trace)
    (hds : s'.drains = s.drains.set i d')
    (hrun : ∀ (j : ℕ) (e : Drain β), s.drains[j]? = some e → j ≠ i → e.pc.isRunning = false)
    (hd' : OwnerProgress s' d') : Owners s' := fun j e he => by
  rw [hds] at he
  rcases getElem?_set_cases he with ⟨-, rfl⟩ | ⟨hj, he⟩
  · exact hd'
  · exact (ho j e he).mono (hrun j e he hj) ht

theorem frame (ho : Owners s) (ht : s.trace <+: s'.trace) (hds : s'.drains = s.drains)
    (hb : s.busy = false) : Owners s' := fun j e he => by
  rw [hds] at he
  exact (ho j e he).mono (not_running_of_busy hb he) ht

theorem append (ho : Owners s) {d : Drain β} (ht : s.trace <+: s'.trace)
    (hds : s'.drains = s.drains ++ [d]) (hb : s.busy = false) (hd : OwnerProgress s' d) :
    Owners s' := fun j e he => by
  rw [hds] at he
  by_cases hj : j = s.drains.length
  · subst hj; simp at he; exact he ▸ hd
  · have he := getElem?_append_singleton he hj
    exact (ho j e he).mono (not_running_of_busy hb he) ht

theorem step (ho : Owners s) (hm : Mode s) {a : Action β} (h : s.step a = some s') : Owners s' := by
  cases a with
  | updateRootBlock b =>
    obtain ⟨hb, rfl⟩ := step_updateRootBlock h
    cases hu : s.isUpdatingRootBlock
    · exact ho.append (d := ⟨.created, none⟩) (by simp [State.updateRootBlock, hu])
        (by simp [State.updateRootBlock, hu]) hb (fun _ hb => by simp at hb)
    · exact ho.frame (by simp [State.updateRootBlock, hu]) (by simp [State.updateRootBlock, hu]) hb
  | addRootBlock b v =>
    obtain ⟨hb, rfl⟩ := step_addRootBlock h
    cases v
    · exact ho
    cases hu : s.isUpdatingRootBlock
    · have queue : s.rootBlockUpdateQueue = [] := by cases hm <;> simp_all
      refine ho.append (d := ⟨entry true, some b⟩) (by simp [State.addRootBlock, hu])
        (by simp [State.addRootBlock, hu]) hb ?_
      intro b' hb'
      cases hb'
      exact .inr (.inl ⟨rfl, by simp [State.addRootBlock, hu, queue]⟩)
    · exact ho.frame (by simp [State.addRootBlock, hu]) (by simp [State.addRootBlock, hu]) hb
  | start i =>
    obtain ⟨o, hd, rfl⟩ := step_start h
    have hb : s.busy = false := by simp only [State.step, hd] at h; split at h <;> simp_all
    refine ho.set (List.prefix_refl _) rfl (fun j e he _ => not_running_of_busy hb he) ?_
    intro b hob
    rcases ho i _ hd b hob with h | ⟨h, -⟩ | ⟨_, h, -⟩ | h
    · exact .inl h
    all_goals cases h
  | iterate i r =>
    obtain ⟨u, o, hd, rfl⟩ := step_iterate h
    have others := (hm.live_active hd rfl).2
    obtain ⟨pc, hds, hp⟩ := (ho i _ hd).iterate (i := i) r
    exact ho.set (iterate_trace s i o u r) hds
      (fun j e he hj => by simp [others j e he hj, Pc.isRunning]) hp
  | resume i c =>
    obtain ⟨u, b, o, hd, hb, rfl⟩ := step_resume h
    obtain ⟨pc, hds, hp⟩ := (ho i _ hd).resume (i := i) c
    exact ho.set (resume_trace s i o u b c) hds (fun j e he _ => not_running_of_busy hb he) hp

end Owners

end QuarkChain.Serializer
