import QuarkChain.SerializerOrder

set_option autoImplicit false

/-!
# The serializer can always drain

The drain waits on nothing but its collaborators. From every reachable state in which no drain
has ended by an exception, the scheduler can run the live drain to its end: when
`rootState.addBlock` returns and every broadcast is answered with `errorCode` 0, each pass of the
`while` loop pops one block and one gather brings the drain back to its test, so after two steps
per queued block the drain resets `isUpdatingRootBlock`. The state it reaches is idle, and every
block ever enqueued has been popped, in order.
-/

namespace QuarkChain.Serializer
variable {β : Type}
open State

/-- Flag clear, queue empty, no drain live. -/
def Idle (s : State β) : Prop :=
  s.isUpdatingRootBlock = false ∧ s.rootBlockUpdateQueue = [] ∧ Quiet s

/-- A step of drain `i` with its collaborators cooperating: its start, a pass whose `addBlock`
    returns `False`, or a gather answered with the error codes `codes`. -/
def Cooperative (i : ℕ) (codes : List ℕ) (a : Action β) : Prop :=
  a = .start i ∨ a = .iterate i (.returned false) ∨ a = .resume i (some codes)

theorem run_append {s s' : State β} {as : List (Action β)} (h : s.run as = some s')
    (bs : List (Action β)) : s.run (as ++ bs) = s'.run bs := by
  induction as generalizing s with
  | nil => cases h; rfl
  | cons a as ih =>
    simp only [State.run, Option.bind_eq_some] at h
    obtain ⟨t, ht, h⟩ := h
    simp [State.run, ht, ih h]

theorem busy_eq_false {s : State β} {i : ℕ} {d : Drain β} (hd : s.drains[i]? = some d)
    (hr : d.pc.isRunning = false)
    (others : ∀ (j : ℕ) (e : Drain β), s.drains[j]? = some e → j ≠ i → e.pc = .finished) :
    s.busy = false := by
  simp only [busy, List.any_eq_false]
  intro e he
  obtain ⟨j, hj⟩ := List.mem_iff_getElem?.mp he
  by_cases hji : j = i
  · subst hji
    rw [hd] at hj
    cases hj
    simp [hr]
  · simp [others j e hj hji, Pc.isRunning]

theorem Mode.quiet_of_flag {s : State β} (hm : Mode s) (hf : s.isUpdatingRootBlock = false) :
    Quiet s := by
  cases hm with
  | idle _ _ finished => exact fun j e he => by simp [finished j e he, Pc.live]
  | active _ _ flag | stuck flag => simp_all

theorem iterate_pop (s : State β) (i : ℕ) (o : Option β) (u : Bool) {b : β} {rest : List β}
    (hq : s.rootBlockUpdateQueue = b :: rest) :
    (s.iterate i o u (.returned false)).rootBlockUpdateQueue = rest ∧
      (s.iterate i o u (.returned false)).drains = s.drains.set i ⟨.awaiting u b, o⟩ ∧
      (s.iterate i o u (.returned false)).network = s.network ∧
      ∃ es, (s.iterate i o u (.returned false)).trace = s.trace ++ es ∧
        ∀ e ∈ es, ∀ peer, e ≠ .sendUpdatedTip peer := by
  cases u
  · refine ⟨?_, ?_, ?_, [.pop b, .addBlock b (.returned false), .broadcast b], ?_, by simp⟩ <;>
      simp [iterate, hq, broadcast]
  · refine ⟨?_, ?_, ?_, [.pop b, .broadcast b], ?_, by simp⟩ <;> simp [iterate, hq, broadcast]

theorem iterate_empty (s : State β) (i : ℕ) (o : Option β) (u : Bool) (r : AddBlock)
    (hq : s.rootBlockUpdateQueue = []) :
    (s.iterate i o u r).isUpdatingRootBlock = false ∧
      (s.iterate i o u r).rootBlockUpdateQueue = [] := by
  cases o <;> cases u <;> simp [iterate, hq]

theorem resume_acked (s : State β) (i : ℕ) (o : Option β) (u : Bool) (b : β) {codes : List ℕ}
    (hc : ∀ c ∈ codes, c = 0) :
    (s.resume i o u b (some codes)).rootBlockUpdateQueue = s.rootBlockUpdateQueue ∧
      (s.resume i o u b (some codes)).drains = s.drains.set i ⟨.running u, o⟩ ∧
      (s.resume i o u b (some codes)).network = s.network ∧
      (s.resume i o u b (some codes)).trace = s.trace ++ [.gathered b] := by
  have hall : codes.all (· == 0) = true := List.all_eq_true.mpr fun c h => by simp [hc c h]
  simp [resume, hall]

section Codes
variable {codes : List ℕ} (hc : ∀ c ∈ codes, c = 0)
include hc

/-- A running drain with `n` queued blocks is back at its test with the queue empty after
    `2 * n` cooperative steps, with the same `updateTip` and no tip sent. -/
theorem drain_to_empty (n : ℕ) :
    ∀ {s : State β} {i : ℕ} {u : Bool} {o : Option β}, Mode s →
      s.drains[i]? = some ⟨.running u, o⟩ → s.rootBlockUpdateQueue.length = n →
      ∃ as s', as.length = 2 * n ∧ (∀ a ∈ as, Cooperative i codes a) ∧ s.run as = some s' ∧
        Mode s' ∧ s'.drains[i]? = some ⟨.running u, o⟩ ∧ s'.rootBlockUpdateQueue = [] ∧
        s'.network = s.network ∧
        ∃ es, s'.trace = s.trace ++ es ∧ ∀ e ∈ es, ∀ peer, e ≠ .sendUpdatedTip peer := by
  induction n with
  | zero =>
    intro s i u o hm hd hn
    exact ⟨[], s, rfl, nofun, rfl, hm, hd, List.eq_nil_of_length_eq_zero hn, rfl, [],
      (List.append_nil _).symm, nofun⟩
  | succ n ih =>
    intro s i u o hm hd hn
    obtain ⟨b, rest, hq⟩ := List.exists_cons_of_length_eq_add_one hn
    have hi : i < s.drains.length := (List.getElem?_eq_some_iff.mp hd).1
    have h₁ : s.step (.iterate i (.returned false)) = some (s.iterate i o u (.returned false)) := by
      simp [step, hd]
    obtain ⟨hq₁, hds₁, hnet₁, es₁, hes₁, hnt₁⟩ := iterate_pop s i o u hq
    set s₁ := s.iterate i o u (.returned false)
    have hd₁ : s₁.drains[i]? = some ⟨.awaiting u b, o⟩ := by simp [hds₁, hi]
    have hm₁ := hm.step h₁
    have hbusy : s₁.busy = false :=
      busy_eq_false hd₁ rfl (hm₁.live_active hd₁ rfl).2
    have h₂ : s₁.step (.resume i (some codes)) = some (s₁.resume i o u b (some codes)) := by
      simp [step, hd₁, hbusy]
    obtain ⟨hq₂, hds₂, hnet₂, hes₂⟩ := resume_acked s₁ i o u b hc
    set s₂ := s₁.resume i o u b (some codes)
    have hd₂ : s₂.drains[i]? = some ⟨.running u, o⟩ := by simp [hds₂, hds₁, hi]
    obtain ⟨as, s', hlen, hco, hrun, hm', hd', hq', hnet, es, hes, hnt⟩ :=
      ih (hm₁.step h₂) hd₂ (by rw [hq₂, hq₁]; simpa [hq] using hn)
    refine ⟨.iterate i (.returned false) :: .resume i (some codes) :: as, s',
      by simp [hlen]; omega, ?_, by simp [State.run, h₁, h₂, hrun], hm', hd', hq',
      by rw [hnet, hnet₂, hnet₁], es₁ ++ .gathered b :: es, by rw [hes, hes₂, hes₁]; simp, ?_⟩
    · simp only [List.mem_cons]
      rintro a (rfl | rfl | ha)
      exacts [.inr (.inl rfl), .inr (.inr rfl), hco a ha]
    · simp only [List.mem_append, List.mem_cons]
      rintro e (he | rfl | he) peer
      · exact hnt₁ e he peer
      · nofun
      · exact hnt e he peer

theorem drain_running (n : ℕ) {s : State β} {i : ℕ} {u : Bool} {o : Option β} (hm : Mode s)
    (hd : s.drains[i]? = some ⟨.running u, o⟩) (hn : s.rootBlockUpdateQueue.length = n) :
    ∃ as s', as.length = 2 * n + 1 ∧ (∀ a ∈ as, Cooperative i codes a) ∧ s.run as = some s' ∧
      Idle s' := by
  obtain ⟨as, s₁, hlen, hco, hrun, hm₁, hd₁, hq₁, -⟩ := drain_to_empty hc n hm hd hn
  have h : s₁.step (.iterate i (.returned false)) = some (s₁.iterate i o u (.returned false)) := by
    simp [step, hd₁]
  obtain ⟨hf, hq'⟩ := iterate_empty s₁ i o u (.returned false) hq₁
  refine ⟨as ++ [.iterate i (.returned false)], _, by simp [hlen], ?_,
    by rw [run_append hrun]; simp [State.run, h], hf, hq', (hm₁.step h).quiet_of_flag hf⟩
  simp only [List.mem_append, List.mem_singleton]
  rintro a (ha | rfl)
  exacts [hco a ha, .inr (.inl rfl)]

/-- From every reachable state in which no drain has ended by an exception, the scheduler can
    run the live drain to its end when the collaborators cooperate (its start, passes whose
    `addBlock` returns, gathers answered with any list of zero error codes): it reaches an idle
    state in which every block ever enqueued has been popped, in the order it was enqueued. -/
theorem reachable_can_drain {s : State β} (hs : Reachable s) (hnab : ¬ Aborted s) :
    ∃ i as s', (∀ a ∈ as, Cooperative i codes a) ∧ s.run as = some s' ∧ Idle s' ∧
      popped s'.trace = enqueued s'.trace := by
  suffices h : ∃ i as s', (∀ a ∈ as, Cooperative i codes a) ∧ s.run as = some s' ∧ Idle s' by
    obtain ⟨i, as, s', hco, hrun, hidle⟩ := h
    have hfifo := (hs.run hrun).fifo
    rw [Fifo, hidle.2.1, List.append_nil] at hfifo
    exact ⟨i, as, s', hco, hrun, hidle, hfifo⟩
  cases hs.mode with
  | idle flag queue finished =>
    exact ⟨0, [], s, nofun, rfl, flag, queue, fun j e he => by simp [finished j e he, Pc.live]⟩
  | stuck _ i d hd aborted => exact absurd ⟨i, d, hd, aborted⟩ hnab
  | active i d flag hd live others =>
    obtain ⟨pc, o⟩ := d
    have hi : i < s.drains.length := (List.getElem?_eq_some_iff.mp hd).1
    cases pc with
    | created =>
      have h : s.step (.start i) = some (s.setDrain i ⟨.running false, o⟩) := by
        simp [step, hd, busy_eq_false hd rfl others, flag, entry]
      have hd' : (s.setDrain i ⟨.running false, o⟩).drains[i]? = some ⟨.running false, o⟩ := by
        simp [hi]
      obtain ⟨as, s', -, hco, hrun, hidle⟩ := drain_running hc _ (hs.mode.step h) hd' rfl
      refine ⟨i, .start i :: as, s', ?_, by simp [State.run, h, hrun], hidle⟩
      simp only [List.mem_cons]
      rintro a (rfl | ha)
      exacts [.inl rfl, hco a ha]
    | running u =>
      obtain ⟨as, s', -, hco, hrun, hidle⟩ := drain_running hc _ hs.mode hd rfl
      exact ⟨i, as, s', hco, hrun, hidle⟩
    | awaiting u b =>
      have h : s.step (.resume i (some codes)) = some (s.resume i o u b (some codes)) := by
        simp [step, hd, busy_eq_false hd rfl others]
      have hd' : (s.resume i o u b (some codes)).drains[i]? = some ⟨.running u, o⟩ := by
        simp [(resume_acked s i o u b hc).2, hi]
      obtain ⟨as, s', -, hco, hrun, hidle⟩ := drain_running hc _ (hs.mode.step h) hd' rfl
      refine ⟨i, .resume i (some codes) :: as, s', ?_, by simp [State.run, h, hrun], hidle⟩
      simp only [List.mem_cons]
      rintro a (rfl | ha)
      exacts [.inr (.inr rfl), hco a ha]
    | finished | aborted => simp [Pc.live] at live

end Codes

theorem in_flight_state_drains :
    let s : State ℕ := ⟨[2], true, [⟨.awaiting true 1, none⟩], none,
      [.enqueue 1, .pop 1, .addBlock 1 (.returned true), .broadcast 1, .enqueue 2]⟩
    (∀ c ∈ [0, 0], c = 0) ∧ Reachable s ∧ ¬ Aborted s ∧
      ∃ i as s', (∀ a ∈ as, Cooperative i [0, 0] a) ∧ s.run as = some s' ∧ Idle s' ∧
        popped s'.trace = enqueued s'.trace := by
  intro s
  have hc : ∀ c ∈ [0, 0], c = 0 := by decide
  have hs : Reachable s := (Reachable.init none).run (by decide : (State.init none).run
    [.updateRootBlock 1, .start 0, .iterate 0 (.returned true), .updateRootBlock 2] = some s)
  have hnab : ¬ Aborted s := by
    rintro ⟨_ | _, d, hd, ha⟩
    · cases hd
      cases ha
    · cases hd
  exact ⟨hc, hs, hnab, reachable_can_drain hc hs hnab⟩

end QuarkChain.Serializer
