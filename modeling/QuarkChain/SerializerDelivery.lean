import QuarkChain.SerializerOrder

set_option autoImplicit false

/-!
# Root blocks reach the slaves one at a time, in queue order

The collaborators see the drains apply root blocks serially: a drain pops a block only while no
broadcast awaits its gather, broadcasts only the block it has just popped (after
`rootState.addBlock` accepted it, or without calling it once the tip moved), never broadcasts a
block `addBlock` rejected, and each gather returns for the block in flight. `Phase` is that
protocol as an automaton over the trace; it carries the `updateTip` of the drain that applies
the blocks, which alone lets a block skip `addBlock` and the tips go out. Every interleaving of
the entry points and the drain steps leaves a trace it accepts, so the `ADD_ROOT_BLOCK_REQUEST`s
go out in the order the blocks were enqueued.
-/

namespace QuarkChain.Serializer
variable {β : Type}
open State
open scoped List

/-- Where the serial application of root blocks stands, as the collaborators see it, with the
    `updateTip` of the drain that applies them. -/
inductive Phase (β : Type) where
  | idle (updateTip : Bool)
  | popped (updateTip : Bool) (b : β)
  | applied (updateTip : Bool) (b : β)
  | inflight (updateTip : Bool) (b : β)
  | broken
  deriving DecidableEq, Repr

def Event.broadcast? : Event β → Option β
  | .broadcast b => some b
  | _ => none

/-- The blocks of the `ADD_ROOT_BLOCK_REQUEST`s, in the order they were written. -/
def broadcasts (es : List (Event β)) : List β := es.filterMap Event.broadcast?

namespace Phase

def pending : Phase β → List β
  | popped _ b | applied _ b => [b]
  | _ => []

/-- The moves of the protocol. A block is popped only while none is in flight. While the tip has
    not moved, `addBlock` is called on it: it accepts it, and `updateTip` becomes what it
    returned, or rejects it or raises and the block is dropped. Once the tip moved, the block is
    broadcast with no `addBlock`. The gather of a broadcast comes back before the next pop. Tips
    go out only with the tip moved and nothing in flight. The entry points enqueue and return at
    any time; with nothing in flight no drain holds the loop then, and the next pop is by a drain
    that starts with `updateTip = False`. -/
inductive Moves : Phase β → Event β → Phase β → Prop
  | pop (u : Bool) (b : β) : Moves (idle u) (.pop b) (popped u b)
  | accept (b : β) (t : Bool) : Moves (popped false b) (.addBlock b (.returned t)) (applied t b)
  | reject (b : β) : Moves (popped false b) (.addBlock b .valueError) (idle false)
  | raise (b : β) : Moves (popped false b) (.addBlock b .raised) (idle false)
  | skipAddBlock (b : β) : Moves (popped true b) (.broadcast b) (inflight true b)
  | broadcast (u : Bool) (b : β) : Moves (applied u b) (.broadcast b) (inflight u b)
  | gather (u : Bool) (b : β) : Moves (inflight u b) (.gathered b) (idle u)
  | sendTip (peer : ℕ) : Moves (idle true) (.sendUpdatedTip peer) (idle true)
  | enqueueIdle (u : Bool) (b : β) : Moves (idle u) (.enqueue b) (idle false)
  | returnIdle (u : Bool) (b : β) : Moves (idle u) (.returned b) (idle false)
  | enqueueInflight (u : Bool) (b b' : β) : Moves (inflight u b) (.enqueue b') (inflight u b)
  | returnInflight (u : Bool) (b b' : β) : Moves (inflight u b) (.returned b') (inflight u b)

theorem Moves.sublist {p q : Phase β} {e : Event β} (h : Moves p e q) :
    broadcasts [e] ++ q.pending <+ p.pending ++ Serializer.popped [e] := by
  cases h <;> simp [broadcasts, Serializer.popped, pending, Event.broadcast?, Event.popped?]

variable [DecidableEq β]

/-- `Moves` as a monitor: the phase after an event, `broken` once the protocol does not allow
    it. -/
def next : Phase β → Event β → Phase β
  | idle u, .pop b => popped u b
  | idle _, .enqueue _ | idle _, .returned _ => idle false
  | idle u, .sendUpdatedTip _ => if u then idle true else broken
  | popped false b, .addBlock b' (.returned t) => if b' = b then applied t b else broken
  | popped false b, .addBlock b' .valueError | popped false b, .addBlock b' .raised =>
    if b' = b then idle false else broken
  | popped true b, .broadcast b' => if b' = b then inflight true b else broken
  | applied u b, .broadcast b' => if b' = b then inflight u b else broken
  | inflight u b, .gathered b' => if b' = b then idle u else broken
  | inflight u b, .enqueue _ | inflight u b, .returned _ => inflight u b
  | _, _ => broken

theorem Moves.next_eq {p q : Phase β} {e : Event β} (h : Moves p e q) : p.next e = q := by
  cases h <;> first | rfl | exact if_pos rfl

def run (p : Phase β) (es : List (Event β)) : Phase β := es.foldl next p

@[simp] theorem run_nil (p : Phase β) : p.run [] = p := rfl

@[simp] theorem run_cons (p : Phase β) (e : Event β) (es : List (Event β)) :
    p.run (e :: es) = (p.next e).run es := rfl

theorem run_append (p : Phase β) (es fs : List (Event β)) :
    p.run (es ++ fs) = (p.run es).run fs :=
  List.foldl_append ..

theorem run_broken (es : List (Event β)) : broken.run es = broken := by
  induction es with
  | nil => rfl
  | cons e es ih => cases e <;> exact ih

theorem next_moves {p : Phase β} {e : Event β} (h : p.next e ≠ broken) : Moves p e (p.next e) := by
  unfold next at h ⊢
  rcases p with u | ⟨(_ | _), b⟩ | ⟨u, b⟩ | ⟨u, b⟩ | _ <;>
    rcases e with b' | b' | ⟨b', t | _ | _⟩ | b' | b' | peer | b' <;> dsimp only at h ⊢
  all_goals first
    | constructor
    | exact absurd rfl h
    | split_ifs at h ⊢ with hb <;> first | (subst hb; constructor) | exact absurd rfl h

theorem run_sublist (p : Phase β) (es : List (Event β)) (h : p.run es ≠ broken) :
    broadcasts es ++ (p.run es).pending <+ p.pending ++ Serializer.popped es := by
  induction es generalizing p with
  | nil => simp [broadcasts, Serializer.popped]
  | cons e es ih =>
    have hq : p.next e ≠ broken := fun hq => h (by rw [run_cons, hq, run_broken])
    have hcons : ∀ {γ : Type} (f : Event β → Option γ), (e :: es).filterMap f =
        [e].filterMap f ++ es.filterMap f := fun _ => by rw [← List.filterMap_append]; rfl
    calc broadcasts (e :: es) ++ (p.run (e :: es)).pending
        = broadcasts [e] ++ (broadcasts es ++ ((p.next e).run es).pending) := by
          simp only [broadcasts, hcons, List.append_assoc, run_cons]
      _ <+ broadcasts [e] ++ ((p.next e).pending ++ Serializer.popped es) :=
          (ih _ h).append_left _
      _ <+ p.pending ++ Serializer.popped [e] ++ Serializer.popped es := by
          rw [← List.append_assoc]; exact (next_moves hq).sublist.append_right _
      _ = p.pending ++ Serializer.popped (e :: es) := by
          simp only [Serializer.popped, hcons, List.append_assoc]

end Phase

def Pc.awaited : Pc β → Option β
  | .awaiting _ b => some b
  | _ => none

def Pc.updateTip? : Pc β → Option Bool
  | .running updateTip | .awaiting updateTip _ => some updateTip
  | _ => none

theorem Pc.live_of_updateTip {pc : Pc β} {t : Bool} (h : pc.updateTip? = some t) :
    pc.live = true := by
  cases pc <;> first | rfl | cases h

theorem entry_awaited (flag : Bool) : (entry flag : Pc β).awaited = none := by
  cases flag <;> rfl

theorem entry_updateTip (flag : Bool) {t : Bool} (h : (entry flag : Pc β).updateTip? = some t) :
    t = false := by
  cases flag
  · cases h
  · exact (Option.some.inj h).symm

theorem entry_ne_created (flag : Bool) : (entry flag : Pc β) ≠ .created := by
  cases flag <;> nofun

/-- How a phase sits with the drains between steps: no block is half-way between its pop and its
    broadcast; with nothing in flight every drain's `updateTip` is the phase's, which is `False`
    while a created drain waits to start; and a block in
    flight is the one a drain awaits, with its `updateTip`, or the one whose gather raised, which
    leaves no drain live and the flag set. -/
def PhaseOk (s : State β) : Phase β → Prop
  | .idle u => ∀ (i : ℕ) (d : Drain β), s.drains[i]? = some d →
      d.pc.awaited = none ∧ (∀ t, d.pc.updateTip? = some t → t = u) ∧ (d.pc = .created → u = false)
  | .inflight u b => (∃ (i : ℕ) (o : Option β), s.drains[i]? = some ⟨.awaiting u b, o⟩) ∨
      (Quiet s ∧ s.isUpdatingRootBlock = true)
  | _ => False

/-- The protocol accepts the trace so far, and its phase sits with the drains. -/
def Delivers [DecidableEq β] (s : State β) : Prop := PhaseOk s ((Phase.idle false).run s.trace)

namespace PhaseOk
variable {s s' : State β} {p : Phase β}

theorem settled (h : PhaseOk s p) : ∃ u, p = .idle u ∨ ∃ b, p = .inflight u b := by
  cases p with
  | idle u => exact ⟨u, .inl rfl⟩
  | inflight u b => exact ⟨u, .inr ⟨b, rfl⟩⟩
  | popped _ _ | applied _ _ | broken => exact h.elim

theorem reset {u : Bool} (h : PhaseOk s (.idle u)) (hb : s.busy = false) :
    PhaseOk s (.idle false) := by
  intro i d hd
  refine ⟨(h i d hd).1, fun t ht => ?_, fun _ => rfl⟩
  have hr := not_running_of_busy hb hd
  have ha := (h i d hd).1
  obtain ⟨pc, o⟩ := d
  cases pc with
  | running => cases hr
  | awaiting => cases ha
  | created | finished | aborted => cases ht

theorem entry [DecidableEq β] (h : PhaseOk s p) (hb : s.busy = false) (b : β) :
    PhaseOk s (p.run [.enqueue b]) ∧ p.run [.enqueue b, .returned b] = p.run [.enqueue b] := by
  obtain ⟨u, rfl | ⟨b', rfl⟩⟩ := h.settled
  · exact ⟨h.reset hb, rfl⟩
  · exact ⟨h, rfl⟩

theorem frame (h : PhaseOk s p) (hds : s'.drains = s.drains)
    (hf : s'.isUpdatingRootBlock = s.isUpdatingRootBlock) : PhaseOk s' p := by
  obtain ⟨u, rfl | ⟨b, rfl⟩⟩ := h.settled
  · exact fun i d hd => h i d (hds ▸ hd)
  · rcases h with ⟨i, o, hd⟩ | ⟨hq, hfl⟩
    · exact .inl ⟨i, o, hds ▸ hd⟩
    · exact .inr ⟨hq.of_drains hds, hf ▸ hfl⟩

theorem awaited_of_inflight {u : Bool} {b : β} (h : PhaseOk s (.inflight u b)) (hm : Mode s)
    {i : ℕ} {d : Drain β} (hd : s.drains[i]? = some d) (hl : d.pc.live = true) :
    d.pc = .awaiting u b := by
  obtain ⟨-, others⟩ := hm.live_active hd hl
  rcases h with ⟨j, o, he⟩ | ⟨hq, -⟩
  · by_cases hj : j = i
    · subst hj
      rw [hd, Option.some.injEq] at he
      rw [he]
    · cases others j _ he hj
  · rw [hq i d hd] at hl
    cases hl

theorem eq_idle (h : PhaseOk s p) (hm : Mode s) {i : ℕ} {d : Drain β}
    (hd : s.drains[i]? = some d) (hl : d.pc.live = true) (ha : d.pc.awaited = none) :
    ∃ u, p = .idle u ∧ (∀ t, d.pc.updateTip? = some t → t = u) ∧ (d.pc = .created → u = false) := by
  obtain ⟨u, rfl | ⟨b, rfl⟩⟩ := h.settled
  · exact ⟨u, rfl, (h i d hd).2⟩
  · rw [h.awaited_of_inflight hm hd hl] at ha
    cases ha

theorem eq_inflight (h : PhaseOk s p) (hm : Mode s) {i : ℕ} {u : Bool} {b : β} {o : Option β}
    (hd : s.drains[i]? = some ⟨.awaiting u b, o⟩) : p = .inflight u b := by
  obtain ⟨u', rfl | ⟨b', rfl⟩⟩ := h.settled
  · cases (h i _ hd).1
  · cases h.awaited_of_inflight hm hd rfl
    rfl

theorem eq_idle_of_flag (h : PhaseOk s p) (hm : Mode s) (hf : s.isUpdatingRootBlock = false) :
    ∃ u, p = .idle u := by
  obtain ⟨u, rfl | ⟨b, rfl⟩⟩ := h.settled
  · exact ⟨u, rfl⟩
  · rcases h with ⟨i, o, hd⟩ | ⟨-, hfl⟩
    · rw [(hm.live_active hd rfl).1] at hf
      cases hf
    · rw [hfl] at hf
      cases hf

theorem set_idle (hm : Mode s) {i : ℕ} {d : Drain β} (hd : s.drains[i]? = some d)
    (hl : d.pc.live = true) (d' : Drain β) (hds : s'.drains = s.drains.set i d')
    (ha : d'.pc.awaited = none) {u : Bool} (hu : ∀ t, d'.pc.updateTip? = some t → t = u)
    (hc : d'.pc ≠ .created) : PhaseOk s' (.idle u) := fun j e he => by
  obtain ⟨-, others⟩ := hm.live_active hd hl
  rw [hds] at he
  rcases getElem?_set_cases he with ⟨-, rfl⟩ | ⟨hj, he⟩
  · exact ⟨ha, hu, fun h => absurd h hc⟩
  · rw [others j e he hj]
    exact ⟨rfl, (fun _ h => by cases h), nofun⟩

theorem set_inflight {i : ℕ} {d : Drain β} (hd : s.drains[i]? = some d) {u : Bool} {b : β}
    {o : Option β} (hds : s'.drains = s.drains.set i ⟨.awaiting u b, o⟩) :
    PhaseOk s' (.inflight u b) :=
  .inl ⟨i, o, by rw [hds, List.getElem?_set_self (List.getElem?_eq_some_iff.mp hd).1]⟩

theorem append_idle {u : Bool} (h : PhaseOk s (.idle u)) {d : Drain β}
    (hds : s'.drains = s.drains ++ [d]) (ha : d.pc.awaited = none)
    (hu : ∀ t, d.pc.updateTip? = some t → t = u) (hc : d.pc = .created → u = false) :
    PhaseOk s' (.idle u) := fun j e he => by
  rw [hds] at he
  by_cases hj : j = s.drains.length
  · subst hj
    simp only [List.getElem?_concat_length, Option.some.injEq] at he
    exact he ▸ ⟨ha, hu, hc⟩
  · exact h j e (getElem?_append_singleton he hj)

end PhaseOk

section Step
variable [DecidableEq β] {s s' : State β}

@[simp] theorem Phase.idle_run_tips (ps : List ℕ) :
    (Phase.idle true).run (ps.map Event.sendUpdatedTip : List (Event β)) = .idle true := by
  induction ps with
  | nil => rfl
  | cons _ _ ih => exact ih

theorem Delivers.of_phase {p : Phase β} (hp : (Phase.idle false).run s.trace = p)
    (h : PhaseOk s p) : Delivers s := by
  unfold Delivers
  rw [hp]
  exact h

theorem Delivers.iterate (hm : Mode s) {i : ℕ} {u : Bool} {o : Option β}
    (hd : s.drains[i]? = some ⟨.running u, o⟩) (hp : (Phase.idle false).run s.trace = .idle u)
    (r : AddBlock) : Delivers (s.iterate i o u r) := by
  cases hq : s.rootBlockUpdateQueue with
  | nil =>
    have hds : (s.iterate i o u r).drains = s.drains.set i ⟨.finished, o⟩ := by
      cases o <;> cases u <;> simp [State.iterate, hq]
    have hp' : (Phase.idle false).run (s.iterate i o u r).trace = .idle (u && o.isNone) := by
      cases o <;> cases u <;>
        simp [State.iterate, hq, Phase.run_append, hp, (Phase.Moves.returnIdle _ _).next_eq]
    exact .of_phase hp'
      (PhaseOk.set_idle hm hd rfl ⟨.finished, o⟩ hds rfl (fun _ h => by cases h) nofun)
  | cons b rest =>
    simp only [State.iterate, hq]
    cases u
    · cases r with
      | returned t =>
        exact .of_phase (by simp [broadcast, Phase.run_append, hp, (Phase.Moves.pop _ _).next_eq,
            (Phase.Moves.accept _ _).next_eq, (Phase.Moves.broadcast _ _).next_eq])
          (PhaseOk.set_inflight hd rfl)
      | valueError =>
        exact .of_phase (by simp [Phase.run_append, hp, (Phase.Moves.pop _ _).next_eq,
            (Phase.Moves.reject _).next_eq])
          (PhaseOk.set_idle (u := false) hm hd rfl ⟨.running false, o⟩ rfl rfl
            (fun _ h => (Option.some.inj h).symm) nofun)
      | raised =>
        exact .of_phase (by simp [Phase.run_append, hp, (Phase.Moves.pop _ _).next_eq,
            (Phase.Moves.raise _).next_eq])
          (PhaseOk.set_idle (u := false) hm hd rfl ⟨.aborted, o⟩ rfl rfl (fun _ h => by cases h)
            nofun)
    · exact .of_phase (by simp [broadcast, Phase.run_append, hp, (Phase.Moves.pop _ _).next_eq,
          (Phase.Moves.skipAddBlock _).next_eq])
        (PhaseOk.set_inflight hd rfl)

theorem Delivers.resume (hm : Mode s) {i : ℕ} {u : Bool} {b : β} {o : Option β}
    (hd : s.drains[i]? = some ⟨.awaiting u b, o⟩)
    (hp : (Phase.idle false).run s.trace = .inflight u b) (c : Option (List ℕ)) :
    Delivers (s.resume i o u b c) := by
  cases c with
  | none =>
    obtain ⟨hf, others⟩ := hm.live_active hd rfl
    refine .of_phase hp (.inr ⟨fun j e he => ?_, hf⟩)
    rcases getElem?_set_cases he with ⟨-, rfl⟩ | ⟨hj, he⟩
    · rfl
    · rw [others j e he hj]
      rfl
  | some c =>
    simp only [State.resume]
    split_ifs
    · exact .of_phase (by simp [Phase.run_append, hp, (Phase.Moves.gather _ _).next_eq])
        (PhaseOk.set_idle hm hd rfl ⟨.running u, o⟩ rfl rfl (fun _ h => (Option.some.inj h).symm)
          nofun)
    · exact .of_phase (by simp [Phase.run_append, hp, (Phase.Moves.gather _ _).next_eq])
        (PhaseOk.set_idle (u := u) hm hd rfl ⟨.aborted, o⟩ rfl rfl (fun _ h => by cases h) nofun)

theorem Delivers.step (hd : Delivers s) (hm : Mode s) {a : Action β} (h : s.step a = some s') :
    Delivers s' := by
  unfold Delivers at hd
  cases a with
  | updateRootBlock b =>
    obtain ⟨hb, rfl⟩ := step_updateRootBlock h
    obtain ⟨hok, -⟩ := hd.entry hb b
    cases hu : s.isUpdatingRootBlock
    · obtain ⟨u, hp⟩ := hd.eq_idle_of_flag hm hu
      rw [hp] at hok
      exact .of_phase (by simp [State.updateRootBlock, hu, Phase.run_append, hp,
          (Phase.Moves.enqueueIdle _ _).next_eq])
        (hok.append_idle (d := ⟨.created, none⟩) (by simp [State.updateRootBlock, hu]) rfl
          (fun _ h => by cases h) fun _ => rfl)
    · exact .of_phase (by simp [State.updateRootBlock, hu, Phase.run_append])
        (hok.frame (by simp [State.updateRootBlock, hu]) (by simp [State.updateRootBlock, hu]))
  | addRootBlock b v =>
    obtain ⟨hb, rfl⟩ := step_addRootBlock h
    cases v
    · exact hd
    obtain ⟨hok, hret⟩ := hd.entry hb b
    cases hu : s.isUpdatingRootBlock
    · obtain ⟨u, hp⟩ := hd.eq_idle_of_flag hm hu
      rw [hp] at hok
      exact .of_phase (by simp [State.addRootBlock, hu, Phase.run_append, hp,
          (Phase.Moves.enqueueIdle _ _).next_eq])
        (hok.append_idle (d := ⟨entry true, some b⟩) (by simp [State.addRootBlock, hu])
          (entry_awaited true) (fun _ => entry_updateTip true) fun _ => rfl)
    · exact .of_phase (by simp [State.addRootBlock, hu, Phase.run_append, ← hret])
        (hok.frame (by simp [State.addRootBlock, hu]) (by simp [State.addRootBlock, hu]))
  | start i =>
    obtain ⟨o, hdi, rfl⟩ := step_start h
    obtain ⟨u, hp, -, hc⟩ := hd.eq_idle hm hdi rfl rfl
    obtain rfl := hc rfl
    exact .of_phase hp (PhaseOk.set_idle hm hdi rfl _ rfl (entry_awaited _)
      (fun _ => entry_updateTip _) (entry_ne_created _))
  | iterate i r =>
    obtain ⟨u, o, hdi, rfl⟩ := step_iterate h
    obtain ⟨u', hp, hu, -⟩ := hd.eq_idle hm hdi rfl rfl
    obtain rfl := hu u rfl
    exact .iterate hm hdi hp r
  | resume i c =>
    obtain ⟨u, b, o, hdi, -, rfl⟩ := step_resume h
    exact .resume hm hdi (hd.eq_inflight hm hdi) c

theorem Reachable.delivers {s : State β} (hs : Reachable s) : Delivers s := by
  induction hs with
  | init network => intro i d hd; simp [State.init] at hd
  | step _ hs h ih => exact ih.step hs.mode h

end Step

/-- Every interleaving of the entry points and the drains' steps writes a trace that the serial
    protocol accepts, so a block goes out without `addBlock` only once an earlier `addBlock` of
    its drain returned True; and the protocol's `updateTip` is that of every started drain. -/
theorem reachable_applies_serially [DecidableEq β] {s : State β} (hs : Reachable s) :
    ∃ u, ((Phase.idle false).run s.trace = .idle u ∨
        ∃ b, (Phase.idle false).run s.trace = .inflight u b) ∧
      ∀ (i : ℕ) (d : Drain β) (t : Bool), s.drains[i]? = some d → d.pc.updateTip? = some t →
        t = u := by
  have hd : PhaseOk s _ := hs.delivers
  obtain ⟨u, hp | ⟨b, hp⟩⟩ := hd.settled <;> refine ⟨u, by simp [hp], fun i d t hi ht => ?_⟩ <;>
    rw [hp] at hd
  · exact (hd i d hi).2.1 t ht
  · rw [hd.awaited_of_inflight hs.mode hi (Pc.live_of_updateTip ht)] at ht
    exact (Option.some.inj ht).symm

theorem one_block_in_flight :
    let s : State ℕ := ⟨[], true, [⟨.awaiting true 1, none⟩], none,
      [.enqueue 1, .pop 1, .addBlock 1 (.returned true), .broadcast 1]⟩
    Reachable s ∧ ∃ u, ((Phase.idle false).run s.trace = .idle u ∨
        ∃ b, (Phase.idle false).run s.trace = .inflight u b) ∧
      ∀ (i : ℕ) (d : Drain ℕ) (t : Bool), s.drains[i]? = some d → d.pc.updateTip? = some t →
        t = u := by
  intro s
  have hs : Reachable s := (Reachable.init none).run (by decide : (State.init none).run
    [.updateRootBlock 1, .start 0, .iterate 0 (.returned true)] = some s)
  exact ⟨hs, reachable_applies_serially hs⟩

/-- The slaves receive `ADD_ROOT_BLOCK_REQUEST`s for popped blocks only, in the order they were
    popped, and blocks are popped in the order they were enqueued. -/
theorem reachable_broadcast_order {s : State β} (hs : Reachable s) :
    broadcasts s.trace <+ popped s.trace ∧
      popped s.trace ++ s.rootBlockUpdateQueue = enqueued s.trace := by
  classical
  have hd : PhaseOk s ((Phase.idle false).run s.trace) := hs.delivers
  have hsub := Phase.run_sublist (.idle false) s.trace fun h => by rw [h] at hd; exact hd
  refine ⟨?_, hs.fifo⟩
  obtain ⟨u, h | ⟨b, h⟩⟩ := hd.settled <;> simpa [h, Phase.pending] using hsub

theorem rejected_block_not_broadcast :
    let s : State ℕ := ⟨[], false, [⟨.finished, none⟩], none,
      [.enqueue 1, .enqueue 2, .pop 1, .addBlock 1 .valueError, .pop 2,
        .addBlock 2 (.returned false), .broadcast 2, .gathered 2]⟩
    Reachable s ∧ broadcasts s.trace <+ popped s.trace ∧
      popped s.trace ++ s.rootBlockUpdateQueue = enqueued s.trace := by
  intro s
  have hs : Reachable s := (Reachable.init none).run (by decide : (State.init none).run
    [.updateRootBlock 1, .updateRootBlock 2, .start 0, .iterate 0 .valueError,
      .iterate 0 (.returned false), .resume 0 (some [0]), .iterate 0 (.returned false)] = some s)
  exact ⟨hs, reachable_broadcast_order hs⟩

end QuarkChain.Serializer
