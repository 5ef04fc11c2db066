import QuarkChain.Core

set_option autoImplicit false

/-!
# The root-block serializer

`updateRootBlock`, `addRootBlock` and the drain `updateRooBlockAsync` share
`rootBlockUpdateQueue` and `isUpdatingRootBlock` on one asyncio event loop. A coroutine runs
without interruption until it awaits, and the drain awaits only at the `gather` of a
broadcast. So a drain between two awaits holds the loop (`busy`), and one pass of its
`while` loop is one step. A run is a list of actions: the scheduler's choice of the next
coroutine step, each with what the collaborators answer (`validateBlock`,
`rootState.addBlock`, the broadcast replies). The trace records what the collaborators see.
-/

namespace QuarkChain.Serializer

/-- What `rootState.addBlock(rBlock)` does. -/
inductive AddBlock where
  | returned (updateTip : Bool)  -- it returns whether the tip moved
  | valueError
  | raised  -- it raises anything but `ValueError`
  deriving DecidableEq, Repr

/-- Where a drain coroutine stands, with its local `updateTip` and `rBlock`. -/
inductive Pc (β : Type) where
  | created  -- scheduled by `asyncio.ensure_future`, not yet started
  | running (updateTip : Bool)  -- at the `while` test, holding the event loop
  -- suspended at `await asyncio.gather(*futureList)` for the broadcast of `rBlock`
  | awaiting (updateTip : Bool) (rBlock : β)
  | finished  -- past `self.isUpdatingRootBlock = False`
  | aborted  -- ended by an exception
  deriving DecidableEq, Repr

/-- One invocation of `updateRooBlockAsync`; `owner = some b` when `addRootBlock(b)` awaits
    it inline, and so returns when it finishes. -/
structure Drain (β : Type) where
  pc : Pc β
  owner : Option β
  deriving DecidableEq, Repr

inductive Event (β : Type) where
  | enqueue (b : β)
  | pop (b : β)
  | addBlock (b : β) (r : AddBlock)  -- a call of `rootState.addBlock(b)` and what it did
  | broadcast (b : β)  -- `ADD_ROOT_BLOCK_REQUEST` for `b`, written by `broadcastRpc` to every slave
  | gathered (b : β)  -- the gather of that broadcast returned
  | sendUpdatedTip (peer : ℕ)
  | returned (b : β)  -- `addRootBlock(b)` returned normally
  deriving DecidableEq, Repr

structure State (β : Type) where
  rootBlockUpdateQueue : List β
  isUpdatingRootBlock : Bool
  drains : List (Drain β)
  network : Option (List ℕ)  -- `self.network`: `None`, or the peers `iteratePeers()` yields
  trace : List (Event β)
  deriving DecidableEq, Repr

inductive Action (β : Type) where
  | updateRootBlock (rBlock : β)
  -- `addRootBlock(block)`; `valid` says whether `validateBlock` returns
  | addRootBlock (block : β) (valid : Bool)
  | start (i : ℕ)  -- the loop starts the drain task `i`
  -- drain `i` passes its `while` test once; `r` is what `addBlock` does if it is called
  | iterate (i : ℕ) (r : AddBlock)
  -- the gather drain `i` awaits returns these `errorCode`s, or raises (`none`)
  | resume (i : ℕ) (errorCodes : Option (List ℕ))
  deriving DecidableEq, Repr

variable {β : Type}

/-- Launched and not yet past the flag reset, nor ended by an exception. -/
def Pc.live : Pc β → Bool
  | .created | .running _ | .awaiting _ _ => true
  | .finished | .aborted => false

def Pc.isRunning : Pc β → Bool
  | .running _ => true
  | _ => false

namespace State

def init (network : Option (List ℕ)) : State β := ⟨[], false, [], network, []⟩

/-- A drain holds the event loop. -/
def busy (s : State β) : Bool := s.drains.any (·.pc.isRunning)

def record (s : State β) (es : List (Event β)) : State β := { s with trace := s.trace ++ es }

def setDrain (s : State β) (i : ℕ) (d : Drain β) : State β := { s with drains := s.drains.set i d }

/-- `self.rootBlockUpdateQueue.append(b)` -/
def enqueue (s : State β) (b : β) : State β :=
  { s with rootBlockUpdateQueue := s.rootBlockUpdateQueue ++ [b], trace := s.trace ++ [.enqueue b] }

/-- A drain's first lines: `check(self.isUpdatingRootBlock)`, then `updateTip = False`. -/
def entry (isUpdatingRootBlock : Bool) : Pc β :=
  if isUpdatingRootBlock then .running false else .aborted

/-- `self.isUpdatingRootBlock = True` and a new invocation of `updateRooBlockAsync`. -/
def launch (s : State β) (d : Drain β) : State β :=
  { s with isUpdatingRootBlock := true, drains := s.drains ++ [d] }

def updateRootBlock (s : State β) (rBlock : β) : State β :=
  let s := s.enqueue rBlock
  if s.isUpdatingRootBlock then s else s.launch ⟨.created, none⟩

/-- `addRootBlock(block)` up to its first suspension: a drain it launches runs at once. -/
def addRootBlock (s : State β) (block : β) (valid : Bool) : State β :=
  if !valid then s
  else
    let s := s.enqueue block
    if s.isUpdatingRootBlock then s.record [.returned block] else s.launch ⟨entry true, some block⟩

/-- `broadcastRpc(ADD_ROOT_BLOCK_REQUEST, ...)` and the await on its gather. -/
def broadcast (s : State β) (i : ℕ) (owner : Option β) (updateTip : Bool) (rBlock : β) :
    State β :=
  (s.setDrain i ⟨.awaiting updateTip rBlock, owner⟩).record [.broadcast rBlock]

/-- One pass of drain `i` from its `while` test to the next await, the next test or its end. -/
def iterate (s : State β) (i : ℕ) (owner : Option β) (updateTip : Bool) (r : AddBlock) :
    State β :=
  match s.rootBlockUpdateQueue with
  | [] =>
    let s := { s.setDrain i ⟨.finished, owner⟩ with isUpdatingRootBlock := false }
    let s := if updateTip then s.record ((s.network.getD []).map .sendUpdatedTip) else s
    match owner with
    | some b => s.record [.returned b]
    | none => s
  | rBlock :: rest =>
    let s := { s with rootBlockUpdateQueue := rest }.record [.pop rBlock]
    -- `updateTip = updateTip or self.rootState.addBlock(rBlock)`
    if updateTip then s.broadcast i owner true rBlock
    else
      let s := s.record [.addBlock rBlock r]
      match r with
      | .returned t => s.broadcast i owner t rBlock
      | .valueError => s.setDrain i ⟨.running false, owner⟩
      | .raised => s.setDrain i ⟨.aborted, owner⟩

/-- Drain `i` back from the gather of `rBlock`'s broadcast, then
    `check(all([resp.errorCode == 0 ...]))`. -/
def resume (s : State β) (i : ℕ) (owner : Option β) (updateTip : Bool) (rBlock : β) :
    Option (List ℕ) → State β
  | none => s.setDrain i ⟨.aborted, owner⟩
  | some errorCodes =>
    let s := s.record [.gathered rBlock]
    if errorCodes.all (· == 0) then s.setDrain i ⟨.running updateTip, owner⟩
    else s.setDrain i ⟨.aborted, owner⟩

def step (s : State β) : Action β → Option (State β)
  | .updateRootBlock b => if s.busy then none else some (s.updateRootBlock b)
  | .addRootBlock b valid => if s.busy then none else some (s.addRootBlock b valid)
  | .start i =>
    match s.drains[i]?, s.busy with
    | some ⟨.created, o⟩, false => some (s.setDrain i ⟨entry s.isUpdatingRootBlock, o⟩)
    | _, _ => none
  | .iterate i r =>
    match s.drains[i]? with
    | some ⟨.running u, o⟩ => some (s.iterate i o u r)
    | _ => none
  | .resume i errorCodes =>
    match s.drains[i]?, s.busy with
    | some ⟨.awaiting u b, o⟩, false => some (s.resume i o u b errorCodes)
    | _, _ => none

def run (s : State β) : List (Action β) → Option (State β)
  | [] => some s
  | a :: as => (s.step a).bind (·.run as)

@[simp] theorem record_queue (s : State β) (es : List (Event β)) :
    (s.record es).rootBlockUpdateQueue = s.rootBlockUpdateQueue := rfl
@[simp] theorem record_flag (s : State β) (es : List (Event β)) :
    (s.record es).isUpdatingRootBlock = s.isUpdatingRootBlock := rfl
@[simp] theorem record_drains (s : State β) (es : List (Event β)) :
    (s.record es).drains = s.drains := rfl
@[simp] theorem record_network (s : State β) (es : List (Event β)) :
    (s.record es).network = s.network := rfl
@[simp] theorem record_trace (s : State β) (es : List (Event β)) :
    (s.record es).trace = s.trace ++ es := rfl

@[simp] theorem setDrain_queue (s : State β) (i : ℕ) (d : Drain β) :
    (s.setDrain i d).rootBlockUpdateQueue = s.rootBlockUpdateQueue := rfl
@[simp] theorem setDrain_flag (s : State β) (i : ℕ) (d : Drain β) :
    (s.setDrain i d).isUpdatingRootBlock = s.isUpdatingRootBlock := rfl
@[simp] theorem setDrain_drains (s : State β) (i : ℕ) (d : Drain β) :
    (s.setDrain i d).drains = s.drains.set i d := rfl
@[simp] theorem setDrain_network (s : State β) (i : ℕ) (d : Drain β) :
    (s.setDrain i d).network = s.network := rfl
@[simp] theorem setDrain_trace (s : State β) (i : ℕ) (d : Drain β) :
    (s.setDrain i d).trace = s.trace := rfl

@[simp] theorem launch_queue (s : State β) (d : Drain β) :
    (s.launch d).rootBlockUpdateQueue = s.rootBlockUpdateQueue := rfl
@[simp] theorem launch_flag (s : State β) (d : Drain β) : (s.launch d).isUpdatingRootBlock = true :=
  rfl
@[simp] theorem launch_drains (s : State β) (d : Drain β) : (s.launch d).drains = s.drains ++ [d] :=
  rfl
@[simp] theorem launch_trace (s : State β) (d : Drain β) : (s.launch d).trace = s.trace := rfl

@[simp] theorem enqueue_queue (s : State β) (b : β) :
    (s.enqueue b).rootBlockUpdateQueue = s.rootBlockUpdateQueue ++ [b] := rfl
@[simp] theorem enqueue_flag (s : State β) (b : β) :
    (s.enqueue b).isUpdatingRootBlock = s.isUpdatingRootBlock := rfl
@[simp] theorem enqueue_drains (s : State β) (b : β) : (s.enqueue b).drains = s.drains := rfl
@[simp] theorem enqueue_network (s : State β) (b : β) : (s.enqueue b).network = s.network := rfl
@[simp] theorem enqueue_trace (s : State β) (b : β) :
    (s.enqueue b).trace = s.trace ++ [.enqueue b] := rfl

end State

/-- The states some interleaving of the entry points and drain steps reaches. -/
inductive Reachable : State β → Prop
  | init (network : Option (List ℕ)) : Reachable (.init network)
  | step {s s' : State β} (a : Action β) : Reachable s → s.step a = some s' → Reachable s'

theorem Reachable.run {s s' : State β} {as : List (Action β)} (hs : Reachable s)
    (h : s.run as = some s') : Reachable s' := by
  induction as generalizing s with
  | nil => cases h; exact hs
  | cons a as ih =>
    simp only [State.run, Option.bind_eq_some] at h
    obtain ⟨t, ht, h⟩ := h
    exact ih (hs.step a ht) h

end QuarkChain.Serializer
