import QuarkChain.BringUp

set_option autoImplicit false

/-!
# Requests for one shard, and broadcasts

Once the cluster is up, the master serves a request for one shard through `branchToSlaves`:
`getAccountData` (and `getTransactionCount`, `getBalance` over it) and `addRawMinorBlock` ask the
first slave of the branch's entry, `addTransaction` asks every slave of it, and `broadcastRpc`
writes to every connection of `slavePool`. A handler returns the slaves it writes a request to
with what it returns; a slave's reply is a function of the slave, and an RPC that fails is not
modelled. On a cluster whose bring-up resolved `clusterActiveFuture`, the slaves asked are the
configured slaves that run the request's shard, and a broadcast reaches each configured slave
once.
-/

namespace QuarkChain.Requests

open BringUp (Master Env Layout getSlaveConnection servers)

structure AccountData where
  errorCode : ℕ
  transactionCount : ℕ
  balance : ℕ
  deriving DecidableEq, Repr

/-- `getAccountData(address)` for an address of shard `shardId`. `reply slave` is what `slave`
    answers to its GET_ACCOUNT_DATA_REQUEST; `SlaveConnection.getAccountData` checks its
    `errorCode`. -/
def getAccountData (core : Core) (shardSize : ℕ) (m : Master) (shardId : ℕ)
    (reply : ℕ → AccountData) : Except PyError (ℕ × AccountData) := do
  let slave ← getSlaveConnection m (core.create shardSize shardId)
  let resp := reply slave
  if resp.errorCode ≠ 0 then throw .checkFailed
  return (core.create shardSize shardId, resp)

def getTransactionCount (core : Core) (shardSize : ℕ) (m : Master) (shardId : ℕ)
    (reply : ℕ → AccountData) : Except PyError (ℕ × ℕ) :=
  (fun (branch, resp) => (branch, resp.transactionCount)) <$>
    getAccountData core shardSize m shardId reply

def getBalance (core : Core) (shardSize : ℕ) (m : Master) (shardId : ℕ)
    (reply : ℕ → AccountData) : Except PyError (ℕ × ℕ) :=
  (fun (branch, resp) => (branch, resp.balance)) <$> getAccountData core shardSize m shardId reply

/-- `addTransaction(tx)` for a transaction of branch `branchValue`: the slaves it writes
    ADD_TRANSACTION_REQUEST to, and whether every one answered `errorCode` 0. -/
def addTransaction (m : Master) (branchValue : ℕ) (errorCode : ℕ → ℕ) : List ℕ × Bool :=
  match PyDict.get? m.branchToSlaves branchValue with
  | none => ([], false)
  | some slaves => (slaves, slaves.all fun slave => errorCode slave == 0)

/-- `addRawMinorBlock(branch, blockData)`: the slave it writes ADD_MINOR_BLOCK_REQUEST to, and
    whether it answered `errorCode` 0. -/
def addRawMinorBlock (m : Master) (branch : ℕ) (errorCode : ℕ → ℕ) :
    Except PyError (List ℕ × Bool) :=
  match PyDict.get? m.branchToSlaves branch with
  | none => .ok ([], false)
  | some _ => do
    let slave ← getSlaveConnection m branch
    return ([slave], errorCode slave == 0)

/-- `broadcastRpc(op, req)`: the connections of `slavePool` it writes to, in the set's order. -/
def broadcastRpc (env : Env) (m : Master) : List ℕ := env.poolOrder m.slavePool

section Spec
variable {core : Core} {shardSize : ℕ} {m : Master} {s slave : ℕ}

theorem getAccountData_of_slave (hj : getSlaveConnection m (core.create shardSize s) = .ok slave)
    (reply : ℕ → AccountData) :
    getAccountData core shardSize m s reply =
      if (reply slave).errorCode = 0 then .ok (core.create shardSize s, reply slave)
      else .error .checkFailed := by
  simp only [getAccountData, hj, bind, Except.bind, ite_not]
  split <;> rfl

theorem addRawMinorBlock_of_slave {branch : ℕ} (hj : getSlaveConnection m branch = .ok slave)
    (errorCode : ℕ → ℕ) :
    addRawMinorBlock m branch errorCode = .ok ([slave], errorCode slave == 0) := by
  obtain ⟨rest, hg⟩ := BringUp.getSlaveConnection_eq_ok.mp hj
  simp only [addRawMinorBlock, hg, hj, bind, Except.bind, pure, Except.pure]

theorem addRawMinorBlock_of_none {branch : ℕ} (hg : PyDict.get? m.branchToSlaves branch = none)
    (errorCode : ℕ → ℕ) : addRawMinorBlock m branch errorCode = .ok ([], false) := by
  simp only [addRawMinorBlock, hg]

theorem addTransaction_of_none {branch : ℕ} (hg : PyDict.get? m.branchToSlaves branch = none)
    (errorCode : ℕ → ℕ) : addTransaction m branch errorCode = ([], false) := by
  simp only [addTransaction, hg]

end Spec

section Layout
variable {core : Core} {shardSize : ℕ} {config : List SlaveInfo} {m : Master}

theorem Layout.get?_other (hl : Layout core shardSize config m) {k : ℕ}
    (hk : ∀ s < shardSize, core.create shardSize s ≠ k) :
    PyDict.get? m.branchToSlaves k = none :=
  (PyDict.get?_eq_none_iff _ _).mpr fun hm =>
    let ⟨s, hs, he⟩ := (hl.keys k).mp hm
    hk s hs he

theorem Layout.routes (hl : Layout core shardSize config m) {s : ℕ} (hs : s < shardSize) :
    ∃ j rest, servers core s 0 config = j :: rest ∧
      (∀ reply, getAccountData core shardSize m s reply =
        if (reply j).errorCode = 0 then .ok (core.create shardSize s, reply j)
        else .error .checkFailed) ∧
      (∀ errorCode, addRawMinorBlock m (core.create shardSize s) errorCode =
        .ok ([j], errorCode j == 0)) ∧
      (∀ errorCode, addTransaction m (core.create shardSize s) errorCode =
        (j :: rest, (j :: rest).all fun slave => errorCode slave == 0)) := by
  obtain ⟨j, rest, he, hj⟩ := hl.getSlaveConnection_create hs
  refine ⟨j, rest, he, getAccountData_of_slave hj, addRawMinorBlock_of_slave hj,
    fun errorCode => ?_⟩
  simp only [addTransaction, hl.entry s hs, he]

end Layout

section Active
variable {core : Core} {shardSize : ℕ} {env : Env} {config : List SlaveInfo} {m : Master}

/-- On a cluster whose bring-up resolved `clusterActiveFuture`, a broadcast reaches every
    configured slave once; a request for shard `s` goes to the configured slaves that run `s`
    (the first of them for account data and minor blocks, all of them for a transaction); and a
    transaction or a minor block of a branch that is no shard's is refused without a request. -/
theorem active_cluster_routes
    (hinj : ∀ s t, s < shardSize → t < shardSize →
      core.create shardSize s = core.create shardSize t → s = t)
    (horder : ∀ l, (env.poolOrder l).Perm l)
    (h : BringUp.initCluster core shardSize config env = .ok m)
    (hact : m.clusterActiveFuture = .result) :
    (broadcastRpc env m).Perm (List.range config.length) ∧
    (∀ s < shardSize, ∃ j rest, servers core s 0 config = j :: rest ∧
      (∀ reply, getAccountData core shardSize m s reply =
        if (reply j).errorCode = 0 then .ok (core.create shardSize s, reply j)
        else .error .checkFailed) ∧
      (∀ errorCode, addRawMinorBlock m (core.create shardSize s) errorCode =
        .ok ([j], errorCode j == 0)) ∧
      (∀ errorCode, addTransaction m (core.create shardSize s) errorCode =
        (j :: rest, (j :: rest).all fun slave => errorCode slave == 0))) ∧
    (∀ k, (∀ s < shardSize, core.create shardSize s ≠ k) → ∀ errorCode,
      addTransaction m k errorCode = ([], false) ∧
        addRawMinorBlock m k errorCode = .ok ([], false)) := by
  have hl := (BringUp.initCluster_layout hinj horder h hact).2.2
  refine ⟨?_, fun s hs => Layout.routes hl hs, fun k hk errorCode => ?_⟩
  · rw [broadcastRpc, ← BringUp.initCluster_slavePool h]
    exact horder _
  · have hg := Layout.get?_other hl hk
    exact ⟨addTransaction_of_none hg errorCode, addRawMinorBlock_of_none hg errorCode⟩

theorem two_slave_routes :
    let core : Core := ⟨fun size s => size + s, fun b => b % 2, fun _ => 2,
      fun mask s => mask == 1 || mask == 2 + s, fun _ _ => true, fun _ _ => true⟩
    let shardSize := 2
    let config : List SlaveInfo := [⟨"s0", [2]⟩, ⟨"s1", [3]⟩]
    let env : Env := ⟨fun i => if i = 0 then ("s0", [2]) else ("s1", [3]), fun _ => ["", ""],
      fun _ => false, List.reverse⟩
    let m : Master := ⟨[(2, [0]), (3, [1])], [0, 1], .result, .pending⟩
    (∀ s t, s < shardSize → t < shardSize →
      core.create shardSize s = core.create shardSize t → s = t) ∧
    (∀ l, (env.poolOrder l).Perm l) ∧
    BringUp.initCluster core shardSize config env = .ok m ∧ m.clusterActiveFuture = .result ∧
    (broadcastRpc env m).Perm (List.range config.length) ∧
    (∀ s < shardSize, ∃ j rest, servers core s 0 config = j :: rest ∧
      (∀ reply, getAccountData core shardSize m s reply =
        if (reply j).errorCode = 0 then .ok (core.create shardSize s, reply j)
        else .error .checkFailed) ∧
      (∀ errorCode, addRawMinorBlock m (core.create shardSize s) errorCode =
        .ok ([j], errorCode j == 0)) ∧
      (∀ errorCode, addTransaction m (core.create shardSize s) errorCode =
        (j :: rest, (j :: rest).all fun slave => errorCode slave == 0))) ∧
    (∀ k, (∀ s < shardSize, core.create shardSize s ≠ k) → ∀ errorCode,
      addTransaction m k errorCode = ([], false) ∧
        addRawMinorBlock m k errorCode = .ok ([], false)) := by
  intro core shardSize config env m
  have hinj : ∀ s t, s < shardSize → t < shardSize →
      core.create shardSize s = core.create shardSize t → s = t :=
    fun _ _ _ _ he => Nat.add_left_cancel he
  have horder : ∀ l, (env.poolOrder l).Perm l := List.reverse_perm
  have h : BringUp.initCluster core shardSize config env = .ok m := rfl
  exact ⟨hinj, horder, h, rfl, active_cluster_routes hinj horder h rfl⟩

end Active

end QuarkChain.Requests
