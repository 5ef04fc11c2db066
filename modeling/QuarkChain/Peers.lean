import QuarkChain.Requests

set_option autoImplicit false

/-!
# Cluster peers

A slave hands the master the traffic of a cluster peer, and `getConnectionToForward` picks where
it goes from the message's `clusterPeerId`: id 0 is the cluster's own and stays with the master;
any other goes to the peer's connection in `self.network`, or to `NULL_CONNECTION`, which drops
it, when there is no network or the network does not know the peer. `validateConnection` accepts
`NULL_CONNECTION` and `P2PConnection`s. When a cluster peer comes or goes, the master asks every
connection of `slavePool` to create, or to destroy, its connection for that peer.
-/

namespace QuarkChain.Peers

open BringUp (Master Env)

variable {π : Type}

/-- `broadcastCommand(op, cmd)`: as `broadcastRpc`, a write to every connection of `slavePool`,
    in the set's order, with `ClusterMetadata(ROOT_BRANCH, 0)`; no reply is awaited. -/
def broadcastCommand (env : Env) (m : Master) : List ℕ := env.poolOrder m.slavePool

/-- `createPeerClusterConnections(clusterPeerId)`: the slaves `broadcastRpc` asks, each with the
    peer's id; the gathered replies are ignored. -/
def createPeerClusterConnections (env : Env) (m : Master) (clusterPeerId : ℕ) : List (ℕ × ℕ) :=
  (Requests.broadcastRpc env m).map (·, clusterPeerId)

/-- `destroyPeerClusterConnections(clusterPeerId)`: the slaves `broadcastCommand` tells, each with
    the peer's id. -/
def destroyPeerClusterConnections (env : Env) (m : Master) (clusterPeerId : ℕ) : List (ℕ × ℕ) :=
  (broadcastCommand env m).map (·, clusterPeerId)

section Pool
variable {core : Core} {shardSize : ℕ} {env : Env} {config : List SlaveInfo} {m : Master}

/-- After a bring-up that returns, a cluster peer's connections are created on every configured
    slave once, and destroyed on the same slaves in the same order. -/
theorem peer_connections_on_every_slave (horder : ∀ l, (env.poolOrder l).Perm l)
    (h : BringUp.initCluster core shardSize config env = .ok m) (clusterPeerId : ℕ) :
    ∃ order : List ℕ, order.Perm (List.range config.length) ∧
      createPeerClusterConnections env m clusterPeerId = order.map (·, clusterPeerId) ∧
      destroyPeerClusterConnections env m clusterPeerId = order.map (·, clusterPeerId) := by
  refine ⟨env.poolOrder m.slavePool, ?_, rfl, rfl⟩
  rw [← BringUp.initCluster_slavePool h]
  exact horder _

end Pool

theorem two_slave_peer_connections :
    let core : Core := ⟨fun size s => size + s, fun b => b % 2, fun _ => 2,
      fun mask s => mask == 1 || mask == 2 + s, fun _ _ => true, fun _ _ => true⟩
    let config : List SlaveInfo := [⟨"s0", [2]⟩, ⟨"s1", [3]⟩]
    let env : Env := ⟨fun i => if i = 0 then ("s0", [2]) else ("s1", [3]), fun _ => ["", ""],
      fun _ => false, List.reverse⟩
    let m : Master := ⟨[(2, [0]), (3, [1])], [0, 1], .result, .pending⟩
    (∀ l, (env.poolOrder l).Perm l) ∧ BringUp.initCluster core 2 config env = .ok m ∧
    createPeerClusterConnections env m 9 = [(1, 9), (0, 9)] ∧
    ∃ order : List ℕ, order.Perm (List.range config.length) ∧
      createPeerClusterConnections env m 9 = order.map (·, 9) ∧
      destroyPeerClusterConnections env m 9 = order.map (·, 9) := by
  intro core config env m
  have horder : ∀ l, (env.poolOrder l).Perm l := List.reverse_perm
  have h : BringUp.initCluster core 2 config env = .ok m := rfl
  exact ⟨horder, h, rfl, peer_connections_on_every_slave horder h 9⟩

end QuarkChain.Peers
