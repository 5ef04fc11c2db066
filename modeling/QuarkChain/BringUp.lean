import Mathlib.Data.List.Sort
import QuarkChain.Core

set_option autoImplicit false

/-!
# Bringing the cluster up

`__initCluster` connects to every configured slave in turn, compares its PING reply with the
configuration and indexes it in `branchToSlaves`, then asks every slave to dial the others.
A mismatch, a failed mesh or a closed slave link calls `shutdown`, which rejects
`clusterActiveFuture`, and the bring-up goes on regardless: its last `set_result` then
raises. A slave connection is the position of its entry in the configuration.
-/

namespace QuarkChain.BringUp

inductive Future where
  | pending
  | result
  | exception
  deriving DecidableEq, Repr

def Future.done : Future → Bool
  | .pending => false
  | _ => true

/-- The points where `__initCluster` awaits, for slave `i`; a slave link may close there. -/
inductive Suspension where
  | connect (i : ℕ)
  | waitUntilActive (i : ℕ)
  | sendPing (i : ℕ)
  | meshActive (i : ℕ)
  | sendConnectToSlaves (i : ℕ)
  deriving DecidableEq, Repr

structure Master where
  branchToSlaves : List (ℕ × List ℕ)
  slavePool : List ℕ
  clusterActiveFuture : Future
  shutdownFuture : Future
  deriving DecidableEq, Repr

/-- What the slaves and their links do during bring-up. -/
structure Env where
  ping : ℕ → String × List ℕ  -- the `(id, shardMaskList)` of slave `i`'s PING reply
  connectToSlavesReply : ℕ → List String  -- the `resultList` of slave `i`'s CONNECT_TO_SLAVES reply
  -- whether a slave link closes while the bring-up is suspended at a point
  closed : Suspension → Bool
  poolOrder : List ℕ → List ℕ  -- the order in which the set `slavePool` yields its connections

namespace Master

def init : Master := ⟨[], [], .pending, .pending⟩

def shutdown (m : Master) : Master :=
  { m with
    shutdownFuture := if m.shutdownFuture.done then m.shutdownFuture else .result
    clusterActiveFuture :=
      if m.clusterActiveFuture.done then m.clusterActiveFuture else .exception }

/-- The bring-up awaits at `p`; a slave link that closes meanwhile calls `shutdown`. -/
def suspend (env : Env) (p : Suspension) (m : Master) : Master :=
  if env.closed p then m.shutdown else m

def hasAllShards (shardSize : ℕ) (m : Master) : Bool :=
  m.branchToSlaves.length == shardSize && m.branchToSlaves.all fun (_, slaves) => slaves.length > 0

end Master

/-- The loop `for shardId in range(SHARD_SIZE)` that indexes slave `i` by the shards it runs. -/
def indexSlave (core : Core) (shardSize i : ℕ) (slave : SlaveInfo) (d : List (ℕ × List ℕ))
    (shardIds : List ℕ) : List (ℕ × List ℕ) :=
  shardIds.foldl (fun d shardId =>
    if slave.hasShard core shardId then PyDict.setdefaultAppend d (core.create shardSize shardId) i
    else d) d

/-- One pass of `__connectToSlaves`, for slave `i` of the configuration. -/
def connectSlave (core : Core) (shardSize : ℕ) (env : Env) (m : Master) (i : ℕ)
    (slaveInfo : SlaveInfo) : Except PyError Master :=
  let m := m.suspend env (.connect i)
  -- `SlaveConnection.__init__`: `check(len(shardMaskList) > 0)`
  if slaveInfo.shardMaskList = [] then .error .checkFailed
  else
    let m := (m.suspend env (.waitUntilActive i)).suspend env (.sendPing i)
    let m := if (env.ping i).1 ≠ slaveInfo.id then m.shutdown else m
    let m := if (env.ping i).2 ≠ slaveInfo.shardMaskList then m.shutdown else m
    .ok { m with
      slavePool := m.slavePool ++ [i]
      branchToSlaves :=
        indexSlave core shardSize i slaveInfo m.branchToSlaves (List.range shardSize) }

def connectToSlaves (core : Core) (shardSize : ℕ) (env : Env) :
    ℕ → List SlaveInfo → Master → Except PyError Master
  | _, [], m => .ok m
  | i, slaveInfo :: rest, m => do
    let m ← connectSlave core shardSize env m i slaveInfo
    connectToSlaves core shardSize env (i + 1) rest m

/-- `SlaveConnection.sendConnectToSlaves`, given the slave's `resultList`: True unless some
    result is an error text. -/
def sendConnectToSlaves (slaveCount : ℕ) (resultList : List String) : Except PyError Bool :=
  if resultList.length ≠ slaveCount then .error .checkFailed
  else .ok (resultList.all (·.length == 0))

def setupSlaveToSlaveConnections (env : Env) (slaveCount : ℕ) :
    List ℕ → Master → Except PyError Master
  | [], m => .ok m
  | slave :: rest, m => do
    let m := (m.suspend env (.meshActive slave)).suspend env (.sendConnectToSlaves slave)
    let success ← sendConnectToSlaves slaveCount (env.connectToSlavesReply slave)
    setupSlaveToSlaveConnections env slaveCount rest (if success then m else m.shutdown)

/-- `__initCluster` on a fresh master: the state it leaves, or the exception that ends it. -/
def initCluster (core : Core) (shardSize : ℕ) (config : List SlaveInfo) (env : Env) :
    Except PyError Master := do
  let m ← connectToSlaves core shardSize env 0 config .init
  if !m.hasAllShards shardSize then return m
  let m ← setupSlaveToSlaveConnections env config.length (env.poolOrder m.slavePool) m
  -- `self.clusterActiveFuture.set_result(None)`
  if m.clusterActiveFuture.done then throw .invalidState
  return { m with clusterActiveFuture := .result }

/-- The configured slaves, by position from `i`, whose masks contain `shardId`. -/
def servers (core : Core) (shardId : ℕ) : ℕ → List SlaveInfo → List ℕ
  | _, [] => []
  | i, slave :: rest =>
    (if slave.hasShard core shardId then [i] else []) ++ servers core shardId (i + 1) rest

/-- `getSlaveConnection(branch)`: `check(len(self.branchToSlaves[branch.value]) > 0)`, then the
    first entry. -/
def getSlaveConnection (m : Master) (branch : ℕ) : Except PyError ℕ :=
  match PyDict.get? m.branchToSlaves branch with
  | none => .error .keyError
  | some [] => .error .checkFailed
  | some (slave :: _) => .ok slave

theorem getSlaveConnection_eq_ok {m : Master} {branch slave : ℕ} :
    getSlaveConnection m branch = .ok slave ↔
      ∃ rest, PyDict.get? m.branchToSlaves branch = some (slave :: rest) := by
  unfold getSlaveConnection
  split <;> simp_all

namespace Master
variable {m : Master} {env : Env}

@[simp] theorem shutdown_branchToSlaves : m.shutdown.branchToSlaves = m.branchToSlaves := rfl
@[simp] theorem shutdown_slavePool : m.shutdown.slavePool = m.slavePool := rfl
@[simp] theorem shutdown_clusterActiveFuture_ne_pending :
    m.shutdown.clusterActiveFuture ≠ .pending := by
  unfold shutdown; cases m.clusterActiveFuture <;> simp [Future.done]
theorem shutdown_clusterActiveFuture_ne_result (h : m.clusterActiveFuture ≠ .result) :
    m.shutdown.clusterActiveFuture ≠ .result := by
  unfold shutdown; cases hf : m.clusterActiveFuture <;> simp_all [Future.done]

@[simp] theorem suspend_branchToSlaves (p : Suspension) :
    (m.suspend env p).branchToSlaves = m.branchToSlaves := by
  unfold suspend; split <;> rfl
@[simp] theorem suspend_slavePool (p : Suspension) : (m.suspend env p).slavePool = m.slavePool := by
  unfold suspend; split <;> rfl
theorem pending_of_suspend {p : Suspension} (h : (m.suspend env p).clusterActiveFuture = .pending) :
    m.clusterActiveFuture = .pending := by
  unfold suspend at h; split at h
  · exact absurd h shutdown_clusterActiveFuture_ne_pending
  · exact h
theorem suspend_ne_result (p : Suspension) (h : m.clusterActiveFuture ≠ .result) :
    (m.suspend env p).clusterActiveFuture ≠ .result := by
  unfold suspend; split
  · exact shutdown_clusterActiveFuture_ne_result h
  · exact h

end Master

section Index
variable (core : Core) (shardSize i : ℕ) (slave : SlaveInfo)

theorem get?_indexSlave (d : List (ℕ × List ℕ)) (shardIds : List ℕ) (k : ℕ)
    (hnd : shardIds.Nodup) (hinj : ∀ s ∈ shardIds, ∀ t ∈ shardIds,
      core.create shardSize s = core.create shardSize t → s = t) :
    PyDict.get? (indexSlave core shardSize i slave d shardIds) k =
      if shardIds.any (fun s => core.create shardSize s == k && slave.hasShard core s) then
        some ((PyDict.get? d k).getD [] ++ [i])
      else PyDict.get? d k := by
  induction shardIds generalizing d with
  | nil => rfl
  | cons s0 l ih =>
    obtain ⟨hs0, hl⟩ := List.nodup_cons.mp hnd
    have hinj' := fun s hs t ht => hinj s (List.mem_cons_of_mem _ hs) t (List.mem_cons_of_mem _ ht)
    simp only [indexSlave, List.foldl_cons] at ih ⊢
    rw [ih _ hl hinj']
    by_cases hp : core.create shardSize s0 = k ∧ slave.hasShard core s0 = true
    · obtain ⟨rfl, hh⟩ := hp
      have hnone : l.any (fun s => core.create shardSize s == core.create shardSize s0 &&
          slave.hasShard core s) = false := by
        simp only [List.any_eq_false, Bool.and_eq_true, beq_iff_eq, not_and]
        intro t ht he
        exact absurd (hinj t (List.mem_cons_of_mem _ ht) s0 (List.mem_cons_self _ _) he ▸ ht) hs0
      simp [hnone, hh, PyDict.setdefaultAppend]
    · have hget : PyDict.get? (if slave.hasShard core s0 = true then
          PyDict.setdefaultAppend d (core.create shardSize s0) i else d) k = PyDict.get? d k := by
        split
        · simp only [PyDict.setdefaultAppend, PyDict.get?_set]; rw [if_neg (by tauto)]
        · rfl
      rw [hget]
      have hp' : (core.create shardSize s0 == k && slave.hasShard core s0) = false := by
        simpa using hp
      simp only [List.any_cons, hp', Bool.false_or]

theorem nodup_indexSlave {d : List (ℕ × List ℕ)} (hd : (d.map Prod.fst).Nodup)
    (shardIds : List ℕ) : ((indexSlave core shardSize i slave d shardIds).map Prod.fst).Nodup := by
  induction shardIds generalizing d with
  | nil => exact hd
  | cons s0 l ih =>
    simp only [indexSlave, List.foldl_cons] at ih ⊢
    apply ih
    split
    · exact PyDict.nodup_keys_set hd _ _
    · exact hd

variable {core shardSize}

theorem get?_indexSlave_create (hinj : ∀ s t, s < shardSize → t < shardSize →
      core.create shardSize s = core.create shardSize t → s = t)
    (d : List (ℕ × List ℕ)) {s : ℕ} (hs : s < shardSize) :
    PyDict.get? (indexSlave core shardSize i slave d (List.range shardSize))
        (core.create shardSize s) =
      if slave.hasShard core s then some ((PyDict.get? d (core.create shardSize s)).getD [] ++ [i])
      else PyDict.get? d (core.create shardSize s) := by
  rw [get?_indexSlave core shardSize i slave d _ _ (List.nodup_range _)
    (fun s hs t ht => hinj s t (List.mem_range.mp hs) (List.mem_range.mp ht))]
  congr 1
  simp only [List.any_eq_true, List.mem_range, Bool.and_eq_true, beq_iff_eq, eq_iff_iff]
  exact ⟨fun ⟨t, ht, he, hh⟩ => hinj t s ht hs he ▸ hh, fun hh => ⟨s, hs, rfl, hh⟩⟩

theorem get?_indexSlave_other (hinj : ∀ s t, s < shardSize → t < shardSize →
      core.create shardSize s = core.create shardSize t → s = t)
    (d : List (ℕ × List ℕ)) {k : ℕ} (hk : ∀ s < shardSize, core.create shardSize s ≠ k) :
    PyDict.get? (indexSlave core shardSize i slave d (List.range shardSize)) k =
      PyDict.get? d k := by
  rw [get?_indexSlave core shardSize i slave d _ _ (List.nodup_range _)
    (fun s hs t ht => hinj s t (List.mem_range.mp hs) (List.mem_range.mp ht)), if_neg]
  simp only [List.any_eq_true, List.mem_range, Bool.and_eq_true, beq_iff_eq, not_exists, not_and]
  exact fun t ht he => absurd he (hk t ht)

end Index

section Connect
variable {core : Core} {shardSize : ℕ} {env : Env}

theorem pending_of_ite_shutdown {c : Prop} [Decidable c] {m : Master}
    (h : (if c then m.shutdown else m).clusterActiveFuture = .pending) :
    ¬ c ∧ m.clusterActiveFuture = .pending := by
  split at h
  · exact absurd h Master.shutdown_clusterActiveFuture_ne_pending
  · exact ⟨‹_›, h⟩

@[simp] theorem ite_shutdown_slavePool {c : Prop} [Decidable c] {m : Master} :
    (if c then m.shutdown else m).slavePool = m.slavePool := by
  split <;> rfl

@[simp] theorem ite_shutdown_branchToSlaves {c : Prop} [Decidable c] {m : Master} :
    (if c then m.shutdown else m).branchToSlaves = m.branchToSlaves := by
  split <;> rfl

theorem ite_shutdown_ne_result {c : Prop} [Decidable c] {m : Master}
    (h : m.clusterActiveFuture ≠ .result) :
    (if c then m.shutdown else m).clusterActiveFuture ≠ .result := by
  split
  · exact Master.shutdown_clusterActiveFuture_ne_result h
  · exact h

theorem connectSlave_ok {m m' : Master} {i : ℕ} {slave : SlaveInfo}
    (h : connectSlave core shardSize env m i slave = .ok m') :
    m'.slavePool = m.slavePool ++ [i] ∧
    m'.branchToSlaves = indexSlave core shardSize i slave m.branchToSlaves (List.range shardSize) ∧
    (m'.clusterActiveFuture = .pending →
      m.clusterActiveFuture = .pending ∧ env.ping i = (slave.id, slave.shardMaskList)) ∧
    (m.clusterActiveFuture ≠ .result → m'.clusterActiveFuture ≠ .result) := by
  unfold connectSlave at h
  split at h
  · cases h
  · cases h
    refine ⟨by simp only [ite_shutdown_slavePool, Master.suspend_slavePool],
      by simp only [ite_shutdown_branchToSlaves, Master.suspend_branchToSlaves], fun hp => ?_,
      fun hr => ?_⟩
    · obtain ⟨h2, hp⟩ := pending_of_ite_shutdown hp
      obtain ⟨h1, hp⟩ := pending_of_ite_shutdown hp
      refine ⟨Master.pending_of_suspend (Master.pending_of_suspend (Master.pending_of_suspend hp)),
        Prod.ext (not_not.mp h1) (not_not.mp h2)⟩
    · exact ite_shutdown_ne_result (ite_shutdown_ne_result (Master.suspend_ne_result _
        (Master.suspend_ne_result _ (Master.suspend_ne_result _ hr))))

theorem connectToSlaves_cons {i : ℕ} {slave : SlaveInfo} {rest : List SlaveInfo} {m m' : Master}
    (h : connectToSlaves core shardSize env i (slave :: rest) m = .ok m') :
    ∃ m₁, connectSlave core shardSize env m i slave = .ok m₁ ∧
      connectToSlaves core shardSize env (i + 1) rest m₁ = .ok m' := by
  simp only [connectToSlaves] at h
  cases h1 : connectSlave core shardSize env m i slave with
  | error e => simp [h1, bind, Except.bind] at h
  | ok m₁ => exact ⟨m₁, rfl, by simpa [h1, bind, Except.bind] using h⟩

theorem connectToSlaves_slavePool {i : ℕ} {rest : List SlaveInfo} {m m' : Master}
    (h : connectToSlaves core shardSize env i rest m = .ok m') :
    m'.slavePool = m.slavePool ++ List.range' i rest.length := by
  induction rest generalizing i m with
  | nil => cases h; simp
  | cons slave rest ih =>
    obtain ⟨m₁, h₁, h⟩ := connectToSlaves_cons h
    rw [ih h, (connectSlave_ok h₁).1]
    simp [List.range'_succ]

theorem connectToSlaves_get?_create (hinj : ∀ s t, s < shardSize → t < shardSize →
      core.create shardSize s = core.create shardSize t → s = t)
    {i : ℕ} {rest : List SlaveInfo} {m m' : Master}
    (h : connectToSlaves core shardSize env i rest m = .ok m') {s : ℕ} (hs : s < shardSize) :
    PyDict.get? m'.branchToSlaves (core.create shardSize s) =
      if servers core s i rest = [] then PyDict.get? m.branchToSlaves (core.create shardSize s)
      else some ((PyDict.get? m.branchToSlaves (core.create shardSize s)).getD [] ++
        servers core s i rest) := by
  induction rest generalizing i m with
  | nil => cases h; simp [servers]
  | cons slave rest ih =>
    obtain ⟨m₁, h₁, h⟩ := connectToSlaves_cons h
    rw [ih h, (connectSlave_ok h₁).2.1, get?_indexSlave_create i slave hinj _ hs]
    cases hh : slave.hasShard core s <;> by_cases hr : servers core s (i + 1) rest = [] <;>
      simp [servers, hh, hr]

theorem connectToSlaves_get?_other (hinj : ∀ s t, s < shardSize → t < shardSize →
      core.create shardSize s = core.create shardSize t → s = t)
    {i : ℕ} {rest : List SlaveInfo} {m m' : Master}
    (h : connectToSlaves core shardSize env i rest m = .ok m') {k : ℕ}
    (hk : ∀ s < shardSize, core.create shardSize s ≠ k) :
    PyDict.get? m'.branchToSlaves k = PyDict.get? m.branchToSlaves k := by
  induction rest generalizing i m with
  | nil => cases h; rfl
  | cons slave rest ih =>
    obtain ⟨m₁, h₁, h⟩ := connectToSlaves_cons h
    rw [ih h, (connectSlave_ok h₁).2.1, get?_indexSlave_other i slave hinj _ hk]

theorem connectToSlaves_nodup {i : ℕ} {rest : List SlaveInfo} {m m' : Master}
    (h : connectToSlaves core shardSize env i rest m = .ok m')
    (hd : (m.branchToSlaves.map Prod.fst).Nodup) : (m'.branchToSlaves.map Prod.fst).Nodup := by
  induction rest generalizing i m with
  | nil => cases h; exact hd
  | cons slave rest ih =>
    obtain ⟨m₁, h₁, h⟩ := connectToSlaves_cons h
    exact ih h ((connectSlave_ok h₁).2.1 ▸ nodup_indexSlave core shardSize i slave hd _)

theorem connectToSlaves_pending {i : ℕ} {rest : List SlaveInfo} {m m' : Master}
    (h : connectToSlaves core shardSize env i rest m = .ok m')
    (hp : m'.clusterActiveFuture = .pending) :
    m.clusterActiveFuture = .pending ∧
      ∀ (j : ℕ) (hj : j < rest.length), env.ping (i + j) = (rest[j].id, rest[j].shardMaskList) := by
  induction rest generalizing i m with
  | nil => cases h; exact ⟨hp, fun j hj => absurd hj (Nat.not_lt_zero j)⟩
  | cons slave rest ih =>
    obtain ⟨m₁, h₁, h⟩ := connectToSlaves_cons h
    obtain ⟨hp₁, hping⟩ := ih h
    obtain ⟨hp₀, hping₀⟩ := (connectSlave_ok h₁).2.2.1 hp₁
    refine ⟨hp₀, fun j hj => ?_⟩
    cases j with
    | zero => exact hping₀
    | succ j =>
      rw [show i + (j + 1) = i + 1 + j by omega]
      exact hping j (by simpa using hj)

theorem connectToSlaves_ne_result {i : ℕ} {rest : List SlaveInfo} {m m' : Master}
    (h : connectToSlaves core shardSize env i rest m = .ok m')
    (hr : m.clusterActiveFuture ≠ .result) : m'.clusterActiveFuture ≠ .result := by
  induction rest generalizing i m with
  | nil => cases h; exact hr
  | cons slave rest ih =>
    obtain ⟨m₁, h₁, h⟩ := connectToSlaves_cons h
    exact ih h ((connectSlave_ok h₁).2.2.2 hr)

end Connect

section Servers
variable {core : Core} {s : ℕ}

theorem servers_ne_nil_iff {i : ℕ} {rest : List SlaveInfo} :
    servers core s i rest ≠ [] ↔ ∃ slave ∈ rest, slave.hasShard core s = true := by
  induction rest generalizing i with
  | nil => simp [servers]
  | cons slave rest ih =>
    cases h : slave.hasShard core s
    · simpa [servers, h] using ih
    · simp [servers, h]

theorem mem_servers {i j : ℕ} {rest : List SlaveInfo} :
    j ∈ servers core s i rest ↔
      ∃ (k : ℕ) (hk : k < rest.length), j = i + k ∧ rest[k].hasShard core s := by
  induction rest generalizing i with
  | nil => simp [servers]
  | cons slave rest ih =>
    simp only [servers, List.mem_append, ih, List.length_cons]
    constructor
    · rintro (hj | ⟨k, hk, rfl, hh⟩)
      · split at hj
        · exact ⟨0, Nat.succ_pos _, List.eq_of_mem_singleton hj, by simpa⟩
        · simp at hj
      · exact ⟨k + 1, by omega, by omega, hh⟩
    · rintro ⟨_ | k, hk, rfl, hh⟩
      · exact Or.inl (by simp_all)
      · exact Or.inr ⟨k, by omega, by omega, hh⟩

theorem servers_sorted {i : ℕ} {rest : List SlaveInfo} :
    (servers core s i rest).Sorted (· < ·) := by
  induction rest generalizing i with
  | nil => exact List.sorted_nil
  | cons slave rest ih =>
    simp only [servers]
    split
    · refine List.sorted_cons.mpr ⟨fun j hj => ?_, ih⟩
      obtain ⟨k, -, rfl, -⟩ := mem_servers.mp hj
      omega
    · exact ih

theorem servers_spec (config : List SlaveInfo) : (servers core s 0 config).Sorted (· < ·) ∧
    ∀ j, j ∈ servers core s 0 config ↔
      ∃ hj : j < config.length, config[j].hasShard core s = true := by
  refine ⟨servers_sorted, fun j => mem_servers.trans ⟨?_, fun ⟨hj, hh⟩ => ⟨j, hj, by simp, hh⟩⟩⟩
  rintro ⟨k, hk, rfl, hh⟩
  exact ⟨by simpa using hk, by simpa using hh⟩

end Servers

theorem setup_ok {env : Env} {slaveCount : ℕ} {order : List ℕ} {m m' : Master}
    (h : setupSlaveToSlaveConnections env slaveCount order m = .ok m') :
    m'.branchToSlaves = m.branchToSlaves ∧ m'.slavePool = m.slavePool ∧
    (m'.clusterActiveFuture = .pending → m.clusterActiveFuture = .pending ∧
      ∀ j ∈ order, ∀ r ∈ env.connectToSlavesReply j, r = "") := by
  induction order generalizing m with
  | nil => cases h; exact ⟨rfl, rfl, fun hp => ⟨hp, by simp⟩⟩
  | cons slave rest ih =>
    simp only [setupSlaveToSlaveConnections, sendConnectToSlaves] at h
    split at h
    · cases h
    · obtain ⟨hb, hpool, hp⟩ := ih h
      refine ⟨by split_ifs at hb <;> simpa using hb, by split_ifs at hpool <;> simpa using hpool,
        fun hp' => ?_⟩
      obtain ⟨hp₁, hr⟩ := hp hp'
      split at hp₁
      · refine ⟨Master.pending_of_suspend (Master.pending_of_suspend hp₁), ?_⟩
        intro j hj r hr'
        rcases List.mem_cons.mp hj with rfl | hj
        · have hlen : r.length = 0 := beq_iff_eq.mp (List.all_eq_true.mp ‹_› r hr')
          cases r with
          | mk d => exact congrArg String.mk (List.eq_nil_of_length_eq_zero hlen)
        · exact hr j hj r hr'
      · exact absurd hp₁ Master.shutdown_clusterActiveFuture_ne_pending

/-- The slaves answer as configured and no slave link closes: every mask list is non-empty, every
    PING reply matches the configuration, and every CONNECT_TO_SLAVES reply holds one empty
    result per configured slave. -/
structure Answers (config : List SlaveInfo) (env : Env) : Prop where
  masks : ∀ slave ∈ config, slave.shardMaskList ≠ []
  ping : ∀ (j : ℕ) (hj : j < config.length), env.ping j = (config[j].id, config[j].shardMaskList)
  mesh : ∀ j < config.length, env.connectToSlavesReply j = List.replicate config.length ""
  opened : ∀ p, env.closed p = false

section Answered
variable {core : Core} {shardSize : ℕ} {env : Env}

theorem Master.suspend_of_opened (hopen : ∀ p, env.closed p = false) (m : Master) (p : Suspension) :
    m.suspend env p = m := by
  simp [Master.suspend, hopen]

theorem connectSlave_answered (hopen : ∀ p, env.closed p = false) {m : Master} {i : ℕ}
    {slave : SlaveInfo} (hmask : slave.shardMaskList ≠ [])
    (hping : env.ping i = (slave.id, slave.shardMaskList)) :
    ∃ m', connectSlave core shardSize env m i slave = .ok m' ∧
      m'.clusterActiveFuture = m.clusterActiveFuture := by
  simp only [connectSlave, Master.suspend_of_opened hopen, hmask, hping, if_false, ne_eq,
    not_true_eq_false]
  exact ⟨_, rfl, rfl⟩

theorem connectToSlaves_answered (hopen : ∀ p, env.closed p = false) {i : ℕ}
    {rest : List SlaveInfo} (hmask : ∀ slave ∈ rest, slave.shardMaskList ≠ [])
    (hping : ∀ (j : ℕ) (hj : j < rest.length),
      env.ping (i + j) = (rest[j].id, rest[j].shardMaskList))
    (m : Master) : ∃ m', connectToSlaves core shardSize env i rest m = .ok m' ∧
      m'.clusterActiveFuture = m.clusterActiveFuture := by
  induction rest generalizing i m with
  | nil => exact ⟨m, rfl, rfl⟩
  | cons slave rest ih =>
    obtain ⟨m₁, h₁, hf₁⟩ : ∃ m₁, connectSlave core shardSize env m i slave = .ok m₁ ∧
        m₁.clusterActiveFuture = m.clusterActiveFuture :=
      connectSlave_answered hopen (hmask slave (List.mem_cons_self _ _))
        (by simpa using hping 0 (Nat.succ_pos _))
    obtain ⟨m', h', hf'⟩ := ih (i := i + 1) (fun s hs => hmask s (List.mem_cons_of_mem _ hs))
      (fun j hj => by
        rw [show i + 1 + j = i + (j + 1) by omega]
        simpa using hping (j + 1) (by simpa using hj)) m₁
    exact ⟨m', by simp [connectToSlaves, h₁, h', bind, Except.bind], hf'.trans hf₁⟩

theorem setup_answered (hopen : ∀ p, env.closed p = false) {slaveCount : ℕ} {order : List ℕ}
    (hmesh : ∀ j ∈ order, env.connectToSlavesReply j = List.replicate slaveCount "")
    (m : Master) : setupSlaveToSlaveConnections env slaveCount order m = .ok m := by
  induction order with
  | nil => rfl
  | cons j rest ih =>
    simp [setupSlaveToSlaveConnections, sendConnectToSlaves, Master.suspend_of_opened hopen,
      hmesh j (List.mem_cons_self _ _), bind, Except.bind,
      ih fun k hk => hmesh k (List.mem_cons_of_mem _ hk)]

end Answered

section Layout
variable {core : Core} {shardSize : ℕ} {env : Env} {config : List SlaveInfo} {m : Master}
/-- What a successful bring-up leaves in `branchToSlaves`: one key per shard, and the entry of
    shard `s` is the list of configured slaves that run it. -/
structure Layout (core : Core) (shardSize : ℕ) (config : List SlaveInfo) (m : Master) : Prop where
  keys : ∀ k, k ∈ m.branchToSlaves.map Prod.fst ↔ ∃ s < shardSize, core.create shardSize s = k
  entry : ∀ s < shardSize,
    PyDict.get? m.branchToSlaves (core.create shardSize s) = some (servers core s 0 config)
  covered : ∀ s < shardSize, servers core s 0 config ≠ []

theorem Layout.getSlaveConnection_create (hl : Layout core shardSize config m) {s : ℕ}
    (hs : s < shardSize) : ∃ j rest, servers core s 0 config = j :: rest ∧
      getSlaveConnection m (core.create shardSize s) = .ok j := by
  obtain ⟨j, rest, he⟩ := List.exists_cons_of_ne_nil (hl.covered s hs)
  exact ⟨j, rest, he, by simp [getSlaveConnection, hl.entry s hs, he]⟩

theorem initCluster_ok (h : initCluster core shardSize config env = .ok m)
    (hact : m.clusterActiveFuture = .result) :
    ∃ m₀ m₁, connectToSlaves core shardSize env 0 config .init = .ok m₀ ∧
      m₀.hasAllShards shardSize = true ∧
      setupSlaveToSlaveConnections env config.length (env.poolOrder m₀.slavePool) m₀ = .ok m₁ ∧
      m₁.clusterActiveFuture = .pending ∧ m.branchToSlaves = m₁.branchToSlaves := by
  simp only [initCluster, bind, Except.bind, pure, Except.pure] at h
  cases h₀ : connectToSlaves core shardSize env 0 config .init with
  | error e => simp [h₀] at h
  | ok m₀ =>
    simp only [h₀] at h
    split at h
    · cases h
      exact absurd hact (connectToSlaves_ne_result h₀ (by decide))
    · rename_i ha
      cases h₁ : setupSlaveToSlaveConnections env config.length (env.poolOrder m₀.slavePool) m₀ with
      | error e => simp [h₁] at h
      | ok m₁ =>
        simp only [h₁] at h
        split at h
        · cases h
        · cases h
          refine ⟨m₀, m₁, rfl, by simpa using ha, h₁, ?_, rfl⟩
          cases hf : m₁.clusterActiveFuture <;> simp_all [Future.done]

theorem initCluster_slavePool (h : initCluster core shardSize config env = .ok m) :
    m.slavePool = List.range config.length := by
  simp only [initCluster, bind, Except.bind, pure, Except.pure] at h
  cases h₀ : connectToSlaves core shardSize env 0 config .init with
  | error e => simp [h₀] at h
  | ok m₀ =>
    have hpool : m₀.slavePool = List.range config.length := by
      simpa [Master.init, List.range_eq_range'] using connectToSlaves_slavePool h₀
    simp only [h₀] at h
    split at h
    · cases h
      exact hpool
    · cases h₁ : setupSlaveToSlaveConnections env config.length (env.poolOrder m₀.slavePool) m₀ with
      | error e => simp [h₁] at h
      | ok m₁ =>
        simp only [h₁] at h
        split at h
        · cases h
        · cases h
          exact (setup_ok h₁).2.1.trans hpool

variable (hinj : ∀ s t, s < shardSize → t < shardSize →
  core.create shardSize s = core.create shardSize t → s = t)
include hinj

theorem init_get?_create (h : connectToSlaves core shardSize env 0 config .init = .ok m)
    {s : ℕ} (hs : s < shardSize) :
    PyDict.get? m.branchToSlaves (core.create shardSize s) =
      if servers core s 0 config = [] then none else some (servers core s 0 config) := by
  simpa [Master.init] using connectToSlaves_get?_create hinj h hs

theorem init_mem_keys (h : connectToSlaves core shardSize env 0 config .init = .ok m) (k : ℕ) :
    k ∈ m.branchToSlaves.map Prod.fst ↔
      ∃ s < shardSize, core.create shardSize s = k ∧ servers core s 0 config ≠ [] := by
  rw [← not_iff_not, ← PyDict.get?_eq_none_iff]
  by_cases hk : ∃ s < shardSize, core.create shardSize s = k
  · obtain ⟨s, hs, rfl⟩ := hk
    rw [init_get?_create hinj h hs]
    constructor
    · intro hn ⟨t, ht, he, hne⟩
      rw [hinj t s ht hs he] at hne
      simp [hne] at hn
    · intro hn
      split
      · rfl
      · exact absurd ⟨s, hs, rfl, ‹_›⟩ hn
  · push_neg at hk
    have : PyDict.get? m.branchToSlaves k = none := by
      simpa [Master.init] using connectToSlaves_get?_other hinj h hk
    simp only [this, true_iff, not_exists, not_and]
    exact fun s hs he => absurd he (hk s hs)

theorem init_entry_ne_nil (h : connectToSlaves core shardSize env 0 config .init = .ok m)
    {k : ℕ} {slaves : List ℕ} (hp : (k, slaves) ∈ m.branchToSlaves) : slaves ≠ [] := by
  have hnd := connectToSlaves_nodup h List.nodup_nil
  obtain ⟨s, hs, rfl, hne⟩ := (init_mem_keys hinj h k).mp (List.mem_map_of_mem Prod.fst hp)
  have := PyDict.get?_of_mem hnd hp
  rw [init_get?_create hinj h hs, if_neg hne] at this
  exact Option.some_inj.mp this ▸ hne

/-- `__hasAllShards` holds after `__connectToSlaves` exactly when the configured masks cover
    every shard. -/
theorem hasAllShards_iff_covered (h : connectToSlaves core shardSize env 0 config .init = .ok m) :
    m.hasAllShards shardSize = true ↔
      ∀ s < shardSize, ∃ slave ∈ config, slave.hasShard core s = true := by
  have hnd := connectToSlaves_nodup h List.nodup_nil
  have hrange : ((List.range shardSize).map (core.create shardSize)).Nodup :=
    List.Nodup.map_on (fun s hs t ht => hinj s t (List.mem_range.mp hs) (List.mem_range.mp ht))
      (List.nodup_range _)
  have hsub : m.branchToSlaves.map Prod.fst ⊆ (List.range shardSize).map (core.create shardSize) :=
    fun k hk => by
      obtain ⟨s, hs, rfl, -⟩ := (init_mem_keys hinj h k).mp hk
      exact List.mem_map_of_mem _ (List.mem_range.mpr hs)
  have hle := (List.subperm_of_subset hnd hsub).length_le
  have hall : (m.branchToSlaves.all fun (_, slaves) => slaves.length > 0) = true :=
    List.all_eq_true.mpr fun ⟨k, slaves⟩ hp =>
      decide_eq_true (List.length_pos.mpr (init_entry_ne_nil hinj h hp))
  simp only [List.length_map, List.length_range] at hle
  simp only [Master.hasAllShards, hall, Bool.and_true, beq_iff_eq]
  constructor
  · intro hlen s hs
    have hperm := (List.subperm_of_subset hnd hsub).perm_of_length_le (by simp [hlen])
    have hk := hperm.mem_iff.mpr (List.mem_map_of_mem _ (List.mem_range.mpr hs))
    obtain ⟨t, ht, he, hne⟩ := (init_mem_keys hinj h _).mp hk
    exact servers_ne_nil_iff.mp (hinj t s ht hs he ▸ hne)
  · intro hcov
    have hsup :
        (List.range shardSize).map (core.create shardSize) ⊆ m.branchToSlaves.map Prod.fst :=
      fun k hk => by
        obtain ⟨s, hs, rfl⟩ := List.mem_map.mp hk
        exact (init_mem_keys hinj h _).mpr
          ⟨s, List.mem_range.mp hs, rfl, servers_ne_nil_iff.mpr (hcov s (List.mem_range.mp hs))⟩
    have hge := (List.subperm_of_subset hrange hsup).length_le
    simp only [List.length_map, List.length_range] at hge
    omega

theorem initCluster_layout (horder : ∀ l, (env.poolOrder l).Perm l)
    (h : initCluster core shardSize config env = .ok m) (hact : m.clusterActiveFuture = .result) :
    (∀ (j : ℕ) (hj : j < config.length), env.ping j = (config[j].id, config[j].shardMaskList)) ∧
    (∀ j < config.length, ∀ r ∈ env.connectToSlavesReply j, r = "") ∧
    Layout core shardSize config m := by
  obtain ⟨m₀, m₁, h₀, ha, h₁, hp, hb⟩ := initCluster_ok h hact
  obtain ⟨hb₁, hpool, hmesh⟩ := setup_ok h₁
  obtain ⟨hp₀, hmesh⟩ := hmesh hp
  have hcov : ∀ s < shardSize, servers core s 0 config ≠ [] := fun s hs =>
    servers_ne_nil_iff.mpr ((hasAllShards_iff_covered hinj h₀).mp ha s hs)
  refine ⟨fun j hj => by simpa using (connectToSlaves_pending h₀ hp₀).2 j hj,
    fun j hj => hmesh j ((horder _).mem_iff.mpr ?_), ?_⟩
  · simpa [connectToSlaves_slavePool h₀, Master.init] using hj
  · refine ⟨fun k => ?_, fun s hs => ?_, hcov⟩
    · rw [hb, hb₁, init_mem_keys hinj h₀]
      exact ⟨fun ⟨s, hs, he, _⟩ => ⟨s, hs, he⟩, fun ⟨s, hs, he⟩ => ⟨s, hs, he, hcov s hs⟩⟩
    · rw [hb, hb₁, init_get?_create hinj h₀ hs, if_neg (hcov s hs)]

theorem active_cluster_layout (horder : ∀ l, (env.poolOrder l).Perm l) :
    (∀ m, initCluster core shardSize config env = .ok m → m.clusterActiveFuture = .result →
      (∀ (j : ℕ) (hj : j < config.length), env.ping j = (config[j].id, config[j].shardMaskList)) ∧
      (∀ j < config.length, ∀ r ∈ env.connectToSlavesReply j, r = "") ∧
      Layout core shardSize config m ∧
      ∀ s < shardSize, (servers core s 0 config).Sorted (· < ·) ∧
        ∀ j, j ∈ servers core s 0 config ↔
          ∃ hj : j < config.length, config[j].hasShard core s = true) ∧
    (∀ m₀, connectToSlaves core shardSize env 0 config .init = .ok m₀ →
      (m₀.hasAllShards shardSize = true ↔
        ∀ s < shardSize, ∃ slave ∈ config, slave.hasShard core s = true)) :=
  ⟨fun _ h hact => by
    obtain ⟨hping, hmesh, hl⟩ := initCluster_layout hinj horder h hact
    exact ⟨hping, hmesh, hl, fun _ _ => servers_spec config⟩,
    fun _ h₀ => hasAllShards_iff_covered hinj h₀⟩

/-- Conversely, when the masks cover every shard and the slaves answer as configured, the
    bring-up resolves `clusterActiveFuture`. -/
theorem initCluster_activates (horder : ∀ l, (env.poolOrder l).Perm l)
    (hcov : ∀ s < shardSize, ∃ slave ∈ config, slave.hasShard core s = true)
    (ha : Answers config env) :
    ∃ m, initCluster core shardSize config env = .ok m ∧ m.clusterActiveFuture = .result ∧
      Layout core shardSize config m := by
  obtain ⟨m₀, h₀, hf₀⟩ : ∃ m₀, connectToSlaves core shardSize env 0 config .init = .ok m₀ ∧
      m₀.clusterActiveFuture = .pending :=
    connectToSlaves_answered ha.opened ha.masks (fun j hj => by simpa using ha.ping j hj) _
  have hall : m₀.hasAllShards shardSize = true := (hasAllShards_iff_covered hinj h₀).mpr hcov
  have hpool : m₀.slavePool = List.range config.length := by
    simpa [Master.init, List.range_eq_range'] using connectToSlaves_slavePool h₀
  have h₁ : setupSlaveToSlaveConnections env config.length (env.poolOrder m₀.slavePool) m₀ =
      .ok m₀ :=
    setup_answered ha.opened (fun j hj => ha.mesh j (List.mem_range.mp
      (hpool ▸ (horder _).mem_iff.mp hj))) m₀
  have h : initCluster core shardSize config env =
      .ok { m₀ with clusterActiveFuture := .result } := by
    simp [initCluster, h₀, hall, h₁, hf₀, Future.done, bind, Except.bind, pure, Except.pure]
  exact ⟨_, h, rfl, (initCluster_layout hinj horder h rfl).2.2⟩

end Layout

theorem answering_slaves_activate :
    let core : Core := ⟨fun size s => size + s, fun b => b % 2, fun _ => 2,
      fun mask s => mask == 1 || mask == 2 + s, fun _ _ => true, fun _ _ => true⟩
    let config : List SlaveInfo := [⟨"s0", [2]⟩, ⟨"s1", [3]⟩]
    let env : Env := ⟨fun i => if i = 0 then ("s0", [2]) else ("s1", [3]), fun _ => ["", ""],
      fun _ => false, List.reverse⟩
    (∀ s t, s < 2 → t < 2 → core.create 2 s = core.create 2 t → s = t) ∧
      (∀ l, (env.poolOrder l).Perm l) ∧
      (∀ s < 2, ∃ slave ∈ config, slave.hasShard core s = true) ∧ Answers config env ∧
      ∃ m, initCluster core 2 config env = .ok m ∧ m.clusterActiveFuture = .result ∧
        Layout core 2 config m := by
  intro core config env
  have hinj : ∀ s t, s < 2 → t < 2 → core.create 2 s = core.create 2 t → s = t :=
    fun _ _ _ _ he => Nat.add_left_cancel he
  have horder : ∀ l, (env.poolOrder l).Perm l := List.reverse_perm
  have hcov : ∀ s < 2, ∃ slave ∈ config, slave.hasShard core s = true := by decide
  have ha : Answers config env := ⟨by decide, by decide, by decide, fun _ => rfl⟩
  exact ⟨hinj, horder, hcov, ha, initCluster_activates hinj horder hcov ha⟩

theorem two_slave_layout :
    let core : Core := ⟨fun size s => size + s, fun b => b % 2, fun _ => 2,
      fun mask s => mask == 1 || mask == 2 + s, fun _ _ => true, fun _ _ => true⟩
    let config : List SlaveInfo := [⟨"s0", [2]⟩, ⟨"s1", [3]⟩]
    let env : Env := ⟨fun i => if i = 0 then ("s0", [2]) else ("s1", [3]), fun _ => ["", ""],
      fun _ => false, List.reverse⟩
    let m : Master := ⟨[(2, [0]), (3, [1])], [0, 1], .result, .pending⟩
    initCluster core 2 config env = .ok m ∧ Layout core 2 config m := by
  intro core config env m
  have h : initCluster core 2 config env = .ok m := rfl
  exact ⟨h, ((active_cluster_layout (fun _ _ _ _ he => Nat.add_left_cancel he)
    (fun l => List.reverse_perm l)).1 m h rfl).2.2.1⟩

end QuarkChain.BringUp
