import QuarkChain.BringUp
import QuarkChain.Selection

set_option autoImplicit false

/-!
# `getNextBlockToMine`

The master asks the slaves whose masks overlap the request for their `EcoInfo`s, merges them by
branch, prices the root at half their unconfirmed coinbase, runs the selection loop, and mines
the winner: the root through `__createRootBlockToMineOrFallbackToMinorBlock`, a shard through
`__getMinorBlockToMine`. The slaves' replies and the root state are the `MiningEnv`; a reply with
a non-zero `errorCode` is `none`. Slaves are positions of the configuration, as in the bring-up.
Both of the request's divisions are Python's `/` on ints: the root's eco and every shard's eco
are doubles, which the loop compares as the rationals they are.
-/

namespace QuarkChain.Mining

open BringUp (Master getSlaveConnection)

/-- The `(isRootBlock, block)` pair: `(None, None)`, `(False, block)` or `(True, block)`. -/
inductive BlockToMine (β ρ : Type) where
  | none
  | minor (block : β)
  | root (block : ρ)
  deriving DecidableEq, Repr

/-- What the slaves answer and what the root state computes; `β` are minor blocks, `η` headers,
    `ρ` root blocks. -/
structure MiningEnv (β η ρ : Type) where
  -- the `ecoInfoList` of slave `j`'s `GET_ECO_INFO_LIST` reply
  ecoInfoList : ℕ → Option (List EcoInfo)
  -- the `headersInfoList` of slave `j`'s `GET_UNCONFIRMED_HEADERS` reply, as
  -- `(branch.value, headerList)` pairs
  headersInfoList : ℕ → Option (List (ℕ × List η))
  -- the block of slave `j`'s `GET_NEXT_BLOCK_TO_MINE` reply for a branch value
  nextBlock : ℕ → ℕ → Option β
  nextBlockDifficulty : ℕ  -- `rootState.getNextBlockDifficulty()`
  createBlockToMine : List η → ρ  -- `rootState.createBlockToMine(headerList, address)`
  poolOrder : List ℕ → List ℕ  -- the order in which the set `slavePool` yields its connections
  -- what `address.addressInBranch(Branch(None))` raises, if anything; for a branch with an int
  -- value it returns
  addressInBranchOfNone : Option PyError

variable {β η ρ : Type}

/-- Python's `/` on ints: `ZeroDivisionError`, or the double nearest the quotient. -/
def pyDiv (a b : ℕ) : Except PyError ℚ :=
  if b = 0 then .error .zeroDivision else .ok (trueDiv a b)

/-- The entry with `coinbaseAmount` and `difficulty` replaced by the parts of the double
    `coinbaseAmount / difficulty`, so that its `eco` is the one master.py computes. A zero
    difficulty stays, for the loop to raise `ZeroDivisionError` on. -/
def EcoInfo.asDouble (ecoInfo : EcoInfo) : EcoInfo :=
  if ecoInfo.difficulty = 0 then ecoInfo
  else { ecoInfo with
    coinbaseAmount := (trueDivParts ecoInfo.coinbaseAmount ecoInfo.difficulty).1
    difficulty := (trueDivParts ecoInfo.coinbaseAmount ecoInfo.difficulty).2 }

def asDoubles (d : List (ℕ × EcoInfo)) : List (ℕ × EcoInfo) := d.map fun x => (x.1, x.2.asDouble)

/-- `None if shardMaskValue == 0 else ShardMask(shardMaskValue)`. -/
def shardMaskOf (shardMaskValue : ℕ) : Option ℕ :=
  if shardMaskValue = 0 then none else some shardMaskValue

/-- `shardMask and not slave.hasOverlap(shardMask)`: slave `j` is not asked. -/
def notAsked (core : Core) (config : List SlaveInfo) (shardMask : Option ℕ) (j : ℕ) : Bool :=
  match shardMask, config[j]? with
  | some mask, some slave => !slave.hasOverlap core mask
  | some _, none => true
  | none, _ => false

def askedSlaves (core : Core) (config : List SlaveInfo) (shardMask : Option ℕ) (pool : List ℕ) :
    List ℕ :=
  pool.filter fun j => !notAsked core config shardMask j

/-- `__getMinorBlockToMine(Branch(branchValue), address)`: `address.addressInBranch(branch)`,
    then `getSlaveConnection(branch)`, where `Branch(None)` is no key of `branchToSlaves`. -/
def getMinorBlockToMine (env : MiningEnv β η ρ) (m : Master) :
    Option ℕ → Except PyError (Option β)
  | none => .error (env.addressInBranchOfNone.getD .keyError)
  | some branch => do
    let slave ← getSlaveConnection m branch
    return env.nextBlock slave branch

/-- `(None, None) if not block else (False, block)`. -/
def minorOrNone : Option β → BlockToMine β ρ
  | none => .none
  | some block => .minor block

/-- `branchValueToEcoInfo` from the replies, or `none` at a reply whose `errorCode` is not 0. -/
def mergeEcoInfo (replies : List (Option (List EcoInfo))) : Option (List (ℕ × EcoInfo)) :=
  replies.foldlM (fun d reply => reply.map fun ecoInfoList =>
    ecoInfoList.foldl (fun d ecoInfo => PyDict.set d ecoInfo.branch ecoInfo) d) []

theorem mem_mergeEcoInfo {replies : List (Option (List EcoInfo))} {d : List (ℕ × EcoInfo)}
    (h : mergeEcoInfo replies = some d) {x : ℕ × EcoInfo} (hx : x ∈ d) :
    x.1 = x.2.branch ∧ ∃ l, some l ∈ replies ∧ x.2 ∈ l := by
  have key : ∀ rs : List (Option (List EcoInfo)), (∀ r ∈ rs, r ∈ replies) →
      ∀ d₀ : List (ℕ × EcoInfo),
      (∀ y ∈ d₀, y.1 = y.2.branch ∧ ∃ l, some l ∈ replies ∧ y.2 ∈ l) →
      rs.foldlM (fun d reply => reply.map fun l =>
        l.foldl (fun d ecoInfo => PyDict.set d ecoInfo.branch ecoInfo) d) d₀ = some d →
      ∀ y ∈ d, y.1 = y.2.branch ∧ ∃ l, some l ∈ replies ∧ y.2 ∈ l := by
    intro rs
    induction rs with
    | nil =>
      intro _ d₀ h₀ h
      cases h
      exact h₀
    | cons r rs ih =>
      intro hrs d₀ h₀ h
      cases r with
      | none => simp at h
      | some l =>
        refine ih (fun r hr => hrs r (List.mem_cons_of_mem _ hr)) _ (fun y hy => ?_) h
        rcases PyDict.mem_foldl_set hy with hy | ⟨hb, hl⟩
        exacts [h₀ y hy, ⟨hb, l, hrs _ (List.mem_cons_self _ _), hl⟩]
  exact key replies (fun _ h => h) [] (fun _ h => absurd h (List.not_mem_nil _)) h x hx

/-- `shardIdToHeaderList` from the replies, or `none` at a failed reply or a branch of another
    shard size. -/
def mergeHeaders (core : Core) (shardSize : ℕ) (replies : List (Option (List (ℕ × List η)))) :
    Option (List (ℕ × List η)) :=
  replies.foldlM (fun d reply => reply.bind fun headersInfoList =>
    headersInfoList.foldlM (fun d (branch, headerList) =>
      if core.getShardSize branch ≠ shardSize then none
      else some (PyDict.set d (core.getShardId branch) headerList)) d) []

def headersOf (d : List (ℕ × List η)) (shardId : ℕ) : List η := (PyDict.get? d shardId).getD []

def createRootBlockToMineOrFallbackToMinorBlock (core : Core) (shardSize proofOfProgressBlocks : ℕ)
    (env : MiningEnv β η ρ) (m : Master) (pool : List ℕ) : Except PyError (BlockToMine β ρ) :=
  match mergeHeaders core shardSize (pool.map env.headersInfoList) with
  | none => .ok .none
  | some d =>
    -- the first shard short of `PROOF_OF_PROGRESS_BLOCKS` headers ends the loop
    match (List.range shardSize).find?
        (fun s => (headersOf d s).length < proofOfProgressBlocks) with
    | some shardId =>
      minorOrNone <$> getMinorBlockToMine env m (some (core.create shardSize shardId))
    | none => .ok (.root (env.createBlockToMine ((List.range shardSize).flatMap (headersOf d))))

def getNextBlockToMine (core : Core) (shardSize proofOfProgressBlocks : ℕ)
    (config : List SlaveInfo) (env : MiningEnv β η ρ) (m : Master) (shardMaskValue : ℕ)
    (randomizeOutput : Bool) (u : Draws) : Except PyError (BlockToMine β ρ) := do
  let shardMask := shardMaskOf shardMaskValue
  let pool := env.poolOrder m.slavePool
  match mergeEcoInfo ((askedSlaves core config shardMask pool).map env.ecoInfoList) with
  | none => return .none
  | some branchValueToEcoInfo =>
    let rootCoinbaseAmount :=
      (branchValueToEcoInfo.map (·.2.unconfirmedHeadersCoinbaseAmount)).sum / 2
    let maxEco ← pyDiv rootCoinbaseAmount env.nextBlockDifficulty
    let sel ← selectOnBy (trueDiv 1) core shardMask randomizeOutput (.init shardMask maxEco)
      (asDoubles branchValueToEcoInfo) u
    if sel.branchValueWithMaxEco = some 0 then
      createRootBlockToMineOrFallbackToMinorBlock core shardSize proofOfProgressBlocks env m pool
    else minorOrNone <$> getMinorBlockToMine env m sel.branchValueWithMaxEco

section Spec
variable {core : Core} {shardSize proofOfProgressBlocks : ℕ} {config : List SlaveInfo}
  {env : MiningEnv β η ρ} {m : Master} {shardMaskValue : ℕ} {shardMask : Option ℕ}
  {randomizeOutput : Bool} {u : Draws} {d : List (ℕ × EcoInfo)}

theorem pyDiv_of_pos {a b : ℕ} (hb : 0 < b) : pyDiv a b = .ok (trueDiv a b) := if_neg hb.ne'

theorem EcoInfo.asDouble_eco {e : EcoInfo} (hd : 0 < e.difficulty) :
    e.asDouble.eco = trueDiv e.coinbaseAmount e.difficulty := by
  simp [EcoInfo.asDouble, hd.ne', EcoInfo.eco, trueDiv]

theorem EcoInfo.asDouble_difficulty_pos {e : EcoInfo} (hd : 0 < e.difficulty) :
    0 < e.asDouble.difficulty := by
  simpa [EcoInfo.asDouble, hd.ne'] using trueDivParts_snd_pos _ _

theorem eligible_asDoubles (d : List (ℕ × EcoInfo)) :
    eligible core shardMask (asDoubles d) = asDoubles (eligible core shardMask d) := by
  simp [eligible, asDoubles, List.filter_map, Function.comp_def]

theorem mem_asDoubles {x : ℕ × EcoInfo} {d : List (ℕ × EcoInfo)} (hx : x ∈ asDoubles d) :
    ∃ e, (x.1, e) ∈ d ∧ x.2 = e.asDouble := by
  obtain ⟨y, hy, rfl⟩ := List.mem_map.mp hx
  exact ⟨y.2, hy, rfl⟩

theorem mem_eligible_asDoubles {x : ℕ × EcoInfo} (hx : x ∈ eligible core shardMask (asDoubles d)) :
    ∃ e, (x.1, e) ∈ eligible core shardMask d ∧ x.2 = e.asDouble :=
  mem_asDoubles (eligible_asDoubles d ▸ hx)

theorem shardMaskOf_zero : shardMaskOf 0 = none := rfl

theorem shardMaskOf_of_ne (h : shardMaskValue ≠ 0) :
    shardMaskOf shardMaskValue = some shardMaskValue := if_neg h

theorem getMinorBlockToMine_of_slave {v j : ℕ} (hj : getSlaveConnection m v = .ok j) :
    getMinorBlockToMine env m (some v) = .ok (env.nextBlock j v) := by
  simp [getMinorBlockToMine, hj, bind, Except.bind, pure, Except.pure]

theorem getMinorBlockToMine_of_error {v : ℕ} {e : PyError}
    (hj : getSlaveConnection m v = .error e) : getMinorBlockToMine env m (some v) = .error e := by
  simp [getMinorBlockToMine, hj, bind, Except.bind]

theorem getNextBlockToMine_of_failed_reply (hm : shardMaskOf shardMaskValue = shardMask)
    (hmerge : mergeEcoInfo ((askedSlaves core config shardMask
      (env.poolOrder m.slavePool)).map env.ecoInfoList) = none) :
    getNextBlockToMine core shardSize proofOfProgressBlocks config env m shardMaskValue
      randomizeOutput u = .ok .none := by
  subst hm
  simp only [getNextBlockToMine, hmerge]
  rfl

theorem getNextBlockToMine_of_div_error (hm : shardMaskOf shardMaskValue = shardMask)
    (hmerge : mergeEcoInfo ((askedSlaves core config shardMask
      (env.poolOrder m.slavePool)).map env.ecoInfoList) = some d) {e : PyError}
    (hdiv : pyDiv ((d.map (·.2.unconfirmedHeadersCoinbaseAmount)).sum / 2)
      env.nextBlockDifficulty = .error e) :
    getNextBlockToMine core shardSize proofOfProgressBlocks config env m shardMaskValue
      randomizeOutput u = .error e := by
  subst hm
  simp only [getNextBlockToMine, hmerge, hdiv, bind, Except.bind]

theorem getNextBlockToMine_of_merged (hm : shardMaskOf shardMaskValue = shardMask)
    (hmerge : mergeEcoInfo ((askedSlaves core config shardMask
      (env.poolOrder m.slavePool)).map env.ecoInfoList) = some d) {maxEco : ℚ}
    (hdiv : pyDiv ((d.map (·.2.unconfirmedHeadersCoinbaseAmount)).sum / 2)
      env.nextBlockDifficulty = .ok maxEco) :
    getNextBlockToMine core shardSize proofOfProgressBlocks config env m shardMaskValue
      randomizeOutput u =
      selectOnBy (trueDiv 1) core shardMask randomizeOutput (.init shardMask maxEco) (asDoubles d)
        u >>= fun sel =>
      if sel.branchValueWithMaxEco = some 0 then
        createRootBlockToMineOrFallbackToMinorBlock core shardSize proofOfProgressBlocks env m
          (env.poolOrder m.slavePool)
      else minorOrNone <$> getMinorBlockToMine env m sel.branchValueWithMaxEco := by
  subst hm
  simp only [getNextBlockToMine, hmerge, hdiv]
  rfl

theorem getNextBlockToMine_of_selected (hm : shardMaskOf shardMaskValue = shardMask)
    (hmerge : mergeEcoInfo ((askedSlaves core config shardMask
      (env.poolOrder m.slavePool)).map env.ecoInfoList) = some d) {maxEco : ℚ} {sel : Selection}
    (hdiv : pyDiv ((d.map (·.2.unconfirmedHeadersCoinbaseAmount)).sum / 2)
      env.nextBlockDifficulty = .ok maxEco)
    (hsel : selectOnBy (trueDiv 1) core shardMask randomizeOutput (.init shardMask maxEco)
      (asDoubles d) u = .ok sel) :
    getNextBlockToMine core shardSize proofOfProgressBlocks config env m shardMaskValue
      randomizeOutput u =
      if sel.branchValueWithMaxEco = some 0 then
        createRootBlockToMineOrFallbackToMinorBlock core shardSize proofOfProgressBlocks env m
          (env.poolOrder m.slavePool)
      else minorOrNone <$> getMinorBlockToMine env m sel.branchValueWithMaxEco := by
  rw [getNextBlockToMine_of_merged hm hmerge hdiv, hsel]
  rfl

/-- Randomization only breaks ties: when the doubles the loop compares, the root's eco and those
    of the eligible reports, are pairwise distinct, the randomized request ends as the
    deterministic one, whatever either draws. Ecos that differ as rationals can meet in one
    double, as `5000000000000000001 / 1` and `5000000000000000000 / 1` do. -/
theorem untied_ignores_draws
    (hmerge : mergeEcoInfo ((askedSlaves core config (shardMaskOf shardMaskValue)
      (env.poolOrder m.slavePool)).map env.ecoInfoList) = some d) {rootEco : ℚ}
    (hdiv : pyDiv ((d.map (·.2.unconfirmedHeadersCoinbaseAmount)).sum / 2)
      env.nextBlockDifficulty = .ok rootEco)
    (hdiff : ∀ x ∈ eligible core (shardMaskOf shardMaskValue) d, 0 < x.2.difficulty)
    (huntied : (rootEco :: (eligible core (shardMaskOf shardMaskValue) d).map
      fun x => trueDiv x.2.coinbaseAmount x.2.difficulty).Nodup) (u u' : Draws) :
    getNextBlockToMine core shardSize proofOfProgressBlocks config env m shardMaskValue true u =
      getNextBlockToMine core shardSize proofOfProgressBlocks config env m shardMaskValue false
        u' := by
  have hecos : (eligible core (shardMaskOf shardMaskValue) (asDoubles d)).map (·.2.eco) =
      (eligible core (shardMaskOf shardMaskValue) d).map
        fun x => trueDiv x.2.coinbaseAmount x.2.difficulty := by
    rw [eligible_asDoubles, asDoubles, List.map_map]
    exact List.map_congr_left fun x hx => EcoInfo.asDouble_eco (hdiff x hx)
  rw [getNextBlockToMine_of_merged rfl hmerge hdiv, getNextBlockToMine_of_merged rfl hmerge hdiv,
    selectOnBy_init_untied _ _ (hecos ▸ huntied) u u']

end Spec

theorem untied_request_ignores_draws :
    let core : Core := ⟨fun size s => size + s, fun b => b % 2, fun _ => 2,
      fun mask s => mask == 1 || mask == 2 + s, fun _ _ => true, fun _ _ => true⟩
    let config : List SlaveInfo := [⟨"s0", [2]⟩, ⟨"s1", [3]⟩]
    let m : Master := ⟨[(2, [0]), (3, [1])], [0, 1], .result, .pending⟩
    let env : MiningEnv Unit Unit Unit := ⟨fun j => some [⟨2 + j, 1, 2 + j, 1, 0⟩],
      fun _ => some [], fun _ _ => some (), 1, fun _ => (), id, none⟩
    let d : List (ℕ × EcoInfo) := [(2, ⟨2, 1, 2, 1, 0⟩), (3, ⟨3, 1, 3, 1, 0⟩)]
    mergeEcoInfo ((askedSlaves core config (shardMaskOf 0)
        (env.poolOrder m.slavePool)).map env.ecoInfoList) = some d ∧
      pyDiv ((d.map (·.2.unconfirmedHeadersCoinbaseAmount)).sum / 2) env.nextBlockDifficulty =
        .ok (trueDiv 0 1) ∧
      (∀ x ∈ eligible core (shardMaskOf 0) d, 0 < x.2.difficulty) ∧
      (trueDiv 0 1 :: (eligible core (shardMaskOf 0) d).map
        fun x => trueDiv x.2.coinbaseAmount x.2.difficulty).Nodup ∧
      getNextBlockToMine core 2 1 config env m 0 true (fun _ => 0) =
        getNextBlockToMine core 2 1 config env m 0 false (fun _ => 1) := by
  intro core config m env d
  have hmerge : mergeEcoInfo ((askedSlaves core config (shardMaskOf 0)
      (env.poolOrder m.slavePool)).map env.ecoInfoList) = some d := rfl
  have hdiv : pyDiv ((d.map (·.2.unconfirmedHeadersCoinbaseAmount)).sum / 2)
      env.nextBlockDifficulty = .ok (trueDiv 0 1) := by
    rw [show (d.map (·.2.unconfirmedHeadersCoinbaseAmount)).sum / 2 = 0 by decide]
    exact pyDiv_of_pos Nat.one_pos
  have hdiff : ∀ x ∈ eligible core (shardMaskOf 0) d, 0 < x.2.difficulty := by decide
  have huntied : (trueDiv 0 1 :: (eligible core (shardMaskOf 0) d).map
      fun x => trueDiv x.2.coinbaseAmount x.2.difficulty).Nodup := by
    have h2 : trueDivParts 2 1 = (2 ^ 52, 2 ^ 51) := by decide
    have h3 : trueDivParts 3 1 = (3 * 2 ^ 51, 2 ^ 51) := by decide
    simp [d, eligible, shardMaskOf, trueDiv, h2, h3]
    norm_num
  exact ⟨hmerge, hdiv, hdiff, huntied, untied_ignores_draws hmerge hdiv hdiff huntied _ _⟩


theorem Layout.getMinorBlockToMine_create {core : Core} {shardSize : ℕ} {config : List SlaveInfo}
    {m : Master} (hl : BringUp.Layout core shardSize config m) (env : MiningEnv β η ρ) {s : ℕ}
    (hs : s < shardSize) : ∃ j rest, BringUp.servers core s 0 config = j :: rest ∧
      getMinorBlockToMine env m (some (core.create shardSize s)) =
        .ok (env.nextBlock j (core.create shardSize s)) := by
  obtain ⟨j, rest, he, hj⟩ := hl.getSlaveConnection_create hs
  exact ⟨j, rest, he, getMinorBlockToMine_of_slave hj⟩

section Masked
variable {core : Core} {shardSize proofOfProgressBlocks : ℕ} {config : List SlaveInfo}
  {env : MiningEnv β η ρ} {m : Master} {shardMaskValue : ℕ} {randomizeOutput : Bool} {u : Draws}
  {d : List (ℕ × EcoInfo)}

/-- A masked request whose merged reports hold no branch of the mask dispatches to
    `Branch(None)`: `address.addressInBranch` raises, or else `getSlaveConnection` raises
    `KeyError`. -/
theorem masked_without_candidate_raises (hmask : shardMaskValue ≠ 0)
    (hmerge : mergeEcoInfo ((askedSlaves core config (some shardMaskValue)
      (env.poolOrder m.slavePool)).map env.ecoInfoList) = some d)
    (hnone : eligible core (some shardMaskValue) d = []) (hdiff : 0 < env.nextBlockDifficulty) :
    getNextBlockToMine core shardSize proofOfProgressBlocks config env m shardMaskValue
      randomizeOutput u = .error (env.addressInBranchOfNone.getD .keyError) := by
  rw [getNextBlockToMine_of_selected (shardMaskOf_of_ne hmask) hmerge (pyDiv_of_pos hdiff)
    (selectOnBy_of_eligible_nil (by rw [eligible_asDoubles, hnone]; rfl) _ u)]
  rfl

theorem masked_request_raises_keyError :
    let core : Core := ⟨fun size s => size + s, fun b => b - 2, fun _ => 2,
      fun mask s => mask == 1 || mask == 2 + s, fun mask b => mask == 1 || mask == b,
      fun mask other => mask == 1 || other == 1 || mask == other⟩
    let config : List SlaveInfo := [⟨"s0", [1]⟩]
    let env : MiningEnv Unit Unit Unit := ⟨fun _ => some [⟨2, 1, 1, 1, 0⟩], fun _ => some [],
      fun _ _ => some (), 1, fun _ => (), id, none⟩
    let m : Master := ⟨[(2, [0]), (3, [0])], [0], .result, .pending⟩
    3 ≠ 0 ∧ mergeEcoInfo ((askedSlaves core config (some 3)
        (env.poolOrder m.slavePool)).map env.ecoInfoList) = some [(2, ⟨2, 1, 1, 1, 0⟩)] ∧
      eligible core (some 3) [(2, ⟨2, 1, 1, 1, 0⟩)] = [] ∧ 0 < env.nextBlockDifficulty ∧
      getNextBlockToMine core 2 1 config env m 3 true (fun _ => 0) =
        .error (env.addressInBranchOfNone.getD .keyError) := by
  intro core config env m
  have hmerge : mergeEcoInfo ((askedSlaves core config (some 3)
      (env.poolOrder m.slavePool)).map env.ecoInfoList) = some [(2, ⟨2, 1, 1, 1, 0⟩)] := rfl
  have hnone : eligible core (some 3) [(2, ⟨2, 1, 1, 1, 0⟩)] = [] := rfl
  exact ⟨by decide, hmerge, hnone, by decide,
    masked_without_candidate_raises (by decide) hmerge hnone (by decide)⟩

/-- A masked request mines no root block: with positive branch values and difficulties among the
    reports in the mask, it ends with `(None, None)` or with the block a slave returned for a
    branch of the mask. -/
theorem masked_mines_masked_branch (hmask : shardMaskValue ≠ 0)
    (hpos : ∀ d, mergeEcoInfo ((askedSlaves core config (some shardMaskValue)
      (env.poolOrder m.slavePool)).map env.ecoInfoList) = some d →
      ∀ x ∈ eligible core (some shardMaskValue) d, 0 < x.1 ∧ 0 < x.2.difficulty)
    {r : BlockToMine β ρ} (h : getNextBlockToMine core shardSize proofOfProgressBlocks config env m
      shardMaskValue randomizeOutput u = .ok r) :
    r = .none ∨ ∃ b j block, core.containBranch shardMaskValue b = true ∧
      env.nextBlock j b = some block ∧ r = .minor block := by
  have hm := shardMaskOf_of_ne hmask
  cases hmerge : mergeEcoInfo ((askedSlaves core config (some shardMaskValue)
      (env.poolOrder m.slavePool)).map env.ecoInfoList) with
  | none =>
    exact .inl (Except.ok.inj ((getNextBlockToMine_of_failed_reply hm hmerge).symm.trans h)).symm
  | some d =>
    cases hdiv : pyDiv ((d.map (·.2.unconfirmedHeadersCoinbaseAmount)).sum / 2)
        env.nextBlockDifficulty with
    | error e => cases (getNextBlockToMine_of_div_error hm hmerge hdiv).symm.trans h
    | ok maxEco =>
      have hd := hpos d hmerge
      obtain ⟨sel, hsel, hinv⟩ : ∃ s, selectOnBy (trueDiv 1) core (some shardMaskValue)
          randomizeOutput (.init (some shardMaskValue) maxEco) (asDoubles d) u = .ok s ∧
          MaxInv core (some shardMaskValue) maxEco (asDoubles d) s :=
        selectOnBy_inv _ (fun _ b e _ hx h => h.step fun hk => by
          obtain ⟨e', he', rfl⟩ := mem_eligible_asDoubles (mem_eligible.mpr ⟨hx, hk⟩)
          exact EcoInfo.asDouble_difficulty_pos (hd _ he').2) _ MaxInv.init u
      rw [getNextBlockToMine_of_selected hm hmerge hdiv hsel] at h
      cases hbv : sel.branchValueWithMaxEco with
      | none => simp [hbv, getMinorBlockToMine, Functor.map, Except.map] at h
      | some v =>
        obtain ⟨e, he, -⟩ := (hinv.named v hbv).resolve_left fun ⟨_, hm, _⟩ =>
          Option.some_ne_none _ hm
        obtain ⟨e', he', -⟩ := mem_eligible_asDoubles he
        obtain ⟨-, hk⟩ := mem_eligible.mp he'
        have hv : 0 < v := (hd (v, e') he').1
        have hc : core.containBranch shardMaskValue v = true := by simpa [skipped] using hk
        rw [hbv, if_neg (by simpa using hv.ne')] at h
        cases hj : getSlaveConnection m v with
        | error e =>
          rw [getMinorBlockToMine_of_error hj] at h
          cases h
        | ok j =>
          rw [getMinorBlockToMine_of_slave hj] at h
          cases hb : env.nextBlock j v with
          | none => exact .inl (by simpa [hb, minorOrNone] using (Except.ok.inj h).symm)
          | some block =>
            exact .inr ⟨v, j, block, hc, hb,
              by simpa [hb, minorOrNone] using (Except.ok.inj h).symm⟩

theorem masked_request_mines_shard_one :
    let core : Core := ⟨fun size s => size + s, fun b => b - 2, fun _ => 2,
      fun mask s => mask == 1 || mask == 2 + s, fun mask b => mask == 1 || mask == b,
      fun mask other => mask == 1 || other == 1 || mask == other⟩
    let config : List SlaveInfo := [⟨"s0", [2]⟩, ⟨"s1", [3]⟩]
    let env : MiningEnv Unit Unit Unit := ⟨fun j => some [⟨2 + j, 1, 2, 1, 0⟩], fun _ => some [],
      fun _ _ => some (), 1, fun _ => (), id, none⟩
    let m : Master := ⟨[(2, [0]), (3, [1])], [0, 1], .result, .pending⟩
    3 ≠ 0 ∧ (∀ d, mergeEcoInfo ((askedSlaves core config (some 3)
        (env.poolOrder m.slavePool)).map env.ecoInfoList) = some d →
        ∀ x ∈ eligible core (some 3) d, 0 < x.1 ∧ 0 < x.2.difficulty) ∧
      getNextBlockToMine core 2 1 config env m 3 true (fun _ => 0) = .ok (.minor ()) ∧
      ((.minor () : BlockToMine Unit Unit) = .none ∨ ∃ b j block, core.containBranch 3 b = true ∧
        env.nextBlock j b = some block ∧ (.minor () : BlockToMine Unit Unit) = .minor block) := by
  intro core config env m
  have hmerge : mergeEcoInfo ((askedSlaves core config (some 3)
      (env.poolOrder m.slavePool)).map env.ecoInfoList) = some [(3, ⟨3, 1, 2, 1, 0⟩)] := rfl
  have hpos : ∀ d, mergeEcoInfo ((askedSlaves core config (some 3)
      (env.poolOrder m.slavePool)).map env.ecoInfoList) = some d →
      ∀ x ∈ eligible core (some 3) d, 0 < x.1 ∧ 0 < x.2.difficulty := by
    intro d hd
    rw [hmerge, Option.some.injEq] at hd
    subst hd
    decide
  have h : getNextBlockToMine core 2 1 config env m 3 true (fun _ => 0) = .ok (.minor ()) := by
    rfl
  exact ⟨by decide, hpos, h, masked_mines_masked_branch (by decide) hpos h⟩

end Masked

section Active
variable {core : Core} {shardSize proofOfProgressBlocks : ℕ} {config : List SlaveInfo}
  {env : MiningEnv β η ρ} {m : Master}

/-- What a request can end with on a cluster whose bring-up left `Layout`: `(None, None)`, a root
    block, or the block the first configured slave that runs some shard returned for it. -/
def Mined (core : Core) (shardSize : ℕ) (config : List SlaveInfo) (env : MiningEnv β η ρ) :
    BlockToMine β ρ → Prop
  | .none => True
  | .root _ => True
  | .minor block => ∃ s < shardSize, ∃ j rest, BringUp.servers core s 0 config = j :: rest ∧
      env.nextBlock j (core.create shardSize s) = some block

theorem askedSlaves_none (pool : List ℕ) : askedSlaves core config none pool = pool := by
  simp [askedSlaves, notAsked]

theorem mined_minorOrNone {s j : ℕ} {rest : List ℕ} (hs : s < shardSize)
    (he : BringUp.servers core s 0 config = j :: rest) :
    Mined core shardSize config env (minorOrNone (env.nextBlock j (core.create shardSize s))) := by
  cases hb : env.nextBlock j (core.create shardSize s) with
  | none => trivial
  | some block => exact ⟨s, hs, j, rest, he, hb⟩

theorem Layout.createRoot_mined (hl : BringUp.Layout core shardSize config m) (pool : List ℕ) :
    ∃ r, createRootBlockToMineOrFallbackToMinorBlock core shardSize proofOfProgressBlocks env m
      pool = .ok r ∧ Mined core shardSize config env r := by
  unfold createRootBlockToMineOrFallbackToMinorBlock
  split
  · exact ⟨_, rfl, trivial⟩
  · split
    · rename_i shardId hfind
      have hs : shardId < shardSize := List.mem_range.mp (List.mem_of_find?_eq_some hfind)
      obtain ⟨j, rest, he, hj⟩ := Layout.getMinorBlockToMine_create hl env hs
      rw [hj]
      exact ⟨_, rfl, mined_minorOrNone hs he⟩
    · exact ⟨_, rfl, trivial⟩

/-- On a cluster whose bring-up left `Layout`, an unmasked request raises nothing when every
    slave reports `EcoInfo`s of the cluster's shards with positive branch values and
    difficulties, and the root's difficulty is positive. -/
theorem Layout.getNextBlockToMine_unmasked (hl : BringUp.Layout core shardSize config m)
    (hdiff : 0 < env.nextBlockDifficulty)
    (hrep : ∀ j ∈ env.poolOrder m.slavePool, ∀ l, env.ecoInfoList j = some l → ∀ x ∈ l,
      0 < x.branch ∧ 0 < x.difficulty ∧ ∃ s < shardSize, core.create shardSize s = x.branch)
    (randomizeOutput : Bool) (u : Draws) :
    ∃ r, getNextBlockToMine core shardSize proofOfProgressBlocks config env m 0 randomizeOutput u =
      .ok r ∧ Mined core shardSize config env r := by
  cases hmerge : mergeEcoInfo ((askedSlaves core config none
      (env.poolOrder m.slavePool)).map env.ecoInfoList) with
  | none => exact ⟨_, getNextBlockToMine_of_failed_reply shardMaskOf_zero hmerge, trivial⟩
  | some d =>
    have hd : ∀ x ∈ d,
        0 < x.1 ∧ 0 < x.2.difficulty ∧ ∃ s < shardSize, core.create shardSize s = x.1 := by
      intro x hx
      obtain ⟨hb, l, hl, hxl⟩ := mem_mergeEcoInfo hmerge hx
      obtain ⟨j, hj, hjl⟩ := List.mem_map.mp hl
      rw [hb]
      rw [askedSlaves_none] at hj
      exact hrep j hj l hjl x.2 hxl
    obtain ⟨sel, hsel, hinv⟩ : ∃ s, selectOnBy (trueDiv 1) core none randomizeOutput
        (.init none (trueDiv ((d.map (·.2.unconfirmedHeadersCoinbaseAmount)).sum / 2)
          env.nextBlockDifficulty)) (asDoubles d) u = .ok s ∧ MaxInv core none _ (asDoubles d) s :=
      selectOnBy_inv _ (fun _ b e _ hx h => h.step fun _ => by
        obtain ⟨e', he', rfl⟩ := mem_asDoubles hx
        exact EcoInfo.asDouble_difficulty_pos (hd _ he').2.1) _ MaxInv.init u
    rw [getNextBlockToMine_of_selected shardMaskOf_zero hmerge (pyDiv_of_pos hdiff) hsel]
    cases hbv : sel.branchValueWithMaxEco with
    | none => exact absurd rfl (hinv.undecided hbv).1
    | some v =>
      rcases hinv.named v hbv with ⟨rfl, -⟩ | ⟨e, he, -⟩
      · rw [if_pos rfl]
        exact Layout.createRoot_mined hl _
      · obtain ⟨e', he', -⟩ := mem_eligible_asDoubles he
        obtain ⟨hv0, -, s, hs, hcs⟩ : 0 < v ∧ _ ∧ ∃ s < shardSize, core.create shardSize s = v :=
          hd (v, e') (mem_eligible.mp he').1
        obtain ⟨j, rest, hsv, hj⟩ := Layout.getMinorBlockToMine_create hl env hs
        rw [if_neg (by simpa using hv0.ne'), ← hcs, hj]
        exact ⟨_, rfl, mined_minorOrNone hs hsv⟩

theorem unmasked_request_mined :
    let core : Core := ⟨fun size s => size + s, fun b => b % 2, fun _ => 2,
      fun mask s => mask == 1 || mask == 2 + s, fun _ _ => true, fun _ _ => true⟩
    let config : List SlaveInfo := [⟨"s0", [2]⟩, ⟨"s1", [3]⟩]
    let m : Master := ⟨[(2, [0]), (3, [1])], [0, 1], .result, .pending⟩
    let env : MiningEnv Unit Unit Unit := ⟨fun j => some [⟨2 + j, 1, 2, 1, 0⟩], fun _ => some [],
      fun _ _ => some (), 1, fun _ => (), id, none⟩
    BringUp.Layout core 2 config m ∧ 0 < env.nextBlockDifficulty ∧
      (∀ j ∈ env.poolOrder m.slavePool, ∀ l, env.ecoInfoList j = some l → ∀ x ∈ l,
        0 < x.branch ∧ 0 < x.difficulty ∧ ∃ s < 2, core.create 2 s = x.branch) ∧
      ∃ r, getNextBlockToMine core 2 1 config env m 0 true (fun _ => 0) = .ok r ∧
        Mined core 2 config env r := by
  intro core config m env
  let bringUp : BringUp.Env := ⟨fun i => if i = 0 then ("s0", [2]) else ("s1", [3]),
    fun _ => ["", ""], fun _ => false, List.reverse⟩
  have hl : BringUp.Layout core 2 config m :=
    (BringUp.initCluster_layout (fun _ _ _ _ he => Nat.add_left_cancel he) List.reverse_perm
      (rfl : BringUp.initCluster core 2 config bringUp = .ok m) rfl).2.2
  have hrep : ∀ j ∈ env.poolOrder m.slavePool, ∀ l, env.ecoInfoList j = some l → ∀ x ∈ l,
      0 < x.branch ∧ 0 < x.difficulty ∧ ∃ s < 2, core.create 2 s = x.branch := by
    intro j hj l hl x hx
    cases hl
    rw [List.mem_singleton] at hx
    subst hx
    have hj2 : j < 2 := by
      simp only [env, m, id, List.mem_cons, List.mem_singleton, List.not_mem_nil, or_false] at hj
      omega
    exact ⟨show 0 < 2 + j by omega, Nat.one_pos, j, hj2, rfl⟩
  exact ⟨hl, Nat.one_pos, hrep, Layout.getNextBlockToMine_unmasked hl Nat.one_pos hrep true _⟩

end Active

/-- A two-shard cluster brought up with one slave per shard, masks 2 and 3, each reporting its
    own branch; `ShardMask` as `quarkchain.core` reads values below 8: the bits below the leading
    one fix the low bits of a shard id. A request with mask 6 (shard ids 2 mod 4) overlaps slave
    0's mask 2, so slave 0 is asked, but its branch 2 (shard 0) is not in the mask: the loop ends
    with no winner and the request raises, whatever `addressInBranch(Branch(None))` does, instead
    of returning `(None, None)`. -/
theorem overlapping_mask_request_raises :
    let config : List SlaveInfo := [⟨"s0", [2]⟩, ⟨"s1", [3]⟩]
    let bits : ℕ → ℕ := fun v => if v < 2 then 0 else if v < 4 then 1 else 2
    let core : Core := ⟨fun size s => size + s, fun b => b % 2, fun _ => 2,
      fun mask s => s % 2 ^ bits mask == mask % 2 ^ bits mask,
      fun mask b => b % 2 % 2 ^ bits mask == mask % 2 ^ bits mask,
      fun mask other => mask % 2 ^ min (bits mask) (bits other) ==
        other % 2 ^ min (bits mask) (bits other)⟩
    let bringUp : BringUp.Env := ⟨fun i => if i = 0 then ("s0", [2]) else ("s1", [3]),
      fun _ => ["", ""], fun _ => false, id⟩
    let m : Master := ⟨[(2, [0]), (3, [1])], [0, 1], .result, .pending⟩
    let env : Option PyError → MiningEnv Unit Unit Unit := fun a =>
      ⟨fun j => some [⟨2 + j, 1, 2, 1, 0⟩], fun _ => some [], fun _ _ => some (), 1, fun _ => (),
        id, a⟩
    BringUp.initCluster core 2 config bringUp = .ok m ∧ m.clusterActiveFuture = .result ∧
      ∀ (a : Option PyError) (u : Draws),
        getNextBlockToMine core 2 1 config (env a) m 6 true u = .error (a.getD .keyError) :=
  ⟨rfl, rfl, fun _ _ => rfl⟩

end QuarkChain.Mining
