import QuarkChain.Mining

set_option autoImplicit false

/-!
# The root path: `__createRootBlockToMineOrFallbackToMinorBlock`

The master asks every slave of `slavePool` for its unconfirmed headers, keeps for each shard id
the header list of the last `headersInfo` it meets, and mines a root block over them when every
shard has `PROOF_OF_PROGRESS_BLOCKS` headers; otherwise it falls back to a minor block of the
first shard that has fewer. Here the merge is read off the replies themselves: which replies end
it, and which header list each shard gets.
-/

namespace QuarkChain.Mining

open BringUp (Master getSlaveConnection)

variable {β η ρ : Type}

/-- A reply that ends the merge with `(None, None)`: a non-zero `errorCode`, or a `headersInfo`
    whose branch has another shard size. -/
def failedReply (core : Core) (shardSize : ℕ) : Option (List (ℕ × List η)) → Bool
  | none => true
  | some headersInfoList => headersInfoList.any fun x => core.getShardSize x.1 != shardSize

def headersInfos (replies : List (Option (List (ℕ × List η)))) : List (ℕ × List η) :=
  replies.flatMap (·.getD [])

/-- `L[s]`: the header list of the last `headersInfo` for shard `s` in reply order, `[]` if
    there is none. -/
def lastHeaders (core : Core) (replies : List (Option (List (ℕ × List η)))) (s : ℕ) : List η :=
  (((headersInfos replies).reverse.find? (core.getShardId ·.1 = s)).map (·.2)).getD []

section Merge
variable (core : Core) (shardSize : ℕ) (replies : List (Option (List (ℕ × List η))))

theorem mergeHeaders_eq : mergeHeaders core shardSize replies =
    if replies.any (failedReply core shardSize) then none
    else some ((headersInfos replies).foldl
      (fun d x => PyDict.set d (core.getShardId x.1) x.2) []) := by
  unfold mergeHeaders
  rw [foldlM_stop_or none (fun _ => rfl) (failedReply core shardSize)
    (fun d reply => (reply.getD []).foldl (fun d x => PyDict.set d (core.getShardId x.1) x.2) d)]
  · simp only [headersInfos, List.flatMap, List.foldl_flatten, List.foldl_map]
    rfl
  · intro d reply
    cases reply with
    | none => rfl
    | some l =>
      refine foldlM_stop_or none (fun _ => rfl) _ _ (fun d x => ?_) l d
      by_cases hx : core.getShardSize x.1 = shardSize <;> simp [hx]

theorem headersOf_foldl (s : ℕ) : headersOf ((headersInfos replies).foldl
    (fun d x => PyDict.set d (core.getShardId x.1) x.2) []) s = lastHeaders core replies s := by
  simp only [headersOf, lastHeaders, PyDict.get?_foldl_set, PyDict.get?_nil, Option.or_none]

end Merge

/-- `__createRootBlockToMineOrFallbackToMinorBlock` by its replies,
    `pool.map env.headersInfoList`. -/
theorem createRoot_eq (core : Core) (shardSize proofOfProgressBlocks : ℕ) (env : MiningEnv β η ρ)
    (m : Master) (pool : List ℕ) :
    createRootBlockToMineOrFallbackToMinorBlock core shardSize proofOfProgressBlocks env m pool =
      if (pool.map env.headersInfoList).any (failedReply core shardSize) then .ok .none
      else match (List.range shardSize).find? fun s =>
          (lastHeaders core (pool.map env.headersInfoList) s).length < proofOfProgressBlocks with
        | some shardId =>
          minorOrNone <$> getMinorBlockToMine env m (some (core.create shardSize shardId))
        | none => .ok (.root (env.createBlockToMine ((List.range shardSize).flatMap
            (lastHeaders core (pool.map env.headersInfoList))))) := by
  unfold createRootBlockToMineOrFallbackToMinorBlock
  rw [mergeHeaders_eq]
  split_ifs
  · rfl
  · exact funext (headersOf_foldl core (pool.map env.headersInfoList)) ▸ rfl

theorem minorOrNone_map_ne_root (x : Except PyError (Option β)) (b : ρ) :
    minorOrNone <$> x ≠ .ok (.root b) := by
  rcases x with e | _ | block <;> simp [Functor.map, Except.map, minorOrNone]

section Outcomes
variable {core : Core} {shardSize proofOfProgressBlocks : ℕ} {env : MiningEnv β η ρ} {m : Master}
  {pool : List ℕ}

theorem createRoot_of_failed
    (hf : ∃ reply ∈ pool.map env.headersInfoList, failedReply core shardSize reply = true) :
    createRootBlockToMineOrFallbackToMinorBlock core shardSize proofOfProgressBlocks env m pool =
      .ok .none := by
  rw [createRoot_eq, if_pos (List.any_eq_true.mpr hf)]

theorem not_any_failedReply {replies : List (Option (List (ℕ × List η)))}
    (hok : ∀ reply ∈ replies, failedReply core shardSize reply = false) :
    ¬ replies.any (failedReply core shardSize) = true := fun h => by
  obtain ⟨reply, hr, hf⟩ := List.any_eq_true.mp h
  rw [hok reply hr] at hf
  cases hf

section Answered
variable (hok : ∀ reply ∈ pool.map env.headersInfoList, failedReply core shardSize reply = false)
include hok

theorem createRoot_of_progress (hall : ∀ s < shardSize,
      proofOfProgressBlocks ≤ (lastHeaders core (pool.map env.headersInfoList) s).length) :
    createRootBlockToMineOrFallbackToMinorBlock core shardSize proofOfProgressBlocks env m pool =
      .ok (.root (env.createBlockToMine
        ((List.range shardSize).flatMap (lastHeaders core (pool.map env.headersInfoList))))) := by
  rw [createRoot_eq, if_neg (not_any_failedReply hok),
    List.find?_range_eq_none.mpr fun s hs => by simpa using hall s hs]

theorem createRoot_of_short {s : ℕ} (hs : s < shardSize)
    (hshort : (lastHeaders core (pool.map env.headersInfoList) s).length < proofOfProgressBlocks)
    (hmin : ∀ t < s,
      proofOfProgressBlocks ≤ (lastHeaders core (pool.map env.headersInfoList) t).length) :
    createRootBlockToMineOrFallbackToMinorBlock core shardSize proofOfProgressBlocks env m pool =
      minorOrNone <$> getMinorBlockToMine env m (some (core.create shardSize s)) := by
  rw [createRoot_eq, if_neg (not_any_failedReply hok), List.find?_range_eq_some.mpr
    ⟨by simpa using hshort, List.mem_range.mpr hs, fun t ht => by simpa using hmin t ht⟩]

theorem progress_of_createRoot_root {b : ρ}
    (h : createRootBlockToMineOrFallbackToMinorBlock core shardSize proofOfProgressBlocks env m
      pool = .ok (.root b)) :
    ∀ s < shardSize,
      proofOfProgressBlocks ≤ (lastHeaders core (pool.map env.headersInfoList) s).length := by
  rw [createRoot_eq, if_neg (not_any_failedReply hok)] at h
  split at h
  · exact absurd h (minorOrNone_map_ne_root _ _)
  · rename_i hnone
    exact fun s hs => by simpa using List.find?_range_eq_none.mp hnone s hs

/-- On a cluster whose bring-up left `Layout`, the fallback asks the first configured slave that
    runs the first short shard, and raises nothing. -/
theorem Layout.createRoot_fallback {config : List SlaveInfo}
    (hl : BringUp.Layout core shardSize config m) {s : ℕ} (hs : s < shardSize)
    (hshort : (lastHeaders core (pool.map env.headersInfoList) s).length < proofOfProgressBlocks)
    (hmin : ∀ t < s,
      proofOfProgressBlocks ≤ (lastHeaders core (pool.map env.headersInfoList) t).length) :
    ∃ j rest, BringUp.servers core s 0 config = j :: rest ∧
      createRootBlockToMineOrFallbackToMinorBlock core shardSize proofOfProgressBlocks env m pool =
        .ok (minorOrNone (env.nextBlock j (core.create shardSize s))) := by
  obtain ⟨j, rest, he, hj⟩ := Layout.getMinorBlockToMine_create hl env hs
  refine ⟨j, rest, he, ?_⟩
  rw [createRoot_of_short hok hs hshort hmin, hj]
  rfl

end Answered

theorem short_shard_falls_back :
    let core : Core := ⟨fun size s => size + s, fun b => b % 2, fun _ => 2,
      fun mask s => mask == 1 || mask == 2 + s, fun _ _ => true, fun _ _ => true⟩
    let config : List SlaveInfo := [⟨"s0", [2]⟩, ⟨"s1", [3]⟩]
    let m : Master := ⟨[(2, [0]), (3, [1])], [0, 1], .result, .pending⟩
    let env : MiningEnv Unit Unit Unit := ⟨fun _ => some [], fun j => some [(2 + j, [])],
      fun _ _ => some (), 1, fun _ => (), id, none⟩
    (∀ reply ∈ [0, 1].map env.headersInfoList, failedReply core 2 reply = false) ∧
      BringUp.Layout core 2 config m ∧
      (lastHeaders core ([0, 1].map env.headersInfoList) 0).length < 1 ∧
      (∀ t < 0, 1 ≤ (lastHeaders core ([0, 1].map env.headersInfoList) t).length) ∧
      ∃ j rest, BringUp.servers core 0 0 config = j :: rest ∧
        createRootBlockToMineOrFallbackToMinorBlock core 2 1 env m [0, 1] =
          .ok (minorOrNone (env.nextBlock j (core.create 2 0))) := by
  intro core config m env
  let bringUp : BringUp.Env := ⟨fun i => if i = 0 then ("s0", [2]) else ("s1", [3]),
    fun _ => ["", ""], fun _ => false, List.reverse⟩
  have hl : BringUp.Layout core 2 config m :=
    (BringUp.initCluster_layout (fun _ _ _ _ he => Nat.add_left_cancel he) List.reverse_perm
      (rfl : BringUp.initCluster core 2 config bringUp = .ok m) rfl).2.2
  have hok : ∀ reply ∈ [0, 1].map env.headersInfoList, failedReply core 2 reply = false := by
    decide
  have hshort : (lastHeaders core ([0, 1].map env.headersInfoList) 0).length < 1 := by decide
  have hmin : ∀ t < 0, 1 ≤ (lastHeaders core ([0, 1].map env.headersInfoList) t).length :=
    fun _ ht => absurd ht (Nat.not_lt_zero _)
  exact ⟨hok, hl, hshort, hmin, Layout.createRoot_fallback hok hl Nat.two_pos hshort hmin⟩

end Outcomes

theorem minorOrNone_getMinorBlockToMine_eq (env : MiningEnv β η ρ) (m : Master) (v : ℕ) :
    let r : Except PyError (BlockToMine β ρ) := minorOrNone <$> getMinorBlockToMine env m (some v)
    (∀ j rest, PyDict.get? m.branchToSlaves v = some (j :: rest) →
      (∀ block, env.nextBlock j v = some block → r = .ok (.minor block)) ∧
      (env.nextBlock j v = none → r = .ok .none)) ∧
    (PyDict.get? m.branchToSlaves v = none → r = .error .keyError) ∧
    (PyDict.get? m.branchToSlaves v = some [] → r = .error .checkFailed) := by
  refine ⟨fun j rest he => ⟨fun block hb => ?_, fun hb => ?_⟩, fun he => ?_, fun he => ?_⟩
  all_goals simp [getMinorBlockToMine, getSlaveConnection, he, bind, Except.bind, pure,
    Except.pure, Functor.map, Except.map, minorOrNone, *]

/-- `__createRootBlockToMineOrFallbackToMinorBlock` by its replies: a failed reply or a branch of
    another shard size gives `(None, None)`; otherwise the root block over the shards' last
    header lists, in shard order, is mined exactly when every shard has
    `PROOF_OF_PROGRESS_BLOCKS` of them, and else a minor block of the first shard that has fewer
    is asked of the first slave `branchToSlaves` lists for it: `(False, block)` when it returns
    `block`, `(None, None)` when it returns none, and `getSlaveConnection`'s exception when the
    shard has no entry or an empty one. -/
theorem root_or_fallback_by_replies (core : Core) (shardSize proofOfProgressBlocks : ℕ)
    (env : MiningEnv β η ρ) (m : Master) (pool : List ℕ) :
    let replies := pool.map env.headersInfoList
    let r := createRootBlockToMineOrFallbackToMinorBlock core shardSize proofOfProgressBlocks env
      m pool
    ((∃ reply ∈ replies, failedReply core shardSize reply = true) → r = .ok .none) ∧
    ((∀ reply ∈ replies, failedReply core shardSize reply = false) →
      (r = .ok (.root (env.createBlockToMine
          ((List.range shardSize).flatMap (lastHeaders core replies)))) ↔
        ∀ s < shardSize, proofOfProgressBlocks ≤ (lastHeaders core replies s).length) ∧
      ∀ s < shardSize, (lastHeaders core replies s).length < proofOfProgressBlocks →
        (∀ t < s, proofOfProgressBlocks ≤ (lastHeaders core replies t).length) →
        (∀ j rest, PyDict.get? m.branchToSlaves (core.create shardSize s) = some (j :: rest) →
          (∀ block, env.nextBlock j (core.create shardSize s) = some block →
            r = .ok (.minor block)) ∧
          (env.nextBlock j (core.create shardSize s) = none → r = .ok .none)) ∧
        (PyDict.get? m.branchToSlaves (core.create shardSize s) = none → r = .error .keyError) ∧
        (PyDict.get? m.branchToSlaves (core.create shardSize s) = some [] →
          r = .error .checkFailed)) := by
  refine ⟨createRoot_of_failed, fun hok => ⟨⟨progress_of_createRoot_root hok,
    createRoot_of_progress hok⟩, fun s hs hshort hmin => ?_⟩⟩
  simp only [createRoot_of_short hok hs hshort hmin]
  exact minorOrNone_getMinorBlockToMine_eq env m _

end QuarkChain.Mining
