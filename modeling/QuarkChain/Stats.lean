import QuarkChain.Core
import Mathlib.Algebra.Order.Ring.Nat
import Mathlib.Data.Finset.Card

set_option autoImplicit false

/-!
# `getStats`

The master asks every slave of `slavePool` for its `ShardStats`, keys them by branch value
(the last report of a branch wins), checks that it holds `SHARD_SIZE` of them, and writes each
into the entry of its shard id. The count check counts branch values, not shard ids: a report of
a branch of another shard size passes it and leaves a shard's entry empty. When every branch
reported has the cluster's shard size, as `__createRootBlockToMineOrFallbackToMinorBlock`
checks of its own replies, each shard holds the stats of its own branch and the total is the
sum over the shards.
-/

namespace QuarkChain.Stats

structure ShardStats where
  branch : ℕ
  height : ℕ
  txCount60s : ℕ
  deriving DecidableEq, Repr

structure GetStatsResponse where
  errorCode : ℕ
  shardStatsList : List ShardStats
  deriving DecidableEq, Repr

structure ShardSummary where
  height : ℕ
  txCount60s : ℕ
  deriving DecidableEq, Repr

/-- What `getStats` returns; the dict of a shard that no report wrote stays empty (`none`). -/
structure ClusterStats where
  shardSize : ℕ
  rootHeight : ℕ
  txCount60s : ℕ
  shards : List (Option ShardSummary)
  deriving DecidableEq, Repr

/-- `branchValueToShardStats` from the responses, or `checkFailed` at a non-zero `errorCode`. -/
def mergeShardStats (responses : List GetStatsResponse) :
    Except PyError (List (ℕ × ShardStats)) :=
  responses.foldlM (fun d resp =>
    if resp.errorCode ≠ 0 then .error .checkFailed
    else .ok (resp.shardStatsList.foldl (fun d shardStats =>
      PyDict.set d shardStats.branch shardStats) d)) []

/-- `shards[shardId]["height"] = ...` and `shards[shardId]["txCount60s"] = ...`. -/
def writeShard (core : Core) (shards : List (Option ShardSummary)) (shardStats : ShardStats) :
    Except PyError (List (Option ShardSummary)) :=
  if core.getShardId shardStats.branch < shards.length then
    .ok (shards.set (core.getShardId shardStats.branch)
      (some ⟨shardStats.height, shardStats.txCount60s⟩))
  else .error .indexError

/-- `getStats()` on the replies of `slavePool`, in its order; `rootHeight` is
    `rootState.tip.height`. -/
def getStats (core : Core) (shardSize rootHeight : ℕ) (responses : List GetStatsResponse) :
    Except PyError ClusterStats := do
  let branchValueToShardStats ← mergeShardStats responses
  -- check we have stats from all shards
  if branchValueToShardStats.length ≠ shardSize then throw .checkFailed
  let shards ← branchValueToShardStats.foldlM (fun shards x => writeShard core shards x.2)
    (List.replicate shardSize none)
  let txCount60s := (branchValueToShardStats.map (·.2.txCount60s)).sum
  return ⟨shardSize, rootHeight, txCount60s, shards⟩

/-- A two-shard cluster whose slave also reports branch 4, of shard size 4 and shard id 0: the
    two branch values pass the count check, shard 1's dict stays empty, and `txCount60s` counts
    both reports while the shards hold one. -/
theorem foreign_branch_leaves_shard_empty :
    let core : Core := ⟨fun size s => size + s, fun b => if b < 4 then b - 2 else b - 4,
      fun b => if b < 4 then 2 else 4, fun mask s => mask == 1 || mask == 2 + s,
      fun mask b => mask == 1 || mask == b,
      fun mask other => mask == 1 || other == 1 || mask == other⟩
    getStats core 2 0 [⟨0, [⟨2, 5, 1⟩, ⟨4, 7, 3⟩]⟩] = .ok ⟨2, 0, 4, [some ⟨7, 3⟩, none]⟩ := rfl

def txCountOf : Option ShardSummary → ℕ
  | none => 0
  | some summary => summary.txCount60s

section Spec
variable {core : Core}

theorem mergeShardStats_eq (responses : List GetStatsResponse) :
    mergeShardStats responses =
      if responses.any (·.errorCode != 0) then .error .checkFailed
      else .ok ((responses.flatMap (·.shardStatsList)).foldl
        (fun d shardStats => PyDict.set d shardStats.branch shardStats) []) := by
  unfold mergeShardStats
  rw [foldlM_stop_or (.error .checkFailed) (fun _ => rfl) (·.errorCode != 0) (fun d resp =>
    resp.shardStatsList.foldl (fun d shardStats => PyDict.set d shardStats.branch shardStats) d)]
  · simp only [List.flatMap, List.foldl_flatten, List.foldl_map]
    rfl
  · intro d resp
    by_cases h : resp.errorCode = 0 <;> simp [h, pure, Except.pure]

theorem mergeShardStats_ok {responses : List GetStatsResponse} {d : List (ℕ × ShardStats)}
    (h : mergeShardStats responses = .ok d) : (d.map Prod.fst).Nodup ∧
      ∀ p ∈ d, p.1 = p.2.branch ∧ ∃ resp ∈ responses, p.2 ∈ resp.shardStatsList := by
  rw [mergeShardStats_eq] at h
  split_ifs at h
  cases h
  refine ⟨PyDict.nodup_keys_foldl_set _ _ _ List.nodup_nil, fun p hp => ?_⟩
  rcases PyDict.mem_foldl_set hp with h0 | ⟨hk, hl⟩
  exacts [absurd h0 (List.not_mem_nil _), ⟨hk, List.mem_flatMap.mp hl⟩]

end Spec

def writes (core : Core) (l : List (ℕ × ShardStats)) (shards : List (Option ShardSummary)) :
    List (Option ShardSummary) :=
  l.foldl (fun shards x => shards.set (core.getShardId x.2.branch)
    (some ⟨x.2.height, x.2.txCount60s⟩)) shards

section Writes
variable (core : Core)

theorem foldlM_writeShard (l : List (ℕ × ShardStats)) (shards : List (Option ShardSummary))
    (hl : ∀ x ∈ l, core.getShardId x.2.branch < shards.length) :
    l.foldlM (fun shards x => writeShard core shards x.2) shards = .ok (writes core l shards) := by
  induction l generalizing shards with
  | nil => rfl
  | cons x l ih =>
    rw [List.foldlM_cons, writeShard, if_pos (hl x (List.mem_cons_self _ _))]
    exact ih _ fun y hy => (List.length_set ..).symm ▸ hl y (List.mem_cons_of_mem _ hy)

theorem writes_other {l : List (ℕ × ShardStats)} {shards : List (Option ShardSummary)} {i : ℕ}
    (hl : ∀ x ∈ l, core.getShardId x.2.branch ≠ i) : (writes core l shards)[i]? = shards[i]? := by
  induction l generalizing shards with
  | nil => rfl
  | cons x l ih =>
    rw [writes, List.foldl_cons, ← writes, ih fun y hy => hl y (List.mem_cons_of_mem _ hy),
      List.getElem?_set_ne (hl x (List.mem_cons_self _ _))]

theorem writes_of_mem {l : List (ℕ × ShardStats)}
    (hnd : (l.map (core.getShardId ·.2.branch)).Nodup) {shards : List (Option ShardSummary)}
    {x : ℕ × ShardStats} (hx : x ∈ l) (hlt : core.getShardId x.2.branch < shards.length) :
    (writes core l shards)[core.getShardId x.2.branch]? =
      some (some ⟨x.2.height, x.2.txCount60s⟩) := by
  induction l generalizing shards with
  | nil => cases hx
  | cons y l ih =>
    rw [List.map_cons, List.nodup_cons] at hnd
    rw [writes, List.foldl_cons, ← writes]
    rcases List.mem_cons.mp hx with rfl | hx
    · rw [writes_other core (i := core.getShardId x.2.branch)
        fun z hz he => hnd.1 (he ▸ List.mem_map_of_mem _ hz), List.getElem?_set_self hlt]
    · exact ih hnd.2 hx ((List.length_set ..).symm ▸ hlt)

theorem sum_set_none : ∀ (shards : List (Option ShardSummary)) (i : ℕ) (summary : ShardSummary),
    shards[i]? = some none →
      ((shards.set i (some summary)).map txCountOf).sum =
        (shards.map txCountOf).sum + summary.txCount60s
  | [], _, _, h => by simp at h
  | _ :: _, 0, _, h => by
    cases List.getElem?_cons_zero ▸ h
    simp [txCountOf, Nat.add_comm]
  | _ :: shards, i + 1, summary, h => by
    simp only [List.set_cons_succ, List.map_cons, List.sum_cons,
      sum_set_none shards i summary (by simpa using h), Nat.add_assoc]

theorem sum_writes {l : List (ℕ × ShardStats)} (hnd : (l.map (core.getShardId ·.2.branch)).Nodup)
    {shards : List (Option ShardSummary)}
    (hempty : ∀ x ∈ l, shards[core.getShardId x.2.branch]? = some none) :
    ((writes core l shards).map txCountOf).sum =
      (shards.map txCountOf).sum + (l.map (·.2.txCount60s)).sum := by
  induction l generalizing shards with
  | nil => simp [writes]
  | cons x l ih =>
    rw [List.map_cons, List.nodup_cons] at hnd
    rw [writes, List.foldl_cons, ← writes, ih hnd.2 fun y hy => ?_,
      sum_set_none _ _ _ (hempty x (List.mem_cons_self _ _)), List.map_cons, List.sum_cons,
      Nat.add_assoc]
    have hne : core.getShardId x.2.branch ≠ core.getShardId y.2.branch := fun he =>
      hnd.1 (he ▸ List.mem_map_of_mem _ hy)
    rw [List.getElem?_set_ne hne]
    exact hempty y (List.mem_cons_of_mem _ hy)

end Writes

theorem mem_of_nodup_of_lt {l : List ℕ} (hnd : l.Nodup) (hlt : ∀ a ∈ l, a < l.length) {i : ℕ}
    (hi : i < l.length) : i ∈ l := by
  have : l.toFinset = Finset.range l.length :=
    Finset.eq_of_subset_of_card_le
      (fun a ha => Finset.mem_range.mpr (hlt a (List.mem_toFinset.mp ha)))
      (by rw [Finset.card_range, List.toFinset_card_of_nodup hnd])
  exact List.mem_toFinset.mp (this ▸ Finset.mem_range.mpr hi)

theorem length_of_nodup_of_covers {l : List ℕ} {n : ℕ} (hnd : l.Nodup) (hlt : ∀ a ∈ l, a < n)
    (hcov : ∀ i < n, i ∈ l) : l.length = n := by
  have : l.toFinset = Finset.range n := Finset.ext fun a => by
    rw [List.mem_toFinset, Finset.mem_range]
    exact ⟨hlt a, hcov a⟩
  rw [← List.toFinset_card_of_nodup hnd, this, Finset.card_range]

theorem branch_mem_merged {l : List ShardStats} {x : ShardStats} (hx : x ∈ l) :
    x.branch ∈ (l.foldl (fun d shardStats => PyDict.set d shardStats.branch shardStats) []).map
      Prod.fst := by
  by_contra hn
  rw [← PyDict.get?_eq_none_iff, PyDict.get?_foldl_set, PyDict.get?_nil, Option.or_none,
    Option.map_eq_none', List.find?_eq_none] at hn
  exact hn x (List.mem_reverse.mpr hx) (by simp)

/-- A `getStats` that returns passed both checks and wrote every report. -/
theorem getStats_ok {core : Core} {shardSize rootHeight : ℕ} {responses : List GetStatsResponse}
    {stats : ClusterStats} (h : getStats core shardSize rootHeight responses = .ok stats) :
    ∃ d, mergeShardStats responses = .ok d ∧ d.length = shardSize ∧
      d.foldlM (fun shards x => writeShard core shards x.2) (List.replicate shardSize none) =
        .ok stats.shards ∧ stats.txCount60s = (d.map (·.2.txCount60s)).sum := by
  unfold getStats at h
  cases hm : mergeShardStats responses with
  | error e => rw [hm] at h; cases h
  | ok d =>
    rw [hm] at h
    by_cases hl : d.length = shardSize
    · cases hw : d.foldlM (fun shards x => writeShard core shards x.2)
          (List.replicate shardSize none) with
      | error e => simp [hl, hw, bind, Except.bind, pure, Except.pure] at h
      | ok shards =>
        simp only [hl, hw, bind, Except.bind, pure, Except.pure, ne_eq, not_true_eq_false,
          if_false, Except.ok.injEq] at h
        subst h
        exact ⟨d, rfl, hl, hw, rfl⟩
    · simp [hl, bind, Except.bind, throw, throwThe, MonadExceptOf.throw] at h

section Sized
variable {core : Core} {shardSize rootHeight : ℕ} {responses : List GetStatsResponse}
  (hbranch : ∀ b, core.getShardSize b = shardSize →
    core.getShardId b < shardSize ∧ core.create shardSize (core.getShardId b) = b)
include hbranch

theorem nodup_shardIds {d : List (ℕ × ShardStats)} (hkeys : (d.map (·.2.branch)).Nodup)
    (hsized : ∀ p ∈ d, core.getShardSize p.2.branch = shardSize) :
    (d.map (core.getShardId ·.2.branch)).Nodup := by
  have hinj := hkeys.map_on (f := core.getShardId) fun a ha b hb he => by
    obtain ⟨p, hp, rfl⟩ := List.mem_map.mp ha
    obtain ⟨q, hq, rfl⟩ := List.mem_map.mp hb
    rw [← (hbranch _ (hsized p hp)).2, he, (hbranch _ (hsized q hq)).2]
  rwa [List.map_map] at hinj

variable (hsize : ∀ resp ∈ responses, ∀ x ∈ resp.shardStatsList,
  core.getShardSize x.branch = shardSize)
include hsize

theorem merged_sized {d : List (ℕ × ShardStats)} (hm : mergeShardStats responses = .ok d) :
    (∀ p ∈ d, core.getShardSize p.2.branch = shardSize) ∧
      (d.map (core.getShardId ·.2.branch)).Nodup := by
  obtain ⟨hkeys, hmem⟩ := mergeShardStats_ok hm
  have hsized : ∀ p ∈ d, core.getShardSize p.2.branch = shardSize := fun p hp =>
    let ⟨_, resp, hr, hx⟩ := hmem p hp
    hsize resp hr _ hx
  exact ⟨hsized,
    nodup_shardIds hbranch ((List.map_congr_left fun p hp => (hmem p hp).1) ▸ hkeys) hsized⟩

theorem merged_covers {d : List (ℕ × ShardStats)} (hm : mergeShardStats responses = .ok d)
    (hlen : d.length = shardSize) : ∀ i < shardSize, ∃ p ∈ d, core.getShardId p.2.branch = i := by
  obtain ⟨hsized, hids⟩ := merged_sized hbranch hsize hm
  intro i hi
  exact List.mem_map.mp (mem_of_nodup_of_lt hids
    (List.forall_mem_map.mpr fun p hp => by simpa [hlen] using (hbranch _ (hsized p hp)).1)
    (by simpa [hlen] using hi))

/-- When every reported branch has the cluster's shard size, a `getStats` that returns holds in
    each shard's entry the stats of a report of that shard's branch, and its `txCount60s` is the
    sum over the shards. -/
theorem getStats_of_sized {stats : ClusterStats}
    (h : getStats core shardSize rootHeight responses = .ok stats) :
    (∀ i < shardSize, ∃ resp ∈ responses, ∃ x ∈ resp.shardStatsList,
      x.branch = core.create shardSize i ∧
        stats.shards[i]? = some (some ⟨x.height, x.txCount60s⟩)) ∧
    stats.txCount60s = (stats.shards.map txCountOf).sum := by
  obtain ⟨d, hm, hlen, hw, htx⟩ := getStats_ok h
  obtain ⟨hsized, hids⟩ := merged_sized hbranch hsize hm
  have hlt : ∀ p ∈ d, core.getShardId p.2.branch < shardSize := fun p hp =>
    (hbranch _ (hsized p hp)).1
  rw [foldlM_writeShard core d _ fun p hp => (List.length_replicate ..).symm ▸ hlt p hp,
    Except.ok.injEq] at hw
  refine ⟨fun i hi => ?_, ?_⟩
  · obtain ⟨p, hp, hpi⟩ := merged_covers hbranch hsize hm hlen i hi
    obtain ⟨-, resp, hr, hx⟩ := (mergeShardStats_ok hm).2 p hp
    refine ⟨resp, hr, p.2, hx, by rw [← hpi, (hbranch _ (hsized p hp)).2], ?_⟩
    rw [← hw, ← hpi, writes_of_mem core hids hp (by simpa using hlt p hp)]
  · rw [htx, ← hw, sum_writes core hids fun p hp => List.getElem?_replicate_of_lt (hlt p hp)]
    simp [txCountOf]

/-- When every reported branch has the cluster's shard size, `getStats` returns normally exactly
    when every response has `errorCode` 0 and every shard id is reported. -/
theorem getStats_returns_iff :
    (∃ stats, getStats core shardSize rootHeight responses = .ok stats) ↔
      (∀ resp ∈ responses, resp.errorCode = 0) ∧
        ∀ i < shardSize, ∃ resp ∈ responses, ∃ x ∈ resp.shardStatsList,
          core.getShardId x.branch = i := by
  constructor
  · rintro ⟨stats, h⟩
    obtain ⟨d, hm, hlen, -, -⟩ := getStats_ok h
    have hany : responses.any (·.errorCode != 0) = false := by
      cases hany : responses.any (·.errorCode != 0)
      · rfl
      · simp [mergeShardStats_eq, hany] at hm
    refine ⟨fun resp hr => by simpa using List.any_eq_false.mp hany resp hr, fun i hi => ?_⟩
    obtain ⟨p, hp, hpi⟩ := merged_covers hbranch hsize hm hlen i hi
    obtain ⟨-, resp, hr, hx⟩ := (mergeShardStats_ok hm).2 p hp
    exact ⟨resp, hr, p.2, hx, hpi⟩
  · rintro ⟨hok, hcov⟩
    have hnone : responses.any (·.errorCode != 0) = false :=
      List.any_eq_false.mpr fun resp hr => by simp [hok resp hr]
    set d := (responses.flatMap (·.shardStatsList)).foldl
      (fun d shardStats => PyDict.set d shardStats.branch shardStats) [] with hd
    have hm : mergeShardStats responses = .ok d := by rw [mergeShardStats_eq, hnone]; rfl
    obtain ⟨hsized, hids⟩ := merged_sized hbranch hsize hm
    have hlt : ∀ p ∈ d, core.getShardId p.2.branch < shardSize := fun p hp =>
      (hbranch _ (hsized p hp)).1
    have hlen : d.length = shardSize := by
      refine List.length_map d _ ▸ length_of_nodup_of_covers hids
        (List.forall_mem_map.mpr hlt) fun i hi => ?_
      obtain ⟨resp, hr, x, hx, hxi⟩ := hcov i hi
      obtain ⟨p, hp, hpx⟩ := List.mem_map.mp
        (branch_mem_merged (List.mem_flatMap.mpr ⟨resp, hr, hx⟩))
      exact List.mem_map.mpr ⟨p, hp, by rw [← hxi, ← hpx, ((mergeShardStats_ok hm).2 p hp).1]⟩
    have hw := foldlM_writeShard core d (List.replicate shardSize none) fun p hp =>
      (List.length_replicate ..).symm ▸ hlt p hp
    unfold getStats
    simp only [hm, hlen, hw, bind, Except.bind, pure, Except.pure, ne_eq, not_true_eq_false,
      if_false]
    exact ⟨_, rfl⟩

end Sized

/-- A branch encoding for a two-shard cluster, whose one slave reports both shards. -/
theorem both_shards_reported :
    let core : Core := ⟨fun size s => size + s, fun b => b - 2,
      fun b => if b = 2 ∨ b = 3 then 2 else 0, fun _ _ => true, fun _ _ => true, fun _ _ => true⟩
    let responses : List GetStatsResponse := [⟨0, [⟨2, 5, 1⟩, ⟨3, 7, 3⟩]⟩]
    let stats : ClusterStats := ⟨2, 0, 4, [some ⟨5, 1⟩, some ⟨7, 3⟩]⟩
    (∀ b, core.getShardSize b = 2 → core.getShardId b < 2 ∧ core.create 2 (core.getShardId b) = b) ∧
      (∀ resp ∈ responses, ∀ x ∈ resp.shardStatsList, core.getShardSize x.branch = 2) ∧
      getStats core 2 0 responses = .ok stats ∧
      (∀ i < 2, ∃ resp ∈ responses, ∃ x ∈ resp.shardStatsList,
        x.branch = core.create 2 i ∧ stats.shards[i]? = some (some ⟨x.height, x.txCount60s⟩)) ∧
      stats.txCount60s = (stats.shards.map txCountOf).sum := by
  intro core responses stats
  have hbranch : ∀ b, core.getShardSize b = 2 →
      core.getShardId b < 2 ∧ core.create 2 (core.getShardId b) = b := by
    intro b hb
    simp only [core] at hb ⊢
    split_ifs at hb with h
    omega
  have hsize : ∀ resp ∈ responses, ∀ x ∈ resp.shardStatsList, core.getShardSize x.branch = 2 := by
    decide
  have h : getStats core 2 0 responses = .ok stats := rfl
  exact ⟨hbranch, hsize, h, getStats_of_sized hbranch hsize h⟩

theorem both_shards_needed :
    let core : Core := ⟨fun size s => size + s, fun b => b - 2,
      fun b => if b = 2 ∨ b = 3 then 2 else 0, fun _ _ => true, fun _ _ => true, fun _ _ => true⟩
    let responses : List GetStatsResponse := [⟨0, [⟨2, 5, 1⟩]⟩, ⟨0, [⟨2, 6, 2⟩]⟩]
    (∀ b, core.getShardSize b = 2 → core.getShardId b < 2 ∧ core.create 2 (core.getShardId b) = b) ∧
      (∀ resp ∈ responses, ∀ x ∈ resp.shardStatsList, core.getShardSize x.branch = 2) ∧
      ((∃ stats, getStats core 2 0 responses = .ok stats) ↔
        (∀ resp ∈ responses, resp.errorCode = 0) ∧
          ∀ i < 2, ∃ resp ∈ responses, ∃ x ∈ resp.shardStatsList,
            core.getShardId x.branch = i) := by
  intro core responses
  have hbranch : ∀ b, core.getShardSize b = 2 →
      core.getShardId b < 2 ∧ core.create 2 (core.getShardId b) = b := by
    intro b hb
    simp only [core] at hb ⊢
    split_ifs at hb with h
    omega
  have hsize : ∀ resp ∈ responses, ∀ x ∈ resp.shardStatsList, core.getShardSize x.branch = 2 := by
    decide
  exact ⟨hbranch, hsize, getStats_returns_iff hbranch hsize⟩

end QuarkChain.Stats
