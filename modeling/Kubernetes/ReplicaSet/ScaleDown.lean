import Mathlib
import Kubernetes.Controller.ActivePods
import Kubernetes.Go.Sort

/-!
# ReplicaSet scale-down: which pods to delete

To scale a ReplicaSet down by `diff`, `getPodsToDelete` ranks the pods by the number of active
related pods on their node, sorts them with `ActivePodsWithRanks` and takes the first `diff`
(`pkg/controller/replicaset/replica_set.go`).  After sorting it reports, for each ready pod
taken, the ratio of its age to that of the youngest ready pod, in whole milliseconds.

Two clocks are read: `metav1.Now()` when the pods are ranked (`rankNow`) and `time.Now()`
when the ratios are reported (`metricNow`).  `sort.Sort` is `Go.sort`, which is what Go runs
on at most 12 pods.  An integer division by zero is a run-time panic, the error of the
`Except`.

The report panics exactly when a ready pod is taken while the youngest ready pod is less than
a millisecond from `time.Now()` (`reportSortingDeletionAgeRatioMetric_eq_error`).  With
`LogarithmicScaleDown`, `Less` is not transitive: pods whose ready times share a logarithmic
scale are ordered by UID whatever else tells them apart, so three pods can each come before
the next (`getPodsToDelete_not_least`).
-/

namespace Kubernetes
namespace ReplicaSet

open Go Kubernetes.Core Controller

/-- `getPodsRankedByRelatedPodsOnSameNode`: each pod with its rank, the number of active
related pods on its node. -/
def getPodsRankedByRelatedPodsOnSameNode (podsToRank relatedPods : List Pod) :
    List (Pod × Int) :=
  podsToRank.map fun pod =>
    (pod, ((relatedPods.filter fun p => isPodActive p && p.nodeName == pod.nodeName).length : Int))
attribute [grind] getPodsRankedByRelatedPodsOnSameNode

/-- `time.Duration.Milliseconds`: whole milliseconds, truncated toward zero. -/
def milliseconds (d : Int) : Int :=
  d.tdiv 1000000
attribute [grind] milliseconds

/-- The first loop of `reportSortingDeletionAgeRatioMetric`: the creation time of the youngest
ready pod, the zero time when no pod is ready. -/
def youngestReadyTime (filteredPods : List Pod) : Int :=
  filteredPods.foldl (fun youngestTime pod =>
    if pod.creationTimestamp > youngestTime ∧ isPodReady pod then pod.creationTimestamp
    else youngestTime) 0
attribute [grind] youngestReadyTime

/-- One turn of the second loop of `reportSortingDeletionAgeRatioMetric`: a pod that is not
ready is skipped, and a ready pod's age is divided by that of the youngest ready pod, which
panics when that is zero. -/
def reportRatio (now youngestTime : Int) (ratios : List Int) (pod : Pod) :
    Except String (List Int) :=
  if !isPodReady pod then pure ratios
  else
    let divisor := milliseconds (timeSub now youngestTime)
    if divisor = 0 then throw "runtime error: integer divide by zero"
    else pure (ratios ++ [(milliseconds (timeSub now pod.creationTimestamp)).tdiv divisor])
attribute [grind] reportRatio

/-- `reportSortingDeletionAgeRatioMetric`: the ratios reported, for each ready pod among the
first `diff`, of its age to that of the youngest ready pod. -/
def reportSortingDeletionAgeRatioMetric (now : Int) (filteredPods : List Pod) (diff : Nat) :
    Except String (List Int) :=
  let youngestTime := youngestReadyTime filteredPods
  (filteredPods.take diff).foldlM (reportRatio now youngestTime) []
attribute [grind] reportSortingDeletionAgeRatioMetric

/-- The pods as `sort.Sort(podsWithRanks)` leaves them: ranked, then sorted in place with
their ranks beside them. -/
def sortPodsForDeletion (gates : FeatureGates) (log2 : Int → Int) (rankNow : Int)
    (filteredPods relatedPods : List Pod) : List Pod :=
  (sort (getPodsRankedByRelatedPodsOnSameNode filteredPods relatedPods) fun a b =>
    ActivePodsWithRanks.less gates log2 rankNow a.1 a.2 b.1 b.2).map Prod.fst
attribute [grind] sortPodsForDeletion

/-- `getPodsToDelete`: the pods to delete, the first `diff` after sorting unless all go. -/
def getPodsToDelete (gates : FeatureGates) (log2 : Int → Int) (rankNow metricNow : Int)
    (filteredPods relatedPods : List Pod) (diff : Nat) : Except String (List Pod) :=
  if diff < filteredPods.length then
    let sorted := sortPodsForDeletion gates log2 rankNow filteredPods relatedPods
    do
      let _ ← reportSortingDeletionAgeRatioMetric metricNow sorted diff
      pure (sorted.take diff)
  else pure (filteredPods.take diff)
attribute [grind] getPodsToDelete

/-! ## The pods chosen -/

@[simp] theorem map_fst_getPodsRankedByRelatedPodsOnSameNode (podsToRank relatedPods : List Pod) :
    (getPodsRankedByRelatedPodsOnSameNode podsToRank relatedPods).map Prod.fst = podsToRank := by
  simp [getPodsRankedByRelatedPodsOnSameNode, Function.comp_def]

/-- The loop of the report returns unless it meets a ready pod while the youngest ready pod
is less than a millisecond from `now`. -/
theorem foldlM_reportRatio_ok (now youngestTime : Int) :
    ∀ (pods : List Pod) (ratios : List Int),
      (∃ r, pods.foldlM (reportRatio now youngestTime) ratios = .ok r) ↔
        (∀ pod ∈ pods, isPodReady pod = false) ∨ milliseconds (timeSub now youngestTime) ≠ 0
  | [], ratios => by simp [pure, Except.pure]
  | pod :: pods, ratios => by
      have ih := foldlM_reportRatio_ok now youngestTime pods
      by_cases hready : isPodReady pod = true
      · by_cases hzero : milliseconds (timeSub now youngestTime) = 0
        · simp [reportRatio, hready, hzero, throw, throwThe, MonadExceptOf.throw, bind,
            Except.bind]
        · simp [reportRatio, hready, hzero, pure, Except.pure, bind, Except.bind, ih]
      · simp [reportRatio, hready, pure, Except.pure, bind, Except.bind, ih]

/-- The report panics exactly when a ready pod is among the first `diff` while the youngest
ready pod is less than a millisecond from `now`. -/
theorem reportSortingDeletionAgeRatioMetric_ok (now : Int) (filteredPods : List Pod)
    (diff : Nat) :
    (∃ r, reportSortingDeletionAgeRatioMetric now filteredPods diff = .ok r) ↔
      (∀ pod ∈ filteredPods.take diff, isPodReady pod = false) ∨
        milliseconds (timeSub now (youngestReadyTime filteredPods)) ≠ 0 :=
  foldlM_reportRatio_ok now _ _ []

/-- A step of the first loop of the report is a maximum over the ready pods. -/
theorem youngest_step (youngestTime : Int) (pod : Pod) :
    (if pod.creationTimestamp > youngestTime ∧ isPodReady pod then pod.creationTimestamp
      else youngestTime) =
      if isPodReady pod then max youngestTime pod.creationTimestamp else youngestTime := by
  by_cases hready : isPodReady pod <;> simp only [hready, and_true, and_false, if_true,
    if_false, Bool.false_eq_true]
  split_ifs with h <;> omega

/-- The youngest ready pod does not depend on the order of the pods. -/
theorem youngestReadyTime_perm {l l' : List Pod} (h : l.Perm l') :
    youngestReadyTime l = youngestReadyTime l' := by
  unfold youngestReadyTime
  refine h.foldl_eq' (fun x _ y _ z => ?_) 0
  simp only [youngest_step]
  by_cases hx : isPodReady x <;> by_cases hy : isPodReady y <;> simp [hx, hy, max_right_comm]

/-- The pods sorted for deletion are the pods given. -/
theorem sortPodsForDeletion_perm (gates : FeatureGates) (log2 : Int → Int) (rankNow : Int)
    (filteredPods relatedPods : List Pod) :
    (sortPodsForDeletion gates log2 rankNow filteredPods relatedPods).Perm filteredPods := by
  have hsort := sliceStable_perm (getPodsRankedByRelatedPodsOnSameNode filteredPods relatedPods)
    fun a b => ActivePodsWithRanks.less gates log2 rankNow a.1 a.2 b.1 b.2
  simpa [sortPodsForDeletion, sort] using hsort.map Prod.fst

/-- What `getPodsToDelete` returns: all the pods it is asked for when `diff` reaches their
number, and otherwise the first `diff` of the sorted pods, unless the report panics. -/
theorem getPodsToDelete_eq_ok {gates : FeatureGates} {log2 : Int → Int}
    {rankNow metricNow : Int} {filteredPods relatedPods chosen : List Pod} {diff : Nat} :
    getPodsToDelete gates log2 rankNow metricNow filteredPods relatedPods diff = .ok chosen ↔
      (filteredPods.length ≤ diff ∧ chosen = filteredPods.take diff) ∨
        (diff < filteredPods.length ∧
          (∃ r, reportSortingDeletionAgeRatioMetric metricNow
            (sortPodsForDeletion gates log2 rankNow filteredPods relatedPods) diff = .ok r) ∧
          chosen = (sortPodsForDeletion gates log2 rankNow filteredPods relatedPods).take diff) := by
  unfold getPodsToDelete
  split_ifs with hlt
  · cases hreport : reportSortingDeletionAgeRatioMetric metricNow
        (sortPodsForDeletion gates log2 rankNow filteredPods relatedPods) diff <;>
      simp [hreport, hlt, bind, Except.bind, pure, Except.pure, eq_comm]
  · simp [hlt, pure, Except.pure, eq_comm, not_lt.mp hlt]

/-! ## Scaling down with `LogarithmicScaleDown` -/

/-- A running pod on `node-1`, created at `createdAt`, ready since `readyAt`, whose container
restarted `restarts` times. -/
def readyPod (uid : String) (createdAt readyAt restarts : Int) : Pod where
  uid := uid
  annotations := []
  creationTimestamp := createdAt
  deletionTimestamp := none
  nodeName := "node-1"
  phase := .running
  conditions := [⟨podReady, .conditionTrue, readyAt⟩]
  containerStatuses := [⟨restarts⟩]
attribute [grind] readyPod

/-- Created at second `1`, ready from second `20`, restarted once. -/
def logPodA : Pod := readyPod "uid-3" 1000000000 20000000000 1
attribute [grind] logPodA

/-- Created at second `1`, ready from second `20`. -/
def logPodB : Pod := readyPod "uid-1" 1000000000 20000000000 0
attribute [grind] logPodB

/-- Created at second `1`, ready from second `30`. -/
def logPodC : Pod := readyPod "uid-2" 1000000000 30000000000 0
attribute [grind] logPodC

/-- With `LogarithmicScaleDown` and `Now` at second `10`, pods ready from second `20` on have
no positive age, so `Less` orders them by UID as soon as their ready times differ.  `a` comes
before `b` by its restart, `b` before `c` and `c` before `a` by their UIDs, whatever
`math.Log2` gives: `Less` is not transitive, and whichever of the three `getPodsToDelete`
deletes, another comes before it.  Two ready pods created at the second the report reads
`time.Now()` make it divide by zero. -/
theorem getPodsToDelete_not_least :
    (∀ log2 : Int → Int,
      ActivePodsWithRanks.less ⟨false, true⟩ log2 10000000000 logPodA 3 logPodB 3 = true ∧
        ActivePodsWithRanks.less ⟨false, true⟩ log2 10000000000 logPodB 3 logPodC 3 = true ∧
        ActivePodsWithRanks.less ⟨false, true⟩ log2 10000000000 logPodC 3 logPodA 3 = true) ∧
      (∀ log2 : Int → Int, ∃ chosen, getPodsToDelete ⟨false, true⟩ log2 10000000000 10000000000
          [logPodA, logPodB, logPodC] [logPodA, logPodB, logPodC] 1 = .ok chosen ∧
        chosen.length = 1 ∧ ∀ x ∈ chosen, ∃ y ∈ [logPodA, logPodB, logPodC], y ∉ chosen ∧
          ActivePodsWithRanks.less ⟨false, true⟩ log2 10000000000 y 3 x 3 = true) ∧
      ∀ log2 : Int → Int, ¬∃ chosen, getPodsToDelete ⟨false, true⟩ log2 10000000000 10000000000
        [readyPod "uid-4" 10000000000 10000000000 0, readyPod "uid-5" 10000000000 10000000000 0]
        [readyPod "uid-4" 10000000000 10000000000 0, readyPod "uid-5" 10000000000 10000000000 0]
        1 = .ok chosen := by
  -- the cycle: restarts first, then two ties of scale broken by UID
  have hcycle : ∀ log2 : Int → Int,
      ActivePodsWithRanks.less ⟨false, true⟩ log2 10000000000 logPodA 3 logPodB 3 = true ∧
        ActivePodsWithRanks.less ⟨false, true⟩ log2 10000000000 logPodB 3 logPodC 3 = true ∧
        ActivePodsWithRanks.less ⟨false, true⟩ log2 10000000000 logPodC 3 logPodA 3 = true := by
    intro log2
    refine ⟨?_, ?_, ?_⟩
    · simp [ActivePodsWithRanks.less, logPodA, logPodB, readyPod, isPodReady,
        getPodConditionFromList, podReadyTime, maxContainerRestarts, podPhaseToOrdinal, podReady]
    all_goals
      simp [ActivePodsWithRanks.less, logPodA, logPodB, logPodC, readyPod, isPodReady,
        getPodConditionFromList, podReadyTime, podPhaseToOrdinal, podReady]
      rw [compareTimes_of_not_before rfl log2 _ _ (by decide) (by decide) (by decide) (by decide)
        (by decide)]
      decide
  refine ⟨hcycle, fun log2 => ?_, fun log2 => ?_⟩
  · have hperm := sortPodsForDeletion_perm ⟨false, true⟩ log2 10000000000
      [logPodA, logPodB, logPodC] [logPodA, logPodB, logPodC]
    -- the youngest ready pod is nine seconds old at the report, which returns
    have hok : ∃ r, reportSortingDeletionAgeRatioMetric 10000000000 (sortPodsForDeletion
        ⟨false, true⟩ log2 10000000000 [logPodA, logPodB, logPodC] [logPodA, logPodB, logPodC])
        1 = .ok r := by
      rw [reportSortingDeletionAgeRatioMetric_ok, youngestReadyTime_perm hperm]
      exact .inr (by decide)
    obtain ⟨x, hx⟩ := List.length_eq_one_iff.mp (show (List.take 1 (sortPodsForDeletion
        ⟨false, true⟩ log2 10000000000 [logPodA, logPodB, logPodC]
        [logPodA, logPodB, logPodC])).length = 1 by simp [hperm.length_eq])
    refine ⟨[x], getPodsToDelete_eq_ok.mpr (.inr ⟨by decide, hok, hx.symm⟩), rfl, ?_⟩
    intro z hz
    obtain rfl := List.mem_singleton.mp hz
    have hxmem : z ∈ [logPodA, logPodB, logPodC] :=
      hperm.subset (List.mem_of_mem_take (hx ▸ List.mem_singleton_self z))
    obtain ⟨hab, hbc, hca⟩ := hcycle log2
    -- whichever pod is deleted, the one before it in the cycle is kept
    simp only [List.mem_cons, List.not_mem_nil, or_false] at hxmem
    rcases hxmem with rfl | rfl | rfl
    · exact ⟨logPodC, by simp, by decide, hca⟩
    · exact ⟨logPodA, by simp, by decide, hab⟩
    · exact ⟨logPodB, by simp, by decide, hbc⟩
  · rintro ⟨chosen, h⟩
    have hperm := sortPodsForDeletion_perm ⟨false, true⟩ log2 10000000000
      [readyPod "uid-4" 10000000000 10000000000 0, readyPod "uid-5" 10000000000 10000000000 0]
      [readyPod "uid-4" 10000000000 10000000000 0, readyPod "uid-5" 10000000000 10000000000 0]
    rcases getPodsToDelete_eq_ok.mp h with ⟨hle, -⟩ | ⟨-, hok, -⟩
    · simp at hle
    · rw [reportSortingDeletionAgeRatioMetric_ok, youngestReadyTime_perm hperm] at hok
      rcases hok with hnone | hms
      · -- the pod taken is ready
        obtain ⟨x, hx⟩ := List.length_eq_one_iff.mp (show (List.take 1 (sortPodsForDeletion
            ⟨false, true⟩ log2 10000000000
            [readyPod "uid-4" 10000000000 10000000000 0, readyPod "uid-5" 10000000000 10000000000 0]
            [readyPod "uid-4" 10000000000 10000000000 0, readyPod "uid-5" 10000000000 10000000000 0]
            )).length = 1 by simp [hperm.length_eq])
        have hxmem := hperm.subset (List.mem_of_mem_take (hx ▸ List.mem_singleton_self x))
        have hready := hnone x (hx ▸ List.mem_singleton_self x)
        simp only [List.mem_cons, List.not_mem_nil, or_false] at hxmem
        rcases hxmem with rfl | rfl <;> simp [readyPod, isPodReady, getPodConditionFromList,
          podReady] at hready
      · exact hms (by decide)

end ReplicaSet
end Kubernetes
