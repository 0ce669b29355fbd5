import Mathlib
import Kubernetes.Core.Pod

/-!
# The order in which controllers delete pods

`controller.ActivePods` and `controller.ActivePodsWithRanks` sort pods so that those a
controller should delete first come first (`pkg/controller/controller_utils.go`).  Their
`Less` compares two pods by a chain of rules, each deciding when the pods differ in what it
looks at: unassigned before assigned, pending before unknown before running, not ready before
ready, then (for `ActivePodsWithRanks`) the deletion cost and the rank, then the time the pods
have been ready, their restarts and their age.

With the `LogarithmicScaleDown` feature, `ActivePodsWithRanks` compares the ready and creation
times on a logarithmic scale relative to `Now`, and breaks a tie of scales by the pods' UIDs.
`math.Log2` on a `float64` is not computed here: `log2 d` stands for
`int64(math.Log2(float64(d)))` of a positive duration `d`, and every result below holds for
any such function.
-/

namespace Kubernetes
namespace Controller

open Go Kubernetes.Core

/-- `podPhaseToOrdinal[phase]`: `Pending`, `Unknown` and `Running` in this order; the map has
no other phase, whose lookup gives `0`. -/
def podPhaseToOrdinal : PodPhase → Int
  | .pending => 0
  | .unknown => 1
  | .running => 2
  | _ => 0
attribute [grind] podPhaseToOrdinal

/-- `afterOrZero(t1, t2)`: `t1` is after `t2`, a zero time counting as after any other. -/
def afterOrZero (t1 t2 : Int) : Bool :=
  if t1 = 0 ∨ t2 = 0 then t1 == 0 else t2 < t1
attribute [grind] afterOrZero

/-- `podReadyTime`: for a ready pod, when the first `Ready` condition that is `True` last
changed; the zero time otherwise. -/
def podReadyTime (pod : Pod) : Int :=
  if isPodReady pod then
    match pod.conditions.find? (fun c => c.type == podReady && c.status == .conditionTrue) with
    | some c => c.lastTransitionTime
    | none => 0
  else 0
attribute [grind] podReadyTime

/-- `maxContainerRestarts`: the most restarts of any container, `0` for none. -/
def maxContainerRestarts (pod : Pod) : Int :=
  pod.containerStatuses.foldl (fun maxRestarts c => max maxRestarts c.restartCount) 0
attribute [grind] maxContainerRestarts

/-- `logarithmicRankDiff(t1, t2, now)`: the difference of the binary logarithms of the ages of
`t1` and `t2` at `now`, each `-1` when the age is not positive. -/
def logarithmicRankDiff (log2 : Int → Int) (t1 t2 now : Int) : Int :=
  let d1 := timeSub now t1
  let d2 := timeSub now t2
  let r1 := if d1 > 0 then log2 d1 else -1
  let r2 := if d2 > 0 then log2 d2 else -1
  wrap64 (r1 - r2)
attribute [grind] logarithmicRankDiff

/-- `ActivePods.Less`: whether `p1` comes before `p2`, the rules applied in turn until one
tells the pods apart. -/
def ActivePods.less (p1 p2 : Pod) : Bool :=
  -- 1. Unassigned < assigned
  if p1.nodeName ≠ p2.nodeName ∧ (p1.nodeName = "" ∨ p2.nodeName = "") then p1.nodeName == ""
  -- 2. PodPending < PodUnknown < PodRunning
  else if podPhaseToOrdinal p1.phase ≠ podPhaseToOrdinal p2.phase then
    podPhaseToOrdinal p1.phase < podPhaseToOrdinal p2.phase
  -- 3. Not ready < ready
  else if isPodReady p1 ≠ isPodReady p2 then !isPodReady p1
  -- 4. Been ready for empty time < less time < more time
  else if isPodReady p1 ∧ isPodReady p2 ∧ podReadyTime p1 ≠ podReadyTime p2 then
    afterOrZero (podReadyTime p1) (podReadyTime p2)
  -- 5. Pods with containers with higher restart counts < lower restart counts
  else if maxContainerRestarts p1 ≠ maxContainerRestarts p2 then
    maxContainerRestarts p1 > maxContainerRestarts p2
  -- 6. Empty creation time pods < newer pods < older pods
  else if p1.creationTimestamp ≠ p2.creationTimestamp then
    afterOrZero p1.creationTimestamp p2.creationTimestamp
  else false
attribute [grind] ActivePods.less

/-- The feature gates `ActivePodsWithRanks.Less` reads. -/
structure FeatureGates where
  podDeletionCost : Bool
  logarithmicScaleDown : Bool
  deriving DecidableEq, Repr

/-- How `ActivePodsWithRanks.Less` compares two times, ready times or creation times: by
`afterOrZero`, or with `LogarithmicScaleDown`, when `Now` and both times are set, by their
logarithmic age, the UIDs breaking a tie. -/
def compareTimes (gates : FeatureGates) (log2 : Int → Int) (now : Int) (p1 p2 : Pod)
    (t1 t2 : Int) : Bool :=
  if !gates.logarithmicScaleDown then afterOrZero t1 t2
  else if now = 0 ∨ t1 = 0 ∨ t2 = 0 then afterOrZero t1 t2
  else
    let rankDiff := logarithmicRankDiff log2 t1 t2 now
    if rankDiff = 0 then decide (p1.uid < p2.uid) else decide (rankDiff < 0)
attribute [grind] compareTimes

/-- `ActivePodsWithRanks.Less`: whether `p1`, of rank `r1`, comes before `p2`, of rank `r2`,
at the reference time `now`. -/
def ActivePodsWithRanks.less (gates : FeatureGates) (log2 : Int → Int) (now : Int)
    (p1 : Pod) (r1 : Int) (p2 : Pod) (r2 : Int) : Bool :=
  -- 1. Unassigned < assigned
  if p1.nodeName ≠ p2.nodeName ∧ (p1.nodeName = "" ∨ p2.nodeName = "") then p1.nodeName == ""
  -- 2. PodPending < PodUnknown < PodRunning
  else if podPhaseToOrdinal p1.phase ≠ podPhaseToOrdinal p2.phase then
    podPhaseToOrdinal p1.phase < podPhaseToOrdinal p2.phase
  -- 3. Not ready < ready
  else if isPodReady p1 ≠ isPodReady p2 then !isPodReady p1
  -- 4. lower pod-deletion-cost < higher pod-deletion cost
  else if gates.podDeletionCost ∧ deletionCost p1 ≠ deletionCost p2 then
    deletionCost p1 < deletionCost p2
  -- 5. Doubled up < not doubled up
  else if r1 ≠ r2 then r1 > r2
  -- 6. Been ready for empty time < less time < more time
  else if isPodReady p1 ∧ isPodReady p2 ∧ podReadyTime p1 ≠ podReadyTime p2 then
    compareTimes gates log2 now p1 p2 (podReadyTime p1) (podReadyTime p2)
  -- 7. Pods with containers with higher restart counts < lower restart counts
  else if maxContainerRestarts p1 ≠ maxContainerRestarts p2 then
    maxContainerRestarts p1 > maxContainerRestarts p2
  -- 8. Empty creation time pods < newer pods < older pods
  else if p1.creationTimestamp ≠ p2.creationTimestamp then
    compareTimes gates log2 now p1 p2 p1.creationTimestamp p2.creationTimestamp
  else false
attribute [grind] ActivePodsWithRanks.less

/-- Times no earlier than `now` have the same logarithmic scale, whatever `log2` is. -/
theorem logarithmicRankDiff_of_not_before (log2 : Int → Int) {t1 t2 now : Int}
    (h1 : now ≤ t1) (h2 : now ≤ t2) : logarithmicRankDiff log2 t1 t2 now = 0 := by
  have hd1 : ¬timeSub now t1 > 0 := by unfold timeSub minInt64 maxInt64; omega
  have hd2 : ¬timeSub now t2 > 0 := by unfold timeSub minInt64 maxInt64; omega
  simp only [logarithmicRankDiff, hd1, hd2, if_false, sub_self]
  rfl

/-- With `LogarithmicScaleDown`, two set times no earlier than a set `now` compare as the pods'
UIDs do, whatever the times are. -/
theorem compareTimes_of_not_before {gates : FeatureGates}
    (hgate : gates.logarithmicScaleDown = true) (log2 : Int → Int) {now t1 t2 : Int}
    (p1 p2 : Pod) (hnow : now ≠ 0) (ht1 : t1 ≠ 0) (ht2 : t2 ≠ 0) (h1 : now ≤ t1)
    (h2 : now ≤ t2) :
    compareTimes gates log2 now p1 p2 t1 t2 = decide (p1.uid < p2.uid) := by
  simp [compareTimes, hgate, hnow, ht1, ht2, logarithmicRankDiff_of_not_before log2 h1 h2]

end Controller
end Kubernetes
