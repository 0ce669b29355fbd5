import Kubernetes.Deployment.Sync

/-!
# A step of a rolling update

`rolloutRolling` (`pkg/controller/deployment/rolling.go`) first tries to scale the new replica
set up (`reconcileNewReplicaSet`, with the target from `NewRSNewReplicas`): never past the
replicas of the deployment, and never past replicas plus surge in total.  When that scales
nothing it tries to scale old replica sets down (`reconcileOldReplicaSets`): first the
replicas that are not available (`cleanupUnhealthyReplicas`), then available ones down to the
deployment's minimum availability (`scaleDownOldReplicaSetsForRollingUpdate`).

As in `Deployment.Sync`, each function returns the scale calls it makes, in order, the calls
taken to succeed.  The two loops stop early with an error when a replica set would grow; that
error is discarded by `reconcileOldReplicaSets`, so it is `none` here, after the calls made
before it.
-/

namespace Kubernetes
namespace Deployment

/-- `NewRSNewReplicas`: the size of the new replica set, scaled up as far as the surge and the
deployment's replicas allow. -/
def newRSNewReplicas (d : Deployment) (allRSs : List ReplicaSet) (newRS : ReplicaSet) :
    Except String Int :=
  match d.strategyType with
  | .rollingUpdate => do
      let maxSurge ← getScaledValueFromIntOrPercent d.rollingUpdateMaxSurge d.replicas true
      let currentPodCount := getReplicaCountForReplicaSets allRSs
      let maxTotalPods := Go.toInt32 (d.replicas + Go.toInt32 maxSurge)
      if currentPodCount ≥ maxTotalPods then return newRS.replicas
      else
        let scaleUpCount := Go.toInt32 (maxTotalPods - currentPodCount)
        let scaleUpCount := min scaleUpCount (Go.toInt32 (d.replicas - newRS.replicas))
        return Go.toInt32 (newRS.replicas + scaleUpCount)
  | .recreate => .ok d.replicas
  | .other text => .error ("deployment type " ++ text ++ " isn't supported")
attribute [grind] newRSNewReplicas

/-- `reconcileNewReplicaSet`. -/
def reconcileNewReplicaSet (allRSs : List ReplicaSet) (newRS : ReplicaSet) (d : Deployment) :
    Except String (List (String × Int)) :=
  if newRS.replicas = d.replicas then .ok []
  else if newRS.replicas > d.replicas then .ok (scaleCall newRS d.replicas)
  else do
    let newReplicasCount ← newRSNewReplicas d allRSs newRS
    return scaleCall newRS newReplicasCount
attribute [grind] reconcileNewReplicaSet

/-- The loop of `cleanupUnhealthyReplicas` from `totalScaledDown`: the calls, and the old replica
sets as scaled with the total, or none for the error. -/
def cleanupLoop (maxCleanupCount : Int) :
    Int → List ReplicaSet → List (String × Int) × Option (List ReplicaSet × Int)
  | totalScaledDown, [] => ([], some ([], totalScaledDown))
  | totalScaledDown, targetRS :: rss =>
      if totalScaledDown ≥ maxCleanupCount then ([], some (targetRS :: rss, totalScaledDown))
      else if targetRS.replicas = 0 ∨ targetRS.replicas = targetRS.availableReplicas then
        let rest := cleanupLoop maxCleanupCount totalScaledDown rss
        (rest.1, rest.2.map fun r => (targetRS :: r.1, r.2))
      else
        let scaledDownCount := min (Go.toInt32 (maxCleanupCount - totalScaledDown))
          (Go.toInt32 (targetRS.replicas - targetRS.availableReplicas))
        let newReplicasCount := Go.toInt32 (targetRS.replicas - scaledDownCount)
        if newReplicasCount > targetRS.replicas then ([], none)
        else
          let rest := cleanupLoop maxCleanupCount (Go.toInt32 (totalScaledDown + scaledDownCount)) rss
          (scaleCall targetRS newReplicasCount ++ rest.1,
            rest.2.map fun r => ({ targetRS with replicas := newReplicasCount } :: r.1, r.2))
attribute [grind] cleanupLoop

/-- `cleanupUnhealthyReplicas`: the old replica sets oldest first, each scaled down by its
replicas that are not available, within `maxCleanupCount` in all. -/
def cleanupUnhealthyReplicas (oldRSs : List ReplicaSet) (maxCleanupCount : Int) :
    List (String × Int) × Option (List ReplicaSet × Int) :=
  cleanupLoop maxCleanupCount 0 (Go.sort oldRSs byCreationTimestamp)
attribute [grind] cleanupUnhealthyReplicas

/-- The loop of `scaleDownOldReplicaSetsForRollingUpdate` from `totalScaledDown`: the calls, and
the total, or none for the error. -/
def scaleDownLoop (totalScaleDownCount : Int) :
    Int → List ReplicaSet → List (String × Int) × Option Int
  | totalScaledDown, [] => ([], some totalScaledDown)
  | totalScaledDown, targetRS :: rss =>
      if totalScaledDown ≥ totalScaleDownCount then ([], some totalScaledDown)
      else if targetRS.replicas = 0 then scaleDownLoop totalScaleDownCount totalScaledDown rss
      else
        let scaleDownCount := min targetRS.replicas
          (Go.toInt32 (totalScaleDownCount - totalScaledDown))
        let newReplicasCount := Go.toInt32 (targetRS.replicas - scaleDownCount)
        if newReplicasCount > targetRS.replicas then ([], none)
        else
          let rest := scaleDownLoop totalScaleDownCount
            (Go.toInt32 (totalScaledDown + scaleDownCount)) rss
          (scaleCall targetRS newReplicasCount ++ rest.1, rest.2)
attribute [grind] scaleDownLoop

/-- `scaleDownOldReplicaSetsForRollingUpdate`: old replica sets oldest first, scaled down by as
many replicas as are available above the deployment's minimum. -/
def scaleDownOldReplicaSetsForRollingUpdate (allRSs oldRSs : List ReplicaSet) (d : Deployment) :
    List (String × Int) × Option Int :=
  let minAvailable := Go.toInt32 (d.replicas - maxUnavailable d)
  let availablePodCount := getAvailableReplicaCountForReplicaSets allRSs
  if availablePodCount ≤ minAvailable then ([], some 0)
  else
    scaleDownLoop (Go.toInt32 (availablePodCount - minAvailable)) 0
      (Go.sort oldRSs byCreationTimestamp)
attribute [grind] scaleDownOldReplicaSetsForRollingUpdate

/-- `reconcileOldReplicaSets`: the calls of the clean-up and of the scale-down, within
`maxScaledDown`. -/
def reconcileOldReplicaSets (allRSs oldRSs : List ReplicaSet) (newRS : ReplicaSet)
    (d : Deployment) : List (String × Int) :=
  let oldPodsCount := getReplicaCountForReplicaSets oldRSs
  if oldPodsCount = 0 then []
  else
    let allPodsCount := getReplicaCountForReplicaSets allRSs
    let minAvailable := Go.toInt32 (d.replicas - maxUnavailable d)
    let newRSUnavailablePodCount := Go.toInt32 (newRS.replicas - newRS.availableReplicas)
    let maxScaledDown :=
      Go.toInt32 (Go.toInt32 (allPodsCount - minAvailable) - newRSUnavailablePodCount)
    if maxScaledDown ≤ 0 then []
    else
      let (cleanupCalls, cleaned) := cleanupUnhealthyReplicas oldRSs maxScaledDown
      match cleaned with
      | none => cleanupCalls
      | some (oldRSs, _) =>
          cleanupCalls ++
            (scaleDownOldReplicaSetsForRollingUpdate (oldRSs ++ [newRS]) oldRSs d).1
attribute [grind] reconcileOldReplicaSets

/-- The scaling of `rolloutRolling`: scale the new replica set up if it can, and otherwise the
old ones down. -/
def rolloutRollingScale (d : Deployment) (newRS : ReplicaSet) (oldRSs : List ReplicaSet) :
    Except String (List (String × Int)) := do
  let allRSs := oldRSs ++ [newRS]
  let scaledUp ← reconcileNewReplicaSet allRSs newRS d
  if scaledUp ≠ [] then return scaledUp
  return reconcileOldReplicaSets allRSs (filterActiveReplicaSets oldRSs) newRS d
attribute [grind] rolloutRollingScale

/-- A surge of `429496729600%` of one replica is 2^32, which is not zero, so `ResolveFenceposts`
does not raise the unavailability of zero to one; it then returns the surge as an `int32`,
which is zero.  Validation accepts the deployment (the surge is a positive percentage, and not
both budgets are zero), and a rollout from one old replica set stops: neither step scales
anything, from one sync to the next. -/
theorem resolveFenceposts_truncated_surge :
    getScaledValueFromIntOrPercent (some (.string "429496729600%")) 1 true = .ok (2 ^ 32) ∧
      resolveFenceposts (some (.string "429496729600%")) (some (.int 0)) 1 = .ok (0, 0) ∧
      rolloutRollingScale ⟨1, .rollingUpdate, some (.int 0), some (.string "429496729600%"), 1⟩
          ⟨"new", 2, 0, 0, some "1", some "1"⟩ [⟨"old", 1, 1, 1, some "1", some "1"⟩] = .ok [] :=
  ⟨by decide, by decide, by decide⟩

end Deployment
end Kubernetes
