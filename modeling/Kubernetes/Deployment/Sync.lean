import Kubernetes.Deployment.Util

/-!
# Scaling a deployment

`DeploymentController.scale` (`pkg/controller/deployment/sync.go`) runs when a deployment is
scaled or paused.  With one active replica set it gives that one all the replicas; with a
saturated new replica set it scales the old ones to zero; otherwise, for a rolling update, it
spreads the difference between the allowed size (replicas plus surge) and the replicas of the
active replica sets over them in proportion to their sizes (`GetProportion`), largest first,
and adds what is left over to the first one, which it keeps at zero or more.

The model returns the calls the function makes, each a replica set's name and its new size, in
order; the calls are taken to succeed.  `nameToSize` is a map from names, which are unique, so
it is the list of sizes in the order of the replica sets.  `FindActiveOrLatest` sorts the old
replica sets in place, newest first, which is the order `scale` goes on with.
-/

namespace Kubernetes
namespace Deployment

/-- The first loop of the proportional branch: the size estimated for each replica set, and
`deploymentReplicasAdded` after it.  With nothing to add each keeps its size. -/
def estimateSizes (d : Deployment) (deploymentReplicasToAdd : Int) :
    Int → List ReplicaSet → List Int × Int
  | added, [] => ([], added)
  | added, rs :: rss =>
      if deploymentReplicasToAdd ≠ 0 then
        let proportion := getProportion (some rs) d deploymentReplicasToAdd added
        let rest := estimateSizes d deploymentReplicasToAdd (Go.toInt32 (added + proportion)) rss
        (Go.toInt32 (rs.replicas + proportion) :: rest.1, rest.2)
      else
        let rest := estimateSizes d deploymentReplicasToAdd added rss
        (rs.replicas :: rest.1, rest.2)
attribute [grind] estimateSizes

/-- The second loop: what is left over goes to the first replica set, kept at zero or more. -/
def addLeftover (deploymentReplicasToAdd deploymentReplicasAdded : Int) : List Int → List Int
  | [] => []
  | size :: sizes =>
      if deploymentReplicasToAdd ≠ 0 then
        let leftover := Go.toInt32 (deploymentReplicasToAdd - deploymentReplicasAdded)
        let size := Go.toInt32 (size + leftover)
        (if size < 0 then 0 else size) :: sizes
      else size :: sizes
attribute [grind] addLeftover

/-- The rolling-update branch of `scale`: the active replica sets, sorted by size in the
direction of the scaling, each with its new size. -/
def scaleProportionally (d : Deployment) (newRS : Option ReplicaSet) (oldRSs : List ReplicaSet) :
    List (String × Int) :=
  let allRSs := filterActiveReplicaSets (oldRSs ++ newRS.toList)
  let allRSsReplicas := getReplicaCountForReplicaSets allRSs
  let allowedSize := if d.replicas > 0 then Go.toInt32 (d.replicas + maxSurge d) else 0
  let deploymentReplicasToAdd := Go.toInt32 (allowedSize - allRSsReplicas)
  let allRSs :=
    if deploymentReplicasToAdd > 0 then Go.sort allRSs bySizeNewer
    else if deploymentReplicasToAdd < 0 then Go.sort allRSs bySizeOlder
    else allRSs
  let (sizes, added) := estimateSizes d deploymentReplicasToAdd 0 allRSs
  (allRSs.map ReplicaSet.name).zip (addLeftover deploymentReplicasToAdd added sizes)
attribute [grind] scaleProportionally

/-- The call `scaleReplicaSetAndRecordEvent(rs, newScale)` makes: none when the replica set
already has that size. -/
def scaleCall (rs : ReplicaSet) (newScale : Int) : List (String × Int) :=
  if rs.replicas = newScale then [] else [(rs.name, newScale)]
attribute [grind] scaleCall

/-- `DeploymentController.scale`: the replica sets it scales and their new sizes. -/
def scale (d : Deployment) (newRS : Option ReplicaSet) (oldRSs : List ReplicaSet) :
    List (String × Int) :=
  match findActiveOrLatest newRS oldRSs with
  | some rs => scaleCall rs d.replicas
  | none =>
      let oldRSs := sortNewestFirst oldRSs
      if isSaturated d newRS then (filterActiveReplicaSets oldRSs).flatMap fun old => scaleCall old 0
      else if isRollingUpdate d then scaleProportionally d newRS oldRSs
      else []
attribute [grind] scale

/-- Scaled from 80000 to 100000 replicas halfway through a rollout, with two replica sets of
40000: `getReplicaSetFraction` multiplies 40000 by 100000 in `int32`, which wraps to
-294967296, so the fraction of each is -43687 where 10000 was meant.  The second replica set is
given -3687 replicas; the first takes the leftover. -/
theorem scale_wraps_replicaSet_fraction :
    findActiveOrLatest (some ⟨"new", 2, 40000, 40000, some "80000", some "80000"⟩)
        [⟨"old", 1, 40000, 40000, some "80000", some "80000"⟩] = none ∧
      isSaturated ⟨100000, .rollingUpdate, some (.int 1), some (.int 0), 80000⟩
        (some ⟨"new", 2, 40000, 40000, some "80000", some "80000"⟩) = false ∧
      Go.toInt32 (40000 * 100000) = -294967296 ∧
      getReplicaSetFraction ⟨"new", 2, 40000, 40000, some "80000", some "80000"⟩
        ⟨100000, .rollingUpdate, some (.int 1), some (.int 0), 80000⟩ = -43687 ∧
      scale ⟨100000, .rollingUpdate, some (.int 1), some (.int 0), 80000⟩
          (some ⟨"new", 2, 40000, 40000, some "80000", some "80000"⟩)
          [⟨"old", 1, 40000, 40000, some "80000", some "80000"⟩] =
        [("new", 103687), ("old", -3687)] :=
  ⟨by decide, by decide, by decide, by decide +kernel, by decide +kernel⟩

end Deployment
end Kubernetes
