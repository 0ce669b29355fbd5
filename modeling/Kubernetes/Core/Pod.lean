import Mathlib
import Kubernetes.Go.Strconv

/-!
# The fields of a `v1.Pod` the controllers read

A `v1.Pod` reduced to the fields that the controller utilities modelled here read: its UID
and annotations, its creation and deletion timestamps, the node it is bound to, its phase,
its conditions and the restart counts of its containers.  A `metav1.Time` is a number of
nanoseconds after the zero `time.Time`, so that `IsZero` is being `0`, `After` is `>` and
`Equal` is `=`; `Sub` saturates at the bounds of a `time.Duration`, an `int64`.

With them come the helpers the controllers call on a pod: `podutil.IsPodReady`,
`controller.IsPodActive` and `helper.GetDeletionCostFromPodAnnotations`
(`pkg/api/v1/pod/util.go`, `pkg/controller/controller_utils.go`,
`pkg/apis/core/helper/helpers.go`).
-/

namespace Kubernetes
namespace Core

open Go

/-- `v1.PodPhase`. -/
inductive PodPhase
  | pending
  | running
  | succeeded
  | failed
  | unknown
  deriving DecidableEq, Repr

/-- `v1.ConditionStatus`. -/
inductive ConditionStatus
  | conditionTrue
  | conditionFalse
  | conditionUnknown
  deriving DecidableEq, Repr

/-- `v1.PodReady`, the type of the readiness condition. -/
def podReady : String := "Ready"
attribute [grind] podReady

/-- `core.PodDeletionCost`, the annotation that holds a pod's deletion cost. -/
def podDeletionCost : String := "controller.kubernetes.io/pod-deletion-cost"
attribute [grind] podDeletionCost

/-- `v1.PodCondition`: its type, its status and when it last changed. -/
structure PodCondition where
  type : String
  status : ConditionStatus
  lastTransitionTime : Int
  deriving DecidableEq, Repr

/-- `v1.ContainerStatus`, of which the controllers read the restart count. -/
structure ContainerStatus where
  restartCount : Int
  deriving DecidableEq, Repr

/-- The fields of a `v1.Pod` that the functions below and the controllers read. -/
structure Pod where
  uid : String
  annotations : List (String × String)
  creationTimestamp : Int
  deletionTimestamp : Option Int
  nodeName : String
  phase : PodPhase
  conditions : List PodCondition
  containerStatuses : List ContainerStatus
  deriving DecidableEq, Repr

/-- `time.Time.Sub`: the difference, saturated at the bounds of a `time.Duration`. -/
def timeSub (t u : Int) : Int :=
  max minInt64 (min maxInt64 (t - u))
attribute [grind] timeSub

/-- `podutil.GetPodConditionFromList`: the first condition of the type. -/
def getPodConditionFromList (conditions : List PodCondition) (conditionType : String) :
    Option PodCondition :=
  conditions.find? (·.type == conditionType)
attribute [grind] getPodConditionFromList

/-- `podutil.IsPodReady`: the first `Ready` condition is there and `True`. -/
def isPodReady (pod : Pod) : Bool :=
  match getPodConditionFromList pod.conditions podReady with
  | some condition => condition.status == .conditionTrue
  | none => false
attribute [grind] isPodReady

/-- `controller.IsPodActive`: neither succeeded nor failed, and not being deleted. -/
def isPodActive (p : Pod) : Bool :=
  p.phase != .succeeded && p.phase != .failed && p.deletionTimestamp.isNone
attribute [grind] isPodActive

/-- `validFirstDigit`: a value that starts with `-`, is `0`, or starts with a digit from `1`
on; `+10` and `008` are not valid. -/
def validFirstDigit (str : String) : Bool :=
  match str.toList with
  | [] => false
  | c :: rest => c == '-' || (c == '0' && rest.isEmpty) || ('1' ≤ c && c ≤ '9')
attribute [grind] validFirstDigit

/-- `helper.GetDeletionCostFromPodAnnotations`: the deletion cost a pod's annotation gives,
`0` when there is none; `none` for the error of a value that is not valid or no `int32`,
whose cost the callers read as `0`. -/
def getDeletionCostFromPodAnnotations (annotations : List (String × String)) : Option Int :=
  match annotations.lookup podDeletionCost with
  | some value => if validFirstDigit value then parseInt32 value else none
  | none => some 0
attribute [grind] getDeletionCostFromPodAnnotations

/-- The cost the callers read, which ignore the error: `pi, _ := ...`. -/
def deletionCost (pod : Pod) : Int :=
  (getDeletionCostFromPodAnnotations pod.annotations).getD 0
attribute [grind] deletionCost

end Core
end Kubernetes
