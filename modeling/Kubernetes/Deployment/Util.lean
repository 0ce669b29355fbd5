import Kubernetes.Go.Json
import Kubernetes.Go.Sort
import Kubernetes.Go.Strconv
import Kubernetes.Go.Strings

/-!
# Deployment utilities

The parts of `pkg/controller/deployment/util/deployment_util.go`, `util/intstr` and
`controller_utils.go` that the deployment controller's scaling reads: the surge and
unavailability budgets (`ResolveFenceposts`, `MaxSurge`, `MaxUnavailable`), the replica-set
filters, counts and orders, and the proportion a replica set gets when a deployment is scaled
(`GetProportion`).

Replica counts are `int32` in Go; here they are `Int`, and every `int32` sum, difference and
product goes through `Go.toInt32`, which keeps the low 32 bits as Go's arithmetic does.  An `int`
is 64 bits.  Float64 arithmetic is taken exact: a quotient is a rational number, and `math.Ceil`,
`math.Floor` and the rounding of `integer.RoundToInt32` are computed on it exactly.  That is
Go's result while the numerators stay below 2^52 in absolute value: a product is then exact in
`float64`, and a quotient by an integer `d` lies at least `1 / (2 * d)` from every integer and
half-integer it is not, farther than `float64` rounding moves it.  The `int32` product of
`getReplicaSetFraction` always stays below that bound; the percentage product of
`GetScaledValueFromIntOrPercent` passes it only for percentages above 2^21.  A
conversion from `float64` to an integer type follows amd64, which gives the smallest value of
the type for anything out of range, an infinity or NaN.

A replica set keeps what the scaling reads: its name, creation time, `spec.replicas`,
`status.availableReplicas` and the two annotations `deployment.kubernetes.io/desired-replicas`
and `deployment.kubernetes.io/max-replicas`.  A deployment whose strategy is `RollingUpdate`
has its `rollingUpdate` parameters, as defaulting leaves it.  Replica-set names are unique, as
they are in a namespace.
-/

set_option linter.dupNamespace false

namespace Kubernetes
namespace Deployment

/-! ## Integers and floats -/

/-- `strconv.Atoi(s)` with a 64-bit `int`: `strconv.ParseInt(s, 10, 0)`, and its error. -/
def atoi (s : String) : Except String Int :=
  match Go.parseInt s with
  | some v => .ok v
  | none =>
      -- digits after an optional sign that do not fit are out of range; the rest is syntax
      let digits := match s.toList with
        | '-' :: ds | '+' :: ds => ds
        | ds => ds
      let reason :=
        if digits ≠ [] ∧ digits.all Char.isDigit then "value out of range" else "invalid syntax"
      .error ("strconv.Atoi: parsing " ++ Go.quote s ++ ": " ++ reason)
attribute [grind] atoi

/-- The conversion `int(f)` of an integral `float64`: the value, or `math.MinInt64` out of range. -/
def float64ToInt (n : Int) : Int :=
  if Go.minInt64 ≤ n ∧ n ≤ Go.maxInt64 then n else Go.minInt64
attribute [grind] float64ToInt

/-- `float64(a) / float64(b)`: the quotient, or none for an infinity or NaN. -/
def float64Div (a b : Int) : Option ℚ :=
  if b = 0 then none else some ((a : ℚ) / b)
attribute [grind] float64Div

/-- The conversion `int32(f)`: toward zero, and `math.MinInt32` for a value out of range, an
infinity or NaN. -/
def float64ToInt32 : Option ℚ → Int
  | none => -2 ^ 31
  | some q =>
      let t := q.num.tdiv q.den
      if -2 ^ 31 ≤ t ∧ t < 2 ^ 31 then t else -2 ^ 31
attribute [grind] float64ToInt32

/-- `integer.RoundToInt32`: half away from zero. -/
def roundToInt32 (a : Option ℚ) : Int :=
  float64ToInt32 (a.map fun q => if q < 0 then q - 1 / 2 else q + 1 / 2)
attribute [grind] roundToInt32

/-! ## `intstr.IntOrString` -/

/-- `intstr.IntOrString`: an `int32` or a string. -/
inductive IntOrString
  | int (intVal : Int)
  | string (strVal : String)
  deriving DecidableEq, Repr

/-- `intstr.ValueOrDefault`. -/
def valueOrDefault (intOrPercent : Option IntOrString) (defaultValue : IntOrString) :
    IntOrString :=
  intOrPercent.getD defaultValue
attribute [grind] valueOrDefault

/-- `getIntOrPercentValueSafely`: an integer, or a string that is digits and `%`. -/
def getIntOrPercentValueSafely : IntOrString → Except String (Int × Bool)
  | .int v => .ok (v, false)
  | .string s =>
      if Go.hasSuffix s "%" then
        match atoi (Go.trimSuffix s "%") with
        | .ok v => .ok (v, true)
        | .error err => .error ("invalid value " ++ Go.quote s ++ ": " ++ err)
      else .error "invalid type: string is not a percentage"
attribute [grind] getIntOrPercentValueSafely

/-- `intstr.GetScaledValueFromIntOrPercent`: an integer as it is, a percentage of `total`
rounded up or down. -/
def getScaledValueFromIntOrPercent (intOrPercent : Option IntOrString) (total : Int)
    (roundUp : Bool) : Except String Int :=
  match intOrPercent with
  | none => .error "nil value for IntOrString"
  | some intOrPercent =>
      match getIntOrPercentValueSafely intOrPercent with
      | .error err => .error ("invalid value for IntOrString: " ++ err)
      | .ok (value, isPercent) =>
          if isPercent then
            if roundUp then .ok (float64ToInt (-(-(value * total) / 100)))
            else .ok (float64ToInt (value * total / 100))
          else .ok value
attribute [grind] getScaledValueFromIntOrPercent

/-! ## Deployments and replica sets -/

/-- `apps.DeploymentStrategyType`: `Recreate`, `RollingUpdate`, or any other text. -/
inductive DeploymentStrategyType
  | recreate
  | rollingUpdate
  | other (text : String)
  deriving DecidableEq, Repr

/-- The text of a strategy type. -/
def DeploymentStrategyType.text : DeploymentStrategyType → String
  | .recreate => "Recreate"
  | .rollingUpdate => "RollingUpdate"
  | .other text => text
attribute [grind] DeploymentStrategyType.text

/-- The fields of an `apps.Deployment` the scaling reads. -/
structure Deployment where
  replicas : Int
  strategyType : DeploymentStrategyType
  rollingUpdateMaxUnavailable : Option IntOrString
  rollingUpdateMaxSurge : Option IntOrString
  statusReplicas : Int
  deriving DecidableEq, Repr

/-- The fields of an `apps.ReplicaSet` the scaling reads; an annotation is absent or its text. -/
structure ReplicaSet where
  name : String
  creationTimestamp : Int
  replicas : Int
  availableReplicas : Int
  annotationsDesiredReplicas : Option String
  annotationsMaxReplicas : Option String
  deriving DecidableEq, Repr

/-- `IsRollingUpdate`. -/
def isRollingUpdate (d : Deployment) : Bool :=
  d.strategyType == .rollingUpdate
attribute [grind] isRollingUpdate

/-! ## The budgets of a rolling update -/

/-- `ResolveFenceposts`: the surge rounded up and the unavailability rounded down; when both
are zero the unavailability is one. -/
def resolveFenceposts (maxSurge maxUnavailable : Option IntOrString) (desired : Int) :
    Except String (Int × Int) := do
  let surge ← getScaledValueFromIntOrPercent (some (valueOrDefault maxSurge (.int 0))) desired true
  let unavailable ←
    getScaledValueFromIntOrPercent (some (valueOrDefault maxUnavailable (.int 0))) desired false
  let unavailable := if surge = 0 ∧ unavailable = 0 then 1 else unavailable
  return (Go.toInt32 surge, Go.toInt32 unavailable)
attribute [grind] resolveFenceposts

/-- `MaxUnavailable`: zero unless rolling with replicas, and at most the replicas; an error
counts as zero ("caught by validation"). -/
def maxUnavailable (d : Deployment) : Int :=
  if !isRollingUpdate d ∨ d.replicas = 0 then 0
  else
    let maxUnavailable :=
      match resolveFenceposts d.rollingUpdateMaxSurge d.rollingUpdateMaxUnavailable d.replicas with
      | .ok (_, maxUnavailable) => maxUnavailable
      | .error _ => 0
    if maxUnavailable > d.replicas then d.replicas else maxUnavailable
attribute [grind] maxUnavailable

/-- `MinAvailable`. -/
def minAvailable (d : Deployment) : Int :=
  if !isRollingUpdate d then 0 else Go.toInt32 (d.replicas - maxUnavailable d)
attribute [grind] minAvailable

/-- `MaxSurge`: zero unless rolling; an error counts as zero. -/
def maxSurge (d : Deployment) : Int :=
  if !isRollingUpdate d then 0
  else
    match resolveFenceposts d.rollingUpdateMaxSurge d.rollingUpdateMaxUnavailable d.replicas with
    | .ok (maxSurge, _) => maxSurge
    | .error _ => 0
attribute [grind] maxSurge

/-! ## Replica sets -/

/-- `getIntFromAnnotation`: an annotation that `strconv.Atoi` reads, as an `int32`. -/
def getIntFromAnnotation (annotationValue : Option String) : Option Int :=
  annotationValue.bind fun value =>
    match atoi value with
    | .ok v => some (Go.toInt32 v)
    | .error _ => none
attribute [grind] getIntFromAnnotation

/-- `getMaxReplicasAnnotation`. -/
def getMaxReplicasAnnotation (rs : ReplicaSet) : Option Int :=
  getIntFromAnnotation rs.annotationsMaxReplicas
attribute [grind] getMaxReplicasAnnotation

/-- `FilterActiveReplicaSets`: the replica sets with replicas. -/
def filterActiveReplicaSets (rss : List ReplicaSet) : List ReplicaSet :=
  rss.filter fun rs => rs.replicas > 0
attribute [grind] filterActiveReplicaSets

/-- `GetReplicaCountForReplicaSets`: the `int32` sum of the replicas. -/
def getReplicaCountForReplicaSets (rss : List ReplicaSet) : Int :=
  rss.foldl (fun total rs => Go.toInt32 (total + rs.replicas)) 0
attribute [grind] getReplicaCountForReplicaSets

/-- `GetAvailableReplicaCountForReplicaSets`: the `int32` sum of the available replicas. -/
def getAvailableReplicaCountForReplicaSets (rss : List ReplicaSet) : Int :=
  rss.foldl (fun total rs => Go.toInt32 (total + rs.availableReplicas)) 0
attribute [grind] getAvailableReplicaCountForReplicaSets

/-- `ReplicaSetsByCreationTimestamp.Less`: older first, then by name. -/
def byCreationTimestamp (a b : ReplicaSet) : Bool :=
  if a.creationTimestamp = b.creationTimestamp then decide (a.name < b.name)
  else decide (a.creationTimestamp < b.creationTimestamp)
attribute [grind] byCreationTimestamp

/-- `ReplicaSetsBySizeOlder.Less`: larger first, then older first. -/
def bySizeOlder (a b : ReplicaSet) : Bool :=
  if a.replicas = b.replicas then byCreationTimestamp a b else decide (a.replicas > b.replicas)
attribute [grind] bySizeOlder

/-- `ReplicaSetsBySizeNewer.Less`: larger first, then newer first. -/
def bySizeNewer (a b : ReplicaSet) : Bool :=
  if a.replicas = b.replicas then byCreationTimestamp b a else decide (a.replicas > b.replicas)
attribute [grind] bySizeNewer

/-- `sort.Sort(sort.Reverse(ReplicaSetsByCreationTimestamp(oldRSs)))`: newest first. -/
def sortNewestFirst (rss : List ReplicaSet) : List ReplicaSet :=
  Go.sort rss fun a b => byCreationTimestamp b a
attribute [grind] sortNewestFirst

/-- `FindActiveOrLatest`: the one active replica set, or the newest when none is active, or
none when several are. -/
def findActiveOrLatest (newRS : Option ReplicaSet) (oldRSs : List ReplicaSet) :
    Option ReplicaSet :=
  if newRS.isNone ∧ oldRSs = [] then none
  else
    let oldRSs := sortNewestFirst oldRSs
    match filterActiveReplicaSets (oldRSs ++ newRS.toList) with
    | [] => match newRS with
      | some rs => some rs
      | none => oldRSs.head?
    | [rs] => some rs
    | _ => none
attribute [grind] findActiveOrLatest

/-- `IsSaturated`: the new replica set has all the replicas, believes it should, and they are
all available. -/
def isSaturated (d : Deployment) : Option ReplicaSet → Bool
  | none => false
  | some rs =>
      match atoi (rs.annotationsDesiredReplicas.getD "") with
      | .error _ => false
      | .ok desired =>
          rs.replicas == d.replicas && Go.toInt32 desired == d.replicas &&
            rs.availableReplicas == d.replicas
attribute [grind] isSaturated

/-! ## Proportions -/

/-- `getReplicaSetFraction`: the replicas a replica set should gain (or lose, below zero) to
keep its share of the deployment, its share measured against the size in its max-replicas
annotation, or the deployment's status without one. -/
def getReplicaSetFraction (rs : ReplicaSet) (d : Deployment) : Int :=
  if d.replicas = 0 then Go.toInt32 (-rs.replicas)
  else
    let deploymentReplicas := Go.toInt32 (d.replicas + maxSurge d)
    let annotatedReplicas := match getMaxReplicasAnnotation rs with
      | some annotatedReplicas => annotatedReplicas
      | none => d.statusReplicas
    -- the product is taken in `int32` before the conversion to `float64`
    let newRSsize := float64Div (Go.toInt32 (rs.replicas * deploymentReplicas)) annotatedReplicas
    Go.toInt32 (roundToInt32 newRSsize - rs.replicas)
attribute [grind] getReplicaSetFraction

/-- `GetProportion`: the fraction, bounded by what is still to be added (when scaling up) or
removed (when scaling down). -/
def getProportion (rs : Option ReplicaSet) (d : Deployment)
    (deploymentReplicasToAdd deploymentReplicasAdded : Int) : Int :=
  match rs with
  | none => 0
  | some rs =>
      if rs.replicas = 0 ∨ deploymentReplicasToAdd = 0 ∨
          deploymentReplicasToAdd = deploymentReplicasAdded then 0
      else
        let rsFraction := getReplicaSetFraction rs d
        let allowed := Go.toInt32 (deploymentReplicasToAdd - deploymentReplicasAdded)
        if deploymentReplicasToAdd > 0 then min rsFraction allowed else max rsFraction allowed
attribute [grind] getProportion

end Deployment
end Kubernetes
