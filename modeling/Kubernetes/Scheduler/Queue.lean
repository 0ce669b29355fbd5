import Mathlib
import Kubernetes.Scheduler.HeapOrder
import Kubernetes.Transition.Reachable

/-!
# The scheduler's priority queue

`PriorityQueue` (`pkg/scheduler/internal/queue/scheduling_queue.go`) keeps the pods waiting to be
scheduled in three places: `activeQ`, a heap ordered by the profile's `less` from which `Pop`
takes the next pod; `podBackoffQ`, a heap ordered by the time a pod's backoff ends; and
`unschedulablePods`, a map of the pods found unschedulable.  The heaps are keyed by
`MetaNamespaceKeyFunc` (`namespace/name`), the map by `GetPodFullName` (`name_namespace`).  Before
a pod goes to `activeQ`, `addToActiveQ` runs the PreEnqueue plugins of its profile, and a pod one
of them rejects is gated: it goes to `unschedulablePods` instead.

All three hold `*QueuedPodInfo`s.  One object can be held by two of them at once, and a write
through one of the pointers is seen through the others: `addToActiveQ` writes `Gated` and
`UnschedulablePlugins`, `AddUnschedulableIfNotPresent` writes `Timestamp`, `Pop` writes
`Attempts` into the object it hands out, and the scheduler writes the `UnschedulablePlugins` of a
pod it failed to schedule.  The model keeps the pointers: `PriorityQueue.podInfo` is the memory of
`QueuedPodInfo` objects by address, `newQueuedPodInfo` takes the next address, and the heaps and
the map hold addresses.  The heaps compare and key the objects the addresses point to at the
time of the call (`activeLess`, `backoffLess`, `keyOf`).

The model is the queue's state with the calls the scheduler and its event handlers make on it
(`Op`): `Add`, `Activate`, `AddUnschedulableIfNotPresent`, the scheduler's write of the plugins
that rejected a pod, `Pop`, `Delete`, `MoveAllToActiveOrBackoffQueue`, the two flushes `Run`
starts, `Close`, and the clock going on.  Each call also reads what the PreEnqueue plugins answer
at that moment, any answer at all (`verdict`).  `Step` is one call; the queues reachable from
`NewPriorityQueue` are those of every sequence of calls.

`activate` looks a pod up in `unschedulablePods` and then in `podBackoffQ`, and hands it to
`addToActiveQ`.  When the plugins now reject the pod, `addToActiveQ` puts it into
`unschedulablePods` and `activate` returns at once, without taking it out of `podBackoffQ`: the
pod is then in two of the queues (`activate_gated_backoff_pod_in_two_queues`), in every
configuration whose profile has a PreEnqueue plugin.

`Update`, `AssignedPodAdded` and `AssignedPodUpdated` (which read the pod's spec and its affinity
terms), the nominator and the metrics are not modelled; Go's map iteration order is the order of
insertion here.  The scheduler also writes a fresh `PodInfo` of the same namespace and name into
the object before `AddUnschedulableIfNotPresent`; the fields of `Pod` here do not change by it.
-/

namespace Kubernetes
namespace Scheduler

open Transition

/-! ## Pods and their keys -/

/-- The fields of a `v1.Pod` that the queue reads: its namespace, its name, and the profile
(`Spec.SchedulerName`) whose PreEnqueue plugins run on it. -/
structure Pod where
  ns : String
  name : String
  schedulerName : String
  deriving DecidableEq, Repr, Inhabited

/-- `cache.MetaNamespaceKeyFunc` on a pod. -/
def metaNamespaceKeyFunc (pod : Pod) : String :=
  if pod.ns.length > 0 then pod.ns ++ "/" ++ pod.name else pod.name
attribute [grind] metaNamespaceKeyFunc

/-- `util.GetPodFullName`. -/
def getPodFullName (pod : Pod) : String :=
  pod.name ++ "_" ++ pod.ns
attribute [grind] getPodFullName

/-- `framework.QueuedPodInfo`: the pod and what the queue records of it.  `UnschedulablePlugins`
is a set of plugin names, kept without repetition. -/
structure QueuedPodInfo where
  pod : Pod
  timestamp : Int
  attempts : Nat
  initialAttemptTimestamp : Int
  unschedulablePlugins : List String
  gated : Bool
  deriving DecidableEq, Repr, Inhabited

/-- `podInfoKeyFunc`, the key of both heaps. -/
def podInfoKeyFunc (pInfo : QueuedPodInfo) : String :=
  metaNamespaceKeyFunc pInfo.pod
attribute [grind] podInfoKeyFunc

/-! ## Cluster events -/

/-- `framework.ClusterEvent`; its `ActionType` is a bit mask. -/
structure ClusterEvent where
  resource : String
  actionType : Nat
  label : String
  deriving DecidableEq, Repr

/-- `framework.WildCard`. -/
def wildCard : String := "*"
attribute [grind] wildCard

/-- `framework.All`, the six action bits. -/
def actionAll : Nat := 63
attribute [grind] actionAll

/-- `ClusterEvent.IsWildCard`. -/
def ClusterEvent.isWildCard (ce : ClusterEvent) : Bool :=
  ce.resource == wildCard && ce.actionType == actionAll
attribute [grind] ClusterEvent.isWildCard

/-- `UnschedulableTimeout`. -/
def unschedulableTimeout : ClusterEvent :=
  ⟨wildCard, actionAll, "UnschedulableTimeout"⟩
attribute [grind] unschedulableTimeout

/-- `intersect`: the two sets share a name; Go looks the smaller one up in the larger. -/
def intersect (x y : List String) : Bool :=
  if x.length > y.length then y.any fun v => x.contains v else x.any fun v => y.contains v
attribute [grind] intersect

/-! ## The configuration -/

/-- What `NewPriorityQueue` fixes: the order of `activeQ`, the backoff durations, the plugins
interested in each event, and the PreEnqueue plugins of each profile.  Durations and times are
integers. -/
structure Config where
  lessFn : QueuedPodInfo → QueuedPodInfo → Bool
  podInitialBackoffDuration : Int
  podMaxBackoffDuration : Int
  podMaxInUnschedulablePodsDuration : Int
  clusterEventMap : List (ClusterEvent × List String)
  preEnqueuePluginMap : String → List String

namespace Config

variable (cfg : Config)

/-- The loop of `calculateBackoffDuration`: double the duration for each further attempt, and
stop at the maximum. -/
def backoffLoop : Nat → Int → Int
  | 0, duration => duration
  | n + 1, duration =>
    if duration > cfg.podMaxBackoffDuration - duration then cfg.podMaxBackoffDuration
    else backoffLoop n (duration + duration)
attribute [grind] backoffLoop

/-- `calculateBackoffDuration`: `for i := 1; i < podInfo.Attempts; i++`. -/
def calculateBackoffDuration (podInfo : QueuedPodInfo) : Int :=
  cfg.backoffLoop (podInfo.attempts - 1) cfg.podInitialBackoffDuration
attribute [grind] calculateBackoffDuration

/-- `getBackoffTime`. -/
def getBackoffTime (podInfo : QueuedPodInfo) : Int :=
  podInfo.timestamp + cfg.calculateBackoffDuration podInfo
attribute [grind] getBackoffTime

/-- `podsCompareBackoffCompleted`, the order of `podBackoffQ`. -/
def podsCompareBackoffCompleted (podInfo1 podInfo2 : QueuedPodInfo) : Bool :=
  decide (cfg.getBackoffTime podInfo1 < cfg.getBackoffTime podInfo2)
attribute [grind] podsCompareBackoffCompleted

/-- `podMatchesEvent`. -/
def podMatchesEvent (podInfo : QueuedPodInfo) (clusterEvent : ClusterEvent) : Bool :=
  if clusterEvent.isWildCard then true
  else
    cfg.clusterEventMap.any fun entry =>
      (entry.1.isWildCard ||
          (entry.1.resource == clusterEvent.resource &&
            entry.1.actionType &&& clusterEvent.actionType != 0)) &&
        intersect entry.2 podInfo.unschedulablePlugins
attribute [grind] podMatchesEvent

/-- `runPreEnqueuePlugins`: the plugins of the pod's profile in turn, until one does not
succeed, whose name is recorded.  `verdict plugin pod` is what `PreEnqueue` of the plugin
answers. -/
def runPreEnqueuePlugins (verdict : String → Pod → Bool) (pInfo : QueuedPodInfo) :
    QueuedPodInfo × Bool :=
  match (cfg.preEnqueuePluginMap pInfo.pod.schedulerName).find? (fun pl => !verdict pl pInfo.pod) with
  | some pl => ({ pInfo with unschedulablePlugins := pInfo.unschedulablePlugins.insert pl }, false)
  | none => (pInfo, true)
attribute [grind] runPreEnqueuePlugins

end Config

/-! ## `UnschedulablePods` -/

/-- `UnschedulablePods`: the map `podInfoMap` from `GetPodFullName` to the address of the pod's
object, as its list of entries. -/
structure UnschedulablePods where
  podInfoMap : List (String × Nat)

namespace UnschedulablePods

variable (u : UnschedulablePods)

/-- `addOrUpdate` of the object at `pInfo`, whose pod is `pod`: the entry of the pod is written,
in place when there is one. -/
def addOrUpdate (pod : Pod) (pInfo : Nat) : UnschedulablePods :=
  let podID := getPodFullName pod
  if u.podInfoMap.any (·.1 == podID) then
    ⟨u.podInfoMap.map fun e => if e.1 == podID then (podID, pInfo) else e⟩
  else ⟨u.podInfoMap ++ [(podID, pInfo)]⟩
attribute [grind] addOrUpdate

/-- `delete`. -/
def delete (pod : Pod) : UnschedulablePods :=
  ⟨u.podInfoMap.filter fun e => e.1 != getPodFullName pod⟩
attribute [grind] delete

/-- `get`. -/
def get (pod : Pod) : Option Nat :=
  u.podInfoMap.lookup (getPodFullName pod)
attribute [grind] get

end UnschedulablePods

/-! ## The queue -/

/-- `PriorityQueue`: the clock, the memory of `QueuedPodInfo` objects with the number of
addresses given out, the three sub-queues of addresses, the two cycle counters and whether it is
closed. -/
structure PriorityQueue where
  now : Int
  podInfo : Nat → QueuedPodInfo
  numPodInfos : Nat
  activeQ : Data Nat
  podBackoffQ : Data Nat
  unschedulablePods : UnschedulablePods
  schedulingCycle : Int
  moveRequestCycle : Int
  closed : Bool

/-- `NewPriorityQueue`, with the clock at `now`. -/
def newPriorityQueue (now : Int) : PriorityQueue :=
  ⟨now, fun _ => default, 0, Data.empty, Data.empty, ⟨[]⟩, 0, -1, false⟩
attribute [grind] newPriorityQueue

namespace PriorityQueue

variable (cfg : Config) (verdict : String → Pod → Bool) (p : PriorityQueue)

/-! ### The memory of `QueuedPodInfo`s -/

/-- The write `f` through the pointer `ptr`. -/
def modifyPodInfo (ptr : Nat) (f : QueuedPodInfo → QueuedPodInfo) : PriorityQueue :=
  { p with podInfo := Function.update p.podInfo ptr (f (p.podInfo ptr)) }
attribute [grind] modifyPodInfo

/-- A new object, at the first address not given out. -/
def newPodInfo (pInfo : QueuedPodInfo) : Nat × PriorityQueue :=
  (p.numPodInfos,
    { p with podInfo := Function.update p.podInfo p.numPodInfos pInfo
             numPodInfos := p.numPodInfos + 1 })
attribute [grind] newPodInfo

/-- `podInfoKeyFunc` of the object at `ptr`: the key both heaps file an address under. -/
def keyOf (ptr : Nat) : String :=
  podInfoKeyFunc (p.podInfo ptr)
attribute [grind] keyOf

/-- The `less` of `activeQ`: the profile's `lessFn` on the objects the addresses point to. -/
def activeLess (ptr₁ ptr₂ : Nat) : Bool :=
  cfg.lessFn (p.podInfo ptr₁) (p.podInfo ptr₂)
attribute [grind] activeLess

/-- The `less` of `podBackoffQ`: `podsCompareBackoffCompleted` on the objects. -/
def backoffLess (ptr₁ ptr₂ : Nat) : Bool :=
  cfg.podsCompareBackoffCompleted (p.podInfo ptr₁) (p.podInfo ptr₂)
attribute [grind] backoffLess

@[simp] theorem podInfo_modifyPodInfo (ptr : Nat) (f : QueuedPodInfo → QueuedPodInfo) (r : Nat) :
    (p.modifyPodInfo ptr f).podInfo r = if r = ptr then f (p.podInfo ptr) else p.podInfo r := by
  simp only [modifyPodInfo, Function.update_apply]

@[simp] theorem numPodInfos_modifyPodInfo (ptr : Nat) (f : QueuedPodInfo → QueuedPodInfo) :
    (p.modifyPodInfo ptr f).numPodInfos = p.numPodInfos := rfl

@[simp] theorem activeQ_modifyPodInfo (ptr : Nat) (f : QueuedPodInfo → QueuedPodInfo) :
    (p.modifyPodInfo ptr f).activeQ = p.activeQ := rfl

@[simp] theorem podBackoffQ_modifyPodInfo (ptr : Nat) (f : QueuedPodInfo → QueuedPodInfo) :
    (p.modifyPodInfo ptr f).podBackoffQ = p.podBackoffQ := rfl

@[simp] theorem unschedulablePods_modifyPodInfo (ptr : Nat) (f : QueuedPodInfo → QueuedPodInfo) :
    (p.modifyPodInfo ptr f).unschedulablePods = p.unschedulablePods := rfl

@[simp] theorem now_modifyPodInfo (ptr : Nat) (f : QueuedPodInfo → QueuedPodInfo) :
    (p.modifyPodInfo ptr f).now = p.now := rfl

@[simp] theorem schedulingCycle_modifyPodInfo (ptr : Nat) (f : QueuedPodInfo → QueuedPodInfo) :
    (p.modifyPodInfo ptr f).schedulingCycle = p.schedulingCycle := rfl

@[simp] theorem moveRequestCycle_modifyPodInfo (ptr : Nat) (f : QueuedPodInfo → QueuedPodInfo) :
    (p.modifyPodInfo ptr f).moveRequestCycle = p.moveRequestCycle := rfl

@[simp] theorem newPodInfo_fst (pInfo : QueuedPodInfo) : (p.newPodInfo pInfo).1 = p.numPodInfos := rfl

@[simp] theorem podInfo_newPodInfo (pInfo : QueuedPodInfo) (r : Nat) :
    (p.newPodInfo pInfo).2.podInfo r = if r = p.numPodInfos then pInfo else p.podInfo r := by
  simp only [newPodInfo, Function.update_apply]

@[simp] theorem numPodInfos_newPodInfo (pInfo : QueuedPodInfo) :
    (p.newPodInfo pInfo).2.numPodInfos = p.numPodInfos + 1 := rfl

@[simp] theorem activeQ_newPodInfo (pInfo : QueuedPodInfo) :
    (p.newPodInfo pInfo).2.activeQ = p.activeQ := rfl

@[simp] theorem podBackoffQ_newPodInfo (pInfo : QueuedPodInfo) :
    (p.newPodInfo pInfo).2.podBackoffQ = p.podBackoffQ := rfl

@[simp] theorem unschedulablePods_newPodInfo (pInfo : QueuedPodInfo) :
    (p.newPodInfo pInfo).2.unschedulablePods = p.unschedulablePods := rfl

@[simp] theorem now_newPodInfo (pInfo : QueuedPodInfo) : (p.newPodInfo pInfo).2.now = p.now := rfl

/-! ### The calls -/

/-- `newQueuedPodInfo`: a new object, stamped with the clock. -/
def newQueuedPodInfo (pod : Pod) : Nat × PriorityQueue :=
  p.newPodInfo ⟨pod, p.now, 0, p.now, [], false⟩
attribute [grind] newQueuedPodInfo

/-- `isPodBackingoff` of the object at `pInfo`: a gated pod is not backing off. -/
def isPodBackingoff (pInfo : Nat) : Bool :=
  if (p.podInfo pInfo).gated then false else decide (cfg.getBackoffTime (p.podInfo pInfo) > p.now)
attribute [grind] isPodBackingoff

/-- The queue with `unschedulablePods.delete(pod)`. -/
def deleteUnschedulable (pod : Pod) : PriorityQueue :=
  { p with unschedulablePods := p.unschedulablePods.delete pod }
attribute [grind] deleteUnschedulable

/-- The queue with `podBackoffQ.Delete` of an object of key `key`, whose error is ignored. -/
def deleteBackoff (key : String) : PriorityQueue :=
  match p.podBackoffQ.delete (p.backoffLess cfg) key with
  | .ok q => { p with podBackoffQ := q }
  | .error _ => p
attribute [grind] deleteBackoff

/-- `addToActiveQ` of the object at `pInfo`: the queue, and whether the pod went to `activeQ`; a
gated pod goes to `unschedulablePods`. -/
def addToActiveQ (pInfo : Nat) : PriorityQueue × Bool :=
  let r := cfg.runPreEnqueuePlugins verdict (p.podInfo pInfo)
  -- the plugin that rejects the pod and `Gated` are written through the pointer, and so are
  -- seen wherever else the object is held
  let q := p.modifyPodInfo pInfo fun x =>
    { x with unschedulablePlugins := r.1.unschedulablePlugins, gated := !r.2 }
  if !r.2 then
    ({ q with unschedulablePods := q.unschedulablePods.addOrUpdate (q.podInfo pInfo).pod pInfo }, false)
  else ({ q with activeQ := q.activeQ.add (q.activeLess cfg) q.keyOf pInfo }, true)
attribute [grind] addToActiveQ

@[simp] theorem podBackoffQ_addToActiveQ (pInfo : Nat) :
    (p.addToActiveQ cfg verdict pInfo).1.podBackoffQ = p.podBackoffQ := by
  unfold addToActiveQ
  dsimp only
  split_ifs <;> rfl

@[simp] theorem now_addToActiveQ (pInfo : Nat) :
    (p.addToActiveQ cfg verdict pInfo).1.now = p.now := by
  unfold addToActiveQ
  dsimp only
  split_ifs <;> rfl

/-- `Add`: a new object for the pod, handed to `addToActiveQ`. -/
def add (pod : Pod) : PriorityQueue :=
  let n := p.newQueuedPodInfo pod
  let r := n.2.addToActiveQ cfg verdict n.1
  if !r.2 then r.1
  else
    let q := if (r.1.unschedulablePods.get pod).isSome then r.1.deleteUnschedulable pod else r.1
    q.deleteBackoff cfg (q.keyOf n.1)
attribute [grind] add

/-- `activate`: the queue, and whether the pod went to `activeQ`.  The lookups with
`newQueuedPodInfoForLookup(pod)` read its key only. -/
def activate (pod : Pod) : PriorityQueue × Bool :=
  if (p.activeQ.objAt (metaNamespaceKeyFunc pod)).isSome then (p, false)
  else
    let found := match p.unschedulablePods.get pod with
      | some pInfo => some pInfo
      | none => p.podBackoffQ.objAt (metaNamespaceKeyFunc pod)
    match found with
    | none => (p, false)
    | some pInfo =>
      let r := p.addToActiveQ cfg verdict pInfo
      if !r.2 then (r.1, false)
      else ((r.1.deleteUnschedulable (r.1.podInfo pInfo).pod).deleteBackoff cfg (r.1.keyOf pInfo), true)
attribute [grind] activate

/-- `Activate`: `activate` on each pod of the map, in its order. -/
def activateAll (pods : List Pod) : PriorityQueue :=
  pods.foldl (fun q pod => (q.activate cfg verdict pod).1) p
attribute [grind] activateAll

/-- `AddUnschedulableIfNotPresent` of the object at `pInfo`. -/
def addUnschedulableIfNotPresent (pInfo : Nat) (podSchedulingCycle : Int) :
    Except String PriorityQueue :=
  let pod := (p.podInfo pInfo).pod
  if (p.unschedulablePods.get pod).isSome then
    .error ("Pod " ++ metaNamespaceKeyFunc pod ++ " is already present in unschedulable queue")
  else if (p.activeQ.objAt (p.keyOf pInfo)).isSome then
    .error ("Pod " ++ metaNamespaceKeyFunc pod ++ " is already present in the active queue")
  else if (p.podBackoffQ.objAt (p.keyOf pInfo)).isSome then
    .error ("Pod " ++ metaNamespaceKeyFunc pod ++ " is already present in the backoff queue")
  else
    -- `pInfo.Timestamp = p.clock.Now()`, through the pointer
    let q := p.modifyPodInfo pInfo fun x => { x with timestamp := p.now }
    if p.moveRequestCycle ≥ podSchedulingCycle then
      .ok { q with podBackoffQ := q.podBackoffQ.add (q.backoffLess cfg) q.keyOf pInfo }
    else .ok { q with unschedulablePods := q.unschedulablePods.addOrUpdate (q.podInfo pInfo).pod pInfo }
attribute [grind] addUnschedulableIfNotPresent

/-- The loop of `movePodsToActiveOrBackoffQueue`, on the addresses of the list; each object is
read when the loop comes to it. -/
def movePodsLoop (event : ClusterEvent) : List Nat → PriorityQueue → PriorityQueue
  | [], q => q
  | pInfo :: rest, q =>
    let pod := (q.podInfo pInfo).pod
    if (q.podInfo pInfo).unschedulablePlugins.length ≠ 0 ∧
        !cfg.podMatchesEvent (q.podInfo pInfo) event then
      movePodsLoop event rest q
    else if q.isPodBackingoff cfg pInfo then
      movePodsLoop event rest
        ({ q with podBackoffQ := q.podBackoffQ.add (q.backoffLess cfg) q.keyOf pInfo }.deleteUnschedulable
          pod)
    else
      let r := q.addToActiveQ cfg verdict pInfo
      if r.2 then movePodsLoop event rest (r.1.deleteUnschedulable pod)
      else movePodsLoop event rest r.1
attribute [grind] movePodsLoop

/-- `movePodsToActiveOrBackoffQueue`: the loop, then the move request is recorded. -/
def movePodsToActiveOrBackoffQueue (podInfoList : List Nat) (event : ClusterEvent) :
    PriorityQueue :=
  { movePodsLoop cfg verdict event podInfoList p with moveRequestCycle := p.schedulingCycle }
attribute [grind] movePodsToActiveOrBackoffQueue

/-- `MoveAllToActiveOrBackoffQueue`: the pods of `unschedulablePods` that pass `preCheck`. -/
def moveAllToActiveOrBackoffQueue (event : ClusterEvent) (preCheck : Option (Pod → Bool)) :
    PriorityQueue :=
  let pods := (p.unschedulablePods.podInfoMap.map (·.2)).filter fun pInfo =>
    match preCheck with
    | none => true
    | some check => check (p.podInfo pInfo).pod
  p.movePodsToActiveOrBackoffQueue cfg verdict pods event
attribute [grind] moveAllToActiveOrBackoffQueue

/-- The loop of `flushBackoffQCompleted`, on fuel: each round pops a pod, so the size of
`podBackoffQ` and one more round are enough (`flushBackoffQLoop_fuel`). -/
def flushBackoffQLoop : Nat → PriorityQueue → PriorityQueue
  | 0, q => q
  | fuel + 1, q =>
    match q.podBackoffQ.peek with
    | none => q
    | some pInfo =>
      if q.isPodBackingoff cfg pInfo then q
      else
        let r := q.podBackoffQ.popObj (q.backoffLess cfg)
        match r.2 with
        | .error _ => { q with podBackoffQ := r.1 }
        | .ok _ => flushBackoffQLoop fuel ({ q with podBackoffQ := r.1 }.addToActiveQ cfg verdict pInfo).1
attribute [grind] flushBackoffQLoop

/-- `flushBackoffQCompleted`. -/
def flushBackoffQCompleted : PriorityQueue :=
  flushBackoffQLoop cfg verdict (p.podBackoffQ.len + 1) p
attribute [grind] flushBackoffQCompleted

/-- Each round of the loop that does not stop takes one pod off `podBackoffQ`; a round on an
empty `podBackoffQ` stops.  So the size of `podBackoffQ` and one more round are enough: more fuel
changes nothing, and `flushBackoffQCompleted` runs the loop of the source to its end. -/
theorem flushBackoffQLoop_fuel (fuel : Nat) :
    ∀ q : PriorityQueue, q.podBackoffQ.Indexed → q.podBackoffQ.queue.length < fuel →
      flushBackoffQLoop cfg verdict (fuel + 1) q = flushBackoffQLoop cfg verdict fuel q := by
  induction fuel with
  | zero => exact fun _ _ hlt => absurd hlt (Nat.not_lt_zero _)
  | succ fuel ih =>
    intro q hd hlt
    conv_lhs => rw [flushBackoffQLoop]
    conv_rhs => rw [flushBackoffQLoop]
    dsimp only
    split
    · rfl
    · next pInfo hpeek =>
      split_ifs
      · rfl
      · split
        · rfl
        · -- the round took the root off: one position fewer
          have hpos := hd.length_pos_of_peek hpeek
          apply ih
          · rw [podBackoffQ_addToActiveQ]
            exact hd.popObj _
          · rw [podBackoffQ_addToActiveQ]
            show (q.podBackoffQ.popObj (q.backoffLess cfg)).1.queue.length < fuel
            rw [hd.length_popObj_fst]
            omega

/-- `flushUnschedulablePodsLeftover`: the pods that have waited longer than
`podMaxInUnschedulablePodsDuration`. -/
def flushUnschedulablePodsLeftover : PriorityQueue :=
  let podsToMove := (p.unschedulablePods.podInfoMap.map (·.2)).filter fun pInfo =>
    decide (p.now - (p.podInfo pInfo).timestamp > cfg.podMaxInUnschedulablePodsDuration)
  if podsToMove.length > 0 then p.movePodsToActiveOrBackoffQueue cfg verdict podsToMove unschedulableTimeout
  else p
attribute [grind] flushUnschedulablePodsLeftover

/-- `Pop`: `none` while `activeQ` is empty and the queue open, which is where Go blocks; the
address of the pod otherwise. -/
def pop : Option (PriorityQueue × Except String Nat) :=
  if p.activeQ.len = 0 then
    if p.closed then some (p, .error "scheduling queue is closed") else none
  else
    let r := p.activeQ.popObj (p.activeLess cfg)
    match r.2 with
    | .error e => some ({ p with activeQ := r.1 }, .error e)
    | .ok pInfo =>
      -- `pInfo.Attempts++`, through the pointer
      some (({ p with activeQ := r.1, schedulingCycle := p.schedulingCycle + 1 }).modifyPodInfo pInfo
          fun x => { x with attempts := x.attempts + 1 }, .ok pInfo)
attribute [grind] pop

/-- `Delete`: from `activeQ` if it is there, and otherwise from the other two. -/
def delete (pod : Pod) : PriorityQueue :=
  let key := metaNamespaceKeyFunc pod
  match p.activeQ.delete (p.activeLess cfg) key with
  | .ok q => { p with activeQ := q }
  | .error _ =>
    let q := p.deleteBackoff cfg key
    if (q.unschedulablePods.get pod).isSome then q.deleteUnschedulable pod else q
attribute [grind] delete

end PriorityQueue

/-! ## What the parts do -/

namespace Config

variable (cfg : Config) (verdict : String → Pod → Bool) (pInfo : QueuedPodInfo)

/-- The plugins let a pod through exactly when every plugin of its profile does. -/
theorem runPreEnqueuePlugins_snd_eq_true_iff :
    (cfg.runPreEnqueuePlugins verdict pInfo).2 = true ↔
      ∀ pl ∈ cfg.preEnqueuePluginMap pInfo.pod.schedulerName, verdict pl pInfo.pod = true := by
  unfold runPreEnqueuePlugins
  split
  · next pl hfind =>
    simp only [Bool.false_eq_true, false_iff, not_forall]
    have hpl := List.find?_some hfind
    exact ⟨pl, List.mem_of_find?_eq_some hfind, by simpa using hpl⟩
  · next hfind =>
    simp only [true_iff]
    intro pl hpl
    simpa using List.find?_eq_none.mp hfind pl hpl

/-- When every plugin lets the pod through, nothing is recorded. -/
theorem runPreEnqueuePlugins_of_pass
    (hpass : ∀ pl ∈ cfg.preEnqueuePluginMap pInfo.pod.schedulerName, verdict pl pInfo.pod = true) :
    cfg.runPreEnqueuePlugins verdict pInfo = (pInfo, true) := by
  unfold runPreEnqueuePlugins
  rw [List.find?_eq_none.mpr fun pl hpl => by simp [hpass pl hpl]]

end Config

namespace UnschedulablePods

variable (u : UnschedulablePods)

/-- One entry of a map's list, read by key. -/
theorem lookup_cons_eq (k : String) (e : String × Nat) (l : List (String × Nat)) :
    (e :: l).lookup k = if k = e.1 then some e.2 else l.lookup k := by
  obtain ⟨k', v⟩ := e
  by_cases h : k = k'
  · subst h
    simp [List.lookup]
  · have hne : (k == k') = false := by simpa using h
    simp [List.lookup, hne, h]

theorem lookup_map_replace (l : List (String × Nat)) (k k' : String) (v : Nat) :
    (l.map fun e => if e.1 == k then (k, v) else e).lookup k' =
      if k' = k then (if l.any (·.1 == k) then some v else none) else l.lookup k' := by
  induction l with
  | nil => simp [List.lookup]
  | cons e l ih =>
    rw [List.map_cons, lookup_cons_eq, lookup_cons_eq, ih]
    by_cases he : e.1 = k
    · by_cases hk : k' = k <;> simp [he, hk]
    · have hb : (e.1 == k) = false := by simpa using he
      by_cases hk : k' = e.1
      · simp [he, hb, hk]
      · simp only [hb, Bool.false_eq_true, if_false, hk, List.any_cons, Bool.false_or]

theorem lookup_append_single (l : List (String × Nat)) (k k' : String) (v : Nat)
    (hnew : l.any (·.1 == k) = false) :
    (l ++ [(k, v)]).lookup k' = if k' = k then some v else l.lookup k' := by
  induction l with
  | nil =>
    rw [List.nil_append, lookup_cons_eq]
  | cons e l ih =>
    simp only [List.any_cons, Bool.or_eq_false_iff, beq_eq_false_iff_ne] at hnew
    rw [List.cons_append, lookup_cons_eq, lookup_cons_eq, ih hnew.2]
    by_cases hk : k' = e.1
    · simp [hk, hnew.1]
    · simp [hk]

/-- `addOrUpdate` writes the entry of the pod's full name. -/
theorem get_addOrUpdate (pod : Pod) (pInfo : Nat) (pod' : Pod) :
    (u.addOrUpdate pod pInfo).get pod' =
      if getPodFullName pod' = getPodFullName pod then some pInfo else u.get pod' := by
  simp only [addOrUpdate, get]
  split
  · next hany =>
    rw [lookup_map_replace, hany]
    rfl
  · next hany =>
    exact lookup_append_single _ _ _ _ (Bool.eq_false_iff.mpr hany)

end UnschedulablePods

/-! ## Runs -/

/-- A call on the queue, or the clock going on.  `setUnschedulablePlugins` is the scheduler's
write `podInfo.UnschedulablePlugins = fitError.Diagnosis.UnschedulablePlugins` into an object
`Pop` handed out (`handleSchedulingFailure`). -/
inductive Op
  | add (pod : Pod)
  | activate (pods : List Pod)
  | addUnschedulableIfNotPresent (pInfo : Nat) (podSchedulingCycle : Int)
  | setUnschedulablePlugins (pInfo : Nat) (plugins : List String)
  | pop
  | delete (pod : Pod)
  | moveAllToActiveOrBackoffQueue (event : ClusterEvent) (preCheck : Option (Pod → Bool))
  | flushBackoffQCompleted
  | flushUnschedulablePodsLeftover
  | close
  | tick (now : Int)

namespace PriorityQueue

variable (cfg : Config) (verdict : String → Pod → Bool) (p : PriorityQueue)

/-- The pod's entry in `activeQ`, `podBackoffQ` or `unschedulablePods`. -/
def inActiveQ (pod : Pod) : Bool :=
  (p.activeQ.objAt (metaNamespaceKeyFunc pod)).isSome
attribute [grind] inActiveQ

def inBackoffQ (pod : Pod) : Bool :=
  (p.podBackoffQ.objAt (metaNamespaceKeyFunc pod)).isSome
attribute [grind] inBackoffQ

def inUnschedulablePods (pod : Pod) : Bool :=
  (p.unschedulablePods.get pod).isSome
attribute [grind] inUnschedulablePods

/-- What callers promise: `Add` is for a pod in none of the queues, an object handed back to the
queue or written by the scheduler is one the queue gave out, and the clock does not go back. -/
def Allowed : Op → Bool
  | .add pod => !p.inActiveQ pod && !p.inBackoffQ pod && !p.inUnschedulablePods pod
  | .addUnschedulableIfNotPresent pInfo _ => decide (pInfo < p.numPodInfos)
  | .setUnschedulablePlugins pInfo _ => decide (pInfo < p.numPodInfos)
  | .tick now => decide (p.now ≤ now)
  | _ => true
attribute [grind] Allowed

/-- The queue after a call; `none` for a `Pop` that blocks.  A call that returns an error leaves
the queue as it was. -/
def exec : Op → Option PriorityQueue
  | .add pod => some (p.add cfg verdict pod)
  | .activate pods => some (p.activateAll cfg verdict pods)
  | .addUnschedulableIfNotPresent pInfo podSchedulingCycle =>
    match p.addUnschedulableIfNotPresent cfg pInfo podSchedulingCycle with
    | .ok q => some q
    | .error _ => some p
  | .setUnschedulablePlugins pInfo plugins =>
    some (p.modifyPodInfo pInfo fun x => { x with unschedulablePlugins := plugins })
  | .pop => (p.pop cfg).map (·.1)
  | .delete pod => some (p.delete cfg pod)
  | .moveAllToActiveOrBackoffQueue event preCheck =>
    some (p.moveAllToActiveOrBackoffQueue cfg verdict event preCheck)
  | .flushBackoffQCompleted => some (p.flushBackoffQCompleted cfg verdict)
  | .flushUnschedulablePodsLeftover => some (p.flushUnschedulablePodsLeftover cfg verdict)
  | .close => some { p with closed := true }
  | .tick now => some { p with now := now }
attribute [grind] exec

end PriorityQueue

/-- One call, with what the PreEnqueue plugins answer during it. -/
def Step (cfg : Config) (p : PriorityQueue) (call : Op × (String → Pod → Bool))
    (q : PriorityQueue) : Prop :=
  p.Allowed call.1 = true ∧ p.exec cfg call.2 call.1 = some q
attribute [grind] Step

/-- The queues of the runs from `NewPriorityQueue`. -/
def Reachable (cfg : Config) (now : Int) : PriorityQueue → Prop :=
  Transition.Reachable (· = newPriorityQueue now) (Step cfg)
attribute [grind] Reachable

/-! ## A pod in two queues -/

namespace PriorityQueue

variable {cfg : Config} {verdict : String → Pod → Bool} {p : PriorityQueue}

/-- A write that leaves the object as it is leaves the memory. -/
theorem modifyPodInfo_of_eq {ptr : Nat} {f : QueuedPodInfo → QueuedPodInfo}
    (hf : f (p.podInfo ptr) = p.podInfo ptr) : p.modifyPodInfo ptr f = p := by
  unfold modifyPodInfo
  rw [hf, Function.update_eq_self]

/-- `addToActiveQ` of an ungated object the plugins let through files its address in
`activeQ`, and changes nothing else. -/
theorem addToActiveQ_of_pass {pInfo : Nat} (hg : (p.podInfo pInfo).gated = false)
    (hpass : ∀ pl ∈ cfg.preEnqueuePluginMap (p.podInfo pInfo).pod.schedulerName,
      verdict pl (p.podInfo pInfo).pod = true) :
    p.addToActiveQ cfg verdict pInfo =
      ({ p with activeQ := p.activeQ.add (p.activeLess cfg) p.keyOf pInfo }, true) := by
  have hrun := cfg.runPreEnqueuePlugins_of_pass verdict _ hpass
  have hmod : p.modifyPodInfo pInfo (fun x =>
      { x with unschedulablePlugins := (cfg.runPreEnqueuePlugins verdict (p.podInfo pInfo)).1.unschedulablePlugins,
               gated := !(cfg.runPreEnqueuePlugins verdict (p.podInfo pInfo)).2 }) = p := by
    apply modifyPodInfo_of_eq
    rw [hrun]
    simp [← hg]
  unfold addToActiveQ
  dsimp only
  rw [hmod, hrun]
  simp only [Bool.not_true, Bool.false_eq_true, if_false]

/-- `addToActiveQ` of an object a plugin rejects: the object is gated, with the plugin recorded,
and its address goes to `unschedulablePods`. -/
theorem addToActiveQ_of_gated {pInfo : Nat}
    (hgated : (cfg.runPreEnqueuePlugins verdict (p.podInfo pInfo)).2 = false) :
    p.addToActiveQ cfg verdict pInfo =
      let q := p.modifyPodInfo pInfo fun x =>
        { x with unschedulablePlugins :=
            (cfg.runPreEnqueuePlugins verdict (p.podInfo pInfo)).1.unschedulablePlugins, gated := true }
      ({ q with unschedulablePods := q.unschedulablePods.addOrUpdate (q.podInfo pInfo).pod pInfo }, false) := by
  unfold addToActiveQ
  dsimp only
  rw [hgated]
  rfl

/-- `Add` of a pod the plugins let through and that is neither unschedulable nor backing off
files the new object's address in `activeQ`, and changes nothing else. -/
theorem add_of_pass {pod : Pod}
    (hpass : ∀ pl ∈ cfg.preEnqueuePluginMap pod.schedulerName, verdict pl pod = true)
    (hu : p.unschedulablePods.get pod = none)
    (hb : p.podBackoffQ.objAt (metaNamespaceKeyFunc pod) = none) :
    p.add cfg verdict pod =
      let n := p.newQueuedPodInfo pod
      { n.2 with activeQ := n.2.activeQ.add (n.2.activeLess cfg) n.2.keyOf n.1 } := by
  have hobj : (p.newQueuedPodInfo pod).2.podInfo p.numPodInfos = ⟨pod, p.now, 0, p.now, [], false⟩ := by
    simp [newQueuedPodInfo]
  have hfst : (p.newQueuedPodInfo pod).1 = p.numPodInfos := rfl
  unfold add
  dsimp only
  rw [addToActiveQ_of_pass (by rw [hfst, hobj]) (by rw [hfst, hobj]; exact hpass)]
  simp only [Bool.not_true, Bool.false_eq_true, if_false]
  have hu' : (p.newQueuedPodInfo pod).2.unschedulablePods.get pod = none := hu
  rw [hu', Option.isSome_none, if_neg Bool.false_ne_true]
  unfold deleteBackoff
  rw [Data.delete_of_objAt_eq_none (by simpa [keyOf, hfst, hobj, podInfoKeyFunc, newQueuedPodInfo] using hb)]

/-- `Pop` of the only address in `activeQ`: the object counts one more attempt. -/
theorem pop_of_activeQ_single {key : String} {item : HeapItem Nat}
    (hq : p.activeQ.queue = [key]) (hitem : p.activeQ.items key = some item) :
    p.pop cfg = some (({ p with
        activeQ := (⟨Function.update p.activeQ.items key none, []⟩ : Data Nat)
        schedulingCycle := p.schedulingCycle + 1 }).modifyPodInfo item.obj
          fun x => { x with attempts := x.attempts + 1 }, .ok item.obj) := by
  unfold pop
  rw [if_neg (by simp [Data.len, hq]), Data.popObj_of_queue_eq_single hq hitem]

/-- A move request with no unschedulable pod only records the cycle. -/
theorem moveAllToActiveOrBackoffQueue_of_nil (hnil : p.unschedulablePods.podInfoMap = [])
    (event : ClusterEvent) (preCheck : Option (Pod → Bool)) :
    p.moveAllToActiveOrBackoffQueue cfg verdict event preCheck =
      { p with moveRequestCycle := p.schedulingCycle } := by
  simp [moveAllToActiveOrBackoffQueue, movePodsToActiveOrBackoffQueue, hnil, movePodsLoop]

/-- After a move request in the pod's cycle, `AddUnschedulableIfNotPresent` of an object whose
pod is in none of the queues stamps it with the clock and files it in `podBackoffQ`. -/
theorem addUnschedulableIfNotPresent_of_moveRequest {pInfo : Nat} {podSchedulingCycle : Int}
    (hu : p.unschedulablePods.get (p.podInfo pInfo).pod = none)
    (ha : p.activeQ.objAt (p.keyOf pInfo) = none)
    (hb : p.podBackoffQ.objAt (p.keyOf pInfo) = none)
    (hcycle : p.moveRequestCycle ≥ podSchedulingCycle) :
    p.addUnschedulableIfNotPresent cfg pInfo podSchedulingCycle =
      let q := p.modifyPodInfo pInfo fun x => { x with timestamp := p.now }
      .ok { q with podBackoffQ := q.podBackoffQ.add (q.backoffLess cfg) q.keyOf pInfo } := by
  unfold addUnschedulableIfNotPresent
  dsimp only
  rw [ha, hb, hu]
  simp [hcycle]

/-- `activate` of a pod found only in `podBackoffQ`, which a plugin now rejects: the object is
gated, and its address goes to `unschedulablePods` and stays in `podBackoffQ`. -/
theorem activate_of_gated_backoff {pod : Pod} {pInfo : Nat}
    (ha : p.activeQ.objAt (metaNamespaceKeyFunc pod) = none)
    (hu : p.unschedulablePods.get pod = none)
    (hb : p.podBackoffQ.objAt (metaNamespaceKeyFunc pod) = some pInfo)
    (hgated : (cfg.runPreEnqueuePlugins verdict (p.podInfo pInfo)).2 = false) :
    p.activate cfg verdict pod = ((p.addToActiveQ cfg verdict pInfo).1, false) := by
  unfold activate
  rw [ha, if_neg (by simp), hu]
  simp only
  rw [hb]
  simp only [addToActiveQ_of_gated hgated, Bool.not_false, if_true]

end PriorityQueue

/-- From a new queue, in every configuration whose profile has a PreEnqueue plugin: `Add` of a
pod the plugins let through, `Pop`, a move request, `AddUnschedulableIfNotPresent` of the popped
pod in the same cycle (it goes to `podBackoffQ`), and `Activate` of the pod while a plugin
rejects it.  The pod ends in both `podBackoffQ` and `unschedulablePods`. -/
theorem activate_gated_backoff_pod_in_two_queues (cfg : Config) (pod : Pod) (now : Int)
    (hplugins : cfg.preEnqueuePluginMap pod.schedulerName ≠ []) :
    ∃ p, Reachable cfg now p ∧ p.inBackoffQ pod = true ∧ p.inUnschedulablePods pod = true := by
  -- the plugins let every pod through, until `Activate`, where they reject every pod
  let accept : String → Pod → Bool := fun _ _ => true
  let reject : String → Pod → Bool := fun _ _ => false
  have hgate : ∀ pInfo : QueuedPodInfo, pInfo.pod = pod →
      (cfg.runPreEnqueuePlugins reject pInfo).2 = false := by
    intro pInfo hpod
    obtain ⟨pl, hpl⟩ := List.exists_mem_of_ne_nil _ hplugins
    cases hrun : (cfg.runPreEnqueuePlugins reject pInfo).2
    · rfl
    · have hpass := (Config.runPreEnqueuePlugins_snd_eq_true_iff cfg reject pInfo).mp hrun pl
        (hpod ▸ hpl)
      exact absurd hpass (by simp [reject])
  let key := metaNamespaceKeyFunc pod
  let s0 := newPriorityQueue now
  -- `Add`: the new object, at address `0`, is the only one in `activeQ`
  let s1 := s0.add cfg accept pod
  have h1 : s1 = { (s0.newQueuedPodInfo pod).2 with
      activeQ := Data.empty.add ((s0.newQueuedPodInfo pod).2.activeLess cfg)
        (s0.newQueuedPodInfo pod).2.keyOf 0 } :=
    PriorityQueue.add_of_pass (p := s0) (fun _ _ => rfl) rfl rfl
  have hpod1 : (s1.podInfo 0).pod = pod := by
    rw [h1]
    rfl
  have hq1 : s1.activeQ = ⟨Function.update (fun _ => none) key (some ⟨0, 0⟩), [key]⟩ := by
    rw [h1]
    exact Data.add_of_queue_eq_nil (h := Data.empty) rfl rfl
  have hitem1 : s1.activeQ.items key = some ⟨0, 0⟩ := by
    rw [hq1]
    simp only [Function.update_self]
  -- `Pop` hands out address `0`, in cycle `1`
  let s2 := ({ s1 with
      activeQ := (⟨Function.update s1.activeQ.items key none, []⟩ : Data Nat)
      schedulingCycle := s1.schedulingCycle + 1 }).modifyPodInfo 0
    fun x => { x with attempts := x.attempts + 1 }
  have h2 : s1.pop cfg = some (s2, .ok 0) :=
    PriorityQueue.pop_of_activeQ_single (by rw [hq1]) hitem1
  -- a move request records cycle `1`
  let s3 := { s2 with moveRequestCycle := s2.schedulingCycle }
  have h3 : s2.moveAllToActiveOrBackoffQueue cfg accept unschedulableTimeout none = s3 := by
    apply PriorityQueue.moveAllToActiveOrBackoffQueue_of_nil
    simp only [s2, PriorityQueue.unschedulablePods_modifyPodInfo]
    rw [h1]
    rfl
  -- `AddUnschedulableIfNotPresent` in cycle `1` files address `0` in `podBackoffQ`
  have hpod3 : (s3.podInfo 0).pod = pod := by
    simp [s3, s2, hpod1]
  have hkey3 : s3.keyOf 0 = key := by
    simp only [PriorityQueue.keyOf, podInfoKeyFunc, hpod3, key]
  have hnone : s3.activeQ.objAt key = none := by
    simp [s3, s2, Data.objAt]
  have hu3 : s3.unschedulablePods = ⟨[]⟩ := by
    simp only [s3, s2, PriorityQueue.unschedulablePods_modifyPodInfo]
    rw [h1]
    rfl
  have hb3 : s3.podBackoffQ = Data.empty := by
    simp only [s3, s2, PriorityQueue.podBackoffQ_modifyPodInfo]
    rw [h1]
    rfl
  let q4 := s3.modifyPodInfo 0 fun x => { x with timestamp := s3.now }
  let s4 : PriorityQueue := { q4 with podBackoffQ := q4.podBackoffQ.add (q4.backoffLess cfg) q4.keyOf 0 }
  have h4 : s3.addUnschedulableIfNotPresent cfg 0 s2.schedulingCycle = .ok s4 :=
    PriorityQueue.addUnschedulableIfNotPresent_of_moveRequest (by rw [hu3]; rfl) (by rw [hkey3, hnone])
      (by rw [hb3]; rfl) le_rfl
  -- `Activate` while the plugins reject the pod: its address goes to `unschedulablePods` as well
  have hpod4 : (s4.podInfo 0).pod = pod := by
    simp [s4, q4, hpod3]
  have hb4 : s4.podBackoffQ.objAt key = some 0 := by
    simp [s4, q4, Data.objAt_add, PriorityQueue.keyOf, podInfoKeyFunc, hpod3, key]
  have ha4 : s4.activeQ.objAt key = none := by
    simpa [s4, q4] using hnone
  have hu4 : s4.unschedulablePods.get pod = none := by
    simp only [s4, q4, PriorityQueue.unschedulablePods_modifyPodInfo, hu3]
    rfl
  let s5 := (s4.addToActiveQ cfg reject 0).1
  have h5 : s4.activate cfg reject pod = (s5, false) :=
    PriorityQueue.activate_of_gated_backoff ha4 hu4 hb4 (hgate _ hpod4)
  refine ⟨s5, ?_, ?_, ?_⟩
  · have r1 : Reachable cfg now s1 := .step (.init rfl) (a := (.add pod, accept)) ⟨rfl, rfl⟩
    have r2 : Reachable cfg now s2 := .step r1 (a := (.pop, accept)) ⟨rfl, by
      show (s1.pop cfg).map (·.1) = some s2
      rw [h2]
      rfl⟩
    have r3 : Reachable cfg now s3 :=
      .step r2 (a := (.moveAllToActiveOrBackoffQueue unschedulableTimeout none, accept))
        ⟨rfl, by rw [← h3]; rfl⟩
    have hn3 : s3.numPodInfos = 1 := by
      simp only [s3, s2, PriorityQueue.numPodInfos_modifyPodInfo]
      rw [h1]
      rfl
    have r4 : Reachable cfg now s4 :=
      .step r3 (a := (.addUnschedulableIfNotPresent 0 s2.schedulingCycle, accept)) ⟨by
        show decide (0 < s3.numPodInfos) = true
        rw [hn3]
        rfl, by
        show (match s3.addUnschedulableIfNotPresent cfg 0 s2.schedulingCycle with
          | .ok q => some q
          | .error _ => some s3) = some s4
        rw [h4]⟩
    exact .step r4 (a := (.activate [pod], reject)) ⟨rfl, by
      show some ([pod].foldl (fun q pod => (q.activate cfg reject pod).1) s4) = some s5
      rw [List.foldl_cons, List.foldl_nil, h5]⟩
  · show (s5.podBackoffQ.objAt key).isSome = true
    rw [PriorityQueue.podBackoffQ_addToActiveQ, hb4]
    rfl
  · show ((s4.addToActiveQ cfg reject 0).1.unschedulablePods.get pod).isSome = true
    rw [PriorityQueue.addToActiveQ_of_gated (hgate _ hpod4)]
    simp [UnschedulablePods.get_addOrUpdate, hpod4]

/-- A profile with one PreEnqueue plugin, and a pod of it. -/
theorem activate_gated_backoff_pod_in_two_queues_gate :
    (["gate"] : List String) ≠ [] ∧
      ∃ p, Reachable ⟨fun _ _ => false, 1, 10, 60, [], fun _ => ["gate"]⟩ 0 p ∧
        p.inBackoffQ ⟨"default", "web", "default-scheduler"⟩ = true ∧
        p.inUnschedulablePods ⟨"default", "web", "default-scheduler"⟩ = true :=
  ⟨by decide, activate_gated_backoff_pod_in_two_queues _ _ 0 (by decide)⟩

end Scheduler
end Kubernetes
