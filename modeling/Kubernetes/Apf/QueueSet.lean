import Mathlib
import Kubernetes.Transition.Reachable

/-!
# API priority and fairness: the `queueSet`

`apiserver/pkg/util/flowcontrol/fairqueuing/queueset/queueset.go`, with the work estimates of
`util/flowcontrol/request` and the dealer of `util/shufflesharding`.  A `queueSet` admits the
requests of one priority level.  Every request asks for seats (`MaxSeats` of its work
estimate); `StartRequest` either dispatches it at once (no queues are configured) or puts it
in the queue that shuffle sharding picks; `dispatchAsMuchAsPossibleLocked` then starts queued
requests by fair queuing while seats are free.  A request holds its seats while it executes
and, when its work estimate has an `AdditionalLatency`, for that long after it finished
("lingering" seats), released by an event on the clock.  Queues beyond the desired number are
removed once they drain.

The model is the state of the `queueSet` and one function per method, with the Go objects as
an arena: queues and requests are numbered, `qs.queues` lists the numbers of the queues the
set holds, and a request refers to its queue by number, as the Go request holds a pointer to a
queue that may since have left `qs.queues`.  Each call that takes the lock is one step of
`QueueSet.step`, together with the steps of the goroutines of the requests: the client's
`Wait`, the end of execution (`Finish`), the cancellation of a request's context and the
release of lingering seats.

Modelling choices:

* Go `int`s are `Int`, `uint64`s are `Nat` (seat counts) or `UInt64` (`SeatSeconds`), times
  and durations are nanoseconds in `Int`; the clock is a field of the state, advanced by a
  step of its own.
* The floating-point products of `SeatsTimesDuration` and `DurationPerSeat` are computed
  exactly on integers and rounded where Go rounds; the ratio of `getVirtualTimeRatioLocked` is
  kept as a fraction.  Go computes them in `float64` (`seat_seconds.go` 40-54), which also
  rounds each product and quotient on the way, so the two can differ by one unit where that
  rounding moves a value across a rounding or truncation boundary.  No result over every run
  reads these values (the seat and request counts of `SeatLimit` do not depend on them), and
  the runs at fixed inputs use small values on which the two agree.  A negative product wraps
  around in its conversion to `uint64`, as on amd64.  `RequiredEntropyBits` is compared
  exactly (`deckSize ^ handSize > 2 ^ 60`).
* A Go panic (a nil dereference, an index or slice bound) is an `Except.error`; a step that
  panics ends the run.
* Metrics, logs, and the request fields used only by them (names, descriptions, the context
  other than its cancellation) are left out; `waitStarted`, `finished` and `releaseAt` record
  where the goroutines of a request are, which the source keeps in their program counters.
* The loop of `dispatchAsMuchAsPossibleLocked` runs on fuel: one more than the number of
  requests waiting in `qs.queues`, each dispatch taking one of them out.
-/

namespace Kubernetes
namespace Apf

/-! ### Seat-seconds and work estimates -/

/-- `SeatSeconds`: seat-seconds scaled by `ssScale` = 1e8. -/
abbrev SeatSeconds := UInt64

/-- `MaxSeatSeconds`. -/
def maxSeatSeconds : SeatSeconds := 18446744073709551615
attribute [grind] maxSeatSeconds

/-- Go's `math.Round` of the quotient `a / b`, for `b > 0`: halves go away from zero. -/
def roundDiv (a : Int) (b : Nat) : Int :=
  if 0 ≤ a then (2 * a + b) / (2 * b) else -((2 * -a + b) / (2 * b))
attribute [grind] roundDiv

/-- `SeatsTimesDuration` for `seats / per` seats: `seats * duration` nanoseconds over
`1e9 / ssScale = 10`, rounded. -/
def seatsTimesDuration (seats : Int) (per : Nat) (duration : Int) : SeatSeconds :=
  UInt64.ofInt (roundDiv (seats * duration) (per * 10))
attribute [grind] seatsTimesDuration

/-- `DurationPerSeat`: `ss / seats * 10` nanoseconds, truncated; Go divides and multiplies in
`float64` before it truncates. -/
def durationPerSeat (ss : SeatSeconds) (seats : Nat) : Int :=
  (ss.toNat * 10 / seats : Nat)
attribute [grind] durationPerSeat

/-- `WorkEstimate`. -/
structure WorkEstimate where
  initialSeats : Nat
  finalSeats : Nat
  additionalLatency : Int
  deriving DecidableEq, Repr, Inhabited

/-- `MaxSeats`. -/
def WorkEstimate.maxSeats (we : WorkEstimate) : Int :=
  if we.initialSeats ≥ we.finalSeats then we.initialSeats else we.finalSeats
attribute [grind] WorkEstimate.maxSeats

/-- `completedWorkEstimate`. -/
structure CompletedWorkEstimate extends WorkEstimate where
  totalWork : SeatSeconds
  finalWork : SeatSeconds
  deriving DecidableEq, Repr, Inhabited

/-- `estimatedServiceDuration`: 3ms. -/
def estimatedServiceDuration : Int := 3000000
attribute [grind] estimatedServiceDuration

/-- `completeWorkEstimate`, with `computeInitialWork` and `computeFinalWork`. -/
def completeWorkEstimate (we : WorkEstimate) : CompletedWorkEstimate :=
  let finalWork := seatsTimesDuration we.finalSeats 1 we.additionalLatency
  { we with
    totalWork := seatsTimesDuration we.initialSeats 1 estimatedServiceDuration + finalWork
    finalWork := finalWork }
attribute [grind] completeWorkEstimate

@[simp] theorem completeWorkEstimate_toWorkEstimate (we : WorkEstimate) :
    (completeWorkEstimate we).toWorkEstimate = we := rfl

/-! ### Shuffle sharding -/

/-- `MaxHashBits`. -/
def maxHashBits : Nat := 60
attribute [grind] maxHashBits

/-- `Dealer`, as `NewDealer` builds it: a hand is never empty nor larger than the deck. -/
structure Dealer where
  deckSize : Nat
  handSize : Nat
  handSize_pos : 0 < handSize
  handSize_le : handSize ≤ deckSize

/-- `NewDealer`. -/
def newDealer (deckSize handSize : Int) : Except String Dealer :=
  if h₁ : deckSize ≤ 0 ∨ handSize ≤ 0 then
    .error ("deckSize " ++ toString deckSize ++ " or handSize " ++ toString handSize ++
      " is not positive")
  else if h₂ : handSize > deckSize then
    .error ("handSize " ++ toString handSize ++ " is greater than deckSize " ++
      toString deckSize)
  else if deckSize > 2 ^ 26 then
    .error ("deckSize " ++ toString deckSize ++ " is impractically large")
  else if deckSize.toNat ^ handSize.toNat > 2 ^ maxHashBits then
    .error ("required entropy bits of deckSize " ++ toString deckSize ++ " and handSize " ++
      toString handSize ++ " is greater than " ++ toString maxHashBits)
  else
    .ok { deckSize := deckSize.toNat, handSize := handSize.toNat
          handSize_pos := by omega, handSize_le := by omega }
attribute [grind] newDealer

/-- `Deal`: the remainders of `hashValue` in the mixed radix `deckSize, deckSize - 1, ...`,
each card then skipping the cards dealt before it. -/
def Dealer.deal (d : Dealer) (hashValue : UInt64) : List Nat :=
  let remainders := ((List.range d.handSize).foldl (fun (acc : List Nat × Nat) i =>
    let hashValueNext := acc.2 / (d.deckSize - i)
    (acc.1 ++ [acc.2 - (d.deckSize - i) * hashValueNext], hashValueNext))
    ([], hashValue.toNat)).1
  (List.range d.handSize).map fun i =>
    (List.range i).reverse.foldl (fun card j =>
      if card ≥ remainders.getD j 0 then card + 1 else card) (remainders.getD i 0)
attribute [grind] Dealer.deal

/-! ### Configuration -/

/-- `QueuingConfig` (its `Name` is only logged). -/
structure QueuingConfig where
  desiredNumQueues : Int
  queueLengthLimit : Int
  handSize : Int
  requestWaitLimit : Int
  deriving DecidableEq, Repr

/-- `DispatchingConfig`. -/
structure DispatchingConfig where
  concurrencyLimit : Int
  deriving DecidableEq, Repr

/-- `checkConfig`: the dealer of the configuration, none when it asks for no queues. -/
def checkConfig (qCfg : QueuingConfig) : Except String (Option Dealer) :=
  if qCfg.desiredNumQueues = 0 then .ok none
  else
    match newDealer qCfg.desiredNumQueues qCfg.handSize with
    | .ok dealer => .ok (some dealer)
    | .error err =>
      .error ("the QueueSetConfig implies an invalid shuffle sharding config " ++
        "(DesiredNumQueues is deckSize): " ++ err)
attribute [grind] checkConfig

/-! ### Requests, queues and the set -/

/-- `requestDecision`. -/
inductive RequestDecision
  | execute
  | reject
  | cancel
  deriving DecidableEq, Repr

/-- `queueSum`. -/
structure QueueSum where
  initialSeatsSum : Int
  maxSeatsSum : Int
  totalWorkSum : SeatSeconds
  deriving DecidableEq, Repr, Inhabited

/-- `request`.  `decision` is the write-once promise (`none` while unset); `waitStarted` is
the source's field; `finished` and `releaseAt` say whether the request's execution has ended
and when its pending `EventAfterDuration` releases its lingering seats. -/
structure Request where
  queue : Option Nat
  workEstimate : CompletedWorkEstimate
  decision : Option RequestDecision
  arrivalTime : Int
  arrivalR : SeatSeconds
  startTime : Int
  waitStarted : Bool
  finished : Bool
  releaseAt : Option Int
  deriving Inhabited

/-- `MaxSeats` of a request. -/
def Request.maxSeats (r : Request) : Int :=
  r.workEstimate.maxSeats
attribute [grind] Request.maxSeats

/-- `InitialSeats` of a request. -/
def Request.initialSeats (r : Request) : Int :=
  r.workEstimate.initialSeats
attribute [grind] Request.initialSeats

/-- `totalWork` of a request. -/
def Request.totalWork (r : Request) : SeatSeconds :=
  r.workEstimate.totalWork
attribute [grind] Request.totalWork

/-- `addToQueueSum`. -/
def addToQueueSum (sum : QueueSum) (req : Request) : QueueSum :=
  { initialSeatsSum := sum.initialSeatsSum + req.initialSeats
    maxSeatsSum := sum.maxSeatsSum + req.maxSeats
    totalWorkSum := sum.totalWorkSum + req.totalWork }
attribute [grind] addToQueueSum

/-- `deductFromQueueSum`. -/
def deductFromQueueSum (sum : QueueSum) (req : Request) : QueueSum :=
  { initialSeatsSum := sum.initialSeatsSum - req.initialSeats
    maxSeatsSum := sum.maxSeatsSum - req.maxSeats
    totalWorkSum := sum.totalWorkSum - req.totalWork }
attribute [grind] deductFromQueueSum

/-- `queue`, with the FIFO of its waiting requests (oldest first) and the sum it keeps. -/
structure Queue where
  requests : List Nat
  sum : QueueSum
  nextDispatchR : SeatSeconds
  requestsExecuting : Int
  index : Int
  seatsInUse : Int
  deriving DecidableEq, Repr, Inhabited

/-- `queueSet`: the queues and requests are numbered, `queueObj` and `request` give the
objects and `numQueueObjs`, `numRequests` how many were created. -/
structure QueueSet where
  qCfg : QueuingConfig
  dCfg : DispatchingConfig
  dealer : Option Dealer
  queues : List Nat
  queueObj : Nat → Queue
  numQueueObjs : Nat
  request : Nat → Request
  numRequests : Nat
  currentR : SeatSeconds
  lastRealTime : Int
  robinIndex : Int
  totRequestsWaiting : Int
  totRequestsExecuting : Int
  totSeatsInUse : Int
  totSeatsWaiting : Int
  enqueues : Nat
  now : Int

/-- The text of a nil dereference. -/
def nilDereference : String :=
  "runtime error: invalid memory address or nil pointer dereference"
attribute [grind] nilDereference

/-- The text of an index out of range. -/
def indexOutOfRange : String :=
  "runtime error: index out of range"
attribute [grind] indexOutOfRange

/-- The text of slice bounds out of range. -/
def sliceBoundsOutOfRange : String :=
  "runtime error: slice bounds out of range"
attribute [grind] sliceBoundsOutOfRange

/-- `rDecrement`. -/
def rDecrement : SeatSeconds := maxSeatSeconds / 2
attribute [grind] rDecrement

/-- `highR`. -/
def highR : SeatSeconds := rDecrement + rDecrement / 2
attribute [grind] highR

namespace QueueSet

variable (qs : QueueSet)

/-! #### The arena -/

/-- Apply `f` to the queue object `qid`. -/
def modifyQueue (qid : Nat) (f : Queue → Queue) : QueueSet :=
  { qs with queueObj := Function.update qs.queueObj qid (f (qs.queueObj qid)) }
attribute [grind] modifyQueue

/-- Apply `f` to the request `rid`. -/
def modifyRequest (rid : Nat) (f : Request → Request) : QueueSet :=
  { qs with request := Function.update qs.request rid (f (qs.request rid)) }
attribute [grind] modifyRequest

/-- A new request object. -/
def newRequest (r : Request) : Nat × QueueSet :=
  (qs.numRequests,
    { qs with request := Function.update qs.request qs.numRequests r
              numRequests := qs.numRequests + 1 })
attribute [grind] newRequest

theorem modifyQueue_queueObj (qid : Nat) (f : Queue → Queue) (qid' : Nat) :
    (qs.modifyQueue qid f).queueObj qid' =
      if qid' = qid then f (qs.queueObj qid) else qs.queueObj qid' := by
  simp [modifyQueue, Function.update_apply]

@[simp] theorem modifyRequest_numRequests (rid : Nat) (f : Request → Request) :
    (qs.modifyRequest rid f).numRequests = qs.numRequests := rfl

@[simp] theorem modifyRequest_totRequestsExecuting (rid : Nat) (f : Request → Request) :
    (qs.modifyRequest rid f).totRequestsExecuting = qs.totRequestsExecuting := rfl

@[simp] theorem modifyRequest_totSeatsInUse (rid : Nat) (f : Request → Request) :
    (qs.modifyRequest rid f).totSeatsInUse = qs.totSeatsInUse := rfl

theorem modifyRequest_request (rid : Nat) (f : Request → Request) (rid' : Nat) :
    (qs.modifyRequest rid f).request rid' =
      if rid' = rid then f (qs.request rid) else qs.request rid' := by
  simp [modifyRequest, Function.update_apply]

@[simp] theorem newRequest_fst (r : Request) : (qs.newRequest r).1 = qs.numRequests := rfl

@[simp] theorem newRequest_numRequests (r : Request) :
    (qs.newRequest r).2.numRequests = qs.numRequests + 1 := rfl

@[simp] theorem newRequest_queueObj (r : Request) : (qs.newRequest r).2.queueObj = qs.queueObj := rfl

@[simp] theorem newRequest_totRequestsExecuting (r : Request) :
    (qs.newRequest r).2.totRequestsExecuting = qs.totRequestsExecuting := rfl

@[simp] theorem newRequest_totSeatsInUse (r : Request) :
    (qs.newRequest r).2.totSeatsInUse = qs.totSeatsInUse := rfl

theorem newRequest_request (r : Request) (rid : Nat) :
    (qs.newRequest r).2.request rid = if rid = qs.numRequests then r else qs.request rid := by
  simp [newRequest, Function.update_apply]

/-- `qs.queues[i]`, none when out of range. -/
def queueAt (i : Int) : Option Nat :=
  if i < 0 then none else qs.queues[i.toNat]?
attribute [grind] queueAt

/-- `createQueues(n, len(qs.queues))`, appended to `qs.queues`. -/
def createQueues (n : Nat) : QueueSet :=
  let base := qs.queues.length
  { qs with
    queues := qs.queues ++ (List.range n).map (qs.numQueueObjs + ·)
    queueObj := fun qid =>
      if qs.numQueueObjs ≤ qid ∧ qid < qs.numQueueObjs + n then
        { requests := [], sum := { initialSeatsSum := 0, maxSeatsSum := 0, totalWorkSum := 0 },
          nextDispatchR := 0, requestsExecuting := 0, index := base + (qid - qs.numQueueObjs),
          seatsInUse := 0 }
      else qs.queueObj qid
    numQueueObjs := qs.numQueueObjs + n }
attribute [grind] createQueues

/-! #### Virtual time -/

/-- `isIdleLocked`. -/
def isIdleLocked : Bool :=
  qs.totRequestsWaiting == 0 && qs.totRequestsExecuting == 0
attribute [grind] isIdleLocked

/-- `getVirtualTimeRatioLocked`, as a number of seats and the number of active queues it is
shared by. -/
def getVirtualTimeRatioLocked : Int × Nat :=
  let acc := qs.queues.foldl (fun (acc : Nat × Int) qid =>
    let queue := qs.queueObj qid
    (if queue.requests.length > 0 ∨ queue.requestsExecuting > 0 then acc.1 + 1 else acc.1,
      acc.2 + (queue.seatsInUse + queue.sum.maxSeatsSum))) (0, 0)
  if acc.1 = 0 then (0, 1) else (min acc.2 qs.dCfg.concurrencyLimit, acc.1)
attribute [grind] getVirtualTimeRatioLocked

/-- `advanceEpoch`: `R` and the readings taken from it are wound back by `rDecrement`. -/
def advanceEpoch : QueueSet :=
  let qs := { qs with currentR := qs.currentR - rDecrement }
  qs.queues.foldl (fun qs qid =>
    let queue := qs.queueObj qid
    if queue.requests.length = 0 ∧ queue.requestsExecuting = 0 then
      qs.modifyQueue qid fun q => { q with nextDispatchR := 0 }
    else
      let qs := qs.modifyQueue qid fun q => { q with nextDispatchR := q.nextDispatchR - rDecrement }
      queue.requests.foldl (fun qs rid =>
        qs.modifyRequest rid fun r => { r with arrivalR := r.arrivalR - rDecrement }) qs) qs
attribute [grind] advanceEpoch

/-- `syncTimeLocked`. -/
def syncTimeLocked : QueueSet :=
  let realNow := qs.now
  let timeSinceLast := realNow - qs.lastRealTime
  let prevR := qs.currentR
  let ratio := qs.getVirtualTimeRatioLocked
  let incrR := seatsTimesDuration ratio.1 ratio.2 timeSinceLast
  let qs := { qs with lastRealTime := realNow, currentR := prevR + incrR }
  if prevR > qs.currentR then qs
  else if qs.currentR ≥ highR then qs.advanceEpoch
  else qs
attribute [grind] syncTimeLocked

/-! #### Admission -/

/-- `canAccommodateSeatsLocked`: a request wider than the limit waits for no request to be
executing; any other for its seats to be free. -/
def canAccommodateSeatsLocked (seats : Int) : Bool :=
  if seats > qs.dCfg.concurrencyLimit then qs.totRequestsExecuting == 0
  else if qs.totSeatsInUse + seats > qs.dCfg.concurrencyLimit then false
  else true
attribute [grind] canAccommodateSeatsLocked

/-- `dispatchSansQueueLocked`. -/
def dispatchSansQueueLocked (workEstimate : WorkEstimate) : Nat × QueueSet :=
  let now := qs.now
  let req : Request :=
    { queue := none, workEstimate := completeWorkEstimate workEstimate
      decision := some .execute, arrivalTime := now, arrivalR := qs.currentR, startTime := now
      waitStarted := false, finished := false, releaseAt := none }
  let (rid, qs) := qs.newRequest req
  (rid, { qs with totRequestsExecuting := qs.totRequestsExecuting + 1
                  totSeatsInUse := qs.totSeatsInUse + req.maxSeats })
attribute [grind] dispatchSansQueueLocked

/-- `shuffleShardLocked`: of the hand dealt for `hashValue`, visited from an offset that
advances with every enqueue, the queue with the least waiting work. -/
def shuffleShardLocked (dealer : Dealer) (hashValue : UInt64) : Except String (Int × QueueSet) := do
  let hand := dealer.deal hashValue
  let handSize := hand.length
  let offset := qs.enqueues % handSize
  let qs := { qs with enqueues := qs.enqueues + 1 }
  let best ← (List.range handSize).foldlM (fun (acc : Int × SeatSeconds) i => do
      let queueIdx := hand.getD ((offset + i) % handSize) 0
      let some qid := qs.queueAt queueIdx | .error indexOutOfRange
      let thisQueueSeatSeconds := (qs.queueObj qid).sum.totalWorkSum
      if thisQueueSeatSeconds < acc.2 then return ((queueIdx : Int), thisQueueSeatSeconds)
      else return acc)
    (-1, maxSeatSeconds)
  return (best.1, qs)
attribute [grind] shuffleShardLocked

/-- `removeFromQueueLocked`, the function `Enqueue` returned: it takes the request out of its
queue's FIFO and deducts it from the queue's sum, or reports that it is already out. -/
def removeFromQueueLocked (rid : Nat) : Bool × QueueSet :=
  let req := qs.request rid
  match req.queue with
  | none => (false, qs)
  | some qid =>
    if rid ∈ (qs.queueObj qid).requests then
      (true, qs.modifyQueue qid fun q =>
        { q with requests := q.requests.erase rid, sum := deductFromQueueSum q.sum req })
    else (false, qs)
attribute [grind] removeFromQueueLocked

/-- The walk of `removeTimedOutRequestsFromQueueToBoundLocked`, oldest first: a request that
arrived before `arrivalLimit` and is still undecided is rejected and removed; the walk stops at
the first request that arrived later. -/
def removeTimedOutLoop (arrivalLimit : Int) : List Nat → Int × Int → QueueSet → (Int × Int) × QueueSet
  | [], acc, qs => (acc, qs)
  | rid :: rest, acc, qs =>
    let req := qs.request rid
    if arrivalLimit > req.arrivalTime then
      if req.decision.isNone then
        let qs := qs.modifyRequest rid fun r => { r with decision := some .reject }
        let removal := qs.removeFromQueueLocked rid
        if removal.1 then
          removeTimedOutLoop arrivalLimit rest (acc.1 + 1, acc.2 + req.maxSeats) removal.2
        else removeTimedOutLoop arrivalLimit rest acc removal.2
      else removeTimedOutLoop arrivalLimit rest acc qs
    else (acc, qs)
attribute [grind] removeTimedOutLoop

/-- `removeTimedOutRequestsFromQueueToBoundLocked`. -/
def removeTimedOutRequestsFromQueueToBoundLocked (qid : Nat) : QueueSet :=
  let arrivalLimit := qs.now - qs.qCfg.requestWaitLimit
  let walk := removeTimedOutLoop arrivalLimit (qs.queueObj qid).requests (0, 0) qs
  if walk.1.1 > 0 then
    { walk.2 with totRequestsWaiting := walk.2.totRequestsWaiting - walk.1.1
                  totSeatsWaiting := walk.2.totSeatsWaiting - walk.1.2 }
  else walk.2
attribute [grind] removeTimedOutRequestsFromQueueToBoundLocked

/-- `enqueueToBoundLocked`: an idle queue starts at the current `R`. -/
def enqueueToBoundLocked (rid : Nat) : QueueSet :=
  let req := qs.request rid
  match req.queue with
  | none => qs
  | some qid =>
    let queue := qs.queueObj qid
    let currentR := qs.currentR
    let qs := if queue.requests.length = 0 ∧ queue.requestsExecuting = 0 then
        qs.modifyQueue qid fun q => { q with nextDispatchR := currentR }
      else qs
    let qs := qs.modifyQueue qid fun q =>
      { q with requests := q.requests ++ [rid], sum := addToQueueSum q.sum req }
    { qs with totRequestsWaiting := qs.totRequestsWaiting + 1
              totSeatsWaiting := qs.totSeatsWaiting + req.maxSeats }
attribute [grind] enqueueToBoundLocked

/-- `rejectOrEnqueueToBoundLocked`: a request is refused when the seats are all in use and
its queue is full; otherwise it becomes a request object and is enqueued. -/
def rejectOrEnqueueToBoundLocked (req : Request) (qid : Nat) : Option Nat × QueueSet :=
  let curQueueLength : Int := (qs.queueObj qid).requests.length
  if qs.totSeatsInUse ≥ qs.dCfg.concurrencyLimit ∧ curQueueLength ≥ qs.qCfg.queueLengthLimit then
    (none, qs)
  else
    let created := qs.newRequest req
    (some created.1, created.2.enqueueToBoundLocked created.1)
attribute [grind] rejectOrEnqueueToBoundLocked

/-- `boundNextDispatchLocked`: the anti-windup bound, dispatch not before the arrival of the
oldest waiting request. -/
def boundNextDispatchLocked (qid : Nat) : QueueSet :=
  match (qs.queueObj qid).requests.head? with
  | none => qs
  | some rid =>
    let virtualStartBound := (qs.request rid).arrivalR
    if (qs.queueObj qid).nextDispatchR < virtualStartBound then
      qs.modifyQueue qid fun q => { q with nextDispatchR := virtualStartBound }
    else qs
attribute [grind] boundNextDispatchLocked

/-- `timeoutOldRequestsAndRejectOrEnqueueLocked`. -/
def timeoutOldRequestsAndRejectOrEnqueueLocked (workEstimate : WorkEstimate) (hashValue : UInt64) :
    Except String (Option Nat × QueueSet) := do
  let some dealer := qs.dealer | .error nilDereference
  let (queueIdx, qs) ← qs.shuffleShardLocked dealer hashValue
  let some qid := qs.queueAt queueIdx | .error indexOutOfRange
  let qs := qs.removeTimedOutRequestsFromQueueToBoundLocked qid
  let req : Request :=
    { queue := some qid, workEstimate := completeWorkEstimate workEstimate, decision := none
      arrivalTime := qs.now, arrivalR := qs.currentR, startTime := 0, waitStarted := false
      finished := false, releaseAt := none }
  let (res, qs) := qs.rejectOrEnqueueToBoundLocked req qid
  return (res, qs.boundNextDispatchLocked qid)
attribute [grind] timeoutOldRequestsAndRejectOrEnqueueLocked

/-! #### Dispatch -/

/-- The scan of `findDispatchQueueToBoundLocked`: `len(qs.queues)` steps of the round robin
from `robinIndex`, keeping the first queue whose oldest waiting request finishes least in
virtual time. -/
def findDispatchScan (nq : Nat) :
    Nat → SeatSeconds × Option (Nat × Int) → QueueSet → Except String (Option (Nat × Int) × QueueSet)
  | 0, acc, qs => .ok (acc.2, qs)
  | n + 1, acc, qs => do
    let robinIndex := (qs.robinIndex + 1).tmod nq
    let qs := { qs with robinIndex := robinIndex }
    let some qid := qs.queueAt robinIndex | .error indexOutOfRange
    let queue := qs.queueObj qid
    match queue.requests.head? with
    | none => findDispatchScan nq n acc qs
    | some oldestWaiting =>
      let currentVirtualFinish := queue.nextDispatchR + (qs.request oldestWaiting).totalWork
      if currentVirtualFinish < acc.1 then
        findDispatchScan nq n (currentVirtualFinish, some (qid, robinIndex)) qs
      else findDispatchScan nq n acc qs
attribute [grind] findDispatchScan

/-- `findDispatchQueueToBoundLocked`: the chosen queue and its oldest request, taken out of
the queue, when the set can accommodate its seats; a final-seats demand above the limit is cut
to the limit, with the additional latency stretched to keep the work. -/
def findDispatchQueueToBoundLocked : Except String (Option (Nat × Nat) × QueueSet) := do
  let nq := qs.queues.length
  let (minQueue, qs) ← findDispatchScan nq nq (maxSeatSeconds, none) qs
  let some (qid, minIndex) := minQueue | .error nilDereference
  match (qs.queueObj qid).requests.head? with
  | none => return (none, qs)
  | some rid =>
    if !qs.canAccommodateSeatsLocked (qs.request rid).maxSeats then return (none, qs)
    else
      let qs := (qs.removeFromQueueLocked rid).2
      let limit := (UInt64.ofInt qs.dCfg.concurrencyLimit).toNat
      let qs := if (qs.request rid).workEstimate.finalSeats > limit then
          qs.modifyRequest rid fun r =>
            { r with workEstimate :=
                { r.workEstimate with
                  finalSeats := limit
                  additionalLatency := durationPerSeat r.workEstimate.finalWork limit } }
        else qs
      return (some (qid, rid), { qs with robinIndex := minIndex })
attribute [grind] findDispatchQueueToBoundLocked

/-- `dispatchLocked`: whether a request left its queue; it starts executing unless its
decision was already taken (cancelled in the meantime). -/
def dispatchLocked : Except String (Bool × QueueSet) := do
  let (found, qs) ← qs.findDispatchQueueToBoundLocked
  match found with
  | none => return (false, qs)
  | some (qid, rid) =>
    let req := qs.request rid
    let qs := { qs with totRequestsWaiting := qs.totRequestsWaiting - 1
                        totSeatsWaiting := qs.totSeatsWaiting - req.maxSeats }
    if req.decision.isSome then return (true, qs.boundNextDispatchLocked qid)
    else
      let now := qs.now
      let qs := qs.modifyRequest rid fun r => { r with decision := some .execute, startTime := now }
      let qs := { qs with totRequestsExecuting := qs.totRequestsExecuting + 1
                          totSeatsInUse := qs.totSeatsInUse + req.maxSeats }
      let qs := qs.modifyQueue qid fun q =>
        { q with requestsExecuting := q.requestsExecuting + 1
                 seatsInUse := q.seatsInUse + req.maxSeats
                 nextDispatchR := q.nextDispatchR + req.totalWork }
      return (true, qs.boundNextDispatchLocked qid)
attribute [grind] dispatchLocked

/-- The loop of `dispatchAsMuchAsPossibleLocked`, on fuel. -/
def dispatchLoop : Nat → QueueSet → Except String QueueSet
  | 0, qs => .ok qs
  | fuel + 1, qs =>
    if qs.totRequestsWaiting ≠ 0 ∧ qs.totSeatsInUse < qs.dCfg.concurrencyLimit then do
      let (dispatched, qs) ← qs.dispatchLocked
      if dispatched then dispatchLoop fuel qs else return qs
    else return qs
attribute [grind] dispatchLoop

/-- The requests waiting in the queues of `qs.queues`. -/
def waitingInQueues : Nat :=
  (qs.queues.map fun qid => (qs.queueObj qid).requests.length).sum
attribute [grind] waitingInQueues

/-- `dispatchAsMuchAsPossibleLocked`. -/
def dispatchAsMuchAsPossibleLocked : Except String QueueSet :=
  dispatchLoop (qs.waitingInQueues + 1) qs
attribute [grind] dispatchAsMuchAsPossibleLocked

/-! #### Finishing and removal of queues -/

/-- `removeQueueAndUpdateIndexes`: the queues after the removed one move down. -/
def removeQueueAndUpdateIndexes (index : Int) : Except String QueueSet :=
  if index < 0 ∨ (qs.queues.length : Int) ≤ index then .error sliceBoundsOutOfRange
  else
    let keptQueues := qs.queues.take index.toNat ++ qs.queues.drop (index.toNat + 1)
    let qs := (keptQueues.drop index.toNat).foldl (fun qs qid =>
      qs.modifyQueue qid fun q => { q with index := q.index - 1 }) qs
    .ok { qs with queues := keptQueues }
attribute [grind] removeQueueAndUpdateIndexes

/-- `removeQueueIfEmptyLocked`: the request's queue goes when there are more queues than
desired and it has nothing waiting or executing; the queue keeps its old index. -/
def removeQueueIfEmptyLocked (rid : Nat) : Except String QueueSet :=
  match (qs.request rid).queue with
  | none => .ok qs
  | some qid =>
    let queue := qs.queueObj qid
    if (qs.queues.length : Int) > qs.qCfg.desiredNumQueues ∧ queue.requests.length = 0 ∧
        queue.requestsExecuting = 0 then do
      let qs ← qs.removeQueueAndUpdateIndexes queue.index
      if qs.robinIndex ≥ (qs.queueObj qid).index then
        return { qs with robinIndex := qs.robinIndex - 1 }
      else return qs
    else .ok qs
attribute [grind] removeQueueIfEmptyLocked

/-- `releaseSeatsLocked`, the closure of `finishRequestLocked`. -/
def releaseSeatsLocked (rid : Nat) : Except String QueueSet :=
  let r := qs.request rid
  let qs := { qs with totSeatsInUse := qs.totSeatsInUse - r.maxSeats }
  let qs := match r.queue with
    | none => qs
    | some qid => qs.modifyQueue qid fun q => { q with seatsInUse := q.seatsInUse - r.maxSeats }
  qs.removeQueueIfEmptyLocked rid
attribute [grind] releaseSeatsLocked

/-- `finishRequestLocked`: the request stops executing; its seats are released now, or when
its additional latency has passed. -/
def finishRequestLocked (rid : Nat) : Except String QueueSet :=
  let now := qs.now
  let r := qs.request rid
  let qs := { qs with totRequestsExecuting := qs.totRequestsExecuting - 1 }
  let actualServiceDuration := now - r.startTime
  let qs := match r.queue with
    | none => qs
    | some qid =>
      let qs := qs.modifyQueue qid fun q =>
        { q with requestsExecuting := q.requestsExecuting - 1
                 nextDispatchR := q.nextDispatchR -
                   seatsTimesDuration r.initialSeats 1 (estimatedServiceDuration - actualServiceDuration) }
      qs.boundNextDispatchLocked qid
  let qs := qs.modifyRequest rid fun r => { r with finished := true }
  if r.workEstimate.additionalLatency ≤ 0 then qs.releaseSeatsLocked rid
  else .ok (qs.modifyRequest rid fun r => { r with releaseAt := some (now + r.workEstimate.additionalLatency) })
attribute [grind] finishRequestLocked

/-! #### The methods -/

/-- `StartRequest` after `lockAndSyncTime`: the request (none when rejected) and whether
the set is idle. -/
def startRequest (workEstimate : WorkEstimate) (hashValue : UInt64) :
    Except String ((Option Nat × Bool) × QueueSet) :=
  if qs.qCfg.desiredNumQueues < 1 then
    if !qs.canAccommodateSeatsLocked workEstimate.maxSeats then .ok ((none, qs.isIdleLocked), qs)
    else
      let (rid, qs) := qs.dispatchSansQueueLocked workEstimate
      .ok ((some rid, false), qs)
  else do
    let (req, qs) ← qs.timeoutOldRequestsAndRejectOrEnqueueLocked workEstimate hashValue
    match req with
    | none => return ((none, qs.isIdleLocked), qs)
    | some rid =>
      let qs ← qs.dispatchAsMuchAsPossibleLocked
      return ((some rid, false), qs)
attribute [grind] startRequest

/-- `wait` after taking the decision and `lockAndSyncTime`: a cancelled request still in its
queue is taken out. -/
def wait (rid : Nat) : QueueSet :=
  let req := qs.request rid
  if req.waitStarted then qs
  else
    let qs := qs.modifyRequest rid fun r => { r with waitStarted := true }
    match req.decision, req.queue with
    | some .cancel, some qid =>
      let removal := qs.removeFromQueueLocked rid
      if removal.1 then
        let qs := { removal.2 with totRequestsWaiting := removal.2.totRequestsWaiting - 1
                                   totSeatsWaiting := removal.2.totSeatsWaiting - req.maxSeats }
        qs.boundNextDispatchLocked qid
      else removal.2
    | _, _ => qs
attribute [grind] wait

/-- `finishRequestAndDispatchAsMuchAsPossible` after `lockAndSyncTime`. -/
def finishRequestAndDispatchAsMuchAsPossible (rid : Nat) : Except String QueueSet := do
  let qs ← qs.finishRequestLocked rid
  qs.dispatchAsMuchAsPossibleLocked
attribute [grind] finishRequestAndDispatchAsMuchAsPossible

/-- The event `finishRequestLocked` schedules, after `lockAndSyncTime`. -/
def releaseLingering (rid : Nat) : Except String QueueSet := do
  let qs := qs.modifyRequest rid fun r => { r with releaseAt := none }
  let qs ← qs.releaseSeatsLocked rid
  qs.dispatchAsMuchAsPossibleLocked
attribute [grind] releaseLingering

/-- `setConfiguration` after `lockAndSyncTime`: queues are added at once, and removed only by
attrition; a configuration without queues keeps the old queuing parameters. -/
def setConfiguration (qCfg : QueuingConfig) (dealer : Option Dealer) (dCfg : DispatchingConfig) :
    Except String QueueSet :=
  let qs := if qCfg.desiredNumQueues > 0 ∧ qCfg.desiredNumQueues > qs.queues.length then
      qs.createQueues (qCfg.desiredNumQueues - qs.queues.length).toNat
    else qs
  let qCfg := if qCfg.desiredNumQueues > 0 then qCfg
    else { qCfg with queueLengthLimit := qs.qCfg.queueLengthLimit, handSize := qs.qCfg.handSize
                     requestWaitLimit := qs.qCfg.requestWaitLimit }
  { qs with qCfg := qCfg, dCfg := dCfg, dealer := dealer }.dispatchAsMuchAsPossibleLocked
attribute [grind] setConfiguration

end QueueSet

/-! ### The system -/

/-- A new `queueSet` (`BeginConstruction`, then `Complete`): nothing queued or executing, no
queues until `setConfiguration` creates them, `robinIndex` at Go's zero value. -/
def newQueueSet (qCfg : QueuingConfig) (dCfg : DispatchingConfig) (now : Int) :
    Except String QueueSet := do
  let dealer ← checkConfig qCfg
  let qs : QueueSet :=
    { qCfg := qCfg, dCfg := dCfg, dealer := none, queues := [], queueObj := fun _ => default
      numQueueObjs := 0, request := fun _ => default, numRequests := 0, currentR := 0
      lastRealTime := now, robinIndex := 0, totRequestsWaiting := 0, totRequestsExecuting := 0
      totSeatsInUse := 0, totSeatsWaiting := 0, enqueues := 0, now := now }
  qs.syncTimeLocked.setConfiguration qCfg dealer dCfg
attribute [grind] newQueueSet

/-- What happens to a `queueSet`: the calls that take its lock, and the goroutines of its
requests and its clock. -/
inductive Event
  | startRequest (workEstimate : WorkEstimate) (hashValue : UInt64)
  /-- The context of a request waiting for its decision is done. -/
  | cancel (rid : Nat)
  /-- The client's `Wait` takes the decision. -/
  | wait (rid : Nat)
  /-- An executing request finishes (`Finish`, once `execFn` returns). -/
  | finish (rid : Nat)
  /-- The event that releases lingering seats fires. -/
  | release (rid : Nat)
  /-- `BeginConfigChange`, then `Complete`. -/
  | configure (qCfg : QueuingConfig) (dCfg : DispatchingConfig)
  | tick (d : Nat)

namespace QueueSet

/-- One step: none when the event cannot happen in this state; an error when it panics. -/
def step (qs : QueueSet) : Event → Option (Except String QueueSet)
  | .startRequest workEstimate hashValue =>
    some ((qs.syncTimeLocked.startRequest workEstimate hashValue).map Prod.snd)
  | .cancel rid =>
    if rid < qs.numRequests ∧ (qs.request rid).decision = none then
      some (.ok (qs.modifyRequest rid fun r => { r with decision := some .cancel }))
    else none
  | .wait rid =>
    if rid < qs.numRequests ∧ (qs.request rid).decision ≠ none ∧ !(qs.request rid).waitStarted then
      some (.ok (qs.syncTimeLocked.wait rid))
    else none
  | .finish rid =>
    if rid < qs.numRequests ∧ (qs.request rid).decision = some .execute ∧
        (qs.request rid).waitStarted ∧ !(qs.request rid).finished then
      some (qs.syncTimeLocked.finishRequestAndDispatchAsMuchAsPossible rid)
    else none
  | .release rid =>
    match (qs.request rid).releaseAt with
    | some t => if rid < qs.numRequests ∧ t ≤ qs.now then some (qs.syncTimeLocked.releaseLingering rid)
      else none
    | none => none
  | .configure qCfg dCfg =>
    match checkConfig qCfg with
    | .error _ => some (.ok qs)
    | .ok dealer => some (qs.syncTimeLocked.setConfiguration qCfg dealer dCfg)
  | .tick d => some (.ok { qs with now := qs.now + d })
attribute [grind] step

/-- The states a new `queueSet` starts in. -/
def Init (qs : QueueSet) : Prop :=
  ∃ qCfg dCfg now, newQueueSet qCfg dCfg now = .ok qs
attribute [grind] Init

/-- A step that does not panic. -/
def Step (qs : QueueSet) (ev : Event) (qs' : QueueSet) : Prop :=
  qs.step ev = some (.ok qs')
attribute [grind] Step

/-! ### Runs -/

/-- The state after a run of events, none when one of them cannot happen or panics. -/
def run : QueueSet → List Event → Option QueueSet
  | qs, [] => some qs
  | qs, ev :: evs =>
    match qs.step ev with
    | some (.ok qs') => qs'.run evs
    | _ => none
attribute [grind] run

/-- A run of events from a new `queueSet`. -/
def runFrom (qCfg : QueuingConfig) (dCfg : DispatchingConfig) (now : Int) (evs : List Event) :
    Option QueueSet :=
  match newQueueSet qCfg dCfg now with
  | .ok qs => qs.run evs
  | .error _ => none
attribute [grind] runFrom

theorem run_eq_some {qs qs' : QueueSet} {evs : List Event} (h : qs.run evs = some qs') :
    Transition.Run Step qs evs qs' := by
  induction evs generalizing qs with
  | nil =>
    cases h
    exact .nil _
  | cons ev evs ih =>
    rw [run] at h
    split at h
    · rename_i s hs
      exact .cons hs (ih h)
    · cases h

/-- A run from a new `queueSet` that goes through ends in a reachable state. -/
theorem reachable_runFrom {qCfg : QueuingConfig} {dCfg : DispatchingConfig} {now : Int}
    {evs : List Event} (h : (runFrom qCfg dCfg now evs).isSome = true) :
    Transition.Reachable Init Step ((runFrom qCfg dCfg now evs).get h) := by
  obtain ⟨qs, hrun⟩ := Option.isSome_iff_exists.mp h
  rw [Option.get_of_mem h hrun]
  unfold runFrom at hrun
  split at hrun
  · rename_i s hs
    exact (run_eq_some hrun).reachable (.init ⟨qCfg, dCfg, now, hs⟩)
  · cases hrun

/-! ### Where the bookkeeping breaks -/

-- A new set built without queues keeps Go's zero `robinIndex`, which is no index of the
-- empty `qs.queues`.
example : ∃ qs, Transition.Reachable Init Step qs ∧ qs.queues = [] ∧ qs.robinIndex = 0 :=
  ⟨_, reachable_runFrom (by rfl : (runFrom ⟨0, 0, 0, 0⟩ ⟨1⟩ 0 []).isSome = true), rfl, rfl⟩

-- `findDispatchQueueToBoundLocked` cuts the final seats of a request wider than the limit
-- after the request was counted in `totSeatsWaiting` at its full width, and `dispatchLocked`
-- deducts the cut width.  One request of 5 final seats under a limit of 3: once it is
-- dispatched nothing waits, and 2 seats are still counted as waiting.
example : ∃ qs, Transition.Reachable Init Step qs ∧ qs.waitingInQueues = 0 ∧
    qs.totRequestsWaiting = 0 ∧ qs.totSeatsWaiting = 2 :=
  ⟨_, reachable_runFrom (by rfl : (runFrom ⟨1, 10, 1, 1000000000⟩ ⟨3⟩ 0
    [.startRequest ⟨1, 5, 1000000⟩ 0]).isSome = true), rfl, rfl, rfl⟩

/-- A queue is removed while a lingering request still refers to it.  Two requests share
queue 1; the queues are reconfigured away; the first finishes with additional latency, the
second without, and its release removes the queue.  When the first one's seats are released,
`removeQueueIfEmptyLocked` removes the queue again, at its stale index 1, past the end of
`qs.queues`: Go panics. -/
theorem release_after_queue_removal_panics :
    ∃ qs, Transition.Reachable Init Step qs ∧ qs.queues = [0] ∧ (qs.request 0).queue = some 1 ∧
      (qs.request 0).releaseAt = some 1000000 ∧
      qs.step (.release 0) = some (.error sliceBoundsOutOfRange) := by
  exact ⟨_, reachable_runFrom (by rfl : (runFrom ⟨2, 10, 1, 1000000000⟩ ⟨10⟩ 0
    [.startRequest ⟨1, 1, 1000000⟩ 1, .startRequest ⟨1, 0, 0⟩ 1, .wait 0, .wait 1,
      .configure ⟨0, 10, 1, 1000000000⟩ ⟨10⟩, .finish 0, .finish 1, .tick 2000000]).isSome = true),
    rfl, rfl, rfl, by rfl⟩

end QueueSet

end Apf
end Kubernetes
