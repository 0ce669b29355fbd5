import Kubernetes.Go.Sort
import Mathlib.Logic.Function.Basic

/-!
# `cacher/watch_cache.go`: the event window of the watch cache

The watch cache keeps the most recent watch events in a cyclic buffer `cache` of
`capacity` slots.  `startIndex` and `endIndex` are absolute positions, always read modulo
the capacity; `updateCache` evicts the oldest event when the buffer is full, and
`resizeCacheLocked` doubles the capacity (up to `upperBoundCapacity`) when a full buffer
holds only fresh events, or halves it (down to `lowerBoundCapacity`) when the newest
quarter is stale, re-laying out the events for the new capacity.  `Replace` empties the
window.  `getAllEventsSinceLocked` finds the events newer than a resource version by
binary search and returns a `watchCacheInterval`, which copies them out lazily, at most
`bufferSize` at a time, through a closure that reads the cache as it is at that moment.

Modelling choices:
* The slice `cache` is a function from slot to entry (`none` is a nil pointer); only
  slots below the capacity are ever written or read.
* An event keeps the fields the window code reads (`ResourceVersion`, `RecordTime`) and
  the payload (`Type`, `Object`, `Key`); labels, fields and the previous object come from
  the store and are carried along untouched, so they are left out.
* Resource versions are `uint64` and never near `2^64`; they are `Nat`.  Record times
  are nanoseconds, and `time.Time.Sub` is subtraction.
* The store itself is not modelled: `processEvent` is its effect on the window (an error
  before `updateCache` leaves the cache unchanged), and the store interval of a
  resource version `0` is built from the listing the caller passes.
* The Go code dereferences cache entries that the window invariant proves non-nil; the
  model reads them through `Option` with a default that is never used.
-/

namespace Kubernetes
namespace Cacher

open Go

/-- `watch.EventType` of the events the cache records. -/
inductive EventType
  | added
  | modified
  | deleted
  deriving DecidableEq, Repr

/-- `watchCacheEvent`. -/
structure WatchCacheEvent (α : Type) where
  type : EventType
  object : α
  key : String
  resourceVersion : Nat
  recordTime : Int
  deriving DecidableEq, Repr

/-- `eventFreshDuration`: 75 seconds. -/
def eventFreshDuration : Int := 75 * 1000000000
attribute [grind] eventFreshDuration

/-- `defaultLowerBoundCapacity`. -/
def defaultLowerBoundCapacity : Nat := 100
attribute [grind] defaultLowerBoundCapacity

/-- `defaultUpperBoundCapacity`. -/
def defaultUpperBoundCapacity : Nat := 100 * 1024
attribute [grind] defaultUpperBoundCapacity

/-- `watchCache`, the fields of its event window. -/
structure WatchCache (α : Type) where
  capacity : Nat
  upperBoundCapacity : Nat
  lowerBoundCapacity : Nat
  cache : Nat → Option (WatchCacheEvent α)
  startIndex : Nat
  endIndex : Nat
  resourceVersion : Nat
  listResourceVersion : Nat

variable {α : Type}

/-- `newWatchCache`. -/
def newWatchCache : WatchCache α where
  capacity := defaultLowerBoundCapacity
  upperBoundCapacity := defaultUpperBoundCapacity
  lowerBoundCapacity := defaultLowerBoundCapacity
  cache := fun _ => none
  startIndex := 0
  endIndex := 0
  resourceVersion := 0
  listResourceVersion := 0
attribute [grind] newWatchCache

namespace WatchCache

/-- `isCacheFullLocked`. -/
def isCacheFullLocked (w : WatchCache α) : Bool :=
  w.endIndex = w.startIndex + w.capacity
attribute [grind] isCacheFullLocked

/-- The record time of the event at absolute position `i`. -/
def recordTimeAt (w : WatchCache α) (i : Nat) : Int :=
  match w.cache (i % w.capacity) with
  | some e => e.recordTime
  | none => 0
attribute [grind] recordTimeAt

/-- The resource version of the event at absolute position `i`. -/
def resourceVersionAt (w : WatchCache α) (i : Nat) : Nat :=
  match w.cache (i % w.capacity) with
  | some e => e.resourceVersion
  | none => 0
attribute [grind] resourceVersionAt

end WatchCache

/-- The loop of `doCacheResizeLocked`: copy the `n` positions from `i` on into the new
slice. -/
def copyLoop (old : Nat → Option (WatchCacheEvent α)) (oldCapacity capacity : Nat) :
    Nat → Nat → (Nat → Option (WatchCacheEvent α)) → Nat → Option (WatchCacheEvent α)
  | 0, _, newCache => newCache
  | n + 1, i, newCache =>
      copyLoop old oldCapacity capacity n (i + 1)
        (Function.update newCache (i % capacity) (old (i % oldCapacity)))
attribute [grind] copyLoop

namespace WatchCache

/-- `doCacheResizeLocked`: a shrink drops the oldest events that no longer fit. -/
def doCacheResizeLocked (w : WatchCache α) (capacity : Nat) : WatchCache α :=
  let startIndex := if capacity < w.capacity then w.endIndex - capacity else w.startIndex
  { w with
    cache := copyLoop w.cache w.capacity capacity (w.endIndex - startIndex) startIndex fun _ => none
    capacity := capacity
    startIndex := startIndex }
attribute [grind] doCacheResizeLocked

/-- `resizeCacheLocked`. -/
def resizeCacheLocked (w : WatchCache α) (eventTime : Int) : WatchCache α :=
  if w.isCacheFullLocked ∧ eventTime - w.recordTimeAt w.startIndex < eventFreshDuration then
    let capacity := min (w.capacity * 2) w.upperBoundCapacity
    if w.capacity < capacity then w.doCacheResizeLocked capacity else w
  else if w.isCacheFullLocked ∧
      eventFreshDuration < eventTime - w.recordTimeAt (w.endIndex - w.capacity / 4) then
    let capacity := max (w.capacity / 2) w.lowerBoundCapacity
    if capacity < w.capacity then w.doCacheResizeLocked capacity else w
  else w
attribute [grind] resizeCacheLocked

/-- The eviction of `updateCache`: a full buffer drops its oldest event. -/
def evictIfFull (w : WatchCache α) : WatchCache α :=
  if w.isCacheFullLocked then { w with startIndex := w.startIndex + 1 } else w
attribute [grind] evictIfFull

/-- The write of `updateCache`: the event goes to the slot of `endIndex`. -/
def append (w : WatchCache α) (event : WatchCacheEvent α) : WatchCache α :=
  { w with
    cache := Function.update w.cache (w.endIndex % w.capacity) (some event)
    endIndex := w.endIndex + 1 }
attribute [grind] append

/-- `updateCache`: resize, evict, write. -/
def updateCache (w : WatchCache α) (event : WatchCacheEvent α) : WatchCache α :=
  ((w.resizeCacheLocked event.recordTime).evictIfFull).append event
attribute [grind] updateCache

/-- `processEvent`, from the window's side: record the event, move the resource version. -/
def processEvent (w : WatchCache α) (event : WatchCacheEvent α) : WatchCache α :=
  { w.updateCache event with resourceVersion := event.resourceVersion }
attribute [grind] processEvent

/-- `Replace`: the window is emptied at the listed resource version. -/
def replace (w : WatchCache α) (version : Nat) : WatchCache α :=
  { w with startIndex := 0, endIndex := 0, listResourceVersion := version, resourceVersion := version }
attribute [grind] replace

/-- `isIndexValidLocked`. -/
def isIndexValidLocked (w : WatchCache α) (index : Nat) : Bool :=
  w.startIndex ≤ index
attribute [grind] isIndexValidLocked

end WatchCache

/-! ## Intervals -/

/-- `bufferSize`. -/
def bufferSize : Nat := 100
attribute [grind] bufferSize

/-- `watchCacheInterval`: the interval `[startIndex, endIndex)` still to copy, and the
events copied into its buffer and not yet returned. -/
structure WatchCacheInterval (α : Type) where
  startIndex : Nat
  endIndex : Nat
  buffer : List (WatchCacheEvent α)
  deriving DecidableEq, Repr

/-- The loop of `fillBuffer`, at most `bufferSize` iterations: read through the indexer
`w.cache[i % w.capacity]` until the interval ends or an entry is nil. -/
def fillLoop (w : WatchCache α) (endIndex : Nat) :
    Nat → Nat → List (WatchCacheEvent α) → Nat × List (WatchCacheEvent α)
  | 0, i, buffer => (i, buffer)
  | n + 1, i, buffer =>
      if i < endIndex then
        match w.cache (i % w.capacity) with
        | none => (i, buffer)
        | some e => fillLoop w endIndex n (i + 1) (buffer ++ [e])
      else (i, buffer)
attribute [grind] fillLoop

namespace WatchCacheInterval

/-- `fillBuffer`, called on an empty buffer. -/
def fillBuffer (wci : WatchCacheInterval α) (w : WatchCache α) : WatchCacheInterval α :=
  let filled := fillLoop w wci.endIndex bufferSize wci.startIndex []
  { wci with startIndex := filled.1, buffer := filled.2 }
attribute [grind] fillBuffer

/-- The error of `Next` once the interval has been overtaken by evictions. -/
def invalidatedMessage (startIndex : Nat) : String :=
  "cache interval invalidated, interval startIndex: " ++ toString startIndex

/-- `Next`, with the watch cache `w` as it is when it is called. -/
def next (wci : WatchCacheInterval α) (w : WatchCache α) :
    Except String (Option (WatchCacheEvent α)) × WatchCacheInterval α :=
  match wci.buffer with
  | e :: rest => (.ok (some e), { wci with buffer := rest })
  | [] =>
      if wci.endIndex ≤ wci.startIndex then (.ok none, wci)
      else if !w.isIndexValidLocked wci.startIndex then (.error (invalidatedMessage wci.startIndex), wci)
      else
        let wci := wci.fillBuffer w
        match wci.buffer with
        | e :: rest => (.ok (some e), { wci with buffer := rest })
        | [] => (.ok none, wci)
attribute [grind] next

end WatchCacheInterval

/-- The errors of `getAllEventsSinceLocked`. -/
inductive EventsSinceError
  | notInitialized
  | resourceExpired (resourceVersion oldest : Nat)
  deriving DecidableEq, Repr

/-- The texts of the errors. -/
def EventsSinceError.message : EventsSinceError → String
  | .notInitialized => "watch cache isn't correctly initialized"
  | .resourceExpired resourceVersion oldest =>
      "too old resource version: " ++ toString resourceVersion ++ " (" ++ toString oldest ++ ")"

namespace WatchCache

/-- The oldest resource version `getAllEventsSinceLocked` can serve: one past the list
when nothing has been evicted since it, else the first cached event. -/
def oldest (w : WatchCache α) : Option Nat :=
  if 0 < w.listResourceVersion ∧ w.startIndex = 0 then some (w.listResourceVersion + 1)
  else if 0 < w.endIndex - w.startIndex then some (w.resourceVersionAt w.startIndex)
  else none
attribute [grind] oldest

/-- `newCacheIntervalFromStore`: the store's objects as `Added` events, already buffered. -/
def intervalFromStore (w : WatchCache α) (storeList : List (String × α)) : WatchCacheInterval α :=
  ⟨0, 0, storeList.map fun (key, object) => ⟨.added, object, key, w.resourceVersion, 0⟩⟩
attribute [grind] intervalFromStore

/-- `getAllEventsSinceLocked`; `storeList` is what the store lists at the call. -/
def getAllEventsSinceLocked (w : WatchCache α) (resourceVersion : Nat) (storeList : List (String × α)) :
    Except EventsSinceError (WatchCacheInterval α) :=
  let size := w.endIndex - w.startIndex
  match w.oldest with
  | none => .error .notInitialized
  | some oldest =>
      if resourceVersion = 0 then .ok (w.intervalFromStore storeList)
      else if resourceVersion < oldest - 1 then .error (.resourceExpired resourceVersion (oldest - 1))
      else
        let first := search size fun i => decide (resourceVersion < w.resourceVersionAt (w.startIndex + i))
        .ok ⟨w.startIndex + first, w.endIndex, []⟩
attribute [grind] getAllEventsSinceLocked

end WatchCache

end Cacher
end Kubernetes
