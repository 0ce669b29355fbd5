import Kubernetes.Go.Loops
import Mathlib.Data.Finset.Card
import Mathlib.Data.List.Chain

/-!
# The informer's `DeltaFIFO`

`client-go/tools/cache/delta_fifo.go`.  A `DeltaFIFO` maps keys to the `Deltas` (the
changes) recorded for an object since it was last popped, and keeps the keys in a FIFO
`queue`.  `Add`, `Update` and `Delete` append one delta through `queueActionLocked`, which
collapses two adjacent deletions with `dedupDeltas`; `Replace` (a relist) appends a
`Sync`/`Replaced` delta per listed object and a `DeletedFinalStateUnknown` deletion per key
that disappeared; `Resync` appends `Sync` deltas for known objects that have nothing
queued; `AddIfNotPresent` puts back a popped `Deltas`; `Pop` hands out the whole `Deltas`
of the key at the head of the queue.

Modelling choices, all forced by what Go leaves open:

* `items` is a total function to `Option`, so that a missing key (`nil`) and a key with
  an empty list (the "Impossible dedupDeltas" branch) stay distinct.
* `knownObjects` is the informer's indexer, an external store that changes between calls;
  every method that reads it takes the current snapshot as an argument (`none` when the
  FIFO was built without one).
* `Replace` ranges over the map `items` in Go's unspecified order; it takes that order as
  an argument (`order`), and callers pass any enumeration of the keys.
* `Pop` calls the consumer's `process` function under the lock; only whether it returned
  `ErrRequeue` matters to the FIFO, and that is an argument.
-/

namespace Kubernetes
namespace Cache

open Go

/-- `DeltaType`. -/
inductive DeltaType
  | added
  | updated
  | deleted
  | replaced
  | sync
  deriving DecidableEq, Repr

/-- What a delta carries: an object of the store, or the `DeletedFinalStateUnknown`
marker `Replace` puts in place of an object whose deletion was missed (its `Obj` is
whatever was last known for the key, possibly nothing, possibly another marker). -/
inductive Object (Obj : Type _) where
  | item (o : Obj)
  | deletedFinalStateUnknown (key : String) (obj : Option (Object Obj))

/-- `Delta`. -/
structure Delta (Obj : Type _) where
  type : DeltaType
  object : Object Obj

/-- `KeyListerGetter`, as one snapshot: `ListKeys` and `GetByKey` (an error, or whether
the key exists and its object). -/
structure KnownObjects (Obj : Type _) where
  listKeys : List String
  getByKey : String → Except String (Option Obj)

/-- The `DeltaFIFO` struct, without its lock and condition variable.  `keyFunc` is the
key function the FIFO was built with. -/
structure DeltaFIFO (Obj : Type _) where
  items : String → Option (List (Delta Obj))
  queue : List String
  populated : Bool
  initialPopulationCount : Nat
  keyFunc : Obj → Except String String
  closed : Bool
  emitDeltaTypeReplaced : Bool

variable {Obj : Type _}

/-- `NewDeltaFIFOWithOptions`. -/
def newDeltaFIFO (keyFunc : Obj → Except String String) (emitDeltaTypeReplaced : Bool) :
    DeltaFIFO Obj :=
  { items := fun _ => none, queue := [], populated := false, initialPopulationCount := 0,
    keyFunc := keyFunc, closed := false, emitDeltaTypeReplaced := emitDeltaTypeReplaced }
attribute [grind] newDeltaFIFO

/-! ## Deltas -/

/-- `Deltas.Newest`. -/
def newest (deltas : List (Delta Obj)) : Option (Delta Obj) :=
  deltas.getLast?
attribute [grind] newest

/-- `isDeletionDup`: two deletions are one; keep the one with more information (a
`DeletedFinalStateUnknown` marker has less). -/
def isDeletionDup (a b : Delta Obj) : Option (Delta Obj) :=
  if b.type ≠ .deleted ∨ a.type ≠ .deleted then
    none
  else
    match b.object with
    | .deletedFinalStateUnknown _ _ => some a
    | .item _ => some b
attribute [grind] isDeletionDup

/-- `isDup`: only deletions are ever duplicates. -/
def isDup (a b : Delta Obj) : Option (Delta Obj) :=
  isDeletionDup a b
attribute [grind] isDup

/-- `dedupDeltas`: combine the two most recent deltas when they are the same event.  The
Go code reads `a := deltas[n-1]` and `b := deltas[n-2]`, writes the kept delta at `n-2`
and drops the last. -/
def dedupDeltas (deltas : List (Delta Obj)) : List (Delta Obj) :=
  match deltas.reverse with
  | a :: b :: rest =>
      match isDup a b with
      | some out => (out :: rest).reverse
      | none => deltas
  | _ => deltas
attribute [grind] dedupDeltas

/-! ## Keys -/

/-- `KeyOf` on a single object: a `DeletedFinalStateUnknown` marker knows its key. -/
def keyOf (keyFunc : Obj → Except String String) : Object Obj → Except String String
  | .item o => keyFunc o
  | .deletedFinalStateUnknown key _ => .ok key
attribute [grind] keyOf

/-- `KeyOf` on a `Deltas`: the key of its newest object. -/
def keyOfDeltas (keyFunc : Obj → Except String String) (deltas : List (Delta Obj)) :
    Except String String :=
  match newest deltas with
  | none => .error "0 length Deltas object; can't get key"
  | some d => keyOf keyFunc d.object
attribute [grind] keyOfDeltas

/-! ## Operations -/

/-- A method's result: the FIFO afterwards (mutations made before an error stay) and the
error it returned. -/
abbrev Result (Obj : Type _) := DeltaFIFO Obj × Except String Unit

/-- `queueActionLocked`: append a delta to the object's `Deltas`, deduplicated, queueing
the key if it was not present. -/
def queueActionLocked (f : DeltaFIFO Obj) (actionType : DeltaType) (obj : Object Obj) :
    Result Obj :=
  match keyOf f.keyFunc obj with
  | .error e => (f, .error e)
  | .ok id =>
      let oldDeltas := (f.items id).getD []
      let newDeltas := dedupDeltas (oldDeltas ++ [⟨actionType, obj⟩])
      if 0 < newDeltas.length then
        let queue := if (f.items id).isNone then f.queue ++ [id] else f.queue
        ({ f with queue := queue, items := Function.update f.items id (some newDeltas) }, .ok ())
      else if (f.items id).isNone then
        -- "Impossible dedupDeltas ... ignoring"
        (f, .ok ())
      else
        ({ f with items := Function.update f.items id (some newDeltas) },
          .error "Impossible dedupDeltas; broke DeltaFIFO invariant by storing empty Deltas")
attribute [grind] queueActionLocked

/-- `Add`. -/
def add (f : DeltaFIFO Obj) (obj : Obj) : Result Obj :=
  queueActionLocked { f with populated := true } .added (.item obj)
attribute [grind] add

/-- `Update`. -/
def update (f : DeltaFIFO Obj) (obj : Obj) : Result Obj :=
  queueActionLocked { f with populated := true } .updated (.item obj)
attribute [grind] update

/-- `Delete`: ignored when the object is neither queued nor (when there are known objects)
known; a known object's deletion is queued even when nothing is queued for it. -/
def delete (f : DeltaFIFO Obj) (knownObjects : Option (KnownObjects Obj)) (obj : Object Obj) :
    Result Obj :=
  match keyOf f.keyFunc obj with
  | .error e => (f, .error e)
  | .ok id =>
      let f := { f with populated := true }
      match knownObjects with
      | none =>
          if (f.items id).isNone then (f, .ok ()) else queueActionLocked f .deleted obj
      | some known =>
          match known.getByKey id with
          | .ok none => if (f.items id).isNone then (f, .ok ()) else queueActionLocked f .deleted obj
          | _ => queueActionLocked f .deleted obj
attribute [grind] delete

/-- `addIfNotPresent`: put `deltas` back under `id` unless something is queued for it. -/
def addIfNotPresent (f : DeltaFIFO Obj) (id : String) (deltas : List (Delta Obj)) :
    DeltaFIFO Obj :=
  let f := { f with populated := true }
  if (f.items id).isSome then f
  else { f with queue := f.queue ++ [id], items := Function.update f.items id (some deltas) }
attribute [grind] addIfNotPresent

/-- `AddIfNotPresent`, on a `Deltas` (the output of `Pop`). -/
def addIfNotPresentDeltas (f : DeltaFIFO Obj) (deltas : List (Delta Obj)) : Result Obj :=
  match keyOfDeltas f.keyFunc deltas with
  | .error e => (f, .error e)
  | .ok id => (addIfNotPresent f id deltas, .ok ())
attribute [grind] addIfNotPresentDeltas

/-- The first loop of `Replace`: a `Sync` (or `Replaced`) delta for each listed object,
collecting the listed keys. -/
def replaceListed (action : DeltaType) :
    DeltaFIFO Obj × Finset String → List (Object Obj) → (DeltaFIFO Obj × Finset String) × Except String Unit :=
  forRangeErr fun (f, keys) item =>
    match keyOf f.keyFunc item with
    | .error e => ((f, keys), .error e)
    | .ok key =>
        let r := queueActionLocked f action item
        ((r.1, insert key keys), r.2)
attribute [grind] replaceListed

/-- The deletion loop of `Replace` without known objects: a `DeletedFinalStateUnknown`
deletion, carrying the newest object, for every queued key that was not listed. -/
def replaceDeletionsOwn (keys : Finset String) :
    DeltaFIFO Obj × Nat → List String → (DeltaFIFO Obj × Nat) × Except String Unit :=
  forRangeErr fun (f, queuedDeletions) k =>
    if k ∈ keys then ((f, queuedDeletions), .ok ())
    else
      let deletedObj := ((f.items k).bind newest).map Delta.object
      let r := queueActionLocked f .deleted (.deletedFinalStateUnknown k deletedObj)
      ((r.1, queuedDeletions + 1), r.2)
attribute [grind] replaceDeletionsOwn

/-- The deletion loop of `Replace` with known objects: a `DeletedFinalStateUnknown`
deletion for every known key that was not listed, carrying the known object if any. -/
def replaceDeletionsKnown (known : KnownObjects Obj) (keys : Finset String) :
    DeltaFIFO Obj × Nat → List String → (DeltaFIFO Obj × Nat) × Except String Unit :=
  forRangeErr fun (f, queuedDeletions) k =>
    if k ∈ keys then ((f, queuedDeletions), .ok ())
    else
      let deletedObj : Option (Object Obj) :=
        match known.getByKey k with
        | .ok (some o) => some (.item o)
        | _ => none
      let r := queueActionLocked f .deleted (.deletedFinalStateUnknown k deletedObj)
      ((r.1, queuedDeletions + 1), r.2)
attribute [grind] replaceDeletionsKnown

/-- After the deletion loop: the first `Replace` marks the FIFO populated and records how
many keys it queued. -/
def recordInitialPopulation (f : DeltaFIFO Obj) (keys : Finset String) (queuedDeletions : Nat) :
    DeltaFIFO Obj :=
  if f.populated then f
  else { f with populated := true, initialPopulationCount := keys.card + queuedDeletions }
attribute [grind] recordInitialPopulation

/-- `Replace`.  `order` is the order in which Go ranges over `items`. -/
def replace (f : DeltaFIFO Obj) (knownObjects : Option (KnownObjects Obj)) (list : List (Object Obj))
    (order : List String) : Result Obj :=
  let action := if f.emitDeltaTypeReplaced then DeltaType.replaced else DeltaType.sync
  match replaceListed action (f, ∅) list with
  | ((f, _), .error e) => (f, .error e)
  | ((f, keys), .ok ()) =>
      let deletions :=
        match knownObjects with
        | none => replaceDeletionsOwn keys (f, 0) order
        | some known => replaceDeletionsKnown known keys (f, 0) known.listKeys
      match deletions with
      | ((f, _), .error e) => (f, .error e)
      | ((f, queuedDeletions), .ok ()) => (recordInitialPopulation f keys queuedDeletions, .ok ())
attribute [grind] replace

/-- `syncKeyLocked`: a `Sync` delta for a known object with nothing queued. -/
def syncKeyLocked (known : KnownObjects Obj) (f : DeltaFIFO Obj) (key : String) : Result Obj :=
  match known.getByKey key with
  | .error _ => (f, .ok ())
  | .ok none => (f, .ok ())
  | .ok (some obj) =>
      match f.keyFunc obj with
      | .error e => (f, .error e)
      | .ok id =>
          if 0 < ((f.items id).getD []).length then (f, .ok ())
          else queueActionLocked f .sync (.item obj)
attribute [grind] syncKeyLocked

/-- `Resync`: nothing without known objects. -/
def resync (f : DeltaFIFO Obj) (knownObjects : Option (KnownObjects Obj)) : Result Obj :=
  match knownObjects with
  | none => (f, .ok ())
  | some known => forRangeErr (syncKeyLocked known) f known.listKeys
attribute [grind] resync

/-- What `Pop` can return. -/
inductive PopResult (Obj : Type _) where
  | item (id : String) (deltas : List (Delta Obj))
  | closed
  | blocked

/-- `Pop`'s loop: take keys off the head of the queue, skipping any without `Deltas`
("Inconceivable!"), until one has them; hand those out, putting them back when the
consumer asked for a requeue.  On an empty queue it returns `ErrFIFOClosed` when closed
and blocks otherwise. -/
def popFrom (requeue : Bool) (f : DeltaFIFO Obj) : List String → PopResult Obj × DeltaFIFO Obj
  | [] => (if f.closed then .closed else .blocked, { f with queue := [] })
  | id :: rest =>
      let f := { f with queue := rest, initialPopulationCount := f.initialPopulationCount - 1 }
      match f.items id with
      | none => popFrom requeue f rest
      | some item =>
          let f := { f with items := Function.update f.items id none }
          (.item id item, if requeue then addIfNotPresent f id item else f)
attribute [grind] popFrom

/-- `Close`. -/
def close (f : DeltaFIFO Obj) : DeltaFIFO Obj :=
  { f with closed := true }
attribute [grind] close

/-- `Pop`. -/
def pop (f : DeltaFIFO Obj) (requeue : Bool) : PopResult Obj × DeltaFIFO Obj :=
  popFrom requeue f f.queue
attribute [grind] pop

end Cache
end Kubernetes
