import Mathlib
import Kubernetes.Heap.Container
import Kubernetes.Workqueue.Queue

/-!
# The delaying queue

`client-go/util/workqueue/delaying_queue.go`.  `AddAfter` hands an item with a positive delay to
`waitingLoop` through the buffered channel `waitingForAddCh`, as a new `waitFor` with the time
it is ready at; with no delay it calls `Add` of the wrapped queue at once.  `waitingLoop` keeps
the `waitFor`s that are not ready yet in the heap `waitingForQueue`, ordered by `readyAt`, and
finds an item's entry through the map `waitingEntryByData`; `insert` keeps one entry per item,
moved earlier by a request that is ready earlier.

The `waitFor`s are shared by pointer between the heap slice and the map, and the heap's `Swap`,
`Push` and `Pop` write their `index` fields, which `insert` then reads for `heap.Fix`.  The
model keeps them so: `WaitQueue.entries` is the memory of `waitFor`s by address, the heap slice
and the map hold addresses.  A request still in the channel is referred to by no one else and
is a value.  Times are the clock's readings as integers (`Before` and `After` are `<` and `>`).

The loop is a program with four places (`Pc`): the head of the loop, which reads the clock, the
loop that hands the ready entries to `Add`, the `select`, and the loop that empties the
channel.  Its steps interleave with those of callers of `AddAfter` and with the clock (`Step`).
The heartbeat and the timer only make the `select` go round, so a timer may fire at any time
here; `ShutDown` and the workers of the wrapped queue are left out, as is everything else the
delaying queue passes through to the wrapped queue.
-/

namespace Kubernetes
namespace Workqueue

/-- `waitFor`: the item, the time it is ready at, and its position in the heap. -/
structure WaitFor (T : Type) where
  data : T
  readyAt : Int
  index : Int
  deriving DecidableEq, Repr

instance {T : Type} [Inhabited T] : Inhabited (WaitFor T) := ⟨⟨default, 0, 0⟩⟩

/-- `waitForPriorityQueue` with the memory it points into: `entries` holds the `waitFor`s the
loop has taken in, by address, and `queue` is the slice of addresses. -/
structure WaitQueue (T : Type) where
  entries : List (WaitFor T)
  queue : List Nat
  deriving DecidableEq, Repr

namespace WaitQueue

variable {T : Type} [Inhabited T]

/-- The `waitFor` at address `ptr`. -/
def entry (q : WaitQueue T) (ptr : Nat) : WaitFor T :=
  q.entries[ptr]?.getD default
attribute [grind] entry

/-- `pq[i]`. -/
def slot (q : WaitQueue T) (i : Nat) : WaitFor T :=
  q.entry (q.queue.getD i 0)
attribute [grind] slot

/-- Write the `index` of the `waitFor` at `ptr`. -/
def setIndex (q : WaitQueue T) (ptr : Nat) (k : Int) : WaitQueue T :=
  { q with entries := q.entries.modify ptr fun e => { e with index := k } }
attribute [grind] setIndex

/-- Write the `readyAt` of the `waitFor` at `ptr`. -/
def setReadyAt (q : WaitQueue T) (ptr : Nat) (t : Int) : WaitQueue T :=
  { q with entries := q.entries.modify ptr fun e => { e with readyAt := t } }
attribute [grind] setReadyAt

/-- `Less`: `pq[i].readyAt.Before(pq[j].readyAt)`. -/
def less (q : WaitQueue T) (i j : Nat) : Bool :=
  decide ((q.slot i).readyAt < (q.slot j).readyAt)
attribute [grind] less

/-- `Swap`: exchange two positions and write both `index` fields. -/
def swap (q : WaitQueue T) (i j : Nat) : WaitQueue T :=
  let q := { q with queue := q.queue.swap i j }
  (q.setIndex (q.queue.getD i 0) i).setIndex (q.queue.getD j 0) j
attribute [grind] swap

/-- `Push`: the `waitFor` at `ptr` gets the next position as its index and goes last. -/
def push (q : WaitQueue T) (ptr : Nat) : WaitQueue T :=
  ({ q with queue := q.queue ++ [ptr] }).setIndex ptr q.queue.length
attribute [grind] push

/-- `Pop`: the last `waitFor` gets index `-1` and leaves the slice. -/
def pop (q : WaitQueue T) : WaitQueue T × Nat :=
  let ptr := q.queue.getD (q.queue.length - 1) 0
  (({ q with queue := q.queue.dropLast }).setIndex ptr (-1), ptr)
attribute [grind] pop

/-- `waitForPriorityQueue` as a `heap.Interface`. -/
def heap : Heap.Interface (WaitQueue T) Nat where
  len q := q.queue.length
  less := less
  swap := swap
  push := push
  pop := pop
attribute [grind] heap

/-- The key the heap is ordered by: the `readyAt` at a position. -/
def key (q : WaitQueue T) (c : Nat) : Int :=
  (q.slot c).readyAt
attribute [grind] key

/-! ### Frame lemmas -/

variable (q : WaitQueue T)

omit [Inhabited T] in
@[simp] theorem queue_setIndex (p : Nat) (k : Int) : (q.setIndex p k).queue = q.queue := rfl

omit [Inhabited T] in
@[simp] theorem queue_setReadyAt (p : Nat) (t : Int) : (q.setReadyAt p t).queue = q.queue := rfl

omit [Inhabited T] in
@[simp] theorem length_entries_setIndex (p : Nat) (k : Int) :
    (q.setIndex p k).entries.length = q.entries.length := by
  simp [setIndex]

omit [Inhabited T] in
@[simp] theorem length_entries_setReadyAt (p : Nat) (t : Int) :
    (q.setReadyAt p t).entries.length = q.entries.length := by
  simp [setReadyAt]

/-- A write through a pointer leaves every field it does not write, at every address. -/
theorem field_entry_modify {β : Type} (g : WaitFor T → β) (f : WaitFor T → WaitFor T)
    (hf : ∀ e, g (f e) = g e) (p r : Nat) :
    g ((q.entries.modify p f)[r]?.getD default) = g (q.entry r) := by
  unfold entry
  rw [List.getElem?_modify]
  cases q.entries[r]? with
  | none => rfl
  | some e =>
      simp only [Option.map_eq_map, Option.map_some, Option.getD_some]
      split_ifs
      · exact hf e
      · rfl

/-- A write through a pointer, read back at an address in memory. -/
theorem entry_modify {f : WaitFor T → WaitFor T} {p : Nat} (hp : p < q.entries.length) (r : Nat) :
    (q.entries.modify p f)[r]?.getD default = if r = p then f (q.entry r) else q.entry r := by
  unfold entry
  rw [List.getElem?_modify]
  by_cases hr : r = p
  · subst hr
    simp [List.getElem?_eq_getElem hp]
  · cases q.entries[r]? <;> simp [Ne.symm hr, hr]

@[simp] theorem data_entry_setIndex (p : Nat) (k : Int) (r : Nat) :
    ((q.setIndex p k).entry r).data = (q.entry r).data :=
  q.field_entry_modify WaitFor.data (fun e => { e with index := k }) (fun _ => rfl) p r

@[simp] theorem readyAt_entry_setIndex (p : Nat) (k : Int) (r : Nat) :
    ((q.setIndex p k).entry r).readyAt = (q.entry r).readyAt :=
  q.field_entry_modify WaitFor.readyAt (fun e => { e with index := k }) (fun _ => rfl) p r

@[simp] theorem data_entry_setReadyAt (p : Nat) (t : Int) (r : Nat) :
    ((q.setReadyAt p t).entry r).data = (q.entry r).data :=
  q.field_entry_modify WaitFor.data (fun e => { e with readyAt := t }) (fun _ => rfl) p r

@[simp] theorem index_entry_setReadyAt (p : Nat) (t : Int) (r : Nat) :
    ((q.setReadyAt p t).entry r).index = (q.entry r).index :=
  q.field_entry_modify WaitFor.index (fun e => { e with readyAt := t }) (fun _ => rfl) p r

theorem index_entry_setIndex {p : Nat} (hp : p < q.entries.length) (k : Int) (r : Nat) :
    ((q.setIndex p k).entry r).index = if r = p then k else (q.entry r).index := by
  unfold setIndex
  simp only [entry]
  rw [q.entry_modify hp r]
  split_ifs <;> rfl

theorem readyAt_entry_setReadyAt {p : Nat} (hp : p < q.entries.length) (t : Int) (r : Nat) :
    ((q.setReadyAt p t).entry r).readyAt = if r = p then t else (q.entry r).readyAt := by
  unfold setReadyAt
  simp only [entry]
  rw [q.entry_modify hp r]
  split_ifs <;> rfl

@[simp] theorem entry_mk (l : List Nat) (r : Nat) : (WaitQueue.mk q.entries l).entry r = q.entry r :=
  rfl

omit [Inhabited T] in
@[simp] theorem queue_push (ptr : Nat) : (q.push ptr).queue = q.queue ++ [ptr] := rfl

omit [Inhabited T] in
@[simp] theorem length_entries_push (ptr : Nat) : (q.push ptr).entries.length = q.entries.length := by
  simp [push]

@[simp] theorem data_entry_push (ptr r : Nat) : ((q.push ptr).entry r).data = (q.entry r).data := by
  simp [push]

@[simp] theorem readyAt_entry_push (ptr r : Nat) :
    ((q.push ptr).entry r).readyAt = (q.entry r).readyAt := by
  simp [push]

theorem index_entry_push {ptr : Nat} (hp : ptr < q.entries.length) (r : Nat) :
    ((q.push ptr).entry r).index = if r = ptr then (q.queue.length : Int) else (q.entry r).index :=
  index_entry_setIndex (WaitQueue.mk q.entries (q.queue ++ [ptr])) hp q.queue.length r

omit [Inhabited T] in
@[simp] theorem queue_pop : q.pop.1.queue = q.queue.dropLast := rfl

omit [Inhabited T] in
@[simp] theorem snd_pop : q.pop.2 = q.queue.getD (q.queue.length - 1) 0 := rfl

omit [Inhabited T] in
@[simp] theorem length_entries_pop : q.pop.1.entries.length = q.entries.length := by
  simp [pop]

@[simp] theorem data_entry_pop (r : Nat) : (q.pop.1.entry r).data = (q.entry r).data := by
  simp [pop]

@[simp] theorem readyAt_entry_pop (r : Nat) : (q.pop.1.entry r).readyAt = (q.entry r).readyAt := by
  simp [pop]

theorem index_entry_pop (hp : q.pop.2 < q.entries.length) (r : Nat) :
    (q.pop.1.entry r).index = if r = q.pop.2 then -1 else (q.entry r).index :=
  index_entry_setIndex (WaitQueue.mk q.entries q.queue.dropLast) hp (-1) r

/-! ### The heap interface -/

omit [Inhabited T] in
@[simp] theorem queue_swap (i j : Nat) : (q.swap i j).queue = q.queue.swap i j := rfl

omit [Inhabited T] in
theorem length_swap (i j : Nat) : (q.swap i j).queue.length = q.queue.length := by
  simp

/-- A `Swap` leaves every `waitFor`'s item and time, wherever it is. -/
@[simp] theorem data_entry_swap (i j r : Nat) : ((q.swap i j).entry r).data = (q.entry r).data := by
  simp [swap]

@[simp] theorem readyAt_entry_swap (i j r : Nat) :
    ((q.swap i j).entry r).readyAt = (q.entry r).readyAt := by
  simp [swap]

theorem key_swap {i j : Nat} (hi : i < q.queue.length) (hj : j < q.queue.length) (c : Nat) :
    key (q.swap i j) c = key q (Equiv.swap i j c) := by
  unfold key slot
  rw [readyAt_entry_swap]
  simp only [swap, queue_setIndex, Heap.getD_swap hi hj]

/-- `waitForPriorityQueue` meets what the heap functions need, with `readyAt` as the key. -/
theorem lawful : Heap.Lawful (heap (T := T)) key where
  less _ _ _ _ _ := rfl
  len_swap q i j := q.length_swap i j
  key_swap q i j hi hj c := q.key_swap hi hj c
  len_push q x := by simp [heap, push]
  key_push q x c hc := by
    simp only [heap] at hc
    simp only [heap, push, key, slot, queue_setIndex, readyAt_entry_setIndex]
    rw [List.getD_append _ _ _ _ hc]
    rfl
  len_pop q := by simp [heap, pop]
  key_pop q c hc := by
    simp only [heap] at hc
    simp only [heap, pop, key, slot, queue_setIndex, readyAt_entry_setIndex]
    rw [List.getD_eq_getElem?_getD, List.getElem?_dropLast, if_pos (by omega),
      ← List.getD_eq_getElem?_getD]
    rfl

end WaitQueue

open WaitQueue

variable {T : Type} [Inhabited T] [DecidableEq T]

/-- `heap.Fix(q, i)` at the `index` of a `waitFor`, which is never negative in the states the
loop reaches (`Waiting.index`); Go's `Fix` at a negative index does nothing or panics. -/
def fixAt (q : WaitQueue T) (i : Int) : WaitQueue T :=
  Heap.fix heap q i.toNat
attribute [grind] fixAt

/-- `insert`: a request for an item that has an entry moves the entry earlier when the request
is ready earlier (`heap.Fix` at the entry's index); any other request goes into the heap and
becomes the item's entry. -/
def insert (q : WaitQueue T) (knownEntries : T → Option Nat) (entry : WaitFor T) :
    WaitQueue T × (T → Option Nat) :=
  match knownEntries entry.data with
  | some existing =>
      if (q.entry existing).readyAt > entry.readyAt then
        (fixAt (q.setReadyAt existing entry.readyAt) (q.entry existing).index, knownEntries)
      else (q, knownEntries)
  | none =>
      -- the request's `waitFor` gets the next address, and the heap and the map point to it
      (Heap.push heap { q with entries := q.entries ++ [entry] } q.entries.length,
        Function.update knownEntries entry.data (some q.entries.length))
attribute [grind] insert

/-- Where `waitingLoop` is: at the head of the loop, in the loop that hands the ready entries to
`Add` with the time it read, at the `select`, or in the loop that empties the channel. -/
inductive Pc
  | top
  | adding (now : Int)
  | selecting
  | draining
  deriving DecidableEq, Repr

/-- The capacity of `waitingForAddCh`. -/
def waitingForAddChCap : Nat := 1000
attribute [grind] waitingForAddChCap

/-- The delaying queue and its `waitingLoop`: the wrapped queue, the clock, the channel (oldest
request first), the heap and map of the loop, and where the loop is. -/
structure Delaying (T : Type) where
  queue : Queue T
  clock : Int
  waitingForAddCh : List (WaitFor T)
  waitingForQueue : WaitQueue T
  waitingEntryByData : T → Option Nat
  pc : Pc

namespace Delaying

/-- The state `newDelayingQueue` starts the loop in. -/
def init (clock : Int) : Delaying T where
  queue := newQueue
  clock := clock
  waitingForAddCh := []
  waitingForQueue := ⟨[], []⟩
  waitingEntryByData := fun _ => none
  pc := .top
attribute [grind] init

/-- The entry at the root of the heap, `Peek`. -/
def peek (s : Delaying T) : WaitFor T :=
  s.waitingForQueue.slot 0
attribute [grind] peek

/-- One turn of the loop that hands the ready entries to `Add`: `heap.Pop`, `Add` and
`delete`. -/
def popReady (s : Delaying T) : Delaying T × WaitFor T :=
  let r := Heap.pop heap s.waitingForQueue
  let e := r.1.entry r.2
  ({ s with waitingForQueue := r.1, queue := s.queue.add e.data
            waitingEntryByData := Function.update s.waitingEntryByData e.data none }, e)
attribute [grind] popReady

/-- What the loop does with a request it receives: `insert` when it is ready after the clock,
`Add` otherwise. -/
def receive (s : Delaying T) (e : WaitFor T) : Delaying T :=
  if e.readyAt > s.clock then
    { s with waitingForQueue := (insert s.waitingForQueue s.waitingEntryByData e).1
             waitingEntryByData := (insert s.waitingForQueue s.waitingEntryByData e).2 }
  else { s with queue := s.queue.add e.data }
attribute [grind] receive

end Delaying

/-- What a step shows: a caller's request and the time it is ready at, a direct `Add` of
`AddAfter`, the clock moving on, the loop reading the clock, an entry handed to `Add` from the
heap, a wait, a request taken into the heap, and a received request handed to `Add`. -/
inductive Event (T : Type)
  | request (item : T) (readyAt : Int)
  | addNow (item : T) (readyAt : Int)
  | advance (d : Nat)
  | readClock
  | pop (item : T) (readyAt : Int)
  | wait
  | insert (item : T) (readyAt : Int)
  | addReceived (item : T) (readyAt : Int)
  deriving DecidableEq, Repr

/-- The item handed to `Add` by a step, with the time it was ready at. -/
def Event.added : Event T → Option (T × Int)
  | .addNow item r | .pop item r | .addReceived item r => some (item, r)
  | _ => none
attribute [grind] Event.added

/-- The event of receiving the request `e` when the clock reads `now`. -/
def receiveEvent (now : Int) (e : WaitFor T) : Event T :=
  if e.readyAt > now then .insert e.data e.readyAt else .addReceived e.data e.readyAt
attribute [grind] receiveEvent

namespace Delaying

/-- The steps of the callers of `AddAfter`, of the clock and of `waitingLoop`. -/
inductive Step : Delaying T → Event T → Delaying T → Prop
  /-- `AddAfter` with a positive delay sends a new `waitFor` when the channel has room. -/
  | request (s : Delaying T) (item : T) (duration : Int) :
      0 < duration → s.waitingForAddCh.length < waitingForAddChCap →
      Step s (.request item (s.clock + duration))
        { s with waitingForAddCh := s.waitingForAddCh ++ [⟨item, s.clock + duration, 0⟩] }
  /-- `AddAfter` with no delay calls `Add`. -/
  | addNow (s : Delaying T) (item : T) (duration : Int) :
      duration ≤ 0 → Step s (.addNow item (s.clock + duration)) { s with queue := s.queue.add item }
  | advance (s : Delaying T) (d : Nat) : Step s (.advance d) { s with clock := s.clock + d }
  /-- The head of the loop reads the clock. -/
  | readClock (s : Delaying T) : s.pc = .top → Step s .readClock { s with pc := .adding s.clock }
  /-- The root is not after the time read: it is popped and handed to `Add`. -/
  | pop (s : Delaying T) (now : Int) : s.pc = .adding now → 0 < s.waitingForQueue.queue.length →
      ¬ s.peek.readyAt > now →
      Step s (.pop s.popReady.2.data s.popReady.2.readyAt) s.popReady.1
  /-- The heap is empty or its root is after the time read: on to the `select`. -/
  | endAdding (s : Delaying T) (now : Int) : s.pc = .adding now →
      (s.waitingForQueue.queue.length = 0 ∨ s.peek.readyAt > now) →
      Step s .wait { s with pc := .selecting }
  /-- The heartbeat or the timer fires. -/
  | fire (s : Delaying T) : s.pc = .selecting → Step s .wait { s with pc := .top }
  /-- The `select`, or the loop that empties the channel, receives the oldest request. -/
  | receive (s : Delaying T) (e : WaitFor T) (rest : List (WaitFor T)) :
      (s.pc = .selecting ∨ s.pc = .draining) → s.waitingForAddCh = e :: rest →
      Step s (receiveEvent s.clock e)
        { ({ s with waitingForAddCh := rest }.receive e) with pc := .draining }
  /-- The channel is empty: back to the head of the loop. -/
  | drained (s : Delaying T) : s.pc = .draining → s.waitingForAddCh = [] →
      Step s .wait { s with pc := .top }

end Delaying

end Workqueue
end Kubernetes
