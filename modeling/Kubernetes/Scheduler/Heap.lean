import Mathlib
import Kubernetes.Heap.Container

/-!
# The scheduler's keyed heap

`pkg/scheduler/internal/heap` keeps objects in a binary heap found by key: `data.items` maps the
key of each object to the object and its position, and `data.queue` is the slice of keys the
`container/heap` functions sort by `lessFunc`.  `Swap` writes the positions back into the items,
`Push` appends a key and `Pop` takes off the last one and deletes its item.  `Add` replaces the
object of a key it already has and sifts it (`heap.Fix`), and pushes a new one; `Delete` takes
the object of a key out with `heap.Remove`; `Pop` is `heap.Pop`.

The value `Push` gets and `Pop` hands back is Go's `interface{}`: here an `itemKeyValue` or
nothing, the key coming back with the object.  The key function of the scheduler's heaps never
fails on a pod, so `Add` and `Delete` have no key error here; the metric recorder is left out.
`Get` and `Delete` read nothing of the object they are given but its key, so they take the key:
the scheduler looks pods up with objects made for the lookup alone.

On a heap of at most one element the sifts do nothing, and the functions are read off directly
(`add_of_queue_eq_nil`, `pop_of_queue_eq_single`): which keys a heap holds is all the queue of
the scheduler asks of it in the runs where it fails.
-/

namespace Kubernetes
namespace Scheduler

/-- `heapItem`: an object and the position of its key in the queue. -/
structure HeapItem (β : Type) where
  obj : β
  index : Nat
  deriving DecidableEq, Repr

/-- `itemKeyValue`. -/
structure ItemKeyValue (β : Type) where
  key : String
  obj : β
  deriving DecidableEq, Repr

/-- `data`: the items by key and the queue of keys. -/
structure Data (β : Type) where
  items : String → Option (HeapItem β)
  queue : List String

namespace Data

variable {β : Type} (lessFunc : β → β → Bool) (h : Data β)

/-- The heap with no item, as `NewWithRecorder` makes it. -/
def empty : Data β :=
  ⟨fun _ => none, []⟩
attribute [grind] empty

/-- The map write `h.items[key] = item`, or the delete when `item` is `none`. -/
def setItem (key : String) (item : Option (HeapItem β)) : Data β :=
  { h with items := Function.update h.items key item }
attribute [grind] setItem

/-- The write `item.index = i` through the item of `key`. -/
def setIndex (key : String) (i : Nat) : Data β :=
  h.setItem key ((h.items key).map fun item => { item with index := i })
attribute [grind] setIndex

/-- `Less`: the objects at the two positions, by `lessFunc`. -/
def less (i j : Nat) : Bool :=
  if i > h.queue.length ∨ j > h.queue.length then false
  else
    match h.items (h.queue.getD i ""), h.items (h.queue.getD j "") with
    | some itemi, some itemj => lessFunc itemi.obj itemj.obj
    | _, _ => false
attribute [grind] less

/-- `Swap`: exchange the keys at two positions and write both positions into their items. -/
def swap (i j : Nat) : Data β :=
  let h := { h with queue := h.queue.swap i j }
  (h.setIndex (h.queue.getD i "") i).setIndex (h.queue.getD j "") j
attribute [grind] swap

/-- `Push`: the item goes last. -/
def push : Option (ItemKeyValue β) → Data β
  | some keyValue =>
    { items := Function.update h.items keyValue.key (some ⟨keyValue.obj, h.queue.length⟩),
      queue := h.queue ++ [keyValue.key] }
  | none => h
attribute [grind] push

/-- `Pop`: the last key leaves the queue and its item the map. -/
def pop : Data β × Option (ItemKeyValue β) :=
  let key := h.queue.getD (h.queue.length - 1) ""
  let h' := { h with queue := h.queue.dropLast }
  match h'.items key with
  | some item => (h'.setItem key none, some ⟨key, item.obj⟩)
  | none => (h', none)
attribute [grind] pop

/-- `data` as a `heap.Interface`. -/
def iface : Heap.Interface (Data β) (Option (ItemKeyValue β)) where
  len h := h.queue.length
  less := less lessFunc
  swap := swap
  push := push
  pop := pop
attribute [grind] iface

/-- `Heap.Delete` of an object whose key is `key`. -/
def delete (key : String) : Except String (Data β) :=
  match h.items key with
  | some item => .ok (Heap.remove (iface lessFunc) h item.index).1
  | none => .error "object not found"
attribute [grind] delete

variable (keyFunc : β → String)

/-- `Heap.Add`, which is also `Heap.Update`. -/
def add (obj : β) : Data β :=
  match h.items (keyFunc obj) with
  | some item =>
    Heap.fix (iface lessFunc) (h.setItem (keyFunc obj) (some { item with obj := obj })) item.index
  | none => Heap.push (iface lessFunc) h (some ⟨keyFunc obj, obj⟩)
attribute [grind] add

/-- `Heap.Peek`. -/
def peek : Option β :=
  match h.queue with
  | [] => none
  | key :: _ => (h.items key).map (·.obj)
attribute [grind] peek

/-- `Heap.Pop`: the heap after `heap.Pop`, and the object or the error. -/
def popObj : Data β × Except String β :=
  match Heap.pop (iface lessFunc) h with
  | (h', some keyValue) => (h', .ok keyValue.obj)
  | (h', none) => (h', .error "object was removed from heap data")
attribute [grind] popObj

/-- `Heap.Len`. -/
def len : Nat :=
  h.queue.length
attribute [grind] len

/-- `Heap.GetByKey`, the object of each key; `Heap.Get` of an object is this at its key. -/
def objAt (key : String) : Option β :=
  (h.items key).map (·.obj)
attribute [grind] objAt

/-! ## The objects of the keys -/

variable {lessFunc keyFunc h}

@[simp] theorem items_setItem (key : String) (item : Option (HeapItem β)) :
    (h.setItem key item).items = Function.update h.items key item :=
  rfl

@[simp] theorem queue_setItem (key : String) (item : Option (HeapItem β)) :
    (h.setItem key item).queue = h.queue :=
  rfl

@[simp] theorem objAt_empty (key : String) : (empty : Data β).objAt key = none :=
  rfl

theorem objAt_setItem (key : String) (item : Option (HeapItem β)) :
    (h.setItem key item).objAt = Function.update h.objAt key (item.map (·.obj)) := by
  funext k
  by_cases hk : k = key
  · subst hk
    simp [objAt]
  · simp [objAt, Function.update_of_ne hk]

@[simp] theorem objAt_setIndex (key : String) (i : Nat) : (h.setIndex key i).objAt = h.objAt := by
  rw [setIndex, objAt_setItem]
  funext k
  by_cases hk : k = key
  · subst hk
    simp [objAt, Option.map_map, Function.comp_def]
  · rw [Function.update_of_ne hk]

/-- `Swap` moves keys and writes positions; the object of every key stays. -/
@[simp] theorem objAt_swap (i j : Nat) : (h.swap i j).objAt = h.objAt := by
  simp only [swap, objAt_setIndex]
  rfl

theorem objAt_up (s : Data β) (j : Nat) : (Heap.up (iface lessFunc) s j).objAt = s.objAt :=
  Heap.up_preserves (iface lessFunc) (fun t => t.objAt = s.objAt) (m := j + 1)
    (fun _ a b _ _ ht => (objAt_swap a b).trans ht) s j (Nat.lt_succ_self j) rfl

theorem objAt_downFrom (s : Data β) (i n : Nat) :
    (Heap.downFrom (iface lessFunc) s i n).1.objAt = s.objAt :=
  Heap.downFrom_preserves (iface lessFunc) (fun t => t.objAt = s.objAt) (n := n)
    (fun _ a b _ _ ht => (objAt_swap a b).trans ht) s i rfl

theorem objAt_fix (s : Data β) (i : Nat) : (Heap.fix (iface lessFunc) s i).objAt = s.objAt := by
  unfold Heap.fix Heap.down
  split
  · exact objAt_downFrom s i _
  · rw [objAt_up, objAt_downFrom]

/-- `Add` sets the object of the object's key, and no other. -/
theorem objAt_add (obj : β) :
    (h.add lessFunc keyFunc obj).objAt = Function.update h.objAt (keyFunc obj) (some obj) := by
  unfold add
  split
  · rw [objAt_fix, objAt_setItem]
    rfl
  · rw [Heap.push, objAt_up]
    funext k
    by_cases hk : k = keyFunc obj
    · subst hk
      simp [iface, push, objAt]
    · simp [iface, push, objAt, Function.update_of_ne hk]

/-- `Delete` of an object whose key has no item fails and leaves the heap. -/
theorem delete_of_objAt_eq_none {key : String} (habsent : h.objAt key = none) :
    h.delete lessFunc key = .error "object not found" := by
  have hitem : h.items key = none := by simpa [objAt] using habsent
  rw [delete, hitem]

/-! ## Heaps of at most one element -/

/-- `Add` to an empty queue makes the object the only item, at position `0`. -/
theorem add_of_queue_eq_nil (hq : h.queue = []) (hnew : h.items (keyFunc obj) = none) :
    h.add lessFunc keyFunc obj =
      ⟨Function.update h.items (keyFunc obj) (some ⟨obj, 0⟩), [keyFunc obj]⟩ := by
  have hlen : (iface lessFunc).len ((iface lessFunc).push h (some ⟨keyFunc obj, obj⟩)) = 1 := by
    simp [iface, push, hq]
  rw [add, hnew]
  simp only
  rw [Heap.push_of_len_eq_one _ hlen]
  simp [iface, push, hq]

/-- `Pop` of a queue of one key hands back its object and leaves no key. -/
theorem popObj_of_queue_eq_single {key : String} {item : HeapItem β} (hq : h.queue = [key])
    (hitem : h.items key = some item) :
    h.popObj lessFunc = (⟨Function.update h.items key none, []⟩, .ok item.obj) := by
  have hlen : (iface lessFunc).len h ≤ 1 := by simp [iface, hq]
  rw [popObj, Heap.pop_of_len_le_one _ hlen]
  simp [iface, swap, pop, setIndex, setItem, hq, hitem, Function.update_idem]

end Data

end Scheduler
end Kubernetes
