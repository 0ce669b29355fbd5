import Mathlib
import Kubernetes.Scheduler.Heap
import Kubernetes.Heap.Simulation

/-!
# The keyed heap keeps its index and its order

`data` keeps two views of one heap: the slice `queue` of keys the heap functions sort, and the
map `items` from key to object and position.  They agree when the item of each key holds the
key's position, and each key of the queue has an item (`Indexed`); `Swap` writes the positions
back so that they keep agreeing (`Indexed.swap`), and so do `Push` of a new key and `Pop`.

When `lessFunc` compares objects by a key `prio` into a linear order, the keys of the objects in
queue order (`keysOf`) simulate an indexed `data` as a heap of keys (`simulation`), and the order
of `container/heap` carries over.  `Valid` is an indexed heap whose keys are heap-ordered.
`Add`, `Delete` and `Pop` keep it (`Valid.add`, `Valid.delete`, `Valid.popObj`), `Pop` of a heap
that is not empty hands back an object whose key no other object's key is below
(`popObj_least`), and the objects that stay are those of the other keys (`objAt_popObj`,
`objAt_delete`).
-/

namespace Kubernetes
namespace Scheduler
namespace Data

open Heap

variable {β : Type}

/-! ## The index -/

/-- `items[key].index` is where `key` stands in `queue`, and every key of `queue` has an
item. -/
def Indexed (h : Data β) : Prop :=
  ∀ key i, (h.items key).map HeapItem.index = some i ↔ h.queue[i]? = some key
attribute [grind] Indexed

theorem indexed_empty : (empty : Data β).Indexed := by
  intro key i
  simp [empty]

section Indexed

variable {h : Data β}

theorem Indexed.getElem?_of_items (hd : h.Indexed) {key : String} {item : HeapItem β}
    (hitem : h.items key = some item) : h.queue[item.index]? = some key :=
  (hd key item.index).mp (by rw [hitem]; rfl)

theorem Indexed.items_of_getElem? (hd : h.Indexed) {key : String} {i : Nat}
    (hq : h.queue[i]? = some key) : ∃ item, h.items key = some item ∧ item.index = i :=
  Option.map_eq_some_iff.mp ((hd key i).mpr hq)

/-- A key stands at one position at most. -/
theorem Indexed.pos_unique (hd : h.Indexed) {key : String} {i j : Nat}
    (hi : h.queue[i]? = some key) (hj : h.queue[j]? = some key) : i = j := by
  have hii := (hd key i).mpr hi
  rw [(hd key j).mpr hj] at hii
  exact (Option.some.inj hii).symm

/-- A key outside the queue has no item. -/
theorem Indexed.items_eq_none (hd : h.Indexed) {key : String} (hkey : key ∉ h.queue) :
    h.items key = none := by
  cases hitem : h.items key with
  | none => rfl
  | some item => exact absurd (List.mem_of_getElem? (hd.getElem?_of_items hitem)) hkey

/-- The index only reads the positions: a state with the same queue and the same positions is
indexed too. -/
theorem Indexed.of_index_eq (hd : h.Indexed) {h' : Data β} (hq : h'.queue = h.queue)
    (hidx : ∀ key, (h'.items key).map HeapItem.index = (h.items key).map HeapItem.index) :
    h'.Indexed := by
  intro key i
  rw [hidx, hq]
  exact hd key i

/-- `Swap` of two positions in range moves the positions of their two keys, and no other. -/
theorem Indexed.index_swap (hd : h.Indexed) {i j : Nat} (hi : i < h.queue.length)
    (hj : j < h.queue.length) (key : String) :
    ((h.swap i j).items key).map HeapItem.index =
      ((h.items key).map HeapItem.index).map (Equiv.swap i j) := by
  obtain ⟨itemi, hitemi, hidxi⟩ := hd.items_of_getElem? (List.getElem?_eq_getElem hi)
  obtain ⟨itemj, hitemj, hidxj⟩ := hd.items_of_getElem? (List.getElem?_eq_getElem hj)
  have hqi : (h.queue.swap i j).getD i "" = h.queue[j] := by
    rw [getD_swap hi hj, Equiv.swap_apply_left, List.getD_eq_getElem _ _ hj]
  have hqj : (h.queue.swap i j).getD j "" = h.queue[i] := by
    rw [getD_swap hi hj, Equiv.swap_apply_right, List.getD_eq_getElem _ _ hi]
  simp only [swap, setIndex, items_setItem, hqi, hqj]
  by_cases hki : key = h.queue[i]
  · -- the key that stood at `i` now stands at `j`
    subst hki
    rw [Function.update_self]
    by_cases hij : h.queue[i] = h.queue[j]
    · rw [hij, Function.update_self, hitemj]
      have hji : j = i := hd.pos_unique (List.getElem?_eq_getElem hj) (hij ▸ List.getElem?_eq_getElem hi)
      simp [hidxj, hji]
    · rw [Function.update_of_ne hij, hitemi]
      simp [hidxi]
  · rw [Function.update_of_ne hki]
    by_cases hkj : key = h.queue[j]
    · -- the key that stood at `j` now stands at `i`
      subst hkj
      rw [Function.update_self, hitemj]
      simp [hidxj]
    · -- any other key stands at neither position and keeps its own
      rw [Function.update_of_ne hkj]
      cases hitem : h.items key with
      | none => rfl
      | some item =>
        have hq := hd.getElem?_of_items hitem
        have hni : item.index ≠ i := fun he => hki (by
          rw [he, List.getElem?_eq_getElem hi] at hq
          exact (Option.some.inj hq).symm)
        have hnj : item.index ≠ j := fun he => hkj (by
          rw [he, List.getElem?_eq_getElem hj] at hq
          exact (Option.some.inj hq).symm)
        simp [Equiv.swap_apply_of_ne_of_ne hni hnj]

@[simp] theorem queue_swap (i j : Nat) : (h.swap i j).queue = h.queue.swap i j :=
  rfl

/-- `Swap` of two positions in range keeps the index. -/
theorem Indexed.swap (hd : h.Indexed) {i j : Nat} (hi : i < h.queue.length)
    (hj : j < h.queue.length) : (h.swap i j).Indexed := by
  intro key c
  rw [hd.index_swap hi hj, queue_swap, getElem?_swap hi hj, ← hd key (Equiv.swap i j c)]
  constructor
  · intro hmap
    obtain ⟨d, hd', hdc⟩ := Option.map_eq_some_iff.mp hmap
    rw [hd', ← hdc, Equiv.swap_apply_self]
  · intro hmap
    rw [hmap, Option.map_some, Equiv.swap_apply_self]

/-- `Push` of a key with no item puts it last. -/
theorem Indexed.push (hd : h.Indexed) {key : String} (obj : β) (hnew : h.items key = none) :
    (h.push (some ⟨key, obj⟩)).Indexed := by
  have hout : key ∉ h.queue := fun hmem => by
    obtain ⟨i, hi⟩ := List.mem_iff_getElem?.mp hmem
    obtain ⟨item, hitem, -⟩ := hd.items_of_getElem? hi
    rw [hnew] at hitem
    cases hitem
  intro k c
  simp only [Data.push, List.getElem?_append, List.getElem?_singleton]
  by_cases hk : k = key
  · subst hk
    rw [Function.update_self]
    -- the new key stands at the new last position only
    by_cases hc : c < h.queue.length
    · have hne : h.queue[c]? ≠ some k := fun he => hout (List.mem_of_getElem? he)
      simp only [hc, if_true, hne, iff_false, Option.map_some, Option.some.injEq]
      omega
    · simp only [hc, if_false, Option.map_some, Option.some.injEq]
      constructor
      · intro he
        simp [← he]
      · intro he
        split_ifs at he with h0
        · omega
  · rw [Function.update_of_ne hk, hd k c]
    by_cases hc : c < h.queue.length
    · simp only [hc, if_true]
    · have hc' : h.queue[c]? = none := List.getElem?_eq_none (by omega)
      simp only [hc, if_false, hc']
      split_ifs
      · simp only [Option.some.injEq, false_iff]
        exact Ne.symm hk
      · simp

/-- `Pop` of the interface on a queue that is not empty: its last key leaves with its item. -/
theorem Indexed.pop (hd : h.Indexed) (hpos : 0 < h.queue.length) : (h.pop).1.Indexed := by
  have hlast := List.getElem?_eq_getElem (l := h.queue) (i := h.queue.length - 1) (by omega)
  obtain ⟨item, hitem, hidx⟩ := hd.items_of_getElem? hlast
  have hkey : h.queue.getD (h.queue.length - 1) "" = h.queue[h.queue.length - 1] :=
    List.getD_eq_getElem _ _ (by omega)
  simp only [Data.pop, hkey, hitem]
  intro k c
  simp only [items_setItem, queue_setItem, List.getElem?_dropLast]
  by_cases hk : k = h.queue[h.queue.length - 1]
  · subst hk
    rw [Function.update_self]
    simp only [Option.map_none, reduceCtorEq, false_iff]
    -- the last key stands only at the last position
    split_ifs with hc
    · intro he
      have := hd.pos_unique he hlast
      omega
    · simp
  · rw [Function.update_of_ne hk, hd k c]
    split_ifs with hc
    · rfl
    · simp only [iff_false]
      intro he
      have hc' : c = h.queue.length - 1 := by
        have := (List.getElem?_eq_some_iff.mp he).1
        omega
      subst hc'
      rw [hlast] at he
      exact hk (Option.some.inj he).symm

/-- `Pop` of the interface on an empty queue leaves it. -/
theorem Indexed.pop_of_queue_eq_nil (hd : h.Indexed) (hq : h.queue = []) : h.pop = (h, none) := by
  have hnone : h.items "" = none := hd.items_eq_none (by simp [hq])
  obtain ⟨items, queue⟩ := h
  subst hq
  have hnone' : items "" = none := hnone
  simp [Data.pop, hnone']

/-- Writing a new object into the item of a key keeps the index. -/
theorem Indexed.setItem_obj (hd : h.Indexed) {key : String} {item : HeapItem β} (obj : β)
    (hitem : h.items key = some item) : (h.setItem key (some { item with obj := obj })).Indexed := by
  refine hd.of_index_eq rfl fun k => ?_
  by_cases hk : k = key
  · subst hk
    rw [items_setItem, Function.update_self, hitem]
    rfl
  · rw [items_setItem, Function.update_of_ne hk]

@[simp] theorem queue_pop_fst : (h.pop).1.queue = h.queue.dropLast := by
  simp only [Data.pop]
  split <;> rfl

/-- `Pop` of the interface takes the item of the last key out and hands back its object. -/
theorem objAt_pop_fst_of_items {key : String} {item : HeapItem β}
    (hkey : h.queue.getD (h.queue.length - 1) "" = key) (hitem : h.items key = some item) :
    (h.pop).1.objAt = Function.update h.objAt key none ∧ (h.pop).2 = some ⟨key, item.obj⟩ := by
  constructor
  · simp only [Data.pop, hkey, hitem]
    exact objAt_setItem key none
  · simp only [Data.pop, hkey, hitem]

end Indexed

/-! ## The keys -/

section Keys

variable {κ : Type} (prio : β → κ)

/-- The keys of the objects in queue order; `⊥` for a key with no item. -/
def keysOf (h : Data β) : List (WithBot κ) :=
  h.queue.map fun key => (h.objAt key).elim ⊥ fun obj => (prio obj : WithBot κ)
attribute [grind] keysOf

variable {prio} {h : Data β}

@[simp] theorem length_keysOf : (h.keysOf prio).length = h.queue.length :=
  List.length_map _

theorem keysOf_swap {i j : Nat} (hi : i < h.queue.length) (hj : j < h.queue.length) :
    (h.swap i j).keysOf prio = (h.keysOf prio).swap i j := by
  unfold keysOf
  rw [objAt_swap, queue_swap, map_swap _ hi hj]

/-- `Push` of a new key adds its object's key last. -/
theorem Indexed.keysOf_push (hd : h.Indexed) {key : String} (obj : β) (hnew : h.items key = none) :
    (h.push (some ⟨key, obj⟩)).keysOf prio = h.keysOf prio ++ [(prio obj : WithBot κ)] := by
  have hobj : ∀ k ∈ h.queue, k ≠ key := fun k hk he => by
    obtain ⟨i, hi⟩ := List.mem_iff_getElem?.mp hk
    obtain ⟨item, hitem, -⟩ := hd.items_of_getElem? hi
    rw [he, hnew] at hitem
    cases hitem
  simp only [keysOf, Data.push, List.map_append, List.map_cons, List.map_nil, objAt]
  congr 1
  · apply List.map_congr_left
    intro k hk
    rw [Function.update_of_ne (hobj k hk)]
  · simp

/-- `Pop` of the interface on an indexed queue that is not empty drops the last key. -/
theorem Indexed.keysOf_pop (hd : h.Indexed) (hpos : 0 < h.queue.length) :
    (h.pop).1.keysOf prio = (h.keysOf prio).dropLast := by
  have hlast := List.getElem?_eq_getElem (l := h.queue) (i := h.queue.length - 1) (by omega)
  obtain ⟨item, hitem, -⟩ := hd.items_of_getElem? hlast
  obtain ⟨hobj, -⟩ := objAt_pop_fst_of_items (List.getD_eq_getElem _ _ (by omega)) hitem
  -- the last key stands nowhere else
  have hne : ∀ k ∈ h.queue.dropLast, k ≠ h.queue[h.queue.length - 1] := fun k hk he => by
    obtain ⟨i, hi⟩ := List.mem_iff_getElem?.mp hk
    rw [List.getElem?_dropLast] at hi
    split_ifs at hi with hlt
    · have := hd.pos_unique (he ▸ hi) hlast
      omega
  unfold keysOf
  rw [hobj, queue_pop_fst, ← List.map_dropLast]
  apply List.map_congr_left
  intro k hk
  rw [Function.update_of_ne (hne k hk)]

/-- Objects whose keys agree under two functions give the same keys in queue order. -/
theorem keysOf_congr {prio' : β → κ} (hp : ∀ key x, h.objAt key = some x → prio' x = prio x) :
    h.keysOf prio' = h.keysOf prio := by
  unfold keysOf
  apply List.map_congr_left
  intro key _
  cases hx : h.objAt key with
  | none => rfl
  | some x => simp [hp key x hx]

theorem keyAt_keysOf {c : Nat} (hc : c < h.queue.length) :
    keyAt κ (h.keysOf prio) c = (h.objAt h.queue[c]).elim ⊥ fun obj => (prio obj : WithBot κ) := by
  unfold keyAt keysOf
  rw [List.getD_eq_getElem _ _ (by rwa [List.length_map]), List.getElem_map]

/-- Each object of an indexed heap has its key at some position. -/
theorem Indexed.keyAt_of_objAt (hd : h.Indexed) {key : String} {obj : β}
    (hobj : h.objAt key = some obj) :
    ∃ c, c < h.queue.length ∧ keyAt κ (h.keysOf prio) c = (prio obj : WithBot κ) := by
  obtain ⟨item, hitem, hobj'⟩ := Option.map_eq_some_iff.mp hobj
  have hq := hd.getElem?_of_items hitem
  obtain ⟨hc, hqc⟩ := List.getElem?_eq_some_iff.mp hq
  refine ⟨item.index, hc, ?_⟩
  rw [keyAt_keysOf hc, hqc, hobj]
  rfl

end Keys

/-! ## Heaps of at most one key, and the key `Remove` takes out -/

section Small

variable {h : Data β} (lessFunc : β → β → Bool)

/-- `Swap` of the first position with itself on an empty indexed queue changes nothing. -/
theorem Indexed.swap_zero_of_queue_eq_nil (hd : h.Indexed) (hq : h.queue = []) : h.swap 0 0 = h := by
  have hnone : h.items "" = none := hd.items_eq_none (by simp [hq])
  obtain ⟨items, queue⟩ := h
  subst hq
  have hnone' : items "" = none := hnone
  simp [Data.swap, setIndex, setItem, hnone', Function.update_eq_self_iff]

/-- `heap.Pop` of an empty indexed queue changes nothing and hands back nothing. -/
theorem Indexed.heapPop_of_queue_eq_nil (hd : h.Indexed) (hq : h.queue = []) :
    Heap.pop (iface lessFunc) h = (h, none) := by
  have hlen : (iface lessFunc).len h ≤ 1 := by simp [iface, hq]
  rw [Heap.pop_of_len_le_one _ hlen]
  show (h.swap 0 0).pop = (h, none)
  rw [hd.swap_zero_of_queue_eq_nil hq, hd.pop_of_queue_eq_nil hq]

theorem popObj_fst : (h.popObj lessFunc).1 = (Heap.pop (iface lessFunc) h).1 := by
  unfold popObj
  split <;> simp_all

/-- `Delete` succeeds exactly on a key with an item, and then removes that item's position. -/
theorem delete_eq_ok_iff {key : String} {h' : Data β} :
    h.delete lessFunc key = .ok h' ↔
      ∃ item, h.items key = some item ∧ (Heap.remove (iface lessFunc) h item.index).1 = h' := by
  unfold delete
  split
  · next item hitem =>
    simp only [Except.ok.injEq, hitem, Option.some.injEq, exists_eq_left']
  · next hnone =>
    simp [hnone]

/-- `heap.Remove` of the position of a key hands `Pop` a state whose last key is that key,
with the same objects. -/
theorem Indexed.remove_last (hd : h.Indexed) {key : String} {item : HeapItem β}
    (hitem : h.items key = some item) :
    ∃ t : Data β, Heap.remove (iface lessFunc) h item.index = t.pop ∧ t.objAt = h.objAt ∧
      t.queue.getD (t.queue.length - 1) "" = key := by
  have hq := hd.getElem?_of_items hitem
  have hi : item.index < h.queue.length := (List.getElem?_eq_some_iff.mp hq).1
  let L := h.queue.length
  -- the key stays last through every swap below the last position
  obtain ⟨t, hrem, hlenT, hlastT, hobjT⟩ := Heap.remove_preserves (iface lessFunc)
    (fun t : Data β => t.queue.length = L ∧ t.queue[L - 1]? = some key ∧ t.objAt = h.objAt)
    (s := h) hi
    (fun hlast => ⟨rfl, by rw [show L - 1 = item.index from hlast]; exact hq, rfl⟩)
    (fun _ => by
      refine ⟨List.length_swap, ?_, objAt_swap _ _⟩
      show (h.queue.swap item.index (L - 1))[L - 1]? = some key
      rw [getElem?_swap hi (by omega), Equiv.swap_apply_right, hq])
    (fun t a b ha hb ⟨hl, hk, ho⟩ => by
      have ha' : a < t.queue.length := by
        change a < L - 1 at ha
        omega
      have hb' : b < t.queue.length := by
        change b < L - 1 at hb
        omega
      refine ⟨List.length_swap.trans hl, ?_, (objAt_swap a b).trans ho⟩
      show (t.queue.swap a b)[L - 1]? = some key
      rw [getElem?_swap ha' hb', Equiv.swap_apply_of_ne_of_ne (by change a < L - 1 at ha; omega)
        (by change b < L - 1 at hb; omega), hk])
  refine ⟨t, hrem, hobjT, ?_⟩
  rw [hlenT, List.getD_eq_getElem?_getD, hlastT]
  rfl

/-- Where `heap.Pop` hands an indexed state that is not empty to `Pop` of the interface, `Pop`
of the heap succeeds with the object of that state's last key, whose item it takes out. -/
theorem Indexed.popObj_of_heapPop {t : Data β} (ht : t.Indexed) (htpos : 0 < t.queue.length)
    (hpop : Heap.pop (iface lessFunc) h = t.pop) :
    ∃ item, t.items t.queue[t.queue.length - 1] = some item ∧
      h.popObj lessFunc = ((t.pop).1, .ok item.obj) ∧
      (t.pop).1.objAt = Function.update t.objAt t.queue[t.queue.length - 1] none := by
  have hlast := List.getElem?_eq_getElem (l := t.queue) (i := t.queue.length - 1) (by omega)
  obtain ⟨item, hitem, -⟩ := ht.items_of_getElem? hlast
  obtain ⟨hobj, hsnd⟩ := objAt_pop_fst_of_items (List.getD_eq_getElem _ _ (by omega)) hitem
  refine ⟨item, hitem, ?_, hobj⟩
  unfold Data.popObj
  rw [hpop, ← Prod.mk.eta (p := t.pop), hsnd]

end Small

/-! ## The functions keep the index -/

section IndexOps

variable {h : Data β} (lessFunc : β → β → Bool)

/-- A swap of positions below `L` keeps a state of `L` positions indexed. -/
theorem indexed_swap_below {L : Nat} (t : Data β) {a b : Nat} (ha : a < L) (hb : b < L)
    (ht : t.Indexed ∧ t.queue.length = L) :
    ((iface lessFunc).swap t a b).Indexed ∧ ((iface lessFunc).swap t a b).queue.length = L :=
  ⟨ht.1.swap (by omega) (by omega), List.length_swap.trans ht.2⟩

/-- `Add` keeps the index. -/
theorem Indexed.add (hd : h.Indexed) (keyFunc : β → String) (obj : β) :
    (h.add lessFunc keyFunc obj).Indexed := by
  unfold Data.add
  split
  · next item hitem =>
    have hidx : item.index < h.queue.length :=
      (List.getElem?_eq_some_iff.mp (hd.getElem?_of_items hitem)).1
    exact (fix_preserves (iface lessFunc) (fun t : Data β => t.Indexed ∧ t.queue.length = h.queue.length)
      (s := h.setItem (keyFunc obj) (some { item with obj := obj }))
      hidx (fun t _ _ ha hb ht => indexed_swap_below lessFunc t ha hb ht)
      ⟨hd.setItem_obj obj hitem, rfl⟩).1
  · next hnew =>
    unfold Heap.push
    exact (up_preserves (iface lessFunc)
      (fun t : Data β => t.Indexed ∧ t.queue.length = h.queue.length + 1)
      (fun t _ _ ha hb ht => indexed_swap_below lessFunc t ha hb ht) _ _
      (by simp [iface, Data.push]) ⟨hd.push obj hnew, by simp [Data.push]⟩).1

/-- `Pop` of a queue that is not empty hands `Pop` of the interface an indexed state of the
same length and the same objects. -/
theorem Indexed.heapPop (hd : h.Indexed) (hpos : 0 < h.queue.length) :
    ∃ t : Data β, Heap.pop (iface lessFunc) h = t.pop ∧ t.Indexed ∧
      t.queue.length = h.queue.length ∧ t.objAt = h.objAt := by
  have hlast : h.queue.length - 1 < h.queue.length := by omega
  obtain ⟨t, hpop, ht, hlen, hobj⟩ := pop_preserves (iface lessFunc)
    (fun t : Data β => t.Indexed ∧ t.queue.length = h.queue.length ∧ t.objAt = h.objAt) (s := h)
    ⟨hd.swap hpos hlast, List.length_swap, objAt_swap _ _⟩
    (fun t a b ha hb ht => by
      have ha' : a < h.queue.length := by
        change a < h.queue.length - 1 at ha
        omega
      have hb' : b < h.queue.length := by
        change b < h.queue.length - 1 at hb
        omega
      obtain ⟨hi, hl⟩ := indexed_swap_below lessFunc t ha' hb' ⟨ht.1, ht.2.1⟩
      exact ⟨hi, hl, (objAt_swap a b).trans ht.2.2⟩)
  exact ⟨t, hpop, ht, hlen, hobj⟩

/-- `Pop` keeps the index. -/
theorem Indexed.popObj (hd : h.Indexed) : (h.popObj lessFunc).1.Indexed := by
  rw [popObj_fst]
  rcases Nat.eq_zero_or_pos h.queue.length with h0 | hpos
  · rw [hd.heapPop_of_queue_eq_nil lessFunc (List.eq_nil_of_length_eq_zero h0)]
    exact hd
  · obtain ⟨t, hpop, ht, hlen, -⟩ := hd.heapPop lessFunc hpos
    rw [hpop]
    exact ht.pop (by omega)

/-- `Pop` of an indexed queue that is not empty succeeds: it hands back the object of some key
and takes out that key's item, and no other. -/
theorem Indexed.popObj_eq (hd : h.Indexed) (hpos : 0 < h.queue.length) :
    ∃ key x, h.popObj lessFunc = ((h.popObj lessFunc).1, .ok x) ∧ h.objAt key = some x ∧
      (h.popObj lessFunc).1.objAt = Function.update h.objAt key none := by
  obtain ⟨t, hpop, ht, hlen, hobj⟩ := hd.heapPop lessFunc hpos
  obtain ⟨item, hitem, hpopObj, hobj'⟩ := ht.popObj_of_heapPop lessFunc (by omega) hpop
  refine ⟨t.queue[t.queue.length - 1], item.obj, by rw [hpopObj], ?_, ?_⟩
  · rw [← hobj, objAt, hitem]
    rfl
  · rw [hpopObj, hobj', hobj]

/-- `Pop` of an empty indexed queue fails and changes nothing. -/
theorem Indexed.popObj_of_queue_eq_nil (hd : h.Indexed) (hq : h.queue = []) :
    h.popObj lessFunc = (h, .error "object was removed from heap data") := by
  unfold Data.popObj
  rw [hd.heapPop_of_queue_eq_nil lessFunc hq]

/-- `Delete` keeps the index. -/
theorem Indexed.delete (hd : h.Indexed) {key : String} {h' : Data β}
    (hdel : h.delete lessFunc key = .ok h') : h'.Indexed := by
  obtain ⟨item, hitem, rfl⟩ := (delete_eq_ok_iff lessFunc).mp hdel
  have hidx : item.index < h.queue.length :=
    (List.getElem?_eq_some_iff.mp (hd.getElem?_of_items hitem)).1
  obtain ⟨t, hrem, ht, hlen⟩ := remove_preserves (iface lessFunc)
    (fun t : Data β => t.Indexed ∧ t.queue.length = h.queue.length) (s := h) hidx
    (fun _ => ⟨hd, rfl⟩)
    (fun _ => indexed_swap_below lessFunc h hidx
      (by change h.queue.length - 1 < h.queue.length; omega) ⟨hd, rfl⟩)
    (fun t a b ha hb ht => by
      have ha' : a < h.queue.length := by
        change a < h.queue.length - 1 at ha
        omega
      have hb' : b < h.queue.length := by
        change b < h.queue.length - 1 at hb
        omega
      exact indexed_swap_below lessFunc t ha' hb' ht)
  rw [hrem]
  exact ht.pop (by omega)

/-- `Delete` takes out the item of the object's key, and no other. -/
theorem Indexed.objAt_delete (hd : h.Indexed) {key : String} {h' : Data β}
    (hdel : h.delete lessFunc key = .ok h') :
    h'.objAt = Function.update h.objAt key none := by
  obtain ⟨item, hitem, rfl⟩ := (delete_eq_ok_iff lessFunc).mp hdel
  obtain ⟨t, hrem, hobj, hlast⟩ := hd.remove_last lessFunc hitem
  have hobjt : t.objAt key = some item.obj := by
    rw [hobj, objAt, hitem]
    rfl
  obtain ⟨it, hit, -⟩ := Option.map_eq_some_iff.mp hobjt
  rw [hrem, ← hobj]
  exact (objAt_pop_fst_of_items hlast hit).1

/-- An object left after `Pop` was there before, under the same key. -/
theorem Indexed.objAt_of_popObj_fst (hd : h.Indexed) {key : String} {x : β}
    (hx : (h.popObj lessFunc).1.objAt key = some x) : h.objAt key = some x := by
  rcases Nat.eq_zero_or_pos h.queue.length with h0 | hpos
  · rwa [hd.popObj_of_queue_eq_nil lessFunc (List.eq_nil_of_length_eq_zero h0)] at hx
  · obtain ⟨k, -, -, -, hobj⟩ := hd.popObj_eq lessFunc hpos
    rw [hobj] at hx
    by_cases hk : key = k
    · subst hk
      simp at hx
    · rwa [Function.update_of_ne hk] at hx

/-- An object left after `Delete` was there before, under the same key. -/
theorem Indexed.objAt_of_delete (hd : h.Indexed) {key : String} {h' : Data β}
    (hdel : h.delete lessFunc key = .ok h') {key' : String} {x : β}
    (hx : h'.objAt key' = some x) : h.objAt key' = some x := by
  rw [hd.objAt_delete lessFunc hdel] at hx
  by_cases hk : key' = key
  · subst hk
    simp at hx
  · rwa [Function.update_of_ne hk] at hx

/-- `Pop` of an indexed queue takes one position off. -/
theorem Indexed.length_popObj_fst (hd : h.Indexed) :
    (h.popObj lessFunc).1.queue.length = h.queue.length - 1 := by
  rw [popObj_fst]
  rcases Nat.eq_zero_or_pos h.queue.length with h0 | hpos
  · rw [hd.heapPop_of_queue_eq_nil lessFunc (List.eq_nil_of_length_eq_zero h0), h0]
  · obtain ⟨t, hpop, -, hlen, -⟩ := hd.heapPop lessFunc hpos
    rw [hpop]
    show (t.pop).1.queue.length = _
    rw [queue_pop_fst, List.length_dropLast, hlen]

/-- `Peek` of an indexed queue finds an object exactly when the queue is not empty. -/
theorem Indexed.peek_eq_none_iff (hd : h.Indexed) : h.peek = none ↔ h.queue = [] := by
  unfold peek
  split
  · next hq => simp [hq]
  · next key rest hq =>
    obtain ⟨item, hitem, -⟩ := hd.items_of_getElem? (i := 0) (by rw [hq]; rfl)
    simp [hitem, hq]

/-- `Peek` finds the object of the key at the root. -/
theorem objAt_of_peek {x : β} (hpeek : h.peek = some x) : ∃ key, h.objAt key = some x := by
  unfold peek at hpeek
  split at hpeek
  · cases hpeek
  · next key _ _ => exact ⟨key, hpeek⟩

theorem Indexed.length_pos_of_peek (hd : h.Indexed) {x : β} (hpeek : h.peek = some x) :
    0 < h.queue.length := by
  have hne : h.queue ≠ [] := fun hq => by
    rw [hd.peek_eq_none_iff.mpr hq] at hpeek
    cases hpeek
  exact List.length_pos_of_ne_nil hne

/-! ## Properties of every object of a heap -/

/-- Every object of the heap, with its key, has the property `Q`. -/
def Holds (Q : String → β → Prop) (h : Data β) : Prop :=
  ∀ key x, h.objAt key = some x → Q key x
attribute [grind] Holds

theorem Holds.mono {Q Q' : String → β → Prop} (hq : h.Holds Q)
    (himp : ∀ key x, h.objAt key = some x → Q key x → Q' key x) : h.Holds Q' :=
  fun key x hx => himp key x hx (hq key x hx)

theorem holds_empty (Q : String → β → Prop) : (empty : Data β).Holds Q :=
  fun _ _ hx => by simp at hx

theorem Holds.add {Q : String → β → Prop} (hq : h.Holds Q) (keyFunc : β → String) {obj : β}
    (hobj : Q (keyFunc obj) obj) : (h.add lessFunc keyFunc obj).Holds Q := by
  intro key x hx
  rw [objAt_add] at hx
  by_cases hk : key = keyFunc obj
  · subst hk
    simp only [Function.update_self, Option.some.injEq] at hx
    exact hx ▸ hobj
  · rw [Function.update_of_ne hk] at hx
    exact hq key x hx

theorem Holds.popObj {Q : String → β → Prop} (hd : h.Indexed) (hq : h.Holds Q) :
    (h.popObj lessFunc).1.Holds Q :=
  fun key x hx => hq key x (hd.objAt_of_popObj_fst lessFunc hx)

theorem Holds.delete {Q : String → β → Prop} (hd : h.Indexed) (hq : h.Holds Q)
    {key : String} {h' : Data β} (hdel : h.delete lessFunc key = .ok h') :
    h'.Holds Q :=
  fun key x hx => hq key x (hd.objAt_of_delete lessFunc hdel hx)

end IndexOps

/-! ## The order -/

section Order

variable {κ : Type} [LinearOrder κ] {prio : β → κ} {lessFunc : β → β → Bool}

/-- On the indexed states with the objects of `o`, the keys in queue order simulate the heap as a
heap of keys, when `lessFunc` compares objects by `prio`. -/
theorem simulation (hless : ∀ a b, lessFunc a b = decide (prio a < prio b)) (o : String → Option β) :
    Simulation (iface lessFunc) (keys κ) (fun t => t.Indexed ∧ t.objAt = o) (keysOf prio) where
  len _ _ := length_keysOf
  less s i j hs hi hj := by
    have hi' : i < s.queue.length := hi
    have hj' : j < s.queue.length := hj
    obtain ⟨itemi, hitemi, -⟩ := hs.1.items_of_getElem? (List.getElem?_eq_getElem hi')
    obtain ⟨itemj, hitemj, -⟩ := hs.1.items_of_getElem? (List.getElem?_eq_getElem hj')
    have hless' : Data.less lessFunc s i j = lessFunc itemi.obj itemj.obj := by
      unfold Data.less
      rw [if_neg (by omega), List.getD_eq_getElem _ _ hi', List.getD_eq_getElem _ _ hj', hitemi,
        hitemj]
    show decide (keyAt κ (s.keysOf prio) i < keyAt κ (s.keysOf prio) j) = Data.less lessFunc s i j
    rw [hless', hless, keyAt_keysOf hi', keyAt_keysOf hj']
    simp [objAt, hitemi, hitemj]
  swap_inv _ i j hs hi hj := ⟨hs.1.swap hi hj, (objAt_swap i j).trans hs.2⟩
  len_swap _ _ _ _ _ _ := List.length_swap
  swap _ _ _ _ hi hj := keysOf_swap hi hj

variable (prio) in
/-- An indexed heap whose keys are in heap order. -/
structure Valid (h : Data β) : Prop where
  indexed : h.Indexed
  ordered : IsHeap (keyAt κ) (h.keysOf prio) h.queue.length

theorem valid_empty : (empty : Data β).Valid prio :=
  ⟨indexed_empty, fun c _ hc => absurd hc (Nat.not_lt_zero c)⟩

variable {h : Data β}

/-- The order, read on the heap of keys. -/
theorem Valid.isHeap (hv : h.Valid prio) :
    IsHeap (keyAt κ) (h.keysOf prio) ((keys κ).len (h.keysOf prio)) := by
  show IsHeap (keyAt κ) (h.keysOf prio) (h.keysOf prio).length
  rw [length_keysOf]
  exact hv.ordered

/-- No object of a valid heap has its key below the key at the root. -/
theorem Valid.not_lt_root (hv : h.Valid prio) {x : β}
    (hroot : keyAt κ (h.keysOf prio) 0 = (prio x : WithBot κ)) {key : String} {y : β}
    (hy : h.objAt key = some y) : ¬ prio y < prio x := by
  obtain ⟨c, hc, hkc⟩ : ∃ c, c < h.queue.length ∧ keyAt κ (h.keysOf prio) c = (prio y : WithBot κ) :=
    hv.indexed.keyAt_of_objAt hy
  have hle := hv.isHeap.root_le c (by simpa using hc)
  rw [hkc, hroot] at hle
  exact fun hlt => hle (WithBot.coe_lt_coe.mpr hlt)

/-- A valid heap stays valid under a key function that agrees on its objects. -/
theorem Valid.congr {prio' : β → κ} (hv : h.Valid prio)
    (hp : ∀ key x, h.objAt key = some x → prio' x = prio x) : h.Valid prio' :=
  ⟨hv.indexed, by rw [keysOf_congr hp]; exact hv.ordered⟩

/-- An indexed state whose keys are a heap of keys is valid. -/
theorem valid_of_keysOf (hd : h.Indexed) {l : List (WithBot κ)} (hl : h.keysOf prio = l)
    {n : Nat} (hheap : IsHeap (keyAt κ) l n) (hn : n = h.queue.length) : h.Valid prio := by
  refine ⟨hd, ?_⟩
  rw [hl, ← hn]
  exact hheap

section Ops

variable (hless : ∀ a b, lessFunc a b = decide (prio a < prio b))
include hless

/-- `Add` keeps a heap valid: a new key is pushed, and the object of a key already there is
replaced in place and fixed. -/
theorem Valid.add (hv : h.Valid prio) (keyFunc : β → String) (obj : β) :
    (h.add lessFunc keyFunc obj).Valid prio := by
  unfold Data.add
  split
  · next item hitem =>
    let h1 := h.setItem (keyFunc obj) (some { item with obj := obj })
    have hi1 : h1.Indexed := hv.indexed.setItem_obj obj hitem
    have hq := hv.indexed.getElem?_of_items hitem
    have hidx : item.index < h.queue.length := (List.getElem?_eq_some_iff.mp hq).1
    -- only the key at the item's position changes
    have hkeys : ∀ c, c < h.queue.length → c ≠ item.index →
        keyAt κ (h1.keysOf prio) c = keyAt κ (h.keysOf prio) c := by
      intro c hc hne
      have hk : h.queue[c] ≠ keyFunc obj := fun he =>
        hne (hv.indexed.pos_unique (by rw [List.getElem?_eq_getElem hc, he]) hq)
      rw [keyAt_keysOf (h := h1) hc, keyAt_keysOf hc]
      simp only [h1, objAt_setItem, queue_setItem]
      rw [Function.update_of_ne hk]
    have hole : Hole (keyAt κ) (h1.keysOf prio) ((keys κ).len (h1.keysOf prio)) item.index := by
      rw [show (keys κ).len (h1.keysOf prio) = h.queue.length from length_keysOf]
      exact hv.ordered.hole_of_key_eq hkeys
    obtain ⟨hP, hl, hf⟩ := (simulation hless h1.objAt).fix ⟨hi1, rfl⟩ hidx
    refine valid_of_keysOf hP.1 hf (fix_isHeap (keys_lawful κ) hole (by simpa [h1] using hidx)) ?_
    rw [keys_len, length_keysOf]
    exact hl.symm
  · next hnew =>
    have hpush := hv.indexed.push obj hnew
    obtain ⟨hP, -, hf⟩ := (simulation hless _).push (s := h) (x := some ⟨keyFunc obj, obj⟩)
      (y := (prio obj : WithBot κ)) ⟨hpush, rfl⟩ (hv.indexed.keysOf_push obj hnew)
      (by simp [iface, Data.push])
    refine valid_of_keysOf hP.1 hf (push_isHeap (keys_lawful κ) hv.isHeap _) ?_
    rw [keys_len, ← hf, length_keysOf]

/-- `Pop` keeps a heap valid. -/
theorem Valid.popObj (hv : h.Valid prio) : (h.popObj lessFunc).1.Valid prio := by
  rw [popObj_fst]
  rcases Nat.eq_zero_or_pos h.queue.length with h0 | hpos
  · rw [hv.indexed.heapPop_of_queue_eq_nil _ (List.eq_nil_of_length_eq_zero h0)]
    exact hv
  · obtain ⟨t, hpop, -, hpop', ht, hlt⟩ := (simulation hless h.objAt).pop ⟨hv.indexed, rfl⟩ hpos
    have htpos : 0 < t.queue.length := by
      have : t.queue.length = h.queue.length := hlt
      omega
    have hkeys : (t.pop).1.keysOf prio = (Heap.pop (keys κ) (h.keysOf prio)).1 := by
      rw [ht.1.keysOf_pop htpos, hpop']
      rfl
    rw [hpop]
    refine valid_of_keysOf (ht.1.pop htpos) hkeys
      (pop_isHeap (keys_lawful κ) hv.isHeap (by simpa using hpos)) ?_
    rw [keys_len, ← hkeys, length_keysOf]
    rfl

/-- `Delete` keeps a heap valid. -/
theorem Valid.delete (hv : h.Valid prio) {key : String} {h' : Data β}
    (hdel : h.delete lessFunc key = .ok h') : h'.Valid prio := by
  obtain ⟨item, hitem, rfl⟩ := (delete_eq_ok_iff lessFunc).mp hdel
  have hidx : item.index < h.queue.length :=
    (List.getElem?_eq_some_iff.mp (hv.indexed.getElem?_of_items hitem)).1
  obtain ⟨t, hrem, hrem', ht, hlt⟩ := (simulation hless h.objAt).remove ⟨hv.indexed, rfl⟩ hidx
  have htpos : 0 < t.queue.length := by
    have : t.queue.length = h.queue.length := hlt
    omega
  have hkeys : (t.pop).1.keysOf prio = (Heap.remove (keys κ) (h.keysOf prio) item.index).1 := by
    rw [ht.1.keysOf_pop htpos, hrem']
    rfl
  rw [hrem]
  refine valid_of_keysOf (ht.1.pop htpos) hkeys
    (remove_isHeap (keys_lawful κ) hv.isHeap (by simpa using hidx)) ?_
  rw [keys_len, ← hkeys, length_keysOf]
  rfl

/-- `Pop` of a valid heap that is not empty hands back an object whose key is the key at the
root. -/
theorem Valid.popObj_root (hv : h.Valid prio) (hpos : 0 < h.queue.length) :
    ∃ x, (h.popObj lessFunc).2 = .ok x ∧ keyAt κ (h.keysOf prio) 0 = (prio x : WithBot κ) := by
  obtain ⟨t, hpop, hft, -, ht, hlt⟩ := (simulation hless h.objAt).pop ⟨hv.indexed, rfl⟩ hpos
  have hlen : t.queue.length = h.queue.length := hlt
  obtain ⟨item, hitem, hpopObj, -⟩ := ht.1.popObj_of_heapPop lessFunc (by omega) hpop
  -- the root's key went to the last position of the state `Pop` of the interface gets
  have hroot := (pop_down_isHeap (keys_lawful κ) hv.isHeap (by simpa using hpos)).2.1
  rw [← hft, keys_len, length_keysOf, ← hlen, keyAt_keysOf (by omega), objAt, hitem] at hroot
  exact ⟨item.obj, by rw [hpopObj], hroot.symm⟩

/-- `Pop` of a valid heap hands back an object whose key no object of the heap has below it. -/
theorem Valid.popObj_least (hv : h.Valid prio) {x : β} (hx : (h.popObj lessFunc).2 = .ok x)
    {key : String} {y : β} (hy : h.objAt key = some y) : ¬ prio y < prio x := by
  rcases Nat.eq_zero_or_pos h.queue.length with h0 | hpos
  · -- an empty heap has no object to hand back
    have hpop := hv.indexed.heapPop_of_queue_eq_nil lessFunc (List.eq_nil_of_length_eq_zero h0)
    unfold Data.popObj at hx
    rw [hpop] at hx
    cases hx
  · obtain ⟨x', hpop, hroot⟩ := hv.popObj_root hless hpos
    rw [hpop] at hx
    cases hx
    exact hv.not_lt_root hroot hy

end Ops

end Order

end Data
end Scheduler
end Kubernetes
