import Mathlib
import Kubernetes.Transition.Reachable
import Kubernetes.Workqueue.Delaying

/-!
# The waiting set of the delaying queue

What `waitingLoop` keeps of its heap and map in every state it reaches, whatever the requests
and the clock do (`Delaying.Valid`, `valid_of_reachable`): the heap slice points at distinct
`waitFor`s, each of which records its position (`WaitQueue.Indexed`), the slice is a heap on
`readyAt`, and the map sends each item to the one `waitFor` of the slice with that item
(`Waiting`).  Over a whole trace, the entry of an item is ready at the earliest of the requests
taken into the heap for it since it last left the heap (`readyAt_eq_min_insertedSince`), and an
item goes to `Add` only once the time it is ready at has come (`added_le_clock`).

The heap functions keep the first part through any swaps (`Indexed.swap`, then the library's
`up_preserves` and `downFrom_preserves`); the order is the library's (`Heap.fix_isHeap`,
`Heap.push_isHeap`, `Heap.pop_isHeap`).
-/

namespace Kubernetes
namespace Workqueue

open Transition

variable {T : Type} [Inhabited T]

namespace WaitQueue

/-- The heap slice points into memory, at distinct `waitFor`s, each of which records its
position. -/
structure Indexed (q : WaitQueue T) : Prop where
  valid : ∀ ptr ∈ q.queue, ptr < q.entries.length
  nodup : q.queue.Nodup
  index : ∀ k, k < q.queue.length → (q.slot k).index = k

/-- `q` holds the `waitFor`s of `q0`, with the same items and times, in memory of the same
size, and its slice holds the same addresses in some order. -/
structure Slots (q0 q : WaitQueue T) : Prop where
  perm : q.queue.Perm q0.queue
  length_entries : q.entries.length = q0.entries.length
  data : ∀ r, (q.entry r).data = (q0.entry r).data
  readyAt : ∀ r, (q.entry r).readyAt = (q0.entry r).readyAt

theorem Slots.refl (q : WaitQueue T) : Slots q q :=
  ⟨List.Perm.refl _, rfl, fun _ => rfl, fun _ => rfl⟩

theorem Slots.trans {q0 q1 q2 : WaitQueue T} (h1 : Slots q0 q1) (h2 : Slots q1 q2) :
    Slots q0 q2 :=
  ⟨h2.perm.trans h1.perm, h2.length_entries.trans h1.length_entries,
    fun r => (h2.data r).trans (h1.data r), fun r => (h2.readyAt r).trans (h1.readyAt r)⟩

variable {q : WaitQueue T}

omit [Inhabited T] in
theorem getD_mem {k : Nat} (hk : k < q.queue.length) : q.queue.getD k 0 ∈ q.queue := by
  rw [List.getD_eq_getElem _ _ hk]
  exact List.getElem_mem hk

omit [Inhabited T] in
/-- Distinct positions of a slice without duplicates hold distinct addresses. -/
theorem getD_inj (hq : q.queue.Nodup) {a b : Nat} (ha : a < q.queue.length)
    (hb : b < q.queue.length) (h : q.queue.getD a 0 = q.queue.getD b 0) : a = b := by
  rw [List.getD_eq_getElem _ _ ha, List.getD_eq_getElem _ _ hb] at h
  exact hq.getElem_inj_iff.mp h

/-- The `index` fields after `Swap`: the two addresses swapped get their new positions. -/
theorem index_entry_swap (hq : q.Indexed) {i j : Nat} (hi : i < q.queue.length)
    (hj : j < q.queue.length) (r : Nat) :
    ((q.swap i j).entry r).index =
      if r = q.queue.getD i 0 then (j : Int) else if r = q.queue.getD j 0 then (i : Int)
      else (q.entry r).index := by
  have ha := hq.valid _ (getD_mem hj)
  have hb := hq.valid _ (getD_mem hi)
  unfold swap
  simp only [Heap.getD_swap hi hj, Equiv.swap_apply_left, Equiv.swap_apply_right]
  rw [index_entry_setIndex _ (by simpa using hb), index_entry_setIndex _ (by simpa using ha)]
  rfl

/-- `Swap` keeps an indexed slice indexed, and the `waitFor`s as they were. -/
theorem Indexed.swap (hq : q.Indexed) {i j : Nat} (hi : i < q.queue.length)
    (hj : j < q.queue.length) : (q.swap i j).Indexed ∧ Slots q (q.swap i j) := by
  have hperm : (q.swap i j).queue.Perm q.queue := by
    rw [queue_swap]
    exact List.swap_perm q.queue i j
  have hlen : (q.swap i j).entries.length = q.entries.length := by simp [WaitQueue.swap]
  refine ⟨⟨fun ptr hptr => hlen ▸ hq.valid ptr (hperm.mem_iff.mp hptr), hperm.nodup_iff.mpr hq.nodup,
    fun k hk => ?_⟩, ⟨hperm, hlen, fun r => by simp, fun r => by simp⟩⟩
  have hk' : k < q.queue.length := by rwa [← hperm.length_eq]
  have hslot : (q.swap i j).slot k = (q.swap i j).entry (q.queue.getD (Equiv.swap i j k) 0) := by
    rw [slot, queue_swap, Heap.getD_swap hi hj]
  rw [hslot, index_entry_swap hq hi hj]
  by_cases hki : k = i
  · -- the address from `j` now at `i`; it is the one from `i` only when `i = j`
    subst hki
    rw [Equiv.swap_apply_left]
    split_ifs with hb hb'
    · exact_mod_cast getD_inj hq.nodup hj hk' hb
    · rfl
    · exact absurd rfl hb'
  · by_cases hkj : k = j
    · subst hkj
      rw [Equiv.swap_apply_right, if_pos rfl]
    · rw [Equiv.swap_apply_of_ne_of_ne hki hkj,
        if_neg (fun he => hki (getD_inj hq.nodup hk' hi he)),
        if_neg (fun he => hkj (getD_inj hq.nodup hk' hj he))]
      exact hq.index k hk'

/-- A property of the slice kept through swaps below `m`: indexed, the same `waitFor`s, the same
length, and the address at position `m` as it was. -/
structure SwapsBelow (q0 : WaitQueue T) (m : Nat) (q : WaitQueue T) : Prop where
  indexed : q.Indexed
  slots : Slots q0 q
  at_m : q.queue.getD m 0 = q0.queue.getD m 0

theorem SwapsBelow.refl (hq : q.Indexed) (m : Nat) : SwapsBelow q m q :=
  ⟨hq, Slots.refl q, rfl⟩

theorem SwapsBelow.swap {q0 : WaitQueue T} {m : Nat} (hm : m ≤ q0.queue.length)
    {t : WaitQueue T} {a b : Nat} (ha : a < m) (hb : b < m) (ht : SwapsBelow q0 m t) :
    SwapsBelow q0 m (t.swap a b) := by
  have hlen : t.queue.length = q0.queue.length := ht.slots.perm.length_eq
  obtain ⟨hind, hslots⟩ := ht.indexed.swap (i := a) (j := b) (by omega) (by omega)
  refine ⟨hind, ht.slots.trans hslots, ?_⟩
  rw [queue_swap, Heap.getD_swap (by omega) (by omega),
    Equiv.swap_apply_of_ne_of_ne (by omega) (by omega)]
  exact ht.at_m

/-- `up` from a position below `m` keeps what swaps below `m` keep. -/
theorem swapsBelow_up {m : Nat} (hm : m ≤ q.queue.length) (hq : q.Indexed) {j : Nat}
    (hj : j < m) : SwapsBelow q m (Heap.up heap q j) :=
  Heap.up_preserves heap (SwapsBelow q m) (fun _ _ _ ha hb ht => ht.swap hm ha hb) q j hj
    (SwapsBelow.refl hq m)

/-- The loop of `down` bounded by `n` keeps what swaps below `n` keep. -/
theorem swapsBelow_downFrom {n : Nat} (hn : n ≤ q.queue.length) (hq : q.Indexed) (i : Nat) :
    SwapsBelow q n (Heap.downFrom heap q i n).1 :=
  Heap.downFrom_preserves heap (SwapsBelow q n) (fun _ _ _ ha hb ht => ht.swap hn ha hb) q i
    (SwapsBelow.refl hq n)

/-- `heap.Fix` at a position of the slice keeps it indexed and its `waitFor`s as they were. -/
theorem Indexed.fix (hq : q.Indexed) {i : Nat} (hi : i < q.queue.length) :
    (Heap.fix heap q i).Indexed ∧ Slots q (Heap.fix heap q i) := by
  have hd := swapsBelow_downFrom (le_refl _) hq i
  unfold Heap.fix Heap.down
  split_ifs
  · exact ⟨hd.indexed, hd.slots⟩
  · have hlen : (Heap.downFrom heap q i q.queue.length).1.queue.length = q.queue.length :=
      hd.slots.perm.length_eq
    have hu := swapsBelow_up (le_refl _) hd.indexed (j := i) (by omega)
    exact ⟨hu.indexed, hd.slots.trans hu.slots⟩

/-! ### `Push` and `Pop` -/

/-- Memory with a new `waitFor` after the others. -/
def alloc (q : WaitQueue T) (e : WaitFor T) : WaitQueue T :=
  { q with entries := q.entries ++ [e] }
attribute [grind] alloc

theorem entry_alloc_of_lt (e : WaitFor T) {r : Nat} (hr : r < q.entries.length) :
    (q.alloc e).entry r = q.entry r := by
  simp [alloc, entry, List.getElem?_append_left hr]

theorem entry_alloc_self (e : WaitFor T) : (q.alloc e).entry q.entries.length = e := by
  simp [alloc, entry]

/-- `Push` of a new `waitFor` keeps the slice indexed. -/
theorem Indexed.push_alloc (hq : q.Indexed) (e : WaitFor T) :
    ((q.alloc e).push q.entries.length).Indexed := by
  have hnew : q.entries.length ∉ q.queue := fun hm => lt_irrefl _ (hq.valid _ hm)
  have hlen : q.entries.length < (q.alloc e).entries.length := by simp [alloc]
  refine ⟨fun ptr hptr => ?_, ?_, fun k hk => ?_⟩
  · simp only [queue_push, alloc, List.mem_append, List.mem_singleton] at hptr
    simp only [length_entries_push, alloc, List.length_append, List.length_singleton]
    rcases hptr with hptr | rfl
    · exact Nat.lt_succ_of_lt (hq.valid ptr hptr)
    · exact Nat.lt_succ_self _
  · simp only [queue_push, alloc]
    exact List.nodup_append.mpr ⟨hq.nodup, List.nodup_singleton _,
      fun a ha b hb => by rw [List.mem_singleton] at hb; subst hb; exact fun he => hnew (he ▸ ha)⟩
  · simp only [queue_push, alloc, List.length_append, List.length_singleton] at hk
    rw [slot, index_entry_push _ hlen, queue_push]
    by_cases hkq : k < q.queue.length
    · -- an old position: its address is not the new one, and its index is as it was
      have hget : ((q.alloc e).queue ++ [q.entries.length]).getD k 0 = q.queue.getD k 0 :=
        List.getD_append _ _ _ _ hkq
      have hold : q.queue.getD k 0 ≠ q.entries.length := fun he => hnew (he ▸ getD_mem hkq)
      rw [hget, if_neg hold, entry_alloc_of_lt e (hq.valid _ (getD_mem hkq))]
      exact hq.index k hkq
    · have hk' : k = q.queue.length := by omega
      subst hk'
      have hget : ((q.alloc e).queue ++ [q.entries.length]).getD q.queue.length 0 =
          q.entries.length := by
        simp [alloc]
      rw [hget, if_pos rfl]
      rfl

/-- `Pop` of the interface on an indexed slice: the last address leaves, the rest stays
indexed. -/
theorem Indexed.pop (hq : q.Indexed) (hpos : 0 < q.queue.length) :
    q.pop.1.Indexed ∧ ∀ x, x ∈ q.pop.1.queue ↔ x ∈ q.queue ∧ x ≠ q.pop.2 := by
  have hne : q.queue ≠ [] := List.ne_nil_of_length_pos hpos
  have hsplit := List.dropLast_append_getLast hne
  rw [List.getLast_eq_getElem, ← List.getD_eq_getElem _ 0] at hsplit
  have hnd := hq.nodup
  rw [← hsplit] at hnd
  obtain ⟨hnd1, -, hsep⟩ := List.nodup_append.mp hnd
  have hmem : ∀ x, x ∈ q.queue.dropLast ↔ x ∈ q.queue ∧ x ≠ q.pop.2 := by
    intro x
    rw [snd_pop]
    constructor
    · intro hx
      exact ⟨List.dropLast_subset _ hx, hsep x hx _ (List.mem_singleton_self _)⟩
    · rintro ⟨hx, hne'⟩
      rw [← hsplit, List.mem_append, List.mem_singleton] at hx
      exact hx.resolve_right hne'
  have hp : q.pop.2 < q.entries.length := hq.valid _ (getD_mem (k := q.queue.length - 1) (by omega))
  refine ⟨⟨fun x hx => ?_, ?_, fun k hk => ?_⟩, fun x => ?_⟩
  · rw [length_entries_pop]
    rw [queue_pop] at hx
    exact hq.valid x ((hmem x).mp hx).1
  · rw [queue_pop]
    exact hnd1
  · rw [queue_pop, List.length_dropLast] at hk
    have hget : q.queue.dropLast.getD k 0 = q.queue.getD k 0 := by
      rw [List.getD_eq_getElem?_getD, List.getElem?_dropLast, if_pos hk,
        ← List.getD_eq_getElem?_getD]
    rw [slot, queue_pop, hget, index_entry_pop _ hp, snd_pop,
      if_neg (fun he => absurd (getD_inj hq.nodup (by omega) (by omega) he) (by omega))]
    exact hq.index k (by omega)
  · rw [queue_pop]
    exact hmem x

/-- `heap.Pop` on an indexed slice: the root's address leaves, the rest stays indexed, and no
`waitFor` changes its item or time. -/
theorem Indexed.heapPop (hq : q.Indexed) (hpos : 0 < q.queue.length) :
    (Heap.pop heap q).2 = q.queue.getD 0 0 ∧ (Heap.pop heap q).1.Indexed ∧
      (∀ x, x ∈ (Heap.pop heap q).1.queue ↔ x ∈ q.queue ∧ x ≠ q.queue.getD 0 0) ∧
      ∀ r, ((Heap.pop heap q).1.entry r).data = (q.entry r).data ∧
        ((Heap.pop heap q).1.entry r).readyAt = (q.entry r).readyAt := by
  have hn : q.queue.length - 1 < q.queue.length := by omega
  obtain ⟨hind1, hslots1⟩ := hq.swap hpos hn
  have hlen1 : (q.swap 0 (q.queue.length - 1)).queue.length = q.queue.length :=
    hslots1.perm.length_eq
  -- the root goes to the end, and the loop of `down` below the end leaves it there
  have hd := swapsBelow_downFrom (n := q.queue.length - 1) (by omega) hind1 0
  set d := (Heap.downFrom heap (q.swap 0 (q.queue.length - 1)) 0 (q.queue.length - 1)).1
  have hlen : d.queue.length = q.queue.length := hd.slots.perm.length_eq.trans hlen1
  have hlast : d.pop.2 = q.queue.getD 0 0 := by
    rw [snd_pop, hlen, hd.at_m, queue_swap, Heap.getD_swap hpos hn, Equiv.swap_apply_right]
  have hpop : Heap.pop heap q = d.pop := rfl
  obtain ⟨hind, hmem⟩ := hd.indexed.pop (by omega)
  rw [hpop]
  refine ⟨hlast, hind, fun x => ?_, fun r => ?_⟩
  · rw [hmem, hlast, hd.slots.perm.mem_iff, hslots1.perm.mem_iff]
  · rw [data_entry_pop, readyAt_entry_pop, hd.slots.data, hd.slots.readyAt, hslots1.data,
      hslots1.readyAt]
    exact ⟨rfl, rfl⟩

end WaitQueue

open WaitQueue

variable {q : WaitQueue T} {known : T → Option Nat}

/-- The heap and the map of `waitingLoop`: the slice is indexed and heap-ordered by `readyAt`,
and the map sends each item to the one `waitFor` of the slice with that item. -/
structure Waiting (q : WaitQueue T) (known : T → Option Nat) : Prop where
  indexed : q.Indexed
  ordered : Heap.IsHeap key q q.queue.length
  known : ∀ d ptr, known d = some ptr ↔ ptr ∈ q.queue ∧ (q.entry ptr).data = d

/-- The time the item `d` is ready at, when it is waiting. -/
def readyAtOf (q : WaitQueue T) (known : T → Option Nat) (d : T) : Option Int :=
  (known d).map fun ptr => (q.entry ptr).readyAt
attribute [grind] readyAtOf

theorem waiting_empty : Waiting ⟨[], []⟩ (fun _ : T => none) where
  indexed := ⟨fun _ h => absurd h List.not_mem_nil, List.nodup_nil, fun _ h => absurd h (Nat.not_lt_zero _)⟩
  ordered _ _ h := absurd h (Nat.not_lt_zero _)
  known _ _ := by simp

/-- The `waitFor` of an item that has an entry, and its position. -/
theorem Waiting.exists_pos (hw : Waiting q known) {d : T} {p : Nat} (hd : known d = some p) :
    ∃ k, k < q.queue.length ∧ q.queue.getD k 0 = p ∧ (q.entry p).index = k ∧ (q.entry p).data = d := by
  obtain ⟨hmem, hdata⟩ := (hw.known d p).mp hd
  obtain ⟨k, hk, hkp⟩ := List.mem_iff_getElem.mp hmem
  have hget : q.queue.getD k 0 = p := by rw [List.getD_eq_getElem _ _ hk, hkp]
  refine ⟨k, hk, hget, ?_, hdata⟩
  have := hw.indexed.index k hk
  rwa [slot, hget] at this

/-- Two items with entries have the same entry only when they are the same item. -/
theorem Waiting.data_eq (hw : Waiting q known) {d : T} {p : Nat} (hd : known d = some p) :
    (q.entry p).data = d :=
  ((hw.known d p).mp hd).2

/-! ### `insert` -/

variable [DecidableEq T]

/-- `insert` of a request for an item with an entry that is ready no later. -/
theorem insert_some_of_le {e : WaitFor T} {p : Nat} (hp : known e.data = some p)
    (hle : ¬ (q.entry p).readyAt > e.readyAt) : insert q known e = (q, known) := by
  simp only [insert, hp, if_neg hle]

/-- `insert` of a request for an item with an entry that is ready later: the entry moves
earlier, and the heap stays a heap. -/
theorem Waiting.insert_some (hw : Waiting q known) {e : WaitFor T} {p : Nat}
    (hp : known e.data = some p) (hlt : (q.entry p).readyAt > e.readyAt) :
    Waiting (insert q known e).1 (insert q known e).2 ∧
      (insert q known e).2 = known ∧
      ∀ r, ((insert q known e).1.entry r).readyAt = if r = p then e.readyAt else (q.entry r).readyAt := by
  obtain ⟨k, hk, hkp, hidx, -⟩ := hw.exists_pos hp
  have hpl : p < q.entries.length := hw.indexed.valid p (hkp ▸ getD_mem hk)
  set q1 := q.setReadyAt p e.readyAt with hq1
  have hind1 : q1.Indexed :=
    ⟨fun x hx => by simpa [hq1] using hw.indexed.valid x hx, by simpa [hq1] using hw.indexed.nodup,
      fun c hc => by simpa [hq1, slot] using hw.indexed.index c hc⟩
  -- only the key at the entry's position changes
  have hkeys : ∀ c, c < q1.queue.length → c ≠ k → key q1 c = key q c := by
    intro c hc hck
    have hne : q.queue.getD c 0 ≠ p := fun he =>
      hck (getD_inj hw.indexed.nodup (by simpa [hq1] using hc) hk (he.trans hkp.symm))
    simp only [key, slot, hq1, queue_setReadyAt]
    rw [readyAt_entry_setReadyAt _ hpl, if_neg hne]
  have hhole : Heap.Hole key q1 q1.queue.length k :=
    (show Heap.IsHeap key q q1.queue.length from hw.ordered).hole_of_key_eq hkeys
  have hk1 : k < q1.queue.length := by simpa [hq1] using hk
  obtain ⟨hind, hslots⟩ := hind1.fix hk1
  have hins : insert q known e = (Heap.fix WaitQueue.heap q1 k, known) := by
    simp only [insert, hp, if_pos hlt, fixAt, hidx, Int.toNat_natCast, hq1]
  rw [hins]
  refine ⟨⟨hind, ?_, fun d x => ?_⟩, rfl, fun r => ?_⟩
  · rw [hslots.perm.length_eq]
    exact Heap.fix_isHeap lawful hhole hk1
  · rw [hw.known d x, hslots.perm.mem_iff, hslots.data]
    simp [hq1]
  · rw [hslots.readyAt, hq1, readyAt_entry_setReadyAt _ hpl]

/-- `insert` of a request for an item without an entry: a new `waitFor` joins the heap and the
map points to it. -/
theorem Waiting.insert_none (hw : Waiting q known) {e : WaitFor T} (hn : known e.data = none) :
    Waiting (insert q known e).1 (insert q known e).2 ∧
      (insert q known e).2 = Function.update known e.data (some q.entries.length) ∧
      ((insert q known e).1.entry q.entries.length).readyAt = e.readyAt ∧
      ∀ r, r < q.entries.length → ((insert q known e).1.entry r).readyAt = (q.entry r).readyAt := by
  set ptr := q.entries.length with hptr
  have hind0 := hw.indexed.push_alloc e
  have hlen0 : ((q.alloc e).push ptr).queue.length = q.queue.length + 1 := by simp [alloc]
  have hup := swapsBelow_up (q := (q.alloc e).push ptr) le_rfl hind0 (j := q.queue.length) (by omega)
  have hins : insert q known e =
      (Heap.push WaitQueue.heap (q.alloc e) ptr, Function.update known e.data (some ptr)) := by
    simp only [insert, hn]
    rfl
  have hpush : Heap.push WaitQueue.heap (q.alloc e) ptr =
      Heap.up WaitQueue.heap ((q.alloc e).push ptr) q.queue.length := by
    show Heap.up _ _ (((q.alloc e).push ptr).queue.length - 1) = _
    rw [hlen0, Nat.add_sub_cancel]
    rfl
  have h1 : (insert q known e).1 = Heap.up WaitQueue.heap ((q.alloc e).push ptr) q.queue.length := by
    rw [hins, hpush]
  have h2 : (insert q known e).2 = Function.update known e.data (some ptr) := by rw [hins]
  -- the `waitFor`s of the new state: the old ones as they were, and the request at `ptr`
  have hold : ∀ r, r < ptr → ((insert q known e).1.entry r).data = (q.entry r).data ∧
      ((insert q known e).1.entry r).readyAt = (q.entry r).readyAt := fun r hr => by
    rw [h1, hup.slots.data, hup.slots.readyAt, data_entry_push, readyAt_entry_push,
      entry_alloc_of_lt e hr]
    exact ⟨rfl, rfl⟩
  have hnewData : ((insert q known e).1.entry ptr).data = e.data ∧
      ((insert q known e).1.entry ptr).readyAt = e.readyAt := by
    rw [h1, hup.slots.data, hup.slots.readyAt, data_entry_push, readyAt_entry_push, hptr,
      entry_alloc_self]
    exact ⟨rfl, rfl⟩
  have hmem : ∀ x, x ∈ (insert q known e).1.queue ↔ x ∈ q.queue ∨ x = ptr := by
    intro x
    rw [h1, hup.slots.perm.mem_iff, queue_push, List.mem_append, List.mem_singleton]
    rfl
  -- the order: the keys of the old positions are as they were
  have hord : Heap.IsHeap key (q.alloc e) (WaitQueue.heap.len (q.alloc e)) := by
    intro c hc0 hc
    have hp := Heap.parent_lt hc0
    have hkey : ∀ c', c' < q.queue.length → key (q.alloc e) c' = key q c' := fun c' hc' => by
      simp only [key, slot]
      rw [show (q.alloc e).queue = q.queue from rfl,
        entry_alloc_of_lt e (hw.indexed.valid _ (getD_mem hc'))]
    have hc' : c < q.queue.length := hc
    rw [hkey c hc', hkey _ (by omega)]
    exact hw.ordered c hc0 hc'
  refine ⟨⟨?_, ?_, fun d x => ?_⟩, h2, hnewData.2, fun r hr => (hold r hr).2⟩
  · rw [h1]
    exact hup.indexed
  · have := Heap.push_isHeap lawful hord ptr
    rw [hins]
    exact this
  · rw [hmem, h2]
    by_cases hd : d = e.data
    · subst hd
      rw [Function.update_self]
      constructor
      · intro hx
        cases hx
        exact ⟨Or.inr rfl, hnewData.1⟩
      · rintro ⟨hx | rfl, hdata⟩
        · -- an old `waitFor` with the item would be its entry already
          have hxl := hw.indexed.valid x hx
          rw [(hold x hxl).1] at hdata
          exact absurd ((hw.known _ x).mpr ⟨hx, hdata⟩) (by rw [hn]; simp)
        · rfl
    · rw [Function.update_of_ne hd, hw.known d x]
      constructor
      · rintro ⟨hx, hdata⟩
        exact ⟨Or.inl hx, by rw [(hold x (hw.indexed.valid x hx)).1]; exact hdata⟩
      · rintro ⟨hx | rfl, hdata⟩
        · exact ⟨hx, by rw [← (hold x (hw.indexed.valid x hx)).1]; exact hdata⟩
        · exact absurd (hdata.symm.trans hnewData.1) hd

/-- `insert` keeps the heap and the map, and the item's time becomes the earlier of its old time
and the request's. -/
theorem Waiting.readyAtOf_insert (hw : Waiting q known) (e : WaitFor T) :
    Waiting (insert q known e).1 (insert q known e).2 ∧
      readyAtOf (insert q known e).1 (insert q known e).2 =
        Function.update (readyAtOf q known) e.data
          (some ((readyAtOf q known e.data).elim e.readyAt (min · e.readyAt))) := by
  cases hk : known e.data with
  | none =>
      obtain ⟨hw', hmap, hnew, hold⟩ := hw.insert_none hk
      refine ⟨hw', funext fun d => ?_⟩
      by_cases hd : d = e.data
      · subst hd
        simp [readyAtOf, hmap, hk, hnew]
      · rw [Function.update_of_ne hd, readyAtOf, hmap, Function.update_of_ne hd, readyAtOf]
        cases hkd : known d with
        | none => rfl
        | some x => simp [hold x (hw.indexed.valid x ((hw.known d x).mp hkd).1)]
  | some p =>
      by_cases hlt : (q.entry p).readyAt > e.readyAt
      · -- the entry moves earlier: only the time of `p` changes
        obtain ⟨hw', hmap, hr⟩ := hw.insert_some hk hlt
        refine ⟨hw', funext fun d => ?_⟩
        rw [readyAtOf, hmap]
        by_cases hd : d = e.data
        · subst hd
          simp [readyAtOf, hk, hr, min_eq_right (le_of_lt hlt)]
        · rw [Function.update_of_ne hd, readyAtOf]
          cases hkd : known d with
          | none => rfl
          | some x =>
              have hx : x ≠ p := fun hxp => hd (by rw [← hw.data_eq hkd, hxp, hw.data_eq hk])
              simp [hr, hx]
      · rw [insert_some_of_le hk hlt]
        refine ⟨hw, funext fun d => ?_⟩
        by_cases hd : d = e.data
        · subst hd
          simp [readyAtOf, hk, min_eq_left (not_lt.mp hlt)]
        · rw [Function.update_of_ne hd]

/-- `heap.Pop` and the map's `delete` of the popped item: the popped `waitFor` is the root's,
the heap and the map stay as they should, and the popped item has no time any more. -/
theorem Waiting.heapPop (hw : Waiting q known) (hpos : 0 < q.queue.length) :
    ((Heap.pop heap q).1.entry (Heap.pop heap q).2).data = (q.slot 0).data ∧
      ((Heap.pop heap q).1.entry (Heap.pop heap q).2).readyAt = (q.slot 0).readyAt ∧
      Waiting (Heap.pop heap q).1 (Function.update known (q.slot 0).data none) ∧
      readyAtOf (Heap.pop heap q).1 (Function.update known (q.slot 0).data none) =
        Function.update (readyAtOf q known) (q.slot 0).data none := by
  obtain ⟨hptr, hind, hmem, hent⟩ := hw.indexed.heapPop hpos
  set p0 := q.queue.getD 0 0
  have hslot : q.slot 0 = q.entry p0 := rfl
  -- the map sends the root's item to the root
  have hk0 : known (q.entry p0).data = some p0 := (hw.known _ _).mpr ⟨getD_mem hpos, rfl⟩
  rw [hslot, hptr]
  refine ⟨(hent p0).1, (hent p0).2, ⟨hind, Heap.pop_isHeap lawful hw.ordered hpos, fun d x => ?_⟩,
    funext fun d => ?_⟩
  · rw [hmem, (hent x).1]
    by_cases hd : d = (q.entry p0).data
    · subst hd
      rw [Function.update_self]
      refine ⟨fun h => by simp at h, ?_⟩
      rintro ⟨⟨hx, hne⟩, hdata⟩
      exact absurd (Option.some.inj (((hw.known _ x).mpr ⟨hx, hdata⟩).symm.trans hk0)) hne
    · rw [Function.update_of_ne hd, hw.known d x]
      constructor
      · rintro ⟨hx, hdata⟩
        exact ⟨⟨hx, fun he => hd (by rw [← hdata, he])⟩, hdata⟩
      · rintro ⟨⟨hx, -⟩, hdata⟩
        exact ⟨hx, hdata⟩
  · by_cases hd : d = (q.entry p0).data
    · subst hd
      simp [readyAtOf]
    · rw [readyAtOf, Function.update_of_ne hd, Function.update_of_ne hd, readyAtOf]
      cases hkd : known d with
      | none => rfl
      | some x => simp only [Option.map_some, (hent x).2]

/-! ### The loop -/

namespace Delaying

variable {s t : Delaying T} {ev : Event T}

/-- The time the waiting set holds for the item `d`. -/
def timeOf (s : Delaying T) (d : T) : Option Int :=
  readyAtOf s.waitingForQueue s.waitingEntryByData d
attribute [grind] timeOf

/-- What holds between the steps of `waitingLoop`: the waiting set, and a time read at the head
of the loop that is not after the clock. -/
structure Valid (s : Delaying T) : Prop where
  waiting : Waiting s.waitingForQueue s.waitingEntryByData
  now_le : ∀ now, s.pc = .adding now → now ≤ s.clock

omit [DecidableEq T] in
theorem valid_init (c : Int) : (init c : Delaying T).Valid where
  waiting := waiting_empty
  now_le _ h := Pc.noConfusion h

/-- One event of the history of the item `d`: a request taken into the waiting set joins it,
and `d` leaving the waiting set empties it. -/
def sinceStep (d : T) (acc : List Int) : Event T → List Int
  | .insert item r => if item = d then acc ++ [r] else acc
  | .pop item _ => if item = d then [] else acc
  | _ => acc
attribute [grind] sinceStep

/-- The times of the requests for `d` taken into the waiting set since `d` last left it. -/
def insertedSince (d : T) (es : List (Event T)) : List Int :=
  es.foldl (sinceStep d) []
attribute [grind] insertedSince

omit [Inhabited T] in
theorem insertedSince_snoc (d : T) (es : List (Event T)) (ev : Event T) :
    insertedSince d (es ++ [ev]) = sinceStep d (insertedSince d es) ev := by
  simp [insertedSince, List.foldl_append]

omit [Inhabited T] [DecidableEq T] in
theorem min?_append_singleton (l : List Int) (r : Int) :
    (l ++ [r]).min? = some (l.min?.elim r (min · r)) := by
  cases l with
  | nil => rfl
  | cons a l => simp [List.min?, List.foldl_append]

omit [DecidableEq T] in
/-- A step that leaves the heap, the map and the time read alone. -/
theorem Valid.of_frame (hv : s.Valid) (hq : t.waitingForQueue = s.waitingForQueue)
    (hm : t.waitingEntryByData = s.waitingEntryByData)
    (hnow : ∀ now, t.pc = .adding now → now ≤ t.clock) : t.Valid :=
  ⟨hq ▸ hm ▸ hv.waiting, hnow⟩

/-- A request taken into the waiting set: the map and heap stay as they should, and the item's
time follows its history. -/
theorem receive_insert (hw : Waiting s.waitingForQueue s.waitingEntryByData) (e : WaitFor T)
    (hgt : e.readyAt > s.clock) :
    Waiting (s.receive e).waitingForQueue (s.receive e).waitingEntryByData ∧
      (s.receive e).timeOf = Function.update s.timeOf e.data
        (some ((s.timeOf e.data).elim e.readyAt (min · e.readyAt))) := by
  simp only [Delaying.receive, if_pos hgt]
  exact hw.readyAtOf_insert e

/-- One turn of popping: the popped `waitFor` is the root's, the map and heap stay as they
should, and the popped item leaves the waiting set. -/
theorem popReady_spec (hw : Waiting s.waitingForQueue s.waitingEntryByData)
    (hpos : 0 < s.waitingForQueue.queue.length) :
    s.popReady.2.data = s.peek.data ∧ s.popReady.2.readyAt = s.peek.readyAt ∧
      Waiting s.popReady.1.waitingForQueue s.popReady.1.waitingEntryByData ∧
      s.popReady.1.timeOf = Function.update s.timeOf s.peek.data none := by
  obtain ⟨hdata, hready, hw', htime⟩ := hw.heapPop hpos
  simp only [popReady, peek]
  rw [hdata]
  exact ⟨rfl, hready, hw', htime⟩

/-- One step keeps the invariant, and the time of each item follows its history. -/
theorem Valid.step (hv : s.Valid) (hs : Step s ev t) :
    t.Valid ∧ ∀ acc : T → List Int, (∀ d, s.timeOf d = (acc d).min?) →
      ∀ d, t.timeOf d = (sinceStep d (acc d) ev).min? := by
  cases hs with
  | request item duration =>
      exact ⟨hv.of_frame rfl rfl hv.now_le, fun acc h d => h d⟩
  | addNow item duration =>
      exact ⟨hv.of_frame rfl rfl hv.now_le, fun acc h d => h d⟩
  | advance d =>
      refine ⟨hv.of_frame rfl rfl fun now hpc => ?_, fun acc h d => h d⟩
      have := hv.now_le now hpc
      simp only
      omega
  | readClock hpc =>
      exact ⟨hv.of_frame rfl rfl fun now hpc' => by cases hpc'; exact le_refl _,
        fun acc h d => h d⟩
  | pop now hpc hpos hready =>
      obtain ⟨hdata, -, hw, htime⟩ := popReady_spec hv.waiting hpos
      refine ⟨⟨hw, hv.now_le⟩, fun acc h d => ?_⟩
      -- the popped item leaves the waiting set, and its history is emptied
      simp only [sinceStep, hdata, htime]
      by_cases hd : s.peek.data = d
      · subst hd
        rw [if_pos rfl, Function.update_self]
        rfl
      · rw [if_neg hd, Function.update_of_ne (Ne.symm hd)]
        exact h d
  | endAdding now hpc hend =>
      exact ⟨hv.of_frame rfl rfl fun _ h => Pc.noConfusion h, fun acc h d => h d⟩
  | fire hpc =>
      exact ⟨hv.of_frame rfl rfl fun _ h => Pc.noConfusion h, fun acc h d => h d⟩
  | receive e rest hpc hch =>
      by_cases hgt : e.readyAt > s.clock
      · -- `insert`: the request joins the history of its item
        obtain ⟨hw, htime⟩ := receive_insert (s := { s with waitingForAddCh := rest }) hv.waiting e hgt
        refine ⟨⟨hw, fun _ h => Pc.noConfusion h⟩, fun acc h d => ?_⟩
        simp only [receiveEvent, if_pos hgt, sinceStep]
        show ({ s with waitingForAddCh := rest }.receive e).timeOf d = _
        rw [htime]
        by_cases hd : e.data = d
        · subst hd
          rw [if_pos rfl, Function.update_self, min?_append_singleton, ← h]
          rfl
        · rw [if_neg hd, Function.update_of_ne (Ne.symm hd)]
          exact h d
      · -- `Add`: the heap and the map are left alone
        refine ⟨⟨?_, fun _ h => Pc.noConfusion h⟩, fun acc h d => ?_⟩
        · simp only [Delaying.receive, if_neg hgt]
          exact hv.waiting
        · simp only [receiveEvent, if_neg hgt, sinceStep, timeOf, Delaying.receive]
          exact h d
  | drained hpc hch =>
      exact ⟨hv.of_frame rfl rfl fun _ h => Pc.noConfusion h, fun acc h d => h d⟩

/-- Over a run from `newDelayingQueue`: the invariant, and the time of each item is the
earliest of its history. -/
theorem Valid.of_trace {c : Int} {es : List (Event T)} (h : Trace (· = init c) Step es s) :
    s.Valid ∧ ∀ d, s.timeOf d = (insertedSince d es).min? := by
  induction h with
  | init hs =>
      subst hs
      exact ⟨valid_init c, fun d => rfl⟩
  | snoc _ hst ih =>
      obtain ⟨hv', hstep⟩ := ih.1.step hst
      exact ⟨hv', fun d => by rw [insertedSince_snoc]; exact hstep _ ih.2 d⟩

/-- What a step hands to `Add` is ready no later than the clock. -/
theorem Valid.added_le (hv : s.Valid) (hs : Step s ev t) {d : T} {r : Int}
    (hadd : ev.added = some (d, r)) : r ≤ s.clock := by
  cases hs with
  | addNow item duration hd =>
      simp only [Event.added, Option.some.injEq, Prod.mk.injEq] at hadd
      omega
  | pop now hpc hpos hready =>
      -- the root is not after the time read, which is not after the clock
      obtain ⟨-, hready', -⟩ := popReady_spec hv.waiting hpos
      simp only [Event.added, Option.some.injEq, Prod.mk.injEq] at hadd
      have hnow := hv.now_le now hpc
      rw [← hadd.2, hready']
      omega
  | receive e rest hpc hch =>
      by_cases hgt : e.readyAt > s.clock
      · simp [receiveEvent, hgt, Event.added] at hadd
      · simp only [receiveEvent, if_neg hgt, Event.added, Option.some.injEq, Prod.mk.injEq] at hadd
        omega
  | request | advance | readClock | endAdding | fire | drained =>
      simp [Event.added] at hadd

end Delaying

open Delaying in
theorem waitingLoop_invariant {c : Int} {es : List (Event T)} {s : Delaying T}
    (h : Trace (· = Delaying.init c) Delaying.Step es s) :
    Heap.IsHeap key s.waitingForQueue s.waitingForQueue.queue.length ∧
      (∀ k, k < s.waitingForQueue.queue.length → (s.waitingForQueue.slot k).index = k) ∧
      s.waitingForQueue.queue.Nodup ∧
      (∀ d ptr, s.waitingEntryByData d = some ptr ↔
        ptr ∈ s.waitingForQueue.queue ∧ (s.waitingForQueue.entry ptr).data = d) ∧
      (∀ d ptr, s.waitingEntryByData d = some ptr →
        (insertedSince d es).min? = some (s.waitingForQueue.entry ptr).readyAt) ∧
      (∀ d, s.waitingEntryByData d = none → insertedSince d es = []) ∧
      ∀ ev t, Delaying.Step s ev t → ∀ d r, ev.added = some (d, r) → r ≤ s.clock := by
  obtain ⟨hv, htime⟩ := Valid.of_trace h
  have hw := hv.waiting
  refine ⟨hw.ordered, hw.indexed.index, hw.indexed.nodup, hw.known, fun d ptr hd => ?_,
    fun d hd => ?_, fun ev t hs d r hadd => hv.added_le hs hadd⟩
  · rw [← htime d]
    simp [timeOf, readyAtOf, hd]
  · have hnone := htime d
    simp only [timeOf, readyAtOf, hd, Option.map_none] at hnone
    exact List.min?_eq_none_iff.mp hnone.symm

open Delaying in
theorem waitingLoop_invariant_one_request :
    ∃ (es : List (Event Nat)) (s : Delaying Nat), Trace (· = Delaying.init 0) Delaying.Step es s ∧
      s.waitingEntryByData 7 = some 0 ∧
      Heap.IsHeap key s.waitingForQueue s.waitingForQueue.queue.length ∧
      (∀ k, k < s.waitingForQueue.queue.length → (s.waitingForQueue.slot k).index = k) ∧
      s.waitingForQueue.queue.Nodup ∧
      (∀ d ptr, s.waitingEntryByData d = some ptr ↔
        ptr ∈ s.waitingForQueue.queue ∧ (s.waitingForQueue.entry ptr).data = d) ∧
      (∀ d ptr, s.waitingEntryByData d = some ptr →
        (insertedSince d es).min? = some (s.waitingForQueue.entry ptr).readyAt) ∧
      (∀ d, s.waitingEntryByData d = none → insertedSince d es = []) ∧
      ∀ ev t, Delaying.Step s ev t → ∀ d r, ev.added = some (d, r) → r ≤ s.clock := by
  -- a request for the item 7 five ticks ahead, taken into the waiting set by the `select`
  have h0 : Trace (· = Delaying.init 0) (Delaying.Step (T := Nat)) [] (init 0) := Trace.init rfl
  have h1 := h0.snoc (Step.request _ 7 5 (by decide) (by decide))
  have h2 := h1.snoc (Step.readClock _ rfl)
  have h3 := h2.snoc (Step.endAdding _ 0 rfl (Or.inl rfl))
  have htr := h3.snoc (Step.receive _ ⟨7, 0 + 5, 0⟩ [] (Or.inl rfl) rfl)
  exact ⟨_, _, htr, rfl, waitingLoop_invariant htr⟩

end Workqueue
end Kubernetes
