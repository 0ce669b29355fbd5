import Kubernetes.Transition.Reachable
import Mathlib.Data.Finset.Basic

/-!
# The client-go work queue

`client-go/util/workqueue/queue.go`.  A `workqueue.Type` holds three structures: the FIFO
slice `queue`, the set `dirty` of items that need processing, and the set `processing` of
items some worker has taken with `Get` and not yet marked `Done`.  Every method runs under
the queue's lock, so each is one atomic step here; `Get`'s wait loop becomes the step's
enabling condition (the queue is non-empty or shutting down).

The field comments of `Type` state the representation invariant, `Queue.Valid`: every
queued item is dirty and not processing, and there are no duplicates in `queue`.  We add
the third clause that makes it inductive, every dirty item is queued or processing.

The queue is used by any number of producers and workers, so the system (`System`) pairs
the queue with the items each worker holds, and `Step` lets producers `Add`, workers `Get`
and `Done` (the latter only on an item they hold, as the package requires), and anyone shut
the queue down.  The main theorem, `workqueue_exclusive_no_lost_work`, states the invariant
over every reachable state, exclusivity of `Get`, and that an item added while it is being
processed is queued again by its `Done` and then handed out within a bounded number of
`Get`s.
-/

namespace Kubernetes
namespace Workqueue

open Transition

/-- `workqueue.Type`, without its lock, condition variable, metrics and clock. -/
structure Queue (α : Type _) where
  queue : List α
  dirty : Finset α
  processing : Finset α
  shuttingDown : Bool
  drain : Bool

variable {α : Type _} [DecidableEq α]

/-- The queue `New` returns. -/
def newQueue : Queue α :=
  { queue := [], dirty := ∅, processing := ∅, shuttingDown := false, drain := false }
attribute [grind] newQueue

/-- `Add`: ignored while shutting down or when already dirty; an item being processed is
only marked dirty, any other item is also queued. -/
def Queue.add (q : Queue α) (item : α) : Queue α :=
  if q.shuttingDown then
    q
  else if item ∈ q.dirty then
    q
  else if item ∈ q.processing then
    { q with dirty := insert item q.dirty }
  else
    { q with dirty := insert item q.dirty, queue := q.queue ++ [item] }
attribute [grind] Queue.add

/-- The body of `Get` after its wait loop: `(nil, true)` on an empty queue (which the loop
only lets through when shutting down), otherwise the head item, now processing and no
longer dirty. -/
def Queue.get (q : Queue α) : (Option α × Bool) × Queue α :=
  match q.queue with
  | [] => ((none, true), q)
  | item :: rest =>
      ((some item, false),
        { q with queue := rest, processing := insert item q.processing, dirty := q.dirty.erase item })
attribute [grind] Queue.get

/-- `Done`: no longer processing; queued again when it was marked dirty meanwhile. -/
def Queue.done (q : Queue α) (item : α) : Queue α :=
  let q := { q with processing := q.processing.erase item }
  if item ∈ q.dirty then { q with queue := q.queue ++ [item] } else q
attribute [grind] Queue.done

/-- `ShutDown`: `setDrain(false)` then `shutdown()`. -/
def Queue.shutDown (q : Queue α) : Queue α :=
  { q with drain := false, shuttingDown := true }
attribute [grind] Queue.shutDown

/-- `ShutDownWithDrain`: `setDrain(true)` then `shutdown()`; the wait for processing to
drain that follows only reads the queue. -/
def Queue.shutDownWithDrain (q : Queue α) : Queue α :=
  { q with drain := true, shuttingDown := true }
attribute [grind] Queue.shutDownWithDrain

/-! ## The representation invariant -/

/-- The invariant of `Type`'s field comments, with the clause that makes it inductive. -/
structure Queue.Valid (q : Queue α) : Prop where
  nodup : q.queue.Nodup
  queued : ∀ x ∈ q.queue, x ∈ q.dirty ∧ x ∉ q.processing
  dirty : ∀ x ∈ q.dirty, x ∈ q.queue ∨ x ∈ q.processing

omit [DecidableEq α] in
theorem newQueue_valid : (newQueue : Queue α).Valid :=
  ⟨List.nodup_nil, by simp [newQueue], by simp [newQueue]⟩

theorem Queue.Valid.add {q : Queue α} (hq : q.Valid) (item : α) : (q.add item).Valid := by
  unfold Queue.add
  split_ifs with hshut hdirty hproc
  · exact hq
  · exact hq
  · -- an item being processed is only marked dirty
    refine ⟨hq.nodup, fun x hx => ?_, fun x hx => ?_⟩
    · obtain ⟨hd, hp⟩ := hq.queued x hx
      exact ⟨Finset.mem_insert_of_mem hd, hp⟩
    · rcases Finset.mem_insert.mp hx with rfl | hx
      · exact Or.inr hproc
      · exact hq.dirty x hx
  · -- a fresh item goes to the back of the queue; it was not queued since it was not dirty
    have hnotq : item ∉ q.queue := fun h => hdirty (hq.queued item h).1
    refine ⟨List.nodup_append.mpr ⟨hq.nodup, List.nodup_singleton item, ?_⟩, fun x hx => ?_,
      fun x hx => ?_⟩
    · intro a ha b hb
      rw [List.mem_singleton] at hb
      subst hb
      exact fun h => hnotq (h ▸ ha)
    · rcases List.mem_append.mp hx with hx | hx
      · obtain ⟨hd, hp⟩ := hq.queued x hx
        exact ⟨Finset.mem_insert_of_mem hd, hp⟩
      · rw [List.mem_singleton] at hx
        subst hx
        exact ⟨Finset.mem_insert_self _ _, hproc⟩
    · rcases Finset.mem_insert.mp hx with rfl | hx
      · exact Or.inl (List.mem_append_right _ (List.mem_singleton_self _))
      · rcases hq.dirty x hx with h | h
        · exact Or.inl (List.mem_append_left _ h)
        · exact Or.inr h

/-- What `Get` hands out is the head of the queue. -/
theorem Queue.get_eq_cons {q : Queue α} {item : α} {rest : List α} (h : q.queue = item :: rest) :
    q.get = ((some item, false),
      { q with queue := rest, processing := insert item q.processing, dirty := q.dirty.erase item }) := by
  simp [Queue.get, h]

theorem Queue.get_eq_nil {q : Queue α} (h : q.queue = []) : q.get = ((none, true), q) := by
  simp [Queue.get, h]

theorem Queue.Valid.get {q : Queue α} (hq : q.Valid) : q.get.2.Valid := by
  cases hqueue : q.queue with
  | nil => rw [Queue.get_eq_nil hqueue]; exact hq
  | cons item rest =>
      rw [Queue.get_eq_cons hqueue]
      have hnodup : (item :: rest).Nodup := hqueue ▸ hq.nodup
      have hqueued : ∀ x ∈ item :: rest, x ∈ q.dirty ∧ x ∉ q.processing := hqueue ▸ hq.queued
      refine ⟨(List.nodup_cons.mp hnodup).2, fun x hx => ?_, fun x hx => ?_⟩
      · -- the rest of the queue does not hold the handed-out item again
        have hne : x ≠ item := fun h => (List.nodup_cons.mp hnodup).1 (h ▸ hx)
        obtain ⟨hd, hp⟩ := hqueued x (List.mem_cons_of_mem _ hx)
        exact ⟨Finset.mem_erase.mpr ⟨hne, hd⟩, fun h => hp ((Finset.mem_insert.mp h).resolve_left hne)⟩
      · obtain ⟨hne, hd⟩ := Finset.mem_erase.mp hx
        rcases hq.dirty x hd with h | h
        · rw [hqueue] at h
          exact Or.inl ((List.mem_cons.mp h).resolve_left hne)
        · exact Or.inr (Finset.mem_insert_of_mem h)

/-- `Done` on an item that is being processed keeps the invariant.  (On any other item it
would not: a dirty, queued item would be queued twice; hence the package's rule that
workers call `Done` only on what they got.) -/
theorem Queue.Valid.done {q : Queue α} (hq : q.Valid) {item : α} (hproc : item ∈ q.processing) :
    (q.done item).Valid := by
  have hnotq : item ∉ q.queue := fun h => (hq.queued item h).2 hproc
  dsimp only [Queue.done]
  split_ifs with hdirty
  · refine ⟨List.nodup_append.mpr ⟨hq.nodup, List.nodup_singleton item, ?_⟩, fun x hx => ?_,
      fun x hx => ?_⟩
    · intro a ha b hb
      rw [List.mem_singleton] at hb
      subst hb
      exact fun h => hnotq (h ▸ ha)
    · rcases List.mem_append.mp hx with hx | hx
      · obtain ⟨hd, hp⟩ := hq.queued x hx
        exact ⟨hd, fun h => hp (Finset.mem_of_mem_erase h)⟩
      · rw [List.mem_singleton] at hx
        subst hx
        exact ⟨hdirty, fun h => (Finset.mem_erase.mp h).1 rfl⟩
    · by_cases hx' : x = item
      · subst hx'
        exact Or.inl (List.mem_append_right _ (List.mem_singleton_self _))
      · rcases hq.dirty x hx with h | h
        · exact Or.inl (List.mem_append_left _ h)
        · exact Or.inr (Finset.mem_erase.mpr ⟨hx', h⟩)
  · refine ⟨hq.nodup, fun x hx => ?_, fun x hx => ?_⟩
    · obtain ⟨hd, hp⟩ := hq.queued x hx
      exact ⟨hd, fun h => hp (Finset.mem_of_mem_erase h)⟩
    · have hx' : x ≠ item := fun h => hdirty (h ▸ hx)
      rcases hq.dirty x hx with h | h
      · exact Or.inl h
      · exact Or.inr (Finset.mem_erase.mpr ⟨hx', h⟩)

omit [DecidableEq α] in
theorem Queue.Valid.shutDown {q : Queue α} (hq : q.Valid) : q.shutDown.Valid :=
  ⟨hq.nodup, hq.queued, hq.dirty⟩

omit [DecidableEq α] in
theorem Queue.Valid.shutDownWithDrain {q : Queue α} (hq : q.Valid) : q.shutDownWithDrain.Valid :=
  ⟨hq.nodup, hq.queued, hq.dirty⟩

@[simp] theorem Queue.add_processing (q : Queue α) (item : α) :
    (q.add item).processing = q.processing := by
  unfold Queue.add
  split_ifs <;> rfl

theorem Queue.dirty_subset_add (q : Queue α) (item : α) : q.dirty ⊆ (q.add item).dirty := by
  unfold Queue.add
  split_ifs
  · exact Finset.Subset.refl _
  · exact Finset.Subset.refl _
  · exact Finset.subset_insert _ _
  · exact Finset.subset_insert _ _

@[simp] theorem Queue.done_dirty (q : Queue α) (item : α) : (q.done item).dirty = q.dirty := by
  dsimp only [Queue.done]
  split_ifs <;> rfl

@[simp] theorem Queue.done_processing (q : Queue α) (item : α) :
    (q.done item).processing = q.processing.erase item := by
  dsimp only [Queue.done]
  split_ifs <;> rfl

/-- `Add` and `Done` only ever append to the queue. -/
theorem Queue.add_queue (q : Queue α) (item : α) :
    (q.add item).queue = q.queue ∨ (q.add item).queue = q.queue ++ [item] := by
  unfold Queue.add
  split_ifs
  · exact Or.inl rfl
  · exact Or.inl rfl
  · exact Or.inl rfl
  · exact Or.inr rfl

theorem Queue.done_queue (q : Queue α) (item : α) :
    (q.done item).queue = q.queue ∨ (q.done item).queue = q.queue ++ [item] := by
  dsimp only [Queue.done]
  split_ifs
  · exact Or.inr rfl
  · exact Or.inl rfl

/-- `Done` of a dirty item queues it. -/
theorem Queue.mem_done_queue {q : Queue α} {item : α} (hdirty : item ∈ q.dirty) :
    item ∈ (q.done item).queue := by
  dsimp only [Queue.done]
  rw [if_pos hdirty]
  exact List.mem_append_right _ (List.mem_singleton_self _)

/-! ## Producers and workers -/

/-- The queue together with the items each worker holds: returned by its `Get`s and not
yet passed to `Done`. -/
structure System (W α : Type _) where
  q : Queue α
  held : W → List α

/-- The calls, labelled with what an observer sees: `get` carries the item `Get`
returned (`none` when it reported shutdown). -/
inductive Action (W α : Type _)
  | add (item : α)
  | get (worker : W) (item : Option α)
  | done (worker : W) (item : α)
  | shutDown
  | shutDownWithDrain

/-- A `Get` that handed out an item. -/
def Action.isHandout {W : Type _} : Action W α → Bool
  | .get _ (some _) => true
  | _ => false
attribute [grind] Action.isHandout

variable {W : Type _} [DecidableEq W]

/-- What the workers hold after `worker`'s `Get` returned `result`. -/
def receive (held : W → List α) (worker : W) : Option α → W → List α
  | none => held
  | some item => Function.update held worker (item :: held worker)
attribute [grind] receive

/-- One atomic call.  `Get` may run once its wait loop would exit; `Done` is called only by
a worker on an item it holds. -/
inductive Step : System W α → Action W α → System W α → Prop
  | add (s : System W α) (item : α) : Step s (.add item) { s with q := s.q.add item }
  | get (s : System W α) (worker : W) (ready : s.q.queue ≠ [] ∨ s.q.shuttingDown = true) :
      Step s (.get worker s.q.get.1.1) { q := s.q.get.2, held := receive s.held worker s.q.get.1.1 }
  | done (s : System W α) (worker : W) (item : α) (holds : item ∈ s.held worker) :
      Step s (.done worker item)
        { q := s.q.done item, held := Function.update s.held worker ((s.held worker).erase item) }
  | shutDown (s : System W α) : Step s .shutDown { s with q := s.q.shutDown }
  | shutDownWithDrain (s : System W α) :
      Step s .shutDownWithDrain { s with q := s.q.shutDownWithDrain }

/-- A fresh queue and idle workers. -/
def System.Init (s : System W α) : Prop :=
  s.q = newQueue ∧ ∀ w, s.held w = []
attribute [grind] System.Init

/-- The system invariant: the queue's own, `processing` is exactly what the workers hold,
and no item is held twice. -/
structure System.Valid (s : System W α) : Prop where
  queue : s.q.Valid
  processing : ∀ x, x ∈ s.q.processing ↔ ∃ w, x ∈ s.held w
  exclusive : ∀ w w' x, x ∈ s.held w → x ∈ s.held w' → w = w'
  nodup : ∀ w, (s.held w).Nodup

omit [DecidableEq α] [DecidableEq W] in
theorem System.valid_init {s : System W α} (h : s.Init) : s.Valid := by
  obtain ⟨hq, hheld⟩ := h
  refine ⟨hq ▸ newQueue_valid, fun x => ?_, fun w w' x hx => ?_, fun w => ?_⟩
  · simp [hq, hheld, newQueue]
  · simp [hheld] at hx
  · simp [hheld]

omit [DecidableEq α] [DecidableEq W] in
/-- The item `Get` hands out is held by no worker. -/
theorem System.Valid.handout_free {s : System W α} (hs : s.Valid) {item : α} {rest : List α}
    (hqueue : s.q.queue = item :: rest) (w : W) : item ∉ s.held w := by
  intro hheld
  have hqueued := hs.queue.queued item (hqueue ▸ List.mem_cons_self)
  exact hqueued.2 ((hs.processing item).mpr ⟨w, hheld⟩)

theorem System.Valid.get {s : System W α} (hs : s.Valid) (worker : W) :
    ({ q := s.q.get.2, held := receive s.held worker s.q.get.1.1 } : System W α).Valid := by
  cases hqueue : s.q.queue with
  | nil =>
      rw [Queue.get_eq_nil hqueue]
      exact hs
  | cons item rest =>
      have hfree := hs.handout_free hqueue
      have hget := Queue.get_eq_cons hqueue
      refine ⟨hget ▸ hs.queue.get, fun x => ?_, fun w w' x hx hx' => ?_, fun w => ?_⟩
      · rw [hget]
        simp only [receive, Finset.mem_insert, hs.processing]
        constructor
        · rintro (rfl | ⟨w, hw⟩)
          · exact ⟨worker, by simp⟩
          · by_cases hww : w = worker
            · subst hww
              exact ⟨w, by simp [hw]⟩
            · exact ⟨w, by simp [hww, hw]⟩
        · rintro ⟨w, hw⟩
          by_cases hww : w = worker
          · subst hww
            simp only [Function.update_self, List.mem_cons] at hw
            rcases hw with rfl | hw
            · exact Or.inl rfl
            · exact Or.inr ⟨w, hw⟩
          · simp only [ne_eq, hww, not_false_eq_true, Function.update_of_ne] at hw
            exact Or.inr ⟨w, hw⟩
      · rw [hget] at hx hx'
        simp only [receive] at hx hx'
        -- the new item is held only by the worker that got it; the rest is as before
        by_cases hw : w = worker <;> by_cases hw' : w' = worker
        · exact hw.trans hw'.symm
        · subst hw
          simp only [Function.update_self, List.mem_cons] at hx
          simp only [ne_eq, hw', not_false_eq_true, Function.update_of_ne] at hx'
          rcases hx with rfl | hx
          · exact absurd hx' (hfree w')
          · exact absurd (hs.exclusive _ _ _ hx hx') (Ne.symm hw')
        · subst hw'
          simp only [Function.update_self, List.mem_cons] at hx'
          simp only [ne_eq, hw, not_false_eq_true, Function.update_of_ne] at hx
          rcases hx' with rfl | hx'
          · exact absurd hx (hfree w)
          · exact absurd (hs.exclusive _ _ _ hx hx') hw
        · simp only [ne_eq, hw, hw', not_false_eq_true, Function.update_of_ne] at hx hx'
          exact hs.exclusive _ _ _ hx hx'
      · rw [hget]
        simp only [receive]
        by_cases hw : w = worker
        · subst hw
          simp only [Function.update_self]
          exact List.nodup_cons.mpr ⟨hfree w, hs.nodup w⟩
        · simp only [ne_eq, hw, not_false_eq_true, Function.update_of_ne]
          exact hs.nodup w

theorem System.Valid.done {s : System W α} (hs : s.Valid) {worker : W} {item : α}
    (holds : item ∈ s.held worker) :
    ({ q := s.q.done item, held := Function.update s.held worker ((s.held worker).erase item) } :
      System W α).Valid := by
  have hproc : item ∈ s.q.processing := (hs.processing item).mpr ⟨worker, holds⟩
  refine ⟨hs.queue.done hproc, fun x => ?_, fun w w' x hx hx' => ?_, fun w => ?_⟩
  · simp only [Queue.done_processing, Finset.mem_erase, hs.processing]
    constructor
    · rintro ⟨hne, w, hw⟩
      by_cases hww : w = worker
      · subst hww
        exact ⟨w, by simpa [(hs.nodup w).mem_erase_iff, hne] using hw⟩
      · exact ⟨w, by simpa [hww] using hw⟩
    · rintro ⟨w, hw⟩
      by_cases hww : w = worker
      · subst hww
        simp only [Function.update_self, (hs.nodup w).mem_erase_iff] at hw
        exact ⟨hw.1, w, hw.2⟩
      · simp only [ne_eq, hww, not_false_eq_true, Function.update_of_ne] at hw
        -- the finished item was held by `worker` alone
        refine ⟨fun hx => ?_, w, hw⟩
        subst hx
        exact hww (hs.exclusive _ _ _ hw holds)
  · have hsub : ∀ v, Function.update s.held worker ((s.held worker).erase item) v ⊆ s.held v := by
      intro v
      by_cases hv : v = worker
      · subst hv
        simpa using List.erase_subset
      · simp [hv]
    exact hs.exclusive _ _ _ (hsub w hx) (hsub w' hx')
  · by_cases hw : w = worker
    · subst hw
      simpa using (hs.nodup w).erase item
    · simpa [hw] using hs.nodup w

/-- Every step keeps the system invariant. -/
theorem System.Valid.step {s t : System W α} {a : Action W α} (hs : s.Valid) (h : Step s a t) :
    t.Valid := by
  cases h with
  | add item => exact ⟨hs.queue.add item, by simpa using hs.processing, hs.exclusive, hs.nodup⟩
  | get worker _ => exact hs.get worker
  | done worker item holds => exact hs.done holds
  | shutDown => exact ⟨hs.queue.shutDown, hs.processing, hs.exclusive, hs.nodup⟩
  | shutDownWithDrain => exact ⟨hs.queue.shutDownWithDrain, hs.processing, hs.exclusive, hs.nodup⟩

/-- The system invariant is inductive. -/
theorem System.valid_inductive : Inductive (System.Init (W := W) (α := α)) Step System.Valid :=
  ⟨fun _ h => System.valid_init h, fun _ _ _ hs h => hs.step h⟩

/-! ## No lost work -/

/-- A `Get` that handed out `x` took it from the head of the queue. -/
theorem Step.get_some_inv {s t : System W α} {w : W} {x : α} (h : Step s (.get w (some x)) t) :
    ∃ rest, s.q.queue = x :: rest ∧
      t = { q := { s.q with queue := rest, processing := insert x s.q.processing,
                            dirty := s.q.dirty.erase x },
            held := Function.update s.held w (x :: s.held w) } := by
  generalize ha : Action.get w (some x) = a at h
  cases h with
  | get worker _ =>
      cases hqueue : s.q.queue with
      | nil => simp [Queue.get_eq_nil hqueue] at ha
      | cons item rest =>
          rw [Queue.get_eq_cons hqueue] at ha ⊢
          simp only [Action.get.injEq, Option.some.injEq] at ha
          obtain ⟨rfl, rfl⟩ := ha
          exact ⟨rest, rfl, rfl⟩
  | add => cases ha
  | done => cases ha
  | shutDown => cases ha
  | shutDownWithDrain => cases ha

/-- An item that is dirty while a worker holds it stays so through every step other than a
`Done` of that item: nothing else takes it out of `dirty`, and `Get` cannot hand it out
since it is not queued. -/
theorem System.Valid.step_keeps_pending {s t : System W α} {a : Action W α} (hs : s.Valid)
    (h : Step s a t) {w : W} {x : α} (hdirty : x ∈ s.q.dirty) (hheld : x ∈ s.held w)
    (hnot : ∀ w', a ≠ .done w' x) : x ∈ t.q.dirty ∧ x ∈ t.held w := by
  cases h with
  | add item => exact ⟨Queue.dirty_subset_add _ _ hdirty, hheld⟩
  | get worker _ =>
      cases hqueue : s.q.queue with
      | nil =>
          rw [Queue.get_eq_nil hqueue]
          exact ⟨hdirty, hheld⟩
      | cons item rest =>
          have hne : x ≠ item := fun hx => hs.handout_free hqueue w (hx ▸ hheld)
          rw [Queue.get_eq_cons hqueue]
          refine ⟨Finset.mem_erase.mpr ⟨hne, hdirty⟩, ?_⟩
          simp only [receive]
          by_cases hw : w = worker
          · subst hw
            simp [hheld]
          · simp [hw, hheld]
  | done worker item _ =>
      have hne : item ≠ x := fun hx => hnot worker (hx ▸ rfl)
      refine ⟨by simpa using hdirty, ?_⟩
      by_cases hw : w = worker
      · subst hw
        simpa using List.mem_erase_of_ne (Ne.symm hne) |>.mpr hheld
      · simpa [hw] using hheld
  | shutDown => exact ⟨hdirty, hheld⟩
  | shutDownWithDrain => exact ⟨hdirty, hheld⟩

/-- Where a queued item stands after one step: handed out by a `Get`, or still queued and
no further back, one place nearer the front after a `Get` of another item.  `Add` and `Done`
only append; `Get` pops the head. -/
theorem step_queue_index {s t : System W α} {a : Action W α} (h : Step s a t) {x : α}
    (hx : x ∈ s.q.queue) :
    (∃ w, a = .get w (some x)) ∨
      (x ∈ t.q.queue ∧
        t.q.queue.idxOf x + (if a.isHandout then 1 else 0) ≤ s.q.queue.idxOf x) := by
  -- appending keeps the index of an element already present
  have happend : ∀ (l : List α) (y : α), x ∈ l → x ∈ l ++ [y] ∧ (l ++ [y]).idxOf x = l.idxOf x :=
    fun l y hl => ⟨List.mem_append_left _ hl, List.idxOf_append_of_mem hl⟩
  cases h with
  | add item =>
      right
      rcases Queue.add_queue s.q item with hq | hq <;> rw [hq]
      · exact ⟨hx, by simp [Action.isHandout]⟩
      · obtain ⟨hmem, hidx⟩ := happend _ item hx
        exact ⟨hmem, by simp [Action.isHandout, hidx]⟩
  | get worker _ =>
      cases hqueue : s.q.queue with
      | nil => rw [hqueue] at hx; exact absurd hx List.not_mem_nil
      | cons item rest =>
          rw [Queue.get_eq_cons hqueue]
          by_cases hxi : x = item
          · subst hxi
            exact Or.inl ⟨worker, rfl⟩
          · right
            rw [hqueue] at hx
            have hrest : x ∈ rest := (List.mem_cons.mp hx).resolve_left hxi
            refine ⟨hrest, ?_⟩
            simp [Action.isHandout, List.idxOf_cons_ne _ (Ne.symm hxi)]
  | done worker item _ =>
      right
      rcases Queue.done_queue s.q item with hq | hq <;> rw [hq]
      · exact ⟨hx, by simp [Action.isHandout]⟩
      · obtain ⟨hmem, hidx⟩ := happend _ item hx
        exact ⟨hmem, by simp [Action.isHandout, hidx]⟩
  | shutDown => exact Or.inr ⟨hx, by simp [Action.isHandout, Queue.shutDown]⟩
  | shutDownWithDrain => exact Or.inr ⟨hx, by simp [Action.isHandout, Queue.shutDownWithDrain]⟩

/-- A queued item is handed out by one of the next `Get`s: among any run that performs more
successful `Get`s than there are items ahead of it. -/
theorem handed_out_within {s t : System W α} {as : List (Action W α)} (hrun : Run Step s as t)
    {x : α} (hx : x ∈ s.q.queue)
    (hmany : s.q.queue.idxOf x < (as.filter Action.isHandout).length) :
    ∃ w, Action.get w (some x) ∈ as := by
  induction hrun with
  | nil => simp at hmany
  | @cons s₀ s₁ _ a as' hstep _ ih =>
      rcases step_queue_index hstep hx with ⟨w, rfl⟩ | ⟨hx₁, hidx⟩
      · exact ⟨w, List.mem_cons_self⟩
      · -- the index drops by one exactly when this step is a `Get` of another item
        have hmany' : s₁.q.queue.idxOf x < (as'.filter Action.isHandout).length := by
          cases ha : a.isHandout <;> simp [ha] at hidx hmany <;> omega
        obtain ⟨w, hw⟩ := ih hx₁ hmany'
        exact ⟨w, List.mem_cons_of_mem _ hw⟩

/-- The work queue's guarantees, in every interleaving of producers, workers (each calling
`Done` only on an item it got from `Get` and has not yet marked done) and shutdowns:

1. in every reachable state there are no duplicates in `queue`, every queued item is dirty
   and not processing, every dirty item is queued or processing, and `processing` is exactly
   the set of items the workers hold;
2. `Get` never hands out an item another worker is still processing;
3. an item added while a worker processes it (the queue not shutting down) is queued again
   by that worker's `Done`, whatever happens in between (other than a `Done` of that item);
4. and once queued, it is handed out by one of the next `Get`s: by the time more `Get`s have
   succeeded than there were items ahead of it. -/
theorem workqueue_exclusive_no_lost_work :
    (∀ s : System W α, Reachable System.Init Step s →
        s.q.Valid ∧ ∀ x, x ∈ s.q.processing ↔ ∃ w, x ∈ s.held w) ∧
      (∀ (s t : System W α) (w : W) (x : α), Reachable System.Init Step s →
        Step s (.get w (some x)) t → ∀ w', x ∉ s.held w') ∧
      (∀ (s t u : System W α) (w : W) (x : α) (as : List (Action W α)),
        Reachable System.Init Step s → x ∈ s.held w → s.q.shuttingDown = false →
        Run Step s (.add x :: as) t → (∀ w', Action.done w' x ∉ as) →
        Step t (.done w x) u → x ∈ u.q.queue) ∧
      (∀ (s t : System W α) (x : α) (as : List (Action W α)), x ∈ s.q.queue → Run Step s as t →
        s.q.queue.idxOf x < (as.filter Action.isHandout).length → ∃ w, Action.get w (some x) ∈ as) := by
  refine ⟨fun s hs => ?_, fun s t w x hs hget => ?_, fun s t u w x as hs hheld hshut hrun hnot hdone => ?_,
    fun s t x as hx hrun hmany => handed_out_within hrun hx hmany⟩
  · have hv := System.valid_inductive.reachable hs
    exact ⟨hv.queue, hv.processing⟩
  · obtain ⟨rest, hqueue, -⟩ := Step.get_some_inv hget
    exact (System.valid_inductive.reachable hs).handout_free hqueue
  · have hv := System.valid_inductive.reachable hs
    cases hrun with
    | cons hadd hrest =>
        cases hadd
        -- the `Add` marks the item dirty: it is being processed, so it is not dirty yet
        have hproc : x ∈ s.q.processing := (hv.processing x).mpr ⟨w, hheld⟩
        have hdirty₁ : x ∈ (s.q.add x).dirty := by
          unfold Queue.add
          by_cases hd : x ∈ s.q.dirty
          · simp [hshut, hd]
          · simp [hshut, hd, hproc]
        have hv₁ : ({ s with q := s.q.add x } : System W α).Valid := hv.step (Step.add s x)
        have hpending := hrest.preserves
          (P := fun v : System W α => v.Valid ∧ x ∈ v.q.dirty ∧ x ∈ v.held w)
          (fun v a v' ha ⟨hv, hd, hh⟩ hstep => by
            have hne : ∀ w', a ≠ .done w' x := fun w' hda => hnot w' (hda ▸ ha)
            exact ⟨hv.step hstep, hv.step_keeps_pending hstep hd hh hne⟩)
          ⟨hv₁, hdirty₁, hheld⟩
        cases hdone
        exact Queue.mem_done_queue hpending.2.1

/-- Worker `true` takes `7`; a producer adds `7` again (and then `3`) while it works; its
`Done` queues `7` again. -/
theorem workqueue_requeue_example :
    ∃ s t u : System Bool Nat, Reachable System.Init Step s ∧ 7 ∈ s.held true ∧
      s.q.shuttingDown = false ∧ Run Step s [.add 7, .add 3] t ∧ Step t (.done true 7) u ∧
      7 ∈ u.q.queue := by
  have hinit : System.Init ({ q := newQueue, held := fun _ => [] } : System Bool Nat) :=
    ⟨rfl, fun _ => rfl⟩
  have hs : Reachable System.Init Step
      ({ q := ((newQueue : Queue Nat).add 7).get.2,
         held := receive (fun _ => []) true ((newQueue : Queue Nat).add 7).get.1.1 } :
        System Bool Nat) :=
    ((Reachable.init hinit).step (Step.add _ 7)).step (Step.get _ true (Or.inl (by decide)))
  exact ⟨_, _, _, hs, by decide, rfl, Run.cons (Step.add _ 7) (Run.single (Step.add _ 3)),
    Step.done _ true 7 (by decide),
    workqueue_exclusive_no_lost_work.2.2.1 _ _ _ true 7 [.add 3] hs (by decide) rfl
      (Run.cons (Step.add _ 7) (Run.single (Step.add _ 3))) (by simp)
      (Step.done _ true 7 (by decide))⟩

end Workqueue
end Kubernetes
