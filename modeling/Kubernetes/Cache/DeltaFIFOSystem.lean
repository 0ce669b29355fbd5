import Kubernetes.Cache.DeltaFIFOAccepted
import Kubernetes.Transition.Reachable

/-!
# The `DeltaFIFO` between its producers and its consumer

A reflector calls `Add`, `Update`, `Delete`, `Replace` and `Resync`; a controller calls
`Pop`, possibly asking for a requeue, and may put back the `Deltas` it was last handed for
a key with `AddIfNotPresent` (the doc: "obj must be a Deltas (the output of the Pop()
function)").  The state of the system is the FIFO with two ghost histories: the deltas
producers had accepted for each key (`accepted`, from `acceptedBy`) and the `Deltas`
handed out for each key and kept (`popped`).

`System.Inv` is preserved by every step: the representation invariant, keys that match
the stored `Deltas`, handed-out `Deltas` that are well formed, and no lost delta — for
every key, the deltas handed out followed by those still queued are the accepted ones,
with only adjacent duplicate deletions merged.  The queue is FIFO: over any run, the keys
queued at its start are the first keys `Pop` hands out, in their order.
-/

namespace Kubernetes
namespace Cache

open Go Kubernetes.Lists Transition

variable {Obj : Type _}

/-! ## Keys -/

/-- Every `Deltas` is stored under the key `KeyOf` gives it, the key of its newest object. -/
def KeysMatch (f : DeltaFIFO Obj) : Prop :=
  ∀ k ds, f.items k = some ds → keyOfDeltas f.keyFunc ds = .ok k
attribute [grind] KeysMatch

theorem keyOfDeltas_congr (keyFunc : Obj → Except String String) {xs ys : List (Delta Obj)}
    (h : newest xs = newest ys) : keyOfDeltas keyFunc xs = keyOfDeltas keyFunc ys := by
  simp only [keyOfDeltas, h]

/-- After `dedupDeltas`, the newest delta is the appended one or the previous newest. -/
theorem newest_dedupDeltas_append (ds : List (Delta Obj)) (d : Delta Obj) :
    newest (dedupDeltas (ds ++ [d])) = some d ∨ newest (dedupDeltas (ds ++ [d])) = newest ds := by
  cases ds using List.reverseRecOn with
  | nil => exact Or.inl rfl
  | append_singleton init b _ =>
      rw [dedupDeltas_append]
      cases hdup : isDup d b with
      | some out =>
          rcases (isDup_eq_some hdup).2.2 with rfl | rfl
          · exact Or.inl (by simp [newest])
          · exact Or.inr (by simp [newest])
      | none => exact Or.inl (by simp [newest])

theorem KeysMatch.queueActionLocked {f : DeltaFIFO Obj} (h : KeysMatch f) (actionType : DeltaType)
    (obj : Object Obj) : KeysMatch (Cache.queueActionLocked f actionType obj).1 := by
  cases hkey : keyOf f.keyFunc obj with
  | error e => rw [queueActionLocked_error hkey]; exact h
  | ok id =>
      intro k ds hk
      rw [keyFunc_queueActionLocked]
      by_cases hkid : k = id
      · subst hkid
        rw [queueActionLocked_eq hkey] at hk
        simp only [Function.update_self, Option.some.injEq] at hk
        subst hk
        -- the newest delta is the new one, or the newest of the `Deltas` already there
        rcases newest_dedupDeltas_append (f.pending k) ⟨actionType, obj⟩ with hn | hn
        · simp [keyOfDeltas, hn, hkey]
        · cases hold : f.items k with
          | none => simp [DeltaFIFO.pending, hold, dedupDeltas_singleton, keyOfDeltas, newest, hkey]
          | some ds₀ =>
              rw [keyOfDeltas_congr _ hn]
              simpa [DeltaFIFO.pending, hold] using h k ds₀ hold
      · rw [items_queueActionLocked_of_ne hkey hkid] at hk
        exact h k ds hk

theorem KeysMatch.of_reaches {f g : DeltaFIFO Obj} (hf : KeysMatch f) (h : Reaches f g) :
    KeysMatch g := by
  refine Reaches.preserves (fun f g hfg hf => ?_) h hf
  cases hfg with
  | queueAction actionType obj => exact hf.queueActionLocked actionType obj
  | bookkeeping populated count => exact hf

/-! ## `AddIfNotPresent` and `Pop`, spelled out -/

theorem addIfNotPresent_of_isSome {f : DeltaFIFO Obj} {id : String} (deltas : List (Delta Obj))
    (h : (f.items id).isSome) : addIfNotPresent f id deltas = { f with populated := true } := by
  simp [addIfNotPresent, h]

theorem addIfNotPresent_of_isNone {f : DeltaFIFO Obj} {id : String} (deltas : List (Delta Obj))
    (h : (f.items id).isNone) :
    addIfNotPresent f id deltas =
      { f with populated := true, queue := f.queue ++ [id],
               items := Function.update f.items id (some deltas) } := by
  simp [addIfNotPresent, Option.isNone_iff_eq_none.mp h]

/-- What `Pop` did when it handed out `deltas` for `id`: `id` was the head of the queue
and `deltas` all that was queued for it. -/
theorem pop_item_inv {f : DeltaFIFO Obj} (hf : f.Valid) {requeue : Bool} {id : String}
    {deltas : List (Delta Obj)} (h : (pop f requeue).1 = .item id deltas) :
    ∃ rest, f.queue = id :: rest ∧ f.items id = some deltas ∧
      (pop f requeue).2 =
        (let g := { f with queue := rest, initialPopulationCount := f.initialPopulationCount - 1,
                           items := Function.update f.items id none }
         if requeue then addIfNotPresent g id deltas else g) := by
  cases hq : f.queue with
  | nil =>
      simp only [pop, hq, popFrom] at h
      split_ifs at h
  | cons id' rest =>
      obtain ⟨item, hitem, hpop⟩ := hf.pop_eq hq requeue
      rw [hpop] at h
      simp only [PopResult.item.injEq] at h
      obtain ⟨rfl, rfl⟩ := h
      exact ⟨rest, rfl, hitem, by rw [hpop]⟩

/-- `Pop` reports a closed FIFO only when its queue is empty, and then changes nothing. -/
theorem pop_closed_inv {f : DeltaFIFO Obj} (hf : f.Valid) {requeue : Bool}
    (h : (pop f requeue).1 = .closed) : f.queue = [] ∧ (pop f requeue).2 = f := by
  cases hq : f.queue with
  | nil =>
      refine ⟨rfl, ?_⟩
      simp only [pop, hq, popFrom]
      cases f
      simp_all
  | cons id rest =>
      obtain ⟨item, _, hpop⟩ := hf.pop_eq hq requeue
      rw [hpop] at h
      cases h

/-! ## The system -/

/-- The FIFO with its ghost histories: the deltas producers had accepted for each key, and
the `Deltas` handed out for each key and kept, oldest first. -/
structure System (Obj : Type _) where
  fifo : DeltaFIFO Obj
  accepted : String → List (Delta Obj)
  popped : String → List (List (Delta Obj))

/-- What can happen: a producer call; the consumer putting back `Deltas` it was handed;
a `Pop` that handed out `deltas` for `id`, with the consumer's requeue answer; a `Pop` of a
closed, empty FIFO; `Close`. -/
inductive Label (Obj : Type _) where
  | call (c : Call Obj)
  | addIfNotPresent (deltas : List (Delta Obj))
  | pop (requeue : Bool) (id : String) (deltas : List (Delta Obj))
  | popClosed
  | close

/-- A new FIFO with empty histories. -/
def System.init (keyFunc : Obj → Except String String) (emitDeltaTypeReplaced : Bool) : System Obj :=
  { fifo := newDeltaFIFO keyFunc emitDeltaTypeReplaced, accepted := fun _ => [], popped := fun _ => [] }
attribute [grind] System.init

/-- The steps.  `AddIfNotPresent` is given the `Deltas` last handed out for a key and
kept; when it puts them back they are no longer handed out.  A `Pop` with a requeue puts
the `Deltas` back itself, so they are not handed out either.  A `Pop` on an empty FIFO
that is not closed blocks, and is no step. -/
inductive Step : System Obj → Label Obj → System Obj → Prop
  | call (s : System Obj) (c : Call Obj) (hc : c.Admissible s.fifo) :
      Step s (.call c)
        { fifo := (c.run s.fifo).1,
          accepted := fun k => s.accepted k ++ deltasFor k (acceptedBy s.fifo c),
          popped := s.popped }
  | addIfNotPresent (s : System Obj) (k : String) (bs : List (List (Delta Obj)))
      (deltas : List (Delta Obj)) (hlast : s.popped k = bs ++ [deltas]) :
      Step s (.addIfNotPresent deltas)
        { s with
          fifo := (addIfNotPresentDeltas s.fifo deltas).1,
          popped := if (s.fifo.items k).isSome then s.popped else Function.update s.popped k bs }
  | pop (s : System Obj) (requeue : Bool) (id : String) (deltas : List (Delta Obj))
      (hpop : (pop s.fifo requeue).1 = .item id deltas) :
      Step s (.pop requeue id deltas)
        { s with
          fifo := (pop s.fifo requeue).2,
          popped := if requeue then s.popped else Function.update s.popped id (s.popped id ++ [deltas]) }
  | popClosed (s : System Obj) (hpop : (pop s.fifo false).1 = .closed) :
      Step s .popClosed { s with fifo := (pop s.fifo false).2 }
  | close (s : System Obj) : Step s .close { s with fifo := close s.fifo }

/-- The system invariant. -/
structure System.Inv (s : System Obj) : Prop where
  valid : s.fifo.Valid
  keysMatch : KeysMatch s.fifo
  handedOut : ∀ k, ∀ ds ∈ s.popped k, WellFormed ds ∧ keyOfDeltas s.fifo.keyFunc ds = .ok k
  noLoss : ∀ k, Merges isDup (s.accepted k) ((s.popped k).flatten ++ s.fifo.pending k)

theorem System.inv_init (keyFunc : Obj → Except String String) (emit : Bool) :
    (System.init keyFunc emit).Inv where
  valid := newDeltaFIFO_valid keyFunc emit
  keysMatch k ds h := by simp [System.init, newDeltaFIFO] at h
  handedOut k ds h := by simp [System.init] at h
  noLoss k := Merges.refl _

/-- A step that leaves the FIFO's `items`, its key function and both histories alone,
and keeps it valid, keeps the invariant. -/
theorem System.Inv.of_items_eq {s t : System Obj} (hs : s.Inv) (hvalid : t.fifo.Valid)
    (hitems : t.fifo.items = s.fifo.items) (hkeyFunc : t.fifo.keyFunc = s.fifo.keyFunc)
    (haccepted : t.accepted = s.accepted) (hpopped : t.popped = s.popped) : t.Inv where
  valid := hvalid
  keysMatch k ds h := by
    rw [hkeyFunc]
    exact hs.keysMatch k ds (hitems ▸ h)
  handedOut k ds h := by
    rw [hkeyFunc]
    exact hs.handedOut k ds (hpopped ▸ h)
  noLoss k := by
    simpa [haccepted, hpopped, DeltaFIFO.pending, hitems] using hs.noLoss k

theorem System.Inv.call {s : System Obj} (hs : s.Inv) (c : Call Obj) (hc : c.Admissible s.fifo) :
    System.Inv
      { fifo := (c.run s.fifo).1,
        accepted := fun k => s.accepted k ++ deltasFor k (acceptedBy s.fifo c),
        popped := s.popped } where
  valid := hs.valid.of_reaches (Call.reaches_run s.fifo c)
  keysMatch := hs.keysMatch.of_reaches (Call.reaches_run s.fifo c)
  handedOut k ds h := by
    rw [(Call.reaches_run s.fifo c).keyFunc]
    exact hs.handedOut k ds h
  noLoss k := by
    -- the accepted deltas are appended on both sides, then absorbed into the queue
    have hhist := (hs.noLoss k).append_right (deltasFor k (acceptedBy s.fifo c))
    rw [List.append_assoc] at hhist
    exact hhist.trans (((absorbs_run hs.valid c hc).merges k).append_left _)

theorem System.Inv.addIfNotPresent {s : System Obj} (hs : s.Inv) {k : String}
    {bs : List (List (Delta Obj))} {deltas : List (Delta Obj)} (hlast : s.popped k = bs ++ [deltas]) :
    System.Inv
      { s with
        fifo := (addIfNotPresentDeltas s.fifo deltas).1,
        popped := if (s.fifo.items k).isSome then s.popped else Function.update s.popped k bs } := by
  obtain ⟨hwf, hkey⟩ := hs.handedOut k deltas (by simp [hlast])
  have hadd : (addIfNotPresentDeltas s.fifo deltas).1 = Cache.addIfNotPresent s.fifo k deltas := by
    simp [addIfNotPresentDeltas, hkey]
  simp only [hadd]
  by_cases hsome : (s.fifo.items k).isSome
  · -- something is queued for the key: the `Deltas` stay handed out
    simp only [hsome, if_true]
    rw [addIfNotPresent_of_isSome deltas hsome]
    exact hs.of_items_eq ⟨hs.valid.nodup, hs.valid.mem_queue, hs.valid.wellFormed⟩ rfl rfl rfl rfl
  · -- the `Deltas` go back under their key, which had nothing queued
    have hnone : (s.fifo.items k).isNone := by simpa using hsome
    have hvalid := hs.valid.addIfNotPresent k hwf
    simp only [hsome, Bool.false_eq_true, if_false]
    rw [addIfNotPresent_of_isNone deltas hnone] at hvalid ⊢
    refine ⟨hvalid, fun k' ds h => ?_, fun k' ds h => ?_, fun k' => ?_⟩
    · by_cases hk : k' = k
      · subst hk
        simp only [Function.update_self, Option.some.injEq] at h
        exact h ▸ hkey
      · simp only [ne_eq, hk, not_false_eq_true, Function.update_of_ne] at h
        exact hs.keysMatch k' ds h
    · by_cases hk : k' = k
      · subst hk
        simp only [Function.update_self] at h
        exact hs.handedOut k' ds (by simp [hlast, h])
      · simp only [ne_eq, hk, not_false_eq_true, Function.update_of_ne] at h
        exact hs.handedOut k' ds h
    · by_cases hk : k' = k
      · subst hk
        simpa [hlast, DeltaFIFO.pending, Option.isNone_iff_eq_none.mp hnone] using hs.noLoss k'
      · simpa [hk, DeltaFIFO.pending] using hs.noLoss k'

theorem System.Inv.pop {s : System Obj} (hs : s.Inv) {requeue : Bool} {id : String}
    {deltas : List (Delta Obj)} (hpop : (pop s.fifo requeue).1 = .item id deltas) :
    System.Inv
      { s with
        fifo := (pop s.fifo requeue).2,
        popped := if requeue then s.popped else Function.update s.popped id (s.popped id ++ [deltas]) } := by
  have hvalid := hs.valid.pop requeue
  obtain ⟨rest, _, hitem, hstate⟩ := pop_item_inv hs.valid hpop
  rw [hstate] at hvalid ⊢
  cases requeue with
  | true =>
      -- the `Deltas` go straight back under their key: `items` is as before
      simp only [if_true] at hvalid ⊢
      rw [addIfNotPresent_of_isNone deltas (by simp)] at hvalid ⊢
      refine hs.of_items_eq hvalid ?_ rfl rfl rfl
      simp only [Function.update_idem]
      exact Function.update_eq_self_iff.mpr hitem.symm
  | false =>
      simp only [Bool.false_eq_true, if_false] at hvalid ⊢
      refine ⟨hvalid, fun k ds h => ?_, fun k ds h => ?_, fun k => ?_⟩
      · by_cases hk : k = id
        · subst hk
          simp at h
        · simp only [ne_eq, hk, not_false_eq_true, Function.update_of_ne] at h
          exact hs.keysMatch k ds h
      · by_cases hk : k = id
        · subst hk
          simp only [Function.update_self, List.mem_append, List.mem_singleton] at h
          rcases h with h | rfl
          · exact hs.handedOut k ds h
          · exact ⟨hs.valid.wellFormed k ds hitem, hs.keysMatch k ds hitem⟩
        · simp only [ne_eq, hk, not_false_eq_true, Function.update_of_ne] at h
          exact hs.handedOut k ds h
      · by_cases hk : k = id
        · -- the handed-out `Deltas` move from the queue to the history
          subst hk
          simpa [DeltaFIFO.pending, hitem] using hs.noLoss k
        · simpa [hk, DeltaFIFO.pending] using hs.noLoss k

theorem System.Inv.step {s t : System Obj} {l : Label Obj} (hs : s.Inv) (h : Step s l t) : t.Inv := by
  cases h with
  | call c hc => exact hs.call c hc
  | addIfNotPresent k bs deltas hlast => exact hs.addIfNotPresent hlast
  | pop requeue id deltas hpop => exact hs.pop hpop
  | popClosed hpop =>
      obtain ⟨_, hstate⟩ := pop_closed_inv hs.valid hpop
      exact hs.of_items_eq (by rw [hstate]; exact hs.valid) (by rw [hstate]) (by rw [hstate]) rfl rfl
  | close => exact hs.of_items_eq ⟨hs.valid.nodup, hs.valid.mem_queue, hs.valid.wellFormed⟩ rfl rfl rfl rfl

theorem System.inv_inductive (keyFunc : Obj → Except String String) (emit : Bool) :
    Inductive (· = System.init keyFunc emit) Step System.Inv where
  init _ h := h ▸ System.inv_init keyFunc emit
  step _ _ _ hs h := hs.step h

theorem System.Inv.reachable {keyFunc : Obj → Except String String} {emit : Bool} {s : System Obj}
    (hs : Reachable (· = System.init keyFunc emit) Step s) : s.Inv :=
  (System.inv_inductive keyFunc emit).reachable hs

/-! ## First in, first out -/

/-- The keys a run's `Pop`s handed out, in order. -/
def poppedKeys : List (Label Obj) → List String
  | [] => []
  | .pop _ id _ :: ls => id :: poppedKeys ls
  | _ :: ls => poppedKeys ls
attribute [grind] poppedKeys

theorem poppedKeys_cons (l : Label Obj) (ls : List (Label Obj)) :
    poppedKeys (l :: ls) = poppedKeys [l] ++ poppedKeys ls := by
  cases l <;> rfl

theorem queue_prefix_addIfNotPresentDeltas (f : DeltaFIFO Obj) (deltas : List (Delta Obj)) :
    f.queue <+: (addIfNotPresentDeltas f deltas).1.queue := by
  unfold addIfNotPresentDeltas addIfNotPresent
  split
  · exact List.prefix_refl _
  · dsimp only
    split_ifs
    · exact List.prefix_refl _
    · exact List.prefix_append _ _

/-- One step: producer calls and `AddIfNotPresent` only append to the queue, and `Pop`
takes the key at its head (putting it at the end again on a requeue). -/
theorem Step.queue_isPrefix_popped {s t : System Obj} {l : Label Obj} (hs : s.fifo.Valid) (h : Step s l t) :
    s.fifo.queue <+: poppedKeys [l] ++ t.fifo.queue := by
  cases h with
  | call c hc => exact (Call.reaches_run s.fifo c).queue_isPrefix
  | addIfNotPresent k bs deltas hlast => exact queue_prefix_addIfNotPresentDeltas s.fifo deltas
  | pop requeue id deltas hpop =>
      obtain ⟨rest, hq, _, hstate⟩ := pop_item_inv hs hpop
      rw [hstate, hq]
      cases requeue with
      | false => exact List.prefix_refl _
      | true =>
          dsimp only [if_true]
          rw [addIfNotPresent_of_isNone deltas (by simp)]
          exact List.prefix_append _ _
  | popClosed hpop =>
      obtain ⟨hq, _⟩ := pop_closed_inv hs hpop
      rw [hq]
      exact List.nil_prefix
  | close => exact List.prefix_refl _

/-- Over any run, the keys queued at its start are the first keys handed out, in queue
order; the rest of the queue follows them. -/
theorem run_queue_isPrefix_popped {s t : System Obj} {ls : List (Label Obj)} (hrun : Run Step s ls t)
    (hs : s.Inv) : s.fifo.queue <+: poppedKeys ls ++ t.fifo.queue := by
  induction hrun with
  | nil => exact List.prefix_refl _
  | cons hstep _ ih =>
      rw [poppedKeys_cons, List.append_assoc]
      exact (hstep.queue_isPrefix_popped hs.valid).trans
        ((List.prefix_append_right_inj _).mpr (ih (hs.step hstep)))

/-! ## The contract -/

/-- In every reachable state of the FIFO: (i) the queue has no duplicates and holds
exactly the keys of `items`; (ii) every `Deltas` is non-empty with no two adjacent
deletions, and `queueActionLocked` never reaches its "Impossible dedupDeltas" branches;
(iii) from there on, the keys already queued are handed out first, in queue order; (iv)
for every key, the `Deltas` handed out and kept, followed by those still queued, are the
deltas accepted for it, up to merging adjacent duplicate deletions. -/
theorem deltaFIFO_contract (keyFunc : Obj → Except String String) (emitDeltaTypeReplaced : Bool)
    {s : System Obj} (hs : Reachable (· = System.init keyFunc emitDeltaTypeReplaced) Step s) :
    (s.fifo.queue.Nodup ∧ ∀ k, k ∈ s.fifo.queue ↔ (s.fifo.items k).isSome) ∧
      (∀ k ds, s.fifo.items k = some ds → ds ≠ [] ∧ NoAdjacentDeletions ds) ∧
      (∀ actionType obj id, keyOf s.fifo.keyFunc obj = .ok id →
        0 < (dedupDeltas (s.fifo.pending id ++ [⟨actionType, obj⟩])).length) ∧
      (∀ ls t, Run Step s ls t → s.fifo.queue <+: poppedKeys ls ++ t.fifo.queue) ∧
      ∀ k, Merges isDup (s.accepted k) ((s.popped k).flatten ++ s.fifo.pending k) := by
  have hinv := System.Inv.reachable hs
  refine ⟨⟨hinv.valid.nodup, hinv.valid.mem_queue⟩, hinv.valid.wellFormed, ?_,
    fun ls t hrun => run_queue_isPrefix_popped hrun hinv, hinv.noLoss⟩
  intro actionType obj id _
  exact List.length_pos_iff.mpr (dedupDeltas_append_ne_nil _ _)

/-- An object added and then deleted: `Pop` hands out both deltas for its key. -/
theorem deltaFIFO_contract_addDeletePop :
    ∃ s : System String, Reachable (· = System.init Except.ok false) Step s ∧
      s.popped "a" = [[⟨.added, .item "a"⟩, ⟨.deleted, .item "a"⟩]] ∧
      (s.fifo.queue.Nodup ∧ ∀ k, k ∈ s.fifo.queue ↔ (s.fifo.items k).isSome) ∧
      (∀ k ds, s.fifo.items k = some ds → ds ≠ [] ∧ NoAdjacentDeletions ds) ∧
      (∀ actionType obj id, keyOf s.fifo.keyFunc obj = .ok id →
        0 < (dedupDeltas (s.fifo.pending id ++ [⟨actionType, obj⟩])).length) ∧
      (∀ ls t, Run Step s ls t → s.fifo.queue <+: poppedKeys ls ++ t.fifo.queue) ∧
      ∀ k, Merges isDup (s.accepted k) ((s.popped k).flatten ++ s.fifo.pending k) := by
  have hreach : Reachable (· = System.init Except.ok false) Step _ :=
    Reachable.step (Reachable.step (Reachable.step (Reachable.init rfl)
      (Step.call _ (.add "a") trivial)) (Step.call _ (.delete none (.item "a")) trivial))
      (Step.pop _ false "a" [⟨.added, .item "a"⟩, ⟨.deleted, .item "a"⟩] rfl)
  exact ⟨_, hreach, rfl, deltaFIFO_contract Except.ok false hreach⟩

end Cache
end Kubernetes
