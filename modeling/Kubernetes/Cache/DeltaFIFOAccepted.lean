import Kubernetes.Cache.DeltaFIFOValid
import Kubernetes.Lists.Merge

/-!
# What the `DeltaFIFO` accepts

The deltas a producer call adds, each under its key, stated from the doc comments of
`delta_fifo.go`: `Add`, `Update` and `Delete` one delta for the object's key (a `Delete`
of a key that has nothing queued and is not a known object is dropped); `Replace` one
`Sync` (or `Replaced`) delta per listed object, up to the first object without a key, and,
when every listed object had a key, one `DeletedFinalStateUnknown` deletion per key that
was not listed (among the FIFO's own keys, or the known objects' keys); `Resync` one
`Sync` delta per known object whose key has nothing queued.  That is `acceptedBy`.

`Absorbs f g ps` relates the FIFO before and after a call: `g`'s `Deltas` are `f`'s with
the keyed deltas `ps` appended, up to merging adjacent duplicate deletions
(`Lists.Merges isDup`), and a key without new deltas is left alone.  `absorbs_run`: every
call absorbs what it accepts.
-/

namespace Kubernetes
namespace Cache

open Go Kubernetes.Lists

variable {Obj : Type _}

/-- A producer call, with the snapshot of the known objects it reads. -/
inductive Call (Obj : Type _) where
  | add (obj : Obj)
  | update (obj : Obj)
  | delete (knownObjects : Option (KnownObjects Obj)) (obj : Object Obj)
  | replace (knownObjects : Option (KnownObjects Obj)) (list : List (Object Obj)) (order : List String)
  | resync (knownObjects : Option (KnownObjects Obj))

/-- The method a call runs. -/
def Call.run (f : DeltaFIFO Obj) : Call Obj → Result Obj
  | .add obj => Cache.add f obj
  | .update obj => Cache.update f obj
  | .delete knownObjects obj => Cache.delete f knownObjects obj
  | .replace knownObjects list order => Cache.replace f knownObjects list order
  | .resync knownObjects => Cache.resync f knownObjects
attribute [grind] Call.run

theorem Call.reaches_run (f : DeltaFIFO Obj) : ∀ c : Call Obj, Reaches f (c.run f).1
  | .add obj => reaches_add f obj
  | .update obj => reaches_update f obj
  | .delete knownObjects obj => reaches_delete f knownObjects obj
  | .replace knownObjects list order => reaches_replace f knownObjects list order
  | .resync knownObjects => reaches_resync f knownObjects

/-! ## The accepted deltas -/

/-- The deltas of a keyed list that belong to one key, in order. -/
def deltasFor (k : String) (ps : List (String × Delta Obj)) : List (Delta Obj) :=
  ps.filterMap fun p => if p.1 = k then some p.2 else none
attribute [grind] deltasFor

@[simp] theorem deltasFor_nil (k : String) : deltasFor k ([] : List (String × Delta Obj)) = [] :=
  rfl

@[simp] theorem deltasFor_append (k : String) (ps qs : List (String × Delta Obj)) :
    deltasFor k (ps ++ qs) = deltasFor k ps ++ deltasFor k qs :=
  List.filterMap_append

@[simp] theorem deltasFor_cons_self (k : String) (d : Delta Obj) (ps : List (String × Delta Obj)) :
    deltasFor k ((k, d) :: ps) = d :: deltasFor k ps := by
  simp [deltasFor]

@[simp] theorem deltasFor_cons_of_ne {k id : String} (h : id ≠ k) (d : Delta Obj)
    (ps : List (String × Delta Obj)) : deltasFor k ((id, d) :: ps) = deltasFor k ps := by
  simp [deltasFor, h]

theorem deltasFor_eq_nil {k : String} {ps : List (String × Delta Obj)} (h : k ∉ ps.map Prod.fst) :
    deltasFor k ps = [] := by
  simp only [deltasFor, List.filterMap_eq_nil_iff]
  intro p hp
  rw [if_neg]
  rintro rfl
  exact h (List.mem_map_of_mem hp)

/-- A delta under its object's key; nothing when the object has no key. -/
def keyed (keyFunc : Obj → Except String String) (d : Delta Obj) : List (String × Delta Obj) :=
  match keyOf keyFunc d.object with
  | .ok id => [(id, d)]
  | .error _ => []
attribute [grind] keyed

theorem keyed_of_ok {keyFunc : Obj → Except String String} {d : Delta Obj} {id : String}
    (h : keyOf keyFunc d.object = .ok id) : keyed keyFunc d = [(id, d)] := by
  simp [keyed, h]

/-- `Delete` drops the deletion of a key that has nothing queued and that the known
objects, if the FIFO has them, do not know. -/
def deleteIgnored (f : DeltaFIFO Obj) (knownObjects : Option (KnownObjects Obj)) (id : String) :
    Bool :=
  (f.items id).isNone &&
    match knownObjects with
    | none => true
    | some known =>
        match known.getByKey id with
        | .ok none => true
        | _ => false
attribute [grind] deleteIgnored

/-- The delta type of `Replace`'s listed objects. -/
def replaceAction (f : DeltaFIFO Obj) : DeltaType :=
  if f.emitDeltaTypeReplaced then .replaced else .sync
attribute [grind] replaceAction

/-- `Replace`'s listed objects, one delta each under its key, up to the first object
without a key. -/
def listedDeltas (keyFunc : Obj → Except String String) (action : DeltaType) :
    List (Object Obj) → List (String × Delta Obj)
  | [] => []
  | o :: os =>
      match keyOf keyFunc o with
      | .ok id => (id, ⟨action, o⟩) :: listedDeltas keyFunc action os
      | .error _ => []
attribute [grind] listedDeltas

/-- What the known objects say about a key whose deletion was missed. -/
def knownObject (known : KnownObjects Obj) (k : String) : Option (Object Obj) :=
  match known.getByKey k with
  | .ok (some o) => some (.item o)
  | _ => none
attribute [grind] knownObject

/-- The deletion of a key whose deletion was missed, carrying its last known object. -/
def missedDeletion (k : String) (obj : Option (Object Obj)) : String × Delta Obj :=
  (k, ⟨.deleted, .deletedFinalStateUnknown k obj⟩)
attribute [grind] missedDeletion

/-- `Replace`'s deletions: one per key that was not listed, among the FIFO's own keys (in
`order`, the order Go ranges over them), carrying the newest queued object, or among the
known objects' keys, carrying the known object. -/
def missingDeletions (f : DeltaFIFO Obj) (knownObjects : Option (KnownObjects Obj))
    (order listed : List String) : List (String × Delta Obj) :=
  match knownObjects with
  | none =>
      (order.filter (· ∉ listed)).map fun k => missedDeletion k ((newest (f.pending k)).map Delta.object)
  | some known => (known.listKeys.filter (· ∉ listed)).map fun k => missedDeletion k (knownObject known k)
attribute [grind] missingDeletions

/-- `Resync`'s deltas: a `Sync` for each known object, up to the first without a key,
unless its key has something queued (`queued`), which a `Sync` of the same call makes so. -/
def resyncDeltas (keyFunc : Obj → Except String String) (known : KnownObjects Obj) :
    (String → Bool) → List String → List (String × Delta Obj)
  | _, [] => []
  | queued, key :: keys =>
      match known.getByKey key with
      | .ok (some obj) =>
          match keyFunc obj with
          | .ok id =>
              if queued id then resyncDeltas keyFunc known queued keys
              else (id, ⟨.sync, .item obj⟩) :: resyncDeltas keyFunc known (fun k => k == id || queued k) keys
          | .error _ => []
      | _ => resyncDeltas keyFunc known queued keys
attribute [grind] resyncDeltas

/-- The deltas a call accepts, in order, each under its key. -/
def acceptedBy (f : DeltaFIFO Obj) : Call Obj → List (String × Delta Obj)
  | .add obj => keyed f.keyFunc ⟨.added, .item obj⟩
  | .update obj => keyed f.keyFunc ⟨.updated, .item obj⟩
  | .delete knownObjects obj =>
      match keyOf f.keyFunc obj with
      | .ok id => if deleteIgnored f knownObjects id then [] else [(id, ⟨.deleted, obj⟩)]
      | .error _ => []
  | .replace knownObjects list order =>
      let listed := listedDeltas f.keyFunc (replaceAction f) list
      if listed.length < list.length then listed
      else listed ++ missingDeletions f knownObjects order (listed.map Prod.fst)
  | .resync none => []
  | .resync (some known) =>
      resyncDeltas f.keyFunc known (fun k => decide (0 < (f.pending k).length)) known.listKeys
attribute [grind] acceptedBy

/-- `Resync` of a key that has something queued is ignored. -/
theorem deltasFor_resyncDeltas_of_queued (keyFunc : Obj → Except String String)
    (known : KnownObjects Obj) {k : String} :
    ∀ (keys : List String) (queued : String → Bool), queued k = true →
      deltasFor k (resyncDeltas keyFunc known queued keys) = [] := by
  intro keys
  induction keys with
  | nil => intro queued _; rfl
  | cons key keys ih =>
      intro queued hk
      simp only [resyncDeltas]
      split
      · split
        · split_ifs with hq
          · exact ih queued hk
          · -- the synced key is not `k`, which was queued; `k` stays queued
            have hne : ‹String› ≠ k := fun h => hq (h ▸ hk)
            rw [deltasFor_cons_of_ne hne]
            exact ih _ (by simp [hk])
        · rfl
      · exact ih queued hk

/-- What Go guarantees of a call's arguments: without known objects, `Replace` ranges
over the keys of `items` as they are after its first loop, each once. -/
def Call.Admissible (f : DeltaFIFO Obj) : Call Obj → Prop
  | .replace none list order => order.Perm (replaceListed (replaceAction f) (f, ∅) list).1.1.queue
  | _ => True
attribute [grind] Call.Admissible

/-! ## Absorbing deltas -/

/-- `g`'s `Deltas` are `f`'s with `ps` appended, up to merging adjacent duplicate
deletions; keys without new deltas are untouched. -/
structure Absorbs (f g : DeltaFIFO Obj) (ps : List (String × Delta Obj)) : Prop where
  merges : ∀ k, Merges isDup (f.pending k ++ deltasFor k ps) (g.pending k)
  frame : ∀ k, deltasFor k ps = [] → g.items k = f.items k

theorem Absorbs.of_items_eq {f g : DeltaFIFO Obj} (h : g.items = f.items) : Absorbs f g [] where
  merges k := Merges.of_eq (by simp [DeltaFIFO.pending, h])
  frame k _ := congrFun h k

theorem Absorbs.trans {f g h : DeltaFIFO Obj} {ps qs : List (String × Delta Obj)}
    (h₁ : Absorbs f g ps) (h₂ : Absorbs g h qs) : Absorbs f h (ps ++ qs) where
  merges k := by
    rw [deltasFor_append, ← List.append_assoc]
    exact ((h₁.merges k).append_right _).trans (h₂.merges k)
  frame k hk := by
    rw [deltasFor_append, List.append_eq_nil_iff] at hk
    exact (h₂.frame k hk.2).trans (h₁.frame k hk.1)

theorem Absorbs.of_left_items_eq {f f' g : DeltaFIFO Obj} {ps : List (String × Delta Obj)}
    (h : Absorbs f' g ps) (hf : f'.items = f.items) : Absorbs f g ps :=
  (Absorbs.of_items_eq hf).trans h

theorem Absorbs.trans_items_eq {f g h : DeltaFIFO Obj} {ps : List (String × Delta Obj)}
    (h₁ : Absorbs f g ps) (h₂ : h.items = g.items) : Absorbs f h ps := by
  simpa using h₁.trans (Absorbs.of_items_eq h₂)

/-- The one merge `dedupDeltas` may make. -/
theorem merges_dedupDeltas (ds : List (Delta Obj)) (d : Delta Obj) :
    Merges isDup (ds ++ [d]) (dedupDeltas (ds ++ [d])) := by
  cases ds using List.reverseRecOn with
  | nil => exact Merges.refl _
  | append_singleton init b _ =>
      rw [dedupDeltas_append]
      cases hdup : isDup d b with
      | some out => exact merges_pair init hdup
      | none => exact Merges.refl _

theorem pending_queueActionLocked_self {f : DeltaFIFO Obj} {actionType : DeltaType}
    {obj : Object Obj} {id : String} (hkey : keyOf f.keyFunc obj = .ok id) :
    (queueActionLocked f actionType obj).1.pending id =
      dedupDeltas (f.pending id ++ [⟨actionType, obj⟩]) := by
  rw [queueActionLocked_eq hkey]
  simp [DeltaFIFO.pending]

theorem items_queueActionLocked_of_ne {f : DeltaFIFO Obj} {actionType : DeltaType}
    {obj : Object Obj} {id k : String} (hkey : keyOf f.keyFunc obj = .ok id) (hk : k ≠ id) :
    (queueActionLocked f actionType obj).1.items k = f.items k := by
  rw [queueActionLocked_eq hkey]
  simp [hk]

/-- `queueActionLocked` absorbs its delta. -/
theorem absorbs_queueActionLocked (f : DeltaFIFO Obj) (actionType : DeltaType) (obj : Object Obj) :
    Absorbs f (queueActionLocked f actionType obj).1 (keyed f.keyFunc ⟨actionType, obj⟩) := by
  cases hkey : keyOf f.keyFunc obj with
  | error e =>
      rw [queueActionLocked_error hkey]
      simpa [keyed, hkey] using Absorbs.of_items_eq (f := f) rfl
  | ok id =>
      rw [keyed_of_ok hkey]
      constructor
      · intro k
        by_cases hk : id = k
        · subst hk
          rw [deltasFor_cons_self, deltasFor_nil, pending_queueActionLocked_self hkey]
          exact merges_dedupDeltas _ _
        · rw [deltasFor_cons_of_ne hk, deltasFor_nil, List.append_nil]
          exact Merges.of_eq (by simp [DeltaFIFO.pending, items_queueActionLocked_of_ne hkey (Ne.symm hk)])
      · intro k hk
        have hne : k ≠ id := by
          rintro rfl
          simp at hk
        exact items_queueActionLocked_of_ne hkey hne

/-! ## Every call absorbs what it accepts -/

theorem absorbs_add (f : DeltaFIFO Obj) (obj : Obj) :
    Absorbs f (add f obj).1 (acceptedBy f (.add obj)) :=
  (absorbs_queueActionLocked { f with populated := true } .added (.item obj)).of_left_items_eq rfl

theorem absorbs_update (f : DeltaFIFO Obj) (obj : Obj) :
    Absorbs f (update f obj).1 (acceptedBy f (.update obj)) :=
  (absorbs_queueActionLocked { f with populated := true } .updated (.item obj)).of_left_items_eq rfl

/-- `Delete` on an object with a key: dropped exactly when `deleteIgnored` says so. -/
theorem delete_eq {f : DeltaFIFO Obj} {knownObjects : Option (KnownObjects Obj)} {obj : Object Obj}
    {id : String} (hkey : keyOf f.keyFunc obj = .ok id) :
    delete f knownObjects obj =
      if deleteIgnored f knownObjects id then ({ f with populated := true }, .ok ())
      else queueActionLocked { f with populated := true } .deleted obj := by
  -- the code's two tests are the two conjuncts of `deleteIgnored`
  rcases knownObjects with _ | known
  · simp only [delete, deleteIgnored, hkey, Bool.and_true]
  · cases hget : known.getByKey id with
    | error e => simp only [delete, deleteIgnored, hkey, hget, Bool.and_false, Bool.false_eq_true, if_false]
    | ok o =>
        rcases o with _ | o
        · simp only [delete, deleteIgnored, hkey, hget, Bool.and_true]
        · simp only [delete, deleteIgnored, hkey, hget, Bool.and_false, Bool.false_eq_true, if_false]

theorem absorbs_delete (f : DeltaFIFO Obj) (knownObjects : Option (KnownObjects Obj))
    (obj : Object Obj) :
    Absorbs f (delete f knownObjects obj).1 (acceptedBy f (.delete knownObjects obj)) := by
  cases hkey : keyOf f.keyFunc obj with
  | error e =>
      simp only [delete, acceptedBy, hkey]
      exact Absorbs.of_items_eq rfl
  | ok id =>
      simp only [acceptedBy, hkey]
      rw [delete_eq hkey]
      split_ifs
      · exact Absorbs.of_items_eq rfl
      · have hq := absorbs_queueActionLocked { f with populated := true } .deleted obj
        rw [keyed_of_ok hkey] at hq
        exact hq.of_left_items_eq rfl

/-! ## `Replace` -/

theorem replaceListed_cons (action : DeltaType) (f : DeltaFIFO Obj) (keys : Finset String)
    (o : Object Obj) (os : List (Object Obj)) :
    replaceListed action (f, keys) (o :: os) =
      match keyOf f.keyFunc o with
      | .error e => ((f, keys), .error e)
      | .ok key => replaceListed action ((queueActionLocked f action o).1, insert key keys) os := by
  unfold replaceListed
  rw [forRangeErr_cons]
  dsimp only
  cases hkey : keyOf f.keyFunc o with
  | error e => rfl
  | ok key => simp only [queueActionLocked_eq hkey]

theorem absorbs_replaceListed (action : DeltaType) (list : List (Object Obj)) :
    ∀ (f : DeltaFIFO Obj) (keys : Finset String),
      Absorbs f (replaceListed action (f, keys) list).1.1 (listedDeltas f.keyFunc action list) := by
  induction list with
  | nil => intro f keys; exact Absorbs.of_items_eq rfl
  | cons o os ih =>
      intro f keys
      rw [replaceListed_cons]
      cases hkey : keyOf f.keyFunc o with
      | error e =>
          simp only [listedDeltas, hkey]
          exact Absorbs.of_items_eq rfl
      | ok id =>
          simp only [listedDeltas, hkey]
          have h₁ := absorbs_queueActionLocked f action o
          rw [keyed_of_ok hkey] at h₁
          have h₂ := ih (queueActionLocked f action o).1 (insert id keys)
          rw [keyFunc_queueActionLocked] at h₂
          exact h₁.trans h₂

/-- The keys the listing loop collects are those of the listed deltas. -/
theorem mem_replaceListed_keys (action : DeltaType) (list : List (Object Obj)) :
    ∀ (f : DeltaFIFO Obj) (keys : Finset String) (k : String),
      k ∈ (replaceListed action (f, keys) list).1.2 ↔
        k ∈ keys ∨ k ∈ (listedDeltas f.keyFunc action list).map Prod.fst := by
  induction list with
  | nil => intro f keys k; simp [replaceListed, listedDeltas]
  | cons o os ih =>
      intro f keys k
      rw [replaceListed_cons]
      cases hkey : keyOf f.keyFunc o with
      | error e => simp [listedDeltas, hkey]
      | ok id =>
          simp only [listedDeltas, hkey, ih, keyFunc_queueActionLocked, Finset.mem_insert,
            List.map_cons, List.mem_cons]
          tauto

/-- The listing loop fails exactly when an object has no key. -/
theorem replaceListed_ok_iff (action : DeltaType) (list : List (Object Obj)) :
    ∀ (f : DeltaFIFO Obj) (keys : Finset String),
      (replaceListed action (f, keys) list).2 = .ok () ↔
        (listedDeltas f.keyFunc action list).length = list.length := by
  induction list with
  | nil => intro f keys; simp [replaceListed, listedDeltas]
  | cons o os ih =>
      intro f keys
      rw [replaceListed_cons]
      cases hkey : keyOf f.keyFunc o with
      | error e => simp [listedDeltas, hkey]
      | ok id => simp [listedDeltas, hkey, ih]

theorem length_listedDeltas_le (keyFunc : Obj → Except String String) (action : DeltaType)
    (list : List (Object Obj)) : (listedDeltas keyFunc action list).length ≤ list.length := by
  induction list with
  | nil => exact le_refl _
  | cons o os ih =>
      simp only [listedDeltas]
      split
      · simpa using ih
      · simp

theorem queueActionLocked_snd_of_ok {f : DeltaFIFO Obj} {actionType : DeltaType} {obj : Object Obj}
    {id : String} (hkey : keyOf f.keyFunc obj = .ok id) :
    (queueActionLocked f actionType obj).2 = .ok () := by
  rw [queueActionLocked_eq hkey]

@[simp] theorem queueActionLocked_deletedFinalStateUnknown_snd (f : DeltaFIFO Obj)
    (actionType : DeltaType) (k : String) (obj : Option (Object Obj)) :
    (queueActionLocked f actionType (.deletedFinalStateUnknown k obj)).2 = .ok () :=
  queueActionLocked_snd_of_ok rfl

theorem replaceDeletionsOwn_cons (keys : Finset String) (g : DeltaFIFO Obj) (n : Nat) (k : String)
    (ks : List String) :
    replaceDeletionsOwn keys (g, n) (k :: ks) =
      if k ∈ keys then replaceDeletionsOwn keys (g, n) ks
      else replaceDeletionsOwn keys ((queueActionLocked g .deleted
        (.deletedFinalStateUnknown k (((g.items k).bind newest).map Delta.object))).1, n + 1) ks := by
  unfold replaceDeletionsOwn
  rw [forRangeErr_cons]
  dsimp only
  split_ifs
  · rfl
  · rw [queueActionLocked_eq rfl]

theorem replaceDeletionsKnown_cons (known : KnownObjects Obj) (keys : Finset String)
    (g : DeltaFIFO Obj) (n : Nat) (k : String) (ks : List String) :
    replaceDeletionsKnown known keys (g, n) (k :: ks) =
      if k ∈ keys then replaceDeletionsKnown known keys (g, n) ks
      else replaceDeletionsKnown known keys ((queueActionLocked g .deleted
        (.deletedFinalStateUnknown k (knownObject known k))).1, n + 1) ks := by
  unfold replaceDeletionsKnown
  rw [forRangeErr_cons]
  dsimp only
  split_ifs
  · rfl
  · simp only [queueActionLocked_deletedFinalStateUnknown_snd]
    rfl

/-- The deletion loop over the FIFO's own keys: each unlisted key visited gets one
deletion carrying its newest object, as it was before the loop (`f₀`). -/
theorem absorbs_replaceDeletionsOwn (keys : Finset String) (f₀ : DeltaFIFO Obj) :
    ∀ (order : List String) (g : DeltaFIFO Obj) (n : Nat), order.Nodup →
      (∀ k ∈ order, k ∉ keys → g.items k = f₀.items k) →
      Absorbs g (replaceDeletionsOwn keys (g, n) order).1.1
        ((order.filter fun k => k ∉ keys).map fun k =>
          missedDeletion k ((newest (f₀.pending k)).map Delta.object)) := by
  intro order
  induction order with
  | nil => intro g n _ _; exact Absorbs.of_items_eq rfl
  | cons k ks ih =>
      intro g n hnodup hsame
      obtain ⟨hk, hnodup'⟩ := List.nodup_cons.mp hnodup
      rw [replaceDeletionsOwn_cons]
      split_ifs with hkeys
      · rw [List.filter_cons_of_neg (by simpa using hkeys)]
        exact ih g n hnodup' (fun k' hk' => hsame k' (List.mem_cons_of_mem _ hk'))
      · -- `k` is visited once, before the loop touched it
        have hobj : ((g.items k).bind newest).map Delta.object = (newest (f₀.pending k)).map Delta.object := by
          rw [hsame k List.mem_cons_self hkeys]
          cases hi : f₀.items k <;> simp [DeltaFIFO.pending, newest, hi]
        have h₁ := absorbs_queueActionLocked g .deleted
          (.deletedFinalStateUnknown k (((g.items k).bind newest).map Delta.object))
        have h₂ := ih _ (n + 1) hnodup' (fun k' hk' hk'keys => by
          have hne : k ≠ k' := fun h => hk (h ▸ hk')
          rw [h₁.frame k' (by simp [keyed, keyOf, deltasFor, hne])]
          exact hsame k' (List.mem_cons_of_mem _ hk') hk'keys)
        rw [List.filter_cons_of_pos (by simpa using hkeys), List.map_cons, ← hobj]
        exact h₁.trans h₂

theorem absorbs_replaceDeletionsKnown (known : KnownObjects Obj) (keys : Finset String) :
    ∀ (knownKeys : List String) (g : DeltaFIFO Obj) (n : Nat),
      Absorbs g (replaceDeletionsKnown known keys (g, n) knownKeys).1.1
        ((knownKeys.filter fun k => k ∉ keys).map fun k => missedDeletion k (knownObject known k)) := by
  intro knownKeys
  induction knownKeys with
  | nil => intro g n; exact Absorbs.of_items_eq rfl
  | cons k ks ih =>
      intro g n
      rw [replaceDeletionsKnown_cons]
      split_ifs with hkeys
      · rw [List.filter_cons_of_neg (by simpa using hkeys)]
        exact ih g n
      · rw [List.filter_cons_of_pos (by simpa using hkeys), List.map_cons]
        exact (absorbs_queueActionLocked g .deleted
          (.deletedFinalStateUnknown k (knownObject known k))).trans (ih _ (n + 1))

theorem items_recordInitialPopulation (g : DeltaFIFO Obj) (keys : Finset String) (n : Nat) :
    (recordInitialPopulation g keys n).items = g.items := by
  unfold recordInitialPopulation
  split_ifs <;> rfl

/-- `Replace` absorbs its listed objects and, when they all had keys, its deletions. -/
theorem absorbs_replace (f : DeltaFIFO Obj) (knownObjects : Option (KnownObjects Obj))
    (list : List (Object Obj)) (order : List String) (horder : knownObjects = none → order.Nodup) :
    Absorbs f (replace f knownObjects list order).1 (acceptedBy f (.replace knownObjects list order)) := by
  have haction : (if f.emitDeltaTypeReplaced then DeltaType.replaced else DeltaType.sync) =
      replaceAction f := rfl
  simp only [replace, acceptedBy]
  rw [haction]
  have hl := absorbs_replaceListed (replaceAction f) list f ∅
  have hkeys := mem_replaceListed_keys (replaceAction f) list f ∅
  have hok := replaceListed_ok_iff (replaceAction f) list f ∅
  have hle := length_listedDeltas_le f.keyFunc (replaceAction f) list
  rcases hr : replaceListed (replaceAction f) (f, ∅) list with ⟨⟨g, keys⟩, _ | _⟩
  · -- stopped at an object without a key: only the listed prefix was queued
    rw [hr] at hl hok
    have hlt : (listedDeltas f.keyFunc (replaceAction f) list).length < list.length :=
      lt_of_le_of_ne hle (fun h => by simp at hok; exact hok h)
    simpa [hlt] using hl
  · rw [hr] at hl hok hkeys
    have hlen := hok.mp rfl
    simp only [hlen, lt_self_iff_false, if_false]
    -- the deletion loops skip exactly the listed keys
    have hfilter : ∀ ks : List String,
        ks.filter (fun k => decide (k ∉ (listedDeltas f.keyFunc (replaceAction f) list).map Prod.fst)) =
          ks.filter fun k => decide (k ∉ keys) :=
      fun ks => List.filter_congr (fun k _ => by simp [hkeys])
    rcases knownObjects with _ | known <;> dsimp only [missingDeletions]
    · have hd := absorbs_replaceDeletionsOwn keys f order g 0 (horder rfl)
        (fun k _ hk => hl.frame k (deltasFor_eq_nil (by simpa [hkeys] using hk)))
      rw [hfilter]
      rcases hdel : replaceDeletionsOwn keys (g, 0) order with ⟨⟨g', n⟩, _ | _⟩
      · rw [hdel] at hd
        exact hl.trans hd
      · rw [hdel] at hd
        exact (hl.trans hd).trans_items_eq (items_recordInitialPopulation _ _ _)
    · have hd := absorbs_replaceDeletionsKnown known keys known.listKeys g 0
      rw [hfilter]
      rcases hdel : replaceDeletionsKnown known keys (g, 0) known.listKeys with ⟨⟨g', n⟩, _ | _⟩
      · rw [hdel] at hd
        exact hl.trans hd
      · rw [hdel] at hd
        exact (hl.trans hd).trans_items_eq (items_recordInitialPopulation _ _ _)

/-! ## `Resync` -/

theorem pending_queueActionLocked_of_ne {f : DeltaFIFO Obj} {actionType : DeltaType}
    {obj : Object Obj} {id k : String} (hkey : keyOf f.keyFunc obj = .ok id) (hk : k ≠ id) :
    (queueActionLocked f actionType obj).1.pending k = f.pending k := by
  simp [DeltaFIFO.pending, items_queueActionLocked_of_ne hkey hk]

/-- The loop of `Resync`: `queued` tracks which keys have something queued. -/
theorem absorbs_resyncLoop (known : KnownObjects Obj) :
    ∀ (keys : List String) (g : DeltaFIFO Obj) (queued : String → Bool),
      (∀ k, queued k = decide (0 < (g.pending k).length)) →
      Absorbs g (forRangeErr (syncKeyLocked known) g keys).1 (resyncDeltas g.keyFunc known queued keys) := by
  intro keys
  induction keys with
  | nil => intro g queued _; exact Absorbs.of_items_eq rfl
  | cons key keys ih =>
      intro g queued hq
      rw [forRangeErr_cons]
      simp only [resyncDeltas, syncKeyLocked]
      -- a key without a known object is skipped
      rcases hget : known.getByKey key with e | _ | obj
      · exact ih g queued hq
      · exact ih g queued hq
      dsimp only
      cases hkey : g.keyFunc obj with
      | error e => exact Absorbs.of_items_eq rfl
      | ok id =>
          dsimp only
          by_cases hpos : 0 < (g.pending id).length
          · -- something is queued for the key: the `Sync` is ignored
            have hqid : queued id = true := by simp [hq, hpos]
            rw [if_pos (show 0 < ((g.items id).getD []).length from hpos), if_pos hqid]
            exact ih g queued hq
          · have hqid : queued id = false := by simp [hq, hpos]
            have hnil : g.pending id = [] := List.eq_nil_of_length_eq_zero (by omega)
            rw [if_neg (show ¬0 < ((g.items id).getD []).length from hpos), if_neg (by simp [hqid])]
            -- the object's key, as `queueActionLocked` computes it
            have hkey' : keyOf g.keyFunc (.item obj) = .ok id := hkey
            have h₁ := absorbs_queueActionLocked g .sync (.item obj)
            rw [keyed_of_ok hkey'] at h₁
            have hq' : ∀ k, (k == id || queued k) =
                decide (0 < ((queueActionLocked g .sync (.item obj)).1.pending k).length) := by
              intro k
              by_cases hk : k = id
              · subst hk
                rw [pending_queueActionLocked_self hkey', hnil]
                simp [dedupDeltas_singleton]
              · rw [pending_queueActionLocked_of_ne hkey' hk]
                simp [hk, hq k]
            have h₂ := ih _ _ hq'
            rw [keyFunc_queueActionLocked] at h₂
            have hsnd : queueActionLocked g .sync (.item obj) =
                ((queueActionLocked g .sync (.item obj)).1, .ok ()) :=
              Prod.ext rfl (queueActionLocked_snd_of_ok hkey')
            rw [hsnd]
            exact h₁.trans h₂

theorem absorbs_resync (f : DeltaFIFO Obj) (knownObjects : Option (KnownObjects Obj)) :
    Absorbs f (resync f knownObjects).1 (acceptedBy f (.resync knownObjects)) := by
  rcases knownObjects with _ | known
  · exact Absorbs.of_items_eq rfl
  · exact absorbs_resyncLoop known known.listKeys f _ (fun _ => rfl)

/-- Every producer call absorbs what it accepts. -/
theorem absorbs_run {f : DeltaFIFO Obj} (hf : f.Valid) :
    ∀ c : Call Obj, c.Admissible f → Absorbs f (c.run f).1 (acceptedBy f c)
  | .add obj, _ => absorbs_add f obj
  | .update obj, _ => absorbs_update f obj
  | .delete knownObjects obj, _ => absorbs_delete f knownObjects obj
  | .replace none list order, hc =>
      -- Go ranges over the keys of a valid FIFO: each once
      absorbs_replace f none list order fun _ =>
        hc.nodup_iff.mpr (hf.of_reaches ((Reaches.refl f).replaceListed _ _ _)).nodup
  | .replace (some known) list order, _ => absorbs_replace f (some known) list order nofun
  | .resync knownObjects, _ => absorbs_resync f knownObjects

end Cache
end Kubernetes
