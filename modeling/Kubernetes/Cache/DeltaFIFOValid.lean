import Kubernetes.Cache.DeltaFIFO

/-!
# The `DeltaFIFO` representation invariant

The struct's comments state it: there are no duplicates in `queue`, a key is in `queue`
if and only if it is in `items`, and each `Deltas` has at least one `Delta`.  We add that
no `Deltas` holds two adjacent deletions, which is what `dedupDeltas` maintains and what
makes its "Impossible" branch unreachable.

Every operation is reduced to the one primitive that changes `items` and `queue`,
`queueActionLocked`, whose effect `queueActionLocked_eq` states once; the loops of
`Replace` and `Resync` then preserve the invariant by `forRangeErr_invariant`.
-/

namespace Kubernetes
namespace Cache

open Go

variable {Obj : Type _}

/-- No two adjacent deletions. -/
def NoAdjacentDeletions (deltas : List (Delta Obj)) : Prop :=
  deltas.IsChain fun a b => ¬(a.type = .deleted ∧ b.type = .deleted)
attribute [grind] NoAdjacentDeletions

/-- A `Deltas` as the FIFO stores it: at least one delta, no two adjacent deletions. -/
def WellFormed (deltas : List (Delta Obj)) : Prop :=
  deltas ≠ [] ∧ NoAdjacentDeletions deltas
attribute [grind] WellFormed

/-- The representation invariant. -/
structure DeltaFIFO.Valid (f : DeltaFIFO Obj) : Prop where
  nodup : f.queue.Nodup
  mem_queue : ∀ k, k ∈ f.queue ↔ (f.items k).isSome
  wellFormed : ∀ k ds, f.items k = some ds → WellFormed ds

/-- The changes recorded for a key: its `Deltas`, or nothing. -/
def DeltaFIFO.pending (f : DeltaFIFO Obj) (k : String) : List (Delta Obj) :=
  (f.items k).getD []
attribute [grind] DeltaFIFO.pending

theorem newDeltaFIFO_valid (keyFunc : Obj → Except String String) (emit : Bool) :
    (newDeltaFIFO keyFunc emit).Valid :=
  ⟨List.nodup_nil, by simp [newDeltaFIFO], by simp [newDeltaFIFO]⟩

/-! ## `dedupDeltas` -/

/-- What `dedupDeltas` does to a list that just had `d` appended: merge `d` with the last
delta when both are deletions, keep both otherwise. -/
theorem dedupDeltas_append (init : List (Delta Obj)) (b d : Delta Obj) :
    dedupDeltas (init ++ [b] ++ [d]) =
      match isDup d b with
      | some out => init ++ [out]
      | none => init ++ [b] ++ [d] := by
  unfold dedupDeltas
  simp only [List.reverse_append, List.reverse_cons, List.reverse_nil, List.nil_append,
    List.cons_append]
  cases isDup d b <;> simp

theorem dedupDeltas_singleton (d : Delta Obj) : dedupDeltas [d] = [d] := rfl

/-- The kept delta of a merge is one of the two deletions. -/
theorem isDup_eq_some {a b out : Delta Obj} (h : isDup a b = some out) :
    a.type = .deleted ∧ b.type = .deleted ∧ (out = a ∨ out = b) := by
  unfold isDup isDeletionDup at h
  split_ifs at h with hdel
  push Not at hdel
  obtain ⟨hb, ha⟩ := hdel
  refine ⟨ha, hb, ?_⟩
  cases hobj : b.object with
  | deletedFinalStateUnknown _ _ => simp [hobj] at h; exact Or.inl h.symm
  | item _ => simp [hobj] at h; exact Or.inr h.symm

theorem isDup_eq_none {a b : Delta Obj} (h : isDup a b = none) :
    ¬(a.type = .deleted ∧ b.type = .deleted) := by
  rintro ⟨ha, hb⟩
  unfold isDup isDeletionDup at h
  rw [if_neg (by simp [ha, hb])] at h
  cases hobj : b.object <;> simp [hobj] at h

/-- Appending a delta and deduplicating keeps a `Deltas` well formed; in particular it is
never empty, so the "Impossible dedupDeltas" branches of `queueActionLocked` never run. -/
theorem wellFormed_dedupDeltas_append {ds : List (Delta Obj)} (hds : NoAdjacentDeletions ds)
    (d : Delta Obj) : WellFormed (dedupDeltas (ds ++ [d])) := by
  cases ds using List.reverseRecOn with
  | nil => exact ⟨by simp [dedupDeltas_singleton], by simp [dedupDeltas_singleton, NoAdjacentDeletions]⟩
  | append_singleton init b _ =>
      rw [dedupDeltas_append]
      have hinit : NoAdjacentDeletions init := List.IsChain.left_of_append hds
      cases hdup : isDup d b with
      | some out =>
          -- the merged deletion replaces `b`, which was already a deletion
          obtain ⟨hd, hb, hout⟩ := isDup_eq_some hdup
          have hout_del : out.type = .deleted := by
            rcases hout with rfl | rfl
            · exact hd
            · exact hb
          refine ⟨by simp, List.IsChain.append hinit (List.isChain_singleton _) ?_⟩
          intro x hx y hy
          simp only [List.head?_cons, Option.mem_def, Option.some.injEq] at hy
          subst hy
          have hxb := (List.isChain_append.mp hds).2.2 x hx b (by simp)
          simp_all
      | none =>
          refine ⟨by simp, List.IsChain.append hds (List.isChain_singleton _) ?_⟩
          intro x hx y hy
          simp only [List.getLast?_append, List.getLast?_singleton, Option.some_or,
            Option.mem_def, Option.some.injEq] at hx
          simp only [List.head?_cons, Option.mem_def, Option.some.injEq] at hy
          subst hx hy
          exact fun h => isDup_eq_none hdup ⟨h.2, h.1⟩

theorem dedupDeltas_append_ne_nil (ds : List (Delta Obj)) (d : Delta Obj) :
    dedupDeltas (ds ++ [d]) ≠ [] := by
  cases ds using List.reverseRecOn with
  | nil => simp [dedupDeltas_singleton]
  | append_singleton init b _ =>
      rw [dedupDeltas_append]
      cases isDup d b <;> simp

/-! ## `queueActionLocked` -/

/-- The effect of `queueActionLocked` on an object with a key: the deduplicated `Deltas`
is stored and the key queued if it was new. -/
theorem queueActionLocked_eq {f : DeltaFIFO Obj} {actionType : DeltaType} {obj : Object Obj}
    {id : String} (hkey : keyOf f.keyFunc obj = .ok id) :
    queueActionLocked f actionType obj =
      ({ f with
          queue := if (f.items id).isNone then f.queue ++ [id] else f.queue,
          items := Function.update f.items id
            (some (dedupDeltas (f.pending id ++ [⟨actionType, obj⟩]))) }, .ok ()) := by
  have hpos : 0 < (dedupDeltas (f.pending id ++ [⟨actionType, obj⟩])).length :=
    List.length_pos_iff.mpr (dedupDeltas_append_ne_nil _ _)
  simp only [queueActionLocked, hkey, DeltaFIFO.pending] at hpos ⊢
  rw [if_pos hpos]

theorem queueActionLocked_error {f : DeltaFIFO Obj} {actionType : DeltaType} {obj : Object Obj}
    {e : String} (hkey : keyOf f.keyFunc obj = .error e) :
    queueActionLocked f actionType obj = (f, .error e) := by
  simp [queueActionLocked, hkey]

/-- Storing a well-formed `Deltas` under a key, queueing the key when it is new, keeps the
invariant.  Every operation that writes `items` is an instance. -/
theorem DeltaFIFO.Valid.store {f : DeltaFIFO Obj} (hf : f.Valid) (id : String)
    {ds : List (Delta Obj)} (hds : WellFormed ds) :
    ({ f with
        queue := if (f.items id).isNone then f.queue ++ [id] else f.queue,
        items := Function.update f.items id (some ds) } : DeltaFIFO Obj).Valid := by
  by_cases hnew : (f.items id).isNone
  · have hnotq : id ∉ f.queue := by simpa [hf.mem_queue id] using hnew
    refine ⟨?_, fun k => ?_, fun k ds' hk => ?_⟩
    · simpa [hnew] using hf.nodup.append (List.nodup_singleton id) (List.disjoint_singleton.mpr hnotq)
    · by_cases hk : k = id
      · subst hk
        simp [hnew]
      · simp [hnew, hk, hf.mem_queue k]
    · by_cases hkid : k = id
      · subst hkid
        simp only [Function.update_self, Option.some.injEq] at hk
        exact hk ▸ hds
      · simp only [ne_eq, hkid, not_false_eq_true, Function.update_of_ne] at hk
        exact hf.wellFormed k ds' hk
  · refine ⟨by simpa [hnew] using hf.nodup, fun k => ?_, fun k ds' hk => ?_⟩
    · by_cases hk : k = id
      · subst hk
        simp only [hnew, Bool.false_eq_true, if_false, Function.update_self, Option.isSome_some,
          iff_true]
        exact (hf.mem_queue k).mpr (Option.ne_none_iff_isSome.mp (by simpa using hnew))
      · simp [hnew, hk, hf.mem_queue k]
    · by_cases hkid : k = id
      · subst hkid
        simp only [Function.update_self, Option.some.injEq] at hk
        exact hk ▸ hds
      · simp only [ne_eq, hkid, not_false_eq_true, Function.update_of_ne] at hk
        exact hf.wellFormed k ds' hk

@[simp] theorem keyFunc_queueActionLocked (f : DeltaFIFO Obj) (actionType : DeltaType)
    (obj : Object Obj) : (queueActionLocked f actionType obj).1.keyFunc = f.keyFunc := by
  cases hkey : keyOf f.keyFunc obj with
  | error e => rw [queueActionLocked_error hkey]
  | ok id => rw [queueActionLocked_eq hkey]

/-- `queueActionLocked` only ever appends to the queue. -/
theorem queue_prefix_queueActionLocked (f : DeltaFIFO Obj) (actionType : DeltaType)
    (obj : Object Obj) : f.queue <+: (queueActionLocked f actionType obj).1.queue := by
  cases hkey : keyOf f.keyFunc obj with
  | error e => rw [queueActionLocked_error hkey]
  | ok id =>
      rw [queueActionLocked_eq hkey]
      dsimp only
      split_ifs
      · exact List.prefix_append _ _
      · exact List.prefix_refl _

theorem DeltaFIFO.Valid.queueActionLocked {f : DeltaFIFO Obj} (hf : f.Valid) (actionType : DeltaType)
    (obj : Object Obj) : (Cache.queueActionLocked f actionType obj).1.Valid := by
  cases hkey : keyOf f.keyFunc obj with
  | error e => rw [queueActionLocked_error hkey]; exact hf
  | ok id =>
      rw [queueActionLocked_eq hkey]
      refine hf.store id (wellFormed_dedupDeltas_append ?_ _)
      unfold DeltaFIFO.pending
      cases hid : f.items id with
      | none => exact List.isChain_nil
      | some ds => exact (hf.wellFormed id ds hid).2

/-! ## What a producer call does

`Add`, `Update`, `Delete`, `Replace` and `Resync` change `items` and `queue` only through
`queueActionLocked`, and besides set the bookkeeping fields `populated` and
`initialPopulationCount`.  `Reaches f g` says that `g` comes from `f` that way; each call
is shown to be such a run once, and every invariant of the calls then follows from the
two kinds of step (`Reaches.preserves`). -/

/-- One step of a producer call: queue a delta, or set the bookkeeping fields. -/
inductive PrimStep : DeltaFIFO Obj → DeltaFIFO Obj → Prop
  | queueAction (f : DeltaFIFO Obj) (actionType : DeltaType) (obj : Object Obj) :
      PrimStep f (queueActionLocked f actionType obj).1
  | bookkeeping (f : DeltaFIFO Obj) (populated : Bool) (initialPopulationCount : Nat) :
      PrimStep f { f with populated := populated, initialPopulationCount := initialPopulationCount }

/-- What a producer call does: any number of `PrimStep`s. -/
def Reaches : DeltaFIFO Obj → DeltaFIFO Obj → Prop :=
  Relation.ReflTransGen PrimStep
attribute [grind] Reaches

theorem Reaches.refl (f : DeltaFIFO Obj) : Reaches f f :=
  Relation.ReflTransGen.refl

theorem Reaches.queueAction {f g : DeltaFIFO Obj} (h : Reaches f g) (actionType : DeltaType)
    (obj : Object Obj) : Reaches f (queueActionLocked g actionType obj).1 :=
  Relation.ReflTransGen.tail h (.queueAction g actionType obj)

theorem Reaches.setPopulated {f g : DeltaFIFO Obj} (h : Reaches f g) (b : Bool) :
    Reaches f { g with populated := b } :=
  Relation.ReflTransGen.tail h (.bookkeeping g b g.initialPopulationCount)

/-- The invariant rule: what every step keeps, every producer call keeps. -/
theorem Reaches.preserves {P : DeltaFIFO Obj → Prop} (hstep : ∀ f g, PrimStep f g → P f → P g)
    {f g : DeltaFIFO Obj} (h : Reaches f g) (hf : P f) : P g := by
  induction h with
  | refl => exact hf
  | tail _ hfg ih => exact hstep _ _ hfg ih

theorem reaches_add (f : DeltaFIFO Obj) (obj : Obj) : Reaches f (add f obj).1 :=
  ((Reaches.refl f).setPopulated true).queueAction _ _

theorem reaches_update (f : DeltaFIFO Obj) (obj : Obj) : Reaches f (update f obj).1 :=
  ((Reaches.refl f).setPopulated true).queueAction _ _

theorem reaches_delete (f : DeltaFIFO Obj) (knownObjects : Option (KnownObjects Obj))
    (obj : Object Obj) : Reaches f (delete f knownObjects obj).1 := by
  have hp := (Reaches.refl f).setPopulated true
  unfold delete
  -- every branch either returns the populated FIFO or queues the deletion
  rcases keyOf f.keyFunc obj with e | id
  · exact Reaches.refl f
  · rcases knownObjects with _ | known <;> dsimp only
    · split
      · exact hp
      · exact hp.queueAction _ _
    · split
      · split
        · exact hp
        · exact hp.queueAction _ _
      · exact hp.queueAction _ _

theorem Reaches.replaceListed {f g : DeltaFIFO Obj} (h : Reaches f g) (action : DeltaType)
    (keys : Finset String) (list : List (Object Obj)) :
    Reaches f (replaceListed action (g, keys) list).1.1 := by
  unfold Cache.replaceListed
  refine forRangeErr_invariant _ (fun p : DeltaFIFO Obj × Finset String => Reaches f p.1) list ?_
    (g, keys) h
  rintro ⟨g, keys⟩ item - hg
  dsimp only at hg ⊢
  split
  · exact hg
  · exact hg.queueAction _ _

theorem Reaches.replaceDeletionsOwn {f g : DeltaFIFO Obj} (h : Reaches f g) (keys : Finset String)
    (n : Nat) (order : List String) : Reaches f (replaceDeletionsOwn keys (g, n) order).1.1 := by
  unfold Cache.replaceDeletionsOwn
  refine forRangeErr_invariant _ (fun p : DeltaFIFO Obj × Nat => Reaches f p.1) order ?_ (g, n) h
  rintro ⟨g, n⟩ k - hg
  dsimp only at hg ⊢
  split_ifs
  · exact hg
  · exact hg.queueAction _ _

theorem Reaches.replaceDeletionsKnown {f g : DeltaFIFO Obj} (h : Reaches f g)
    (known : KnownObjects Obj) (keys : Finset String) (n : Nat) (knownKeys : List String) :
    Reaches f (replaceDeletionsKnown known keys (g, n) knownKeys).1.1 := by
  unfold Cache.replaceDeletionsKnown
  refine forRangeErr_invariant _ (fun p : DeltaFIFO Obj × Nat => Reaches f p.1) knownKeys ?_ (g, n) h
  rintro ⟨g, n⟩ k - hg
  dsimp only at hg ⊢
  split_ifs
  · exact hg
  · exact hg.queueAction _ _

theorem Reaches.recordInitialPopulation {f g : DeltaFIFO Obj} (h : Reaches f g)
    (keys : Finset String) (n : Nat) : Reaches f (recordInitialPopulation g keys n) := by
  unfold Cache.recordInitialPopulation
  split_ifs
  · exact h
  · exact Relation.ReflTransGen.tail h (.bookkeeping g true _)

theorem reaches_replace (f : DeltaFIFO Obj) (knownObjects : Option (KnownObjects Obj))
    (list : List (Object Obj)) (order : List String) :
    Reaches f (replace f knownObjects list order).1 := by
  unfold replace
  dsimp only
  have hl := (Reaches.refl f).replaceListed
    (if f.emitDeltaTypeReplaced then DeltaType.replaced else DeltaType.sync) ∅ list
  rcases hr : replaceListed (if f.emitDeltaTypeReplaced then DeltaType.replaced else DeltaType.sync)
    (f, ∅) list with ⟨⟨g, keys⟩, _ | _⟩
  · rw [hr] at hl
    exact hl
  · rw [hr] at hl
    -- whichever deletion loop runs, its result is recorded
    rcases knownObjects with _ | known <;> dsimp only
    · have hd := hl.replaceDeletionsOwn keys 0 order
      rcases hdel : replaceDeletionsOwn keys (g, 0) order with ⟨⟨g', n⟩, _ | _⟩
      · rw [hdel] at hd
        exact hd
      · rw [hdel] at hd
        exact hd.recordInitialPopulation _ _
    · have hd := hl.replaceDeletionsKnown known keys 0 known.listKeys
      rcases hdel : replaceDeletionsKnown known keys (g, 0) known.listKeys with ⟨⟨g', n⟩, _ | _⟩
      · rw [hdel] at hd
        exact hd
      · rw [hdel] at hd
        exact hd.recordInitialPopulation _ _

theorem Reaches.syncKeyLocked {f g : DeltaFIFO Obj} (h : Reaches f g) (known : KnownObjects Obj)
    (key : String) : Reaches f (syncKeyLocked known g key).1 := by
  unfold Cache.syncKeyLocked
  split
  · exact h
  · exact h
  · split
    · exact h
    · split_ifs
      · exact h
      · exact h.queueAction _ _

theorem reaches_resync (f : DeltaFIFO Obj) (knownObjects : Option (KnownObjects Obj)) :
    Reaches f (resync f knownObjects).1 := by
  unfold resync
  rcases knownObjects with _ | known
  · exact Reaches.refl f
  · exact forRangeErr_invariant _ (Reaches f) known.listKeys
      (fun g k _ hg => hg.syncKeyLocked known k) f (Reaches.refl f)

/-- Every producer call keeps the invariant. -/
theorem DeltaFIFO.Valid.of_reaches {f g : DeltaFIFO Obj} (hf : f.Valid) (h : Reaches f g) :
    g.Valid := by
  refine Reaches.preserves (fun f g hfg hf => ?_) h hf
  cases hfg with
  | queueAction actionType obj => exact hf.queueActionLocked actionType obj
  | bookkeeping populated count => exact ⟨hf.nodup, hf.mem_queue, hf.wellFormed⟩

theorem Reaches.keyFunc {f g : DeltaFIFO Obj} (h : Reaches f g) : g.keyFunc = f.keyFunc := by
  refine Reaches.preserves (P := fun g => g.keyFunc = f.keyFunc) (fun f g hfg hf => ?_) h rfl
  cases hfg with
  | queueAction actionType obj => rw [keyFunc_queueActionLocked, hf]
  | bookkeeping populated count => exact hf

/-- Producer calls only append to the queue: the keys already queued keep their order. -/
theorem Reaches.queue_isPrefix {f g : DeltaFIFO Obj} (h : Reaches f g) : f.queue <+: g.queue := by
  refine Reaches.preserves (P := fun g => f.queue <+: g.queue) (fun f g hfg hf => ?_) h
    (List.prefix_refl _)
  cases hfg with
  | queueAction actionType obj => exact hf.trans (queue_prefix_queueActionLocked _ _ _)
  | bookkeeping populated count => exact hf

/-! ## `AddIfNotPresent` and `Pop` -/

/-- `addIfNotPresent` of a well-formed `Deltas` keeps the invariant. -/
theorem DeltaFIFO.Valid.addIfNotPresent {f : DeltaFIFO Obj} (hf : f.Valid) (id : String)
    {deltas : List (Delta Obj)} (hds : WellFormed deltas) :
    (Cache.addIfNotPresent f id deltas).Valid := by
  unfold Cache.addIfNotPresent
  dsimp only
  split_ifs with hsome
  · exact ⟨hf.nodup, hf.mem_queue, hf.wellFormed⟩
  · have hnone : (f.items id).isNone = true := by simpa using hsome
    have := (show ({ f with populated := true } : DeltaFIFO Obj).Valid from
      ⟨hf.nodup, hf.mem_queue, hf.wellFormed⟩).store id hds
    simp only [hnone, if_true] at this
    exact this

theorem DeltaFIFO.Valid.addIfNotPresentDeltas {f : DeltaFIFO Obj} (hf : f.Valid)
    {deltas : List (Delta Obj)} (hds : WellFormed deltas) :
    (Cache.addIfNotPresentDeltas f deltas).1.Valid := by
  unfold Cache.addIfNotPresentDeltas
  split
  · exact hf
  · exact hf.addIfNotPresent _ hds

/-- On a valid FIFO `Pop` never skips a key: the head key has its `Deltas`, which are
handed out whole, and are put back at the end of the queue on a requeue. -/
theorem DeltaFIFO.Valid.pop_eq {f : DeltaFIFO Obj} (hf : f.Valid) {id : String} {rest : List String}
    (hqueue : f.queue = id :: rest) (requeue : Bool) :
    ∃ item, f.items id = some item ∧
      Cache.pop f requeue = (.item id item,
        let g := { f with queue := rest, initialPopulationCount := f.initialPopulationCount - 1,
                            items := Function.update f.items id none }
        if requeue then Cache.addIfNotPresent g id item else g) := by
  have hsome : (f.items id).isSome := (hf.mem_queue id).mp (hqueue ▸ List.mem_cons_self)
  obtain ⟨item, hitem⟩ := Option.isSome_iff_exists.mp hsome
  refine ⟨item, hitem, ?_⟩
  simp [Cache.pop, hqueue, popFrom, hitem]

theorem DeltaFIFO.Valid.pop {f : DeltaFIFO Obj} (hf : f.Valid) (requeue : Bool) :
    (Cache.pop f requeue).2.Valid := by
  cases hqueue : f.queue with
  | nil =>
      have : Cache.pop f requeue =
          (if f.closed then PopResult.closed else PopResult.blocked, { f with queue := [] }) := by
        simp [Cache.pop, hqueue, popFrom]
      rw [this]
      exact ⟨List.nodup_nil, fun k => by simp [← hf.mem_queue k, hqueue], hf.wellFormed⟩
  | cons id rest =>
      obtain ⟨item, hitem, hpop⟩ := hf.pop_eq hqueue requeue
      rw [hpop]
      have hnodup : (id :: rest).Nodup := hqueue ▸ hf.nodup
      -- removing the head key and its `Deltas` keeps the invariant
      have hg : ({ f with
          queue := rest, initialPopulationCount := f.initialPopulationCount - 1,
          items := Function.update f.items id none } : DeltaFIFO Obj).Valid := by
        refine ⟨(List.nodup_cons.mp hnodup).2, fun k => ?_, fun k ds hk => ?_⟩
        · by_cases hk : k = id
          · subst hk
            simpa using (List.nodup_cons.mp hnodup).1
          · simp only [ne_eq, hk, not_false_eq_true, Function.update_of_ne, ← hf.mem_queue k, hqueue,
              List.mem_cons, false_or]
        · by_cases hkid : k = id
          · subst hkid
            simp at hk
          · simp only [ne_eq, hkid, not_false_eq_true, Function.update_of_ne] at hk
            exact hf.wellFormed k ds hk
      cases requeue
      · exact hg
      · exact hg.addIfNotPresent id (hf.wellFormed id item hitem)

end Cache
end Kubernetes
