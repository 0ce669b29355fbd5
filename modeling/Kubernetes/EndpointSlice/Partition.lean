import Kubernetes.EndpointSlice.Reconciler

/-!
# What `reconcileByPortMapping` plans

Once the slices to create, to update and to delete are sent, the existing slices of the port
mapping become `applyChanges`: each existing slice replaced by the update of its name, or gone
when a delete names it, then the new slices.  The theorem of this module says that this is a
partition of the desired endpoints: each desired hash is in exactly one slice, once, and no other
hash is; and it bounds the slices and counts the endpoints added and removed.

The state of the reconciler is read through `State.current`, the slice that will stand for an
existing one once the planned calls are made.  The invariant `Planned` says how the map and the
three name sets hold the existing slices seen so far; `Conserved` says that the endpoints of the
slices planned so far, with the desired endpoints left, are the desired endpoints, hash for hash.
Each loop turn keeps both: the first loop moves the endpoints it keeps out of the desired set
(`keepDesired_perm`), and every fill moves a prefix of the desired set into one slice
(`fill_endpoints`).

The existing slices are taken with distinct, non-empty names, as the API server gives them: with
two slices of one name the map of the first loop keeps only the later one, and an existing slice
without a name would be created again.
-/

namespace Kubernetes
namespace EndpointSlice

variable {α κ : Type}

/-! ## The slices once the calls are made -/

/-- The existing slices once the planned calls are made: each replaced by the update with its
name, and dropped when a delete names it; then the new slices. -/
def applyChanges (existingSlices slicesToCreate slicesToUpdate slicesToDelete :
    List (EndpointSlice α)) : List (EndpointSlice α) :=
  existingSlices.filterMap (fun existingSlice =>
      if slicesToDelete.any (·.name == existingSlice.name) then none
      else some ((slicesToUpdate.find? (·.name == existingSlice.name)).getD existingSlice)) ++
    slicesToCreate
attribute [grind] applyChanges

/-- The names in the three sets of the state. -/
def State.names {hash : α → κ} (st : State α hash) : List String :=
  st.sliceNamesToUpdate ++ st.sliceNamesUnchanged ++ st.sliceNamesToDelete
attribute [grind] State.names

/-- The slice that stands for the existing slice `s` once the calls planned in `st` are made:
none when it is to be deleted, the slice under its name when it is to be updated, and `s` itself
otherwise. -/
def State.current {hash : α → κ} (st : State α hash) (s : EndpointSlice α) :
    Option (EndpointSlice α) :=
  if s.name ∈ st.sliceNamesToDelete then none
  else if s.name ∈ st.sliceNamesToUpdate then st.slicesByName s.name
  else some s
attribute [grind] State.current

/-- The endpoints of a slice that may be gone. -/
def endpointsOf : Option (EndpointSlice α) → List α
  | some slice => slice.endpoints
  | none => []
attribute [grind] endpointsOf

/-- The endpoints that stand for the existing slices, slice by slice. -/
def State.plannedEndpoints {hash : α → κ} (st : State α hash)
    (existingSlices : List (EndpointSlice α)) : List α :=
  existingSlices.flatMap fun s => endpointsOf (st.current s)
attribute [grind] State.plannedEndpoints

/-! ## The name sets -/

section Names

variable {hash : α → κ} {st : State α hash} {n : String}

theorem State.not_mem_of_mem_update (hnodup : st.names.Nodup)
    (h : n ∈ st.sliceNamesToUpdate) :
    n ∉ st.sliceNamesUnchanged ∧ n ∉ st.sliceNamesToDelete := by
  simp only [State.names, List.nodup_append, List.mem_append] at hnodup
  exact ⟨fun h' => hnodup.1.2.2 n h n h' rfl, fun h' => hnodup.2.2 n (.inl h) n h' rfl⟩

theorem State.not_mem_of_mem_unchanged (hnodup : st.names.Nodup)
    (h : n ∈ st.sliceNamesUnchanged) :
    n ∉ st.sliceNamesToUpdate ∧ n ∉ st.sliceNamesToDelete := by
  simp only [State.names, List.nodup_append, List.mem_append] at hnodup
  exact ⟨fun h' => hnodup.1.2.2 n h' n h rfl, fun h' => hnodup.2.2 n (.inr h) n h' rfl⟩

theorem State.not_mem_of_mem_delete (hnodup : st.names.Nodup)
    (h : n ∈ st.sliceNamesToDelete) :
    n ∉ st.sliceNamesToUpdate ∧ n ∉ st.sliceNamesUnchanged := by
  simp only [State.names, List.nodup_append, List.mem_append] at hnodup
  exact ⟨fun h' => hnodup.2.2 n (.inl h') n h rfl, fun h' => hnodup.2.2 n (.inr h') n h rfl⟩

/-- The slice that stands for an existing slice to update is the one under its name. -/
theorem State.current_of_mem_update (hnodup : st.names.Nodup) {s : EndpointSlice α}
    (h : s.name ∈ st.sliceNamesToUpdate) : st.current s = st.slicesByName s.name := by
  simp [State.current, (State.not_mem_of_mem_update hnodup h).2, h]

theorem State.current_of_mem_unchanged (hnodup : st.names.Nodup) {s : EndpointSlice α}
    (h : s.name ∈ st.sliceNamesUnchanged) : st.current s = some s := by
  obtain ⟨hupdate, hdelete⟩ := State.not_mem_of_mem_unchanged hnodup h
  simp [State.current, hupdate, hdelete]

theorem State.current_of_mem_delete {s : EndpointSlice α} (h : s.name ∈ st.sliceNamesToDelete) :
    st.current s = none := by
  simp [State.current, h]

end Names

variable [DecidableEq κ] {hash : α → κ}

/-- Each endpoint has a desired endpoint of its hash that is equal to it beyond the hash. -/
def StaleOf (desiredSet : EndpointSet hash) (equalBeyondHash : α → α → Bool)
    (endpoints : List α) : Prop :=
  ∀ e ∈ endpoints, ∃ d ∈ desiredSet.entries, hash d = hash e ∧ equalBeyondHash d e = true
attribute [grind] StaleOf

/-- An endpoint of a slice to update: a desired endpoint, or one equal beyond its hash to the
desired endpoint of its hash. -/
def Versioned (desiredSet : EndpointSet hash) (equalBeyondHash : α → α → Bool) (e : α) :
    Prop :=
  e ∈ desiredSet.entries ∨
    ∃ d ∈ desiredSet.entries, hash d = hash e ∧ equalBeyondHash d e = true
attribute [grind] Versioned

/-- How a slice to update stands to the existing slice of its name: no larger than the larger
of a full slice and the existing one, empty only when the existing one is, and with each
endpoint desired or equal beyond its hash to the desired one. -/
structure UpdateOf (desiredSet : EndpointSet hash) (equalBeyondHash : α → α → Bool)
    (maxEndpointsPerSlice : Nat) (existingSlice slice : EndpointSlice α) : Prop where
  name : slice.name = existingSlice.name
  length_le : slice.endpoints.length ≤ max maxEndpointsPerSlice existingSlice.endpoints.length
  nonempty : slice.endpoints = [] → existingSlice.endpoints = []
  versions : ∀ e ∈ slice.endpoints, Versioned desiredSet equalBeyondHash e

/-- How the state holds the existing slices seen so far: their names are in exactly one set, the
map holds each slice under its name, a slice to update under its name stands to the existing one
as `UpdateOf` says, an unchanged slice is in the map as it is, and the desired set left is part of
the desired set. -/
structure Planned (desiredSet : EndpointSet hash) (equalBeyondHash : α → α → Bool)
    (maxEndpointsPerSlice : Nat) (seen : List (EndpointSlice α)) (st : State α hash) : Prop where
  nodup : st.names.Nodup
  mem_names : ∀ n, n ∈ st.names ↔ n ∈ seen.map EndpointSlice.name
  byName_name : ∀ n slice, st.slicesByName n = some slice → slice.name = n
  update : ∀ s ∈ seen, s.name ∈ st.sliceNamesToUpdate →
    ∃ slice, st.slicesByName s.name = some slice ∧
      UpdateOf desiredSet equalBeyondHash maxEndpointsPerSlice s slice
  unchanged : ∀ s ∈ seen, s.name ∈ st.sliceNamesUnchanged →
    st.slicesByName s.name = some s ∧ StaleOf desiredSet equalBeyondHash s.endpoints
  delete : ∀ s ∈ seen, s.name ∈ st.sliceNamesToDelete → (st.slicesByName s.name).isSome
  desired_sublist : st.desiredSet.entries.Sublist desiredSet.entries

/-- The endpoints planned for the existing slices seen and for the new slices, with the desired
endpoints left, are the desired endpoints, hash for hash. -/
def Conserved (desiredSet : EndpointSet hash) (seen : List (EndpointSlice α)) (st : State α hash)
    (slicesToCreate : List (EndpointSlice α)) : Prop :=
  ((st.plannedEndpoints seen ++ slicesToCreate.flatMap EndpointSlice.endpoints).map hash ++
    st.desiredSet.entries.map hash).Perm (desiredSet.entries.map hash)
attribute [grind] Conserved

/-- The new slices have no name, and hold between one and `maxEndpointsPerSlice` desired
endpoints. -/
def CreatedOf (desiredSet : EndpointSet hash) (maxEndpointsPerSlice : Nat)
    (slicesToCreate : List (EndpointSlice α)) : Prop :=
  ∀ c ∈ slicesToCreate, c.name = "" ∧ 0 < c.endpoints.length ∧
    c.endpoints.length ≤ maxEndpointsPerSlice ∧ ∀ e ∈ c.endpoints, e ∈ desiredSet.entries
attribute [grind] CreatedOf

/-- What the first loop has counted: the desired endpoints left are those whose hash no slice
seen has, and each endpoint of a slice seen was kept or counted as removed. -/
structure Counted (desiredSet : EndpointSet hash) (seen : List (EndpointSlice α))
    (st : State α hash) : Prop where
  desired : st.desiredSet.entries = desiredSet.entries.filter fun d =>
    hash d ∉ (seen.flatMap EndpointSlice.endpoints).map hash
  removed : st.numRemoved + desiredSet.len =
    (seen.flatMap EndpointSlice.endpoints).length + st.desiredSet.len


/-! ## A turn of the first loop -/

section FirstLoop

variable {equalBeyondHash : α → α → Bool} {service : Service} {st : State α hash}
  {s : EndpointSlice α}

/-- The four ends of a turn: the slice keeps no endpoint and is to be deleted; it lost or
changed an endpoint and is to be updated with those it keeps; it kept them all unchanged but its
labels differ and it is to be updated with them; or it is unchanged. -/
theorem reconcileExisting_cases (equalBeyondHash : α → α → Bool) (service : Service)
    (st : State α hash) (s : EndpointSlice α) :
    ((keepDesired equalBeyondHash st.desiredSet s.endpoints).1 = [] ∧
        reconcileExisting equalBeyondHash service st s =
          { st with
            slicesByName := Function.update st.slicesByName s.name (some s)
            numRemoved := st.numRemoved + s.endpoints.length
            desiredSet := (keepDesired equalBeyondHash st.desiredSet s.endpoints).2.2
            sliceNamesToDelete := insertName s.name st.sliceNamesToDelete }) ∨
      ((keepDesired equalBeyondHash st.desiredSet s.endpoints).1 ≠ [] ∧
        reconcileExisting equalBeyondHash service st s =
          { st with
            slicesByName := Function.update st.slicesByName s.name
              (some { s with
                endpoints := (keepDesired equalBeyondHash st.desiredSet s.endpoints).1
                labels := (setEndpointSliceLabels s service).1 })
            numRemoved := st.numRemoved + (s.endpoints.length -
              (keepDesired equalBeyondHash st.desiredSet s.endpoints).1.length)
            desiredSet := (keepDesired equalBeyondHash st.desiredSet s.endpoints).2.2
            sliceNamesToUpdate := insertName s.name st.sliceNamesToUpdate }) ∨
      ((keepDesired equalBeyondHash st.desiredSet s.endpoints).2.1 = false ∧
        (keepDesired equalBeyondHash st.desiredSet s.endpoints).1.length = s.endpoints.length ∧
        reconcileExisting equalBeyondHash service st s =
          { st with
            slicesByName := Function.update st.slicesByName s.name
              (some { s with labels := (setEndpointSliceLabels s service).1 })
            desiredSet := (keepDesired equalBeyondHash st.desiredSet s.endpoints).2.2
            sliceNamesToUpdate := insertName s.name st.sliceNamesToUpdate }) ∨
      ((keepDesired equalBeyondHash st.desiredSet s.endpoints).2.1 = false ∧
        (keepDesired equalBeyondHash st.desiredSet s.endpoints).1.length = s.endpoints.length ∧
        reconcileExisting equalBeyondHash service st s =
          { st with
            slicesByName := Function.update st.slicesByName s.name (some s)
            desiredSet := (keepDesired equalBeyondHash st.desiredSet s.endpoints).2.2
            sliceNamesUnchanged := insertName s.name st.sliceNamesUnchanged }) := by
  have hle := keepDesired_length_le equalBeyondHash st.desiredSet s.endpoints
  simp only [reconcileExisting]
  by_cases hchanged : ((keepDesired equalBeyondHash st.desiredSet s.endpoints).2.1 ||
      s.endpoints.length != (keepDesired equalBeyondHash st.desiredSet s.endpoints).1.length) = true
  · rw [if_pos hchanged]
    by_cases hempty : (keepDesired equalBeyondHash st.desiredSet s.endpoints).1.length = 0
    · -- nothing kept: the removed count is the whole slice
      refine .inl ⟨List.eq_nil_of_length_eq_zero hempty, ?_⟩
      rw [if_pos hempty]
      congr 1
      split_ifs <;> omega
    · refine .inr (.inl ⟨fun hnil => hempty (by simp [hnil]), ?_⟩)
      rw [if_neg hempty]
      congr 1
      · simp
      · split_ifs <;> omega
  · -- all kept, none changed: the slice keeps its endpoints
    rw [if_neg hchanged]
    simp only [Bool.or_eq_true, bne_iff_ne, ne_eq, not_or, Decidable.not_not,
      Bool.not_eq_true] at hchanged
    obtain ⟨hupdated, hlen⟩ := hchanged
    by_cases hlabels : (setEndpointSliceLabels s service).2 = true
    · refine .inr (.inr (.inl ⟨hupdated, hlen.symm, ?_⟩))
      rw [if_pos hlabels]
      congr 1
      simp
    · refine .inr (.inr (.inr ⟨hupdated, hlen.symm, ?_⟩))
      rw [if_neg hlabels]

theorem reconcileExisting_desiredSet :
    (reconcileExisting equalBeyondHash service st s).desiredSet =
      (keepDesired equalBeyondHash st.desiredSet s.endpoints).2.2 := by
  rcases reconcileExisting_cases equalBeyondHash service st s with
    ⟨-, h⟩ | ⟨-, h⟩ | ⟨-, -, h⟩ | ⟨-, -, h⟩ <;> rw [h]

/-- Whatever the branch, the turn counts as removed the endpoints of the slice it does not keep. -/
theorem reconcileExisting_numRemoved :
    (reconcileExisting equalBeyondHash service st s).numRemoved =
      st.numRemoved +
        (s.endpoints.length -
          (keepDesired equalBeyondHash st.desiredSet s.endpoints).1.length) := by
  rcases reconcileExisting_cases equalBeyondHash service st s with
    ⟨hnil, h⟩ | ⟨-, h⟩ | ⟨-, hlen, h⟩ | ⟨-, hlen, h⟩ <;> rw [h]
  · simp [hnil]
  · simp [hlen]
  · simp [hlen]

/-- The turn changes nothing under the other names. -/
theorem reconcileExisting_frame (equalBeyondHash : α → α → Bool) (service : Service)
    (st : State α hash) (s : EndpointSlice α) {n : String} (hn : n ≠ s.name) :
    (reconcileExisting equalBeyondHash service st s).slicesByName n = st.slicesByName n ∧
      (n ∈ (reconcileExisting equalBeyondHash service st s).sliceNamesToUpdate ↔
        n ∈ st.sliceNamesToUpdate) ∧
      (n ∈ (reconcileExisting equalBeyondHash service st s).sliceNamesUnchanged ↔
        n ∈ st.sliceNamesUnchanged) ∧
      (n ∈ (reconcileExisting equalBeyondHash service st s).sliceNamesToDelete ↔
        n ∈ st.sliceNamesToDelete) := by
  rcases reconcileExisting_cases equalBeyondHash service st s with
    ⟨-, h⟩ | ⟨-, h⟩ | ⟨-, -, h⟩ | ⟨-, -, h⟩ <;>
  · rw [h]
    simp [mem_insertName, hn]

theorem reconcileExisting_current_of_ne {t : EndpointSlice α} (ht : t.name ≠ s.name) :
    (reconcileExisting equalBeyondHash service st s).current t = st.current t := by
  obtain ⟨hmap, hupdate, -, hdelete⟩ := reconcileExisting_frame equalBeyondHash service st s ht
  simp only [State.current, hmap, hupdate, hdelete]

/-- The turn adds the name of the slice to one of the sets. -/
theorem reconcileExisting_names (hfresh : s.name ∉ st.names) :
    (reconcileExisting equalBeyondHash service st s).names.Perm (st.names ++ [s.name]) := by
  simp only [State.names, List.mem_append, not_or] at hfresh
  obtain ⟨⟨hupdate, hunchanged⟩, hdelete⟩ := hfresh
  rcases reconcileExisting_cases equalBeyondHash service st s with
    ⟨-, h⟩ | ⟨-, h⟩ | ⟨-, -, h⟩ | ⟨-, -, h⟩ <;> rw [h]
  all_goals
    simp only [State.names, insertName_of_not_mem hdelete, insertName_of_not_mem hupdate,
      insertName_of_not_mem hunchanged]
    rw [List.perm_iff_count]
    intro a
    simp only [List.count_append]
    omega

/-- What the turn does with the slice itself: it is to be deleted and keeps no endpoint; or it
is to be updated, with the hashes it keeps; or it is unchanged, each endpoint kept and equal to the
desired one beyond its hash. -/
theorem reconcileExisting_self (equalBeyondHash : α → α → Bool) (service : Service)
    (st : State α hash) (s : EndpointSlice α) (maxEndpointsPerSlice : Nat)
    {desiredSet : EndpointSet hash} (hsub : st.desiredSet.entries ⊆ desiredSet.entries) :
    (s.name ∈ (reconcileExisting equalBeyondHash service st s).sliceNamesToDelete ∧
        (reconcileExisting equalBeyondHash service st s).slicesByName s.name = some s ∧
        (keepDesired equalBeyondHash st.desiredSet s.endpoints).1 = []) ∨
      (s.name ∈ (reconcileExisting equalBeyondHash service st s).sliceNamesToUpdate ∧
        ∃ slice,
          (reconcileExisting equalBeyondHash service st s).slicesByName s.name = some slice ∧
          UpdateOf desiredSet equalBeyondHash maxEndpointsPerSlice s slice ∧
          slice.endpoints.map hash =
            (keepDesired equalBeyondHash st.desiredSet s.endpoints).1.map hash) ∨
      (s.name ∈ (reconcileExisting equalBeyondHash service st s).sliceNamesUnchanged ∧
        (reconcileExisting equalBeyondHash service st s).slicesByName s.name = some s ∧
        StaleOf desiredSet equalBeyondHash s.endpoints ∧
        s.endpoints.map hash =
          (keepDesired equalBeyondHash st.desiredSet s.endpoints).1.map hash) := by
  have hle := keepDesired_length_le equalBeyondHash st.desiredSet s.endpoints
  -- a slice that kept all its endpoints, none changed, has each equal to a desired one
  have hsame : (keepDesired equalBeyondHash st.desiredSet s.endpoints).2.1 = false →
      (keepDesired equalBeyondHash st.desiredSet s.endpoints).1.length = s.endpoints.length →
      StaleOf desiredSet equalBeyondHash s.endpoints ∧
        s.endpoints.map hash =
          (keepDesired equalBeyondHash st.desiredSet s.endpoints).1.map hash := by
    intro hupdated hlen
    obtain ⟨hhash, hstale⟩ := keepDesired_of_length_eq equalBeyondHash hlen
    refine ⟨fun e he => ?_, hhash.symm⟩
    obtain ⟨d, hd, hdhash, hdequal⟩ := hstale hupdated e he
    exact ⟨d, hsub hd, hdhash, hdequal⟩
  rcases reconcileExisting_cases equalBeyondHash service st s with
    ⟨hnil, h⟩ | ⟨hkept, h⟩ | ⟨hupdated, hlen, h⟩ | ⟨hupdated, hlen, h⟩ <;> rw [h]
  · exact .inl ⟨by simp [mem_insertName], by simp, hnil⟩
  · refine .inr (.inl ⟨by simp [mem_insertName],
      { s with
        endpoints := (keepDesired equalBeyondHash st.desiredSet s.endpoints).1
        labels := (setEndpointSliceLabels s service).1 },
      by simp, ⟨rfl, ?_, ?_, ?_⟩, rfl⟩)
    · exact hle.trans (le_max_right _ _)
    · exact fun hnil => absurd hnil hkept
    · intro e he
      exact .inl (hsub ((keepDesired_perm equalBeyondHash st.desiredSet s.endpoints).subset
        (List.mem_append_left _ he)))
  · obtain ⟨hstale, hhash⟩ := hsame hupdated hlen
    refine .inr (.inl ⟨by simp [mem_insertName],
      { s with labels := (setEndpointSliceLabels s service).1 },
      by simp, ⟨rfl, le_max_right _ _, id, fun e he => .inr (hstale e he)⟩, hhash⟩)
  · exact .inr (.inr ⟨by simp [mem_insertName], by simp, hsame hupdated hlen⟩)

end FirstLoop

/-! ## Moving desired endpoints into a slice -/

section Moves

/-- Listing what a lookup finds under each key, when it finds only values of that key, and
reading their keys back, keeps the keys found. -/
theorem map_filterMap_of_key {β γ : Type} {l : List β} {f : β → Option γ} {key : γ → β}
    (h : ∀ x ∈ l, ∀ y, f x = some y → key y = x) :
    (l.filterMap f).map key = l.filter fun x => (f x).isSome := by
  induction l with
  | nil => rfl
  | cons x xs ih =>
    have ih' := ih fun x' hx' => h x' (List.mem_cons_of_mem _ hx')
    cases hfx : f x with
    | none => simp [hfx, ih']
    | some y => simp [hfx, ih', h x List.mem_cons_self y hfx]

variable {st st' : State α hash} {seen : List (EndpointSlice α)}

omit [DecidableEq κ] in
/-- When the slice that stands for one existing slice gains endpoints and the others stay as they
are, the planned endpoints gain them. -/
theorem plannedEndpoints_perm (hnames : (seen.map EndpointSlice.name).Nodup) {n : String}
    {extra : List α} (hmem : n ∈ seen.map EndpointSlice.name)
    (hother : ∀ t ∈ seen, t.name ≠ n → st'.current t = st.current t)
    (hat : ∀ t ∈ seen, t.name = n →
      endpointsOf (st'.current t) = endpointsOf (st.current t) ++ extra) :
    (st'.plannedEndpoints seen).Perm (st.plannedEndpoints seen ++ extra) := by
  induction seen with
  | nil => simp at hmem
  | cons t ts ih =>
    simp only [List.map_cons, List.nodup_cons] at hnames
    simp only [State.plannedEndpoints, List.flatMap_cons] at ih ⊢
    by_cases ht : t.name = n
    · -- `t` gains the endpoints; the others have other names
      have hrest : ts.flatMap (fun u => endpointsOf (st'.current u)) =
          ts.flatMap (fun u => endpointsOf (st.current u)) := by
        apply List.flatMap_congr
        intro u hu
        rw [hother u (List.mem_cons_of_mem _ hu) fun hu' => hnames.1 (ht ▸ hu' ▸
          List.mem_map_of_mem hu)]
      rw [hat t List.mem_cons_self ht, hrest, List.append_assoc, List.append_assoc]
      exact List.Perm.append_left _ List.perm_append_comm
    · have hmem' : n ∈ ts.map EndpointSlice.name := by
        rcases List.mem_cons.mp hmem with h | h
        · exact absurd h.symm ht
        · exact h
      rw [hother t List.mem_cons_self ht, List.append_assoc]
      exact (ih hnames.2 hmem' (fun u hu => hother u (List.mem_cons_of_mem _ hu))
        fun u hu => hat u (List.mem_cons_of_mem _ hu)).append_left _

omit [DecidableEq κ] in
/-- `plannedEndpoints_perm`, with the endpoints of other slices after the planned ones. -/
theorem plannedEndpoints_append_perm (hnames : (seen.map EndpointSlice.name).Nodup) {n : String}
    {extra tail : List α} (hmem : n ∈ seen.map EndpointSlice.name)
    (hother : ∀ t ∈ seen, t.name ≠ n → st'.current t = st.current t)
    (hat : ∀ t ∈ seen, t.name = n →
      endpointsOf (st'.current t) = endpointsOf (st.current t) ++ extra) :
    (st'.plannedEndpoints seen ++ tail).Perm (st.plannedEndpoints seen ++ tail ++ extra) := by
  refine ((plannedEndpoints_perm hnames hmem hother hat).append_right tail).trans ?_
  rw [List.append_assoc, List.append_assoc]
  exact List.Perm.append_left _ List.perm_append_comm

variable {desiredSet : EndpointSet hash}

omit [DecidableEq κ] in
/-- Moving a prefix of the desired set left into the planned slices keeps the conservation. -/
theorem conserved_of_move {slicesToCreate slicesToCreate' : List (EndpointSlice α)}
    {extra : List α} (hC : Conserved desiredSet seen st slicesToCreate)
    (hplanned : (st'.plannedEndpoints seen ++ slicesToCreate'.flatMap EndpointSlice.endpoints).Perm
      (st.plannedEndpoints seen ++ slicesToCreate.flatMap EndpointSlice.endpoints ++ extra))
    (hdesired : extra ++ st'.desiredSet.entries = st.desiredSet.entries) :
    Conserved desiredSet seen st' slicesToCreate' := by
  unfold Conserved at hC ⊢
  -- the endpoints moved come out of the desired set left
  have hsplit : (st.plannedEndpoints seen ++ slicesToCreate.flatMap EndpointSlice.endpoints ++
      extra).map hash ++ st'.desiredSet.entries.map hash =
      (st.plannedEndpoints seen ++ slicesToCreate.flatMap EndpointSlice.endpoints).map hash ++
        st.desiredSet.entries.map hash := by
    rw [← hdesired]
    simp
  exact ((hplanned.map hash).append_right _).trans (hsplit ▸ hC)

/-- Filling a slice to update keeps how it stands to its existing slice. -/
theorem UpdateOf.fill {equalBeyondHash : α → α → Bool} {maxEndpointsPerSlice : Nat}
    {existingSlice slice : EndpointSlice α} {pool : EndpointSet hash}
    (hu : UpdateOf desiredSet equalBeyondHash maxEndpointsPerSlice existingSlice slice)
    (hsub : pool.entries ⊆ desiredSet.entries) :
    UpdateOf desiredSet equalBeyondHash maxEndpointsPerSlice existingSlice
      { slice with endpoints := (fill maxEndpointsPerSlice slice.endpoints pool).1 } := by
  have hlen := hu.length_le
  refine ⟨hu.name, ?_, fun hnil => ?_, fun e he => ?_⟩
  · simp only [fill_endpoints, List.length_append, List.length_take]
    omega
  · simp only [fill_endpoints, List.append_eq_nil_iff] at hnil
    exact hu.nonempty hnil.1
  · simp only [fill_endpoints, List.mem_append] at he
    rcases he with he | he
    · exact hu.versions e he
    · exact .inl (hsub (List.mem_of_mem_take he))

end Moves

/-! ## The first loop keeps the invariants -/

section FirstLoopRun

variable {desiredSet : EndpointSet hash} {equalBeyondHash : α → α → Bool}
  {maxEndpointsPerSlice : Nat} {service : Service} {seen : List (EndpointSlice α)}
  {st : State α hash} {s : EndpointSlice α}

theorem planned_reconcileExisting
    (hP : Planned desiredSet equalBeyondHash maxEndpointsPerSlice seen st)
    (hfresh : s.name ∉ seen.map EndpointSlice.name) :
    Planned desiredSet equalBeyondHash maxEndpointsPerSlice (seen ++ [s])
      (reconcileExisting equalBeyondHash service st s) := by
  have hfresh' : s.name ∉ st.names := fun h => hfresh ((hP.mem_names _).mp h)
  have hnames : (reconcileExisting equalBeyondHash service st s).names.Perm
      (st.names ++ [s.name]) := reconcileExisting_names hfresh'
  have hnodup : (reconcileExisting equalBeyondHash service st s).names.Nodup :=
    hnames.nodup_iff.mpr (by simpa using hP.nodup.concat hfresh')
  have hself := reconcileExisting_self equalBeyondHash service st s maxEndpointsPerSlice
    hP.desired_sublist.subset
  -- an existing slice seen before has another name, which the turn does not touch
  have hother : ∀ t ∈ seen, t.name ≠ s.name := fun t ht heq =>
    hfresh (heq ▸ List.mem_map_of_mem ht)
  refine ⟨hnodup, fun n => ?_, fun n slice h => ?_, fun t ht hmem => ?_, fun t ht hmem => ?_,
    fun t ht hmem => ?_, ?_⟩
  · simp [hnames.mem_iff, hP.mem_names, or_comm]
  · by_cases hn : n = s.name
    · subst hn
      rcases hself with ⟨-, hmap, -⟩ | ⟨-, u, hmap, hu, -⟩ | ⟨-, hmap, -⟩ <;>
        rw [hmap] at h <;> cases h
      · rfl
      · exact hu.name
      · rfl
    · rw [(reconcileExisting_frame equalBeyondHash service st s hn).1] at h
      exact hP.byName_name n slice h
  · rcases List.mem_append.mp ht with ht | ht
    · obtain ⟨hmap, hupdate, -, -⟩ :=
        reconcileExisting_frame equalBeyondHash service st s (hother t ht)
      rw [hmap]
      exact hP.update t ht (hupdate.mp hmem)
    · obtain rfl := List.mem_singleton.mp ht
      rcases hself with ⟨hdelete, -⟩ | ⟨-, u, hmap, hu, -⟩ | ⟨hunchanged, -⟩
      · exact absurd hmem (State.not_mem_of_mem_delete hnodup hdelete).1
      · exact ⟨u, hmap, hu⟩
      · exact absurd hmem (State.not_mem_of_mem_unchanged hnodup hunchanged).1
  · rcases List.mem_append.mp ht with ht | ht
    · obtain ⟨hmap, -, hunchanged, -⟩ :=
        reconcileExisting_frame equalBeyondHash service st s (hother t ht)
      rw [hmap]
      exact hP.unchanged t ht (hunchanged.mp hmem)
    · obtain rfl := List.mem_singleton.mp ht
      rcases hself with ⟨hdelete, -⟩ | ⟨hupdate, -⟩ | ⟨-, hmap, hstale, -⟩
      · exact absurd hmem (State.not_mem_of_mem_delete hnodup hdelete).2
      · exact absurd hmem (State.not_mem_of_mem_update hnodup hupdate).1
      · exact ⟨hmap, hstale⟩
  · rcases List.mem_append.mp ht with ht | ht
    · obtain ⟨hmap, -, -, hdelete⟩ :=
        reconcileExisting_frame equalBeyondHash service st s (hother t ht)
      rw [hmap]
      exact hP.delete t ht (hdelete.mp hmem)
    · obtain rfl := List.mem_singleton.mp ht
      rcases hself with ⟨-, hmap, -⟩ | ⟨hupdate, -⟩ | ⟨hunchanged, -⟩
      · simp [hmap]
      · exact absurd hmem (State.not_mem_of_mem_update hnodup hupdate).2
      · exact absurd hmem (State.not_mem_of_mem_unchanged hnodup hunchanged).2
  · rw [reconcileExisting_desiredSet, keepDesired_entries]
    exact List.filter_sublist.trans hP.desired_sublist

/-- The endpoints that stand for the slice the turn is over have the hashes it keeps. -/
theorem reconcileExisting_current_self
    (hP : Planned desiredSet equalBeyondHash maxEndpointsPerSlice seen st)
    (hfresh : s.name ∉ seen.map EndpointSlice.name) :
    (endpointsOf ((reconcileExisting equalBeyondHash service st s).current s)).map hash =
      (keepDesired equalBeyondHash st.desiredSet s.endpoints).1.map hash := by
  have hP' : Planned desiredSet equalBeyondHash maxEndpointsPerSlice (seen ++ [s])
      (reconcileExisting equalBeyondHash service st s) := planned_reconcileExisting hP hfresh
  have hnodup := hP'.nodup
  rcases reconcileExisting_self equalBeyondHash service st s maxEndpointsPerSlice
      hP.desired_sublist.subset with
    ⟨hdelete, -, hnil⟩ | ⟨hupdate, u, hmap, -, hhash⟩ | ⟨hunchanged, -, -, hhash⟩
  · rw [State.current_of_mem_delete hdelete, hnil]
    rfl
  · rw [State.current_of_mem_update hnodup hupdate, hmap]
    exact hhash
  · rw [State.current_of_mem_unchanged hnodup hunchanged]
    exact hhash

theorem conserved_reconcileExisting
    (hP : Planned desiredSet equalBeyondHash maxEndpointsPerSlice seen st)
    (hC : Conserved desiredSet seen st []) (hfresh : s.name ∉ seen.map EndpointSlice.name) :
    Conserved desiredSet (seen ++ [s]) (reconcileExisting equalBeyondHash service st s) [] := by
  -- the slices seen before stand as they did; the new one for the endpoints it keeps
  have hplanned : (reconcileExisting equalBeyondHash service st s).plannedEndpoints (seen ++ [s]) =
      st.plannedEndpoints seen ++
        endpointsOf ((reconcileExisting equalBeyondHash service st s).current s) := by
    simp only [State.plannedEndpoints, List.flatMap_append, List.flatMap_singleton]
    congr 1
    apply List.flatMap_congr
    intro t ht
    rw [reconcileExisting_current_of_ne fun heq => hfresh (heq ▸ List.mem_map_of_mem ht)]
  have hkept := (keepDesired_perm equalBeyondHash st.desiredSet s.endpoints).map hash
  unfold Conserved at hC ⊢
  rw [hplanned, reconcileExisting_desiredSet]
  simp only [List.flatMap_nil, List.append_nil, List.map_append] at hC ⊢
  rw [reconcileExisting_current_self hP hfresh, List.append_assoc, ← List.map_append]
  exact (hkept.append_left _).trans hC

theorem counted_reconcileExisting (hK : Counted desiredSet seen st) :
    Counted desiredSet (seen ++ [s]) (reconcileExisting equalBeyondHash service st s) := by
  have hle := keepDesired_length_le equalBeyondHash st.desiredSet s.endpoints
  have hlen := (keepDesired_perm equalBeyondHash st.desiredSet s.endpoints).length_eq
  rw [List.length_append] at hlen
  refine ⟨?_, ?_⟩
  · rw [reconcileExisting_desiredSet, keepDesired_entries, hK.desired, List.filter_filter]
    apply List.filter_congr
    intro d _
    by_cases hnew : hash d ∈ s.endpoints.map hash <;>
      by_cases hold : hash d ∈ (seen.flatMap EndpointSlice.endpoints).map hash <;>
      simp_all [List.flatMap_append]
  · have hremoved := hK.removed
    simp only [EndpointSet.len] at hremoved hlen ⊢
    rw [reconcileExisting_numRemoved, reconcileExisting_desiredSet, List.flatMap_append,
      List.length_append, List.flatMap_singleton]
    omega

/-- The invariants before the first loop. -/
theorem reconciling_init :
    Planned desiredSet equalBeyondHash maxEndpointsPerSlice [] (State.init desiredSet) ∧
      Conserved desiredSet [] (State.init desiredSet) [] ∧
      Counted desiredSet [] (State.init desiredSet) := by
  refine ⟨⟨by simp [State.names, State.init], by simp [State.names, State.init],
    by simp [State.init], by simp, by simp, by simp, List.Sublist.refl _⟩, ?_, ?_, ?_⟩
  · simp [Conserved, State.plannedEndpoints, State.init]
  · simp [State.init]
  · simp [State.init]

/-- The first loop over the existing slices keeps the three invariants. -/
theorem reconciling_foldl {rest : List (EndpointSlice α)}
    (hnodup : ((seen ++ rest).map EndpointSlice.name).Nodup)
    (h : Planned desiredSet equalBeyondHash maxEndpointsPerSlice seen st ∧
      Conserved desiredSet seen st [] ∧ Counted desiredSet seen st) :
    Planned desiredSet equalBeyondHash maxEndpointsPerSlice (seen ++ rest)
        (rest.foldl (reconcileExisting equalBeyondHash service) st) ∧
      Conserved desiredSet (seen ++ rest)
        (rest.foldl (reconcileExisting equalBeyondHash service) st) [] ∧
      Counted desiredSet (seen ++ rest)
        (rest.foldl (reconcileExisting equalBeyondHash service) st) := by
  induction rest generalizing seen st with
  | nil => simpa using h
  | cons s rest ih =>
    obtain ⟨hP, hC, hK⟩ := h
    have hfresh : s.name ∉ seen.map EndpointSlice.name := by
      simp only [List.map_append, List.map_cons, List.nodup_append, List.nodup_cons] at hnodup
      exact fun hs => hnodup.2.2 s.name hs s.name (List.mem_cons_self) rfl
    rw [List.foldl_cons, ← List.singleton_append, ← List.append_assoc]
    apply ih (by simpa using hnodup)
    exact ⟨planned_reconcileExisting hP hfresh, conserved_reconcileExisting hP hC hfresh,
      counted_reconcileExisting hK⟩

end FirstLoopRun

/-! ## The second loop: filling the slices to update -/

section SecondLoop

variable {desiredSet : EndpointSet hash} {equalBeyondHash : α → α → Bool}
  {maxEndpointsPerSlice : Nat} {existingSlices : List (EndpointSlice α)} {st : State α hash}

/-- A turn of the second loop over a slice to update, as it is in the map. -/
theorem reconciling_fillSlice (hnames : (existingSlices.map EndpointSlice.name).Nodup)
    (hP : Planned desiredSet equalBeyondHash maxEndpointsPerSlice existingSlices st)
    (hC : Conserved desiredSet existingSlices st []) {sliceName : String}
    {slice : EndpointSlice α} (hmap : st.slicesByName sliceName = some slice)
    (hupdate : sliceName ∈ st.sliceNamesToUpdate) :
    Planned desiredSet equalBeyondHash maxEndpointsPerSlice existingSlices
        { st with
          slicesByName := Function.update st.slicesByName sliceName
            (some { slice with endpoints :=
              (fill maxEndpointsPerSlice slice.endpoints st.desiredSet).1 })
          desiredSet := (fill maxEndpointsPerSlice slice.endpoints st.desiredSet).2 } ∧
      Conserved desiredSet existingSlices
        { st with
          slicesByName := Function.update st.slicesByName sliceName
            (some { slice with endpoints :=
              (fill maxEndpointsPerSlice slice.endpoints st.desiredSet).1 })
          desiredSet := (fill maxEndpointsPerSlice slice.endpoints st.desiredSet).2 } [] := by
  have hname : slice.name = sliceName := hP.byName_name _ _ hmap
  have hsub : st.desiredSet.entries ⊆ desiredSet.entries := hP.desired_sublist.subset
  have hdrop : (fill maxEndpointsPerSlice slice.endpoints st.desiredSet).2.entries.Sublist
      st.desiredSet.entries := by
    rw [fill_entries]
    exact List.drop_sublist _ _
  refine ⟨⟨hP.nodup, hP.mem_names, fun n u h => ?_, fun t ht hmem => ?_, fun t ht hmem => ?_,
    fun t ht hmem => ?_, hdrop.trans hP.desired_sublist⟩, ?_⟩
  · by_cases hn : n = sliceName
    · subst hn
      simp only [Function.update_self, Option.some.injEq] at h
      rw [← h]
      exact hname
    · simp only [Function.update_of_ne hn] at h
      exact hP.byName_name n u h
  · by_cases hn : t.name = sliceName
    · -- the slice filled: it stands to its existing slice as before
      obtain ⟨u, hu, hupd⟩ := hP.update t ht hmem
      rw [hn, hmap] at hu
      cases hu
      refine ⟨_, ?_, hupd.fill hsub⟩
      simp [hn]
    · simpa [Function.update_of_ne hn] using hP.update t ht hmem
  · have hn : t.name ≠ sliceName := fun h =>
      (State.not_mem_of_mem_update hP.nodup hupdate).1 (h ▸ hmem)
    simpa [Function.update_of_ne hn] using hP.unchanged t ht hmem
  · have hn : t.name ≠ sliceName := fun h =>
      (State.not_mem_of_mem_update hP.nodup hupdate).2 (h ▸ hmem)
    simpa [Function.update_of_ne hn] using hP.delete t ht hmem
  · apply conserved_of_move hC _ (by rw [fill_endpoints, fill_entries, List.take_append_drop])
    simp only [List.flatMap_nil, List.append_nil]
    apply plannedEndpoints_perm hnames
      ((hP.mem_names sliceName).mp (by simp [State.names, hupdate]))
    · intro t _ hn
      simp [State.current, Function.update_of_ne hn]
    · intro t _ hn
      simp [State.current, (State.not_mem_of_mem_update hP.nodup hupdate).2, hupdate, hmap, hn,
        fill_endpoints, endpointsOf]

/-- The second loop, over slices to update each under its name, keeps the invariants. -/
theorem reconciling_fillSlices (hnames : (existingSlices.map EndpointSlice.name).Nodup)
    {slices : List (String × EndpointSlice α)} (hslices : (slices.map Prod.fst).Nodup)
    (hmap : ∀ p ∈ slices, st.slicesByName p.1 = some p.2 ∧ p.1 ∈ st.sliceNamesToUpdate)
    (h : Planned desiredSet equalBeyondHash maxEndpointsPerSlice existingSlices st ∧
      Conserved desiredSet existingSlices st []) :
    Planned desiredSet equalBeyondHash maxEndpointsPerSlice existingSlices
        (fillSlices maxEndpointsPerSlice st slices) ∧
      Conserved desiredSet existingSlices (fillSlices maxEndpointsPerSlice st slices) [] := by
  induction slices generalizing st with
  | nil => exact h
  | cons p slices ih =>
    obtain ⟨sliceName, slice⟩ := p
    simp only [List.map_cons, List.nodup_cons] at hslices
    obtain ⟨hp, hupdate⟩ := hmap _ List.mem_cons_self
    apply ih hslices.2 _ (reconciling_fillSlice hnames h.1 h.2 hp hupdate)
    -- the other slices of the list have other names, which the turn does not touch
    intro q hq
    have hne : q.1 ≠ sliceName := fun heq => hslices.1 (heq ▸ List.mem_map_of_mem hq)
    simpa [Function.update_of_ne hne] using hmap q (List.mem_cons_of_mem _ hq)

theorem fillSlices_numRemoved (maxEndpointsPerSlice : Nat) (st : State α hash)
    (slices : List (String × EndpointSlice α)) :
    (fillSlices maxEndpointsPerSlice st slices).numRemoved = st.numRemoved := by
  induction slices generalizing st with
  | nil => rfl
  | cons p slices ih => exact ih _

variable {unsortedList : List String → List String}

/-- The second step keeps the invariants, in whatever order the slices to update are listed. -/
theorem reconciling_fillSlicesToUpdate (hlist : ∀ names, (unsortedList names).Perm names)
    (hnames : (existingSlices.map EndpointSlice.name).Nodup)
    (h : Planned desiredSet equalBeyondHash maxEndpointsPerSlice existingSlices st ∧
      Conserved desiredSet existingSlices st []) :
    Planned desiredSet equalBeyondHash maxEndpointsPerSlice existingSlices
        (fillSlicesToUpdate unsortedList maxEndpointsPerSlice st) ∧
      Conserved desiredSet existingSlices
        (fillSlicesToUpdate unsortedList maxEndpointsPerSlice st) [] := by
  unfold fillSlicesToUpdate
  split_ifs
  · -- the pairs listed are the slices to update under their names, each name once
    have hkey : ∀ n ∈ unsortedList st.sliceNamesToUpdate, ∀ p : String × EndpointSlice α,
        (st.slicesByName n).map (fun slice => (n, slice)) = some p → p.1 = n := by
      intro n _ p hp
      obtain ⟨slice, -, rfl⟩ := Option.map_eq_some_iff.mp hp
      rfl
    have hupdate_nodup : st.sliceNamesToUpdate.Nodup := by
      have hnodup := h.1.nodup
      simp only [State.names, List.nodup_append] at hnodup
      exact hnodup.1.1
    -- `sort.Sort` only reorders them
    have hsorted : (Go.sort ((unsortedList st.sliceNamesToUpdate).filterMap fun sliceName =>
        (st.slicesByName sliceName).map fun slice => (sliceName, slice))
        fun a b => decide (a.2.endpoints.length > b.2.endpoints.length)).Perm
        ((unsortedList st.sliceNamesToUpdate).filterMap fun sliceName =>
          (st.slicesByName sliceName).map fun slice => (sliceName, slice)) :=
      Go.sliceStable_perm _ _
    apply reconciling_fillSlices hnames _ _ h
    · rw [(hsorted.map Prod.fst).nodup_iff, map_filterMap_of_key hkey]
      exact ((hlist _).nodup_iff.mpr hupdate_nodup).filter _
    · intro p hp
      obtain ⟨n, hn, hp⟩ := List.mem_filterMap.mp (hsorted.subset hp)
      obtain ⟨slice, hslice, rfl⟩ := Option.map_eq_some_iff.mp hp
      exact ⟨hslice, (hlist _).subset hn⟩
  · exact h

theorem fillSlicesToUpdate_numRemoved (maxEndpointsPerSlice : Nat) (st : State α hash) :
    (fillSlicesToUpdate unsortedList maxEndpointsPerSlice st).numRemoved = st.numRemoved := by
  unfold fillSlicesToUpdate
  split_ifs
  · exact fillSlices_numRemoved _ _ _
  · rfl

end SecondLoop

/-! ## The third loop: unchanged slices and new ones -/

section ThirdLoop

variable {desiredSet : EndpointSet hash} {equalBeyondHash : α → α → Bool}
  {maxEndpointsPerSlice : Nat} {existingSlices : List (EndpointSlice α)} {st : State α hash}
  {unsortedList : List String → List String}

omit [DecidableEq κ] in
/-- An unchanged slice stands to itself as a slice to update would. -/
theorem UpdateOf.of_stale {slice : EndpointSlice α}
    (hstale : StaleOf desiredSet equalBeyondHash slice.endpoints) :
    UpdateOf desiredSet equalBeyondHash maxEndpointsPerSlice slice slice :=
  ⟨rfl, le_max_right _ _, id, fun e he => .inr (hstale e he)⟩

omit [DecidableEq κ] in
/-- The slice the third step fills, when it is not a new one, is an unchanged existing slice
that all the endpoints left fit in. -/
theorem sliceToFill_spec (hlist : ∀ names, (unsortedList names).Perm names)
    (hP : Planned desiredSet equalBeyondHash maxEndpointsPerSlice existingSlices st)
    {slice : EndpointSlice α}
    (h : (if st.desiredSet.len < maxEndpointsPerSlice ∧ st.sliceNamesUnchanged.length > 0 then
        getSliceToFill ((unsortedList st.sliceNamesUnchanged).filterMap st.slicesByName)
          st.desiredSet.len maxEndpointsPerSlice
      else none) = some slice) :
    slice ∈ existingSlices ∧ slice.name ∈ st.sliceNamesUnchanged ∧
      st.desiredSet.len + slice.endpoints.length ≤ maxEndpointsPerSlice := by
  split_ifs at h
  obtain ⟨hmem, hfit⟩ := getSliceToFill_eq_some h
  obtain ⟨n, hn, hslice⟩ := List.mem_filterMap.mp hmem
  have hunchanged : n ∈ st.sliceNamesUnchanged := (hlist _).subset hn
  obtain ⟨s, hs, rfl⟩ := List.mem_map.mp
    ((hP.mem_names n).mp (by simp [State.names, hunchanged]))
  obtain ⟨hmap, -⟩ := hP.unchanged s hs hunchanged
  rw [hmap] at hslice
  cases hslice
  exact ⟨hs, hunchanged, by omega⟩

variable {service : Service} {endpointMeta : EndpointMeta}
  {slicesToCreate : List (EndpointSlice α)}

/-- A turn of the third loop keeps the invariants, and moves one desired endpoint at least. -/
theorem reconciling_fillOrCreate (service : Service) (endpointMeta : EndpointMeta)
    (hlist : ∀ names, (unsortedList names).Perm names)
    (hnames : (existingSlices.map EndpointSlice.name).Nodup)
    (hnamed : ∀ s ∈ existingSlices, s.name ≠ "") (hpos : 0 < maxEndpointsPerSlice)
    (hleft : 0 < st.desiredSet.len)
    (h : Planned desiredSet equalBeyondHash maxEndpointsPerSlice existingSlices st ∧
      Conserved desiredSet existingSlices st slicesToCreate ∧
      CreatedOf desiredSet maxEndpointsPerSlice slicesToCreate) :
    Planned desiredSet equalBeyondHash maxEndpointsPerSlice existingSlices
        (fillOrCreate unsortedList maxEndpointsPerSlice service endpointMeta st
          slicesToCreate).1 ∧
      Conserved desiredSet existingSlices
        (fillOrCreate unsortedList maxEndpointsPerSlice service endpointMeta st slicesToCreate).1
        (fillOrCreate unsortedList maxEndpointsPerSlice service endpointMeta st
          slicesToCreate).2 ∧
      CreatedOf desiredSet maxEndpointsPerSlice
        (fillOrCreate unsortedList maxEndpointsPerSlice service endpointMeta st
          slicesToCreate).2 ∧
      (fillOrCreate unsortedList maxEndpointsPerSlice service endpointMeta st
        slicesToCreate).1.desiredSet.len < st.desiredSet.len := by
  obtain ⟨hP, hC, hcreated⟩ := h
  have hsub : st.desiredSet.entries ⊆ desiredSet.entries := hP.desired_sublist.subset
  have hdrop : ∀ k, (st.desiredSet.entries.drop k).Sublist desiredSet.entries := fun k =>
    (List.drop_sublist _ _).trans hP.desired_sublist
  simp only [EndpointSet.len] at hleft
  cases hchosen : (if st.desiredSet.len < maxEndpointsPerSlice ∧
      st.sliceNamesUnchanged.length > 0 then
      getSliceToFill ((unsortedList st.sliceNamesUnchanged).filterMap st.slicesByName)
        st.desiredSet.len maxEndpointsPerSlice
    else none) with
  | none =>
    -- a new slice, without a name, holds the first endpoints left, as many as fit
    simp only [fillOrCreate, hchosen, Option.getD_none, Option.isSome_none, Bool.false_eq_true,
      if_false]
    have hname : (newEndpointSlice service endpointMeta : EndpointSlice α).name = "" := rfl
    have hempty : (newEndpointSlice service endpointMeta : EndpointSlice α).endpoints = [] := rfl
    simp only [hname, ne_eq, not_true_eq_false, if_false, hempty, fill_endpoints,
      List.nil_append, List.length_nil, Nat.sub_zero]
    refine ⟨⟨hP.nodup, hP.mem_names, hP.byName_name, hP.update, hP.unchanged, hP.delete,
      by simpa only [fill_entries] using hdrop _⟩, ?_, ?_, ?_⟩
    · apply conserved_of_move hC _ (by simp only [fill_entries]; exact List.take_append_drop _ _)
      simp only [List.flatMap_append, List.flatMap_singleton, List.append_assoc]
      rfl
    · intro c hc
      rcases List.mem_append.mp hc with hc | hc
      · exact hcreated c hc
      · obtain rfl := List.mem_singleton.mp hc
        refine ⟨rfl, ?_, ?_, fun e he => hsub (List.mem_of_mem_take he)⟩
        · simp only [List.length_take]
          omega
        · simp only [List.length_take]
          omega
    · simp only [EndpointSet.len, fill_entries, List.length_drop, List.length_nil, Nat.sub_zero]
      omega
  | some slice =>
    -- an unchanged slice that the endpoints left fit in takes them all
    obtain ⟨hs, hunchanged, hfit⟩ := sliceToFill_spec hlist hP hchosen
    simp only [EndpointSet.len] at hfit
    obtain ⟨hmap, hstale⟩ := hP.unchanged slice hs hunchanged
    have hnamed' := hnamed slice hs
    obtain ⟨hnot_update, hnot_delete⟩ := State.not_mem_of_mem_unchanged hP.nodup hunchanged
    simp only [fillOrCreate, hchosen, Option.getD_some, Option.isSome_some, if_true, ne_eq,
      hnamed', not_false_eq_true, insertName_of_not_mem hnot_update]
    have hunchanged_nodup : st.sliceNamesUnchanged.Nodup := by
      have hnodup := hP.nodup
      simp only [State.names, List.nodup_append] at hnodup
      exact hnodup.1.2.1
    -- the name moves from the unchanged slices to those to update
    have hnames' : (st.sliceNamesToUpdate ++ [slice.name] ++
        st.sliceNamesUnchanged.erase slice.name ++ st.sliceNamesToDelete).Perm st.names := by
      simp only [State.names, List.append_assoc]
      refine List.Perm.append_left _ ?_
      rw [← List.append_assoc]
      exact ((List.perm_cons_erase hunchanged).symm).append_right _
    have hnodup' := hnames'.nodup_iff.mpr hP.nodup
    have hfilled : UpdateOf desiredSet equalBeyondHash maxEndpointsPerSlice slice
        { slice with endpoints := (fill maxEndpointsPerSlice slice.endpoints st.desiredSet).1 } :=
      (UpdateOf.of_stale hstale).fill hsub
    refine ⟨⟨hnodup', fun n => ?_, fun n u hu => ?_, fun t ht hmem => ?_, fun t ht hmem => ?_,
      fun t ht hmem => ?_, by simpa only [fill_entries] using hdrop _⟩, ?_, hcreated, ?_⟩
    · rw [State.names, hnames'.mem_iff]
      exact hP.mem_names n
    · by_cases hn : n = slice.name
      · subst hn
        simp only [Function.update_self, Option.some.injEq] at hu
        rw [← hu]
      · simp only [Function.update_of_ne hn] at hu
        exact hP.byName_name n u hu
    · by_cases hn : t.name = slice.name
      · -- the existing slice of that name is the one filled
        obtain rfl : t = slice :=
          List.inj_on_of_nodup_map hnames ht hs hn
        exact ⟨_, by simp, hfilled⟩
      · simp only [List.mem_append, List.mem_singleton, hn, or_false] at hmem
        simpa [Function.update_of_ne hn] using hP.update t ht hmem
    · have hn : t.name ≠ slice.name := fun h => by
        simp [h, hunchanged_nodup.mem_erase_iff] at hmem
      have hmem' : t.name ∈ st.sliceNamesUnchanged := (List.mem_of_mem_erase hmem)
      simpa [Function.update_of_ne hn] using hP.unchanged t ht hmem'
    · have hn : t.name ≠ slice.name := fun h => hnot_delete (h ▸ hmem)
      simpa [Function.update_of_ne hn] using hP.delete t ht hmem
    · apply conserved_of_move hC _ (by simp only [fill_entries]; exact List.take_append_drop _ _)
      refine plannedEndpoints_append_perm hnames (List.mem_map_of_mem hs) (fun t _ hn => ?_)
        fun t ht hn => ?_
      · simp [State.current, List.mem_append, hn]
      · obtain rfl : t = slice := List.inj_on_of_nodup_map hnames ht hs hn
        rw [State.current_of_mem_unchanged hP.nodup hunchanged]
        simp [State.current, hnot_delete, endpointsOf, fill_endpoints]
    · simp only [EndpointSet.len, fill_entries, List.length_drop]
      omega

/-- The third loop keeps the invariants and ends with no desired endpoint left. -/
theorem reconciling_fillOrCreateLoop (service : Service) (endpointMeta : EndpointMeta)
    (hlist : ∀ names, (unsortedList names).Perm names)
    (hnames : (existingSlices.map EndpointSlice.name).Nodup)
    (hnamed : ∀ s ∈ existingSlices, s.name ≠ "") (hpos : 0 < maxEndpointsPerSlice)
    {fuel : Nat}
    (hfuel : st.desiredSet.len ≤ fuel)
    (h : Planned desiredSet equalBeyondHash maxEndpointsPerSlice existingSlices st ∧
      Conserved desiredSet existingSlices st slicesToCreate ∧
      CreatedOf desiredSet maxEndpointsPerSlice slicesToCreate) :
    Planned desiredSet equalBeyondHash maxEndpointsPerSlice existingSlices
        (fillOrCreateLoop unsortedList maxEndpointsPerSlice service endpointMeta fuel st
          slicesToCreate).1 ∧
      Conserved desiredSet existingSlices
        (fillOrCreateLoop unsortedList maxEndpointsPerSlice service endpointMeta fuel st
          slicesToCreate).1
        (fillOrCreateLoop unsortedList maxEndpointsPerSlice service endpointMeta fuel st
          slicesToCreate).2 ∧
      CreatedOf desiredSet maxEndpointsPerSlice
        (fillOrCreateLoop unsortedList maxEndpointsPerSlice service endpointMeta fuel st
          slicesToCreate).2 ∧
      (fillOrCreateLoop unsortedList maxEndpointsPerSlice service endpointMeta fuel st
        slicesToCreate).1.desiredSet.entries = [] := by
  induction fuel generalizing st slicesToCreate with
  | zero =>
    exact ⟨h.1, h.2.1, h.2.2, List.eq_nil_of_length_eq_zero (Nat.le_zero.mp hfuel)⟩
  | succ fuel ih =>
    by_cases hleft : st.desiredSet.len > 0
    · -- one turn moves an endpoint at least, so the fuel left is enough
      obtain ⟨hP, hC, hcreated, hlt⟩ :=
        reconciling_fillOrCreate service endpointMeta hlist hnames hnamed hpos hleft h
      simp only [fillOrCreateLoop, hleft, if_true]
      exact ih (by omega) ⟨hP, hC, hcreated⟩
    · simp only [fillOrCreateLoop, hleft, if_false]
      exact ⟨h.1, h.2.1, h.2.2,
        List.eq_nil_of_length_eq_zero (by simpa [EndpointSet.len] using hleft)⟩

theorem fillOrCreateLoop_numRemoved (maxEndpointsPerSlice fuel : Nat) (st : State α hash)
    (slicesToCreate : List (EndpointSlice α)) :
    (fillOrCreateLoop unsortedList maxEndpointsPerSlice service endpointMeta fuel st
      slicesToCreate).1.numRemoved = st.numRemoved := by
  induction fuel generalizing st slicesToCreate with
  | zero => rfl
  | succ fuel ih =>
    simp only [fillOrCreateLoop]
    split_ifs
    · rw [ih]
      simp only [fillOrCreate]
      split_ifs <;> rfl
    · rfl

end ThirdLoop

/-! ## The plan -/

section Plan

omit [DecidableEq κ] in
/-- The planned endpoints are those of the slices that stand for the existing ones. -/
theorem plannedEndpoints_eq_flatMap (st : State α hash)
    (existingSlices : List (EndpointSlice α)) :
    st.plannedEndpoints existingSlices =
      (existingSlices.filterMap st.current).flatMap EndpointSlice.endpoints := by
  induction existingSlices with
  | nil => rfl
  | cons s rest ih =>
    simp only [State.plannedEndpoints] at ih ⊢
    cases hcurrent : st.current s
    · rw [List.flatMap_cons, ih, List.filterMap_cons, hcurrent]
      rfl
    · rw [List.flatMap_cons, ih, List.filterMap_cons, hcurrent, List.flatMap_cons]
      rfl

variable {desiredSet : EndpointSet hash} {equalBeyondHash : α → α → Bool}
  {maxEndpointsPerSlice : Nat} {existingSlices : List (EndpointSlice α)} {st : State α hash}
  {unsortedList : List String → List String}

omit [DecidableEq κ] in
/-- The slices the plan lists under the names of a set are those of the map, one for each name
of the set. -/
theorem map_name_filterMap (hP : Planned desiredSet equalBeyondHash maxEndpointsPerSlice
      existingSlices st)
    {names : List String} (hsome : ∀ n ∈ names, (st.slicesByName n).isSome) :
    (names.filterMap st.slicesByName).map EndpointSlice.name = names := by
  rw [map_filterMap_of_key fun n _ slice h => hP.byName_name n slice h]
  exact List.filter_eq_self.mpr fun n hn => hsome n hn

/-- What `reconcileByPortMapping` plans.  The updates and the deletes name distinct existing
slices, and the new slices have no name.  Once the calls are made, each desired hash is in
exactly one slice, once, and no other hash is.  A new slice holds between one and a slice's worth
of desired endpoints.  A slice to update holds desired endpoints and endpoints equal to the desired
one beyond their hash; it is no larger than a full slice or the existing one, and empty only when
the existing one is.  An existing slice left alone holds endpoints equal to the desired ones beyond
their hash.  The counts are those of the desired endpoints not found in the existing slices and of
the endpoints of the existing slices not kept. -/
structure Reconciled (desiredSet : EndpointSet hash) (equalBeyondHash : α → α → Bool)
    (maxEndpointsPerSlice : Nat)
    (existingSlices slicesToCreate slicesToUpdate slicesToDelete : List (EndpointSlice α))
    (numAdded numRemoved : Nat) : Prop where
  update_names : ∀ u ∈ slicesToUpdate, u.name ∈ existingSlices.map EndpointSlice.name
  delete_names : ∀ x ∈ slicesToDelete, x.name ∈ existingSlices.map EndpointSlice.name
  names_nodup :
    (slicesToUpdate.map EndpointSlice.name ++ slicesToDelete.map EndpointSlice.name).Nodup
  create_unnamed : ∀ c ∈ slicesToCreate, c.name = ""
  partition : (((applyChanges existingSlices slicesToCreate slicesToUpdate slicesToDelete).flatMap
    EndpointSlice.endpoints).map hash).Perm (desiredSet.entries.map hash)
  create_desired : ∀ c ∈ slicesToCreate, ∀ e ∈ c.endpoints, e ∈ desiredSet.entries
  update_versions : ∀ u ∈ slicesToUpdate, ∀ e ∈ u.endpoints,
    Versioned desiredSet equalBeyondHash e
  untouched_stale : ∀ s ∈ existingSlices, s.name ∉ slicesToUpdate.map EndpointSlice.name →
    s.name ∉ slicesToDelete.map EndpointSlice.name →
      StaleOf desiredSet equalBeyondHash s.endpoints
  create_size : ∀ c ∈ slicesToCreate,
    0 < c.endpoints.length ∧ c.endpoints.length ≤ maxEndpointsPerSlice
  update_size : ∀ u ∈ slicesToUpdate, ∃ s ∈ existingSlices, s.name = u.name ∧
    u.endpoints.length ≤ max maxEndpointsPerSlice s.endpoints.length ∧
    (u.endpoints = [] → s.endpoints = [])
  added : numAdded = (desiredSet.entries.filter fun d =>
    hash d ∉ (existingSlices.flatMap EndpointSlice.endpoints).map hash).length
  removed : numRemoved = (existingSlices.flatMap EndpointSlice.endpoints).length -
    (desiredSet.entries.filter fun d =>
      hash d ∈ (existingSlices.flatMap EndpointSlice.endpoints).map hash).length

/-- The slices of the last state, listed under the names of the sets, are a plan as `Reconciled`
says, once no desired endpoint is left. -/
theorem reconciled_of_planned (hlist : ∀ names, (unsortedList names).Perm names)
    (hnames : (existingSlices.map EndpointSlice.name).Nodup)
    {slicesToCreate : List (EndpointSlice α)} {numAdded numRemoved : Nat}
    (hP : Planned desiredSet equalBeyondHash maxEndpointsPerSlice existingSlices st)
    (hC : Conserved desiredSet existingSlices st slicesToCreate)
    (hcreated : CreatedOf desiredSet maxEndpointsPerSlice slicesToCreate)
    (hempty : st.desiredSet.entries = [])
    (hadded : numAdded = (desiredSet.entries.filter fun d =>
      hash d ∉ (existingSlices.flatMap EndpointSlice.endpoints).map hash).length)
    (hremoved : numRemoved = (existingSlices.flatMap EndpointSlice.endpoints).length -
      (desiredSet.entries.filter fun d =>
        hash d ∈ (existingSlices.flatMap EndpointSlice.endpoints).map hash).length) :
    Reconciled desiredSet equalBeyondHash maxEndpointsPerSlice existingSlices slicesToCreate
      ((unsortedList st.sliceNamesToUpdate).filterMap st.slicesByName)
      ((unsortedList st.sliceNamesToDelete).filterMap st.slicesByName) numAdded numRemoved := by
  -- every name of a set names an existing slice, which the map holds
  have hexisting : ∀ n ∈ st.names, ∃ s ∈ existingSlices, s.name = n := fun n hn =>
    List.mem_map.mp ((hP.mem_names n).mp hn)
  have hupdate_some : ∀ n ∈ unsortedList st.sliceNamesToUpdate, (st.slicesByName n).isSome := by
    intro n hn
    have hn' := (hlist _).subset hn
    obtain ⟨s, hs, rfl⟩ := hexisting n (by simp [State.names, hn'])
    obtain ⟨u, hu, -⟩ := hP.update s hs hn'
    simp [hu]
  have hdelete_some : ∀ n ∈ unsortedList st.sliceNamesToDelete, (st.slicesByName n).isSome := by
    intro n hn
    have hn' := (hlist _).subset hn
    obtain ⟨s, hs, rfl⟩ := hexisting n (by simp [State.names, hn'])
    exact hP.delete s hs hn'
  have hupdate_names : ∀ n, n ∈ ((unsortedList st.sliceNamesToUpdate).filterMap
      st.slicesByName).map EndpointSlice.name ↔ n ∈ st.sliceNamesToUpdate := by
    rw [map_name_filterMap hP hupdate_some]
    exact fun n => (hlist _).mem_iff
  have hdelete_names : ∀ n, n ∈ ((unsortedList st.sliceNamesToDelete).filterMap
      st.slicesByName).map EndpointSlice.name ↔ n ∈ st.sliceNamesToDelete := by
    rw [map_name_filterMap hP hdelete_some]
    exact fun n => (hlist _).mem_iff
  -- each slice to update stands for the existing slice of its name
  have hupdate : ∀ u ∈ (unsortedList st.sliceNamesToUpdate).filterMap st.slicesByName,
      ∃ s ∈ existingSlices, s.name = u.name ∧ st.current s = some u ∧
        UpdateOf desiredSet equalBeyondHash maxEndpointsPerSlice s u := by
    intro u hu
    obtain ⟨n, hn, hmap⟩ := List.mem_filterMap.mp hu
    have hn' := (hlist _).subset hn
    obtain ⟨s, hs, rfl⟩ := hexisting n (by simp [State.names, hn'])
    obtain ⟨u', hu', hupd⟩ := hP.update s hs hn'
    rw [hmap] at hu'
    cases hu'
    exact ⟨s, hs, (hP.byName_name _ _ hmap).symm,
      by rw [State.current_of_mem_update hP.nodup hn', hmap], hupd⟩
  -- so the calls leave each existing slice as `current` says
  have happly : applyChanges existingSlices slicesToCreate
      ((unsortedList st.sliceNamesToUpdate).filterMap st.slicesByName)
      ((unsortedList st.sliceNamesToDelete).filterMap st.slicesByName) =
      existingSlices.filterMap st.current ++ slicesToCreate := by
    unfold applyChanges
    congr 1
    apply List.filterMap_congr
    intro s hs
    by_cases hdelete : s.name ∈ st.sliceNamesToDelete
    · obtain ⟨x, hx, hxname⟩ := List.mem_map.mp ((hdelete_names s.name).mpr hdelete)
      rw [if_pos (List.any_eq_true.mpr ⟨x, hx, by simp [hxname]⟩),
        State.current_of_mem_delete hdelete]
    · have hnot_any : ¬(((unsortedList st.sliceNamesToDelete).filterMap st.slicesByName).any
          (·.name == s.name)) = true := by
        intro hany
        obtain ⟨x, hx, hxname⟩ := List.any_eq_true.mp hany
        have hxname' : x.name = s.name := by simpa using hxname
        exact hdelete ((hdelete_names _).mp (hxname' ▸ List.mem_map_of_mem hx))
      rw [if_neg hnot_any]
      by_cases hupd : s.name ∈ st.sliceNamesToUpdate
      · -- the update found by name is the one that stands for `s`
        obtain ⟨u, hu, huname⟩ := List.mem_map.mp ((hupdate_names s.name).mpr hupd)
        obtain ⟨found, hfound⟩ := Option.isSome_iff_exists.mp
          (List.find?_isSome.mpr ⟨u, hu, by simp [huname]⟩ :
            (((unsortedList st.sliceNamesToUpdate).filterMap st.slicesByName).find?
              (·.name == s.name)).isSome)
        obtain ⟨s', hs', hname, hcurrent, -⟩ := hupdate found (List.mem_of_find?_eq_some hfound)
        have hname' : found.name = s.name := by simpa using List.find?_some hfound
        obtain rfl : s' = s := List.inj_on_of_nodup_map hnames hs' hs (hname.trans hname')
        rw [hfound, hcurrent]
        rfl
      · have hnone : ((unsortedList st.sliceNamesToUpdate).filterMap st.slicesByName).find?
            (·.name == s.name) = none := by
          apply List.find?_eq_none.mpr
          intro u hu hname
          have hname' : u.name = s.name := by simpa using hname
          exact hupd ((hupdate_names _).mp (hname' ▸ List.mem_map_of_mem hu))
        rw [hnone]
        simp [State.current, hdelete, hupd]
  refine ⟨fun u hu => ?_, fun x hx => ?_, ?_, fun c hc => (hcreated c hc).1, ?_,
    fun c hc => (hcreated c hc).2.2.2, fun u hu => ?_, fun s hs hu hx => ?_,
    fun c hc => ⟨(hcreated c hc).2.1, (hcreated c hc).2.2.1⟩, fun u hu => ?_, hadded,
    hremoved⟩
  · obtain ⟨s, hs, hname, -⟩ := hupdate u hu
    exact hname ▸ List.mem_map_of_mem hs
  · obtain ⟨s, hs, hname⟩ := hexisting x.name
      (by simp [State.names, (hdelete_names _).mp (List.mem_map_of_mem hx)])
    exact hname ▸ List.mem_map_of_mem hs
  · rw [map_name_filterMap hP hupdate_some, map_name_filterMap hP hdelete_some]
    have hnodup := hP.nodup
    simp only [State.names] at hnodup
    refine ((hlist _).append (hlist _)).nodup_iff.mpr (hnodup.sublist ?_)
    exact List.Sublist.append (List.sublist_append_left _ _) (List.Sublist.refl _)
  · rw [happly, List.flatMap_append, ← plannedEndpoints_eq_flatMap]
    simpa [Conserved, hempty] using hC
  · obtain ⟨s, -, -, -, hupd⟩ := hupdate u hu
    exact hupd.versions
  · have hupd : s.name ∉ st.sliceNamesToUpdate := fun h => hu ((hupdate_names _).mpr h)
    have hdel : s.name ∉ st.sliceNamesToDelete := fun h => hx ((hdelete_names _).mpr h)
    have hunchanged : s.name ∈ st.sliceNamesUnchanged := by
      have hmem := (hP.mem_names s.name).mpr (List.mem_map_of_mem hs)
      simp only [State.names, List.mem_append] at hmem
      tauto
    exact (hP.unchanged s hs hunchanged).2
  · obtain ⟨s, hs, hname, -, hupd⟩ := hupdate u hu
    exact ⟨s, hs, hname, hupd.length_le, hupd.nonempty⟩

end Plan

variable {equalBeyondHash : α → α → Bool} {unsortedList : List String → List String}

/-- `reconcileByPortMapping` plans as `Reconciled` says, for existing slices with distinct names
that are not empty, whatever the desired set and its order, and in whatever order Go lists the
name sets. -/
theorem reconcileByPortMapping_reconciled (r : Reconciler) (service : Service)
    (existingSlices : List (EndpointSlice α)) (desiredSet : EndpointSet hash)
    (endpointMeta : EndpointMeta)
    {slicesToCreate slicesToUpdate slicesToDelete : List (EndpointSlice α)}
    {numAdded numRemoved : Nat}
    (hlist : ∀ names, (unsortedList names).Perm names)
    (hnames : (existingSlices.map EndpointSlice.name).Nodup)
    (hnamed : ∀ s ∈ existingSlices, s.name ≠ "")
    (hout : reconcileByPortMapping equalBeyondHash unsortedList r service existingSlices desiredSet
      endpointMeta = (slicesToCreate, slicesToUpdate, slicesToDelete, numAdded, numRemoved)) :
    Reconciled desiredSet equalBeyondHash r.maxEndpointsPerSlice existingSlices slicesToCreate
      slicesToUpdate slicesToDelete numAdded numRemoved := by
  -- the first loop, over the existing slices
  have hfirst : Planned desiredSet equalBeyondHash r.maxEndpointsPerSlice ([] ++ existingSlices)
        (existingSlices.foldl (reconcileExisting equalBeyondHash service)
          (State.init desiredSet)) ∧
      Conserved desiredSet ([] ++ existingSlices)
        (existingSlices.foldl (reconcileExisting equalBeyondHash service)
          (State.init desiredSet)) [] ∧
      Counted desiredSet ([] ++ existingSlices)
        (existingSlices.foldl (reconcileExisting equalBeyondHash service)
          (State.init desiredSet)) :=
    reconciling_foldl (by simpa using hnames) reconciling_init
  simp only [List.nil_append] at hfirst
  obtain ⟨hP₁, hC₁, hK₁⟩ := hfirst
  -- the second, over the slices to update
  obtain ⟨hP₂, hC₂⟩ := reconciling_fillSlicesToUpdate hlist hnames ⟨hP₁, hC₁⟩
  -- the third, over unchanged slices and new ones
  obtain ⟨hP₃, hC₃, hcreated₃, hempty₃⟩ :=
    reconciling_fillOrCreateLoop service endpointMeta hlist hnames hnamed r.pos (le_refl _)
      ⟨hP₂, hC₂, fun c hc => by simp at hc⟩
  simp only [reconcileByPortMapping, Prod.mk.injEq] at hout
  obtain ⟨rfl, rfl, rfl, rfl, rfl⟩ := hout
  apply reconciled_of_planned hlist hnames hP₃ hC₃ hcreated₃ hempty₃
  · rw [EndpointSet.len, hK₁.desired]
  · -- the later loops leave the count of the first
    have hremoved := hK₁.removed
    have hsplit := List.length_eq_length_filter_add (l := desiredSet.entries)
      fun d => decide (hash d ∈ (existingSlices.flatMap EndpointSlice.endpoints).map hash)
    rw [fillOrCreateLoop_numRemoved, fillSlicesToUpdate_numRemoved]
    simp only [EndpointSet.len, hK₁.desired, decide_not] at hremoved hsplit ⊢
    omega

/-- An existing slice with a stale endpoint `4`, three desired endpoints and room for two in a
slice: the slice keeps `1` and is filled with `2`, and `3` goes to a new slice. -/
theorem reconcileByPortMapping_reconciled_refill :
    (∀ names : List String, ((fun names => names) names).Perm names) ∧
      (([⟨"web-a", ∅, [], .ipv4, [1, 4]⟩] : List (EndpointSlice Nat)).map
        EndpointSlice.name).Nodup ∧
      (∀ s ∈ ([⟨"web-a", ∅, [], .ipv4, [1, 4]⟩] : List (EndpointSlice Nat)),
        s.name ≠ "") ∧
      Reconciled (⟨[1, 2, 3], by decide⟩ : EndpointSet (id : Nat → Nat)) (fun _ _ => true) 2
        [⟨"web-a", ∅, [], .ipv4, [1, 4]⟩]
        (reconcileByPortMapping (fun _ _ => true) (fun names => names) ⟨2, by decide⟩
          ⟨"web", "uid", ∅, "10.0.0.1"⟩
          [⟨"web-a", ∅, [], .ipv4, [1, 4]⟩]
          (⟨[1, 2, 3], by decide⟩ : EndpointSet (id : Nat → Nat)) ⟨.ipv4⟩).1
        (reconcileByPortMapping (fun _ _ => true) (fun names => names) ⟨2, by decide⟩
          ⟨"web", "uid", ∅, "10.0.0.1"⟩
          [⟨"web-a", ∅, [], .ipv4, [1, 4]⟩]
          (⟨[1, 2, 3], by decide⟩ : EndpointSet (id : Nat → Nat)) ⟨.ipv4⟩).2.1
        (reconcileByPortMapping (fun _ _ => true) (fun names => names) ⟨2, by decide⟩
          ⟨"web", "uid", ∅, "10.0.0.1"⟩
          [⟨"web-a", ∅, [], .ipv4, [1, 4]⟩]
          (⟨[1, 2, 3], by decide⟩ : EndpointSet (id : Nat → Nat)) ⟨.ipv4⟩).2.2.1
        (reconcileByPortMapping (fun _ _ => true) (fun names => names) ⟨2, by decide⟩
          ⟨"web", "uid", ∅, "10.0.0.1"⟩
          [⟨"web-a", ∅, [], .ipv4, [1, 4]⟩]
          (⟨[1, 2, 3], by decide⟩ : EndpointSet (id : Nat → Nat)) ⟨.ipv4⟩).2.2.2.1
        (reconcileByPortMapping (fun _ _ => true) (fun names => names) ⟨2, by decide⟩
          ⟨"web", "uid", ∅, "10.0.0.1"⟩
          [⟨"web-a", ∅, [], .ipv4, [1, 4]⟩]
          (⟨[1, 2, 3], by decide⟩ : EndpointSet (id : Nat → Nat)) ⟨.ipv4⟩).2.2.2.2 :=
  ⟨fun _ => List.Perm.refl _, by decide, by decide,
    reconcileByPortMapping_reconciled ⟨2, by decide⟩ ⟨"web", "uid", ∅, "10.0.0.1"⟩
      [⟨"web-a", ∅, [], .ipv4, [1, 4]⟩]
          (⟨[1, 2, 3], by decide⟩ : EndpointSet (id : Nat → Nat)) ⟨.ipv4⟩
      (fun names => List.Perm.refl names) (by decide) (by decide)
      (by simp only [Prod.mk.eta])⟩


end EndpointSlice
end Kubernetes
