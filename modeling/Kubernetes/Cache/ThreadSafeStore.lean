import Mathlib
import Kubernetes.FiniteMap.Inverted
import Kubernetes.Transition.Reachable

/-!
# The informer's indexed store: `threadSafeMap`

`client-go/tools/cache/thread_safe_store.go`.  A `threadSafeMap` keeps the informer's objects
under their keys (`items`) together with a `storeIndex`: index functions by name
(`indexers`) and, for each name, an `Index` from every indexed value to the set of keys whose
object has that value (`indices`).  `Add`, `Update`, `Delete` and `Replace` keep the indices
up to date through `updateIndices`, which has a fast path for an object whose single value
did not change and drops the sets it leaves empty; `ByIndex`, `IndexKeys` and `Index` answer
from the indices alone, without looking at the objects.

The main result is that the indices are always exactly what the objects say
(`ThreadSafeMap.Consistent`): it holds of the new store and every call keeps it
(`ThreadSafeMap.consistent_inductive`), so the three queries return exactly the items whose
values match.

Modelling choices:

* Go maps are Mathlib's association lists `AList` (finite maps, whose entries list one
  iteration order); `sets.String` is `Finset String`; a missing map entry reads as Go's nil
  value, the empty index or set (`indicesGet`, `indexGet`).
* An index function is a function `Obj → List String`: the store is specified for
  deterministic index functions that never fail, so the error returns of `IndexFunc` (on
  which `updateIndices` panics and the queries return the error) do not arise.
* Objects are never nil: the store holds `Obj`s, and the `oldObj`/`newObj` arguments of
  `updateIndices` are `Option Obj`, `none` standing for nil.
* `ByIndex` and `Index` list a set in Go's unspecified map order; the model takes the sorted
  order in which `sets.String.List` (and so `IndexKeys`) lists it.
* The lock, and the unused `resourceVersion` argument of `Replace`, are left out; `Get`,
  `List` and `ListKeys` read `items` alone and are not modelled.
-/

namespace Kubernetes
namespace Cache

/-- `IndexFunc`: the values an object is indexed under. -/
abbrev IndexFunc (Obj : Type _) := Obj → List String

/-- `Index`: each indexed value to the keys of the objects indexed under it. -/
abbrev Index := AList fun _ : String => Finset String

/-- `Indexers`: the index functions, by name. -/
abbrev Indexers (Obj : Type _) := AList fun _ : String => IndexFunc Obj

/-- `Indices`: the indices, by the name of their index function. -/
abbrev Indices := AList fun _ : String => Index

/-- `index[indexValue]`: a missing set reads as Go's nil set, which is empty. -/
def indexGet (index : Index) (indexValue : String) : Finset String :=
  (index.lookup indexValue).getD ∅
attribute [grind] indexGet

/-- `i.indices[name]`: a missing index reads as Go's nil map, which is empty. -/
def indicesGet (indices : Indices) (name : String) : Index :=
  (indices.lookup name).getD ∅
attribute [grind] indicesGet

/-- No set of the index is empty. -/
def NoEmptySets (index : Index) : Prop :=
  ∀ indexValue set, index.lookup indexValue = some set → set.Nonempty
attribute [grind] NoEmptySets

/-- No index holds an empty set. -/
def AllSetsNonempty (indices : Indices) : Prop :=
  ∀ name index, indices.lookup name = some index → NoEmptySets index
attribute [grind] AllSetsNonempty

/-- `storeIndex`. -/
structure StoreIndex (Obj : Type _) where
  indexers : Indexers Obj
  indices : Indices

/-- `threadSafeMap`.  The source's field `index` is called `storeIndex` here, after its type,
since `index` names the method `Index`. -/
structure ThreadSafeMap (Obj : Type _) where
  items : AList fun _ : String => Obj
  storeIndex : StoreIndex Obj

variable {Obj : Type _}

/-- `NewThreadSafeStore`. -/
def newThreadSafeStore (indexers : Indexers Obj) (indices : Indices) : ThreadSafeMap Obj :=
  { items := ∅, storeIndex := { indexers := indexers, indices := indices } }
attribute [grind] newThreadSafeStore

namespace StoreIndex

/-- `reset`. -/
def reset (i : StoreIndex Obj) : StoreIndex Obj :=
  { i with indices := ∅ }
attribute [grind] reset

/-- `addKeyToIndex`: a missing set is created. -/
def addKeyToIndex (key indexValue : String) (index : Index) : Index :=
  index.insert indexValue (insert key (indexGet index indexValue))
attribute [grind] addKeyToIndex

/-- `deleteKeyFromIndex`: a set the key leaves empty is removed from the index. -/
def deleteKeyFromIndex (key indexValue : String) (index : Index) : Index :=
  match index.lookup indexValue with
  | none => index
  | some set =>
    if (set.erase key).card = 0 then index.erase indexValue
    else index.insert indexValue (set.erase key)
attribute [grind] deleteKeyFromIndex

/-- The values of an object under an index function; a nil object has none
(`oldIndexValues = oldIndexValues[:0]`). -/
def indexValuesOf (indexFunc : IndexFunc Obj) : Option Obj → List String
  | none => []
  | some obj => indexFunc obj
attribute [grind] indexValuesOf

/-- The body of the loop of `updateIndices`, on the index of one indexer: nothing to do when
the object has one value before and after and it is the same, else the key leaves the sets of
its old values and joins those of its new ones. -/
def updateIndex (key : String) (oldIndexValues indexValues : List String) (index : Index) :
    Index :=
  if indexValues.length = 1 ∧ oldIndexValues.length = 1 ∧ indexValues[0]? = oldIndexValues[0]?
  then index
  else
    let index := oldIndexValues.foldl (fun index value => deleteKeyFromIndex key value index) index
    indexValues.foldl (fun index value => addKeyToIndex key value index) index
attribute [grind] updateIndex

/-- `updateIndices`: the index of every indexer is brought up to date, a missing one being
created empty (`i.indices[name] = index`). -/
def updateIndices (i : StoreIndex Obj) (oldObj newObj : Option Obj) (key : String) :
    StoreIndex Obj :=
  { i with
    indices := i.indexers.entries.foldl (fun indices ⟨name, indexFunc⟩ =>
      indices.insert name
        (updateIndex key (indexValuesOf indexFunc oldObj) (indexValuesOf indexFunc newObj)
          (indicesGet indices name))) i.indices }
attribute [grind] updateIndices

/-- The error of a query on a name without an index function. -/
def noSuchIndex (indexName : String) : String :=
  "Index with name " ++ indexName ++ " does not exist"
attribute [grind] noSuchIndex

/-- `getKeysFromIndex`: the keys indexed under any of the values of `obj`; one value reads
its set directly, several are merged. -/
def getKeysFromIndex (i : StoreIndex Obj) (indexName : String) (obj : Obj) :
    Except String (Finset String) :=
  match i.indexers.lookup indexName with
  | none => .error (noSuchIndex indexName)
  | some indexFunc =>
    let index := indicesGet i.indices indexName
    match indexFunc obj with
    | [indexedValue] => .ok (indexGet index indexedValue)
    | indexedValues =>
      .ok (indexedValues.foldl (fun storeKeySet indexedValue =>
        storeKeySet ∪ indexGet index indexedValue) ∅)
attribute [grind] getKeysFromIndex

/-- `getKeysByIndex`. -/
def getKeysByIndex (i : StoreIndex Obj) (indexName indexedValue : String) :
    Except String (Finset String) :=
  match i.indexers.lookup indexName with
  | none => .error (noSuchIndex indexName)
  | some _ => .ok (indexGet (indicesGet i.indices indexName) indexedValue)
attribute [grind] getKeysByIndex

/-- `getIndexValues`: the values the index of `indexName` has a set for. -/
def getIndexValues (i : StoreIndex Obj) (indexName : String) : List String :=
  (indicesGet i.indices indexName).keys
attribute [grind] getIndexValues

/-- How Go's %v prints a `sets.String`: as the map it is, keys in order. -/
def goStringSetText (keys : List String) : String :=
  "map[" ++ " ".intercalate (keys.map (· ++ ":\x7b\x7d")) ++ "]"
attribute [grind] goStringSetText

/-- `addIndexers`: refused when one of the new names is taken. -/
def addIndexers (i : StoreIndex Obj) (newIndexers : Indexers Obj) :
    Except String (StoreIndex Obj) :=
  if newIndexers.keys.any (· ∈ i.indexers) then
    .error ("indexer conflict: " ++
      goStringSetText ((i.indexers.keys.filter (· ∈ newIndexers)).mergeSort (· ≤ ·)))
  else
    .ok { i with
      indexers := newIndexers.entries.foldl (fun indexers ⟨k, v⟩ => indexers.insert k v)
        i.indexers }
attribute [grind] addIndexers

/-! ### One index: what the key's sets become -/

section Index

variable {key indexValue v : String} {index : Index}

@[simp] theorem indexGet_empty (v : String) : indexGet ∅ v = ∅ := rfl

@[simp] theorem indicesGet_empty (name : String) : indicesGet ∅ name = ∅ := rfl

theorem mem_indexValuesOf {indexFunc : IndexFunc Obj} {obj : Option Obj} :
    v ∈ indexValuesOf indexFunc obj ↔ ∃ o, obj = some o ∧ v ∈ indexFunc o := by
  cases obj <;> simp [indexValuesOf]

theorem indexGet_addKeyToIndex :
    indexGet (addKeyToIndex key indexValue index) v =
      if v = indexValue then insert key (indexGet index v) else indexGet index v := by
  by_cases h : v = indexValue
  · subst h
    simp [addKeyToIndex, indexGet, AList.lookup_insert]
  · simp [addKeyToIndex, indexGet, AList.lookup_insert_ne h, h]

theorem indexGet_deleteKeyFromIndex :
    indexGet (deleteKeyFromIndex key indexValue index) v =
      if v = indexValue then (indexGet index v).erase key else indexGet index v := by
  cases hset : index.lookup indexValue with
  | none =>
    -- a missing set reads as empty, and erasing from it changes nothing
    by_cases h : v = indexValue
    · subst h
      simp [deleteKeyFromIndex, indexGet, hset]
    · simp [deleteKeyFromIndex, hset, h]
  | some set =>
    by_cases h : v = indexValue
    · subst h
      by_cases hcard : (set.erase key).card = 0
      · simp [deleteKeyFromIndex, indexGet, hset, AList.lookup_erase,
          Finset.card_eq_zero.mp hcard]
      · simp [deleteKeyFromIndex, indexGet, hset, hcard, AList.lookup_insert]
    · by_cases hcard : (set.erase key).card = 0 <;>
        simp [deleteKeyFromIndex, indexGet, hset, hcard, h, AList.lookup_erase_ne h,
          AList.lookup_insert_ne h]

theorem indexGet_foldl_deleteKeyFromIndex (oldIndexValues : List String) (index : Index) :
    indexGet (oldIndexValues.foldl (fun index value => deleteKeyFromIndex key value index)
        index) v =
      if v ∈ oldIndexValues then (indexGet index v).erase key else indexGet index v := by
  induction oldIndexValues generalizing index with
  | nil => simp
  | cons value rest ih =>
    rw [List.foldl_cons, ih, indexGet_deleteKeyFromIndex]
    by_cases h : v = value <;> by_cases hrest : v ∈ rest <;> simp [h, hrest]

theorem indexGet_foldl_addKeyToIndex (indexValues : List String) (index : Index) :
    indexGet (indexValues.foldl (fun index value => addKeyToIndex key value index) index) v =
      if v ∈ indexValues then insert key (indexGet index v) else indexGet index v := by
  induction indexValues generalizing index with
  | nil => simp
  | cons value rest ih =>
    rw [List.foldl_cons, ih, indexGet_addKeyToIndex]
    by_cases h : v = value <;> by_cases hrest : v ∈ rest <;> simp [h, hrest]

/-- What `updateIndex` does to a set, provided the key is indexed under its old values (the
fast path relies on it). -/
theorem indexGet_updateIndex {oldIndexValues indexValues : List String}
    (hold : ∀ v ∈ oldIndexValues, key ∈ indexGet index v) :
    indexGet (updateIndex key oldIndexValues indexValues index) v =
      if v ∈ indexValues then insert key (indexGet index v)
      else if v ∈ oldIndexValues then (indexGet index v).erase key else indexGet index v := by
  unfold updateIndex
  by_cases hfast :
      indexValues.length = 1 ∧ oldIndexValues.length = 1 ∧ indexValues[0]? = oldIndexValues[0]?
  · -- one unchanged value, under which the key is already indexed
    rw [if_pos hfast]
    obtain ⟨hlen, holdlen, hsame⟩ := hfast
    obtain ⟨value, rfl⟩ := List.length_eq_one_iff.mp hlen
    obtain ⟨value', rfl⟩ := List.length_eq_one_iff.mp holdlen
    obtain rfl : value = value' := by simpa using hsame
    by_cases h : v = value
    · subst h
      simp [Finset.insert_eq_of_mem (hold v (List.mem_singleton_self v))]
    · simp [h]
  · rw [if_neg hfast]
    dsimp only
    rw [indexGet_foldl_addKeyToIndex, indexGet_foldl_deleteKeyFromIndex]
    -- a key leaving a set and joining it again is in it
    have hrejoin : insert key ((indexGet index v).erase key) = insert key (indexGet index v) := by
      ext k
      by_cases hk : k = key <;> simp [hk]
    by_cases hnew : v ∈ indexValues <;> by_cases hold' : v ∈ oldIndexValues <;>
      simp [hnew, hold', hrejoin]

end Index

section NoEmptySets

variable {key indexValue : String} {index : Index}

theorem noEmptySets_empty : NoEmptySets ∅ := by
  intro v set h
  simp at h

theorem noEmptySets_addKeyToIndex (h : NoEmptySets index) :
    NoEmptySets (addKeyToIndex key indexValue index) := by
  intro v set hv
  by_cases hveq : v = indexValue
  · subst hveq
    rw [addKeyToIndex, AList.lookup_insert] at hv
    cases hv
    exact Finset.insert_nonempty _ _
  · rw [addKeyToIndex, AList.lookup_insert_ne hveq] at hv
    exact h v set hv

theorem noEmptySets_deleteKeyFromIndex (h : NoEmptySets index) :
    NoEmptySets (deleteKeyFromIndex key indexValue index) := by
  intro v set' hv
  unfold deleteKeyFromIndex at hv
  cases hset : index.lookup indexValue with
  | none =>
    rw [hset] at hv
    exact h v set' hv
  | some set =>
    rw [hset] at hv
    dsimp only at hv
    by_cases hveq : v = indexValue
    · -- the set of `indexValue` is dropped when emptied, else kept with what is left
      subst hveq
      split_ifs at hv with hcard
      · simp [AList.lookup_erase] at hv
      · rw [AList.lookup_insert] at hv
        cases hv
        exact Finset.card_pos.mp (Nat.pos_of_ne_zero hcard)
    · split_ifs at hv
      · rw [AList.lookup_erase_ne hveq] at hv
        exact h v set' hv
      · rw [AList.lookup_insert_ne hveq] at hv
        exact h v set' hv

theorem noEmptySets_updateIndex {oldIndexValues indexValues : List String}
    (h : NoEmptySets index) : NoEmptySets (updateIndex key oldIndexValues indexValues index) := by
  have hdelete : ∀ (values : List String) (index : Index), NoEmptySets index →
      NoEmptySets (values.foldl (fun index value => deleteKeyFromIndex key value index) index) := by
    intro values
    induction values with
    | nil => exact fun _ h => h
    | cons value rest ih => exact fun index h => ih _ (noEmptySets_deleteKeyFromIndex h)
  have hadd : ∀ (values : List String) (index : Index), NoEmptySets index →
      NoEmptySets (values.foldl (fun index value => addKeyToIndex key value index) index) := by
    intro values
    induction values with
    | nil => exact fun _ h => h
    | cons value rest ih => exact fun index h => ih _ (noEmptySets_addKeyToIndex h)
  unfold updateIndex
  split_ifs
  · exact h
  · exact hadd _ _ (hdelete _ _ h)

theorem noEmptySets_indicesGet {indices : Indices} (h : AllSetsNonempty indices)
    (name : String) : NoEmptySets (indicesGet indices name) := by
  unfold indicesGet
  cases hname : indices.lookup name with
  | none => exact noEmptySets_empty
  | some index => exact h name index hname

end NoEmptySets

/-! ### All indices: the loop of `updateIndices` -/

section Indices

variable {oldObj newObj : Option Obj} {key name : String}

@[simp] theorem updateIndices_indexers (i : StoreIndex Obj) :
    (i.updateIndices oldObj newObj key).indexers = i.indexers := rfl

/-- The loop of `updateIndices` writes at each indexer's name. -/
theorem updateIndices_indices (i : StoreIndex Obj) :
    (i.updateIndices oldObj newObj key).indices =
      i.indexers.entries.foldl (fun indices e => indices.insert e.1
        (updateIndex key (indexValuesOf e.2 oldObj) (indexValuesOf e.2 newObj)
          ((indices.lookup e.1).getD ∅))) i.indices := rfl

/-- The loop writes the index of each indexer once, the names being distinct: that of an
indexer is updated with the values of its index function, the others are left alone. -/
theorem lookup_updateIndices (i : StoreIndex Obj) :
    (i.updateIndices oldObj newObj key).indices.lookup name =
      match i.indexers.lookup name with
      | some indexFunc =>
        some (updateIndex key (indexValuesOf indexFunc oldObj) (indexValuesOf indexFunc newObj)
          (indicesGet i.indices name))
      | none => i.indices.lookup name := by
  rw [updateIndices_indices, FiniteMap.lookup_foldl_insert (fun _ indexFunc index =>
      updateIndex key (indexValuesOf indexFunc oldObj) (indexValuesOf indexFunc newObj)
        (index.getD ∅)) i.indexers.nodupKeys]
  cases hf : i.indexers.lookup name <;> simp only [AList.lookup] at hf <;> simp [hf, indicesGet]

theorem indicesGet_updateIndices (i : StoreIndex Obj) :
    indicesGet (i.updateIndices oldObj newObj key).indices name =
      match i.indexers.lookup name with
      | some indexFunc =>
        updateIndex key (indexValuesOf indexFunc oldObj) (indexValuesOf indexFunc newObj)
          (indicesGet i.indices name)
      | none => indicesGet i.indices name := by
  rw [indicesGet, lookup_updateIndices]
  cases i.indexers.lookup name <;> rfl

/-- The loop only creates indices for indexers. -/
theorem mem_updateIndices {i : StoreIndex Obj} :
    name ∈ (i.updateIndices oldObj newObj key).indices ↔ name ∈ i.indexers ∨ name ∈ i.indices :=
  (FiniteMap.mem_foldl_insert (fun indices (e : Σ _ : String, IndexFunc Obj) =>
      updateIndex key (indexValuesOf e.2 oldObj) (indexValuesOf e.2 newObj)
        (indicesGet indices e.1))
    i.indexers.entries i.indices name).trans (or_congr AList.mem_keys.symm Iff.rfl)

theorem allSetsNonempty_updateIndices {i : StoreIndex Obj} (h : AllSetsNonempty i.indices) :
    AllSetsNonempty (i.updateIndices oldObj newObj key).indices := by
  intro name index hname
  rw [lookup_updateIndices] at hname
  cases hf : i.indexers.lookup name with
  | none =>
    rw [hf] at hname
    exact h name index hname
  | some indexFunc =>
    -- the index just written
    rw [hf] at hname
    cases hname
    exact noEmptySets_updateIndex (noEmptySets_indicesGet h name)

end Indices

/-! ### The invariant: the indices are the inverted indices of the items -/

open FiniteMap

/-- The indices of `i` are those of the entries `items`: each indexer's index is their
inverted index under its index function, no set is empty, and only indexers have an index. -/
structure Indexes (i : StoreIndex Obj) (items : List (Σ _ : String, Obj)) : Prop where
  indexed : ∀ name indexFunc, i.indexers.lookup name = some indexFunc →
    ∀ indexedValue, indexGet (indicesGet i.indices name) indexedValue =
      invertedIndex items indexFunc indexedValue
  nonempty : AllSetsNonempty i.indices
  named : ∀ name ∈ i.indices, name ∈ i.indexers

section Indexes

variable {i : StoreIndex Obj} {key name : String} {indexFunc : IndexFunc Obj}

/-- With no indices, `reset` indexes no entries. -/
theorem indexes_reset (i : StoreIndex Obj) : i.reset.Indexes [] where
  indexed _ _ _ _ := rfl
  nonempty _ _ h := by simp [reset] at h
  named _ h := by simp [reset] at h

/-- Writing the indices of a key keeps the two properties that do not depend on the entries. -/
theorem Indexes.updateIndices_nonempty_named {items : List (Σ _ : String, Obj)}
    (h : i.Indexes items) (oldObj newObj : Option Obj) (key : String) :
    AllSetsNonempty (i.updateIndices oldObj newObj key).indices ∧
      ∀ name ∈ (i.updateIndices oldObj newObj key).indices,
        name ∈ (i.updateIndices oldObj newObj key).indexers := by
  refine ⟨allSetsNonempty_updateIndices h.nonempty, fun name hname => ?_⟩
  rcases mem_updateIndices.mp hname with hname | hname
  · exact hname
  · exact h.named name hname

/-- `Replace` indexes its items one at a time: a new entry joins the sets of its values. -/
theorem Indexes.updateIndices_append {items : List (Σ _ : String, Obj)} (h : i.Indexes items)
    (obj : Obj) : (i.updateIndices none (some obj) key).Indexes (items ++ [⟨key, obj⟩]) := by
  obtain ⟨hnonempty, hnamed⟩ := h.updateIndices_nonempty_named none (some obj) key
  refine ⟨fun name indexFunc hf v => ?_, hnonempty, hnamed⟩
  rw [updateIndices_indexers] at hf
  rw [indicesGet_updateIndices, hf]
  dsimp only
  rw [indexGet_updateIndex (fun _ hv => by simp [indexValuesOf] at hv),
    invertedIndex_append_singleton, h.indexed name indexFunc hf v]
  simp [indexValuesOf]

/-- Under the invariant a key is in the sets of exactly the values of its item. -/
theorem Indexes.mem_indexGet_iff {items : AList fun _ : String => Obj}
    (h : i.Indexes items.entries) (hf : i.indexers.lookup name = some indexFunc)
    (key v : String) :
    key ∈ indexGet (indicesGet i.indices name) v ↔
      v ∈ indexValuesOf indexFunc (items.lookup key) := by
  rw [h.indexed name indexFunc hf v, mem_invertedIndex, mem_indexValuesOf]

/-- `Update` and `Delete` re-index one key: from its old item in `items` to what `items'`
holds for it, all other keys keeping their items. -/
theorem Indexes.reindex {items items' : AList fun _ : String => Obj} {newObj : Option Obj}
    (h : i.Indexes items.entries) (hkey : items'.lookup key = newObj)
    (hother : ∀ k, k ≠ key → items'.lookup k = items.lookup k) :
    (i.updateIndices (items.lookup key) newObj key).Indexes items'.entries := by
  obtain ⟨hnonempty, hnamed⟩ := h.updateIndices_nonempty_named (items.lookup key) newObj key
  refine ⟨fun name indexFunc hf v => ?_, hnonempty, hnamed⟩
  rw [updateIndices_indexers] at hf
  have hold := h.mem_indexGet_iff hf key
  rw [indicesGet_updateIndices, hf]
  dsimp only
  rw [indexGet_updateIndex (fun v hv => (hold v).mpr hv)]
  ext k
  rw [mem_invertedIndex]
  by_cases hk : k = key
  · -- the key now sits in the sets of its new values only
    subst hk
    rw [hkey, ← mem_indexValuesOf]
    by_cases hnew : v ∈ indexValuesOf indexFunc newObj
    · simp [hnew]
    · by_cases hv : v ∈ indexValuesOf indexFunc (items.lookup k) <;> simp [hnew, hv, hold v]
  · -- any other key keeps its sets
    rw [hother k hk, ← mem_invertedIndex, ← h.indexed name indexFunc hf v]
    split_ifs <;> simp [hk]

/-- With no entries, every set reads as empty. -/
theorem Indexes.indexGet_eq_empty (h : i.Indexes []) (name v : String) :
    indexGet (indicesGet i.indices name) v = ∅ := by
  cases hf : i.indexers.lookup name with
  | some indexFunc => exact (h.indexed name indexFunc hf v).trans (invertedIndex_nil indexFunc v)
  | none =>
    -- a name without an indexer has no index
    have hnot : name ∉ i.indices := fun hmem => AList.lookup_eq_none.mp hf (h.named name hmem)
    simp [indicesGet, AList.lookup_eq_none.mpr hnot]

/-- New indexers on an index of no entries: their indices are missing, hence empty. -/
theorem Indexes.addIndexers {i' : StoreIndex Obj} {newIndexers : Indexers Obj}
    (h : i.Indexes []) (hadd : i.addIndexers newIndexers = .ok i') : i'.Indexes [] := by
  unfold StoreIndex.addIndexers at hadd
  split_ifs at hadd
  cases hadd
  refine ⟨fun name _ _ v => h.indexGet_eq_empty name v, h.nonempty, fun name hname => ?_⟩
  exact (FiniteMap.mem_foldl_insert (fun _ e => e.2) newIndexers.entries i.indexers name).mpr
    (.inr (h.named name hname))

end Indexes

end StoreIndex

namespace ThreadSafeMap

open StoreIndex

/-- `Update`. -/
def update (c : ThreadSafeMap Obj) (key : String) (obj : Obj) : ThreadSafeMap Obj :=
  { items := c.items.insert key obj
    storeIndex := c.storeIndex.updateIndices (c.items.lookup key) (some obj) key }
attribute [grind] update

/-- `Add`. -/
def add (c : ThreadSafeMap Obj) (key : String) (obj : Obj) : ThreadSafeMap Obj :=
  c.update key obj
attribute [grind] add

/-- `Delete`: nothing happens to a missing key. -/
def delete (c : ThreadSafeMap Obj) (key : String) : ThreadSafeMap Obj :=
  match c.items.lookup key with
  | some obj =>
    { items := c.items.erase key
      storeIndex := c.storeIndex.updateIndices (some obj) none key }
  | none => c
attribute [grind] delete

/-- `Replace`: the indices are rebuilt from scratch. -/
def replace (c : ThreadSafeMap Obj) (items : AList fun _ : String => Obj) : ThreadSafeMap Obj :=
  { items := items
    storeIndex := items.entries.foldl (fun i ⟨key, item⟩ => i.updateIndices none (some item) key)
      c.storeIndex.reset }
attribute [grind] replace

/-- `Index`: the items indexed under any value of `obj` (`c.items[storeKey]`, nil when
missing). -/
def index (c : ThreadSafeMap Obj) (indexName : String) (obj : Obj) :
    Except String (List (Option Obj)) := do
  let storeKeySet ← c.storeIndex.getKeysFromIndex indexName obj
  return (storeKeySet.sort (· ≤ ·)).map fun storeKey => c.items.lookup storeKey
attribute [grind] index

/-- `ByIndex`. -/
def byIndex (c : ThreadSafeMap Obj) (indexName indexedValue : String) :
    Except String (List (Option Obj)) := do
  let set ← c.storeIndex.getKeysByIndex indexName indexedValue
  return (set.sort (· ≤ ·)).map fun key => c.items.lookup key
attribute [grind] byIndex

/-- `IndexKeys`. -/
def indexKeys (c : ThreadSafeMap Obj) (indexName indexedValue : String) :
    Except String (List String) := do
  let set ← c.storeIndex.getKeysByIndex indexName indexedValue
  return set.sort (· ≤ ·)
attribute [grind] indexKeys

/-- `ListIndexFuncValues`. -/
def listIndexFuncValues (c : ThreadSafeMap Obj) (indexName : String) : List String :=
  c.storeIndex.getIndexValues indexName
attribute [grind] listIndexFuncValues

/-- `AddIndexers`: refused once the store holds items. -/
def addIndexers (c : ThreadSafeMap Obj) (newIndexers : Indexers Obj) :
    Except String (ThreadSafeMap Obj) :=
  if 0 < c.items.entries.length then .error "cannot add indexers to running index"
  else do
    let storeIndex ← c.storeIndex.addIndexers newIndexers
    return { c with storeIndex := storeIndex }
attribute [grind] addIndexers

/-- The calls that change a `threadSafeMap`. -/
inductive Op (Obj : Type _)
  | add (key : String) (obj : Obj)
  | update (key : String) (obj : Obj)
  | delete (key : String)
  | replace (items : AList fun _ : String => Obj)
  | addIndexers (newIndexers : Indexers Obj)

/-- The store after a call; a refused `AddIndexers` leaves it as it was. -/
def apply (c : ThreadSafeMap Obj) : Op Obj → ThreadSafeMap Obj
  | .add key obj => c.add key obj
  | .update key obj => c.update key obj
  | .delete key => c.delete key
  | .replace items => c.replace items
  | .addIndexers newIndexers =>
    match c.addIndexers newIndexers with
    | .ok c' => c'
    | .error _ => c
attribute [grind] apply

/-- One call, as a step of the store. -/
def Step (c : ThreadSafeMap Obj) (op : Op Obj) (c' : ThreadSafeMap Obj) : Prop :=
  c.apply op = c'
attribute [grind] Step

/-- The stores the informer builds (`NewIndexer`, `NewStore`): empty, with no indices. -/
def Init (c : ThreadSafeMap Obj) : Prop :=
  ∃ indexers, c = newThreadSafeStore indexers ∅
attribute [grind] Init

/-! ### Every call keeps the indices exact -/

open FiniteMap Transition

/-- The invariant of a `threadSafeMap`: its indices are those of its items. -/
def Consistent (c : ThreadSafeMap Obj) : Prop :=
  c.storeIndex.Indexes c.items.entries
attribute [grind] Consistent

section Invariant

variable {c : ThreadSafeMap Obj}

theorem consistent_newThreadSafeStore (indexers : Indexers Obj) :
    (newThreadSafeStore indexers ∅).Consistent :=
  indexes_reset { indexers := indexers, indices := ∅ }

theorem Consistent.update (hc : c.Consistent) (key : String) (obj : Obj) :
    (c.update key obj).Consistent :=
  Indexes.reindex hc (AList.lookup_insert c.items) fun _ hk => AList.lookup_insert_ne hk

theorem Consistent.add (hc : c.Consistent) (key : String) (obj : Obj) :
    (c.add key obj).Consistent :=
  hc.update key obj

theorem Consistent.delete (hc : c.Consistent) (key : String) : (c.delete key).Consistent := by
  unfold ThreadSafeMap.delete
  cases hobj : c.items.lookup key with
  | none => exact hc
  | some obj =>
    have h := Indexes.reindex hc (AList.lookup_erase key c.items)
      fun _ hk => AList.lookup_erase_ne hk
    rw [hobj] at h
    exact h

/-- `Replace` rebuilds exact indices whatever they were before. -/
theorem consistent_replace (c : ThreadSafeMap Obj) (items : AList fun _ : String => Obj) :
    (c.replace items).Consistent := by
  -- the loop indexes the entries one at a time, from a reset index
  have hloop : ∀ (l done : List (Σ _ : String, Obj)) (i : StoreIndex Obj), i.Indexes done →
      (l.foldl (fun i e => i.updateIndices none (some e.2) e.1) i).Indexes (done ++ l) := by
    intro l
    induction l with
    | nil =>
      intro done i h
      simpa using h
    | cons e l ih =>
      intro done i h
      rw [List.foldl_cons, List.append_cons]
      exact ih _ _ (h.updateIndices_append e.2)
  exact hloop items.entries [] _ (indexes_reset c.storeIndex)

theorem Consistent.addIndexers (hc : c.Consistent) {c' : ThreadSafeMap Obj}
    {newIndexers : Indexers Obj} (h : c.addIndexers newIndexers = .ok c') : c'.Consistent := by
  unfold ThreadSafeMap.addIndexers at h
  split_ifs at h with hlen
  -- only a store without items takes new indexers
  have hempty : c.items.entries = [] := List.eq_nil_of_length_eq_zero (by omega)
  cases hi : c.storeIndex.addIndexers newIndexers with
  | error e =>
    rw [hi] at h
    cases h
  | ok i' =>
    rw [hi] at h
    cases h
    have hc' : c.storeIndex.Indexes [] := hempty ▸ hc
    show i'.Indexes c.items.entries
    rw [hempty]
    exact hc'.addIndexers hi

/-- The step lemma: every call keeps the indices exact. -/
theorem Consistent.apply (hc : c.Consistent) : ∀ op, (c.apply op).Consistent
  | .add key obj => hc.add key obj
  | .update key obj => hc.update key obj
  | .delete key => hc.delete key
  | .replace items => consistent_replace c items
  | .addIndexers newIndexers => by
    rw [ThreadSafeMap.apply]
    cases h : c.addIndexers newIndexers with
    | ok c' => exact hc.addIndexers h
    | error e => exact hc

theorem consistent_inductive : Inductive Init Step (@Consistent Obj) where
  init := by
    rintro _ ⟨indexers, rfl⟩
    exact consistent_newThreadSafeStore indexers
  step := by
    rintro c op _ hc rfl
    exact hc.apply op

end Invariant

/-! ### What the queries return -/

section Queries

variable {c : ThreadSafeMap Obj} {name : String} {indexFunc : IndexFunc Obj}

theorem Consistent.getKeysByIndex (hc : c.Consistent)
    (hf : c.storeIndex.indexers.lookup name = some indexFunc) (indexedValue : String) :
    c.storeIndex.getKeysByIndex name indexedValue =
      .ok (invertedIndex c.items.entries indexFunc indexedValue) := by
  rw [StoreIndex.getKeysByIndex, hf]
  exact congrArg Except.ok (hc.indexed name indexFunc hf indexedValue)

theorem Consistent.getKeysFromIndex (hc : c.Consistent)
    (hf : c.storeIndex.indexers.lookup name = some indexFunc) (obj : Obj) :
    c.storeIndex.getKeysFromIndex name obj =
      .ok ((indexFunc obj).toFinset.biUnion (invertedIndex c.items.entries indexFunc)) := by
  -- several values: the merge of their sets
  have hmerge : ∀ (values : List String) (acc : Finset String),
      values.foldl (fun storeKeySet indexedValue =>
        storeKeySet ∪ indexGet (indicesGet c.storeIndex.indices name) indexedValue) acc =
        acc ∪ values.toFinset.biUnion (invertedIndex c.items.entries indexFunc) := by
    intro values
    induction values with
    | nil => simp
    | cons value rest ih =>
      intro acc
      rw [List.foldl_cons, ih, hc.indexed name indexFunc hf value]
      simp [Finset.union_assoc]
  rw [StoreIndex.getKeysFromIndex, hf]
  dsimp only
  split
  · next value hvalue =>
    rw [hvalue, hc.indexed name indexFunc hf value]
    simp
  · rw [hmerge]
    simp

theorem Consistent.byIndex (hc : c.Consistent)
    (hf : c.storeIndex.indexers.lookup name = some indexFunc) (indexedValue : String) :
    c.byIndex name indexedValue =
      .ok (((invertedIndex c.items.entries indexFunc indexedValue).sort (· ≤ ·)).map
        fun key => c.items.lookup key) := by
  rw [ThreadSafeMap.byIndex, hc.getKeysByIndex hf indexedValue]
  rfl

theorem Consistent.indexKeys (hc : c.Consistent)
    (hf : c.storeIndex.indexers.lookup name = some indexFunc) (indexedValue : String) :
    c.indexKeys name indexedValue =
      .ok ((invertedIndex c.items.entries indexFunc indexedValue).sort (· ≤ ·)) := by
  rw [ThreadSafeMap.indexKeys, hc.getKeysByIndex hf indexedValue]
  rfl

theorem Consistent.index (hc : c.Consistent)
    (hf : c.storeIndex.indexers.lookup name = some indexFunc) (obj : Obj) :
    c.index name obj =
      .ok ((((indexFunc obj).toFinset.biUnion (invertedIndex c.items.entries indexFunc)).sort
        (· ≤ ·)).map fun key => c.items.lookup key) := by
  rw [ThreadSafeMap.index, hc.getKeysFromIndex hf obj]
  rfl

/-- With no empty sets, `ListIndexFuncValues` lists exactly the values some item has. -/
theorem Consistent.mem_listIndexFuncValues (hc : c.Consistent)
    (hf : c.storeIndex.indexers.lookup name = some indexFunc) (indexedValue : String) :
    indexedValue ∈ c.listIndexFuncValues name ↔
      (invertedIndex c.items.entries indexFunc indexedValue).Nonempty := by
  rw [listIndexFuncValues, StoreIndex.getIndexValues, ← AList.mem_keys,
    ← hc.indexed name indexFunc hf indexedValue, indexGet]
  cases hv : (indicesGet c.storeIndex.indices name).lookup indexedValue with
  | none => simp [AList.lookup_eq_none.mp hv]
  | some set =>
    have hmem : indexedValue ∈ indicesGet c.storeIndex.indices name := by
      simp [← AList.lookup_isSome, hv]
    simp [hmem, noEmptySets_indicesGet hc.nonempty name indexedValue set hv]

end Queries

/-- Along every run of `Add`, `Update`, `Delete`, `Replace` and `AddIndexers` from a new
store, no index holds an empty set, each indexer's index is the inverted index of the items
under its index function, and so `ByIndex`, `IndexKeys` and `Index` return exactly the items
whose values match. -/
theorem indices_eq_invertedIndex {c : ThreadSafeMap Obj} (hc : Reachable Init Step c) :
    AllSetsNonempty c.storeIndex.indices ∧
      ∀ name indexFunc, c.storeIndex.indexers.lookup name = some indexFunc →
        (∀ indexedValue, indexGet (indicesGet c.storeIndex.indices name) indexedValue =
          invertedIndex c.items.entries indexFunc indexedValue) ∧
        (∀ indexedValue, c.byIndex name indexedValue =
          .ok (((invertedIndex c.items.entries indexFunc indexedValue).sort (· ≤ ·)).map
            fun key => c.items.lookup key)) ∧
        (∀ indexedValue, c.indexKeys name indexedValue =
          .ok ((invertedIndex c.items.entries indexFunc indexedValue).sort (· ≤ ·))) ∧
        ∀ obj, c.index name obj =
          .ok ((((indexFunc obj).toFinset.biUnion (invertedIndex c.items.entries indexFunc)).sort
            (· ≤ ·)).map fun key => c.items.lookup key) := by
  have hcons : c.Consistent := consistent_inductive.reachable hc
  refine ⟨hcons.nonempty, fun name indexFunc hf => ⟨hcons.indexed name indexFunc hf, ?_, ?_, ?_⟩⟩
  · exact hcons.byIndex hf
  · exact hcons.indexKeys hf
  · exact hcons.index hf

/-- A store indexed by colour, after one `Add`. -/
theorem indices_eq_invertedIndex_add :
    Reachable Init Step ((newThreadSafeStore ((∅ : Indexers String).insert "color" fun o => [o])
        ∅).apply (.add "a" "red")) ∧
      ((newThreadSafeStore ((∅ : Indexers String).insert "color" fun o => [o]) ∅).apply
        (.add "a" "red")).storeIndex.indexers.lookup "color" = some (fun o => [o]) ∧
      (∀ indexedValue, ((newThreadSafeStore ((∅ : Indexers String).insert "color" fun o => [o])
          ∅).apply (.add "a" "red")).indexKeys "color" indexedValue =
        .ok ((invertedIndex [⟨"a", "red"⟩] (fun o => [o]) indexedValue).sort (· ≤ ·))) := by
  have hreach : Reachable Init Step ((newThreadSafeStore
      ((∅ : Indexers String).insert "color" fun o => [o]) ∅).apply (.add "a" "red")) :=
    (Reachable.init ⟨_, rfl⟩).step rfl
  have hf : ((newThreadSafeStore ((∅ : Indexers String).insert "color" fun o => [o]) ∅).apply
      (.add "a" "red")).storeIndex.indexers.lookup "color" = some (fun o => [o]) :=
    AList.lookup_insert _
  exact ⟨hreach, hf, ((indices_eq_invertedIndex hreach).2 "color" _ hf).2.2.1⟩

end ThreadSafeMap

end Cache
end Kubernetes
