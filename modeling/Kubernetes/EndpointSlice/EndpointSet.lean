import Kubernetes.Go.Sort

/-!
# The set of desired endpoints

`EndpointSet` (`pkg/controller/util/endpointslice/endpointset.go`) is a Go map from the hash of
an endpoint to the endpoint.  `Insert` stores each endpoint under its own hash, so the model
keeps the endpoints themselves, in the order the map is iterated, their hashes distinct: `Get`
finds the endpoint with the hash of its argument, `Delete` drops it, and `PopAny` returns the
first endpoint of the iteration and deletes it.  Go iterates a map in no fixed order; a theorem
about every `EndpointSet` is about every such order.

The hash is a parameter of the set.  `hashEndpoint` hashes the sorted addresses and the hostname
of an endpoint with `DeepHashObjectToString`, and the reconciler only asks which endpoints have
equal hashes, so its theorems are stated for any hash.  `Endpoint` at the end of the module is
`discovery.Endpoint` with the fields the controller compares, keyed by its hash object.
-/

namespace Kubernetes
namespace EndpointSlice

variable {α κ : Type}

/-- `EndpointSet`: the endpoints of the map, in the order Go iterates it; each is stored under
its own hash, so no two have the same hash. -/
@[ext]
structure EndpointSet (hash : α → κ) where
  entries : List α
  nodup : (entries.map hash).Nodup

namespace EndpointSet

variable {hash : α → κ}

/-- Two endpoints of the set with the same hash are the same endpoint. -/
theorem eq_of_hash_eq {s : EndpointSet hash} {a b : α} (ha : a ∈ s.entries)
    (hb : b ∈ s.entries) (hab : hash a = hash b) : a = b :=
  List.inj_on_of_nodup_map s.nodup ha hb hab

variable [DecidableEq κ]

/-- `EndpointSet.Len`. -/
def len (s : EndpointSet hash) : Nat :=
  s.entries.length
attribute [grind] len

/-- `EndpointSet.Get`: the endpoint stored under the hash of `item`. -/
def get (s : EndpointSet hash) (item : α) : Option α :=
  s.entries.find? fun endpoint => hash endpoint = hash item
attribute [grind] get

/-- `EndpointSet.Delete`: the set without the endpoint stored under the hash of `item`. -/
def delete (s : EndpointSet hash) (item : α) : EndpointSet hash where
  entries := s.entries.filter fun endpoint => hash endpoint ≠ hash item
  nodup := s.nodup.sublist (List.filter_sublist.map hash)
attribute [grind] delete

/-- `EndpointSet.PopAny`: the first endpoint of the iteration, and the set after deleting it. -/
def popAny (s : EndpointSet hash) : Option (α × EndpointSet hash) :=
  s.entries.head?.map fun endpoint => (endpoint, s.delete endpoint)
attribute [grind] popAny

@[simp]
theorem entries_delete (s : EndpointSet hash) (item : α) :
    (s.delete item).entries = s.entries.filter fun endpoint => hash endpoint ≠ hash item :=
  rfl

theorem mem_of_get {s : EndpointSet hash} {item got : α} (h : s.get item = some got) :
    got ∈ s.entries ∧ hash got = hash item := by
  refine ⟨List.mem_of_find?_eq_some h, ?_⟩
  simpa using List.find?_some h

/-- An endpoint of a list whose hashes are distinct, followed by the others, is the list
reordered. -/
theorem perm_cons_filter {l : List α} {got : α} {k : κ} (hnodup : (l.map hash).Nodup)
    (hmem : got ∈ l) (hhash : hash got = k) : l.Perm (got :: l.filter fun x => hash x ≠ k) := by
  induction l with
  | nil => simp at hmem
  | cons x xs ih =>
    rw [List.map_cons, List.nodup_cons] at hnodup
    obtain ⟨hx_fresh, hxs⟩ := hnodup
    by_cases hx : hash x = k
    · -- `x` has the hash, so it is `got`, and no other endpoint has it
      have hgot : got = x := by
        rcases List.mem_cons.mp hmem with h | h
        · exact h
        · exact absurd (hx ▸ hhash ▸ List.mem_map_of_mem h) hx_fresh
      have hrest : xs.filter (fun y => hash y ≠ k) = xs := by
        apply List.filter_eq_self.mpr
        intro y hy
        have hne : hash y ≠ k := fun h => hx_fresh (hx ▸ h ▸ List.mem_map_of_mem hy)
        simpa using hne
      rw [hgot, List.filter_cons_of_neg (by simpa using hx), hrest]
    · have hgot : got ∈ xs := (List.mem_cons.mp hmem).resolve_left fun h => hx (h ▸ hhash)
      rw [List.filter_cons_of_pos (by simpa using hx)]
      exact ((ih hxs hgot).cons x).trans (List.Perm.swap got x _)

/-- The endpoint `Get` finds, followed by the set after `Delete`, is the set reordered. -/
theorem perm_cons_delete {s : EndpointSet hash} {item got : α} (hmem : got ∈ s.entries)
    (hhash : hash got = hash item) : s.entries.Perm (got :: (s.delete item).entries) :=
  perm_cons_filter s.nodup hmem hhash

theorem get_eq_none {s : EndpointSet hash} {item : α} :
    s.get item = none ↔ ∀ endpoint ∈ s.entries, hash endpoint ≠ hash item := by
  simp [get, List.find?_eq_none]

theorem popAny_eq_none {s : EndpointSet hash} : s.popAny = none ↔ s.entries = [] := by
  simp [popAny]

/-- `PopAny` takes the first endpoint off: the others have other hashes, so deleting its hash
leaves them all. -/
theorem popAny_eq_some {s : EndpointSet hash} {endpoint : α} {rest : EndpointSet hash}
    (h : s.popAny = some (endpoint, rest)) : s.entries = endpoint :: rest.entries := by
  obtain ⟨first, hhead, hpair⟩ := Option.map_eq_some_iff.mp h
  obtain ⟨others, hentries⟩ := List.head?_eq_some_iff.mp hhead
  obtain ⟨rfl, rfl⟩ := Prod.mk.inj hpair
  have hfresh : hash first ∉ others.map hash := by
    have hnodup := s.nodup
    rw [hentries, List.map_cons] at hnodup
    exact (List.nodup_cons.mp hnodup).1
  have hkeep : others.filter (fun e => hash e ≠ hash first) = others := by
    apply List.filter_eq_self.mpr
    intro e he
    have hne : hash e ≠ hash first := fun heq => hfresh (heq ▸ List.mem_map_of_mem he)
    simpa using hne
  rw [entries_delete, hentries, List.filter_cons_of_neg (by simp), hkeep]

theorem len_of_popAny {s : EndpointSet hash} {endpoint : α} {rest : EndpointSet hash}
    (h : s.popAny = some (endpoint, rest)) : s.len = rest.len + 1 := by
  simp [len, popAny_eq_some h]

end EndpointSet

section Fill

variable [DecidableEq κ] {hash : α → κ}

/-- The inner loop of the second and third steps of `reconcileByPortMapping`: `PopAny` into the
endpoints of a slice while the set is not empty and the slice holds fewer than `maxEndpoints`.
Each turn makes the set smaller by one, so `fuel` at the length of the set is enough. -/
def fillLoop (maxEndpoints : Nat) :
    Nat → List α → EndpointSet hash → List α × EndpointSet hash
  | 0, endpoints, desiredSet => (endpoints, desiredSet)
  | fuel + 1, endpoints, desiredSet =>
      if endpoints.length < maxEndpoints then
        match desiredSet.popAny with
        | some (endpoint, rest) => fillLoop maxEndpoints fuel (endpoints ++ [endpoint]) rest
        | none => (endpoints, desiredSet)
      else (endpoints, desiredSet)
attribute [grind] fillLoop

/-- The fill loop, run to its end. -/
def fill (maxEndpoints : Nat) (endpoints : List α) (desiredSet : EndpointSet hash) :
    List α × EndpointSet hash :=
  fillLoop maxEndpoints desiredSet.len endpoints desiredSet
attribute [grind] fill

/-- The fill loop moves the first `maxEndpoints - endpoints.length` endpoints of the set, in
order, to the end of the slice. -/
theorem fillLoop_spec (maxEndpoints : Nat) {fuel : Nat} {endpoints : List α}
    {desiredSet : EndpointSet hash} (hfuel : desiredSet.len ≤ fuel) :
    (fillLoop maxEndpoints fuel endpoints desiredSet).1 =
        endpoints ++ desiredSet.entries.take (maxEndpoints - endpoints.length) ∧
      (fillLoop maxEndpoints fuel endpoints desiredSet).2.entries =
        desiredSet.entries.drop (maxEndpoints - endpoints.length) := by
  induction fuel generalizing endpoints desiredSet with
  | zero =>
    have hnil : desiredSet.entries = [] :=
      List.eq_nil_of_length_eq_zero (by simpa [EndpointSet.len] using hfuel)
    simp [fillLoop, hnil]
  | succ fuel ih =>
    by_cases hroom : endpoints.length < maxEndpoints
    · cases hpop : desiredSet.popAny with
      | none =>
        simp [fillLoop, hroom, hpop, EndpointSet.popAny_eq_none.mp hpop]
      | some pair =>
        obtain ⟨endpoint, rest⟩ := pair
        have hentries := EndpointSet.popAny_eq_some hpop
        have hlen := EndpointSet.len_of_popAny hpop
        obtain ⟨ih₁, ih₂⟩ := @ih (endpoints ++ [endpoint]) rest (by omega)
        -- one endpoint moved: the room left shrinks by one
        have hk : maxEndpoints - endpoints.length =
            (maxEndpoints - (endpoints ++ [endpoint]).length) + 1 := by
          simp; omega
        simp only [fillLoop, hroom, if_true, hpop]
        rw [ih₁, ih₂, hentries, hk]
        simp
    · have hk : maxEndpoints - endpoints.length = 0 := by omega
      simp [fillLoop, hroom, hk]

theorem fill_endpoints (maxEndpoints : Nat) (endpoints : List α) (desiredSet : EndpointSet hash) :
    (fill maxEndpoints endpoints desiredSet).1 =
      endpoints ++ desiredSet.entries.take (maxEndpoints - endpoints.length) :=
  (fillLoop_spec maxEndpoints le_rfl).1

theorem fill_entries (maxEndpoints : Nat) (endpoints : List α) (desiredSet : EndpointSet hash) :
    (fill maxEndpoints endpoints desiredSet).2.entries =
      desiredSet.entries.drop (maxEndpoints - endpoints.length) :=
  (fillLoop_spec maxEndpoints le_rfl).2

end Fill

/-! ## `discovery.Endpoint` -/

/-- `v1.ObjectReference` as `EndpointsEqualBeyondHash` compares it, without its resource
version. -/
structure ObjectReference where
  kind : String
  objectNamespace : String
  name : String
  uid : String
  deriving DecidableEq, Repr

/-- `discovery.Endpoint`, without `DeprecatedTopology`, which the controller never sets or reads;
`hints` are the zones of `Hints.ForZones`. -/
structure Endpoint where
  addresses : List String
  ready : Option Bool
  serving : Option Bool
  terminating : Option Bool
  hostname : Option String
  targetRef : Option ObjectReference
  nodeName : Option String
  zone : Option String
  hints : Option (List String)
  deriving DecidableEq, Repr

/-- `endpointHashObj`: what `hashEndpoint` hashes. -/
structure EndpointHashObj where
  addresses : List String
  hostname : String
  deriving DecidableEq, Repr

/-- `hashEndpoint`, keyed by the object `DeepHashObjectToString` hashes: the sorted addresses,
and the hostname or the empty string. -/
def hashEndpoint (endpoint : Endpoint) : EndpointHashObj :=
  ⟨Go.sort endpoint.addresses (fun a b => decide (a < b)), endpoint.hostname.getD ""⟩
attribute [grind] hashEndpoint

/-- `boolPtrChanged` and `stringPtrChanged`: one pointer is nil and the other is not, or both are
set to different values. -/
def ptrChanged {β : Type} [DecidableEq β] (ptr1 ptr2 : Option β) : Bool :=
  if ptr1.isNone != ptr2.isNone then true
  else
    match ptr1, ptr2 with
    | some a, some b => a != b
    | _, _ => false
attribute [grind] ptrChanged

/-- `boolPtrChanged`. -/
def boolPtrChanged (ptr1 ptr2 : Option Bool) : Bool :=
  ptrChanged ptr1 ptr2
attribute [grind] boolPtrChanged

/-- `stringPtrChanged`. -/
def stringPtrChanged (ptr1 ptr2 : Option String) : Bool :=
  ptrChanged ptr1 ptr2
attribute [grind] stringPtrChanged

@[simp]
theorem ptrChanged_iff {β : Type} [DecidableEq β] {ptr1 ptr2 : Option β} :
    ptrChanged ptr1 ptr2 = true ↔ ptr1 ≠ ptr2 := by
  cases ptr1 <;> cases ptr2 <;> simp [ptrChanged]

/-- `EndpointsEqualBeyondHash`: the fields that the hash leaves out and that the controller sets
are equal. -/
def endpointsEqualBeyondHash (ep1 ep2 : Endpoint) : Bool :=
  if stringPtrChanged ep1.nodeName ep2.nodeName then false
  else if stringPtrChanged ep1.zone ep2.zone then false
  else if boolPtrChanged ep1.ready ep2.ready then false
  else if boolPtrChanged ep1.serving ep2.serving then false
  else if boolPtrChanged ep1.terminating ep2.terminating then false
  else ep1.targetRef == ep2.targetRef
attribute [grind] endpointsEqualBeyondHash

theorem endpointsEqualBeyondHash_iff {ep1 ep2 : Endpoint} :
    endpointsEqualBeyondHash ep1 ep2 = true ↔
      ep1.nodeName = ep2.nodeName ∧ ep1.zone = ep2.zone ∧ ep1.ready = ep2.ready ∧
        ep1.serving = ep2.serving ∧ ep1.terminating = ep2.terminating ∧
        ep1.targetRef = ep2.targetRef := by
  simp only [endpointsEqualBeyondHash, stringPtrChanged, boolPtrChanged]
  split_ifs <;> simp_all

end EndpointSlice
end Kubernetes
