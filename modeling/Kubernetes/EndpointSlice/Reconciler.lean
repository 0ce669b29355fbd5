import Kubernetes.EndpointSlice.EndpointSet

/-!
# Reconciling the endpoint slices of one port mapping

`reconcileByPortMapping` (`pkg/controller/endpointslice/reconciler.go`) compares the endpoints of
the existing slices of a service for one set of ports with the desired endpoints, and plans the
slices to create, to update and to delete, in three steps:

1. each existing slice keeps the desired version of each of its endpoints that is still desired,
   and the endpoint leaves the desired set; a slice that lost or changed an endpoint is updated,
   or deleted when it keeps none; a slice whose labels differ from the service's is updated; the
   others are unchanged;
2. the slices to update are filled with the endpoints still desired, fullest first, up to
   `maxEndpointsPerSlice`;
3. what is left goes into the unchanged slice it fits best (`getSliceToFill`) when it is less than
   a slice, and otherwise into new slices.

The model keeps the Go state: `slicesByName` is a map, read by name only, so a function here; the
three name sets are `sets.String`, kept as lists in the order of insertion.  Go lists a set in no
fixed order, so `unsortedList` is a parameter, and the theorems hold for every function that
lists a set's names in some order.  The Go loops fill slices through pointers that
`slicesByName` shares; the model writes each filled slice back under its name.  `hashEndpoint`
also sorts the addresses of the endpoint it hashes, in place; the generic endpoint has no
addresses, and the model leaves that out.
-/

set_option linter.dupNamespace false

namespace Kubernetes
namespace EndpointSlice

/-! ## Services and slices -/

/-- `metav1.OwnerReference`, with the fields `ownedBy` and `NewControllerRef` use. -/
structure OwnerReference where
  apiVersion : String
  kind : String
  name : String
  uid : String
  deriving DecidableEq, Repr

/-- `discovery.AddressType`. -/
inductive AddressType
  | ipv4
  | ipv6
  | fqdn
  deriving DecidableEq, Repr

/-- The fields of `v1.Service` the reconciler reads. -/
structure Service where
  name : String
  uid : String
  labels : AList fun _ : String => String
  clusterIP : String

/-- `discovery.EndpointSlice` over endpoints of any type.  The ports are left out: they choose
the port mapping before this reconciler runs, and it only copies them. -/
structure EndpointSlice (α : Type) where
  name : String
  labels : AList fun _ : String => String
  ownerReferences : List OwnerReference
  addressType : AddressType
  endpoints : List α

/-- `endpointMeta`, without the ports. -/
structure EndpointMeta where
  addressType : AddressType

/-- The `reconciler`, with the one field this step reads; a slice has room for one endpoint at
least. -/
structure Reconciler where
  maxEndpointsPerSlice : Nat
  pos : 0 < maxEndpointsPerSlice

/-- `discovery.LabelServiceName`. -/
def labelServiceName : String := "kubernetes.io/service-name"
attribute [grind] labelServiceName

/-- `discovery.LabelManagedBy`. -/
def labelManagedBy : String := "endpointslice.kubernetes.io/managed-by"
attribute [grind] labelManagedBy

/-- `v1.IsHeadlessService`. -/
def isHeadlessService : String := "service.kubernetes.io/headless"
attribute [grind] isHeadlessService

/-- `controllerName`. -/
def controllerName : String := "endpointslice-controller.k8s.io"
attribute [grind] controllerName

/-- `v1.ClusterIPNone`. -/
def clusterIPNone : String := "None"
attribute [grind] clusterIPNone

/-- `IsReservedLabelKey`. -/
def isReservedLabelKey (label : String) : Bool :=
  label == labelServiceName || label == labelManagedBy || label == isHeadlessService
attribute [grind] isReservedLabelKey

/-- `helper.IsServiceIPSet`. -/
def isServiceIPSet (service : Service) : Bool :=
  service.clusterIP != clusterIPNone && service.clusterIP != ""
attribute [grind] isServiceIPSet

/-- The labels whose key is not reserved, as the two loops of `setEndpointSliceLabels` copy
them. -/
def unreservedLabels (labels : AList fun _ : String => String) :
    AList fun _ : String => String where
  entries := labels.entries.filter fun label => !isReservedLabelKey label.1
  nodupKeys := labels.nodupKeys.sublist List.filter_sublist
attribute [grind] unreservedLabels

variable {α κ : Type}

/-- `setEndpointSliceLabels`: the service's labels that are not reserved, with the headless label
for a service without a cluster IP and the two labels of the controller; and whether the slice's
labels that are not reserved differ from the service's (`apiequality.Semantic.DeepEqual` of two
maps, the same keys with the same values). -/
def setEndpointSliceLabels (epSlice : EndpointSlice α) (service : Service) :
    (AList fun _ : String => String) × Bool :=
  let epLabels := unreservedLabels epSlice.labels
  let svcLabels := unreservedLabels service.labels
  let updated := !decide (epLabels.entries.Perm svcLabels.entries)
  let svcLabels :=
    if !isServiceIPSet service then svcLabels.insert isHeadlessService ""
    else svcLabels.erase isHeadlessService
  ((svcLabels.insert labelServiceName service.name).insert labelManagedBy controllerName, updated)
attribute [grind] setEndpointSliceLabels

/-- `newEndpointSlice`: no name yet (the API server generates one), owned by the service, and
no endpoints. -/
def newEndpointSlice (service : Service) (endpointMeta : EndpointMeta) : EndpointSlice α :=
  let epSlice : EndpointSlice α :=
    { name := ""
      labels := ∅
      ownerReferences := [⟨"v1", "Service", service.name, service.uid⟩]
      addressType := endpointMeta.addressType
      endpoints := [] }
  { epSlice with labels := (setEndpointSliceLabels epSlice service).1 }
attribute [grind] newEndpointSlice

/-- `ownedBy`. -/
def ownedBy (endpointSlice : EndpointSlice α) (svc : Service) : Bool :=
  endpointSlice.ownerReferences.any fun o =>
    o.uid == svc.uid && o.kind == "Service" && o.apiVersion == "v1"
attribute [grind] ownedBy

/-- The loop of `getSliceToFill` from the closest difference found so far. -/
def getSliceToFillLoop (numEndpoints maxEndpoints : Int) :
    Int → Option (EndpointSlice α) → List (EndpointSlice α) → Option (EndpointSlice α)
  | _, closestSlice, [] => closestSlice
  | closestDiff, closestSlice, endpointSlice :: endpointSlices =>
      let currentDiff := maxEndpoints - (numEndpoints + endpointSlice.endpoints.length)
      if currentDiff ≥ 0 ∧ currentDiff < closestDiff then
        if currentDiff = 0 then some endpointSlice
        else getSliceToFillLoop numEndpoints maxEndpoints currentDiff (some endpointSlice)
          endpointSlices
      else getSliceToFillLoop numEndpoints maxEndpoints closestDiff closestSlice endpointSlices
attribute [grind] getSliceToFillLoop

/-- `getSliceToFill`: the first slice that would be closest to full with `numEndpoints` more. -/
def getSliceToFill (endpointSlices : List (EndpointSlice α)) (numEndpoints maxEndpoints : Int) :
    Option (EndpointSlice α) :=
  getSliceToFillLoop numEndpoints maxEndpoints maxEndpoints none endpointSlices
attribute [grind] getSliceToFill

/-- A slice the loop of `getSliceToFill` returns is the one it started from, or one of the list
that the endpoints fit in. -/
theorem getSliceToFillLoop_eq_some {numEndpoints maxEndpoints closestDiff : Int}
    {closestSlice : Option (EndpointSlice α)} {endpointSlices : List (EndpointSlice α)}
    {slice : EndpointSlice α}
    (h : getSliceToFillLoop numEndpoints maxEndpoints closestDiff closestSlice endpointSlices =
      some slice) :
    closestSlice = some slice ∨
      (slice ∈ endpointSlices ∧ numEndpoints + slice.endpoints.length ≤ maxEndpoints) := by
  induction endpointSlices generalizing closestDiff closestSlice with
  | nil => exact .inl h
  | cons endpointSlice endpointSlices ih =>
    simp only [getSliceToFillLoop] at h
    split_ifs at h with hcloser hzero
    · -- the difference is zero: this slice is returned at once
      cases h
      exact .inr ⟨List.mem_cons_self, by omega⟩
    · rcases ih h with hsome | ⟨hmem, hfit⟩
      · cases hsome
        exact .inr ⟨List.mem_cons_self, by omega⟩
      · exact .inr ⟨List.mem_cons_of_mem _ hmem, hfit⟩
    · rcases ih h with hsome | ⟨hmem, hfit⟩
      · exact .inl hsome
      · exact .inr ⟨List.mem_cons_of_mem _ hmem, hfit⟩

/-- `getSliceToFill` returns a slice of the list that the endpoints fit in. -/
theorem getSliceToFill_eq_some {endpointSlices : List (EndpointSlice α)}
    {numEndpoints maxEndpoints : Int} {slice : EndpointSlice α}
    (h : getSliceToFill endpointSlices numEndpoints maxEndpoints = some slice) :
    slice ∈ endpointSlices ∧ numEndpoints + slice.endpoints.length ≤ maxEndpoints := by
  rcases getSliceToFillLoop_eq_some h with hnone | hfit
  · cases hnone
  · exact hfit

/-! ## `reconcileByPortMapping` -/

/-- The state `reconcileByPortMapping` carries from one loop to the next. -/
structure State (α : Type) (hash : α → κ) where
  slicesByName : String → Option (EndpointSlice α)
  sliceNamesUnchanged : List String
  sliceNamesToUpdate : List String
  sliceNamesToDelete : List String
  numRemoved : Nat
  desiredSet : EndpointSet hash

/-- `sets.String.Insert`: the name, after the names already in the set. -/
def insertName (name : String) (names : List String) : List String :=
  if name ∈ names then names else names ++ [name]
attribute [grind] insertName

theorem mem_insertName {name other : String} {names : List String} :
    other ∈ insertName name names ↔ other = name ∨ other ∈ names := by
  unfold insertName
  split_ifs with h
  · constructor
    · exact .inr
    · rintro (rfl | h') <;> assumption
  · simp [or_comm]

theorem insertName_of_not_mem {name : String} {names : List String} (h : name ∉ names) :
    insertName name names = names ++ [name] := by
  simp [insertName, h]

variable [DecidableEq κ] {hash : α → κ} (equalBeyondHash : α → α → Bool)
  (unsortedList : List String → List String)

/-- The state before the first loop. -/
def State.init (desiredSet : EndpointSet hash) : State α hash :=
  ⟨fun _ => none, [], [], [], 0, desiredSet⟩
attribute [grind] State.init

/-- The inner loop of the first step over the endpoints of one existing slice: the desired
version of each endpoint still desired, whether one of them differs beyond its hash
(`EndpointsEqualBeyondHash`), and the desired set without them. -/
def keepDesired (desiredSet : EndpointSet hash) :
    List α → List α × Bool × EndpointSet hash
  | [] => ([], false, desiredSet)
  | endpoint :: endpoints =>
      match desiredSet.get endpoint with
      | some got =>
          let rest := keepDesired (desiredSet.delete endpoint) endpoints
          (got :: rest.1, !equalBeyondHash got endpoint || rest.2.1, rest.2.2)
      | none => keepDesired desiredSet endpoints
attribute [grind] keepDesired

/-- The endpoints kept, followed by the desired set left, are the desired set reordered: the loop
moves each desired endpoint it finds once, and loses none. -/
theorem keepDesired_perm (desiredSet : EndpointSet hash) (endpoints : List α) :
    ((keepDesired equalBeyondHash desiredSet endpoints).1 ++
      (keepDesired equalBeyondHash desiredSet endpoints).2.2.entries).Perm desiredSet.entries := by
  induction endpoints generalizing desiredSet with
  | nil => simp [keepDesired]
  | cons endpoint endpoints ih =>
    cases hget : desiredSet.get endpoint with
    | none => simpa [keepDesired, hget] using ih desiredSet
    | some got =>
      obtain ⟨hmem, hhash⟩ := EndpointSet.mem_of_get hget
      simp only [keepDesired, hget, List.cons_append]
      exact ((ih (desiredSet.delete endpoint)).cons got).trans
        (EndpointSet.perm_cons_delete hmem hhash).symm

/-- The desired set left: the desired endpoints whose hash no endpoint of the slice has. -/
theorem keepDesired_entries (desiredSet : EndpointSet hash) (endpoints : List α) :
    (keepDesired equalBeyondHash desiredSet endpoints).2.2.entries =
      desiredSet.entries.filter fun d => hash d ∉ endpoints.map hash := by
  induction endpoints generalizing desiredSet with
  | nil => simp [keepDesired]
  | cons endpoint endpoints ih =>
    cases hget : desiredSet.get endpoint with
    | none =>
      have hnone := EndpointSet.get_eq_none.mp hget
      simp only [keepDesired, hget, ih]
      apply List.filter_congr
      intro d hd
      simp [hnone d hd]
    | some got =>
      simp only [keepDesired, hget, ih, EndpointSet.entries_delete, List.filter_filter]
      apply List.filter_congr
      intro d _
      by_cases hfirst : hash d = hash endpoint <;>
        by_cases hrest : hash d ∈ endpoints.map hash <;> simp [hfirst, hrest]

theorem keepDesired_length_le (desiredSet : EndpointSet hash) (endpoints : List α) :
    (keepDesired equalBeyondHash desiredSet endpoints).1.length ≤ endpoints.length := by
  induction endpoints generalizing desiredSet with
  | nil => simp [keepDesired]
  | cons endpoint endpoints ih =>
    cases hget : desiredSet.get endpoint with
    | none => simpa [keepDesired, hget] using (ih desiredSet).trans (Nat.le_succ _)
    | some got => simpa [keepDesired, hget] using ih (desiredSet.delete endpoint)

/-- A slice that keeps as many endpoints as it has keeps one of each of their hashes, and when
none of them changed, each is equal beyond its hash to the desired one. -/
theorem keepDesired_of_length_eq {desiredSet : EndpointSet hash} {endpoints : List α}
    (hlen : (keepDesired equalBeyondHash desiredSet endpoints).1.length = endpoints.length) :
    (keepDesired equalBeyondHash desiredSet endpoints).1.map hash = endpoints.map hash ∧
      ((keepDesired equalBeyondHash desiredSet endpoints).2.1 = false →
        ∀ e ∈ endpoints, ∃ d ∈ desiredSet.entries,
          hash d = hash e ∧ equalBeyondHash d e = true) := by
  induction endpoints generalizing desiredSet with
  | nil => simp [keepDesired]
  | cons endpoint endpoints ih =>
    cases hget : desiredSet.get endpoint with
    | none =>
      -- a slice that drops an endpoint keeps fewer than it has
      have hle := keepDesired_length_le equalBeyondHash desiredSet endpoints
      simp only [keepDesired, hget, List.length_cons] at hlen
      omega
    | some got =>
      obtain ⟨hmem, hhash⟩ := EndpointSet.mem_of_get hget
      simp only [keepDesired, hget, List.length_cons, Nat.add_right_cancel_iff] at hlen
      obtain ⟨ihash, istale⟩ := ih hlen
      refine ⟨by simp [keepDesired, hget, ihash, hhash], ?_⟩
      simp only [keepDesired, hget, Bool.or_eq_false_iff, Bool.not_eq_false'] at ⊢
      rintro ⟨hequal, hrest⟩ e he
      rcases List.mem_cons.mp he with rfl | he
      · exact ⟨got, hmem, hhash, hequal⟩
      · obtain ⟨d, hd, hdhash, hdequal⟩ := istale hrest e he
        exact ⟨d, List.mem_of_mem_filter hd, hdhash, hdequal⟩

/-- One turn of the first loop, over an existing slice. -/
def reconcileExisting (service : Service) (st : State α hash) (existingSlice : EndpointSlice α) :
    State α hash :=
  let slicesByName := Function.update st.slicesByName existingSlice.name (some existingSlice)
  let kept := keepDesired equalBeyondHash st.desiredSet existingSlice.endpoints
  let newEndpoints := kept.1
  let labels := setEndpointSliceLabels existingSlice service
  if kept.2.1 || existingSlice.endpoints.length != newEndpoints.length then
    let numRemoved :=
      if existingSlice.endpoints.length > newEndpoints.length then
        st.numRemoved + (existingSlice.endpoints.length - newEndpoints.length)
      else st.numRemoved
    if newEndpoints.length = 0 then
      { st with
        slicesByName, numRemoved, desiredSet := kept.2.2
        sliceNamesToDelete := insertName existingSlice.name st.sliceNamesToDelete }
    else
      let epSlice := { existingSlice with endpoints := newEndpoints, labels := labels.1 }
      { st with
        slicesByName := Function.update slicesByName epSlice.name (some epSlice)
        numRemoved, desiredSet := kept.2.2
        sliceNamesToUpdate := insertName epSlice.name st.sliceNamesToUpdate }
  else if labels.2 then
    let epSlice := { existingSlice with labels := labels.1 }
    { st with
      slicesByName := Function.update slicesByName epSlice.name (some epSlice)
      desiredSet := kept.2.2
      sliceNamesToUpdate := insertName epSlice.name st.sliceNamesToUpdate }
  else
    { st with
      slicesByName, desiredSet := kept.2.2
      sliceNamesUnchanged := insertName existingSlice.name st.sliceNamesUnchanged }
attribute [grind] reconcileExisting

/-- The loop of the second step over the slices to update, each under its name: filled through
the pointer that `slicesByName` holds. -/
def fillSlices (maxEndpointsPerSlice : Nat) :
    State α hash → List (String × EndpointSlice α) → State α hash
  | st, [] => st
  | st, (sliceName, slice) :: slices =>
      let filled := fill maxEndpointsPerSlice slice.endpoints st.desiredSet
      fillSlices maxEndpointsPerSlice
        { st with
          slicesByName := Function.update st.slicesByName sliceName
            (some { slice with endpoints := filled.1 })
          desiredSet := filled.2 }
        slices
attribute [grind] fillSlices

/-- The second step: the slices to update, fullest first (`endpointSliceEndpointLen`), filled
with the desired endpoints left.  A name of the set that `slicesByName` lacks would be a nil
pointer in Go; it never is one. -/
def fillSlicesToUpdate (maxEndpointsPerSlice : Nat) (st : State α hash) : State α hash :=
  if st.desiredSet.len > 0 ∧ st.sliceNamesToUpdate.length > 0 then
    let slices := (unsortedList st.sliceNamesToUpdate).filterMap fun sliceName =>
      (st.slicesByName sliceName).map fun slice => (sliceName, slice)
    fillSlices maxEndpointsPerSlice st
      (Go.sort slices fun a b => decide (a.2.endpoints.length > b.2.endpoints.length))
  else st
attribute [grind] fillSlicesToUpdate

/-- One turn of the loop of the third step: an unchanged slice that all the endpoints left fit
in, when they are fewer than a slice holds, or else a new slice, filled; an unchanged slice is
copied into `slicesByName` before it is filled and is then to be updated. -/
def fillOrCreate (maxEndpointsPerSlice : Nat) (service : Service) (endpointMeta : EndpointMeta)
    (st : State α hash) (slicesToCreate : List (EndpointSlice α)) :
    State α hash × List (EndpointSlice α) :=
  let sliceToFill :=
    if st.desiredSet.len < maxEndpointsPerSlice ∧ st.sliceNamesUnchanged.length > 0 then
      getSliceToFill ((unsortedList st.sliceNamesUnchanged).filterMap st.slicesByName)
        st.desiredSet.len maxEndpointsPerSlice
    else none
  let slice := sliceToFill.getD (newEndpointSlice service endpointMeta)
  let filled := fill maxEndpointsPerSlice slice.endpoints st.desiredSet
  let slice := { slice with endpoints := filled.1 }
  let slicesByName :=
    if sliceToFill.isSome then Function.update st.slicesByName slice.name (some slice)
    else st.slicesByName
  if slice.name ≠ "" then
    ({ st with
        slicesByName, desiredSet := filled.2
        sliceNamesToUpdate := insertName slice.name st.sliceNamesToUpdate
        sliceNamesUnchanged := st.sliceNamesUnchanged.erase slice.name },
      slicesToCreate)
  else ({ st with slicesByName, desiredSet := filled.2 }, slicesToCreate ++ [slice])
attribute [grind] fillOrCreate

/-- The loop of the third step, while desired endpoints are left.  Each turn fills a slice with
room for one endpoint at least, so `fuel` at the number of endpoints left is enough. -/
def fillOrCreateLoop (maxEndpointsPerSlice : Nat) (service : Service)
    (endpointMeta : EndpointMeta) :
    Nat → State α hash → List (EndpointSlice α) → State α hash × List (EndpointSlice α)
  | 0, st, slicesToCreate => (st, slicesToCreate)
  | fuel + 1, st, slicesToCreate =>
      if st.desiredSet.len > 0 then
        let next := fillOrCreate unsortedList maxEndpointsPerSlice service endpointMeta st
          slicesToCreate
        fillOrCreateLoop maxEndpointsPerSlice service endpointMeta fuel next.1 next.2
      else (st, slicesToCreate)
attribute [grind] fillOrCreateLoop

/-- `reconcileByPortMapping`: the slices to create, to update and to delete, the number of
endpoints added and the number removed. -/
def reconcileByPortMapping (r : Reconciler) (service : Service)
    (existingSlices : List (EndpointSlice α)) (desiredSet : EndpointSet hash)
    (endpointMeta : EndpointMeta) :
    List (EndpointSlice α) × List (EndpointSlice α) × List (EndpointSlice α) × Nat × Nat :=
  let st := existingSlices.foldl (reconcileExisting equalBeyondHash service) (State.init desiredSet)
  let numAdded := st.desiredSet.len
  let st := fillSlicesToUpdate unsortedList r.maxEndpointsPerSlice st
  let created := fillOrCreateLoop unsortedList r.maxEndpointsPerSlice service endpointMeta
    st.desiredSet.len st []
  let st := created.1
  let slicesToUpdate := (unsortedList st.sliceNamesToUpdate).filterMap st.slicesByName
  let slicesToDelete := (unsortedList st.sliceNamesToDelete).filterMap st.slicesByName
  (created.2, slicesToUpdate, slicesToDelete, numAdded, st.numRemoved)
attribute [grind] reconcileByPortMapping

/-- Two existing slices whose labels lack the service's `app` label: `web-a` has no endpoints,
and `web-b` has the one desired endpoint with hints from an earlier sync.  Both are to be
updated for their labels alone, and no desired endpoint is left to fill them: `web-a` is updated
with no endpoints, and `web-b` with its own endpoint, which has the hash of the desired one and
is equal to it beyond the hash, but is not it. -/
theorem reconcileByPortMapping_updates_empty_and_stale :
    hashEndpoint ⟨["10.1.0.1"], some true, some true, some false, none,
        some ⟨"Pod", "ns", "web-0", "p0"⟩, some "node-a", some "zone-a", some ["zone-a"]⟩ =
      hashEndpoint ⟨["10.1.0.1"], some true, some true, some false, none,
        some ⟨"Pod", "ns", "web-0", "p0"⟩, some "node-a", some "zone-a", none⟩ ∧
    endpointsEqualBeyondHash
        ⟨["10.1.0.1"], some true, some true, some false, none,
          some ⟨"Pod", "ns", "web-0", "p0"⟩, some "node-a", some "zone-a", none⟩
        ⟨["10.1.0.1"], some true, some true, some false, none,
          some ⟨"Pod", "ns", "web-0", "p0"⟩, some "node-a", some "zone-a", some ["zone-a"]⟩ =
      true ∧
    (reconcileByPortMapping endpointsEqualBeyondHash id ⟨100, by decide⟩
        ⟨"web", "svc-uid", (∅ : AList fun _ : String => String).insert "app" "web",
          "10.0.0.1"⟩
        [⟨"web-a", ∅, [], .ipv4, []⟩,
          ⟨"web-b", ∅, [], .ipv4, [⟨["10.1.0.1"], some true, some true, some false, none,
            some ⟨"Pod", "ns", "web-0", "p0"⟩, some "node-a", some "zone-a",
            some ["zone-a"]⟩]⟩]
        (⟨[⟨["10.1.0.1"], some true, some true, some false, none,
            some ⟨"Pod", "ns", "web-0", "p0"⟩, some "node-a", some "zone-a", none⟩],
            by decide⟩ :
          EndpointSet hashEndpoint)
        ⟨.ipv4⟩).2.1.map (fun slice => (slice.name, slice.endpoints)) =
      [("web-a", []),
        ("web-b", [⟨["10.1.0.1"], some true, some true, some false, none,
          some ⟨"Pod", "ns", "web-0", "p0"⟩, some "node-a", some "zone-a",
          some ["zone-a"]⟩])] :=
  ⟨by decide, by decide, by decide⟩

end EndpointSlice
end Kubernetes
