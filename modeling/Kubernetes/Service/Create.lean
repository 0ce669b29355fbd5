import Mathlib
import Kubernetes.Service.Families

/-!
# Creating a service: where it can panic

`allocateCreate` runs `initIPFamilyFields`, then reserves the cluster IPs, then the node
ports.  Two of its steps can dereference a nil pointer: `allocIPs` calls a method on the
allocator of a family the cluster lacks, and `shouldAllocateNodePorts` reads an unset
`allocateLoadBalancerNodePorts`.  The first cannot happen after `initIPFamilyFields` has
succeeded: every family it leaves on a service that gets cluster IPs has an allocator
(`txnAllocClusterIPs_of_initIPFamilyFields`).  So creating a service with the initialisation
Go runs dereferences a nil pointer only for a LoadBalancer service whose
`allocateLoadBalancerNodePorts` is unset (`allocateCreate_panic_of_initIPFamilyFields`).

The argument follows the three steps.  Each leaves the service's type and
`allocateLoadBalancerNodePorts` as they were (`Service.kind`), the other errors it returns are
`Invalid` errors or internal errors whose text starts with "failed", and the node-port loop
panics only where `shouldAllocateNodePorts` does.
-/

set_option linter.dupNamespace false

namespace Kubernetes
namespace Service

/-- A text that starts with `f` is not the panic's. -/
theorem ne_panicNilPointer_of_head {s : String} (h : s.toList.head? = some 'f') :
    s ≠ panicNilPointer := by
  intro he
  rw [he] at h
  simp [panicNilPointer] at h

/-! ## Cluster IPs -/

theorem serviceIPError_ne_panicNilPointer (err : String) :
    "failed to allocate a serviceIP: " ++ err ≠ panicNilPointer :=
  ne_panicNilPointer_of_head (by simp)

/-- `allocIPs` dereferences a missing allocator only for a family the cluster does not have. -/
theorem allocIPs_ne_panic {service : Service} {dryRun : Bool} :
    ∀ {al : Allocators} {allocated toAlloc : List (IPFamily × String)},
      (∀ p ∈ toAlloc, (al.serviceIPAllocatorsByFamily p.1).isSome) →
      (allocIPs service dryRun al allocated toAlloc).2.2 ≠ some (.internal panicNilPointer)
  | _, _, [], _ => by simp [allocIPs]
  | al, allocated, (family, ip) :: toAlloc, hfam => by
      obtain ⟨allocator, halloc⟩ :=
        Option.isSome_iff_exists.mp (hfam (family, ip) (List.mem_cons_self ..))
      -- the allocators after one reservation still have every family they had
      have hkeep : ∀ r : IPRange, ∀ p ∈ toAlloc,
          ((al.setIPAllocator family r).serviceIPAllocatorsByFamily p.1).isSome := by
        intro r p hp
        show (Function.update al.serviceIPAllocatorsByFamily family (some r) p.1).isSome
        by_cases hpf : p.1 = family
        · simp [hpf]
        · rw [Function.update_of_ne hpf]
          exact hfam p (List.mem_cons_of_mem _ hp)
      unfold allocIPs
      rw [halloc]
      dsimp only
      split_ifs with hip
      · split
        · next err _ =>
          simpa using serviceIPError_ne_panicNilPointer err
        · exact allocIPs_ne_panic (hkeep _)
      · split
        · simp
        · exact allocIPs_ne_panic (hkeep _)

/-- Every family `toAllocOf` hands out is one of the service's. -/
theorem mem_toAllocOf {service : Service} {p : IPFamily × String} (hp : p ∈ toAllocOf service) :
    p.1 ∈ service.ipFamilies := by
  simp only [toAllocOf, List.mem_map] at hp
  obtain ⟨⟨family, i⟩, hmem, rfl⟩ := hp
  obtain ⟨-, hi, hfamily⟩ := List.mem_zipIdx hmem
  rw [hfamily]
  exact List.getElem_mem _

theorem allocClusterIPs_ne_panic {al : Allocators} {service : Service} {dryRun : Bool}
    (hfam : ∀ family ∈ service.ipFamilies, (al.serviceIPAllocatorsByFamily family).isSome) :
    (allocClusterIPs al service dryRun).2.2.2 ≠ some (.internal panicNilPointer) := by
  unfold allocClusterIPs
  split_ifs with hext hnone
  · simp
  · simp
  · dsimp only
    split
    · simp
    · next err herr =>
      rw [← herr]
      exact allocIPs_ne_panic fun p hp => hfam _ (@mem_toAllocOf { service with
        clusterIPs := service.clusterIPs ++
          List.replicate (service.ipFamilies.length - service.clusterIPs.length) "" } p hp)

/-- After a successful `initIPFamilyFields` on a cluster whose default family has an allocator,
cluster-IP allocation never dereferences a missing allocator: an `ExternalName` or headless
service is given no cluster IP, and every other has only families with an allocator. -/
theorem txnAllocClusterIPs_of_initIPFamilyFields {al : Allocators}
    {ipFamilyPolicy : Option IPFamilyPolicy} {selectorEmpty : Bool} {service service' : Service}
    {policy : Option IPFamilyPolicy}
    (hdef : (al.serviceIPAllocatorsByFamily al.defaultServiceIPFamily).isSome)
    (h : al.initIPFamilyFields ipFamilyPolicy selectorEmpty service = .ok (service', policy))
    (dryRun : Bool) :
    (txnAllocClusterIPs al service' dryRun).2.2 ≠ .error (.internal panicNilPointer) := by
  have hframe := initIPFamilyFields_frame h
  -- allocation fails with the error `allocClusterIPs` returns, if any
  suffices hne : (allocClusterIPs al service' dryRun).2.2.2 ≠ some (.internal panicNilPointer) by
    unfold txnAllocClusterIPs
    dsimp only
    split
    · next err herr => intro he; cases he; exact hne herr
    · simp
  by_cases htype : service.type = .externalName
  · have htype' : service'.type = .externalName := by rw [hframe]; exact htype
    unfold allocClusterIPs
    rw [if_pos htype']
    simp
  by_cases hspecial : service.clusterIP = clusterIPNone ∧ selectorEmpty = true
  · -- headless without selector: validation made `None` the first cluster IP
    have hv := clusterIPsValid_of_validate htype (initIPFamilyFields_ok_valid htype h).1
    have hhead : service'.clusterIPs.head? = some clusterIPNone := by
      rw [hframe]
      exact hspecial.1 ▸ hv.head (by rw [hspecial.1]; decide)
    unfold allocClusterIPs
    rw [if_neg (by rw [hframe]; exact htype), if_pos hhead]
    simp
  · exact allocClusterIPs_ne_panic (initIPFamilyFields_ipFamilies hdef htype hspecial h).2.2.1

/-! ## Node ports -/

/-- What the node-port code reads to decide whether to dereference
`allocateLoadBalancerNodePorts`: the type of the service and that field. -/
def Service.kind (service : Service) : ServiceType × Option Bool :=
  (service.type, service.allocateLoadBalancerNodePorts)
attribute [grind] Service.kind

theorem service_eq_of_allocate {st st' : PortState} {port : Nat} {r : Except String Unit}
    (h : st.allocate port = (st', r)) : st'.service = st.service := by
  unfold PortState.allocate at h
  cases hop : st.op.allocate st.pa port
  rw [hop] at h
  cases h
  rfl

theorem service_eq_of_allocateNext {st st' : PortState} {r : Except String Nat}
    (h : st.allocateNext = (st', r)) : st'.service = st.service := by
  unfold PortState.allocateNext at h
  cases hop : st.op.allocateNext st.pa
  rw [hop] at h
  cases h
  rfl

@[simp] theorem kind_setNodePort (st : PortState) (i nodePort : Nat) :
    (st.setNodePort i nodePort).service.kind = st.service.kind := rfl

/-- One round of the node-port loop keeps the kind of the service: the state comes back as it
was, or after an allocation, which keeps the service, possibly with a node port set. -/
theorem initNodePort_kind (st : PortState) (assigned : List (Nat × Nat)) (i : Nat) :
    (initNodePort st assigned i).1.service.kind = st.service.kind := by
  fun_cases initNodePort st assigned i
  all_goals first
    | rfl
    | simp [service_eq_of_allocate ‹_›]
    | simp [service_eq_of_allocateNext ‹_›]

/-- `shouldAllocateNodePorts` panics only on a LoadBalancer without
`allocateLoadBalancerNodePorts`. -/
theorem skipNodePort_panic {service : Service} {servicePort : ServicePort}
    (h : skipNodePort service servicePort = .error (.internal panicNilPointer)) :
    service.type = .loadBalancer ∧ service.allocateLoadBalancerNodePorts = none := by
  unfold skipNodePort at h
  split_ifs at h
  unfold shouldAllocateNodePorts at h
  split at h
  · cases h
  · next htype =>
    split at h
    · cases h
    · exact ⟨htype, by assumption⟩
  · cases h

theorem nodePortError_ne_panicNilPointer (err : String) :
    "failed to allocate a nodePort: " ++ err ≠ panicNilPointer :=
  ne_panicNilPointer_of_head (by simp)

/-- What one round of the node-port loop can fail with: the error of `shouldAllocateNodePorts`,
an `Invalid` error for a node port that cannot be had, or an internal one when none is free. -/
theorem initNodePort_error {st : PortState} {assigned : List (Nat × Nat)} {i : Nat}
    {err : StatusError} (h : (initNodePort st assigned i).2.2 = .error err) :
    (∃ servicePort, skipNodePort st.service servicePort = .error err) ∨
      (∃ name causes, err = .invalid name causes) ∨
      ∃ msg, err = .internal ("failed to allocate a nodePort: " ++ msg) := by
  unfold initNodePort at h
  split at h
  · cases h
  · next servicePort _ =>
    split at h
    · next hskip =>
      cases h
      exact .inl ⟨servicePort, hskip⟩
    · cases h
    · -- the port is not skipped: the errors are those of reserving its node port, the branches
      -- that reserve none succeed
      right
      dsimp only at h
      split_ifs at h
      · split at h
        · cases h
          exact .inl ⟨_, _, rfl⟩
        · cases h
      · split at h
        · cases h
          exact .inr ⟨_, rfl⟩
        · cases h
      · split at h
        · cases h
          exact .inl ⟨_, _, rfl⟩
        · cases h

/-- One round of the node-port loop panics only where `shouldAllocateNodePorts` does. -/
theorem initNodePort_panic {st : PortState} {assigned : List (Nat × Nat)} {i : Nat}
    (h : (initNodePort st assigned i).2.2 = .error (.internal panicNilPointer)) :
    st.service.type = .loadBalancer ∧ st.service.allocateLoadBalancerNodePorts = none := by
  rcases initNodePort_error h with ⟨servicePort, hskip⟩ | ⟨name, causes, hinvalid⟩ | ⟨msg, hmsg⟩
  · exact skipNodePort_panic hskip
  · cases hinvalid
  · exact absurd (StatusError.internal.inj hmsg).symm (nodePortError_ne_panicNilPointer msg)

/-- Whether node-port allocation can panic reads the service's `Service.kind` only. -/
theorem loadBalancerUnset_of_kind {service service' : Service} (hkind : service'.kind = service.kind)
    (h : service'.type = .loadBalancer ∧ service'.allocateLoadBalancerNodePorts = none) :
    service.type = .loadBalancer ∧ service.allocateLoadBalancerNodePorts = none := by
  simp only [Service.kind, Prod.mk.injEq] at hkind
  rw [← hkind.1, ← hkind.2]
  exact h

/-- The node-port loop keeps the kind of the service and panics only where
`shouldAllocateNodePorts` does. -/
theorem initNodePortsLoop_panic :
    ∀ {st : PortState} {assigned : List (Nat × Nat)} {is : List Nat},
      (initNodePortsLoop st assigned is).2 = .error (.internal panicNilPointer) →
      st.service.type = .loadBalancer ∧ st.service.allocateLoadBalancerNodePorts = none
  | _, _, [], h => by cases h
  | st, assigned, i :: is, h => by
      unfold initNodePortsLoop at h
      have hkind := initNodePort_kind st assigned i
      split at h
      · next st1 assigned1 hround =>
        -- the loop goes on from a state of the same kind
        rw [hround] at hkind
        exact loadBalancerUnset_of_kind hkind (initNodePortsLoop_panic h)
      · next st1 assigned1 err hround =>
        refine @initNodePort_panic st assigned i ?_
        rw [hround]
        exact h

theorem allocHealthCheckNodePort_error {st st1 : PortState} {err : String}
    (h : allocHealthCheckNodePort st = (st1, .error err)) : err ≠ panicNilPointer := by
  unfold allocHealthCheckNodePort at h
  dsimp only at h
  split_ifs at h
  · split at h
    · cases h
      exact ne_panicNilPointer_of_head (by simp)
    · cases h
  · split at h
    · cases h
      exact ne_panicNilPointer_of_head (by simp)
    · cases h

/-- Node-port allocation panics only on a LoadBalancer without
`allocateLoadBalancerNodePorts`. -/
theorem txnAllocNodePorts_panic {al : Allocators} {service : Service} {dryRun : Bool}
    (h : (txnAllocNodePorts al service dryRun).2.2 = .error (.internal panicNilPointer)) :
    service.type = .loadBalancer ∧ service.allocateLoadBalancerNodePorts = none := by
  unfold txnAllocNodePorts at h
  dsimp only at h
  split at h
  · next st err hports =>
    cases h
    split_ifs at hports with hkind
    · exact initNodePortsLoop_panic (by rw [initNodePorts] at hports; rw [hports])
    · cases hports
  · next st hports =>
    split at h
    · next st1 err hhealth =>
      cases h
      split_ifs at hhealth with hneeds
      · exact absurd rfl (allocHealthCheckNodePort_error hhealth)
      · cases hhealth
    · cases h

/-! ## The whole call -/

/-- `initIPFamilyFields` reports only `Invalid` errors. -/
theorem initIPFamilyFields_error {al : Allocators} {ipFamilyPolicy : Option IPFamilyPolicy}
    {selectorEmpty : Bool} {service : Service} {err : StatusError}
    (h : al.initIPFamilyFields ipFamilyPolicy selectorEmpty service = .error err) :
    ∃ name causes, err = .invalid name causes := by
  unfold Allocators.initIPFamilyFields at h
  dsimp only at h
  split_ifs at h <;> cases h <;> exact ⟨_, _, rfl⟩

/-- A loop whose every round keeps the kind of the service keeps it. -/
theorem kind_foldl {β : Type} (f : Service → β → Service) (hf : ∀ s b, (f s b).kind = s.kind) :
    ∀ (l : List β) (s : Service), (l.foldl f s).kind = s.kind
  | [], _ => rfl
  | b :: l, s => (kind_foldl f hf l (f s b)).trans (hf s b)

/-- Writing the reserved IPs changes `clusterIPs` and `clusterIP` only. -/
theorem kind_setClusterIPs (service : Service) (allocated : List (IPFamily × String)) :
    (setClusterIPs service allocated).kind = service.kind := by
  unfold setClusterIPs
  refine kind_foldl _ (fun s p => ?_) _ _
  obtain ⟨family, ip⟩ := p
  refine kind_foldl _ (fun s q => ?_) _ _
  obtain ⟨check, i⟩ := q
  dsimp only
  split_ifs <;> rfl

/-- Cluster-IP allocation changes the cluster IPs of the service only. -/
theorem allocClusterIPs_kind (al : Allocators) (service : Service) (dryRun : Bool) :
    (allocClusterIPs al service dryRun).2.1.kind = service.kind := by
  unfold allocClusterIPs
  by_cases hext : service.type = .externalName
  · rw [if_pos hext]
  · rw [if_neg hext]
    by_cases hnone : service.clusterIPs.head? = some clusterIPNone
    · rw [if_pos hnone]
    · -- the padded service, then the reserved IPs written into it
      rw [if_neg hnone]
      dsimp only
      split
      · exact kind_setClusterIPs _ _
      · rfl

/-- The service that cluster-IP allocation hands on has the kind it was given. -/
theorem txnAllocClusterIPs_kind (al : Allocators) (service : Service) (dryRun : Bool) :
    (txnAllocClusterIPs al service dryRun).2.1.kind = service.kind := by
  have hkind := allocClusterIPs_kind al service dryRun
  unfold txnAllocClusterIPs
  rcases hc : allocClusterIPs al service dryRun with ⟨al', service', allocated, err⟩
  rw [hc] at hkind
  cases err <;> exact hkind

/-- Creating a service with the family initialisation Go runs, on a cluster whose default
family has an allocator, dereferences a nil pointer only for a LoadBalancer service whose
`allocateLoadBalancerNodePorts` is unset: the initialisation reports `Invalid` errors only,
cluster-IP allocation finds an allocator for every family, and node-port allocation panics
only in `shouldAllocateNodePorts`. -/
theorem allocateCreate_panic_of_initIPFamilyFields {al : Allocators}
    {ipFamilyPolicy : Option IPFamilyPolicy} {selectorEmpty : Bool} {service : Service}
    {dryRun : Bool}
    (hdef : (al.serviceIPAllocatorsByFamily al.defaultServiceIPFamily).isSome)
    (h : (allocateCreate (fun s => Prod.fst <$> al.initIPFamilyFields ipFamilyPolicy selectorEmpty s)
      al service dryRun).2.2 = .error (.internal panicNilPointer)) :
    service.type = .loadBalancer ∧ service.allocateLoadBalancerNodePorts = none := by
  unfold allocateCreate at h
  dsimp only at h
  cases hinit : al.initIPFamilyFields ipFamilyPolicy selectorEmpty service with
  | error err =>
      rw [hinit] at h
      obtain ⟨name, causes, rfl⟩ := initIPFamilyFields_error hinit
      cases h
  | ok result =>
      obtain ⟨service1, policy⟩ := result
      rw [hinit] at h
      have hkind : service1.kind = service.kind := by
        rw [initIPFamilyFields_frame hinit]
        rfl
      dsimp only [Functor.map, Except.map] at h
      split at h
      · next al2 service2 err hips =>
        cases h
        exact absurd hips (fun he => txnAllocClusterIPs_of_initIPFamilyFields hdef hinit dryRun
          (by rw [he]))
      · next al2 service2 ipTxn hips =>
        have hkind2 : service2.kind = service.kind := by
          rw [← hkind, ← txnAllocClusterIPs_kind al service1 dryRun, hips]
        split at h
        · next al3 service3 err hports =>
          cases h
          exact loadBalancerUnset_of_kind hkind2 (txnAllocNodePorts_panic (by rw [hports]))
        · cases h

/-- A LoadBalancer service with one port and `allocateLoadBalancerNodePorts` unset, on a
single-stack IPv4 cluster: the panic is reached. -/
theorem allocateCreate_panic_loadBalancer :
    let v4 : IPRange := ⟨"10.0.0.0/30", "10.0.0.0", ⟨["10.0.0.1", "10.0.0.2"], fun _ => false⟩⟩
    let al : Allocators := ⟨fun family => if family = .ipv4 then some v4 else none, .ipv4,
      ⟨"30000-30001", ⟨[30000, 30001], fun _ => false⟩⟩⟩
    let service : Service := ⟨"lb", .loadBalancer, "", [], [], [⟨80, 0⟩], 0, false, none⟩
    ((al.serviceIPAllocatorsByFamily al.defaultServiceIPFamily).isSome ∧
      (allocateCreate (fun s => Prod.fst <$> al.initIPFamilyFields none false s)
        al service false).2.2 = .error (.internal panicNilPointer)) ∧
      service.type = .loadBalancer ∧ service.allocateLoadBalancerNodePorts = none := by
  dsimp only
  exact (fun h => ⟨h, allocateCreate_panic_of_initIPFamilyFields h.1 h.2⟩) ⟨rfl, rfl⟩

-- The IPv4 address leaked when the IPv6 range is full is leaked as well when the families come
-- from `initIPFamilyFields`, for a service that requires both.
example :
    let v4 : IPRange := ⟨"10.0.0.0/30", "10.0.0.0", ⟨["10.0.0.1", "10.0.0.2"], fun _ => false⟩⟩
    let v6 : IPRange := ⟨"fd00::/127", "fd00::", ⟨["fd00::1"], fun _ => true⟩⟩
    let al : Allocators := ⟨fun family => if family = .ipv4 then some v4 else some v6, .ipv4,
      ⟨"30000-30001", ⟨[30000, 30001], fun _ => false⟩⟩⟩
    let service : Service := ⟨"svc", .clusterIP, "", [], [], [], 0, false, none⟩
    let created := allocateCreate
      (fun s => Prod.fst <$> al.initIPFamilyFields (some .requireDualStack) false s) al service false
    (created.1.serviceIPAllocatorsByFamily .ipv4).map (·.alloc.used "10.0.0.1") = some true ∧
      created.2.2.isOk = false := by
  decide

end Service
end Kubernetes
