import Kubernetes.Alloc.Bitmap

/-!
# `registry/core/service/storage/alloc.go`: cluster IPs and node ports of a service

Creating a service reserves its cluster IPs, one per IP family, in the per-family IP
allocators, and its node ports (and health-check node port) in the node-port allocator.
`allocateCreate` returns a `transaction` to `Commit` once the service is stored or to
`Revert` if storing fails; when it fails itself, everything it reserved should already be
given back.  The transaction is a `metaTransaction` of two `callbackTransaction`s: the
cluster IPs' (whose revert releases the IPs `allocClusterIPs` reserved) and the node
ports' (a `PortAllocationOperation`, which records its reservations and rolls them back
unless committed).

Modelling choices:
* The allocators are the state: `Allocators` holds the IP allocator of each configured
  family and the node-port allocator, each a bitmap over its range (`Alloc.Bitmap`), as
  the in-memory `Range` and `PortAllocator` are.  A call returns the allocators as it
  leaves them; a transaction's `commit` and `revert` are functions on them.
* IP addresses are their canonical texts, which is what `allocated` records; the texts in
  a service have been validated as IPs before allocation, so parsing them never fails.
* `allocateCreate` takes the call `al.initIPFamilyFields(After{service}, Before{nil})` as its
  argument `initIPFamilyFields`: that function reads fields of the service that allocation
  does not (its `ipFamilyPolicy` and selector); `Service.Families` models it, and
  `Service.Create` runs `allocateCreate` with it.
* Go ranges over the map `toAlloc` in an order of its choosing; the model ranges over it
  in the order of the service's `ipFamilies`.
* Errors are `StatusError`s with the field paths they name; a field error's bad value is
  left out, as only its printing reads it.  Node ports and service ports are natural numbers,
  as validation makes them.
-/

set_option linter.dupNamespace false

namespace Kubernetes
namespace Service

open Alloc

/-- `api.IPFamily`. -/
inductive IPFamily
  | ipv4
  | ipv6
  deriving DecidableEq, Repr

/-- `api.ServiceType`. -/
inductive ServiceType
  | clusterIP
  | nodePort
  | loadBalancer
  | externalName
  deriving DecidableEq, Repr

/-- `api.ServicePort`: the port and its node port (`0` when unset). -/
structure ServicePort where
  port : Nat
  nodePort : Nat
  deriving DecidableEq, Repr

/-- The fields of a `Service` that allocation reads and writes. -/
structure Service where
  name : String
  type : ServiceType
  clusterIP : String
  clusterIPs : List String
  ipFamilies : List IPFamily
  ports : List ServicePort
  healthCheckNodePort : Nat
  externalTrafficPolicyLocal : Bool
  allocateLoadBalancerNodePorts : Option Bool
  deriving DecidableEq, Repr

/-- `api.ClusterIPNone`. -/
def clusterIPNone : String := "None"
attribute [grind] clusterIPNone

/-- The types of `field.Error` that the service code builds. -/
inductive FieldErrorType
  | required
  | invalid
  | duplicate
  | internal
  deriving DecidableEq, Repr

/-- `field.Error`: its type, the path of the field and the detail; the bad value is only
printed. -/
structure FieldError where
  type : FieldErrorType
  field : String
  detail : String
  deriving DecidableEq, Repr

/-- `field.Invalid(path, value, detail)`. -/
def fieldInvalid (field detail : String) : FieldError := ⟨.invalid, field, detail⟩
attribute [grind] fieldInvalid

/-- The errors of allocation: `errors.NewInternalError`, and `errors.NewInvalid` of a
`Service` with the field errors it lists. -/
inductive StatusError
  | internal (err : String)
  | invalid (name : String) (causes : List FieldError)
  deriving DecidableEq, Repr

/-! ## The allocators -/

/-- `ipallocator.Range`: its CIDR, the network address a dry run hands out, and the
bitmap of its addresses. -/
structure IPRange where
  net : String
  ip : String
  alloc : Bitmap String

/-- `ipallocator.ErrFull`. -/
def errIPFull : String := "range is full"
attribute [grind] errIPFull

/-- `ipallocator.ErrAllocated`. -/
def errIPAllocated : String := "provided IP is already allocated"
attribute [grind] errIPAllocated

namespace IPRange

/-- `Range.allocate(ip, dryRun)`: a dry run only checks the range. -/
def allocate (r : IPRange) (ip : String) (dryRun : Bool) : Except String IPRange :=
  if ip ∉ r.alloc.range then
    .error ("the provided IP (" ++ ip ++ ") is not in the valid range. The range of valid IPs is " ++ r.net)
  else if dryRun then .ok r
  else
    match r.alloc.allocate ip with
    | .ok alloc => .ok { r with alloc := alloc }
    | .error _ => .error errIPAllocated
attribute [grind] allocate

/-- `Range.allocateNext(dryRun)`: a dry run hands out the network address. -/
def allocateNext (r : IPRange) (dryRun : Bool) : Except String (String × IPRange) :=
  if dryRun then .ok (r.ip, r)
  else
    match r.alloc.allocateNext with
    | .ok (ip, alloc) => .ok (ip, { r with alloc := alloc })
    | .error _ => .error errIPFull
attribute [grind] allocateNext

/-- `Range.Release(ip)`; it cannot fail. -/
def release (r : IPRange) (ip : String) : IPRange :=
  { r with alloc := r.alloc.release ip }
attribute [grind] release

end IPRange

/-- `portallocator.PortAllocator`: its port range as text and the bitmap of its ports. -/
structure PortAllocator where
  portRange : String
  alloc : Bitmap Nat

/-- `portallocator.ErrAllocated`. -/
def errPortAllocated : String := "provided port is already allocated"
attribute [grind] errPortAllocated

namespace PortAllocator

/-- `PortAllocator.Allocate`. -/
def allocate (pa : PortAllocator) (port : Nat) : Except String PortAllocator :=
  match pa.alloc.allocate port with
  | .ok alloc => .ok { pa with alloc := alloc }
  | .error .notInRange =>
      .error ("provided port is not in the valid range. The range of valid ports is " ++ pa.portRange)
  | .error _ => .error errPortAllocated
attribute [grind] allocate

/-- `PortAllocator.AllocateNext`. -/
def allocateNext (pa : PortAllocator) : Except String (Nat × PortAllocator) :=
  match pa.alloc.allocateNext with
  | .ok (port, alloc) => .ok (port, { pa with alloc := alloc })
  | .error _ => .error "range is full"
attribute [grind] allocateNext

/-- `PortAllocator.Release`; it cannot fail. -/
def release (pa : PortAllocator) (port : Nat) : PortAllocator :=
  { pa with alloc := pa.alloc.release port }
attribute [grind] release

end PortAllocator

/-- `Allocators`: the IP allocator of each configured family, the default family, and
the node-port allocator. -/
structure Allocators where
  serviceIPAllocatorsByFamily : IPFamily → Option IPRange
  defaultServiceIPFamily : IPFamily
  serviceNodePorts : PortAllocator

/-- The allocators with the IP allocator of `family` replaced. -/
def Allocators.setIPAllocator (al : Allocators) (family : IPFamily) (r : IPRange) : Allocators :=
  { al with serviceIPAllocatorsByFamily := Function.update al.serviceIPAllocatorsByFamily family (some r) }
attribute [grind] Allocators.setIPAllocator

/-! ## Transactions -/

/-- `transaction`: what `Commit` and `Revert` do to the allocators. -/
structure Transaction where
  commit : Allocators → Allocators
  revert : Allocators → Allocators

/-- `metaTransaction`: commit or revert each transaction in turn. -/
def metaTransaction (txns : List Transaction) : Transaction where
  commit al := txns.foldl (fun al t => t.commit al) al
  revert al := txns.foldl (fun al t => t.revert al) al
attribute [grind] metaTransaction

/-! ## Cluster IPs -/

/-- The panic of a nil pointer dereference: a method called on the missing allocator of
an unconfigured family, or an unset `allocateLoadBalancerNodePorts` read. -/
def panicNilPointer : String :=
  "runtime error: invalid memory address or nil pointer dereference"
attribute [grind] panicNilPointer

/-- `allocIPs`: reserve the IP of each family in turn, the requested one or the next free
one.  On an error it returns what it reserved so far with the error. -/
def allocIPs (service : Service) (dryRun : Bool) :
    Allocators → List (IPFamily × String) → List (IPFamily × String) →
      Allocators × List (IPFamily × String) × Option StatusError
  | al, allocated, [] => (al, allocated, none)
  | al, allocated, (family, ip) :: toAlloc =>
      match al.serviceIPAllocatorsByFamily family with
      | none => (al, allocated, some (.internal panicNilPointer))
      | some allocator =>
          if ip = "" then
            match allocator.allocateNext dryRun with
            | .error err =>
                (al, allocated, some (.internal ("failed to allocate a serviceIP: " ++ err)))
            | .ok (allocatedIP, allocator) =>
                allocIPs service dryRun (al.setIPAllocator family allocator)
                  (allocated ++ [(family, allocatedIP)]) toAlloc
          else
            match allocator.allocate ip dryRun with
            | .error err =>
                (al, allocated, some (.invalid service.name
                  [fieldInvalid "spec.clusterIPs" ("failed to allocate IP " ++ ip ++ ": " ++ err)]))
            | .ok allocator =>
                allocIPs service dryRun (al.setIPAllocator family allocator)
                  (allocated ++ [(family, ip)]) toAlloc
attribute [grind] allocIPs

/-- `releaseIPs`: release each IP in the allocator of its family, if that family is still
configured. -/
def releaseIPs (al : Allocators) : List (IPFamily × String) → Allocators
  | [] => al
  | (family, ip) :: toRelease =>
      match al.serviceIPAllocatorsByFamily family with
      | none => releaseIPs al toRelease
      | some allocator => releaseIPs (al.setIPAllocator family (allocator.release ip)) toRelease
attribute [grind] releaseIPs

/-- The map `toAlloc` of `allocClusterIPs`: each family with the cluster IP at its
position, `""` (allocate any) where the service has none. -/
def toAllocOf (service : Service) : List (IPFamily × String) :=
  service.ipFamilies.zipIdx.map fun (family, i) => (family, service.clusterIPs.getD i "")
attribute [grind] toAllocOf

/-- The service with the reserved IPs written at their families' positions, the first
also as `clusterIP`. -/
def setClusterIPs (service : Service) (allocated : List (IPFamily × String)) : Service :=
  allocated.foldl (fun service (family, ip) =>
    service.ipFamilies.zipIdx.foldl (fun service (check, i) =>
      if family = check then
        { service with
          clusterIPs := service.clusterIPs.set i ip
          clusterIP := if i = 0 then ip else service.clusterIP }
      else service) service) service
attribute [grind] setClusterIPs

/-- `allocClusterIPs`: ExternalName and headless services get none; otherwise the
clusterIPs list is padded with `""` markers to one per family, and each family's IP is
reserved. -/
def allocClusterIPs (al : Allocators) (service : Service) (dryRun : Bool) :
    Allocators × Service × List (IPFamily × String) × Option StatusError :=
  if service.type = .externalName then (al, service, [], none)
  else if service.clusterIPs.head? = some clusterIPNone then (al, service, [], none)
  else
    let service := { service with
      clusterIPs := service.clusterIPs ++ List.replicate (service.ipFamilies.length - service.clusterIPs.length) "" }
    let (al, allocated, err) := allocIPs service dryRun al [] (toAllocOf service)
    match err with
    | none => (al, setClusterIPs service allocated, allocated, none)
    | some err => (al, service, allocated, some err)
attribute [grind] allocClusterIPs

/-- `txnAllocClusterIPs`: on success, a transaction whose revert releases the reserved
IPs.  On an error, what `allocClusterIPs` reserved is dropped with the error. -/
def txnAllocClusterIPs (al : Allocators) (service : Service) (dryRun : Bool) :
    Allocators × Service × Except StatusError Transaction :=
  let (al, service, allocated, err) := allocClusterIPs al service dryRun
  match err with
  | some err => (al, service, .error err)
  | none =>
      (al, service, .ok {
        commit := id
        revert := fun al => if dryRun then al else releaseIPs al allocated })
attribute [grind] txnAllocClusterIPs

/-! ## Node ports -/

/-- `PortAllocationOperation`: the ports it reserved (to roll back) and those whose
release waits for the commit. -/
structure PortAllocationOperation where
  allocated : List Nat
  releaseDeferred : List Nat
  shouldRollback : Bool
  dryRun : Bool

namespace PortAllocationOperation

/-- `StartOperation`. -/
def start (dryRun : Bool) : PortAllocationOperation := ⟨[], [], true, dryRun⟩
attribute [grind] start

/-- `Allocate`: a dry run checks the allocator and the operation's own reservations. -/
def allocate (op : PortAllocationOperation) (pa : PortAllocator) (port : Nat) :
    PortAllocator × PortAllocationOperation × Except String Unit :=
  if op.dryRun then
    if pa.alloc.has port || op.allocated.contains port then (pa, op, .error errPortAllocated)
    else (pa, { op with allocated := op.allocated ++ [port] }, .ok ())
  else
    match pa.allocate port with
    | .ok pa => (pa, { op with allocated := op.allocated ++ [port] }, .ok ())
    | .error err => (pa, op, .error err)
attribute [grind] allocate

/-- The loop of a dry-run `AllocateNext`: try the ports from `port` on, below 100. -/
def dryRunNext (pa : PortAllocator) : Nat → PortAllocationOperation → Nat →
    Option (PortAllocationOperation × Nat)
  | 0, _, _ => none
  | fuel + 1, op, port =>
      if port < 100 then
        match op.allocate pa port with
        | (_, op, .ok ()) => some (op, port)
        | _ => dryRunNext pa fuel op (port + 1)
      else none
attribute [grind] dryRunNext

/-- `AllocateNext`: a dry run makes up a port above the ones it holds. -/
def allocateNext (op : PortAllocationOperation) (pa : PortAllocator) :
    PortAllocator × PortAllocationOperation × Except String Nat :=
  if op.dryRun then
    let lastPort := if op.allocated.isEmpty then 32768 else op.allocated.foldl max 0
    match dryRunNext pa 100 op (lastPort + 1) with
    | some (op, port) => (pa, op, .ok port)
    | none => (pa, { op with allocated := op.allocated ++ [lastPort + 1] }, .ok (lastPort + 1))
  else
    match pa.allocateNext with
    | .ok (port, pa) => (pa, { op with allocated := op.allocated ++ [port] }, .ok port)
    | .error err => (pa, op, .error err)
attribute [grind] allocateNext

/-- `ReleaseDeferred`. -/
def releaseDeferredPort (op : PortAllocationOperation) (port : Nat) : PortAllocationOperation :=
  { op with releaseDeferred := op.releaseDeferred ++ [port] }
attribute [grind] releaseDeferredPort

/-- `Rollback`: release what the operation reserved. -/
def rollback (op : PortAllocationOperation) (pa : PortAllocator) : PortAllocator :=
  if op.dryRun then pa else op.allocated.foldl PortAllocator.release pa
attribute [grind] rollback

/-- `Commit`: perform the deferred releases; no rollback after it. -/
def commit (op : PortAllocationOperation) (pa : PortAllocator) :
    PortAllocator × PortAllocationOperation :=
  if op.dryRun then (pa, op)
  else (op.releaseDeferred.foldl PortAllocator.release pa, { op with shouldRollback := false })
attribute [grind] commit

/-- `Finish`: roll back unless committed. -/
def finish (op : PortAllocationOperation) (pa : PortAllocator) : PortAllocator :=
  if op.shouldRollback then op.rollback pa else pa
attribute [grind] finish

end PortAllocationOperation

/-- `shouldAllocateNodePorts`; a LoadBalancer without `allocateLoadBalancerNodePorts`
dereferences a nil pointer. -/
def shouldAllocateNodePorts (service : Service) : Except StatusError Bool :=
  match service.type with
  | .nodePort => .ok true
  | .loadBalancer =>
      match service.allocateLoadBalancerNodePorts with
      | some b => .ok b
      | none => .error (.internal panicNilPointer)
  | _ => .ok false
attribute [grind] shouldAllocateNodePorts

/-- `findRequestedNodePort`: the node port some service port with this port asks for. -/
def findRequestedNodePort (port : Nat) (servicePorts : List ServicePort) : Nat :=
  match servicePorts.find? fun sp => sp.port = port && sp.nodePort ≠ 0 with
  | some sp => sp.nodePort
  | none => 0
attribute [grind] findRequestedNodePort

/-- `apiservice.NeedsHealthCheck`. -/
def needsHealthCheck (service : Service) : Bool :=
  service.type = .loadBalancer && service.externalTrafficPolicyLocal
attribute [grind] needsHealthCheck

/-- The state the node-port code threads: the allocator, the operation and the
service. -/
structure PortState where
  pa : PortAllocator
  op : PortAllocationOperation
  service : Service

/-- `op.Allocate` on the threaded state. -/
def PortState.allocate (st : PortState) (port : Nat) : PortState × Except String Unit :=
  let (pa, op, r) := st.op.allocate st.pa port
  ({ st with pa := pa, op := op }, r)
attribute [grind] PortState.allocate

/-- `op.AllocateNext` on the threaded state. -/
def PortState.allocateNext (st : PortState) : PortState × Except String Nat :=
  let (pa, op, r) := st.op.allocateNext st.pa
  ({ st with pa := pa, op := op }, r)
attribute [grind] PortState.allocateNext

/-- The service with the node port of its `i`-th port set. -/
def PortState.setNodePort (st : PortState) (i nodePort : Nat) : PortState :=
  { st with service := { st.service with
      ports := st.service.ports.modify i fun sp => { sp with nodePort := nodePort } } }
attribute [grind] PortState.setNodePort

/-- The error of a refused requested node port, naming the port's field. -/
def nodePortInvalid (service : Service) (i : Nat) (err : String) : StatusError :=
  .invalid service.name [fieldInvalid ("spec.ports[" ++ toString i ++ "].nodePort") err]
attribute [grind] nodePortInvalid

/-- Whether the loop of `initNodePorts` skips a port: one without a node port when none
are to be allocated.  `shouldAllocateNodePorts` is only asked about such ports. -/
def skipNodePort (service : Service) (servicePort : ServicePort) : Except StatusError Bool :=
  if servicePort.nodePort = 0 then (fun b => !b) <$> shouldAllocateNodePorts service
  else .ok false
attribute [grind] skipNodePort

/-- The body of the loop of `initNodePorts` for the port at position `i`; `assigned` is
`svcPortToNodePort`. -/
def initNodePort (st : PortState) (assigned : List (Nat × Nat)) (i : Nat) :
    PortState × List (Nat × Nat) × Except StatusError Unit :=
  match st.service.ports[i]? with
  | none => (st, assigned, .ok ())
  | some servicePort =>
      match skipNodePort st.service servicePort with
      | .error err => (st, assigned, .error err)
      | .ok true => (st, assigned, .ok ())
      | .ok false =>
        let allocatedNodePort := (assigned.lookup servicePort.port).getD 0
        if allocatedNodePort = 0 then
          let np := findRequestedNodePort servicePort.port st.service.ports
          if np ≠ 0 then
            match st.allocate np with
            | (st, .error err) => (st, assigned, .error (nodePortInvalid st.service i err))
            | (st, .ok ()) =>
                (st.setNodePort i np, (servicePort.port, np) :: assigned, .ok ())
          else
            match st.allocateNext with
            | (st, .error err) =>
                (st, assigned, .error (.internal ("failed to allocate a nodePort: " ++ err)))
            | (st, .ok nodePort) =>
                (st.setNodePort i nodePort, (servicePort.port, nodePort) :: assigned, .ok ())
        else if servicePort.nodePort ≠ allocatedNodePort then
          if servicePort.nodePort = 0 then (st.setNodePort i allocatedNodePort, assigned, .ok ())
          else
            match st.allocate servicePort.nodePort with
            | (st, .error err) => (st, assigned, .error (nodePortInvalid st.service i err))
            | (st, .ok ()) => (st, assigned, .ok ())
        else (st, assigned, .ok ())
attribute [grind] initNodePort

/-- The loop of `initNodePorts` over the positions `is`. -/
def initNodePortsLoop :
    PortState → List (Nat × Nat) → List Nat → PortState × Except StatusError Unit
  | st, _, [] => (st, .ok ())
  | st, assigned, i :: is =>
      match initNodePort st assigned i with
      | (st, assigned, .ok ()) => initNodePortsLoop st assigned is
      | (st, _, .error err) => (st, .error err)
attribute [grind] initNodePortsLoop

/-- `initNodePorts`: reserve the node port of each port, the requested one or a new one;
ports with the same port number share one node port. -/
def initNodePorts (st : PortState) : PortState × Except StatusError Unit :=
  initNodePortsLoop st [] (List.range st.service.ports.length)
attribute [grind] initNodePorts

/-- `allocHealthCheckNodePort`: reserve the requested health-check node port, or any. -/
def allocHealthCheckNodePort (st : PortState) : PortState × Except String Unit :=
  let healthCheckNodePort := st.service.healthCheckNodePort
  if healthCheckNodePort ≠ 0 then
    match st.allocate healthCheckNodePort with
    | (st, .error err) =>
        (st, .error ("failed to allocate requested HealthCheck NodePort " ++
          toString healthCheckNodePort ++ ": " ++ err))
    | (st, .ok ()) => (st, .ok ())
  else
    match st.allocateNext with
    | (st, .error err) =>
        (st, .error ("failed to allocate a HealthCheck NodePort 0: " ++ err))
    | (st, .ok port) =>
        ({ st with service := { st.service with healthCheckNodePort := port } }, .ok ())
attribute [grind] allocHealthCheckNodePort

/-- The transaction of a node-port operation: commit then finish, or finish (which rolls
back). -/
def portTransaction (op : PortAllocationOperation) : Transaction where
  commit al :=
    let (pa, op) := op.commit al.serviceNodePorts
    { al with serviceNodePorts := op.finish pa }
  revert al := { al with serviceNodePorts := op.finish al.serviceNodePorts }
attribute [grind] portTransaction

/-- `txnAllocNodePorts`: reserve node ports for NodePort and LoadBalancer services and
the health-check node port when needed; on an error the operation is rolled back at
once. -/
def txnAllocNodePorts (al : Allocators) (service : Service) (dryRun : Bool) :
    Allocators × Service × Except StatusError Transaction :=
  let st : PortState := ⟨al.serviceNodePorts, PortAllocationOperation.start dryRun, service⟩
  let rollback (st : PortState) : Allocators :=
    { al with serviceNodePorts := st.op.finish st.pa }
  let ports : PortState × Except StatusError Unit :=
    if service.type = .nodePort || service.type = .loadBalancer then initNodePorts st
    else (st, .ok ())
  match ports with
  | (st, .error err) => (rollback st, st.service, .error err)
  | (st, .ok ()) =>
      let health : PortState × Except String Unit :=
        if needsHealthCheck st.service then allocHealthCheckNodePort st else (st, .ok ())
      match health with
      | (st, .error err) => (rollback st, st.service, .error (.internal err))
      | (st, .ok ()) =>
          ({ al with serviceNodePorts := st.pa }, st.service, .ok (portTransaction st.op))
attribute [grind] txnAllocNodePorts

/-! ## Creating a service -/

/-- `allocateCreate`: initialise the IP family fields, reserve the cluster IPs, then the
node ports; when a step fails, the transactions of the steps before it are reverted. -/
def allocateCreate (initIPFamilyFields : Service → Except StatusError Service)
    (al : Allocators) (service : Service) (dryRun : Bool) :
    Allocators × Service × Except StatusError Transaction :=
  match initIPFamilyFields service with
  | .error err => (al, service, .error err)
  | .ok service =>
      match txnAllocClusterIPs al service dryRun with
      | (al, service, .error err) => ((metaTransaction []).revert al, service, .error err)
      | (al, service, .ok ipTxn) =>
          match txnAllocNodePorts al service dryRun with
          | (al, service, .error err) => ((metaTransaction [ipTxn]).revert al, service, .error err)
          | (al, service, .ok portTxn) => (al, service, .ok (metaTransaction [ipTxn, portTxn]))
attribute [grind] allocateCreate

/-- A dual-stack service on a cluster whose IPv6 range is full: `allocateCreate` fails,
and the IPv4 address reserved before the IPv6 allocation failed stays reserved. -/
theorem allocateCreate_leaks_first_family :
    let v4 : IPRange := ⟨"10.0.0.0/30", "10.0.0.0", ⟨["10.0.0.1", "10.0.0.2"], fun _ => false⟩⟩
    let v6 : IPRange := ⟨"fd00::/127", "fd00::", ⟨["fd00::1"], fun _ => true⟩⟩
    let al : Allocators :=
      ⟨fun family => if family = .ipv4 then some v4 else some v6, .ipv4,
        ⟨"30000-30001", ⟨[30000, 30001], fun _ => false⟩⟩⟩
    let service : Service := ⟨"svc", .clusterIP, "", [], [.ipv4, .ipv6], [], 0, false, none⟩
    let created := allocateCreate Except.ok al service false
    (match created.2.2 with
      | .error err => some err
      | .ok _ => none) = some (.internal ("failed to allocate a serviceIP: " ++ errIPFull)) ∧
      (al.serviceIPAllocatorsByFamily .ipv4).map (·.alloc.used "10.0.0.1") = some false ∧
      (created.1.serviceIPAllocatorsByFamily .ipv4).map (·.alloc.used "10.0.0.1") = some true := by
  decide

end Service
end Kubernetes
