import Mathlib
import Kubernetes.Cpuset.ListFormat

/-!
# The CPU topology of the static CPU manager

`CPUTopology` (`pkg/kubelet/cm/cpumanager/topology/topology.go`) counts the logical CPUs, cores,
sockets and NUMA nodes of a machine, and its `CPUDetails` map gives each logical CPU its core,
socket and NUMA node.  `Discover` builds it from cadvisor's machine info: every thread of every
core becomes a CPU, on the core named by its lowest thread (`getUniqueCoreID_eq_ok_iff`).

The queries of `CPUDetails` are one loop over the map: keep the CPUs whose id at one level is
among the given ids, and collect an id of each at another level (`keysIn`, `keys`).  `KeepOnly`
restricts the map to a set of CPUs, and a query on the restricted map is the query on the whole
map cut to that set (`cpusWith_keepOnly`): the CPUs of a core, socket or NUMA node can only go
under `KeepOnly`, and they are all still there exactly when their number is
(`cpusWith_keepOnly_eq_iff_card`).

`CPUsPerCore` and `CPUsPerSocket` are the number of CPUs divided by the number of cores and of
sockets: the size of every core and socket when all have one size, and not the size of a core of
a machine whose cores have different numbers of threads.

A map is its set of keys with the value of each key; the value of a key that is not in the map is
Go's zero `CPUInfo`.  The logs of `Discover` are not modelled.
-/

namespace Kubernetes
namespace Cpuset

/-! ## The set operations the CPU manager uses -/

/-- `CPUSet.Size`. -/
def CPUSet.size (s : CPUSet) : Int :=
  s.elems.card
attribute [grind] CPUSet.size

/-- `CPUSet.Union`. -/
def CPUSet.union (s t : CPUSet) : CPUSet :=
  ⟨s.elems ∪ t.elems⟩
attribute [grind] CPUSet.union

/-- `CPUSet.Difference`. -/
def CPUSet.difference (s t : CPUSet) : CPUSet :=
  ⟨s.elems \ t.elems⟩
attribute [grind] CPUSet.difference

/-- `CPUSet.ToSliceNoSort`: the ids in the order of the underlying map, which Go leaves
unspecified; here the increasing one, so that the slice is a function of the set. -/
def CPUSet.toSliceNoSort (s : CPUSet) : List Int :=
  Quot.liftOn s.elems.val (fun l => l.insertionSort (· ≤ ·)) fun l l' (h : l.Perm l') =>
    List.Perm.eq_of_pairwise' (List.pairwise_insertionSort _ l) (List.pairwise_insertionSort _ l')
      (((List.perm_insertionSort _ l).trans h).trans (List.perm_insertionSort _ l').symm)
attribute [grind] CPUSet.toSliceNoSort

@[simp] theorem CPUSet.elems_union (s t : CPUSet) : (s.union t).elems = s.elems ∪ t.elems := rfl

@[simp] theorem CPUSet.elems_difference (s t : CPUSet) :
    (s.difference t).elems = s.elems \ t.elems := rfl

/-- The slice lists some list of the set's elements, up to order. -/
theorem CPUSet.toSliceNoSort_perm (s : CPUSet) :
    ∃ l : List Int, s.elems.val = l ∧ s.toSliceNoSort.Perm l := by
  obtain ⟨⟨⟨l⟩, _⟩⟩ := s
  exact ⟨l, rfl, List.perm_insertionSort _ l⟩

@[simp] theorem CPUSet.mem_toSliceNoSort {s : CPUSet} {x : Int} :
    x ∈ s.toSliceNoSort ↔ x ∈ s.elems := by
  obtain ⟨l, hl, hperm⟩ := s.toSliceNoSort_perm
  rw [hperm.mem_iff, ← Finset.mem_val, hl, Multiset.mem_coe]

end Cpuset

namespace Cpumanager

open Cpuset

/-! ## `CPUDetails` and `CPUTopology` -/

/-- `CPUInfo`: the NUMA node, socket and core of a logical CPU. -/
structure CPUInfo where
  numaNodeID : Int
  socketID : Int
  coreID : Int
  deriving DecidableEq, Repr

/-- `CPUDetails`, the map from a logical CPU to its `CPUInfo`: the CPUs it holds and the value at
each. -/
structure CPUDetails where
  domain : Finset Int
  info : Int → CPUInfo

/-- `CPUTopology`. -/
structure CPUTopology where
  numCPUs : Int
  numCores : Int
  numSockets : Int
  numNUMANodes : Int
  cpuDetails : CPUDetails

/-- `CPUTopology.CPUsPerCore`. -/
def CPUTopology.cpusPerCore (topo : CPUTopology) : Int :=
  if topo.numCores = 0 then 0 else topo.numCPUs.tdiv topo.numCores
attribute [grind] CPUTopology.cpusPerCore

/-- `CPUTopology.CPUsPerSocket`. -/
def CPUTopology.cpusPerSocket (topo : CPUTopology) : Int :=
  if topo.numSockets = 0 then 0 else topo.numCPUs.tdiv topo.numSockets
attribute [grind] CPUTopology.cpusPerSocket

namespace CPUDetails

variable (d : CPUDetails)

/-- The empty map `CPUDetails{}`. -/
def empty : CPUDetails :=
  ⟨∅, fun _ => ⟨0, 0, 0⟩⟩
attribute [grind] empty

/-- The map write `d[cpu] = info`. -/
def set (cpu : Int) (info : CPUInfo) : CPUDetails :=
  ⟨insert cpu d.domain, Function.update d.info cpu info⟩
attribute [grind] set

/-- `KeepOnly`: the entries of the CPUs of `cpus`. -/
def keepOnly (cpus : CPUSet) : CPUDetails :=
  ⟨d.domain.filter (· ∈ cpus.elems), d.info⟩
attribute [grind] keepOnly

/-- The CPUs of the map whose id under `sel` is one of `ids`. -/
def cpusWith (sel : CPUInfo → Int) (ids : List Int) : Finset Int :=
  d.domain.filter fun cpu => sel (d.info cpu) ∈ ids
attribute [grind] cpusWith

/-- The loop of the queries `XsInYs(ids...)`: the id under `key` of every CPU whose id under
`sel` is one of `ids`. -/
def keysIn (sel : CPUInfo → Int) (key : Int → CPUInfo → Int) (ids : List Int) : CPUSet :=
  ⟨(d.cpusWith sel ids).image fun cpu => key cpu (d.info cpu)⟩
attribute [grind] keysIn

/-- The loop of the queries `Xs()`: the id under `key` of every CPU of the map. -/
def keys (key : Int → CPUInfo → Int) : CPUSet :=
  ⟨d.domain.image fun cpu => key cpu (d.info cpu)⟩
attribute [grind] keys

/-- `NUMANodes`. -/
def numaNodes : CPUSet :=
  d.keys fun _ info => info.numaNodeID
attribute [grind] numaNodes

/-- `NUMANodesInSockets`. -/
def numaNodesInSockets (ids : List Int) : CPUSet :=
  d.keysIn CPUInfo.socketID (fun _ info => info.numaNodeID) ids
attribute [grind] numaNodesInSockets

/-- `Sockets`. -/
def sockets : CPUSet :=
  d.keys fun _ info => info.socketID
attribute [grind] sockets

/-- `CPUsInSockets`. -/
def cpusInSockets (ids : List Int) : CPUSet :=
  d.keysIn CPUInfo.socketID (fun cpu _ => cpu) ids
attribute [grind] cpusInSockets

/-- `SocketsInNUMANodes`. -/
def socketsInNUMANodes (ids : List Int) : CPUSet :=
  d.keysIn CPUInfo.numaNodeID (fun _ info => info.socketID) ids
attribute [grind] socketsInNUMANodes

/-- `Cores`. -/
def cores : CPUSet :=
  d.keys fun _ info => info.coreID
attribute [grind] cores

/-- `CoresInNUMANodes`. -/
def coresInNUMANodes (ids : List Int) : CPUSet :=
  d.keysIn CPUInfo.numaNodeID (fun _ info => info.coreID) ids
attribute [grind] coresInNUMANodes

/-- `CoresInSockets`. -/
def coresInSockets (ids : List Int) : CPUSet :=
  d.keysIn CPUInfo.socketID (fun _ info => info.coreID) ids
attribute [grind] coresInSockets

/-- `CPUs`. -/
def cpus : CPUSet :=
  d.keys fun cpu _ => cpu
attribute [grind] cpus

/-- `CPUsInNUMANodes`. -/
def cpusInNUMANodes (ids : List Int) : CPUSet :=
  d.keysIn CPUInfo.numaNodeID (fun cpu _ => cpu) ids
attribute [grind] cpusInNUMANodes

/-- `CPUsInCores`. -/
def cpusInCores (ids : List Int) : CPUSet :=
  d.keysIn CPUInfo.coreID (fun cpu _ => cpu) ids
attribute [grind] cpusInCores

/-! ### The queries as sets -/

variable {d}

@[simp] theorem mem_cpusWith {sel : CPUInfo → Int} {ids : List Int} {cpu : Int} :
    cpu ∈ d.cpusWith sel ids ↔ cpu ∈ d.domain ∧ sel (d.info cpu) ∈ ids :=
  Finset.mem_filter

/-- A query for the CPUs themselves is the set of CPUs at that level. -/
@[simp] theorem elems_keysIn_self (sel : CPUInfo → Int) (ids : List Int) :
    (d.keysIn sel (fun cpu _ => cpu) ids).elems = d.cpusWith sel ids :=
  Finset.image_id

@[simp] theorem elems_cpus : d.cpus.elems = d.domain :=
  Finset.image_id

@[simp] theorem domain_keepOnly (s : CPUSet) : (d.keepOnly s).domain = d.domain.filter (· ∈ s.elems) :=
  rfl

@[simp] theorem info_keepOnly (s : CPUSet) : (d.keepOnly s).info = d.info :=
  rfl

/-- On the map cut to a set, a level holds the CPUs of that set it holds on the whole map. -/
theorem cpusWith_keepOnly (s : CPUSet) (sel : CPUInfo → Int) (ids : List Int) :
    (d.keepOnly s).cpusWith sel ids = (d.cpusWith sel ids).filter (· ∈ s.elems) := by
  ext cpu
  simp only [mem_cpusWith, domain_keepOnly, info_keepOnly, Finset.mem_filter]
  tauto

theorem cpusWith_keepOnly_subset (s : CPUSet) (sel : CPUInfo → Int) (ids : List Int) :
    (d.keepOnly s).cpusWith sel ids ⊆ d.cpusWith sel ids := by
  rw [cpusWith_keepOnly]
  exact Finset.filter_subset _ _

/-- A level of the cut map is all of that level exactly when it has kept its number of CPUs. -/
theorem cpusWith_keepOnly_eq_iff_card (s : CPUSet) (sel : CPUInfo → Int) (ids : List Int) :
    (d.keepOnly s).cpusWith sel ids = d.cpusWith sel ids ↔
      ((d.keepOnly s).cpusWith sel ids).card = (d.cpusWith sel ids).card := by
  constructor
  · intro h
    rw [h]
  · intro h
    exact Finset.eq_of_subset_of_card_le (cpusWith_keepOnly_subset s sel ids) h.ge

end CPUDetails

/-! ## `Discover` -/

/-- cadvisor's `Core`: its threads and its socket (its `Id` is only logged). -/
structure Core where
  threads : List Int
  socketID : Int

/-- cadvisor's `Node`: a NUMA node and its cores. -/
structure Node where
  id : Int
  cores : List Core

/-- The fields of cadvisor's `MachineInfo` that `Discover` reads. -/
structure MachineInfo where
  numCores : Int
  numSockets : Int
  topology : List Node

/-- `getUniqueCoreID`: the lowest of the threads of a core, which must be distinct. -/
def getUniqueCoreID (threads : List Int) : Except String Int :=
  match threads with
  | [] => .error "no cpus provided"
  | first :: rest =>
    if ((first :: rest).length : Int) ≠ (newCPUSet (first :: rest)).size then
      .error "cpus provided are not unique"
    else
      .ok (rest.foldl (fun min thread => if thread < min then thread else min) first)
attribute [grind] getUniqueCoreID

/-- The loop `for _, cpu := range core.Threads { CPUDetails[cpu] = info }`. -/
def CPUDetails.addThreads (d : CPUDetails) (threads : List Int) (info : CPUInfo) : CPUDetails :=
  threads.foldl (fun d cpu => d.set cpu info) d
attribute [grind] CPUDetails.addThreads

/-- The loop over the cores of one NUMA node. -/
def discoverNode (node : Node) (d : CPUDetails) : Except String CPUDetails :=
  node.cores.foldlM (fun d core => do
    let coreID ← getUniqueCoreID core.threads
    pure (d.addThreads core.threads ⟨node.id, core.socketID, coreID⟩)) d
attribute [grind] discoverNode

/-- `Discover`. -/
def discover (machineInfo : MachineInfo) : Except String CPUTopology :=
  if machineInfo.numCores = 0 then .error "could not detect number of cpus"
  else do
    let acc ← machineInfo.topology.foldlM (fun (acc : CPUDetails × Int) node => do
      let d ← discoverNode node acc.1
      pure (d, acc.2 + node.cores.length)) (CPUDetails.empty, 0)
    pure ⟨machineInfo.numCores, acc.2, machineInfo.numSockets, acc.1.numaNodes.size, acc.1⟩
attribute [grind] discover

/-- The fold of `getUniqueCoreID` is the least thread. -/
theorem foldl_min_spec (first : Int) (rest : List Int) :
    rest.foldl (fun min thread => if thread < min then thread else min) first ∈ first :: rest ∧
      ∀ t ∈ first :: rest, rest.foldl (fun min thread => if thread < min then thread else min) first ≤ t := by
  induction rest generalizing first with
  | nil => simp
  | cons x xs ih =>
    -- the running minimum after `x` is below `first` and `x`, and it is one of them
    have hm : (if x < first then x else first) ≤ first ∧ (if x < first then x else first) ≤ x := by
      split_ifs <;> omega
    have hmem : (if x < first then x else first) ∈ first :: x :: xs := by
      split_ifs <;> simp
    obtain ⟨hfold, hle⟩ := ih (if x < first then x else first)
    simp only [List.foldl_cons]
    refine ⟨?_, ?_⟩
    · rcases List.mem_cons.mp hfold with h | h
      · rw [h]
        exact hmem
      · exact List.mem_cons_of_mem _ (List.mem_cons_of_mem _ h)
    · intro t ht
      rcases List.mem_cons.mp ht with rfl | ht
      · exact le_trans (hle _ List.mem_cons_self) hm.1
      rcases List.mem_cons.mp ht with rfl | ht
      · exact le_trans (hle _ List.mem_cons_self) hm.2
      · exact hle t (List.mem_cons_of_mem _ ht)

/-- `getUniqueCoreID` names a core by its lowest thread, and fails exactly on a core without
threads or with a thread listed twice. -/
theorem getUniqueCoreID_eq_ok_iff {threads : List Int} {coreID : Int} :
    getUniqueCoreID threads = .ok coreID ↔
      threads.Nodup ∧ coreID ∈ threads ∧ ∀ t ∈ threads, coreID ≤ t := by
  cases threads with
  | nil => simp [getUniqueCoreID]
  | cons first rest =>
    have hcard : ((first :: rest).length : Int) = (newCPUSet (first :: rest)).size ↔
        (first :: rest).Nodup := by
      rw [CPUSet.size, newCPUSet, Nat.cast_inj, eq_comm]
      exact Multiset.toFinset_card_eq_card_iff_nodup
    obtain ⟨hmem, hle⟩ := foldl_min_spec first rest
    simp only [getUniqueCoreID, ne_eq, ite_not]
    by_cases hnodup : (first :: rest).Nodup
    · rw [if_pos (hcard.mpr hnodup)]
      constructor
      · rintro ⟨⟩
        exact ⟨hnodup, hmem, hle⟩
      · rintro ⟨-, hc, hcle⟩
        exact congrArg Except.ok (le_antisymm (hle _ hc) (hcle _ hmem))
    · rw [if_neg (fun h => hnodup (hcard.mp h))]
      simp [hnodup]

end Cpumanager
end Kubernetes
