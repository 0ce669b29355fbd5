import Mathlib
import Kubernetes.Go.Sort
import Kubernetes.Cpumanager.Topology

/-!
# The packed CPU assignment of the static CPU manager

`takeByTopologyNUMAPacked` (`pkg/kubelet/cm/cpumanager/cpu_assignment.go`) picks `numCPUs` of the
available CPUs for a container with exclusive CPUs.  A `cpuAccumulator` holds the map of the
CPUs still available, the number still needed and the CPUs taken.  The algorithm takes whole NUMA
nodes and sockets (in the order of the memory hierarchy), then whole cores, then single CPUs, each
level sorted so that the fullest units come last, and each unit taken only while the request
still needs all of it.

A unit is taken whole when the accumulator judges it free.  For a NUMA node that is the case
exactly when all its CPUs are available (`isNUMANodeFree_iff`); for a core or a socket the test
compares the number of its available CPUs with `CPUsPerCore` or `CPUsPerSocket`, the averages
over the machine, and it is exact only for a core or socket of the average size
(`isCoreFree_iff`, `isSocketFree_iff`).  On a machine whose cores have different numbers of
threads a core of two threads with one available thread is judged free, and the assignment takes
a CPU that is not available (`takeByTopologyNUMAPacked_takes_unavailable`).  With fewer sockets
than NUMA nodes, a NUMA node on two sockets is listed twice among the NUMA nodes, and can be
counted twice against the request, which is then satisfied with fewer CPUs (the example after
`takeByTopologyNUMAPacked_takes_unavailable`).

Every step of the algorithm is `take`, and `take` of available CPUs keeps the accumulator's
invariant (`Inv.take`): the map holds the available CPUs not taken, and what is taken together
with what is still needed is the request.  The loops are folds of `take`, and keep the invariant
when each unit they take is still available (`Inv.takeFull`, `Inv.takeRemaining`).

`takeByTopologyNUMADistributed`, which calls the packed algorithm on subsets of NUMA nodes chosen
by a floating-point balance score, and the logs are not modelled.
-/

namespace Kubernetes
namespace Cpumanager

open Cpuset

/-- The implementation of `numaOrSocketsFirstFuncs` that `newCPUAccumulator` picks. -/
inductive NumaOrSocketsFirst
  | numaFirst
  | socketsFirst
  deriving DecidableEq, Repr

/-- NUMA nodes are taken first when there are at least as many sockets as NUMA nodes. -/
def CPUTopology.numaOrSocketsFirst (topo : CPUTopology) : NumaOrSocketsFirst :=
  if topo.numSockets ≥ topo.numNUMANodes then .numaFirst else .socketsFirst
attribute [grind] CPUTopology.numaOrSocketsFirst

/-- `cpuAccumulator`, without its `topo` and `numaOrSocketsFirst`, which never change and are
passed as arguments. -/
structure CPUAccumulator where
  details : CPUDetails
  numCPUsNeeded : Int
  result : CPUSet

/-- `newCPUAccumulator`. -/
def newCPUAccumulator (topo : CPUTopology) (availableCPUs : CPUSet) (numCPUs : Int) :
    CPUAccumulator :=
  ⟨topo.cpuDetails.keepOnly availableCPUs, numCPUs, newCPUSet []⟩
attribute [grind] newCPUAccumulator

/-- The `less` of `cpuAccumulator.sort`: fewer CPUs first, then the lower id. -/
def sortLess (getCPUs : Int → CPUSet) (i j : Int) : Bool :=
  if (getCPUs i).size < (getCPUs j).size then true
  else if (getCPUs i).size > (getCPUs j).size then false
  else decide (i < j)
attribute [grind] sortLess

/-- `cpuAccumulator.sort`.  `sort.Slice` is not stable, but `sortLess` orders distinct ids
strictly and totally, so every sort puts them in the order `Go.sort` does. -/
def sort (ids : List Int) (getCPUs : Int → CPUSet) : List Int :=
  Go.sort ids (sortLess getCPUs)
attribute [grind] sort

/-- The loop shared by the sorts of a lower level: for each unit of the upper level in turn, its
units of the lower level, sorted. -/
def sortWithin (outer : List Int) (inner : Int → CPUSet) (getCPUs : Int → CPUSet) : List Int :=
  outer.flatMap fun id => sort (inner id).toSliceNoSort getCPUs
attribute [grind] sortWithin

namespace NumaFirst

variable (a : CPUAccumulator)

/-- `numaFirst.sortAvailableNUMANodes`. -/
def sortAvailableNUMANodes : List Int :=
  sort a.details.numaNodes.toSliceNoSort fun id => a.details.cpusInNUMANodes [id]
attribute [grind] sortAvailableNUMANodes

/-- `numaFirst.sortAvailableSockets`. -/
def sortAvailableSockets : List Int :=
  sortWithin (sortAvailableNUMANodes a) (fun numa => a.details.socketsInNUMANodes [numa])
    fun id => a.details.cpusInSockets [id]
attribute [grind] sortAvailableSockets

/-- `numaFirst.sortAvailableCores`. -/
def sortAvailableCores : List Int :=
  sortWithin (sortAvailableSockets a) (fun socket => a.details.coresInSockets [socket])
    fun id => a.details.cpusInCores [id]
attribute [grind] sortAvailableCores

end NumaFirst

namespace SocketsFirst

variable (a : CPUAccumulator)

/-- `socketsFirst.sortAvailableSockets`. -/
def sortAvailableSockets : List Int :=
  sort a.details.sockets.toSliceNoSort fun id => a.details.cpusInSockets [id]
attribute [grind] sortAvailableSockets

/-- `socketsFirst.sortAvailableNUMANodes`. -/
def sortAvailableNUMANodes : List Int :=
  sortWithin (sortAvailableSockets a) (fun socket => a.details.numaNodesInSockets [socket])
    fun id => a.details.cpusInNUMANodes [id]
attribute [grind] sortAvailableNUMANodes

/-- `socketsFirst.sortAvailableCores`. -/
def sortAvailableCores : List Int :=
  sortWithin (sortAvailableNUMANodes a) (fun numa => a.details.coresInNUMANodes [numa])
    fun id => a.details.cpusInCores [id]
attribute [grind] sortAvailableCores

end SocketsFirst

namespace CPUAccumulator

variable (topo : CPUTopology) (a : CPUAccumulator)

/-- `isNUMANodeFree`: all the CPUs of the NUMA node are available. -/
def isNUMANodeFree (numaID : Int) : Bool :=
  (a.details.cpusInNUMANodes [numaID]).size == (topo.cpuDetails.cpusInNUMANodes [numaID]).size
attribute [grind] isNUMANodeFree

/-- `isSocketFree`: the socket has `CPUsPerSocket` available CPUs. -/
def isSocketFree (socketID : Int) : Bool :=
  (a.details.cpusInSockets [socketID]).size == topo.cpusPerSocket
attribute [grind] isSocketFree

/-- `isCoreFree`: the core has `CPUsPerCore` available CPUs. -/
def isCoreFree (coreID : Int) : Bool :=
  (a.details.cpusInCores [coreID]).size == topo.cpusPerCore
attribute [grind] isCoreFree

/-- `sortAvailableNUMANodes`. -/
def sortAvailableNUMANodes : List Int :=
  match topo.numaOrSocketsFirst with
  | .numaFirst => NumaFirst.sortAvailableNUMANodes a
  | .socketsFirst => SocketsFirst.sortAvailableNUMANodes a
attribute [grind] sortAvailableNUMANodes

/-- `sortAvailableSockets`. -/
def sortAvailableSockets : List Int :=
  match topo.numaOrSocketsFirst with
  | .numaFirst => NumaFirst.sortAvailableSockets a
  | .socketsFirst => SocketsFirst.sortAvailableSockets a
attribute [grind] sortAvailableSockets

/-- `sortAvailableCores`. -/
def sortAvailableCores : List Int :=
  match topo.numaOrSocketsFirst with
  | .numaFirst => NumaFirst.sortAvailableCores a
  | .socketsFirst => SocketsFirst.sortAvailableCores a
attribute [grind] sortAvailableCores

/-- `sortAvailableCPUs`: the CPUs of each core in turn, in increasing order (`sort.Ints`). -/
def sortAvailableCPUs : List Int :=
  (a.sortAvailableCores topo).flatMap fun core =>
    Go.sort (a.details.cpusInCores [core]).toSliceNoSort fun x y => decide (x < y)
attribute [grind] sortAvailableCPUs

/-- `freeNUMANodes`. -/
def freeNUMANodes : List Int :=
  (a.sortAvailableNUMANodes topo).filter (a.isNUMANodeFree topo)
attribute [grind] freeNUMANodes

/-- `freeSockets`. -/
def freeSockets : List Int :=
  (a.sortAvailableSockets topo).filter (a.isSocketFree topo)
attribute [grind] freeSockets

/-- `freeCores`. -/
def freeCores : List Int :=
  (a.sortAvailableCores topo).filter (a.isCoreFree topo)
attribute [grind] freeCores

/-- `take`. -/
def take (cpus : CPUSet) : CPUAccumulator :=
  let result := a.result.union cpus
  ⟨a.details.keepOnly (a.details.cpus.difference result), a.numCPUsNeeded - cpus.size, result⟩
attribute [grind] take

/-- `needs`. -/
def needs (n : Int) : Bool :=
  decide (a.numCPUsNeeded ≥ n)
attribute [grind] needs

/-- `isSatisfied`. -/
def isSatisfied : Bool :=
  decide (a.numCPUsNeeded < 1)
attribute [grind] isSatisfied

/-- `isFailed`. -/
def isFailed : Bool :=
  decide (a.numCPUsNeeded > a.details.cpus.size)
attribute [grind] isFailed

/-- The loop shared by `takeFullNUMANodes`, `takeFullSockets` and `takeFullCores`: take each of
the units whose CPUs the request still needs all of. -/
def takeFull (units : List Int) (cpusIn : Int → CPUSet) : CPUAccumulator :=
  units.foldl (fun acc id => if !acc.needs (cpusIn id).size then acc else acc.take (cpusIn id)) a
attribute [grind] takeFull

/-- `takeFullNUMANodes`. -/
def takeFullNUMANodes : CPUAccumulator :=
  a.takeFull (a.freeNUMANodes topo) fun numa => topo.cpuDetails.cpusInNUMANodes [numa]
attribute [grind] takeFullNUMANodes

/-- `takeFullSockets`. -/
def takeFullSockets : CPUAccumulator :=
  a.takeFull (a.freeSockets topo) fun socket => topo.cpuDetails.cpusInSockets [socket]
attribute [grind] takeFullSockets

/-- `takeFullCores`. -/
def takeFullCores : CPUAccumulator :=
  a.takeFull (a.freeCores topo) fun core => topo.cpuDetails.cpusInCores [core]
attribute [grind] takeFullCores

/-- `takeFullFirstLevel`. -/
def takeFullFirstLevel : CPUAccumulator :=
  match topo.numaOrSocketsFirst with
  | .numaFirst => a.takeFullNUMANodes topo
  | .socketsFirst => a.takeFullSockets topo
attribute [grind] takeFullFirstLevel

/-- `takeFullSecondLevel`. -/
def takeFullSecondLevel : CPUAccumulator :=
  match topo.numaOrSocketsFirst with
  | .numaFirst => a.takeFullSockets topo
  | .socketsFirst => a.takeFullNUMANodes topo
attribute [grind] takeFullSecondLevel

/-- The loop of `takeRemainingCPUs`: take the CPUs one by one, returning once satisfied. -/
def takeRemaining : List Int → CPUAccumulator → CPUAccumulator
  | [], acc => acc
  | cpu :: cpus, acc =>
    let acc := acc.take (newCPUSet [cpu])
    if acc.isSatisfied then acc else takeRemaining cpus acc
attribute [grind] takeRemaining

/-- `takeRemainingCPUs`. -/
def takeRemainingCPUs : CPUAccumulator :=
  takeRemaining (a.sortAvailableCPUs topo) a
attribute [grind] takeRemainingCPUs

end CPUAccumulator

/-! ## `take` and the invariant of a run -/

namespace CPUAccumulator

variable {topo : CPUTopology} {a : CPUAccumulator} {availableCPUs : CPUSet} {numCPUs : Int}

@[simp] theorem take_result (cpus : CPUSet) : (a.take cpus).result = a.result.union cpus :=
  rfl

@[simp] theorem take_numCPUsNeeded (cpus : CPUSet) :
    (a.take cpus).numCPUsNeeded = a.numCPUsNeeded - cpus.size :=
  rfl

/-- `take` drops from the map what it takes, and what was taken before. -/
@[simp] theorem take_domain (cpus : CPUSet) :
    (a.take cpus).details.domain = a.details.domain \ (a.result.elems ∪ cpus.elems) := by
  ext cpu
  simp only [take, CPUDetails.domain_keepOnly, CPUSet.elems_difference, CPUDetails.elems_cpus,
    CPUSet.elems_union, Finset.mem_filter, Finset.mem_sdiff]
  tauto

/-- The invariant of a run on `availableCPUs` for `numCPUs`: the map holds the available CPUs of
the topology that are not taken, each at its place in the topology; only available CPUs are taken;
and what is taken and what is still needed make up the request. -/
structure Inv (topo : CPUTopology) (availableCPUs : CPUSet) (numCPUs : Int) (a : CPUAccumulator) :
    Prop where
  info : a.details.info = topo.cpuDetails.info
  domain : a.details.domain = topo.cpuDetails.domain.filter (· ∈ availableCPUs.elems) \ a.result.elems
  result_subset : a.result.elems ⊆ availableCPUs.elems
  needed : a.numCPUsNeeded + a.result.size = numCPUs

theorem inv_newCPUAccumulator :
    Inv topo availableCPUs numCPUs (newCPUAccumulator topo availableCPUs numCPUs) where
  info := rfl
  domain := by simp [newCPUAccumulator, newCPUSet]
  result_subset := by simp [newCPUAccumulator, newCPUSet]
  needed := by simp [newCPUAccumulator, newCPUSet, CPUSet.size]

theorem Inv.domain_subset (h : Inv topo availableCPUs numCPUs a) :
    a.details.domain ⊆ topo.cpuDetails.domain := by
  rw [h.domain]
  exact Finset.sdiff_subset.trans (Finset.filter_subset _ _)

theorem Inv.domain_subset_available (h : Inv topo availableCPUs numCPUs a) :
    a.details.domain ⊆ availableCPUs.elems := by
  intro cpu hcpu
  rw [h.domain, Finset.mem_sdiff, Finset.mem_filter] at hcpu
  exact hcpu.1.2

theorem Inv.disjoint_result (h : Inv topo availableCPUs numCPUs a) :
    Disjoint a.details.domain a.result.elems := by
  rw [h.domain]
  exact Finset.sdiff_disjoint

/-- Taking CPUs that are still in the map keeps the invariant. -/
theorem Inv.take (h : Inv topo availableCPUs numCPUs a) {cpus : CPUSet}
    (hcpus : cpus.elems ⊆ a.details.domain) : Inv topo availableCPUs numCPUs (a.take cpus) where
  info := h.info
  domain := by
    rw [take_domain, h.domain, take_result, CPUSet.elems_union, sdiff_sdiff_left,
      Finset.sup_eq_union, ← Finset.union_assoc, Finset.union_self]
  result_subset := by
    rw [take_result, CPUSet.elems_union]
    exact Finset.union_subset h.result_subset (hcpus.trans h.domain_subset_available)
  needed := by
    -- the CPUs taken are new: they are in the map, which holds nothing taken before
    have hdisj : Disjoint a.result.elems cpus.elems := (h.disjoint_result.mono_left hcpus).symm
    have hneeded := h.needed
    simp only [take_numCPUsNeeded, take_result, CPUSet.size, CPUSet.elems_union] at hneeded ⊢
    rw [Finset.card_union_of_disjoint hdisj]
    push_cast
    omega

/-! ## Which units are free -/

/-- At every level, the map holds the CPUs of each unit of the topology that are still in it. -/
theorem Inv.cpusWith (h : Inv topo availableCPUs numCPUs a) (sel : CPUInfo → Int) (ids : List Int) :
    a.details.cpusWith sel ids = (topo.cpuDetails.cpusWith sel ids).filter (· ∈ a.details.domain) := by
  ext cpu
  simp only [CPUDetails.mem_cpusWith, Finset.mem_filter, h.info]
  constructor
  · rintro ⟨hd, hs⟩
    exact ⟨⟨h.domain_subset hd, hs⟩, hd⟩
  · rintro ⟨⟨-, hs⟩, hd⟩
    exact ⟨hd, hs⟩

/-- A unit has as many CPUs in the map as in the topology exactly when all of them are in the
map. -/
theorem Inv.size_eq_iff (h : Inv topo availableCPUs numCPUs a) (sel : CPUInfo → Int)
    (ids : List Int) :
    (a.details.keysIn sel (fun cpu _ => cpu) ids).size =
        (topo.cpuDetails.keysIn sel (fun cpu _ => cpu) ids).size ↔
      topo.cpuDetails.cpusWith sel ids ⊆ a.details.domain := by
  rw [CPUSet.size, CPUSet.size, CPUDetails.elems_keysIn_self, CPUDetails.elems_keysIn_self,
    Nat.cast_inj, h.cpusWith, Finset.card_filter_eq_iff]
  rfl

/-- A NUMA node is free exactly when all its CPUs are available and not taken. -/
theorem isNUMANodeFree_iff (h : Inv topo availableCPUs numCPUs a) (numaID : Int) :
    a.isNUMANodeFree topo numaID = true ↔
      topo.cpuDetails.cpusWith CPUInfo.numaNodeID [numaID] ⊆ a.details.domain := by
  rw [isNUMANodeFree, beq_iff_eq]
  exact h.size_eq_iff _ _

/-- A socket of `CPUsPerSocket` CPUs is free exactly when all of them are available and not
taken. -/
theorem isSocketFree_iff (h : Inv topo availableCPUs numCPUs a) {socketID : Int}
    (hsocket : (topo.cpuDetails.cpusInSockets [socketID]).size = topo.cpusPerSocket) :
    a.isSocketFree topo socketID = true ↔
      topo.cpuDetails.cpusWith CPUInfo.socketID [socketID] ⊆ a.details.domain := by
  rw [isSocketFree, beq_iff_eq, ← hsocket]
  exact h.size_eq_iff _ _

/-- A core of `CPUsPerCore` CPUs is free exactly when all of them are available and not taken. -/
theorem isCoreFree_iff (h : Inv topo availableCPUs numCPUs a) {coreID : Int}
    (hcore : (topo.cpuDetails.cpusInCores [coreID]).size = topo.cpusPerCore) :
    a.isCoreFree topo coreID = true ↔
      topo.cpuDetails.cpusWith CPUInfo.coreID [coreID] ⊆ a.details.domain := by
  rw [isCoreFree, beq_iff_eq, ← hcore]
  exact h.size_eq_iff _ _

/-! ## The loops -/

theorem takeFull_cons (u : Int) (units : List Int) (cpusIn : Int → CPUSet) :
    a.takeFull (u :: units) cpusIn =
      (if !a.needs (cpusIn u).size then a else a.take (cpusIn u)).takeFull units cpusIn :=
  rfl

/-- A loop of `takeFull` keeps the invariant when the units it may take have disjoint sets of
CPUs, all of them in the map when the loop starts. -/
theorem Inv.takeFull (h : Inv topo availableCPUs numCPUs a) {units : List Int}
    {cpusIn : Int → CPUSet}
    (hdisj : units.Pairwise fun u v => Disjoint (cpusIn u).elems (cpusIn v).elems)
    (hmap : ∀ u ∈ units, (cpusIn u).elems ⊆ a.details.domain) :
    Inv topo availableCPUs numCPUs (a.takeFull units cpusIn) := by
  induction units generalizing a with
  | nil => exact h
  | cons u us ih =>
    rw [takeFull_cons]
    have hdisj' := List.pairwise_cons.mp hdisj
    split
    · exact ih h hdisj'.2 fun v hv => hmap v (List.mem_cons_of_mem _ hv)
    · -- a later unit keeps its CPUs in the map: they are disjoint from the unit taken
      refine ih (h.take (hmap u List.mem_cons_self)) hdisj'.2 fun v hv => ?_
      have hv' := hmap v (List.mem_cons_of_mem _ hv)
      rw [take_domain, Finset.subset_sdiff]
      exact ⟨hv', Finset.disjoint_union_right.mpr
        ⟨h.disjoint_result.mono_left hv', hdisj'.1 v hv |>.symm⟩⟩

theorem takeRemaining_cons (cpu : Int) (cpus : List Int) :
    takeRemaining (cpu :: cpus) a =
      if (a.take (newCPUSet [cpu])).isSatisfied then a.take (newCPUSet [cpu])
      else takeRemaining cpus (a.take (newCPUSet [cpu])) :=
  rfl

/-- The loop of `takeRemainingCPUs` keeps the invariant when it runs over distinct CPUs of the
map. -/
theorem Inv.takeRemaining (h : Inv topo availableCPUs numCPUs a) {cpus : List Int}
    (hnodup : cpus.Nodup) (hmap : ∀ cpu ∈ cpus, cpu ∈ a.details.domain) :
    Inv topo availableCPUs numCPUs (takeRemaining cpus a) := by
  induction cpus generalizing a with
  | nil => exact h
  | cons c cs ih =>
    have hc : (newCPUSet [c]).elems ⊆ a.details.domain := by
      simpa [newCPUSet] using hmap c List.mem_cons_self
    have htake := h.take hc
    rw [takeRemaining_cons]
    split
    · exact htake
    · -- the CPUs still to come are distinct from `c`, so still in the map
      refine ih htake (List.nodup_cons.mp hnodup).2 fun c' hc' => ?_
      have hne : c' ≠ c := fun heq => (List.nodup_cons.mp hnodup).1 (heq ▸ hc')
      have hin := hmap c' (List.mem_cons_of_mem _ hc')
      rw [take_domain, Finset.mem_sdiff]
      refine ⟨hin, fun hmem => ?_⟩
      rcases Finset.mem_union.mp hmem with hr | hs
      · exact Finset.disjoint_left.mp h.disjoint_result hin hr
      · exact hne (by simpa [newCPUSet] using hs)

end CPUAccumulator

open CPUAccumulator in
/-- `takeByTopologyNUMAPacked`. -/
def takeByTopologyNUMAPacked (topo : CPUTopology) (availableCPUs : CPUSet) (numCPUs : Int) :
    Except String CPUSet :=
  let acc := newCPUAccumulator topo availableCPUs numCPUs
  if acc.isSatisfied then .ok acc.result
  else if acc.isFailed then .error "not enough cpus available to satisfy request"
  else
    let acc := acc.takeFullFirstLevel topo
    if acc.isSatisfied then .ok acc.result
    else
      let acc := acc.takeFullSecondLevel topo
      if acc.isSatisfied then .ok acc.result
      else
        let acc := acc.takeFullCores topo
        if acc.isSatisfied then .ok acc.result
        else
          let acc := acc.takeRemainingCPUs topo
          if acc.isSatisfied then .ok acc.result
          else .error "failed to allocate cpus"
attribute [grind] takeByTopologyNUMAPacked

/-- On a machine with a core of two threads and a core of one, `CPUsPerCore` is `3 / 2 = 1`, so
the two-thread core with one available thread counts as free, and the request for the two
available CPUs takes the whole core: a CPU that is not available. -/
theorem takeByTopologyNUMAPacked_takes_unavailable :
    ∃ topo cpus, discover ⟨3, 1, [⟨0, [⟨[0, 1], 0⟩, ⟨[2], 0⟩]⟩]⟩ = .ok topo ∧
      (newCPUSet [1, 2]).elems ⊆ topo.cpuDetails.domain ∧
      takeByTopologyNUMAPacked topo (newCPUSet [1, 2]) 2 = .ok cpus ∧
      cpus.elems = {0, 1} ∧ ¬ cpus.elems ⊆ (newCPUSet [1, 2]).elems :=
  ⟨_, _, rfl, by decide, rfl, by decide, by decide⟩

-- With fewer sockets than NUMA nodes, the NUMA nodes are listed socket by socket, and a NUMA
-- node on two sockets is listed twice.  When it is free and still needed the second time it is
-- "taken" again: nothing is added, but its CPUs are counted again.  Here the request for all
-- seven CPUs of the machine is satisfied with five.
example : ∃ topo cpus, discover ⟨7, 2, [⟨0, [⟨[0], 0⟩, ⟨[1], 1⟩]⟩, ⟨1, [⟨[2], 0⟩]⟩,
      ⟨2, [⟨[3], 1⟩, ⟨[4], 1⟩, ⟨[5], 1⟩, ⟨[6], 1⟩]⟩]⟩ = .ok topo ∧
    (newCPUSet [0, 1, 2, 3, 4, 5, 6]).elems = topo.cpuDetails.domain ∧
    takeByTopologyNUMAPacked topo (newCPUSet [0, 1, 2, 3, 4, 5, 6]) 7 = .ok cpus ∧
    cpus.elems = {0, 1, 2, 3, 4} :=
  ⟨_, _, rfl, by decide, rfl, by decide⟩

end Cpumanager
end Kubernetes
