import Mathlib
import Kubernetes.Lists.Bag
import Kubernetes.Topology.Ranking

/-!
# The merged hint does not depend on the order of the hints

The hints reach `HintMerger.Merge` in an order the kubelet does not fix: the providers in the
order they were registered, the resources of a provider in the order of a range over a Go map,
and the hints of a resource as the provider lists them.  This module shows that `Merge` reads
them only as a bag of bags (`Lists.bagOf`):

* `mem_iterateAllProviderTopologyHints` — the permutations are the lists of one hint of each list;
* `mergedHint_perm` — a merged hint does not depend on the order of its permutation;
* `narrowestHint_eq`, `maxOfMinAffinityCounts_eq_of_bagOf_eq` — neither does the bound
  `BestNonPreferredAffinityCount`;
* `merge_eq_of_bagOf_eq` — nor `Merge`;
* `bagOf_filterProvidersHints`, `bagOf_filterSingleNumaHints` — the lists the policies build
  have the same bag for provider maps with the same bag (`providersBag`).
-/

namespace Kubernetes
namespace Topology

open BitMask Kubernetes.Lists

/-! ## Permutations -/

/-- The permutations `iterate` goes through from `accum`: `accum` followed by one hint of each
list. -/
theorem mem_iterate (L : List (List TopologyHint)) (accum P : List TopologyHint) :
    P ∈ iterate L accum ↔ ∃ Q, P = accum ++ Q ∧ List.Forall₂ (· ∈ ·) Q L := by
  induction L generalizing accum with
  | nil => simp [iterate]
  | cons hints rest ih =>
      simp only [iterate, List.mem_flatMap, ih, List.forall₂_cons_right_iff]
      constructor
      · rintro ⟨h, hh, Q, rfl, hQ⟩
        exact ⟨h :: Q, by simp, h, Q, hh, hQ, rfl⟩
      · rintro ⟨_, rfl, h, Q, hh, hQ, rfl⟩
        exact ⟨h, hh, Q, by simp, hQ⟩

theorem mem_iterateAllProviderTopologyHints {L : List (List TopologyHint)}
    {P : List TopologyHint} :
    P ∈ iterateAllProviderTopologyHints L ↔ List.Forall₂ (· ∈ ·) P L := by
  simp [iterateAllProviderTopologyHints, mem_iterate]

/-- A merged hint does not depend on the order of its permutation. -/
theorem mergedHint_perm {P P' : List TopologyHint} (h : P.Perm P') (d : BitMask) :
    mergedHint d P = mergedHint d P' := by
  have hm : (masksOf P).Perm (masksOf P') := h.filterMap _
  simp only [mergedHint, andMasks_perm hm, TopologyHint.mk.injEq, true_and]
  exact decide_eq_decide.mpr (by simp only [PermPreferred, h.mem_iff, hm.mem_iff])

/-- The merged hints of lists of hints with one bag are the same. -/
theorem mem_mergedHints_of_bagOf_eq {L L' : List (List TopologyHint)} (hbag : bagOf L = bagOf L')
    (d : BitMask) {x : TopologyHint}
    (hx : x ∈ (iterateAllProviderTopologyHints L).map (mergedHint d)) :
    x ∈ (iterateAllProviderTopologyHints L').map (mergedHint d) := by
  obtain ⟨P, hP, rfl⟩ := List.mem_map.mp hx
  obtain ⟨P', hperm, hP'⟩ :=
    exists_perm_forall₂_of_bagOf_eq hbag (mem_iterateAllProviderTopologyHints.mp hP)
  exact List.mem_map.mpr
    ⟨P', mem_iterateAllProviderTopologyHints.mpr hP', (mergedHint_perm hperm d).symm⟩

/-! ## `BestNonPreferredAffinityCount` -/

/-- `narrowestHint` keeps the least mask of `maskKey` with no distance. -/
theorem narrowestHint_eq (hints : List TopologyHint) :
    narrowestHint hints = (masksOf hints).argmin (maskKey fun _ => 0) := by
  unfold narrowestHint List.argmin
  generalize (none : Option BitMask) = o
  induction hints generalizing o with
  | nil => rfl
  | cons h hints ih =>
      cases hh : h.numaNodeAffinity with
      | none =>
          rw [List.foldl_cons, masksOf_cons_none hh, ← ih o]
          simp only [hh]
      | some a =>
          rw [List.foldl_cons, masksOf_cons_some hh, List.foldl_cons, ← ih]
          congr 1
          -- one turn: the first mask is taken, a later one when it is narrower
          cases o with
          | none => simp [hh, List.argAux]
          | some c => simp [hh, List.argAux, isNarrowerThan_eq, apply_ite some]

theorem narrowestHint_perm {l l' : List TopologyHint} (h : l.Perm l') :
    narrowestHint l = narrowestHint l' := by
  rw [narrowestHint_eq, narrowestHint_eq]
  exact argmin_congr (fun x => (h.filterMap _).mem_iff) (maskKey_injective _).injOn

/-- One turn of `maxOfMinAffinityCounts`. -/
def maxStep (maxOfMinCount : Nat) (narrowest : Option BitMask) : Nat :=
  max maxOfMinCount ((narrowest.map count).getD 0)
attribute [grind] maxStep

theorem maxStep_right_comm (c : Nat) (x y : Option BitMask) :
    maxStep (maxStep c x) y = maxStep (maxStep c y) x := by
  simp only [maxStep, max_assoc, max_comm ((x.map count).getD 0)]

theorem maxOfMinAffinityCounts_eq_foldl (L : List (List TopologyHint)) :
    maxOfMinAffinityCounts L = L.foldl (fun c l => maxStep c (narrowestHint l)) 0 := by
  unfold maxOfMinAffinityCounts
  congr 1
  funext c l
  cases narrowestHint l with
  | none => simp [maxStep]
  | some n =>
      simp only [maxStep, Option.map_some, Option.getD_some]
      split_ifs with h <;> omega

/-- `BestNonPreferredAffinityCount` depends only on the bag of the hints. -/
theorem maxOfMinAffinityCounts_eq_of_bagOf_eq {L L' : List (List TopologyHint)}
    (hbag : bagOf L = bagOf L') : maxOfMinAffinityCounts L = maxOfMinAffinityCounts L' := by
  rw [maxOfMinAffinityCounts_eq_foldl, maxOfMinAffinityCounts_eq_foldl]
  exact foldl_eq_of_bagOf_eq (fun _ _ h => narrowestHint_perm h) maxStep_right_comm hbag 0

/-! ## `Merge` -/

section Merge

variable (numaInfo : NUMAInfo) (policyName : String) (opts : PolicyOptions)

/-- The ranking of a merger depends on the hints only through `BestNonPreferredAffinityCount`. -/
theorem rankKey_newHintMerger_eq {L L' : List (List TopologyHint)} (hbag : bagOf L = bagOf L') :
    (newHintMerger numaInfo L policyName opts).rankKey =
      (newHintMerger numaInfo L' policyName opts).rankKey := by
  unfold HintMerger.rankKey
  simp only [newHintMerger, maxOfMinAffinityCounts_eq_of_bagOf_eq hbag]
  rfl

/-- `Merge` depends only on the bag of the hints, when the nodes are in `0..63` and the table has
the distances it reads. -/
theorem merge_eq_of_bagOf_eq (hnodes : ∀ i ∈ numaInfo.nodes, 0 ≤ i ∧ i < 64)
    (hdist : policyName ≠ policySingleNumaNode ∧ opts.preferClosestNUMA = true →
      ∀ i ∈ numaInfo.nodes, ∀ j ∈ numaInfo.nodes, j.toNat < (numaInfo.numaDistances i).length)
    {L L' : List (List TopologyHint)} (hbag : bagOf L = bagOf L') :
    (newHintMerger numaInfo L policyName opts).merge =
      (newHintMerger numaInfo L' policyName opts).merge := by
  obtain ⟨d, hdefault, hbits⟩ := defaultAffinityMask_spec numaInfo hnodes
  rw [HintMerger.merge_eq _ hdefault
      (HintMerger.readable_default (newHintMerger numaInfo L policyName opts) hbits hdist),
    HintMerger.merge_eq _ hdefault
      (HintMerger.readable_default (newHintMerger numaInfo L' policyName opts) hbits hdist),
    rankKey_newHintMerger_eq numaInfo policyName opts hbag]
  -- the same merged hints, told apart by the ranking
  congr 2
  apply argmin_congr
  · intro x
    simp only [List.mem_filter]
    exact and_congr_left fun _ =>
      ⟨mem_mergedHints_of_bagOf_eq hbag d, mem_mergedHints_of_bagOf_eq hbag.symm d⟩
  · apply (HintMerger.rankKey_injOn _).mono
    intro x hx
    obtain ⟨P, -, rfl⟩ := List.mem_map.mp (List.mem_filter.mp hx).1
    rfl

end Merge

/-! ## The hints of the providers -/

/-- The providers' maps as a bag of bags of (resource, bag of hints). -/
def providersBag (providersHints : List (List (String × Option (List TopologyHint)))) :
    Multiset (Multiset (String × Option (Multiset TopologyHint))) :=
  Multiset.ofList (providersHints.map fun (hints : List (String × Option (List TopologyHint))) =>
    Multiset.ofList (hints.map fun r => (r.1, r.2.map Multiset.ofList)))
attribute [grind] providersBag

/-- The hints `filterProvidersHints` takes for one resource, as a bag. -/
def resourceBag : Option (Multiset TopologyHint) → Multiset TopologyHint
  | none => {⟨none, true⟩}
  | some s => if s = 0 then {⟨none, false⟩} else s
attribute [grind] resourceBag

/-- The lists `filterProvidersHints` takes for one provider, as a bag of bags. -/
def providerBag (p : Multiset (String × Option (Multiset TopologyHint))) :
    Multiset (Multiset TopologyHint) :=
  if p = 0 then {{⟨none, true⟩}} else p.map fun r => resourceBag r.2
attribute [grind] providerBag

theorem ofList_resourceHints (o : Option (List TopologyHint)) :
    Multiset.ofList (resourceHints o) = resourceBag (o.map Multiset.ofList) := by
  rcases o with _ | _ | ⟨h, hints⟩
  · rfl
  · rfl
  · simp [resourceHints, resourceBag]

/-- The bag of the lists of `filterProvidersHints` is read off the bag of the providers' maps. -/
theorem bagOf_filterProvidersHints
    (providersHints : List (List (String × Option (List TopologyHint)))) :
    bagOf (filterProvidersHints providersHints) = (providersBag providersHints).bind providerBag := by
  unfold bagOf filterProvidersHints providersBag
  rw [List.map_flatMap, ← Multiset.coe_bind, ← Multiset.map_coe, Multiset.bind_map]
  apply Multiset.bind_congr
  intro p _
  -- one provider: no resources, or one list per resource
  rcases p with _ | ⟨r, p⟩
  · simp [providerBag]
  · simp [providerBag, Function.comp_def, ofList_resourceHints]

/-- The bag of the lists of `filterSingleNumaHints`. -/
theorem bagOf_filterSingleNumaHints (L : List (List TopologyHint)) :
    bagOf (filterSingleNumaHints L) =
      (bagOf L).map (Multiset.filter fun h => keepsSingleNuma h = true) := by
  simp [bagOf, filterSingleNumaHints, Function.comp_def]

end Topology
end Kubernetes
