import Mathlib
import Kubernetes.Topology.Bitmask

/-!
# `topologymanager`: merging the hints of the providers

The policies of the topology manager merge the NUMA hints of the hint providers.
`filterProvidersHints` turns the providers' maps into one list of hints per resource;
`iterateAllProviderTopologyHints` goes through every way of taking one hint of each list (a
"permutation"); `mergePermutation` ANDs a permutation into one hint; `HintMerger.Merge` keeps the
best merged hint by `compare`.  The single-numa-node policy first keeps only the preferred hints
of at most one node (`filterSingleNumaHints`) and reports a merged mask equal to the default one as
no mask.

A hint provider's map is the list of its (resource, hints) pairs in the order a range over the
map visits them, a nil slice being `none`.  A nil `BitMask` is `none`; the calls that panic on one
(a method call, a type assertion) return an error with the runtime's message.  Average NUMA
distances are computed exactly in `ℚ` where the source divides `float64`s; only their
comparisons are used.  Logging is left out.
-/

namespace Kubernetes
namespace Topology

open BitMask

/-- `TopologyHint`. -/
structure TopologyHint where
  numaNodeAffinity : Option BitMask
  preferred : Bool
  deriving DecidableEq, Repr

/-- `PolicyOptions`: the option the merging reads. -/
structure PolicyOptions where
  preferClosestNUMA : Bool
  deriving DecidableEq, Repr

/-- `NUMAInfo`: the NUMA nodes and their distances (a node missing from the map has the nil
slice). -/
structure NUMAInfo where
  nodes : List Int
  numaDistances : Int → List Nat

/-- `PolicySingleNumaNode`. -/
def policySingleNumaNode : String := "single-numa-node"
attribute [grind] policySingleNumaNode

/-- `PolicyBestEffort`. -/
def policyBestEffort : String := "best-effort"
attribute [grind] policyBestEffort

/-- `PolicyRestricted`. -/
def policyRestricted : String := "restricted"
attribute [grind] policyRestricted

/-- The panic of a method call on a nil `BitMask`. -/
def nilDereference : String := "runtime error: invalid memory address or nil pointer dereference"
attribute [grind] nilDereference

/-- The panic of `mask.(*bitMask)` on a nil `BitMask`. -/
def nilConversion : String := "interface conversion: interface is nil, not *bitmask.bitMask"
attribute [grind] nilConversion

/-- The mask of a hint, dereferenced. -/
def TopologyHint.affinity (h : TopologyHint) : Except String BitMask :=
  match h.numaNodeAffinity with
  | some a => .ok a
  | none => .error nilDereference
attribute [grind] TopologyHint.affinity

/-! ## Permutations -/

/-- One turn of the loop of `mergePermutation`: a hint's mask joins the masks when it has one,
and the merged hint stays preferred while every mask equals the first and every hint is
preferred. -/
def mergeStep (acc : Bool × List BitMask) (hint : TopologyHint) : Bool × List BitMask :=
  let acc := match hint.numaNodeAffinity with
    | some a =>
        let numaAffinities := acc.2 ++ [a]
        (acc.1 && a.isEqual (numaAffinities.headD a), numaAffinities)
    | none => acc
  (acc.1 && hint.preferred, acc.2)
attribute [grind] mergeStep

/-- `mergePermutation`: the masks of the permutation ANDed into the default mask. -/
def mergePermutation (defaultAffinity : Option BitMask) (permutation : List TopologyHint) :
    Except String TopologyHint :=
  let acc := permutation.foldl mergeStep (true, [])
  match defaultAffinity with
  | some d => .ok ⟨some (andMasks d acc.2), acc.1⟩
  | none => .error nilConversion
attribute [grind] mergePermutation

/-- The hints of one resource as `filterProvidersHints` takes them: a nil slice is a preferred
hint of any node, an empty one a non-preferred hint of any node. -/
def resourceHints : Option (List TopologyHint) → List TopologyHint
  | none => [⟨none, true⟩]
  | some [] => [⟨none, false⟩]
  | some hints => hints
attribute [grind] resourceHints

/-- `filterProvidersHints`: one list of hints per resource, and a preferred hint of any node for
a provider without hints. -/
def filterProvidersHints (providersHints : List (List (String × Option (List TopologyHint)))) :
    List (List TopologyHint) :=
  providersHints.flatMap fun hints =>
    if hints.length = 0 then [[⟨none, true⟩]] else hints.map fun r => resourceHints r.2
attribute [grind] filterProvidersHints

/-- The recursion of `iterateAllProviderTopologyHints` from the lists left, with the hints taken
so far: the permutations in the order the callback sees them. -/
def iterate : List (List TopologyHint) → List TopologyHint → List (List TopologyHint)
  | [], accum => [accum]
  | hints :: rest, accum => hints.flatMap fun hint => iterate rest (accum ++ [hint])
attribute [grind] iterate

/-- `iterateAllProviderTopologyHints`: the permutations, one hint of each list. -/
def iterateAllProviderTopologyHints (allProviderHints : List (List TopologyHint)) :
    List (List TopologyHint) :=
  iterate allProviderHints []
attribute [grind] iterateAllProviderTopologyHints

/-! ## Comparing masks -/

/-- `narrowestHint`: the mask of the narrowest hint that has one. -/
def narrowestHint (hints : List TopologyHint) : Option BitMask :=
  hints.foldl (fun narrowest hint =>
    match hint.numaNodeAffinity with
    | none => narrowest
    | some a =>
        let narrowest := narrowest.getD a
        some (if a.isNarrowerThan narrowest then a else narrowest)) none
attribute [grind] narrowestHint

/-- `maxOfMinAffinityCounts`: the largest count among the narrowest masks of the lists. -/
def maxOfMinAffinityCounts (filteredHints : List (List TopologyHint)) : Nat :=
  filteredHints.foldl (fun maxOfMinCount resourceHints =>
    match narrowestHint resourceHints with
    | none => maxOfMinCount
    | some n => if n.count > maxOfMinCount then n.count else maxOfMinCount) 0
attribute [grind] maxOfMinAffinityCounts

/-- `DefaultAffinityMask`: the mask of all the nodes, nil when a node is outside `0..63`. -/
def NUMAInfo.defaultAffinityMask (n : NUMAInfo) : Option BitMask :=
  match newBitMask n.nodes with
  | .ok m => some m
  | .error _ => none
attribute [grind] NUMAInfo.defaultAffinityMask

/-- `Narrowest`. -/
def NUMAInfo.narrowest (_n : NUMAInfo) (m1 m2 : BitMask) : BitMask :=
  if m1.isNarrowerThan m2 then m1 else m2
attribute [grind] NUMAInfo.narrowest

/-- `CalculateAverageFor`: the mean distance between the nodes of the mask, over all ordered
pairs; a distance missing from the table panics. -/
def calculateAverageFor (d : Int → List Nat) (bm : BitMask) : Except String ℚ :=
  if bm.count = 0 then .ok 0
  else do
    let acc ← bm.getBits.foldlM (fun acc node1 =>
      bm.getBits.foldlM (fun acc node2 =>
        match (d node1)[node2]? with
        | some v => .ok (acc.1 + 1, acc.2 + v)
        | none => .error "runtime error: index out of range") acc) ((0 : ℚ), (0 : ℚ))
    .ok (acc.2 / acc.1)
attribute [grind] calculateAverageFor

/-- `Closest`: the narrower of masks of different counts, otherwise the one of the smaller
average distance, then the smaller number. -/
def NUMAInfo.closest (n : NUMAInfo) (m1 m2 : BitMask) : Except String BitMask :=
  if m1.count ≠ m2.count then .ok (n.narrowest m1 m2)
  else do
    let m1Distance ← calculateAverageFor n.numaDistances m1
    let m2Distance ← calculateAverageFor n.numaDistances m2
    if m1Distance = m2Distance then .ok (if m1.isLessThan m2 then m1 else m2)
    else if m1Distance < m2Distance then .ok m1
    else .ok m2
attribute [grind] NUMAInfo.closest

/-! ## `HintMerger` -/

/-- `HintMerger`, with the policy name and options its mask comparison captures. -/
structure HintMerger where
  numaInfo : NUMAInfo
  hints : List (List TopologyHint)
  bestNonPreferredAffinityCount : Nat
  policyName : String
  opts : PolicyOptions

/-- `NewHintMerger`. -/
def newHintMerger (numaInfo : NUMAInfo) (hints : List (List TopologyHint)) (policyName : String)
    (opts : PolicyOptions) : HintMerger :=
  ⟨numaInfo, hints, maxOfMinAffinityCounts hints, policyName, opts⟩
attribute [grind] newHintMerger

namespace HintMerger

variable (m : HintMerger)

/-- The mask comparison `NewHintMerger` builds: the current hint unless the candidate's mask is
another one and the better by `Closest` (with `PreferClosestNUMA`, outside the single-numa-node
policy) or by `Narrowest`. -/
def compareNUMAAffinityMasks (current candidate : TopologyHint) : Except String TopologyHint := do
  let cand ← candidate.affinity
  let cur ← current.affinity
  if cand.isEqual cur then pure current
  else do
    let best ← if m.policyName ≠ policySingleNumaNode ∧ m.opts.preferClosestNUMA then
        m.numaInfo.closest cur cand
      else pure (m.numaInfo.narrowest cur cand)
    pure (if best.isEqual cur then current else candidate)
attribute [grind] compareNUMAAffinityMasks

/-- `compare`: the better of the current best hint and a candidate, by the cases of the source. -/
def compare (current : Option TopologyHint) (candidate : TopologyHint) :
    Except String (Option TopologyHint) := do
  let cand ← candidate.affinity
  if cand.count = 0 then pure current
  else match current with
  | none => pure (some candidate)
  | some current =>
      if !current.preferred && candidate.preferred then pure (some candidate)
      else if current.preferred && !candidate.preferred then pure (some current)
      else if current.preferred && candidate.preferred then
        some <$> m.compareNUMAAffinityMasks current candidate
      else do
        -- both non-preferred: as close to `bestNonPreferredAffinityCount` as possible
        let cur ← current.affinity
        let best := m.bestNonPreferredAffinityCount
        if cur.count > best then some <$> m.compareNUMAAffinityMasks current candidate
        else if cur.count = best then
          if cand.count ≠ best then pure (some current)
          else some <$> m.compareNUMAAffinityMasks current candidate
        else if cand.count > best then pure (some current)
        else if cand.count = best then pure (some candidate)
        else if cand.count > cur.count then pure (some candidate)
        else if cand.count < cur.count then pure (some current)
        else some <$> m.compareNUMAAffinityMasks current candidate
attribute [grind] compare

/-- `Merge`: the best merged hint of all the permutations, or the default mask, not preferred,
when no merged hint has a node. -/
def merge : Except String TopologyHint := do
  let defaultAffinity := m.numaInfo.defaultAffinityMask
  let bestHint ← (iterateAllProviderTopologyHints m.hints).foldlM (fun bestHint permutation => do
      let mergedHint ← mergePermutation defaultAffinity permutation
      m.compare bestHint mergedHint) none
  pure (bestHint.getD ⟨defaultAffinity, false⟩)
attribute [grind] merge

end HintMerger

/-! ## The policies -/

/-- `bestEffortPolicy.Merge`: the merged hint, always admitted. -/
def bestEffortMerge (numaInfo : NUMAInfo) (opts : PolicyOptions)
    (providersHints : List (List (String × Option (List TopologyHint)))) :
    Except String (TopologyHint × Bool) := do
  let bestHint ← (newHintMerger numaInfo (filterProvidersHints providersHints) policyBestEffort
    opts).merge
  pure (bestHint, true)
attribute [grind] bestEffortMerge

/-- `restrictedPolicy.Merge`: the merged hint, admitted when preferred. -/
def restrictedMerge (numaInfo : NUMAInfo) (opts : PolicyOptions)
    (providersHints : List (List (String × Option (List TopologyHint)))) :
    Except String (TopologyHint × Bool) := do
  let bestHint ← (newHintMerger numaInfo (filterProvidersHints providersHints) policyRestricted
    opts).merge
  pure (bestHint, bestHint.preferred)
attribute [grind] restrictedMerge

/-- The hints `filterSingleNumaHints` keeps: preferred ones of any node or of one node. -/
def keepsSingleNuma (hint : TopologyHint) : Bool :=
  match hint.numaNodeAffinity with
  | none => hint.preferred
  | some a => a.count = 1 && hint.preferred
attribute [grind] keepsSingleNuma

/-- `filterSingleNumaHints`. -/
def filterSingleNumaHints (allResourcesHints : List (List TopologyHint)) :
    List (List TopologyHint) :=
  allResourcesHints.map fun oneResourceHints => oneResourceHints.filter keepsSingleNuma
attribute [grind] filterSingleNumaHints

/-- `singleNumaNodePolicy.Merge`: the best merged hint of the single-node hints, its mask dropped
when it is the default one, admitted when preferred. -/
def singleNumaNodeMerge (numaInfo : NUMAInfo) (opts : PolicyOptions)
    (providersHints : List (List (String × Option (List TopologyHint)))) :
    Except String (TopologyHint × Bool) := do
  let filteredHints := filterProvidersHints providersHints
  let singleNumaHints := filterSingleNumaHints filteredHints
  let bestHint ← (newHintMerger numaInfo singleNumaHints policySingleNumaNode opts).merge
  let best ← bestHint.affinity
  let defaultAffinity ← match numaInfo.defaultAffinityMask with
    | some d => Except.ok d
    | none => Except.error nilConversion
  let bestHint : TopologyHint :=
    if best.isEqual defaultAffinity then ⟨none, bestHint.preferred⟩ else bestHint
  pure (bestHint, bestHint.preferred)
attribute [grind] singleNumaNodeMerge

end Topology
end Kubernetes
