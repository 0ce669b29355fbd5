import Mathlib
import Kubernetes.Go.Loops
import Kubernetes.Lists.Argmin
import Kubernetes.Topology.Policy

/-!
# `HintMerger.Merge` keeps the best merged hint of a ranking

`compare` is a comparison written case by case.  This module shows it is the step of a
selection loop for one lexicographic key, `HintMerger.rankKey`:

* `mergePermutation_eq` — the merged hint of a permutation is the default mask ANDed with the
  masks of its hints, preferred when every hint is and all the masks are one;
* `calculateAverageFor_eq`, `closest_eq`, `narrowest_eq`, `compareNUMAAffinityMasks_eq` — the
  mask comparison keeps the current hint unless the candidate's mask has a smaller `maskKey`:
  fewer nodes, then (with `PreferClosestNUMA`, outside the single-numa-node policy) the smaller
  average distance, then the smaller number;
* `compare_eq` — `compare` passes over a candidate without a node and otherwise keeps the hint
  of the smaller `rankKey`: preferred first, then non-preferred hints by how far their count is
  from `BestNonPreferredAffinityCount` (those above it after all those below), then `maskKey`;
* `merge_eq` — `Merge` is `List.argmin` of `rankKey` over the merged hints that have a node, and
  the default mask, not preferred, when there is none.

The ranking tells hints with a mask apart (`rankKey_injOn`), so the result is the hint of least
key however the permutations are ordered.  The hypotheses are those under which the source does
not panic: the nodes are in `0..63`, and the distance table has an entry for each pair of nodes
when the average distance is read.
-/

namespace Kubernetes
namespace Topology

open BitMask

/-! ## Merged hints -/

/-- The masks of the hints of a permutation that have one, in order. -/
def masksOf (permutation : List TopologyHint) : List BitMask :=
  permutation.filterMap (·.numaNodeAffinity)
attribute [grind] masksOf

/-- A merged hint is preferred when every hint is and all the masks are the same. -/
def PermPreferred (permutation : List TopologyHint) : Prop :=
  (∀ h ∈ permutation, h.preferred = true) ∧ ∀ a ∈ masksOf permutation, ∀ b ∈ masksOf permutation, a = b
attribute [grind] PermPreferred

instance (permutation : List TopologyHint) : Decidable (PermPreferred permutation) :=
  inferInstanceAs (Decidable (_ ∧ _))

/-- The hint `mergePermutation` builds from the default mask `d`. -/
def mergedHint (d : BitMask) (permutation : List TopologyHint) : TopologyHint :=
  ⟨some (andMasks d (masksOf permutation)), decide (PermPreferred permutation)⟩
attribute [grind] mergedHint

@[simp] theorem masksOf_nil : masksOf [] = [] := rfl

theorem masksOf_cons_none {h : TopologyHint} (hh : h.numaNodeAffinity = none)
    (permutation : List TopologyHint) : masksOf (h :: permutation) = masksOf permutation := by
  simp [masksOf, hh]

theorem masksOf_cons_some {h : TopologyHint} {a : BitMask} (hh : h.numaNodeAffinity = some a)
    (permutation : List TopologyHint) : masksOf (h :: permutation) = a :: masksOf permutation := by
  simp [masksOf, hh]

/-- The masks the loop of `mergePermutation` gathers. -/
theorem foldl_mergeStep_snd (permutation : List TopologyHint) (p : Bool) (ms : List BitMask) :
    (permutation.foldl mergeStep (p, ms)).2 = ms ++ masksOf permutation := by
  induction permutation generalizing p ms with
  | nil => simp
  | cons h permutation ih =>
      cases hh : h.numaNodeAffinity with
      | none =>
          rw [List.foldl_cons, masksOf_cons_none hh]
          simpa [mergeStep, hh] using ih _ ms
      | some a =>
          rw [List.foldl_cons, masksOf_cons_some hh]
          simpa [mergeStep, hh] using ih _ (ms ++ [a])

/-- The flag the loop of `mergePermutation` keeps: every hint preferred and every mask equal to
the first of all the masks gathered. -/
theorem foldl_mergeStep_fst (permutation : List TopologyHint) (p : Bool) (ms : List BitMask) :
    (permutation.foldl mergeStep (p, ms)).1 = true ↔
      p = true ∧ (∀ h ∈ permutation, h.preferred = true) ∧
        ∀ a ∈ masksOf permutation, a = (ms ++ masksOf permutation).headD a := by
  induction permutation generalizing p ms with
  | nil => simp
  | cons h permutation ih =>
      cases hh : h.numaNodeAffinity with
      | none =>
          rw [List.foldl_cons, masksOf_cons_none hh]
          simp only [mergeStep, hh, ih, Bool.and_eq_true, List.mem_cons, forall_eq_or_imp]
          tauto
      | some a =>
          rw [List.foldl_cons, masksOf_cons_some hh]
          -- the first mask is the same whether read after `a` or after all the masks
          have hhead : ∀ x, (ms ++ [a]).headD x = (ms ++ a :: masksOf permutation).headD a := by
            intro x
            cases ms <;> rfl
          simp only [mergeStep, hh, ih, Bool.and_eq_true, List.mem_cons, forall_eq_or_imp,
            isEqual, beq_iff_eq, hhead, List.append_assoc, List.singleton_append]
          tauto

/-- Masks all equal to the first are all equal. -/
theorem forall_eq_headD_iff (l : List BitMask) :
    (∀ a ∈ l, a = l.headD a) ↔ ∀ a ∈ l, ∀ b ∈ l, a = b := by
  cases l with
  | nil => simp
  | cons x l =>
      simp only [List.headD_cons, List.mem_cons]
      constructor
      · intro h a ha b hb
        rw [h a ha, h b hb]
      · intro h a ha
        exact h a ha x (Or.inl rfl)

/-- `mergePermutation` with a default mask gives `mergedHint`. -/
theorem mergePermutation_eq (d : BitMask) (permutation : List TopologyHint) :
    mergePermutation (some d) permutation = .ok (mergedHint d permutation) := by
  have hsnd := foldl_mergeStep_snd permutation true []
  have hfst := foldl_mergeStep_fst permutation true []
  rw [List.nil_append] at hsnd hfst
  simp only [mergePermutation, mergedHint, hsnd, Except.ok.injEq, TopologyHint.mk.injEq,
    true_and]
  rw [Bool.eq_iff_iff, hfst, decide_eq_true_iff, PermPreferred, forall_eq_headD_iff]
  simp

/-! ## Average distances -/

/-- The sum of the distances between the nodes of `bits`, over all ordered pairs. -/
def distanceSum (d : Int → List Nat) (bits : List Nat) : ℚ :=
  (bits.map fun (n1 : Nat) => (bits.map fun n2 => (((d n1).getD n2 0 : Nat) : ℚ)).sum).sum
attribute [grind] distanceSum

/-- The average distance between the nodes of a mask, over all ordered pairs. -/
def averageDistance (d : Int → List Nat) (bm : BitMask) : ℚ :=
  distanceSum d bm.getBits / (bm.getBits.length * bm.getBits.length)
attribute [grind] averageDistance

/-- A loop that counts the elements and sums a value of each. -/
theorem foldl_count_sum {α : Type*} (v : α → ℚ) (l : List α) (acc : ℚ × ℚ) :
    l.foldl (fun acc x => (acc.1 + 1, acc.2 + v x)) acc = (acc.1 + l.length, acc.2 + (l.map v).sum) := by
  induction l generalizing acc with
  | nil => simp
  | cons x l ih =>
      rw [List.foldl_cons, ih]
      simp only [List.length_cons, Nat.cast_succ, List.map_cons, List.sum_cons]
      congr 1 <;> ring

/-- Two such loops, one inside the other. -/
theorem foldl_foldl_count_sum {α β : Type*} (w : α → β → ℚ) (rows : List α) (l : List β)
    (acc : ℚ × ℚ) :
    rows.foldl (fun acc r => l.foldl (fun acc x => (acc.1 + 1, acc.2 + w r x)) acc) acc =
      (acc.1 + rows.length * l.length, acc.2 + (rows.map fun r => (l.map (w r)).sum).sum) := by
  induction rows generalizing acc with
  | nil => simp
  | cons r rows ih =>
      rw [List.foldl_cons, foldl_count_sum, ih]
      simp only [List.length_cons, Nat.cast_succ, List.map_cons, List.sum_cons]
      congr 1 <;> ring

/-- `CalculateAverageFor` returns the average distance when the table has every pair of nodes of
the mask. -/
theorem calculateAverageFor_eq (d : Int → List Nat) (bm : BitMask)
    (hcov : ∀ node1 ∈ bm.getBits, ∀ node2 ∈ bm.getBits, node2 < (d node1).length) :
    calculateAverageFor d bm = .ok (averageDistance d bm) := by
  unfold calculateAverageFor
  split_ifs with h0
  · have hnil : bm.getBits = [] := by
      rw [count_eq_zero_iff.mp h0]
      decide
    simp [averageDistance, distanceSum, hnil]
  · -- the source ranges over the nodes as `int`s
    have hrows : (do let a ← bm.getBits; pure (a : Int)) = bm.getBits.map (↑) :=
      List.map_eq_flatMap.symm
    rw [hrows]
    simp only [bind, Except.bind]
    -- every distance is in the table, so both loops are pure folds
    rw [Go.foldlM_eq_ok_foldl (fun acc (node1 : Int) => bm.getBits.foldl
        (fun acc node2 => (acc.1 + 1, acc.2 + (((d node1).getD node2 0 : Nat) : ℚ))) acc)
      (fun _ => True) ?_ trivial, foldl_foldl_count_sum]
    · simp [averageDistance, distanceSum, Function.comp_def]
    · intro node1 hnode1 acc _
      obtain ⟨n1, hn1, rfl⟩ := List.mem_map.mp hnode1
      refine ⟨?_, trivial⟩
      rw [Go.foldlM_eq_ok_foldl (fun acc node2 =>
          (acc.1 + 1, acc.2 + (((d n1).getD node2 0 : Nat) : ℚ))) (fun _ => True) ?_ trivial]
      intro node2 hnode2 acc _
      have hlt := hcov n1 hn1 node2 hnode2
      simp [List.getElem?_eq_getElem hlt]

/-- The average distance of one node is its distance to itself. -/
theorem averageDistance_single (d : Int → List Nat) {n : Nat} (hn : n < 64) :
    averageDistance d (single n) = (((d n).getD n 0 : Nat) : ℚ) := by
  simp [averageDistance, distanceSum, getBits_single hn]

/-! ## Comparing masks -/

/-- The table has the distance between every two nodes of the mask. -/
def Covered (d : Int → List Nat) (a : BitMask) : Prop :=
  ∀ node1 ∈ a.getBits, ∀ node2 ∈ a.getBits, node2 < (d node1).length
attribute [grind] Covered

/-- The order of the mask comparison: fewer nodes, then the smaller average distance `avg`, then
the smaller number. -/
def maskKey (avg : BitMask → ℚ) (a : BitMask) : Lex (Nat × Lex (ℚ × Nat)) :=
  toLex (a.count, toLex (avg a, a.toNat))
attribute [grind] maskKey

theorem maskKey_lt_iff {avg : BitMask → ℚ} {a b : BitMask} :
    maskKey avg b < maskKey avg a ↔
      b.count < a.count ∨ b.count = a.count ∧ (avg b < avg a ∨ avg b = avg a ∧ b.toNat < a.toNat) := by
  simp only [maskKey, Prod.Lex.toLex_lt_toLex]

theorem maskKey_le_iff {avg : BitMask → ℚ} {a b : BitMask} :
    maskKey avg a ≤ maskKey avg b ↔
      a.count < b.count ∨ a.count = b.count ∧ (avg a < avg b ∨ avg a = avg b ∧ a.toNat ≤ b.toNat) := by
  simp only [maskKey, Prod.Lex.toLex_le_toLex]

/-- Two average distances that are constant on the masks of one count order masks alike. -/
theorem maskKey_le_congr {f g : BitMask → ℚ} {a b : BitMask}
    (hf : a.count = b.count → f a = f b) (hg : a.count = b.count → g a = g b) :
    maskKey f a ≤ maskKey f b ↔ maskKey g a ≤ maskKey g b := by
  rw [maskKey_le_iff, maskKey_le_iff]
  by_cases hc : a.count = b.count
  · simp [hc, hf hc, hg hc]
  · simp [hc]

theorem maskKey_injective (avg : BitMask → ℚ) : Function.Injective (maskKey avg) := by
  intro a b h
  simp only [maskKey, toLex_inj, Prod.mk.injEq] at h
  exact BitVec.eq_of_toNat_eq h.2.2

/-- `Narrowest` of two masks keeps the second when its `maskKey`, with no distance, is smaller. -/
theorem narrowest_eq (n : NUMAInfo) {a b : BitMask} (hab : a ≠ b) :
    n.narrowest a b = if maskKey (fun _ => 0) b < maskKey (fun _ => 0) a then b else a := by
  have hnat : a.toNat ≠ b.toNat := fun h => hab (BitVec.eq_of_toNat_eq h)
  simp only [NUMAInfo.narrowest, isNarrowerThan, isLessThan, maskKey_lt_iff, lt_self_iff_false,
    true_and, false_or]
  by_cases hc : a.count = b.count
  · simp only [hc, if_true, lt_self_iff_false, false_or, true_and]
    by_cases hlt : a.toNat < b.toNat
    · simp [hlt, Nat.lt_asymm hlt]
    · simp [hlt, show b.toNat < a.toNat by omega]
  · simp only [hc, if_false]
    by_cases hlt : a.count < b.count
    · simp [hlt, Nat.lt_asymm hlt, show b.count ≠ a.count by omega]
    · simp [hlt, show b.count < a.count by omega]

/-- `IsNarrowerThan` is the order of `maskKey` with no distance. -/
theorem isNarrowerThan_eq (a b : BitMask) :
    a.isNarrowerThan b = decide (maskKey (fun _ => 0) a < maskKey (fun _ => 0) b) := by
  simp only [isNarrowerThan, isLessThan, maskKey_lt_iff, lt_self_iff_false, true_and, false_or]
  by_cases hc : a.count = b.count
  · simp [hc]
  · simp [hc]

/-- `Closest` of two masks with their distances in the table keeps the second when its `maskKey`
with the average distance is smaller. -/
theorem closest_eq (n : NUMAInfo) {a b : BitMask} (hab : a ≠ b) (ha : Covered n.numaDistances a)
    (hb : Covered n.numaDistances b) :
    n.closest a b = .ok (if maskKey (averageDistance n.numaDistances) b <
      maskKey (averageDistance n.numaDistances) a then b else a) := by
  unfold NUMAInfo.closest
  by_cases hc : a.count = b.count
  · have hnat : a.toNat ≠ b.toNat := fun h => hab (BitVec.eq_of_toNat_eq h)
    rw [if_neg (not_not.mpr hc), calculateAverageFor_eq _ a ha, calculateAverageFor_eq _ b hb]
    simp only [bind, Except.bind, maskKey_lt_iff, hc, lt_self_iff_false, false_or, true_and,
      isLessThan]
    rcases lt_trichotomy (averageDistance n.numaDistances a) (averageDistance n.numaDistances b)
      with hlt | heq | hgt
    · simp [hlt.ne, hlt.ne', hlt, not_lt.mpr hlt.le]
    · -- the same average distance: the smaller number
      rw [heq]
      by_cases hlt : a.toNat < b.toNat
      · simp [hlt, Nat.lt_asymm hlt]
      · simp [hlt, show b.toNat < a.toNat by omega]
    · simp [hgt.ne', hgt.ne, hgt, not_lt.mpr hgt.le]
  · rw [if_pos hc, narrowest_eq n hab]
    simp only [maskKey_lt_iff, Ne.symm hc, false_and, or_false]

theorem count_le_of_maskKey_lt {avg : BitMask → ℚ} {a b : BitMask}
    (h : maskKey avg b < maskKey avg a) : b.count ≤ a.count := by
  rcases maskKey_lt_iff.mp h with h | ⟨h, -⟩ <;> omega

theorem maskKey_lt_of_count_lt {avg : BitMask → ℚ} {a b : BitMask} (h : b.count < a.count) :
    maskKey avg b < maskKey avg a :=
  maskKey_lt_iff.mpr (Or.inl h)

/-! ## The ranking of merged hints -/

/-- Where a hint that is not preferred stands by its count `count`: below the bound `best` at
`best - count`, so that the larger counts come first, and above it after all of those, the
smaller counts first. -/
def countRank (best count : Nat) : Nat :=
  if count ≤ best then best - count else best + count
attribute [grind] countRank

theorem countRank_of_le {best count : Nat} (h : count ≤ best) :
    countRank best count = best - count := if_pos h

theorem countRank_of_lt {best count : Nat} (h : best < count) :
    countRank best count = best + count := if_neg (Nat.not_le.mpr h)

/-- The cases by which `compare` picks between two hints that are not preferred, by their counts
`cb` (the candidate `y`) and `ca` (the current hint `x`) and the mask comparison `K`, are the order
of `countRank` and then `K`. -/
theorem countRank_decides {α : Type*} (best ca cb : Nat) {K R : Prop} [Decidable K] [Decidable R]
    (hR : R ↔ countRank best cb < countRank best ca ∨
      countRank best cb = countRank best ca ∧ K)
    (hK1 : K → cb ≤ ca) (hK2 : cb < ca → K) (x y : α) :
    (if R then y else x) =
      if ca > best then (if K then y else x)
      else if ca = best then (if cb ≠ best then x else if K then y else x)
      else if cb > best then x
      else if cb = best then y
      else if cb > ca then y
      else if cb < ca then x
      else if K then y else x := by
  -- with `K` decided and each count placed against the bound, every case is arithmetic
  by_cases hK : K
  · have hcb := hK1 hK
    have hR' : R ↔ countRank best cb ≤ countRank best ca := by
      rw [hR, Nat.le_iff_lt_or_eq]
      simp only [hK, and_true]
    rw [if_congr hR' rfl rfl]
    simp only [if_pos hK]
    rcases Nat.lt_or_ge best ca with ha | ha <;> rcases Nat.lt_or_ge best cb with hb | hb <;>
      simp only [countRank_of_lt, countRank_of_le, ha, hb] <;>
      split_ifs <;> first | rfl | (exfalso; omega)
  · have hcb : ca ≤ cb := Nat.not_lt.mp (mt hK2 hK)
    have hR' : R ↔ countRank best cb < countRank best ca := by
      rw [hR]
      simp only [hK, and_false, or_false]
    rw [if_congr hR' rfl rfl]
    simp only [if_neg hK]
    rcases Nat.lt_or_ge best ca with ha | ha <;> rcases Nat.lt_or_ge best cb with hb | hb <;>
      simp only [countRank_of_lt, countRank_of_le, ha, hb] <;>
      split_ifs <;> first | rfl | (exfalso; omega)

/-- The mask of a hint, the empty one for a hint of any node. -/
def TopologyHint.mask (h : TopologyHint) : BitMask := h.numaNodeAffinity.getD 0
attribute [grind] TopologyHint.mask

namespace HintMerger

variable (m : HintMerger)

/-- The mask comparison reads the average distances: `PreferClosestNUMA` outside the
single-numa-node policy. -/
def ReadsDistances : Prop := m.policyName ≠ policySingleNumaNode ∧ m.opts.preferClosestNUMA = true
attribute [grind] ReadsDistances

instance : Decidable m.ReadsDistances := inferInstanceAs (Decidable (_ ∧ _))

/-- The average distance as the mask comparison reads it, none where it does not. -/
def avgKey (a : BitMask) : ℚ :=
  if m.ReadsDistances then averageDistance m.numaInfo.numaDistances a else 0
attribute [grind] avgKey

/-- A mask the comparison can read: the table has its distances where they are read. -/
def Readable (a : BitMask) : Prop := m.ReadsDistances → Covered m.numaInfo.numaDistances a
attribute [grind] Readable

/-- The ranking of merged hints (smaller is better): preferred first; then the hints that are not
preferred by `countRank` of `BestNonPreferredAffinityCount`; then `maskKey`. -/
def rankKey (h : TopologyHint) : Lex (Nat × Lex (Nat × Lex (Nat × Lex (ℚ × Nat)))) :=
  toLex (if h.preferred then 0 else 1,
    toLex (if h.preferred then 0 else countRank m.bestNonPreferredAffinityCount h.mask.count,
      maskKey m.avgKey h.mask))
attribute [grind] rankKey

/-- The ranking as the policies document it: the mask comparison reads the average distances
whenever `PreferClosestNUMA` is set, for the single-numa-node policy too.  It is the ranking of
the same merger under the best-effort policy. -/
def documentedKey (h : TopologyHint) : Lex (Nat × Lex (Nat × Lex (Nat × Lex (ℚ × Nat)))) :=
  { m with policyName := policyBestEffort }.rankKey h
attribute [grind] documentedKey

/-- Outside the single-numa-node policy the code ranks as documented. -/
theorem documentedKey_eq (h : m.policyName ≠ policySingleNumaNode) :
    m.documentedKey = m.rankKey := by
  have hr : ({ m with policyName := policyBestEffort } : HintMerger).ReadsDistances ↔
      m.ReadsDistances :=
    ⟨fun hb => ⟨h, hb.2⟩, fun hb => ⟨show policyBestEffort ≠ policySingleNumaNode by decide, hb.2⟩⟩
  have havg : ({ m with policyName := policyBestEffort } : HintMerger).avgKey = m.avgKey := by
    funext a
    exact if_congr hr rfl rfl
  funext x
  simp only [documentedKey, rankKey, havg]

/-- Of two preferred hints, the ranking compares the masks. -/
theorem rankKey_le_iff_of_preferred {x y : TopologyHint} (hx : x.preferred = true)
    (hy : y.preferred = true) :
    m.rankKey x ≤ m.rankKey y ↔ maskKey m.avgKey x.mask ≤ maskKey m.avgKey y.mask := by
  simp [rankKey, hx, hy, Prod.Lex.toLex_le_toLex]

/-- The mask comparison of `NewHintMerger` keeps the current hint unless the candidate's mask has
a smaller `maskKey`. -/
theorem compareNUMAAffinityMasks_eq {current candidate : TopologyHint} {a b : BitMask}
    (ha : current.numaNodeAffinity = some a) (hb : candidate.numaNodeAffinity = some b)
    (hra : m.Readable a) (hrb : m.Readable b) :
    m.compareNUMAAffinityMasks current candidate =
      .ok (if maskKey m.avgKey b < maskKey m.avgKey a then candidate else current) := by
  unfold compareNUMAAffinityMasks
  simp only [TopologyHint.affinity, ha, hb, bind, Except.bind, pure, Except.pure, isEqual,
    beq_iff_eq]
  by_cases hab : b = a
  · subst hab
    simp
  · rw [if_neg hab]
    by_cases hr : m.ReadsDistances
    · have hcond : m.policyName ≠ policySingleNumaNode ∧ m.opts.preferClosestNUMA = true := hr
      have hkey : m.avgKey = averageDistance m.numaInfo.numaDistances := funext fun _ => if_pos hr
      rw [if_pos hcond, closest_eq _ (Ne.symm hab) (hra hr) (hrb hr), hkey]
      split_ifs <;> simp_all
    · have hcond : ¬(m.policyName ≠ policySingleNumaNode ∧ m.opts.preferClosestNUMA = true) := hr
      have hkey : m.avgKey = fun _ => 0 := funext fun _ => if_neg hr
      rw [if_neg hcond, narrowest_eq _ (Ne.symm hab), hkey]
      split_ifs <;> simp_all

/-- `compare` passes over a candidate without a node and otherwise is the step of a loop keeping
the hint of least `rankKey`. -/
theorem compare_eq {current : Option TopologyHint} {candidate : TopologyHint} {b : BitMask}
    (hb : candidate.numaNodeAffinity = some b) (hrb : m.Readable b)
    (hcur : ∀ c, current = some c → ∃ a, c.numaNodeAffinity = some a ∧ m.Readable a) :
    m.compare current candidate =
      .ok (if b.count = 0 then current
        else List.argAux (fun x y => m.rankKey x < m.rankKey y) current candidate) := by
  unfold compare
  simp only [TopologyHint.affinity, hb, bind, Except.bind, pure, Except.pure]
  by_cases h0 : b.count = 0
  · rw [if_pos h0, if_pos h0]
  rw [if_neg h0, if_neg h0]
  rcases current with _ | c
  · rfl
  obtain ⟨a, ha, hra⟩ := hcur c rfl
  have hmc : c.mask = a := by simp [TopologyHint.mask, ha]
  have hmd : candidate.mask = b := by simp [TopologyHint.mask, hb]
  have hargAux : ∀ (f : TopologyHint → Lex (Nat × Lex (Nat × Lex (Nat × Lex (ℚ × Nat))))),
      List.argAux (fun x y => f x < f y) (some c) candidate =
        if f candidate < f c then some candidate else some c := fun _ => rfl
  rw [hargAux]
  simp only [ha, compareNUMAAffinityMasks_eq m ha hb hra hrb, Functor.map, Except.map]
  cases hc : c.preferred <;> cases hd : candidate.preferred
  · -- neither is preferred: the cases of the source, by the counts
    have hR : m.rankKey candidate < m.rankKey c ↔
        countRank m.bestNonPreferredAffinityCount b.count <
            countRank m.bestNonPreferredAffinityCount a.count ∨
          countRank m.bestNonPreferredAffinityCount b.count =
            countRank m.bestNonPreferredAffinityCount a.count ∧
          maskKey m.avgKey b < maskKey m.avgKey a := by
      simp [rankKey, hc, hd, hmc, hmd, Prod.Lex.toLex_lt_toLex]
    rw [countRank_decides m.bestNonPreferredAffinityCount a.count b.count hR
      count_le_of_maskKey_lt maskKey_lt_of_count_lt (some c) (some candidate)]
    simp only [Bool.not_false, Bool.and_false, Bool.false_and, Bool.false_eq_true, if_false]
    split_ifs <;> rfl
  · -- only the candidate is preferred
    simp [rankKey, hc, hd, Prod.Lex.toLex_lt_toLex]
  · -- only the current hint is preferred
    simp [rankKey, hc, hd, Prod.Lex.toLex_lt_toLex]
  · -- both are preferred: the masks decide
    have hR : m.rankKey candidate < m.rankKey c ↔ maskKey m.avgKey b < maskKey m.avgKey a := by
      simp [rankKey, hc, hd, hmc, hmd, Prod.Lex.toLex_lt_toLex]
    rw [if_congr hR rfl rfl, ← apply_ite some]
    simp only [Bool.not_true, Bool.and_true, Bool.and_false, Bool.false_eq_true, if_false]
    exact if_pos trivial

/-- The ranking tells apart hints that have a mask. -/
theorem rankKey_injOn : Set.InjOn m.rankKey {h | h.numaNodeAffinity.isSome} := by
  rintro ⟨a1, p1⟩ h1 ⟨a2, p2⟩ h2 heq
  simp only [rankKey, toLex_inj, Prod.mk.injEq] at heq
  obtain ⟨hp, -, hmask⟩ := heq
  have hp' : p1 = p2 := by cases p1 <;> cases p2 <;> simp_all
  have ha : a1 = a2 := by
    obtain ⟨x1, rfl⟩ := Option.isSome_iff_exists.mp h1
    obtain ⟨x2, rfl⟩ := Option.isSome_iff_exists.mp h2
    exact congrArg some (maskKey_injective _ hmask)
  rw [ha, hp']

/-- The merged hint of a permutation, when the default mask has only nodes of the table, can be
compared. -/
theorem readable_mergedHint {d : BitMask} (hd : m.Readable d) (permutation : List TopologyHint) :
    m.Readable (mergedHint d permutation).mask := by
  intro hr node1 h1 node2 h2
  -- the nodes of an `And` with `d` are nodes of `d`
  have hsub : ∀ n, n ∈ (mergedHint d permutation).mask.getBits → n ∈ d.getBits := by
    intro n hn
    rw [mem_getBits] at hn ⊢
    exact ⟨hn.1, getLsbD_andMasks hn.2⟩
  exact hd hr node1 (hsub node1 h1) node2 (hsub node2 h2)

/-- `Merge`, when the default mask has a value that the comparison can read: `List.argmin` of
`rankKey` over the merged hints that have a node, in the order of the permutations, and the default
mask, not preferred, when there is none. -/
theorem merge_eq {d : BitMask} (hdefault : m.numaInfo.defaultAffinityMask = some d)
    (hd : m.Readable d) :
    m.merge = .ok ((((iterateAllProviderTopologyHints m.hints).map (mergedHint d)).filter
      (fun h => decide (h.mask.count ≠ 0))).argmin m.rankKey |>.getD ⟨some d, false⟩) := by
  -- the loop keeps a hint with a mask, and then each of its turns is pure
  let Inv : Option TopologyHint → Prop := fun best =>
    ∀ c, best = some c → ∃ a, c.numaNodeAffinity = some a ∧ m.Readable a
  have hstep : ∀ permutation ∈ iterateAllProviderTopologyHints m.hints, ∀ best, Inv best →
      (do
          let mergedHint ← mergePermutation (some d) permutation
          m.compare best mergedHint) =
        .ok ((fun o h => if decide (h.mask.count ≠ 0) then
          List.argAux (fun x y => m.rankKey x < m.rankKey y) o h else o) best
            (mergedHint d permutation)) ∧
      Inv ((fun o h => if decide (h.mask.count ≠ 0) then
          List.argAux (fun x y => m.rankKey x < m.rankKey y) o h else o) best
            (mergedHint d permutation)) := by
    intro permutation _ best hbest
    have hb : (mergedHint d permutation).numaNodeAffinity =
        some (andMasks d (masksOf permutation)) := rfl
    have hcand : ∃ a, (mergedHint d permutation).numaNodeAffinity = some a ∧ m.Readable a :=
      ⟨_, hb, m.readable_mergedHint hd permutation⟩
    rw [mergePermutation_eq]
    simp only [bind, Except.bind]
    rw [m.compare_eq hb (m.readable_mergedHint hd permutation) hbest]
    have hmask : (mergedHint d permutation).mask = andMasks d (masksOf permutation) := rfl
    by_cases h0 : (andMasks d (masksOf permutation)).count = 0
    · -- a candidate without a node leaves the loop as it was
      have hstay : (if decide ((mergedHint d permutation).mask.count ≠ 0) then
          List.argAux (fun x y => m.rankKey x < m.rankKey y) best (mergedHint d permutation)
          else best) = best := by simp [hmask, h0]
      rw [if_pos h0, hstay]
      exact ⟨rfl, hbest⟩
    · have hpick : (if decide ((mergedHint d permutation).mask.count ≠ 0) then
          List.argAux (fun x y => m.rankKey x < m.rankKey y) best (mergedHint d permutation)
          else best) =
            List.argAux (fun x y => m.rankKey x < m.rankKey y) best (mergedHint d permutation) := by
        simp [hmask, h0]
      rw [if_neg h0, hpick]
      refine ⟨rfl, ?_⟩
      -- the loop keeps the candidate or the hint it had
      intro c hc
      cases best with
      | none =>
          cases hc
          exact hcand
      | some b =>
          by_cases hlt : m.rankKey (mergedHint d permutation) < m.rankKey b
          · have : c = mergedHint d permutation := by
              simpa [List.argAux, hlt] using hc.symm
            exact this ▸ hcand
          · have : c = b := by
              simpa [List.argAux, hlt] using hc.symm
            exact hbest c (by rw [this])
  unfold merge
  simp only [hdefault]
  rw [Go.foldlM_eq_ok_foldl _ Inv hstep (fun c hc => by cases hc)]
  unfold List.argmin
  rw [← Lists.foldl_argAux_filter, List.foldl_map]
  rfl


/-- `Merge` returns the merged hint of a permutation that has a node and whose `rankKey` is below
that of every other such merged hint, or the default mask, not preferred, when no merged hint has
a node. -/
theorem merge_spec {d : BitMask} (hdefault : m.numaInfo.defaultAffinityMask = some d)
    (hd : m.Readable d) :
    ∃ best, m.merge = .ok best ∧
      (((∃ P ∈ iterateAllProviderTopologyHints m.hints, mergePermutation (some d) P = .ok best) ∧
          best.mask.count ≠ 0 ∧
          ∀ P ∈ iterateAllProviderTopologyHints m.hints, ∀ c, mergePermutation (some d) P = .ok c →
            c.mask.count ≠ 0 → m.rankKey best ≤ m.rankKey c) ∨
        ((∀ P ∈ iterateAllProviderTopologyHints m.hints, ∀ c,
            mergePermutation (some d) P = .ok c → c.mask.count = 0) ∧
          best = ⟨some d, false⟩)) := by
  rw [merge_eq m hdefault hd]
  refine ⟨_, rfl, ?_⟩
  -- the merged hints with a node, as `mergePermutation` returns them
  have hcand : ∀ P ∈ iterateAllProviderTopologyHints m.hints, ∀ c,
      mergePermutation (some d) P = .ok c → c.mask.count ≠ 0 →
        c ∈ ((iterateAllProviderTopologyHints m.hints).map (mergedHint d)).filter
          (fun h => decide (h.mask.count ≠ 0)) := by
    intro P hP c hc h0
    rw [mergePermutation_eq, Except.ok.injEq] at hc
    exact List.mem_filter.mpr ⟨List.mem_map.mpr ⟨P, hP, hc⟩, decide_eq_true h0⟩
  cases hbest : List.argmin m.rankKey (((iterateAllProviderTopologyHints m.hints).map
      (mergedHint d)).filter (fun h => decide (h.mask.count ≠ 0))) with
  | none =>
      rw [List.argmin_eq_none] at hbest
      refine Or.inr ⟨fun P hP c hc => ?_, rfl⟩
      by_contra h0
      have hmem := hcand P hP c hc h0
      rw [hbest] at hmem
      exact List.not_mem_nil hmem
  | some best =>
      obtain ⟨hmem, hpos⟩ := List.mem_filter.mp (List.argmin_mem hbest)
      obtain ⟨P, hP, rfl⟩ := List.mem_map.mp hmem
      refine Or.inl ⟨⟨P, hP, mergePermutation_eq d P⟩, of_decide_eq_true hpos,
        fun P' hP' c hc h0 => List.le_of_mem_argmin (hcand P' hP' c hc h0) hbest⟩

end HintMerger

/-! ## The default mask -/

/-- With the nodes in `0..63`, the default mask has exactly their bits. -/
theorem defaultAffinityMask_spec (n : NUMAInfo) (hnodes : ∀ i ∈ n.nodes, 0 ≤ i ∧ i < 64) :
    ∃ d, n.defaultAffinityMask = some d ∧ ∀ j, j < 64 → (d.getLsbD j = true ↔ (j : Int) ∈ n.nodes) := by
  obtain ⟨d, hd, hbits⟩ := addBits_ok 0 n.nodes hnodes
  refine ⟨d, by rw [NUMAInfo.defaultAffinityMask, newBitMask, hd], fun j hj => ?_⟩
  simpa using hbits j hj

namespace HintMerger

variable (m : HintMerger)

/-- The default mask can be compared when the table has the distance between every two nodes. -/
theorem readable_default {d : BitMask}
    (hbits : ∀ j, j < 64 → (d.getLsbD j = true ↔ (j : Int) ∈ m.numaInfo.nodes))
    (hdist : m.ReadsDistances → ∀ i ∈ m.numaInfo.nodes, ∀ j ∈ m.numaInfo.nodes,
      j.toNat < (m.numaInfo.numaDistances i).length) :
    m.Readable d := by
  intro hr node1 h1 node2 h2
  rw [mem_getBits] at h1 h2
  have hn1 := (hbits node1 h1.1).mp h1.2
  have hn2 := (hbits node2 h2.1).mp h2.2
  simpa using hdist hr node1 hn1 node2 hn2

end HintMerger

end Topology
end Kubernetes
