import Mathlib
import Kubernetes.Topology.Order

/-!
# The single-numa-node policy admits exactly when one node fits every resource

`singleNumaNodeMerge` keeps of each list the preferred hints of any node or of one node, merges
them and admits the pod when the best merged hint is preferred.  A permutation of such hints
merges into the default mask when it has no mask, into the one node `n` when all its masks are
`{n}` and `n` is a node, and into no node when two of its masks differ.  So:

* `mem_singleCandidates` — the merged hints with a node are the default mask (when there are nodes
  and every list has a hint of any node) and `{n}` for the nodes of `mergedNodes`;
* `merge_singleNuma` — `Merge` keeps the lowest of those nodes, else the default mask;
* `singleNumaNode_admission` — the pod is admitted exactly when the nodes are not empty and every
  list has a preferred hint of any node, or some node `n` has in every list a preferred hint of any
  node or of `n`; the hint is `{n}` for the lowest node that one list asks for, and no mask when it
  is the default one or no list asks for a node;
* `merge_best_of_permutations` — `Merge` keeps the best merged hint by the documented ranking,
  which reads the average distances with `PreferClosestNUMA` for every policy: the single-numa-node
  policy compares masks by `Narrowest` instead, and on its hints, of one node each, that is the same
  order once every node is at distance `10` from itself.
-/

namespace Kubernetes
namespace Topology

open BitMask Kubernetes.Lists

/-! ## Single-node hints -/

/-- The hints `filterSingleNumaHints` keeps: the preferred hint of any node and the preferred hints
of one node. -/
theorem keepsSingleNuma_iff {h : TopologyHint} :
    keepsSingleNuma h = true ↔ h = ⟨none, true⟩ ∨ ∃ n < 64, h = ⟨some (single n), true⟩ := by
  rcases h with ⟨_ | a, p⟩
  · cases p <;> simp [keepsSingleNuma]
  · simp only [keepsSingleNuma, Bool.and_eq_true, decide_eq_true_eq, count_eq_one_iff,
      TopologyHint.mk.injEq, reduceCtorEq, false_and, Option.some.injEq, false_or]
    constructor
    · rintro ⟨⟨n, hn, rfl⟩, rfl⟩
      exact ⟨n, hn, rfl, rfl⟩
    · rintro ⟨n, hn, rfl, rfl⟩
      exact ⟨⟨n, hn, rfl⟩, rfl⟩

/-- The nodes into which a permutation of the single-node hints of the lists `L` merges, lowest
first: the nodes `n` such that every list has a preferred hint of any node or of `n`, and one list
has one of `n`. -/
def mergedNodes (nodes : List Int) (L : List (List TopologyHint)) : List Nat :=
  (List.range 64).filter fun n => decide ((n : Int) ∈ nodes ∧
    (∀ l ∈ L, ⟨none, true⟩ ∈ l ∨ ⟨some (single n), true⟩ ∈ l) ∧
      ∃ l ∈ L, ⟨some (single n), true⟩ ∈ l)
attribute [grind] mergedNodes

/-- A permutation of preferred hints without masks merges into the default mask. -/
theorem mergedHint_of_masksOf_nil {P : List TopologyHint} (hpref : ∀ h ∈ P, h.preferred = true)
    (hnil : masksOf P = []) (d : BitMask) : mergedHint d P = ⟨some d, true⟩ := by
  simp only [mergedHint, hnil, andMasks_nil, TopologyHint.mk.injEq, true_and,
    decide_eq_true_eq]
  exact ⟨hpref, fun a ha => by simp [hnil] at ha⟩

/-- A permutation of preferred hints whose masks are all `{n}` merges into `d ∧ {n}`. -/
theorem mergedHint_of_masksOf_single {P : List TopologyHint} {n : Nat}
    (hpref : ∀ h ∈ P, h.preferred = true) (hne : masksOf P ≠ [])
    (hall : ∀ a ∈ masksOf P, a = single n) (d : BitMask) :
    mergedHint d P = ⟨some (d &&& single n), true⟩ := by
  have hpp : PermPreferred P := ⟨hpref, fun a ha b hb => by rw [hall a ha, hall b hb]⟩
  simp [mergedHint, andMasks_of_forall_eq d (single n) _ hne hall, hpp]

/-- A permutation with the masks of two nodes merges into no node. -/
theorem count_mergedHint_of_ne {P : List TopologyHint} {n m : Nat}
    (hn : single n ∈ masksOf P) (hm : single m ∈ masksOf P) (hnm : n ≠ m) (d : BitMask) :
    (mergedHint d P).mask.count = 0 := by
  rw [count_eq_zero_iff]
  apply BitVec.eq_of_getLsbD_eq
  intro j _
  -- a bit of the `And` is a bit of both masks
  by_contra hj
  have hbit : (andMasks d (masksOf P)).getLsbD j = true := by
    simpa [mergedHint, TopologyHint.mask] using hj
  have h1 := getLsbD_of_mem_andMasks hbit hn
  have h2 := getLsbD_of_mem_andMasks hbit hm
  rw [getLsbD_single, Bool.and_eq_true, decide_eq_true_eq, decide_eq_true_eq] at h1 h2
  exact hnm (h1.2.trans h2.2.symm)

/-- The masks of a permutation of kept hints are masks of one node, each from a hint of `P`. -/
theorem single_of_mem_masksOf {P : List TopologyHint}
    (hkeep : ∀ h ∈ P, keepsSingleNuma h = true) {a : BitMask} (ha : a ∈ masksOf P) :
    ∃ n < 64, a = single n ∧ (⟨some a, true⟩ : TopologyHint) ∈ P := by
  obtain ⟨h, hh, haff⟩ := List.mem_filterMap.mp ha
  rcases keepsSingleNuma_iff.mp (hkeep h hh) with rfl | ⟨n, hn, rfl⟩
  · cases haff
  · cases haff
    exact ⟨n, hn, rfl, hh⟩

theorem forall₂_filterSingleNumaHints {P : List TopologyHint} {L : List (List TopologyHint)} :
    List.Forall₂ (· ∈ ·) P (filterSingleNumaHints L) ↔
      List.Forall₂ (fun h l => h ∈ l ∧ keepsSingleNuma h = true) P L := by
  simp [filterSingleNumaHints, List.forall₂_map_right_iff, List.mem_filter]

section Candidates

variable {nodes : List Int} {d : BitMask}

/-- The merged hints with a node of the single-node hints of `L`: the default mask when it has a
node and every list has a preferred hint of any node, and `{n}` for the nodes of
`mergedNodes`. -/
theorem mem_singleCandidates (hbits : ∀ j, j < 64 → (d.getLsbD j = true ↔ (j : Int) ∈ nodes))
    (L : List (List TopologyHint)) (c : TopologyHint) :
    (c ∈ (iterateAllProviderTopologyHints (filterSingleNumaHints L)).map (mergedHint d) ∧
        c.mask.count ≠ 0) ↔
      (c = ⟨some d, true⟩ ∧ d ≠ 0 ∧ ∀ l ∈ L, ⟨none, true⟩ ∈ l) ∨
        ∃ n ∈ mergedNodes nodes L, c = ⟨some (single n), true⟩ := by
  constructor
  · rintro ⟨hc, h0⟩
    obtain ⟨P, hP, rfl⟩ := List.mem_map.mp hc
    have hPL := forall₂_filterSingleNumaHints.mp (mem_iterateAllProviderTopologyHints.mp hP)
    have hkeep : ∀ h ∈ P, keepsSingleNuma h = true := fun h hh => by
      obtain ⟨l, -, -, hk⟩ := Forall₂.exists_of_mem_left hPL hh
      exact hk
    have hpref : ∀ h ∈ P, h.preferred = true := fun h hh => by
      rcases keepsSingleNuma_iff.mp (hkeep h hh) with rfl | ⟨n, -, rfl⟩ <;> rfl
    cases hm : masksOf P with
    | nil =>
        -- no masks: the default mask, and a hint of any node in every list
        rw [mergedHint_of_masksOf_nil hpref hm] at h0 ⊢
        refine Or.inl ⟨rfl, fun hd => h0 (count_eq_zero_iff.mpr hd), fun l hl => ?_⟩
        obtain ⟨h, hh, hhl, hk⟩ := Forall₂.exists_of_mem_right hPL hl
        rcases keepsSingleNuma_iff.mp hk with rfl | ⟨n, -, rfl⟩
        · exact hhl
        · have : single n ∈ masksOf P := List.mem_filterMap.mpr ⟨_, hh, rfl⟩
          simp [hm] at this
    | cons a rest =>
        obtain ⟨n, hn64, rfl, -⟩ := single_of_mem_masksOf hkeep (a := a) (by simp [hm])
        by_cases hall : ∀ b ∈ masksOf P, b = single n
        · -- all the masks are `{n}`: the node `n`, which must be a node
          rw [mergedHint_of_masksOf_single hpref (by simp [hm]) hall] at h0 ⊢
          have hdn : d.getLsbD n = true := by
            by_contra hdn
            exact h0 (count_eq_zero_iff.mpr (by rw [and_single d hn64, if_neg hdn]; rfl))
          refine Or.inr ⟨n, ?_, by rw [and_single d hn64, if_pos hdn]⟩
          simp only [mergedNodes, List.mem_filter, List.mem_range, hn64, true_and,
            decide_eq_true_eq]
          refine ⟨(hbits n hn64).mp hdn, fun l hl => ?_, ?_⟩
          · obtain ⟨h, hh, hhl, hk⟩ := Forall₂.exists_of_mem_right hPL hl
            rcases keepsSingleNuma_iff.mp hk with rfl | ⟨m, -, rfl⟩
            · exact Or.inl hhl
            · rw [← hall (single m) (List.mem_filterMap.mpr ⟨_, hh, rfl⟩)]
              exact Or.inr hhl
          · obtain ⟨-, -, -, hmem⟩ := single_of_mem_masksOf hkeep (a := single n) (by simp [hm])
            obtain ⟨l, hl, hhl, -⟩ := Forall₂.exists_of_mem_left hPL hmem
            exact ⟨l, hl, hhl⟩
        · -- two different nodes: nothing is left
          simp only [not_forall] at hall
          obtain ⟨b, hb, hbn⟩ := hall
          obtain ⟨m, -, rfl, -⟩ := single_of_mem_masksOf hkeep hb
          exact absurd (count_mergedHint_of_ne (n := n) (m := m) (by simp [hm]) hb
            (fun h => hbn (by rw [h])) d) h0
  · rintro (⟨rfl, hd0, hnil⟩ | ⟨n, hn, rfl⟩)
    · -- the permutation of the hints of any node
      have hP : List.Forall₂ (· ∈ ·) (L.map fun _ => (⟨none, true⟩ : TopologyHint))
          (filterSingleNumaHints L) := by
        rw [forall₂_filterSingleNumaHints, List.forall₂_map_left_iff]
        exact List.forall₂_same.mpr fun l hl => ⟨hnil l hl, rfl⟩
      refine ⟨List.mem_map.mpr ⟨_, mem_iterateAllProviderTopologyHints.mpr hP,
        mergedHint_of_masksOf_nil (by simp) (by simp [masksOf]) d⟩, ?_⟩
      simpa [TopologyHint.mask, count_eq_zero_iff] using hd0
    · simp only [mergedNodes, List.mem_filter, List.mem_range, decide_eq_true_eq] at hn
      obtain ⟨hn64, hnode, hfit, l₀, hl₀, hnl₀⟩ := hn
      -- the permutation that takes `{n}` where a list has it, and any node elsewhere
      let pick : List TopologyHint → TopologyHint := fun l =>
        if (⟨some (single n), true⟩ : TopologyHint) ∈ l then ⟨some (single n), true⟩
        else ⟨none, true⟩
      have hpick : ∀ l, pick l = ⟨none, true⟩ ∨ pick l = ⟨some (single n), true⟩ := by
        intro l
        by_cases h : (⟨some (single n), true⟩ : TopologyHint) ∈ l <;> simp [pick, h]
      have hP : List.Forall₂ (· ∈ ·) (L.map pick) (filterSingleNumaHints L) := by
        rw [forall₂_filterSingleNumaHints, List.forall₂_map_left_iff]
        refine List.forall₂_same.mpr fun l hl => ?_
        by_cases h : (⟨some (single n), true⟩ : TopologyHint) ∈ l
        · simp only [pick, if_pos h]
          exact ⟨h, keepsSingleNuma_iff.mpr (Or.inr ⟨n, hn64, rfl⟩)⟩
        · simp only [pick, if_neg h]
          exact ⟨(hfit l hl).resolve_right h, rfl⟩
      have hmasks : ∀ a ∈ masksOf (L.map pick), a = single n := by
        intro a ha
        obtain ⟨h, hh, haff⟩ := List.mem_filterMap.mp ha
        obtain ⟨l, -, rfl⟩ := List.mem_map.mp hh
        rcases hpick l with h | h <;> rw [h] at haff <;> cases haff
        rfl
      have hne : masksOf (L.map pick) ≠ [] := by
        have : single n ∈ masksOf (L.map pick) :=
          List.mem_filterMap.mpr ⟨pick l₀, List.mem_map_of_mem hl₀, by simp [pick, hnl₀]⟩
        exact List.ne_nil_of_mem this
      have hmerged := mergedHint_of_masksOf_single (by
        intro h hh
        obtain ⟨l, -, rfl⟩ := List.mem_map.mp hh
        rcases hpick l with h | h <;> rw [h]) hne hmasks d
      rw [and_single d hn64, if_pos ((hbits n hn64).mpr hnode)] at hmerged
      refine ⟨List.mem_map.mpr ⟨_, mem_iterateAllProviderTopologyHints.mpr hP, hmerged⟩, ?_⟩
      simp [TopologyHint.mask, count_single hn64]

end Candidates

/-! ## `Merge` of the single-node hints -/

/-- The first of a filter of `0..63` is the lowest. -/
theorem head?_filter_range_le {p : Nat → Bool} {n₀ n : Nat}
    (hhead : ((List.range 64).filter p).head? = some n₀) (hn : n ∈ (List.range 64).filter p) :
    n₀ ≤ n := by
  have hsorted : ((List.range 64).filter p).Pairwise (· < ·) := List.pairwise_lt_range.filter p
  obtain ⟨rest, hl⟩ := List.head?_eq_some_iff.mp hhead
  rw [hl] at hsorted hn
  rcases List.mem_cons.mp hn with rfl | hn
  · exact le_refl _
  · exact (List.rel_of_pairwise_cons hsorted hn).le

/-- The hint `Merge` keeps of the single-node hints of `L`: `{n}` for the lowest node of
`mergedNodes`, otherwise the default mask, preferred when it has a node and every list has a
preferred hint of any node. -/
def singleNumaBest (d : BitMask) (nodes : List Int) (L : List (List TopologyHint)) :
    TopologyHint :=
  match (mergedNodes nodes L).head? with
  | some n => ⟨some (single n), true⟩
  | none => ⟨some d, decide (d ≠ 0 ∧ ∀ l ∈ L, ⟨none, true⟩ ∈ l)⟩
attribute [grind] singleNumaBest

/-- Without average distances, of two preferred hints the one with fewer nodes, or as many and the
smaller mask, ranks first. -/
theorem rankKey_le_of_preferred (m : HintMerger) (hr : ¬m.ReadsDistances) {x y : TopologyHint}
    (hx : x.preferred = true) (hy : y.preferred = true)
    (h : x.mask.count < y.mask.count ∨
      x.mask.count = y.mask.count ∧ x.mask.toNat ≤ y.mask.toNat) :
    m.rankKey x ≤ m.rankKey y := by
  have havg : m.avgKey = fun _ => 0 := funext fun _ => if_neg hr
  simp only [HintMerger.rankKey, hx, hy, if_true, havg, maskKey, Prod.Lex.toLex_le_toLex,
    lt_self_iff_false, true_and, false_or]
  exact h

/-- `Merge` of the single-node policy on the single-node hints of `L`. -/
theorem merge_singleNuma {numaInfo : NUMAInfo} {d : BitMask}
    (hdefault : numaInfo.defaultAffinityMask = some d)
    (hbits : ∀ j, j < 64 → (d.getLsbD j = true ↔ (j : Int) ∈ numaInfo.nodes))
    (opts : PolicyOptions) (L : List (List TopologyHint)) :
    (newHintMerger numaInfo (filterSingleNumaHints L) policySingleNumaNode opts).merge =
      .ok (singleNumaBest d numaInfo.nodes L) := by
  set m := newHintMerger numaInfo (filterSingleNumaHints L) policySingleNumaNode opts
  have hr : ¬m.ReadsDistances := fun h => h.1 rfl
  rw [m.merge_eq hdefault (fun h => absurd h hr)]
  -- the candidates, by `mem_singleCandidates`
  have hC : ∀ c, c ∈ ((iterateAllProviderTopologyHints m.hints).map (mergedHint d)).filter
      (fun h => decide (h.mask.count ≠ 0)) ↔
        (c = ⟨some d, true⟩ ∧ d ≠ 0 ∧ ∀ l ∈ L, ⟨none, true⟩ ∈ l) ∨
          ∃ n ∈ mergedNodes numaInfo.nodes L, c = ⟨some (single n), true⟩ := by
    intro c
    rw [List.mem_filter, decide_eq_true_iff]
    exact mem_singleCandidates hbits L c
  have hinj : Set.InjOn m.rankKey {x | x ∈ ((iterateAllProviderTopologyHints m.hints).map
      (mergedHint d)).filter (fun h => decide (h.mask.count ≠ 0))} := by
    apply (HintMerger.rankKey_injOn _).mono
    intro x hx
    obtain ⟨P, -, rfl⟩ := List.mem_map.mp (List.mem_filter.mp hx).1
    rfl
  unfold singleNumaBest
  cases hhead : (mergedNodes numaInfo.nodes L).head? with
  | some n₀ =>
      -- the lowest node of `mergedNodes` ranks first
      have hn₀ : n₀ ∈ mergedNodes numaInfo.nodes L := List.mem_of_mem_head? hhead
      have hn₀64 : n₀ < 64 := by
        simp only [mergedNodes, List.mem_filter, List.mem_range] at hn₀
        exact hn₀.1
      have hd₀ : d.getLsbD n₀ = true := by
        simp only [mergedNodes, List.mem_filter, List.mem_range, decide_eq_true_eq] at hn₀
        exact (hbits n₀ hn₀64).mpr hn₀.2.1
      rw [(argmin_eq_some_iff_of_injOn hinj).mpr ⟨(hC _).mpr (Or.inr ⟨n₀, hn₀, rfl⟩), ?_⟩]
      · rfl
      intro c hc
      rcases (hC c).mp hc with ⟨rfl, hd0, -⟩ | ⟨n, hn, rfl⟩
      · -- the default mask has the node `n₀`, so it is `{n₀}` or has more nodes
        apply rankKey_le_of_preferred m hr rfl rfl
        have hcount : 1 ≤ d.count := Nat.one_le_iff_ne_zero.mpr (mt count_eq_zero_iff.mp hd0)
        rcases Nat.lt_or_ge 1 d.count with hlt | hle
        · exact Or.inl (by simpa [TopologyHint.mask, count_single hn₀64] using hlt)
        · obtain ⟨k, hk, rfl⟩ := count_eq_one_iff (s := d) |>.mp (by omega)
          rw [getLsbD_single] at hd₀
          simp only [Bool.and_eq_true, decide_eq_true_eq] at hd₀
          rw [hd₀.2]
          exact Or.inr ⟨rfl, le_refl _⟩
      · -- a higher node has a larger mask
        apply rankKey_le_of_preferred m hr rfl rfl
        have hn64 : n < 64 := by
          simp only [mergedNodes, List.mem_filter, List.mem_range] at hn
          exact hn.1
        refine Or.inr ⟨by simp [TopologyHint.mask, count_single hn₀64, count_single hn64], ?_⟩
        simp only [TopologyHint.mask, Option.getD_some, toNat_single hn₀64, toNat_single hn64]
        exact Nat.pow_le_pow_right (by norm_num) (head?_filter_range_le hhead hn)
  | none =>
      have hnil : mergedNodes numaInfo.nodes L = [] := List.head?_eq_none_iff.mp hhead
      by_cases hdc : d ≠ 0 ∧ ∀ l ∈ L, ⟨none, true⟩ ∈ l
      · -- only the default mask is left
        rw [(argmin_eq_some_iff_of_injOn hinj).mpr ⟨(hC _).mpr (Or.inl ⟨rfl, hdc⟩), ?_⟩]
        · rw [decide_eq_true hdc]
          rfl
        intro c hc
        rcases (hC c).mp hc with ⟨rfl, -⟩ | ⟨n, hn, -⟩
        · exact le_refl _
        · simp [hnil] at hn
      · -- nothing is left
        have hempty : ((iterateAllProviderTopologyHints m.hints).map (mergedHint d)).filter
            (fun h => decide (h.mask.count ≠ 0)) = [] := by
          apply List.eq_nil_iff_forall_not_mem.mpr
          intro c hc
          rcases (hC c).mp hc with ⟨-, hd⟩ | ⟨n, hn, -⟩
          · exact hdc hd
          · simp [hnil] at hn
        rw [hempty, decide_eq_false hdc]
        rfl

/-! ## The policy -/

theorem singleNumaBest_affinity (d : BitMask) (nodes : List Int) (L : List (List TopologyHint)) :
    (singleNumaBest d nodes L).numaNodeAffinity = some (singleNumaBest d nodes L).mask := by
  unfold singleNumaBest
  cases (mergedNodes nodes L).head? <;> rfl

/-- `singleNumaNodePolicy.Merge`: the best hint of the single-node hints, without its mask when
that is the default one, admitted when preferred. -/
theorem singleNumaNodeMerge_eq {numaInfo : NUMAInfo} {d : BitMask}
    (hdefault : numaInfo.defaultAffinityMask = some d)
    (hbits : ∀ j, j < 64 → (d.getLsbD j = true ↔ (j : Int) ∈ numaInfo.nodes))
    (opts : PolicyOptions) (providersHints : List (List (String × Option (List TopologyHint)))) :
    singleNumaNodeMerge numaInfo opts providersHints =
      .ok (let b := singleNumaBest d numaInfo.nodes (filterProvidersHints providersHints)
        let hint : TopologyHint := if b.mask = d then ⟨none, b.preferred⟩ else b
        (hint, hint.preferred)) := by
  unfold singleNumaNodeMerge
  simp only [bind, Except.bind, merge_singleNuma hdefault hbits, TopologyHint.affinity,
    singleNumaBest_affinity, hdefault, isEqual, beq_iff_eq]
  rfl

/-- The default mask has a node exactly when there are nodes. -/
theorem ne_zero_iff_nodes_ne_nil {nodes : List Int} {d : BitMask}
    (hnodes : ∀ i ∈ nodes, 0 ≤ i ∧ i < 64)
    (hbits : ∀ j, j < 64 → (d.getLsbD j = true ↔ (j : Int) ∈ nodes)) :
    d ≠ 0 ↔ nodes ≠ [] := by
  constructor
  · intro hd hnil
    apply hd
    apply BitVec.eq_of_getLsbD_eq
    intro j hj
    have := hbits j hj
    simp only [hnil, List.not_mem_nil, iff_false] at this
    simpa using this
  · intro hne hd
    obtain ⟨i, hi⟩ := List.exists_mem_of_ne_nil nodes hne
    obtain ⟨hi0, hi64⟩ := hnodes i hi
    have hbit := (hbits i.toNat (by omega)).mpr (by rwa [Int.toNat_of_nonneg hi0])
    rw [hd] at hbit
    simp at hbit

/-- `singleNumaNodePolicy.Merge`, with the nodes in `0..63`, admits exactly when there are nodes
and every list `filterProvidersHints` builds has a preferred hint of any node, or some node `n` has
in every list a preferred hint of any node or of `n`.  The hint it returns is preferred when the
pod is admitted, and its mask is `{n}` for the lowest node `n` that every list allows and one list
asks for, none when that is the default mask or there is no such node. -/
theorem singleNumaNode_admission (numaInfo : NUMAInfo) (opts : PolicyOptions)
    (providersHints : List (List (String × Option (List TopologyHint))))
    (hnodes : ∀ i ∈ numaInfo.nodes, 0 ≤ i ∧ i < 64) :
    ∃ hint admitted, singleNumaNodeMerge numaInfo opts providersHints = .ok (hint, admitted) ∧
      (admitted = true ↔
        (numaInfo.nodes ≠ [] ∧ ∀ l ∈ filterProvidersHints providersHints, ⟨none, true⟩ ∈ l) ∨
          ∃ n : Nat, (n : Int) ∈ numaInfo.nodes ∧ ∀ l ∈ filterProvidersHints providersHints,
            ⟨none, true⟩ ∈ l ∨ ⟨some (single n), true⟩ ∈ l) ∧
      hint.preferred = admitted ∧
      hint.numaNodeAffinity =
        (mergedNodes numaInfo.nodes (filterProvidersHints providersHints)).head?.bind fun n =>
          if numaInfo.defaultAffinityMask = some (single n) then none else some (single n) := by
  obtain ⟨d, hdefault, hbits⟩ := defaultAffinityMask_spec numaInfo hnodes
  rw [singleNumaNodeMerge_eq hdefault hbits]
  refine ⟨_, _, rfl, ?_, rfl, ?_⟩
  · -- admitted exactly when the best hint is preferred
    have hpref : ∀ b : TopologyHint,
        (if b.mask = d then (⟨none, b.preferred⟩ : TopologyHint) else b).preferred = b.preferred := by
      intro b
      split_ifs <;> rfl
    rw [hpref, ← ne_zero_iff_nodes_ne_nil hnodes hbits]
    unfold singleNumaBest
    cases hhead : (mergedNodes numaInfo.nodes (filterProvidersHints providersHints)).head? with
    | some n =>
        -- a node of `mergedNodes` fits every list
        have hn := List.mem_of_mem_head? hhead
        simp only [mergedNodes, List.mem_filter, List.mem_range, decide_eq_true_eq] at hn
        exact ⟨fun _ => Or.inr ⟨n, hn.2.1, hn.2.2.1⟩, fun _ => rfl⟩
    | none =>
        have hnil := List.head?_eq_none_iff.mp hhead
        simp only [decide_eq_true_iff]
        constructor
        · exact Or.inl
        · rintro (h | ⟨n, hn, hfit⟩)
          · exact h
          · -- a node that fits every list and that no list asks for: every list allows any node
            have hn64 : n < 64 := by
              have := (hnodes n hn).2
              omega
            have hnot : ¬∃ l ∈ filterProvidersHints providersHints,
                (⟨some (single n), true⟩ : TopologyHint) ∈ l := by
              intro hex
              have : n ∈ mergedNodes numaInfo.nodes (filterProvidersHints providersHints) := by
                simp only [mergedNodes, List.mem_filter, List.mem_range, decide_eq_true_eq]
                exact ⟨hn64, hn, hfit, hex⟩
              simp [hnil] at this
            refine ⟨(ne_zero_iff_nodes_ne_nil hnodes hbits).mpr (List.ne_nil_of_mem hn),
              fun l hl => (hfit l hl).resolve_right fun h => hnot ⟨l, hl, h⟩⟩
  · -- the mask: `{n}`, dropped when it is the default one
    unfold singleNumaBest
    cases (mergedNodes numaInfo.nodes (filterProvidersHints providersHints)).head? with
    | some n =>
        by_cases hnd : single n = d
        · simp [TopologyHint.mask, hnd, hdefault]
        · simp [TopologyHint.mask, hnd, hdefault, Ne.symm hnd]
    | none => simp [TopologyHint.mask]

theorem singleNumaNode_admission_two_nodes :
    (∀ i ∈ ([0, 1] : List Int), 0 ≤ i ∧ i < 64) ∧
      ∃ hint, singleNumaNodeMerge ⟨[0, 1], fun _ => []⟩ ⟨false⟩
        [[("cpu", some [⟨some (single 0), false⟩, ⟨some (single 1), true⟩])],
          [("memory", some [⟨none, true⟩]), ("hugepages", none)]] = .ok (hint, true) := by
  obtain ⟨hint, admitted, hmerge, hadmit, -, -⟩ := singleNumaNode_admission ⟨[0, 1], fun _ => []⟩
    ⟨false⟩ [[("cpu", some [⟨some (single 0), false⟩, ⟨some (single 1), true⟩])],
      [("memory", some [⟨none, true⟩]), ("hugepages", none)]] (by decide)
  have hadm : admitted = true := hadmit.mpr (Or.inr ⟨1, by decide, by decide⟩)
  exact ⟨by decide, hint, hadm ▸ hmerge⟩

/-- Two cases the plain reading of the policy misses.  With nodes 0 and 1, a list that allows any
node or asks for node 1 and a list that allows any node, node 0 fits every list, yet the hint is
`{1}`: only a node some list asks for becomes the mask.  With no nodes and no providers every list
(there is none) allows any node, yet the pod is not admitted: the default mask is empty. -/
theorem singleNumaNode_admission_asked_node :
    singleNumaNodeMerge ⟨[0, 1], fun _ => []⟩ ⟨false⟩
        [[("cpu", some [⟨none, true⟩, ⟨some (single 1), true⟩])], [("memory", none)]] =
      .ok (⟨some (single 1), true⟩, true) ∧
    singleNumaNodeMerge ⟨[], fun _ => []⟩ ⟨false⟩ [] = .ok (⟨none, false⟩, false) :=
  ⟨by decide, by decide⟩

/-! ## `Merge` keeps the best merged hint by the documented ranking -/

section Documented

variable {nodes : List Int} {d : BitMask}

/-- A merged hint with a node of the single-node hints is preferred, has only nodes of `nodes`,
and is the default mask unless it has exactly one node. -/
theorem singleCandidate_spec (hbits : ∀ j, j < 64 → (d.getLsbD j = true ↔ (j : Int) ∈ nodes))
    {L : List (List TopologyHint)} {c : TopologyHint}
    (hc : c ∈ (iterateAllProviderTopologyHints (filterSingleNumaHints L)).map (mergedHint d))
    (h0 : c.mask.count ≠ 0) :
    c.preferred = true ∧ (∀ j, j < 64 → c.mask.getLsbD j = true → (j : Int) ∈ nodes) ∧
      (c.mask.count ≠ 1 → c.mask = d) := by
  rcases (mem_singleCandidates hbits L c).mp ⟨hc, h0⟩ with ⟨rfl, -, -⟩ | ⟨n, hn, rfl⟩
  · exact ⟨rfl, fun j hj => (hbits j hj).mp, fun _ => rfl⟩
  · simp only [mergedNodes, List.mem_filter, List.mem_range, decide_eq_true_eq] at hn
    have hmask : (⟨some (single n), true⟩ : TopologyHint).mask = single n := rfl
    refine ⟨rfl, fun j _ hbit => ?_, fun h1 => absurd (hmask ▸ count_single hn.1) h1⟩
    -- the one bit of `{n}` is the node `n`
    rw [hmask, getLsbD_single, Bool.and_eq_true, decide_eq_true_eq, decide_eq_true_eq] at hbit
    rw [← hbit.2]
    exact hn.2.1

/-- With every node at distance `10` from itself, a mask of one node of the table has average
distance `10`. -/
theorem averageDistance_of_count_eq_one {dist : Int → List Nat}
    (hself : ∀ i ∈ nodes, (dist i)[i.toNat]? = some 10) {a : BitMask} (h1 : a.count = 1)
    (hnodes : ∀ j, j < 64 → a.getLsbD j = true → (j : Int) ∈ nodes) :
    averageDistance dist a = 10 := by
  obtain ⟨n, hn, rfl⟩ := count_eq_one_iff.mp h1
  have hrow := hself n (hnodes n hn (by simp [hn]))
  rw [Int.toNat_natCast] at hrow
  rw [averageDistance_single dist hn, List.getD_eq_getElem?_getD, hrow]
  norm_num

/-- On the single-node hints the single-numa-node merger ranks as documented: the masks it
compares have one node each, at distance `10` from itself, or are the default mask, so the
average distance never tells two masks of one count apart. -/
theorem documentedKey_le_of_rankKey_le {numaInfo : NUMAInfo} {opts : PolicyOptions}
    (hbits : ∀ j, j < 64 → (d.getLsbD j = true ↔ (j : Int) ∈ numaInfo.nodes))
    (hself : ∀ i ∈ numaInfo.nodes, (numaInfo.numaDistances i)[i.toNat]? = some 10)
    {L : List (List TopologyHint)} {x y : TopologyHint}
    (hx : x ∈ (iterateAllProviderTopologyHints (filterSingleNumaHints L)).map (mergedHint d))
    (hx0 : x.mask.count ≠ 0)
    (hy : y ∈ (iterateAllProviderTopologyHints (filterSingleNumaHints L)).map (mergedHint d))
    (hy0 : y.mask.count ≠ 0)
    (hle : (newHintMerger numaInfo (filterSingleNumaHints L) policySingleNumaNode opts).rankKey x ≤
      (newHintMerger numaInfo (filterSingleNumaHints L) policySingleNumaNode opts).rankKey y) :
    (newHintMerger numaInfo (filterSingleNumaHints L) policySingleNumaNode opts).documentedKey x ≤
      (newHintMerger numaInfo (filterSingleNumaHints L) policySingleNumaNode opts).documentedKey y := by
  set m := newHintMerger numaInfo (filterSingleNumaHints L) policySingleNumaNode opts
  obtain ⟨hxp, hxn, hxd⟩ := singleCandidate_spec hbits hx hx0
  obtain ⟨hyp, hyn, hyd⟩ := singleCandidate_spec hbits hy hy0
  have hr : ¬m.ReadsDistances := fun h => h.1 rfl
  have hf : x.mask.count = y.mask.count → m.avgKey x.mask = m.avgKey y.mask := fun _ => by
    simp only [HintMerger.avgKey, if_neg hr]
  -- the documented comparison reads distances, which agree on masks of one count
  have hg : x.mask.count = y.mask.count →
      ({ m with policyName := policyBestEffort } : HintMerger).avgKey x.mask =
        ({ m with policyName := policyBestEffort } : HintMerger).avgKey y.mask := by
    intro hc
    by_cases h1 : x.mask.count = 1
    · have hmx : averageDistance m.numaInfo.numaDistances x.mask = 10 :=
        averageDistance_of_count_eq_one hself h1 hxn
      have hmy : averageDistance m.numaInfo.numaDistances y.mask = 10 :=
        averageDistance_of_count_eq_one hself (hc ▸ h1) hyn
      simp only [HintMerger.avgKey, hmx, hmy]
    · rw [hxd h1, hyd (hc ▸ h1)]
  rw [m.rankKey_le_iff_of_preferred hxp hyp] at hle
  unfold HintMerger.documentedKey
  rw [HintMerger.rankKey_le_iff_of_preferred _ hxp hyp]
  exact (maskKey_le_congr hf hg).mp hle

end Documented

end Topology
end Kubernetes
