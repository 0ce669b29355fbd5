import Mathlib
import Kubernetes.Job.CompletedIndexes
import Kubernetes.Controller.ActivePods

/-!
# Indexed Jobs: the indexes still to create, and pods of the same index

`firstPendingIndexes` picks the indexes for which an Indexed Job creates pods next: the first
`count` indexes below `completions` that have neither succeeded nor an active pod.  It merges
the active indexes into the succeeded intervals with `withOrderedIndexes` and then walks a
candidate up from `0`, taking it while it is below the next interval and jumping past each
interval (`pkg/controller/job/indexed_job_utils.go`).

These functions read `v1.Pod`s through the model of `Kubernetes.Core`, which carries the fields
`controller.ActivePods` sorts by.

The candidate jumps to `sInterval.Last+1`, which wraps in `int64` at `MaxInt64`: past an
interval that ends there the candidate stays where it is.  Such an interval comes only from an
active pod at `MaxInt64`, and it starts above `completions` as long as some index between
`completions` and `MaxInt64` is neither succeeded nor active, which a Job, whose `completions` is
an `int32`, always leaves.  The loop has then left `completions` behind before it reaches that
interval, and the candidates taken are exactly the pending indexes in increasing order
(`firstPendingIndexes_exact`).
-/

namespace Kubernetes
namespace Job

open Go OrderedIntervals

/-! ## `firstPendingIndexes` -/

/-- The inner loops of `firstPendingIndexes`: take `candidate` and step it, while it is below
`completions` and `bound` and fewer than `count` indexes are taken.  `fuel` bounds the steps;
the calls give as much as `completions` leaves. -/
def appendCandidates (completions count bound : Int) : Nat → Int × List Int → Int × List Int
  | 0, state => state
  | fuel + 1, (candidate, result) =>
      if candidate < completions ∧ (result.length : Int) < count ∧ candidate < bound then
        appendCandidates completions count bound fuel (candidate + 1, result ++ [candidate])
      else (candidate, result)
attribute [grind] appendCandidates

/-- One turn of the loop over the non-pending intervals: the candidates before the interval,
then the candidate past its end, `sInterval.Last+1` in `int64`. -/
def skipInterval (completions count : Int) (state : Int × List Int) (sInterval : Interval) :
    Int × List Int :=
  let (candidate, result) := appendCandidates completions count sInterval.first
    (completions - state.1).toNat state
  (if candidate < wrap64 (sInterval.last + 1) then wrap64 (sInterval.last + 1) else candidate,
    result)
attribute [grind] skipInterval

/-- `firstPendingIndexes`: the first `count` indexes below `completions` that are neither
succeeded nor the index of an active pod.  The Go set `active` is a `Finset`; its `List()` is
sorted.  `make([]int, 0, count)` panics for a negative `count`. -/
def firstPendingIndexes (activePods : List Core.Pod) (succeededIndexes : OrderedIntervals)
    (count completions : Int) : Except String (List Int) :=
  if count = 0 then pure []
  else if count < 0 then throw "runtime error: makeslice: cap out of range"
  else
    let active : Finset Int := activePods.foldl (fun active p =>
      let ix := getCompletionIndex p.annotations
      if ix ≠ unknownCompletionIndex then insert ix active else active) ∅
    let nonPending := withOrderedIndexes succeededIndexes (setsIntList active)
    let state := nonPending.foldl (skipInterval completions count) (0, [])
    pure (appendCandidates completions count completions (completions - state.1).toNat state).2
attribute [grind] firstPendingIndexes

/-- How many candidates the inner loop takes from `candidate`, with `taken` indexes taken. -/
def candidateSteps (completions count bound candidate : Int) (taken : Nat) : Nat :=
  (min (min completions bound - candidate) (count - taken)).toNat
attribute [grind] candidateSteps

/-- The inner loop in closed form, given enough fuel: it takes the run of candidates from
`candidate` on until one of its three bounds. -/
theorem appendCandidates_eq (completions count bound : Int) :
    ∀ (fuel : Nat) (candidate : Int) (result : List Int), completions - candidate ≤ fuel →
      appendCandidates completions count bound fuel (candidate, result) =
        (candidate + candidateSteps completions count bound candidate result.length,
          result ++ (List.range (candidateSteps completions count bound candidate
            result.length)).map fun i : Nat => candidate + (i : Int))
  | 0, candidate, result, hfuel => by
      have : candidateSteps completions count bound candidate result.length = 0 := by
        unfold candidateSteps
        omega
      simp [appendCandidates, this]
  | fuel + 1, candidate, result, hfuel => by
      unfold appendCandidates
      split_ifs with hgo
      · -- one candidate taken: one step fewer from the next
        have hsteps : candidateSteps completions count bound candidate result.length =
            candidateSteps completions count bound (candidate + 1) (result ++ [candidate]).length
              + 1 := by
          unfold candidateSteps
          simp only [List.length_append, List.length_singleton, Nat.cast_add, Nat.cast_one]
          omega
        rw [appendCandidates_eq completions count bound fuel (candidate + 1) _ (by omega),
          hsteps, List.range_succ_eq_map]
        simp only [List.map_cons, List.map_map, Prod.mk.injEq, List.append_assoc,
          List.singleton_append, Nat.cast_zero, add_zero]
        refine ⟨by omega, congrArg (result ++ candidate :: ·) (List.map_congr_left fun i _ => ?_)⟩
        simp only [Function.comp_apply, Nat.cast_succ]
        omega
      · have : candidateSteps completions count bound candidate result.length = 0 := by
          unfold candidateSteps
          omega
        simp [this]

/-! ## The pending indexes -/

/-- The indexes from `0` up to below both `completions` and `bound` that are not in
`nonPending`, in increasing order. -/
def pendingBelow (nonPending : Finset Int) (completions bound : Int) : List Int :=
  ((List.range (min completions bound).toNat).map fun i : Nat => (i : Int)).filter
    fun i => i ∉ nonPending
attribute [grind] pendingBelow

/-- A prefix of a list at least `n` long has the list's first `n` elements. -/
theorem take_eq_of_isPrefix_of_le {α : Type _} {l₁ l₂ : List α} (h : l₁ <+: l₂) {n : Nat}
    (hn : n ≤ l₁.length) : l₂.take n = l₁.take n := by
  have hl₁ := List.prefix_iff_eq_take.mp h
  calc l₂.take n = (l₂.take l₁.length).take n := by rw [List.take_take, min_eq_left hn]
    _ = l₁.take n := by rw [← hl₁]

section Pending

variable {S : Finset Int} {completions : Int}

/-- Past `completions` the pending indexes do not grow. -/
theorem pendingBelow_of_le {b : Int} (h : completions ≤ b) :
    pendingBelow S completions b = pendingBelow S completions completions := by
  simp [pendingBelow, min_eq_left h]

/-- One more candidate adds itself when it is pending. -/
theorem pendingBelow_succ {b : Int} (hb : 0 ≤ b) (hbc : b < completions) :
    pendingBelow S completions (b + 1) =
      pendingBelow S completions b ++ if b ∈ S then [] else [b] := by
  have h1 : (min completions (b + 1)).toNat = b.toNat + 1 := by omega
  have h2 : (min completions b).toNat = b.toNat := by omega
  have h3 : ((b.toNat : Nat) : Int) = b := Int.toNat_of_nonneg hb
  simp only [pendingBelow, h1, h2, List.range_succ, List.map_append, List.map_singleton,
    List.filter_append, h3]
  split_ifs with hS <;> simp [hS]

/-- A run of pending candidates from `b` adds itself. -/
theorem pendingBelow_run {b : Int} (hb : 0 ≤ b) :
    ∀ k : Nat, b + k ≤ completions → (∀ j : Nat, j < k → b + j ∉ S) →
      pendingBelow S completions (b + k) =
        pendingBelow S completions b ++ (List.range k).map fun j : Nat => b + (j : Int)
  | 0, _, _ => by simp
  | k + 1, hk, hS => by
      have hstep : b + ((k + 1 : Nat) : Int) = b + k + 1 := by push_cast; ring
      rw [hstep, pendingBelow_succ (by omega) (by omega),
        pendingBelow_run hb k (by omega) (fun j hj => hS j (by omega)), if_neg (hS k (by omega)),
        List.range_succ]
      simp

/-- Candidates that are not pending change nothing. -/
theorem pendingBelow_skip {b : Int} (hb : 0 ≤ b) :
    ∀ k : Nat, (∀ j : Nat, j < k → b + j < completions → b + j ∈ S) →
      pendingBelow S completions (b + k) = pendingBelow S completions b
  | 0, _ => by simp
  | k + 1, hS => by
      have hstep : b + ((k + 1 : Nat) : Int) = b + k + 1 := by push_cast; ring
      rw [hstep]
      by_cases hc : b + k < completions
      · rw [pendingBelow_succ (by omega) hc, if_pos (hS k (by omega) hc), List.append_nil,
          pendingBelow_skip hb k (fun j hj => hS j (by omega))]
      · -- past `completions`: the next candidate changes nothing either
        rw [pendingBelow_of_le (by omega : completions ≤ b + k + 1),
          ← pendingBelow_of_le (by omega : completions ≤ b + k),
          pendingBelow_skip hb k (fun j hj => hS j (by omega))]

/-- The pending indexes below `b` begin those below any later bound. -/
theorem pendingBelow_isPrefix_of_le {b b' : Int} (h : b ≤ b') :
    pendingBelow S completions b <+: pendingBelow S completions b' := by
  unfold pendingBelow
  refine List.IsPrefix.filter _ (List.IsPrefix.map _ ?_)
  rw [List.prefix_iff_eq_take, List.length_range, List.take_range]
  congr 1
  omega

end Pending

/-! ## The loops of `firstPendingIndexes` -/

/-- What the loops keep: the candidate is not negative, and the indexes taken are the first
`count` pending indexes below it. -/
structure Taken (S : Finset Int) (completions count : Int) (state : Int × List Int) : Prop where
  nonneg : 0 ≤ state.1
  result : state.2 = (pendingBelow S completions state.1).take count.toNat

section Loops

variable {S : Finset Int} {completions count : Int}

/-- The inner loop keeps `Taken` when no index of `S` lies between the candidate and `bound`;
it stops with `count` indexes taken, at `completions` or at `bound`. -/
theorem taken_appendCandidates {bound : Int} {state state' : Int × List Int}
    (hcount : 0 ≤ count) (hT : Taken S completions count state)
    (hfree : ∀ i ∈ S, state.1 ≤ i → bound ≤ i)
    (h : appendCandidates completions count bound (completions - state.1).toNat state = state') :
    Taken S completions count state' ∧ state.1 ≤ state'.1 ∧
      ((state'.2.length : Int) = count ∨ completions ≤ state'.1 ∨ bound ≤ state'.1) := by
  obtain ⟨candidate, result⟩ := state
  obtain ⟨hnonneg, hresult⟩ := hT
  dsimp only at hnonneg hresult hfree
  rw [appendCandidates_eq _ _ _ _ _ _ (by omega)] at h
  subst h
  set m := candidateSteps completions count bound candidate result.length with hm_def
  have hm : (m : Int) = max 0 (min (min completions bound - candidate)
      (count - result.length)) := by
    rw [hm_def, candidateSteps]
    omega
  have hlen : result.length = min count.toNat (pendingBelow S completions candidate).length := by
    rw [hresult, List.length_take]
  by_cases hm0 : m = 0
  · -- the loop does not run: the candidate is at a bound, or `count` are taken
    refine ⟨⟨by dsimp only; omega, ?_⟩, by dsimp only; omega, ?_⟩
    · simp [hm0, hresult]
    · simp only [hm0, List.range_zero, List.map_nil, List.append_nil, Nat.cast_zero, add_zero]
      omega
  · -- not all taken yet: the indexes taken are all the pending ones below the candidate
    have hall : result = pendingBelow S completions candidate := by
      rw [hresult]
      exact List.take_of_length_le (by omega)
    -- the run taken is pending: below `completions`, and below `bound`, where `S` starts
    have hrun := @pendingBelow_run S completions _ hnonneg m (by omega)
      (fun j hj hjS => by have := hfree _ hjS (by omega); omega)
    refine ⟨⟨by dsimp only; omega, ?_⟩, by dsimp only; omega, ?_⟩
    · dsimp only
      rw [hrun, ← hall, List.take_of_length_le (by simp; omega)]
    · simp only [List.length_append, List.length_map, List.length_range, Nat.cast_add]
      omega

/-- One turn over an interval of `S`, before which nothing of `S` lies above the candidate: the
candidates before it are taken, and the candidate moves past its end. -/
theorem taken_skipInterval {state : Int × List Int} {iv : Interval} (hcount : 0 ≤ count)
    (hT : Taken S completions count state) (hfree : ∀ i ∈ S, state.1 ≤ i → iv.first ≤ i)
    (hiv : ∀ i, iv.first ≤ i → i ≤ iv.last → i ∈ S) (hfirst : minInt64 ≤ iv.first)
    (hle : iv.first ≤ iv.last) (hlast : iv.last < maxInt64) :
    Taken S completions count (skipInterval completions count state iv) ∧
      state.1 ≤ (skipInterval completions count state iv).1 ∧
      iv.last < (skipInterval completions count state iv).1 := by
  -- `sInterval.Last+1` does not wrap below `MaxInt64`
  have hwrap : wrap64 (iv.last + 1) = iv.last + 1 := wrap64_of_mem (by omega) (by omega)
  rcases hs : appendCandidates completions count iv.first (completions - state.1).toNat state
    with ⟨candidate, result⟩
  obtain ⟨⟨hnonneg, hresult⟩, hmono, hstop⟩ := taken_appendCandidates hcount hT hfree hs
  dsimp only at hnonneg hresult hmono hstop
  simp only [skipInterval, hs, hwrap]
  split_ifs with hlt
  · -- the candidate jumps past the interval; the pending indexes taken stay the same
    refine ⟨⟨by dsimp only; omega, ?_⟩, by omega, by omega⟩
    dsimp only
    rw [hresult]
    rcases hstop with hfull | hpast | hat
    · -- all taken: the pending indexes below the candidate already hold `count`
      have hlong : count.toNat ≤ (pendingBelow S completions candidate).length := by
        have := congrArg List.length hresult
        rw [List.length_take] at this
        omega
      exact (take_eq_of_isPrefix_of_le (pendingBelow_isPrefix_of_le (by omega)) hlong).symm
    · rw [pendingBelow_of_le hpast, pendingBelow_of_le (by omega : completions ≤ iv.last + 1)]
    · -- the interval's indexes are not pending
      have hskip := @pendingBelow_skip S completions _ hnonneg
        (iv.last + 1 - candidate).toNat (fun j hj _ => hiv _ (by omega) (by omega))
      rw [show candidate + ((iv.last + 1 - candidate).toNat : Int) = iv.last + 1 by omega]
        at hskip
      rw [hskip]
  · exact ⟨⟨hnonneg, hresult⟩, hmono, by omega⟩

/-- A turn over an interval that ends at `MaxInt64`: `sInterval.Last+1` wraps to `MinInt64`,
so the candidate stays after the candidates before the interval are taken. -/
theorem taken_skipInterval_maxInt64 {state : Int × List Int} {iv : Interval} (hcount : 0 ≤ count)
    (hT : Taken S completions count state) (hfree : ∀ i ∈ S, state.1 ≤ i → iv.first ≤ i)
    (hlast : iv.last = maxInt64) :
    Taken S completions count (skipInterval completions count state iv) ∧
      state.1 ≤ (skipInterval completions count state iv).1 := by
  have hwrap : wrap64 (iv.last + 1) = minInt64 := by
    rw [hlast]
    decide
  rcases hs : appendCandidates completions count iv.first (completions - state.1).toNat state
    with ⟨candidate, result⟩
  obtain ⟨⟨hnonneg, hresult⟩, hmono, -⟩ := taken_appendCandidates hcount hT hfree hs
  dsimp only at hnonneg hresult hmono
  have hstay : ¬candidate < minInt64 := by
    unfold minInt64
    omega
  simp only [skipInterval, hs, hwrap, if_neg hstay]
  exact ⟨⟨hnonneg, hresult⟩, hmono⟩

/-- The loop over canonical intervals whose indexes are in `S` and hold every index of `S` from
the candidate on keeps `Taken`.  It ends with every index of `S` from the candidate on at
`completions` or above, given that an interval ending at `MaxInt64` starts there. -/
theorem taken_foldl_skipInterval (hcount : 0 ≤ count) :
    ∀ (rest : List Interval) (state : Int × List Int), Canonical rest →
      (∀ iv ∈ rest, minInt64 ≤ iv.first ∧ iv.last ≤ maxInt64 ∧
        (iv.last = maxInt64 → completions ≤ iv.first)) → indexes rest ⊆ S →
      (∀ i ∈ S, state.1 ≤ i → i ∈ indexes rest) → Taken S completions count state →
      Taken S completions count (rest.foldl (skipInterval completions count) state) ∧
        ∀ i ∈ S, (rest.foldl (skipInterval completions count) state).1 ≤ i → completions ≤ i
  | [], state, _, _, _, hcover, hT => by
      rw [List.foldl_nil]
      refine ⟨hT, fun i hi hge => ?_⟩
      simpa using hcover i hi hge
  | iv :: rest, state, hc, hrange, hsub, hcover, hT => by
      obtain ⟨hle, hafter, hc'⟩ := canonical_cons.mp hc
      obtain ⟨hfirst, hlast, hstart⟩ := hrange iv List.mem_cons_self
      -- nothing of `S` lies between the candidate and the interval: the rest starts later
      have hfree : ∀ i ∈ S, state.1 ≤ i → iv.first ≤ i := by
        intro i hi hge
        rcases Finset.mem_union.mp (hcover i hi hge) with hiv | hrest
        · exact (Interval.mem_indexes.mp hiv).1
        · obtain ⟨b, hb, hbfirst, -⟩ := mem_indexes.mp hrest
          have := hafter b hb
          omega
      rw [List.foldl_cons]
      by_cases hmax : iv.last = maxInt64
      · -- the interval at `MaxInt64` is the last one, and starts at `completions` or above
        have hnil : rest = [] := List.eq_nil_iff_forall_not_mem.mpr fun b hb => by
          have := hafter b hb
          have := hc'.1 b hb
          have := hrange b (List.mem_cons_of_mem _ hb)
          omega
        subst hnil
        obtain ⟨hT', hmono⟩ := taken_skipInterval_maxInt64 hcount hT hfree hmax
        refine ⟨hT', fun i hi hge => ?_⟩
        have := hfree i hi (by rw [List.foldl_nil] at hge; omega)
        have := hstart hmax
        omega
      have hiv : ∀ i, iv.first ≤ i → i ≤ iv.last → i ∈ S := fun i h1 h2 =>
        hsub (Finset.mem_union_left _ (Interval.mem_indexes.mpr ⟨h1, h2⟩))
      obtain ⟨hT', hmono, hpast⟩ :=
        taken_skipInterval hcount hT hfree hiv hfirst hle (lt_of_le_of_ne hlast hmax)
      refine taken_foldl_skipInterval hcount rest _ hc'
        (fun b hb => hrange b (List.mem_cons_of_mem _ hb))
        (fun i hi => hsub (Finset.mem_union_right _ hi)) (fun i hi hge => ?_) hT'
      -- what is left of `S` past the interval lies in the rest
      rcases Finset.mem_union.mp (hcover i hi (by omega)) with hiv' | hrest
      · have := (Interval.mem_indexes.mp hiv').2
        omega
      · exact hrest

end Loops

/-! ## `firstPendingIndexes` is exact -/

/-- The completion indexes the active pods carry. -/
def activeIndexes (activePods : List Core.Pod) : Finset Int :=
  ((activePods.map fun p => getCompletionIndex p.annotations).filter
    (· ≠ unknownCompletionIndex)).toFinset
attribute [grind] activeIndexes

/-- The Go set `active` collects the completion indexes of the active pods. -/
theorem foldl_active (activePods : List Core.Pod) (s : Finset Int) :
    activePods.foldl (fun active p =>
      if getCompletionIndex p.annotations ≠ unknownCompletionIndex then
        insert (getCompletionIndex p.annotations) active
      else active) s = s ∪ activeIndexes activePods := by
  induction activePods generalizing s with
  | nil => simp [activeIndexes]
  | cons p pods ih =>
      rw [List.foldl_cons, ih]
      by_cases hp : getCompletionIndex p.annotations = unknownCompletionIndex
      · simp [activeIndexes, hp]
      · ext ix
        simp only [activeIndexes, ne_eq, hp, not_false_eq_true, if_true, Finset.mem_union,
          Finset.mem_insert, List.mem_toFinset, List.mem_filter, List.mem_map, List.mem_cons,
          decide_eq_true_eq]
        constructor
        · rintro ((rfl | hs) | ⟨⟨q, hq, rfl⟩, hne⟩)
          · exact .inr ⟨⟨p, .inl rfl, rfl⟩, hp⟩
          · exact .inl hs
          · exact .inr ⟨⟨q, .inr hq, rfl⟩, hne⟩
        · rintro (hs | ⟨⟨q, rfl | hq, rfl⟩, hne⟩)
          · exact .inl (.inr hs)
          · exact .inl (.inl rfl)
          · exact .inr ⟨⟨q, hq, rfl⟩, hne⟩

/-- The free index `firstPendingIndexes_exact` asks for is there for every Job: `completions` is
an `int32`, the succeeded indexes `succeededIndexesFromJob` reads lie below it, and there are
fewer than `2^62` active pods. -/
theorem exists_free_index {activePods : List Core.Pod} {succeededIndexes : OrderedIntervals}
    {completions : Int} (hcompl : completions < 2 ^ 31)
    (hsucc : ∀ iv ∈ succeededIndexes, iv.last < completions) (hpods : activePods.length < 2 ^ 62) :
    ∃ j, completions ≤ j ∧ j ≤ maxInt64 ∧ j ∉ indexes succeededIndexes ∧
      j ∉ activeIndexes activePods := by
  -- more indexes from `completions` to `MaxInt64` than active pods
  have hactive : (activeIndexes activePods).card ≤ activePods.length :=
    (List.toFinset_card_le _).trans ((List.length_filter_le _ _).trans (List.length_map _).le)
  have hcard : (activeIndexes activePods).card < (Finset.Icc completions maxInt64).card := by
    rw [Int.card_Icc]
    unfold maxInt64
    omega
  obtain ⟨j, hj, hjact⟩ := Finset.exists_mem_notMem_of_card_lt_card hcard
  rw [Finset.mem_Icc] at hj
  refine ⟨j, hj.1, hj.2, fun hjsucc => ?_, hjact⟩
  obtain ⟨iv, hiv, -, hlast⟩ := mem_indexes.mp hjsucc
  have := hsucc iv hiv
  omega

/-- For canonical succeeded intervals below `MaxInt64`, any active pods and `count ≥ 0`,
`firstPendingIndexes` returns the first `count` pending indexes below `completions`: in
increasing order, the smallest indexes from `0` on that neither succeeded nor belong to an
active pod.  The one condition is that some index from `completions` to `MaxInt64` is neither
succeeded nor active, as for every Job (`exists_free_index`). -/
theorem firstPendingIndexes_exact (activePods : List Core.Pod)
    (succeededIndexes : OrderedIntervals) {count completions : Int}
    (hsucc : Canonical succeededIndexes)
    (hrange : ∀ iv ∈ succeededIndexes, minInt64 ≤ iv.first ∧ iv.last < maxInt64)
    (hgap : ∃ j, completions ≤ j ∧ j ≤ maxInt64 ∧ j ∉ indexes succeededIndexes ∧
      j ∉ activeIndexes activePods)
    (hcount : 0 ≤ count) :
    firstPendingIndexes activePods succeededIndexes count completions =
      .ok ((pendingBelow (indexes succeededIndexes ∪ activeIndexes activePods) completions
        completions).take count.toNat) := by
  unfold firstPendingIndexes
  split_ifs with hzero hneg
  · simp [hzero, pure, Except.pure]
  · omega
  simp only [foldl_active, Finset.empty_union, pure, Except.pure, Except.ok.injEq]
  set S := indexes succeededIndexes ∪ activeIndexes activePods with hS
  -- every index of `S` is an `int64`
  have hSrange : ∀ i ∈ S, minInt64 ≤ i ∧ i ≤ maxInt64 := by
    intro i hi
    rcases Finset.mem_union.mp hi with hsucc' | hact
    · obtain ⟨iv, hiv, h1, h2⟩ := mem_indexes.mp hsucc'
      have := hrange iv hiv
      exact ⟨by omega, by omega⟩
    · simp only [activeIndexes, List.mem_toFinset, List.mem_filter, List.mem_map,
        decide_eq_true_eq] at hact
      obtain ⟨⟨p, -, rfl⟩, hne⟩ := hact
      exact ⟨minInt64_le_of_nonneg (getCompletionIndex_nonneg hne), getCompletionIndex_le _⟩
  -- the active indexes, sorted, are increasing
  have hsorted := setsIntList_pairwise (activeIndexes activePods)
  have hactiveRange : ∀ ix ∈ setsIntList (activeIndexes activePods),
      minInt64 ≤ ix ∧ ix ≤ maxInt64 := fun ix hix =>
    hSrange ix (Finset.mem_union_right _ (mem_setsIntList.mp hix))
  obtain ⟨hc, hindexes⟩ := withOrderedIndexes_spec hsucc hsorted ⟨hrange, hactiveRange⟩
  rw [setsIntList_toFinset, ← hS] at hindexes
  set nonPending := withOrderedIndexes succeededIndexes (setsIntList (activeIndexes activePods))
  -- the merged intervals are made of indexes of `S`; one that ends at `MaxInt64` holds every
  -- index from its start on, so it starts past the free index, above `completions`
  obtain ⟨j, hj, hjmax, hjsucc, hjact⟩ := hgap
  have hjS : j ∉ S := by
    rw [hS, Finset.mem_union]
    tauto
  have hNrange : ∀ iv ∈ nonPending, minInt64 ≤ iv.first ∧ iv.last ≤ maxInt64 ∧
      (iv.last = maxInt64 → completions ≤ iv.first) := by
    intro iv hiv
    have hle := hc.1 iv hiv
    have h1 := hSrange iv.first (hindexes ▸ mem_indexes.mpr ⟨iv, hiv, le_rfl, hle⟩)
    have h2 := hSrange iv.last (hindexes ▸ mem_indexes.mpr ⟨iv, hiv, hle, le_rfl⟩)
    refine ⟨h1.1, h2.2, fun hmax => ?_⟩
    by_contra hlow
    exact hjS (hindexes ▸ mem_indexes.mpr ⟨iv, hiv, by omega, by omega⟩)
  obtain ⟨hT, hpast⟩ := taken_foldl_skipInterval hcount nonPending (0, []) hc hNrange
    hindexes.subset (fun i hi _ => hindexes ▸ hi) ⟨le_rfl, by simp [pendingBelow]⟩
  -- the last loop takes the candidates up to `completions`, none of them in `S`
  rcases hs : appendCandidates completions count completions
    (completions - (nonPending.foldl (skipInterval completions count) (0, [])).1).toNat
    (nonPending.foldl (skipInterval completions count) (0, [])) with ⟨candidate, result⟩
  obtain ⟨⟨-, hresult⟩, -, hstop⟩ := taken_appendCandidates hcount hT hpast hs
  dsimp only at hresult hstop ⊢
  rw [hresult]
  by_cases hle : candidate ≤ completions
  · rcases hstop with hfull | hat | hat
    · -- all `count` taken below the candidate
      have hlong : count.toNat ≤ (pendingBelow S completions candidate).length := by
        have := congrArg List.length hresult
        rw [List.length_take] at this
        omega
      exact (take_eq_of_isPrefix_of_le (pendingBelow_isPrefix_of_le hle) hlong).symm
    all_goals rw [show candidate = completions by omega]
  · rw [pendingBelow_of_le (by omega : completions ≤ candidate)]

/-- Three pending indexes of eight, around the succeeded `1-2,5` and an active pod at `3`. -/
theorem firstPendingIndexes_exact_gaps :
    Canonical [⟨1, 2⟩, ⟨5, 5⟩] ∧
      firstPendingIndexes [⟨"pod-3", [( jobCompletionIndexAnnotation, "3")], 1, none, "node-1",
          .running, [], []⟩] [⟨1, 2⟩, ⟨5, 5⟩] 3 8 =
        .ok ((pendingBelow (indexes [⟨1, 2⟩, ⟨5, 5⟩] ∪ activeIndexes [⟨"pod-3",
          [( jobCompletionIndexAnnotation, "3")], 1, none, "node-1", .running, [], []⟩]) 8 8).take 3) :=
  have hc : Canonical [⟨1, 2⟩, ⟨5, 5⟩] := by decide
  ⟨hc, firstPendingIndexes_exact _ _ hc (by decide)
    (exists_free_index (by norm_num) (by decide) (by norm_num)) (by decide)⟩

end Job
end Kubernetes
