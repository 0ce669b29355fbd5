import Mathlib
import Kubernetes.Go.Strconv

/-!
# Indexed Jobs: completed indexes as ordered intervals

The Job controller keeps the completed indexes of an Indexed Job as `orderedIntervals`
(`pkg/controller/job/indexed_job_utils.go`), a list of closed intervals `[First, Last]`.
The list stands for the set of indexes it covers (`OrderedIntervals.indexes`).  It is
*canonical* when every interval is non-empty and ends at least two below the start of every
later one: sorted, disjoint and not adjacent.  On canonical lists:

* `withOrderedIndexes` adds an increasing list of indexes and stays canonical
  (`withOrderedIndexes_spec`);
* `total` counts the indexes (`total_eq_card`);
* `has` is membership, by binary search (`has_iff`).

Go's `int` has 64 bits.  The two sums that can reach `MaxInt64`, `lastInterval.Last+1` and
the running `count` of `total`, wrap (`wrap64`): the results hold for intervals below
`MaxInt64` (`withOrderedIndexes` also takes the index `MaxInt64` itself, which comes last), and
those on `total` for indexes from `0` on.  The other arithmetic cannot
overflow on the values it sees.
-/

namespace Kubernetes
namespace Job

open Go

/-- `interval`: the indexes from `First` to `Last`. -/
structure Interval where
  first : Int
  last : Int
  deriving DecidableEq, Repr, Inhabited

/-- `orderedIntervals`. -/
abbrev OrderedIntervals := List Interval

namespace Interval

/-- The indexes an interval holds. -/
noncomputable def indexes (iv : Interval) : Finset Int :=
  Finset.Icc iv.first iv.last
attribute [grind] indexes

@[simp] theorem mem_indexes {iv : Interval} {ix : Int} :
    ix ∈ iv.indexes ↔ iv.first ≤ ix ∧ ix ≤ iv.last :=
  Finset.mem_Icc

@[simp] theorem indexes_single (ix : Int) : (Interval.mk ix ix).indexes = {ix} :=
  Finset.Icc_self ix

end Interval

namespace OrderedIntervals

/-! ## What the intervals stand for -/

/-- The indexes the intervals hold. -/
noncomputable def indexes : OrderedIntervals → Finset Int
  | [] => ∅
  | iv :: oi => iv.indexes ∪ indexes oi
attribute [grind] indexes

@[simp] theorem indexes_nil : indexes [] = ∅ := rfl

@[simp] theorem indexes_cons (iv : Interval) (oi : OrderedIntervals) :
    indexes (iv :: oi) = iv.indexes ∪ indexes oi := rfl

theorem mem_indexes {oi : OrderedIntervals} {ix : Int} :
    ix ∈ indexes oi ↔ ∃ iv ∈ oi, iv.first ≤ ix ∧ ix ≤ iv.last := by
  induction oi with
  | nil => simp
  | cons iv oi ih => simp [ih]

@[simp] theorem indexes_append (oi oi' : OrderedIntervals) :
    indexes (oi ++ oi') = indexes oi ∪ indexes oi' := by
  induction oi with
  | nil => simp
  | cons iv oi ih => simp [ih, Finset.union_assoc]

@[simp] theorem indexes_reverse (oi : OrderedIntervals) : indexes oi.reverse = indexes oi := by
  induction oi with
  | nil => rfl
  | cons iv oi ih => simp [ih, Finset.union_comm]

/-- Canonical intervals: each is non-empty, and each ends at least two below the start of
every later one, so that they are sorted, disjoint and not adjacent. -/
def Canonical (oi : OrderedIntervals) : Prop :=
  (∀ iv ∈ oi, iv.first ≤ iv.last) ∧ oi.Pairwise fun a b => a.last + 1 < b.first
attribute [grind] Canonical

instance : DecidablePred Canonical := fun _ => inferInstanceAs (Decidable (_ ∧ _))

theorem Canonical.nil : Canonical [] := ⟨by simp, List.Pairwise.nil⟩

theorem canonical_cons {iv : Interval} {oi : OrderedIntervals} :
    Canonical (iv :: oi) ↔
      iv.first ≤ iv.last ∧ (∀ b ∈ oi, iv.last + 1 < b.first) ∧ Canonical oi := by
  simp only [Canonical, List.mem_cons, forall_eq_or_imp, List.pairwise_cons]
  tauto

/-- A result held last interval first is canonical once put back in order when its head
is non-empty and starts past the one after the end of everything before it. -/
theorem canonical_reverse_cons {iv : Interval} {acc : OrderedIntervals} :
    Canonical (iv :: acc).reverse ↔
      iv.first ≤ iv.last ∧ (∀ a ∈ acc, a.last + 1 < iv.first) ∧ Canonical acc.reverse := by
  simp only [Canonical, List.reverse_cons, List.mem_append, List.mem_reverse, List.mem_singleton,
    List.pairwise_append, List.pairwise_reverse, List.pairwise_singleton, forall_eq]
  grind

/-- In canonical intervals the ends increase strictly. -/
theorem Canonical.last_lt {oi : OrderedIntervals} (h : Canonical oi) {i j : Nat}
    (hij : i < j) (hj : j < oi.length) :
    oi[i].last < oi[j].last := by
  have hpair := List.pairwise_iff_getElem.mp h.2 i j (by omega) hj hij
  have hne := h.1 oi[j] (List.getElem_mem hj)
  omega

/-- Canonical intervals cover their indexes once each: the count is the sum of the lengths. -/
theorem Canonical.card_indexes_cons {iv : Interval} {oi : OrderedIntervals}
    (h : Canonical (iv :: oi)) :
    (indexes (iv :: oi)).card = iv.indexes.card + (indexes oi).card := by
  obtain ⟨-, hafter, -⟩ := canonical_cons.mp h
  rw [indexes_cons, Finset.card_union_of_disjoint]
  rw [Finset.disjoint_left]
  intro ix hiv hoi
  obtain ⟨b, hb, hbfirst, -⟩ := mem_indexes.mp hoi
  have := hafter b hb
  simp only [Interval.mem_indexes] at hiv
  omega

/-! ## `withOrderedIndexes` -/

/-- The closure `appendOrMergeWithLastInterval`, on the result held last interval first (its
head is `*lastInterval`): a new interval when `thisInterval` starts past the one after the
end of `lastInterval`, otherwise `lastInterval` stretched to `thisInterval.Last`. -/
def appendOrMergeWithLastInterval (result : List Interval) (thisInterval : Interval) :
    List Interval :=
  match result with
  | [] => [thisInterval]
  | lastInterval :: rest =>
      if thisInterval.first > wrap64 (lastInterval.last + 1) then
        thisInterval :: lastInterval :: rest
      else if lastInterval.last < thisInterval.last then
        { lastInterval with last := thisInterval.last } :: rest
      else lastInterval :: rest
attribute [grind] appendOrMergeWithLastInterval

/-- `withOrderedIndexes`: the intervals with `newIndexes`, given in increasing order, added. -/
def withOrderedIndexes (oi : OrderedIntervals) (newIndexes : List Int) : OrderedIntervals :=
  (loop oi newIndexes []).reverse
where
  /-- The three loops of the source over what is left of `oi` and `newIndexes`: while both
  have items, the one that starts first (the index on a tie); then the rest of either. -/
  loop : List Interval → List Int → List Interval → List Interval
    | iv :: oi, ix :: newIndexes, result =>
        if iv.first < ix then
          loop oi (ix :: newIndexes) (appendOrMergeWithLastInterval result iv)
        else loop (iv :: oi) newIndexes (appendOrMergeWithLastInterval result ⟨ix, ix⟩)
    | iv :: oi, [], result => loop oi [] (appendOrMergeWithLastInterval result iv)
    | [], ix :: newIndexes, result =>
        loop [] newIndexes (appendOrMergeWithLastInterval result ⟨ix, ix⟩)
    | [], [], result => result
  termination_by oi newIndexes => oi.length + newIndexes.length

/-- What the loop keeps of its result: put back in order it is canonical, and its last
interval starts between `MinInt64` and `bound` and ends below `MaxInt64`. -/
def ResultBelow (result : List Interval) (bound : Int) : Prop :=
  Canonical result.reverse ∧
    ∀ last ∈ result.head?, minInt64 ≤ last.first ∧ last.first ≤ bound ∧ last.last < maxInt64
attribute [grind] ResultBelow

/-- One call of `appendOrMergeWithLastInterval`, with an interval that starts no earlier than
the last one and ends below `MaxInt64`: the result stays canonical and gains the interval's
indexes. -/
theorem appendOrMerge_spec {result : List Interval} {iv : Interval}
    (hres : ResultBelow result iv.first) (hiv : iv.first ≤ iv.last) (hpos : minInt64 ≤ iv.first)
    (hmax : iv.last < maxInt64) :
    ResultBelow (appendOrMergeWithLastInterval result iv) iv.first ∧
      indexes (appendOrMergeWithLastInterval result iv) = indexes result ∪ iv.indexes := by
  obtain ⟨hc, hhead⟩ := hres
  cases result with
  | nil =>
      refine ⟨⟨canonical_reverse_cons.mpr ⟨hiv, by simp, Canonical.nil⟩, ?_⟩, ?_⟩ <;>
        simp [appendOrMergeWithLastInterval, hpos, hmax]
  | cons last rest =>
      obtain ⟨hlastpos, hfirst, hlastmax⟩ := hhead last rfl
      obtain ⟨hlast, hrest, hcrest⟩ := canonical_reverse_cons.mp hc
      -- `lastInterval.Last+1` does not wrap below `MaxInt64`
      have hwrap : wrap64 (last.last + 1) = last.last + 1 :=
        wrap64_of_mem (by omega) (by omega)
      simp only [appendOrMergeWithLastInterval]
      rw [hwrap]
      split_ifs with hgap hlonger
      · -- a gap: a new last interval
        refine ⟨⟨canonical_reverse_cons.mpr ⟨hiv, ?_, hc⟩, by simp [hpos, hmax]⟩,
          by simp [Finset.union_comm]⟩
        intro a ha
        rcases List.mem_cons.mp ha with rfl | ha
        · omega
        · have := hrest a ha
          omega
      · -- overlapping or adjacent, and longer: the last interval stretched
        refine ⟨⟨canonical_reverse_cons.mpr ⟨by dsimp only; omega, hrest, hcrest⟩,
          by simp [hlastpos, hfirst, hmax]⟩, ?_⟩
        have hstretch : (Interval.mk last.first iv.last).indexes = last.indexes ∪ iv.indexes := by
          ext ix
          simp only [Finset.mem_union, Interval.mem_indexes]
          omega
        rw [indexes_cons, indexes_cons, hstretch, Finset.union_right_comm]
      · -- inside the last interval: nothing changes
        refine ⟨⟨hc, by simp [hlastpos, hfirst, hlastmax]⟩, ?_⟩
        refine (Finset.union_eq_left.mpr fun ix hix => ?_).symm
        simp only [Interval.mem_indexes] at hix
        exact Finset.mem_union_left _ (Interval.mem_indexes.mpr (by omega))

/-- The index `MaxInt64`, taken last: the result stays canonical and gains it. -/
theorem appendOrMerge_maxInt64 {result : List Interval} (hres : ResultBelow result maxInt64) :
    Canonical (appendOrMergeWithLastInterval result ⟨maxInt64, maxInt64⟩).reverse ∧
      indexes (appendOrMergeWithLastInterval result ⟨maxInt64, maxInt64⟩) =
        indexes result ∪ {maxInt64} := by
  obtain ⟨hc, hhead⟩ := hres
  cases result with
  | nil => exact ⟨canonical_reverse_cons.mpr ⟨le_rfl, by simp, Canonical.nil⟩, by simp [appendOrMergeWithLastInterval]⟩
  | cons last rest =>
      obtain ⟨hlastpos, -, hlastmax⟩ := hhead last rfl
      obtain ⟨hlast, hrest, hcrest⟩ := canonical_reverse_cons.mp hc
      have hwrap : wrap64 (last.last + 1) = last.last + 1 :=
        wrap64_of_mem (by omega) (by omega)
      simp only [appendOrMergeWithLastInterval]
      rw [hwrap]
      split_ifs with hgap
      · -- a gap: `[MaxInt64, MaxInt64]` is a new last interval
        refine ⟨canonical_reverse_cons.mpr ⟨le_rfl, fun a ha => ?_, hc⟩,
          by simp [Finset.union_comm]⟩
        rcases List.mem_cons.mp ha with rfl | ha
        · exact hgap
        · have := hrest a ha
          dsimp only
          omega
      · -- adjacent: the last interval stretched to `MaxInt64`
        have hadj : last.last + 1 = maxInt64 := by omega
        refine ⟨canonical_reverse_cons.mpr ⟨by dsimp only; omega, hrest, hcrest⟩, ?_⟩
        ext ix
        simp only [indexes_cons, Finset.mem_union, Interval.mem_indexes, Finset.mem_singleton]
        have hkey : (last.first ≤ ix ∧ ix ≤ maxInt64) ↔
            (last.first ≤ ix ∧ ix ≤ last.last) ∨ ix = maxInt64 := by omega
        rw [hkey]
        tauto

/-- Everything the loop has still to take starts no earlier than `bound`. -/
def Pending (oi : OrderedIntervals) (newIndexes : List Int) (bound : Int) : Prop :=
  (∀ iv ∈ oi, bound ≤ iv.first) ∧ ∀ ix ∈ newIndexes, bound ≤ ix
attribute [grind] Pending

theorem Pending.mono {oi : OrderedIntervals} {newIndexes : List Int} {b b' : Int}
    (h : Pending oi newIndexes b) (hb : b' ≤ b) : Pending oi newIndexes b' :=
  ⟨fun iv hiv => hb.trans (h.1 iv hiv), fun ix hix => hb.trans (h.2 ix hix)⟩

/-- The invariant of the loop of `withOrderedIndexes`: the result put back in order is
canonical, and its last interval ends below `MaxInt64` and starts no later than anything
still to take. -/
def LoopInv (oi : OrderedIntervals) (newIndexes : List Int) (result : List Interval) : Prop :=
  Canonical result.reverse ∧
    ∀ last ∈ result.head?, minInt64 ≤ last.first ∧ last.last < maxInt64 ∧
      Pending oi newIndexes last.first
attribute [grind] LoopInv

/-- The invariant holds again after taking an interval `iv` that starts no later than
anything left. -/
theorem LoopInv.take {oi : OrderedIntervals} {newIndexes : List Int} {result : List Interval}
    (iv : Interval) (hres : ResultBelow result iv.first) (hiv : iv.first ≤ iv.last)
    (hpos : minInt64 ≤ iv.first) (hmax : iv.last < maxInt64) (hrest : Pending oi newIndexes iv.first) :
    LoopInv oi newIndexes (appendOrMergeWithLastInterval result iv) ∧
      indexes (appendOrMergeWithLastInterval result iv) = indexes result ∪ iv.indexes := by
  obtain ⟨⟨hc, hhead⟩, hindexes⟩ := appendOrMerge_spec hres hiv hpos hmax
  refine ⟨⟨hc, fun last hl => ?_⟩, hindexes⟩
  obtain ⟨hlpos, hlfirst, hlmax⟩ := hhead last hl
  exact ⟨hlpos, hlmax, hrest.mono hlfirst⟩

theorem LoopInv.resultBelow {oi : OrderedIntervals} {newIndexes : List Int}
    {result : List Interval} (h : LoopInv oi newIndexes result) {b : Int}
    (hb : ∀ last ∈ result.head?, Pending oi newIndexes last.first → last.first ≤ b) :
    ResultBelow result b := by
  refine ⟨h.1, fun last hl => ?_⟩
  obtain ⟨hlpos, hlmax, hlpend⟩ := h.2 last hl
  exact ⟨hlpos, hb last hl hlpend, hlmax⟩

/-- The loop of `withOrderedIndexes`, on canonical intervals below `MaxInt64` and increasing
indexes up to `MaxInt64`: the result stays canonical and gains every index taken. -/
theorem withOrderedIndexes.loop_spec (oi : OrderedIntervals) (newIndexes : List Int)
    (result : List Interval) (hoi : Canonical oi) (hnew : newIndexes.Pairwise (· < ·))
    (hrange : (∀ iv ∈ oi, minInt64 ≤ iv.first ∧ iv.last < maxInt64) ∧
      ∀ ix ∈ newIndexes, minInt64 ≤ ix ∧ ix ≤ maxInt64)
    (hinv : LoopInv oi newIndexes result) :
    Canonical (loop oi newIndexes result).reverse ∧
      indexes (loop oi newIndexes result) =
        indexes result ∪ indexes oi ∪ newIndexes.toFinset := by
  fun_induction loop oi newIndexes result with
  | case1 iv oi ix newIndexes result hlt ih =>
      -- the interval starts first
      obtain ⟨hiv, hafter, hoi'⟩ := canonical_cons.mp hoi
      have hres : ResultBelow result iv.first :=
        hinv.resultBelow fun last _ hp => hp.1 iv (by simp)
      have hpend : Pending oi (ix :: newIndexes) iv.first := by
        refine ⟨fun b hb => by have := hafter b hb; omega, fun x hx => ?_⟩
        rcases List.mem_cons.mp hx with rfl | hx
        · exact hlt.le
        · exact hlt.le.trans (List.rel_of_pairwise_cons hnew hx).le
      obtain ⟨hinv', hindexes⟩ := LoopInv.take iv hres hiv (hrange.1 iv (by simp)).1 (hrange.1 iv (by simp)).2 hpend
      obtain ⟨hc, heq⟩ := ih hoi' hnew ⟨fun b hb => hrange.1 b (by simp [hb]), hrange.2⟩ hinv'
      refine ⟨hc, ?_⟩
      rw [heq, hindexes]
      ext x
      simp only [Finset.mem_union, indexes_cons]
      tauto
  | case2 iv oi ix newIndexes result hge ih =>
      -- the index starts first, or on a tie
      have hres : ResultBelow result ix :=
        hinv.resultBelow fun last _ hp => hp.2 ix (by simp)
      have hpend : Pending (iv :: oi) newIndexes ix := by
        refine ⟨fun b hb => ?_, fun x hx => (List.rel_of_pairwise_cons hnew hx).le⟩
        rcases List.mem_cons.mp hb with rfl | hb
        · omega
        · have := (canonical_cons.mp hoi).2.1 b hb
          have := (canonical_cons.mp hoi).1
          omega
      -- the index comes before an interval, which ends below `MaxInt64`
      have hmax : ix < maxInt64 := by
        have := (canonical_cons.mp hoi).1
        have := (hrange.1 iv (by simp)).2
        omega
      obtain ⟨hinv', hindexes⟩ := LoopInv.take ⟨ix, ix⟩ hres le_rfl (hrange.2 ix (by simp)).1 hmax hpend
      obtain ⟨hc, heq⟩ := ih hoi hnew.of_cons ⟨hrange.1, fun x hx => hrange.2 x (by simp [hx])⟩ hinv'
      refine ⟨hc, ?_⟩
      rw [heq, hindexes]
      ext x
      simp only [Finset.mem_union, Interval.indexes_single, Finset.mem_singleton,
        List.mem_toFinset, List.mem_cons]
      tauto
  | case3 iv oi result ih =>
      -- only intervals left
      obtain ⟨hiv, hafter, hoi'⟩ := canonical_cons.mp hoi
      have hres : ResultBelow result iv.first :=
        hinv.resultBelow fun last _ hp => hp.1 iv (by simp)
      have hpend : Pending oi [] iv.first :=
        ⟨fun b hb => by have := hafter b hb; omega, by simp⟩
      obtain ⟨hinv', hindexes⟩ := LoopInv.take iv hres hiv (hrange.1 iv (by simp)).1 (hrange.1 iv (by simp)).2 hpend
      obtain ⟨hc, heq⟩ := ih hoi' hnew ⟨fun b hb => hrange.1 b (by simp [hb]), hrange.2⟩ hinv'
      refine ⟨hc, ?_⟩
      rw [heq, hindexes]
      ext x
      simp only [Finset.mem_union, indexes_cons]
      tauto
  | case4 ix newIndexes result ih =>
      -- only indexes left
      have hres : ResultBelow result ix :=
        hinv.resultBelow fun last _ hp => hp.2 ix (by simp)
      have hpend : Pending [] newIndexes ix :=
        ⟨by simp, fun x hx => (List.rel_of_pairwise_cons hnew hx).le⟩
      by_cases hmax : ix = maxInt64
      · -- `MaxInt64` is the last index, and nothing comes after it
        have hnil : newIndexes = [] := List.eq_nil_iff_forall_not_mem.mpr fun x hx => by
          have := List.rel_of_pairwise_cons hnew hx
          have := (hrange.2 x (by simp [hx])).2
          omega
        subst hmax hnil
        obtain ⟨hc, hindexes⟩ := appendOrMerge_maxInt64 hres
        rw [withOrderedIndexes.loop]
        refine ⟨hc, ?_⟩
        rw [hindexes]
        simp
      obtain ⟨hinv', hindexes⟩ := LoopInv.take ⟨ix, ix⟩ hres le_rfl (hrange.2 ix (by simp)).1
        (lt_of_le_of_ne (hrange.2 ix (by simp)).2 hmax) hpend
      obtain ⟨hc, heq⟩ := ih hoi hnew.of_cons ⟨hrange.1, fun x hx => hrange.2 x (by simp [hx])⟩ hinv'
      refine ⟨hc, ?_⟩
      rw [heq, hindexes]
      ext x
      simp only [Finset.mem_union, Interval.indexes_single, Finset.mem_singleton,
        List.mem_toFinset, List.mem_cons, indexes_nil, Finset.notMem_empty]
      tauto
  | case5 result => simp [hinv.1]

/-- `withOrderedIndexes` on canonical intervals below `MaxInt64` and increasing indexes up to
`MaxInt64`: the result is canonical and holds the indexes of both. -/
theorem withOrderedIndexes_spec {oi : OrderedIntervals} {newIndexes : List Int}
    (hoi : Canonical oi) (hnew : newIndexes.Pairwise (· < ·))
    (hrange : (∀ iv ∈ oi, minInt64 ≤ iv.first ∧ iv.last < maxInt64) ∧
      ∀ ix ∈ newIndexes, minInt64 ≤ ix ∧ ix ≤ maxInt64) :
    Canonical (withOrderedIndexes oi newIndexes) ∧
      indexes (withOrderedIndexes oi newIndexes) = indexes oi ∪ newIndexes.toFinset := by
  have hinv : LoopInv oi newIndexes [] := ⟨Canonical.nil, by simp⟩
  obtain ⟨hc, heq⟩ := withOrderedIndexes.loop_spec oi newIndexes [] hoi hnew hrange hinv
  refine ⟨hc, ?_⟩
  rw [withOrderedIndexes, indexes_reverse, heq, indexes_nil, Finset.empty_union]

/-! ## `total` -/

/-- `total`: the sum of the lengths `Last - First + 1`, in `int64`. -/
def total (oi : OrderedIntervals) : Int :=
  oi.foldl (fun count iv => wrap64 (count + (iv.last - iv.first + 1))) 0
attribute [grind] total

theorem Interval.card_indexes {iv : Interval} (h : iv.first ≤ iv.last) :
    (iv.indexes.card : Int) = iv.last - iv.first + 1 := by
  rw [Interval.indexes, Int.card_Icc]
  omega

/-- The indexes of intervals between `0` and `MaxInt64` are at most `MaxInt64` many. -/
theorem card_indexes_le {oi : OrderedIntervals}
    (hrange : ∀ iv ∈ oi, 0 ≤ iv.first ∧ iv.last < maxInt64) :
    ((indexes oi).card : Int) ≤ maxInt64 := by
  have hsub : indexes oi ⊆ Finset.Ico 0 maxInt64 := by
    intro ix hix
    obtain ⟨iv, hiv, hfirst, hlast⟩ := mem_indexes.mp hix
    have := hrange iv hiv
    exact Finset.mem_Ico.mpr ⟨by omega, by omega⟩
  have hcard := Finset.card_le_card hsub
  rw [Int.card_Ico] at hcard
  unfold maxInt64 at *
  omega

/-- The running count of `total`, started at `count`, while it stays in the `int64` range. -/
theorem total_foldl {oi : OrderedIntervals} (hoi : Canonical oi) {count : Int} (hpos : 0 ≤ count)
    (hfits : count + (indexes oi).card ≤ maxInt64) :
    oi.foldl (fun count iv => wrap64 (count + (iv.last - iv.first + 1))) count =
      count + (indexes oi).card := by
  induction oi generalizing count with
  | nil => simp
  | cons iv oi ih =>
      obtain ⟨hiv, -, hoi'⟩ := canonical_cons.mp hoi
      have hcard := hoi.card_indexes_cons
      have hlen := Interval.card_indexes hiv
      -- the sum after `iv` is still an `int64`
      have hstep : wrap64 (count + (iv.last - iv.first + 1)) = count + (iv.last - iv.first + 1) :=
        wrap64_of_mem (by unfold minInt64; omega) (by omega)
      rw [List.foldl_cons, hstep, ih hoi' (by omega) (by omega)]
      omega

/-- `total` counts the indexes of canonical intervals between `0` and `MaxInt64`. -/
theorem total_eq_card {oi : OrderedIntervals} (hoi : Canonical oi)
    (hrange : ∀ iv ∈ oi, 0 ≤ iv.first ∧ iv.last < maxInt64) :
    total oi = (indexes oi).card := by
  have := total_foldl hoi le_rfl (by simpa using card_indexes_le hrange)
  rw [total, this, zero_add]

/-! ## `has` -/

/-- `has`: binary search for the first interval whose `Last` is at least `ix`, then whether
it starts at or before `ix`. -/
def has (oi : OrderedIntervals) (ix : Int) : Bool :=
  let hi := loop 0 oi.length
  if hi = oi.length then false else decide (oi[hi]!.first ≤ ix)
where
  /-- The search loop on `[lo, hi)`: every interval before `lo` ends before `ix`, every
  interval from `hi` on ends at or after it. -/
  loop (lo hi : Nat) : Nat :=
    if hi > lo then
      let mid := lo + (hi - lo) / 2
      if oi[mid]!.last ≥ ix then loop lo mid else loop (mid + 1) hi
    else hi
  termination_by hi - lo

/-- The invariant of the search: the intervals before `lo` end before `ix`, those from `hi`
on end at or after it. -/
def SearchInv (oi : OrderedIntervals) (ix : Int) (lo hi : Nat) : Prop :=
  lo ≤ hi ∧ hi ≤ oi.length ∧ (∀ k (hk : k < oi.length), k < lo → oi[k].last < ix) ∧
    ∀ k (hk : k < oi.length), hi ≤ k → ix ≤ oi[k].last
attribute [grind] SearchInv

/-- The search ends at the first interval that ends at or after `ix`. -/
theorem has.loop_spec {oi : OrderedIntervals} {ix : Int} (hoi : Canonical oi) (lo hi : Nat)
    (hinv : SearchInv oi ix lo hi) :
    SearchInv oi ix (loop oi ix lo hi) (loop oi ix lo hi) := by
  fun_induction loop oi ix lo hi with
  | case1 lo hi hlt mid hmid ih =>
      -- `oi[mid].Last >= ix`: the answer is at or before `mid`
      obtain ⟨hlohi, hhi, hbelow, habove⟩ := hinv
      have hmidlt : mid < oi.length := by omega
      rw [getElem!_pos oi mid hmidlt] at hmid
      refine ih ⟨by omega, by omega, hbelow, fun k hk hmk => ?_⟩
      rcases Nat.lt_or_eq_of_le hmk with hlt' | rfl
      · exact le_trans hmid (hoi.last_lt hlt' hk).le
      · exact hmid
  | case2 lo hi hlt mid hmid ih =>
      -- `oi[mid].Last < ix`: the answer is after `mid`
      obtain ⟨hlohi, hhi, hbelow, habove⟩ := hinv
      have hmidlt : mid < oi.length := by omega
      rw [getElem!_pos oi mid hmidlt] at hmid
      refine ih ⟨by omega, hhi, fun k hk hkm => ?_, habove⟩
      rcases Nat.lt_or_eq_of_le (Nat.le_of_lt_succ hkm) with hlt' | rfl
      · exact lt_trans (hoi.last_lt hlt' hmidlt) (lt_of_not_ge hmid)
      · exact lt_of_not_ge hmid
  | case3 lo hi hle =>
      obtain ⟨hlohi, hhi, hbelow, habove⟩ := hinv
      have : lo = hi := by omega
      subst this
      exact ⟨le_rfl, hhi, hbelow, habove⟩

/-- `has` is membership in canonical intervals. -/
theorem has_iff {oi : OrderedIntervals} (hoi : Canonical oi) (ix : Int) :
    has oi ix = true ↔ ix ∈ indexes oi := by
  obtain ⟨-, hhi, hbelow, habove⟩ :=
    has.loop_spec hoi 0 oi.length
      ⟨Nat.zero_le _, le_rfl, fun _ _ h => absurd h (by omega), fun _ hk h => absurd hk (by omega)⟩
  set r := has.loop oi ix 0 oi.length with hr
  rw [has, mem_indexes]
  simp only [← hr]
  split_ifs with hend
  · -- every interval ends before `ix`
    simp only [false_iff, not_exists, not_and]
    intro iv hiv hfirst hlast
    obtain ⟨k, hk, rfl⟩ := List.getElem_of_mem hiv
    have := hbelow k hk (by omega)
    omega
  · have hrlt : r < oi.length := by omega
    rw [getElem!_pos oi r hrlt, decide_eq_true_iff]
    constructor
    · intro hfirst
      exact ⟨oi[r], List.getElem_mem hrlt, hfirst, habove r hrlt le_rfl⟩
    · -- an interval holding `ix` is the `r`-th: the ones before end too early, the ones
      -- after start too late
      rintro ⟨iv, hiv, hfirst, hlast⟩
      obtain ⟨k, hk, rfl⟩ := List.getElem_of_mem hiv
      rcases lt_trichotomy k r with hkr | rfl | hrk
      · have := hbelow k hk hkr
        omega
      · exact hfirst
      · have hpair := List.pairwise_iff_getElem.mp hoi.2 r k hrlt hk hrk
        have := habove r hrlt le_rfl
        omega

end OrderedIntervals

end Job
end Kubernetes
