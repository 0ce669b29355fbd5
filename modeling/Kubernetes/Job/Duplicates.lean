import Mathlib
import Kubernetes.Job.CompletedIndexes
import Kubernetes.Controller.ActivePods
import Kubernetes.Go.Sort

/-!
# Indexed Jobs: removing the pods of a repeated index

`appendDuplicatedIndexPodsForRemoval` splits the active pods of an Indexed Job into those to
delete, appended to `rm`, and those to keep, appended to `left`
(`pkg/controller/job/indexed_job_utils.go`).  It sorts the pods by completion index, so that
those without a valid index (`unknownCompletionIndex`, `-1`) come first, and scans them in
groups of one index: the group without an index goes to `rm`, a group of one pod to `left`, and
of a larger group, sorted by `controller.ActivePods`, all pods but the last go to `rm`.  The
scan stops at the first index from `completions` on and sends the rest to `rm`.

For any pods and any `completions` the call returns, the pods it appends are the input pods,
each once; `left` gains one pod for each valid index below `completions` that a pod carries,
and `rm` all the others (`appendDuplicatedIndexPodsForRemoval_partition`).  The proof carries
the invariant `Scanned` of the loop, the pods before the current group being split so.
-/

namespace Kubernetes
namespace Job

open Go Kubernetes.Core

/-- `byCompletionIndex.Less`. -/
def byCompletionIndex (p q : Core.Pod) : Bool :=
  decide (getCompletionIndex p.annotations < getCompletionIndex q.annotations)
attribute [grind] byCompletionIndex

/-- `appendPodsWithSameIndexForRemovalAndRemaining`: the pods of index `ix` go to `rm` but the
one that `controller.ActivePods` puts last, which goes to `left`; all of them go to `rm` when
the index is unknown.  Slicing an empty group of a known index panics. -/
def appendPodsWithSameIndexForRemovalAndRemaining (rm left pods : List Core.Pod) (ix : Int) :
    Except String (List Core.Pod × List Core.Pod) :=
  if ix = unknownCompletionIndex then pure (rm ++ pods, left)
  else if pods.length = 1 then pure (rm, left ++ pods.take 1)
  else
    let pods := Go.sort pods Controller.ActivePods.less
    if pods.length = 0 then throw "runtime error: slice bounds out of range [:-1]"
    else pure (rm ++ pods.take (pods.length - 1), left ++ pods.drop (pods.length - 1))
attribute [grind] appendPodsWithSameIndexForRemovalAndRemaining

/-- The variables of the loop of `appendDuplicatedIndexPodsForRemoval`. -/
structure DuplicateScan where
  rm : List Core.Pod
  left : List Core.Pod
  lastIndex : Int
  firstRepeatPos : Nat
  countLooped : Nat

/-- `appendDuplicatedIndexPodsForRemoval`: the pods to delete appended to `rm`, those to keep
to `left`. -/
def appendDuplicatedIndexPodsForRemoval (rm left pods : List Core.Pod) (completions : Int) :
    Except String (List Core.Pod × List Core.Pod) := do
  let pods := Go.sort pods byCompletionIndex
  let s ← loop pods completions 0 pods ⟨rm, left, unknownCompletionIndex, 0, 0⟩
  appendPodsWithSameIndexForRemovalAndRemaining s.rm s.left
    ((pods.take s.countLooped).drop s.firstRepeatPos) s.lastIndex
where
  /-- The loop over the sorted `pods` from position `i` on, `rest` being what is left of them:
  a group ends where the index changes, and the loop breaks at the first index from
  `completions` on. -/
  loop (pods : List Core.Pod) (completions : Int) :
      Nat → List Core.Pod → DuplicateScan → Except String DuplicateScan
    | _, [], s => pure s
    | i, p :: rest, s =>
        let ix := getCompletionIndex p.annotations
        if ix ≥ completions then pure { s with rm := s.rm ++ pods.drop i }
        else if ix ≠ s.lastIndex then do
          let (rm, left) ← appendPodsWithSameIndexForRemovalAndRemaining s.rm s.left
            ((pods.take i).drop s.firstRepeatPos) s.lastIndex
          loop pods completions (i + 1) rest ⟨rm, left, ix, i, s.countLooped + 1⟩
        else loop pods completions (i + 1) rest { s with countLooped := s.countLooped + 1 }

/-! ## One pod per index -/

/-- `left` holds one pod for each valid completion index below `completions` that a pod of
`pods` carries, and none of another index. -/
structure OnePerIndex (completions : Int) (pods left : List Core.Pod) : Prop where
  nodup : (left.map fun p => getCompletionIndex p.annotations).Nodup
  mem_iff : ∀ ix, ix ∈ left.map (fun p => getCompletionIndex p.annotations) ↔
    0 ≤ ix ∧ ix < completions ∧ ∃ p ∈ pods, getCompletionIndex p.annotations = ix

theorem unknownCompletionIndex_le (annotations : List (String × String)) :
    unknownCompletionIndex ≤ getCompletionIndex annotations := by
  by_cases h : getCompletionIndex annotations = unknownCompletionIndex
  · rw [h]
  · have := getCompletionIndex_nonneg h
    unfold unknownCompletionIndex
    omega

/-- Nothing is kept of pods none of which has a valid index below `completions`. -/
theorem onePerIndex_nil {completions : Int} {pods : List Core.Pod}
    (h : ∀ p ∈ pods, getCompletionIndex p.annotations < 0 ∨
      completions ≤ getCompletionIndex p.annotations) :
    OnePerIndex completions pods [] where
  nodup := List.nodup_nil
  mem_iff ix := by
    simp only [List.map_nil, List.not_mem_nil, false_iff, not_and, not_exists]
    intro hix hlt p hp hpix
    rcases h p hp with hneg | hge <;> omega

/-- One pod kept of a group of one valid index below `completions`. -/
theorem onePerIndex_singleton {completions ix : Int} {group : List Core.Pod} {q : Core.Pod}
    (hgroup : ∀ p ∈ group, getCompletionIndex p.annotations = ix) (hq : q ∈ group)
    (hix : ix ≠ unknownCompletionIndex) (hlt : ix < completions) :
    OnePerIndex completions group [q] where
  nodup := List.nodup_singleton _
  mem_iff x := by
    have hq' := hgroup q hq
    have hnonneg : 0 ≤ ix := hq' ▸ getCompletionIndex_nonneg (hq' ▸ hix)
    simp only [List.map_cons, List.map_nil, List.mem_singleton, hq']
    constructor
    · rintro rfl
      exact ⟨hnonneg, hlt, q, hq, hq'⟩
    · rintro ⟨-, -, p, hp, rfl⟩
      exact hgroup p hp

/-- What is kept of two runs of pods, the indexes of the first below those of the second. -/
theorem OnePerIndex.append {completions : Int} {pods pods' left left' : List Core.Pod}
    (h : OnePerIndex completions pods left) (h' : OnePerIndex completions pods' left')
    (hlt : ∀ p ∈ pods, ∀ q ∈ pods',
      getCompletionIndex p.annotations < getCompletionIndex q.annotations) :
    OnePerIndex completions (pods ++ pods') (left ++ left') where
  nodup := by
    rw [List.map_append, List.nodup_append]
    refine ⟨h.nodup, h'.nodup, ?_⟩
    -- a kept index of the first run is the index of one of its pods, below the second's
    intro x hx y hy hxy
    obtain ⟨-, -, p, hp, rfl⟩ := (h.mem_iff x).mp hx
    obtain ⟨-, -, q, hq, rfl⟩ := (h'.mem_iff y).mp hy
    exact absurd hxy (ne_of_lt (hlt p hp q hq))
  mem_iff ix := by
    simp only [List.map_append, List.mem_append, h.mem_iff, h'.mem_iff, or_and_right, exists_or,
      and_or_left]

theorem OnePerIndex.perm {completions : Int} {pods pods' left : List Core.Pod}
    (h : OnePerIndex completions pods left) (hperm : pods.Perm pods') :
    OnePerIndex completions pods' left where
  nodup := h.nodup
  mem_iff ix := by
    simp only [h.mem_iff, hperm.mem_iff]

/-- Of the pods split between `rmAdded` and `leftAdded`, `rmAdded` has all of each index but
the one pod kept. -/
theorem OnePerIndex.countP_removed {completions : Int} {pods rmAdded leftAdded : List Core.Pod}
    (h : OnePerIndex completions pods leftAdded) (hperm : (rmAdded ++ leftAdded).Perm pods)
    (ix : Int) :
    rmAdded.countP (fun p => getCompletionIndex p.annotations = ix) +
        (if 0 ≤ ix ∧ ix < completions ∧ ∃ p ∈ pods, getCompletionIndex p.annotations = ix
          then 1 else 0) =
      pods.countP (fun p => getCompletionIndex p.annotations = ix) := by
  -- the kept pods of index `ix` are counted by the occurrences of `ix` among their indexes
  have hkept : leftAdded.countP (fun p => getCompletionIndex p.annotations = ix) =
      (leftAdded.map fun p => getCompletionIndex p.annotations).count ix := by
    rw [List.count, List.countP_map]
    rfl
  rw [← hperm.countP_eq, List.countP_append, hkept]
  by_cases hmem : ix ∈ leftAdded.map fun p => getCompletionIndex p.annotations
  · rw [if_pos ((h.mem_iff ix).mp hmem), List.count_eq_one_of_mem h.nodup hmem]
  · rw [if_neg (mt (h.mem_iff ix).mpr hmem), List.count_eq_zero_of_not_mem hmem]

/-! ## `appendPodsWithSameIndexForRemovalAndRemaining` -/

/-- A group of a known index that is not empty keeps one of its pods. -/
theorem appendPodsWithSameIndexForRemovalAndRemaining_known (rm left : List Core.Pod)
    {group : List Core.Pod} {ix : Int} (hix : ix ≠ unknownCompletionIndex) (hne : group ≠ []) :
    ∃ rmAdded kept, appendPodsWithSameIndexForRemovalAndRemaining rm left group ix =
        .ok (rm ++ rmAdded, left ++ [kept]) ∧ (rmAdded ++ [kept]).Perm group := by
  simp only [appendPodsWithSameIndexForRemovalAndRemaining, if_neg hix]
  split_ifs with hone hzero
  · obtain ⟨q, rfl⟩ := List.length_eq_one_iff.mp hone
    exact ⟨[], q, by simp [pure, Except.pure], List.Perm.refl _⟩
  · have := (sliceStable_perm group Controller.ActivePods.less).length_eq
    simp only [Go.sort, this, List.length_eq_zero_iff] at hzero
    exact absurd hzero hne
  · -- the sorted group, but for its last pod, then that pod
    set sorted := Go.sort group Controller.ActivePods.less with hsorted
    have hlen : (sorted.drop (sorted.length - 1)).length = 1 := by
      rw [List.length_drop]
      omega
    obtain ⟨kept, hkept⟩ := List.length_eq_one_iff.mp hlen
    refine ⟨sorted.take (sorted.length - 1), kept, ?_, ?_⟩
    · rw [hkept]
      rfl
    · rw [← hkept, List.take_append_drop]
      exact sliceStable_perm group _

/-- A group of one index below `completions`, not empty unless the index is unknown, is split
between `rm` and `left`, one pod kept if the index is valid. -/
theorem appendPodsWithSameIndexForRemovalAndRemaining_spec (rm left : List Core.Pod)
    {group : List Core.Pod} {ix completions : Int}
    (hgroup : ∀ p ∈ group, getCompletionIndex p.annotations = ix)
    (hne : ix ≠ unknownCompletionIndex → group ≠ []) (hlt : ix ≠ unknownCompletionIndex →
      ix < completions) :
    ∃ rmAdded leftAdded, appendPodsWithSameIndexForRemovalAndRemaining rm left group ix =
        .ok (rm ++ rmAdded, left ++ leftAdded) ∧ (rmAdded ++ leftAdded).Perm group ∧
      OnePerIndex completions group leftAdded := by
  by_cases hix : ix = unknownCompletionIndex
  · -- no index: every pod to `rm`
    refine ⟨group, [], ?_, by simp, onePerIndex_nil fun p hp => .inl ?_⟩
    · simp [appendPodsWithSameIndexForRemovalAndRemaining, hix, pure, Except.pure]
    · rw [hgroup p hp, hix]
      decide
  · obtain ⟨rmAdded, kept, heq, hperm⟩ :=
      appendPodsWithSameIndexForRemovalAndRemaining_known rm left hix (hne hix)
    have hmem : kept ∈ group := hperm.subset (by simp)
    exact ⟨rmAdded, [kept], heq, hperm, onePerIndex_singleton hgroup hmem hix (hlt hix)⟩

/-! ## The scan -/

/-- A pod before position `i` of pods sorted by index has no larger index than one from `i`
on. -/
theorem index_le_of_mem_take_drop {pods : List Core.Pod}
    (hsorted : pods.Pairwise fun p q =>
      getCompletionIndex p.annotations ≤ getCompletionIndex q.annotations)
    {i : Nat} {p q : Core.Pod} (hp : p ∈ pods.take i) (hq : q ∈ pods.drop i) :
    getCompletionIndex p.annotations ≤ getCompletionIndex q.annotations := by
  rw [← List.take_append_drop i pods, List.pairwise_append] at hsorted
  exact hsorted.2.2 p hp q hq

theorem take_add_one_of_drop_eq_cons {pods rest : List Core.Pod} {i : Nat} {p : Core.Pod}
    (h : pods.drop i = p :: rest) : pods.take (i + 1) = pods.take i ++ [p] := by
  have hget : pods[i]? = some p := by
    have : (pods.drop i)[0]? = some p := by rw [h]; rfl
    simpa using this
  rw [List.take_add_one, hget]
  rfl

theorem drop_add_one_of_drop_eq_cons {pods rest : List Core.Pod} {i : Nat} {p : Core.Pod}
    (h : pods.drop i = p :: rest) : pods.drop (i + 1) = rest := by
  rw [← List.drop_drop, h]
  rfl

theorem lt_length_of_drop_eq_cons {pods rest : List Core.Pod} {i : Nat} {p : Core.Pod}
    (h : pods.drop i = p :: rest) : i < pods.length := by
  have := congrArg List.length h
  rw [List.length_drop, List.length_cons] at this
  omega

/-- The pods of the current group, `pods[j:i]`, gain the next pod. -/
theorem drop_take_add_one_of_drop_eq_cons {pods rest : List Core.Pod} {i j : Nat}
    {p : Core.Pod} (h : pods.drop i = p :: rest) (hj : j ≤ i) :
    (pods.take (i + 1)).drop j = (pods.take i).drop j ++ [p] := by
  have hi := lt_length_of_drop_eq_cons h
  rw [take_add_one_of_drop_eq_cons h, List.drop_append_of_le_length (by simp; omega)]

/-- The invariant of the loop of `appendDuplicatedIndexPodsForRemoval` over the sorted `pods`
after `countLooped` of them.  The current group, `pods[firstRepeatPos:countLooped]`, carries
`lastIndex` and is empty only if that is unknown; the pods before it have smaller indexes and
are split into `rmAdded` and `leftAdded`, one pod kept for each valid index; and no index so far
reaches `completions`. -/
structure Scanned (completions : Int) (pods rmAdded leftAdded : List Core.Pod)
    (s : DuplicateScan) : Prop where
  repeat_le : s.firstRepeatPos ≤ s.countLooped
  group : ∀ p ∈ (pods.take s.countLooped).drop s.firstRepeatPos,
    getCompletionIndex p.annotations = s.lastIndex
  group_ne : s.lastIndex ≠ unknownCompletionIndex →
    (pods.take s.countLooped).drop s.firstRepeatPos ≠ []
  before : ∀ p ∈ pods.take s.firstRepeatPos, getCompletionIndex p.annotations < s.lastIndex
  below : ∀ p ∈ pods.take s.countLooped, getCompletionIndex p.annotations < completions
  perm : (rmAdded ++ leftAdded).Perm (pods.take s.firstRepeatPos)
  kept : OnePerIndex completions (pods.take s.firstRepeatPos) leftAdded

theorem scanned_init (completions : Int) (pods rm left : List Core.Pod) :
    Scanned completions pods [] [] ⟨rm, left, unknownCompletionIndex, 0, 0⟩ where
  repeat_le := le_rfl
  group := by simp
  group_ne h := absurd rfl h
  before := by simp
  below := by simp
  perm := by simp
  kept := onePerIndex_nil (by simp)

section Scanned

variable {completions : Int} {pods rmAdded leftAdded rest : List Core.Pod} {s : DuplicateScan}
  {p : Core.Pod}

theorem Scanned.take_append_group (hscan : Scanned completions pods rmAdded leftAdded s) :
    pods.take s.firstRepeatPos ++ (pods.take s.countLooped).drop s.firstRepeatPos =
      pods.take s.countLooped := by
  conv_rhs => rw [← List.take_append_drop s.firstRepeatPos (pods.take s.countLooped)]
  rw [List.take_take, min_eq_left hscan.repeat_le]

/-- The invariant does not read `rm`, to which the loop appends the pods it breaks at. -/
theorem Scanned.appendRm (hscan : Scanned completions pods rmAdded leftAdded s)
    (more : List Core.Pod) :
    Scanned completions pods rmAdded leftAdded { s with rm := s.rm ++ more } :=
  ⟨hscan.repeat_le, hscan.group, hscan.group_ne, hscan.before, hscan.below, hscan.perm,
    hscan.kept⟩

/-- A known `lastIndex` is the index of a pod already scanned, so it is below `completions`. -/
theorem Scanned.lastIndex_lt (hscan : Scanned completions pods rmAdded leftAdded s)
    (hknown : s.lastIndex ≠ unknownCompletionIndex) : s.lastIndex < completions := by
  obtain ⟨q, hq⟩ := List.exists_mem_of_ne_nil _ (hscan.group_ne hknown)
  rw [← hscan.group q hq]
  exact hscan.below q (List.mem_of_mem_drop hq)

/-- The next pod of the sorted list has an index no smaller than `lastIndex`. -/
theorem Scanned.lastIndex_le (hsorted : pods.Pairwise fun p q =>
      getCompletionIndex p.annotations ≤ getCompletionIndex q.annotations)
    (hscan : Scanned completions pods rmAdded leftAdded s)
    (hdrop : pods.drop s.countLooped = p :: rest) :
    s.lastIndex ≤ getCompletionIndex p.annotations := by
  by_cases hknown : s.lastIndex = unknownCompletionIndex
  · rw [hknown]
    exact unknownCompletionIndex_le _
  · obtain ⟨q, hq⟩ := List.exists_mem_of_ne_nil _ (hscan.group_ne hknown)
    rw [← hscan.group q hq]
    exact index_le_of_mem_take_drop hsorted (List.mem_of_mem_drop hq) (hdrop ▸ by simp)

/-- A pod of the current group's index, below `completions`, joins the group. -/
theorem Scanned.same (hscan : Scanned completions pods rmAdded leftAdded s)
    (hdrop : pods.drop s.countLooped = p :: rest)
    (hix : getCompletionIndex p.annotations = s.lastIndex)
    (hlt : getCompletionIndex p.annotations < completions) :
    Scanned completions pods rmAdded leftAdded { s with countLooped := s.countLooped + 1 } where
  repeat_le := Nat.le_succ_of_le hscan.repeat_le
  group q hq := by
    rw [drop_take_add_one_of_drop_eq_cons hdrop hscan.repeat_le, List.mem_append,
      List.mem_singleton] at hq
    rcases hq with hq | rfl
    · exact hscan.group q hq
    · exact hix
  group_ne _ := by
    simp [drop_take_add_one_of_drop_eq_cons hdrop hscan.repeat_le]
  before := hscan.before
  below q hq := by
    rw [take_add_one_of_drop_eq_cons hdrop, List.mem_append, List.mem_singleton] at hq
    rcases hq with hq | rfl
    · exact hscan.below q hq
    · exact hlt
  perm := hscan.perm
  kept := hscan.kept

/-- Closing the current group, split into `rmGroup` and `leftGroup`, splits every pod
scanned so far. -/
theorem Scanned.close (hscan : Scanned completions pods rmAdded leftAdded s)
    {rmGroup leftGroup : List Core.Pod}
    (hperm : (rmGroup ++ leftGroup).Perm ((pods.take s.countLooped).drop s.firstRepeatPos))
    (hkept : OnePerIndex completions ((pods.take s.countLooped).drop s.firstRepeatPos)
      leftGroup) :
    (rmAdded ++ leftAdded ++ (rmGroup ++ leftGroup)).Perm (pods.take s.countLooped) ∧
      OnePerIndex completions (pods.take s.countLooped) (leftAdded ++ leftGroup) := by
  rw [← hscan.take_append_group]
  exact ⟨hscan.perm.append hperm,
    hscan.kept.append hkept fun q hq r hr => hscan.group r hr ▸ hscan.before q hq⟩

/-- A pod of another index, below `completions`, closes the current group, split by
`appendPodsWithSameIndexForRemovalAndRemaining`, and opens the next. -/
theorem Scanned.next (hsorted : pods.Pairwise fun p q =>
      getCompletionIndex p.annotations ≤ getCompletionIndex q.annotations)
    (hscan : Scanned completions pods rmAdded leftAdded s)
    (hdrop : pods.drop s.countLooped = p :: rest)
    (hix : getCompletionIndex p.annotations ≠ s.lastIndex)
    (hlt : getCompletionIndex p.annotations < completions)
    {rm left rmGroup leftGroup : List Core.Pod}
    (hperm : (rmGroup ++ leftGroup).Perm ((pods.take s.countLooped).drop s.firstRepeatPos))
    (hkept : OnePerIndex completions ((pods.take s.countLooped).drop s.firstRepeatPos)
      leftGroup) :
    Scanned completions pods (rmAdded ++ rmGroup) (leftAdded ++ leftGroup)
      ⟨rm, left, getCompletionIndex p.annotations, s.countLooped, s.countLooped + 1⟩ := by
  have hp : p ∈ pods.drop s.countLooped := hdrop ▸ List.mem_cons_self
  have htake := take_add_one_of_drop_eq_cons hdrop
  -- the new group is the one pod `p`
  have hnew : (pods.take (s.countLooped + 1)).drop s.countLooped = [p] := by
    rw [htake, List.drop_left' (List.length_take_of_le (lt_length_of_drop_eq_cons hdrop).le)]
  refine ⟨Nat.le_succ _, ?group, ?group_ne, ?before, ?below, ?perm, ?kept⟩ <;> dsimp only
  case group =>
    intro q hq
    rw [hnew, List.mem_singleton] at hq
    rw [hq]
  case group_ne =>
    intro _
    rw [hnew]
    exact List.cons_ne_nil _ _
  case before =>
    -- an earlier group has an index below `lastIndex`; the current group has that index
    intro q hq
    have hle := index_le_of_mem_take_drop hsorted hq hp
    rw [← hscan.take_append_group, List.mem_append] at hq
    rcases hq with hq | hq
    · exact lt_of_lt_of_le (hscan.before q hq) (hscan.lastIndex_le hsorted hdrop)
    · exact lt_of_le_of_ne hle (hscan.group q hq ▸ Ne.symm hix)
  case below =>
    intro q hq
    rw [htake, List.mem_append, List.mem_singleton] at hq
    rcases hq with hq | rfl
    · exact hscan.below q hq
    · exact hlt
  case perm =>
    have hswap : (rmAdded ++ rmGroup ++ (leftAdded ++ leftGroup)).Perm
        (rmAdded ++ leftAdded ++ (rmGroup ++ leftGroup)) := by
      rw [List.perm_iff_count]
      intro a
      simp only [List.count_append]
      omega
    exact hswap.trans (hscan.close hperm hkept).1
  case kept => exact (hscan.close hperm hkept).2

/-- Where the loop stops, the last group split and the pods from there on put to `rm` make a
split of all the pods. -/
theorem Scanned.finish (hscan : Scanned completions pods rmAdded leftAdded s)
    (hpast : ∀ q ∈ pods.drop s.countLooped, completions ≤ getCompletionIndex q.annotations)
    {rmGroup leftGroup : List Core.Pod}
    (hperm : (rmGroup ++ leftGroup).Perm ((pods.take s.countLooped).drop s.firstRepeatPos))
    (hkept : OnePerIndex completions ((pods.take s.countLooped).drop s.firstRepeatPos)
      leftGroup) :
    (rmAdded ++ pods.drop s.countLooped ++ rmGroup ++ (leftAdded ++ leftGroup)).Perm pods ∧
      OnePerIndex completions pods (leftAdded ++ leftGroup) := by
  obtain ⟨hpermScanned, hkeptScanned⟩ := hscan.close hperm hkept
  have hswap : (rmAdded ++ pods.drop s.countLooped ++ rmGroup ++ (leftAdded ++ leftGroup)).Perm
      (rmAdded ++ leftAdded ++ (rmGroup ++ leftGroup) ++ pods.drop s.countLooped) := by
    rw [List.perm_iff_count]
    intro a
    simp only [List.count_append]
    omega
  constructor
  · exact (hswap.trans (hpermScanned.append (List.Perm.refl _))).trans
      (List.Perm.of_eq (List.take_append_drop _ _))
  · -- the pods from where the loop stopped keep none, their indexes reach `completions`
    have hrest := hkeptScanned.append (onePerIndex_nil fun q hq => .inr (hpast q hq))
      fun q hq r hr => lt_of_lt_of_le (hscan.below q hq) (hpast r hr)
    rwa [List.take_append_drop, List.append_nil] at hrest

end Scanned

/-- The loop returns, holding the invariant where it stops: at the end of the pods, or at the
first index from `completions` on, whose pods it has appended to `rm`. -/
theorem appendDuplicatedIndexPodsForRemoval.loop_spec {completions : Int}
    {pods : List Core.Pod} (hsorted : pods.Pairwise fun p q =>
      getCompletionIndex p.annotations ≤ getCompletionIndex q.annotations)
    (rm left : List Core.Pod) :
    ∀ (rest : List Core.Pod) (i : Nat) (s : DuplicateScan) (rmAdded leftAdded : List Core.Pod),
      s.countLooped = i → pods.drop i = rest → Scanned completions pods rmAdded leftAdded s →
      s.rm = rm ++ rmAdded → s.left = left ++ leftAdded →
      ∃ s' rmAdded' leftAdded', loop pods completions i rest s = .ok s' ∧
        Scanned completions pods rmAdded' leftAdded' s' ∧
        s'.rm = rm ++ rmAdded' ++ pods.drop s'.countLooped ∧ s'.left = left ++ leftAdded' ∧
        ∀ q ∈ pods.drop s'.countLooped, completions ≤ getCompletionIndex q.annotations := by
  intro rest
  induction rest with
  | nil =>
      intro i s rmAdded leftAdded hi hdrop hscan hrm hleft
      refine ⟨s, rmAdded, leftAdded, rfl, hscan, ?_, hleft, ?_⟩ <;> simp [hi, hdrop, hrm]
  | cons p rest ih =>
      intro i s rmAdded leftAdded hi hdrop hscan hrm hleft
      subst hi
      by_cases hge : getCompletionIndex p.annotations ≥ completions
      · -- the loop breaks: the pods from here on go to `rm`, all of an index from `completions`
        refine ⟨{ s with rm := s.rm ++ pods.drop s.countLooped }, rmAdded, leftAdded,
          by simp [loop, hge, pure, Except.pure], hscan.appendRm _, by simp [hrm], hleft, ?_⟩
        have hrest := hsorted.sublist (List.drop_sublist s.countLooped pods)
        rw [hdrop, List.pairwise_cons] at hrest
        intro q hq
        rw [hdrop, List.mem_cons] at hq
        rcases hq with rfl | hq
        · exact hge
        · exact le_trans hge (hrest.1 q hq)
      have hlt : getCompletionIndex p.annotations < completions := lt_of_not_ge hge
      have hnext := drop_add_one_of_drop_eq_cons hdrop
      by_cases hix : getCompletionIndex p.annotations = s.lastIndex
      · -- the same index: the group grows
        obtain ⟨s', rmAdded', leftAdded', hloop, hpost⟩ := ih (s.countLooped + 1)
          { s with countLooped := s.countLooped + 1 } rmAdded leftAdded rfl hnext
          (hscan.same hdrop hix hlt) hrm hleft
        refine ⟨s', rmAdded', leftAdded', ?_, hpost⟩
        rw [loop, if_neg hge, if_neg (not_not.mpr hix)]
        exact hloop
      · -- another index: the group is split, and the next one starts at `p`
        obtain ⟨rmGroup, leftGroup, hsplit, hperm, hkept⟩ :=
          appendPodsWithSameIndexForRemovalAndRemaining_spec s.rm s.left hscan.group
            hscan.group_ne hscan.lastIndex_lt
        obtain ⟨s', rmAdded', leftAdded', hloop, hpost⟩ := ih (s.countLooped + 1)
          ⟨s.rm ++ rmGroup, s.left ++ leftGroup, getCompletionIndex p.annotations,
            s.countLooped, s.countLooped + 1⟩ (rmAdded ++ rmGroup) (leftAdded ++ leftGroup) rfl
          hnext (hscan.next hsorted hdrop hix hlt hperm hkept) (by simp [hrm])
          (by simp [hleft])
        refine ⟨s', rmAdded', leftAdded', ?_, hpost⟩
        rw [loop, if_neg hge, if_pos hix, hsplit]
        exact hloop

/-! ## Every pod once, one kept per index -/

/-- `appendDuplicatedIndexPodsForRemoval` returns for any pods and any `completions`, and
appends to `rm` and `left` the input pods, each once: one pod kept for each valid index below
`completions` that a pod carries, and of each index all other pods removed. -/
theorem appendDuplicatedIndexPodsForRemoval_partition (rm left pods : List Core.Pod)
    (completions : Int) :
    ∃ rmAdded leftAdded,
      appendDuplicatedIndexPodsForRemoval rm left pods completions =
        .ok (rm ++ rmAdded, left ++ leftAdded) ∧
      (rmAdded ++ leftAdded).Perm pods ∧ OnePerIndex completions pods leftAdded ∧
      ∀ ix, rmAdded.countP (fun p => getCompletionIndex p.annotations = ix) +
          (if 0 ≤ ix ∧ ix < completions ∧ ∃ p ∈ pods, getCompletionIndex p.annotations = ix
            then 1 else 0) =
        pods.countP (fun p => getCompletionIndex p.annotations = ix) := by
  set sorted := Go.sort pods byCompletionIndex with hsorted_def
  have hsortedPerm : sorted.Perm pods := sliceStable_perm pods _
  have hsorted : sorted.Pairwise fun p q =>
      getCompletionIndex p.annotations ≤ getCompletionIndex q.annotations :=
    sort_pairwise_le_key (fun p : Core.Pod => getCompletionIndex p.annotations) pods
  obtain ⟨s, rmAdded, leftAdded, hloop, hscan, hrm, hleft, hpast⟩ :=
    appendDuplicatedIndexPodsForRemoval.loop_spec hsorted rm left sorted 0 _ [] [] rfl
      List.drop_zero (scanned_init completions sorted rm left) (by simp) (by simp)
  -- the last group, split after the loop
  obtain ⟨rmGroup, leftGroup, hsplit, hperm, hkept⟩ :=
    appendPodsWithSameIndexForRemovalAndRemaining_spec s.rm s.left hscan.group hscan.group_ne
      hscan.lastIndex_lt
  obtain ⟨hall, hone⟩ := hscan.finish hpast hperm hkept
  have hall' := hall.trans hsortedPerm
  have hone' := hone.perm hsortedPerm
  refine ⟨rmAdded ++ sorted.drop s.countLooped ++ rmGroup, leftAdded ++ leftGroup, ?_, hall',
    hone', hone'.countP_removed hall'⟩
  simp only [appendDuplicatedIndexPodsForRemoval, ← hsorted_def, hloop, bind, Except.bind]
  rw [hsplit, hrm, hleft]
  simp only [List.append_assoc]

/-- A pod of `hollowPodsWithIndexPhase`: its completion index text, `noIndex` (`-`) for no
annotation, and its phase. -/
def indexPhasePod (uid ix : String) (phase : Core.PodPhase) : Core.Pod :=
  ⟨uid, if ix = "-" then [] else [( jobCompletionIndexAnnotation, ix)], 0, none, "", phase, [],
    []⟩
attribute [grind] indexPhasePod

-- the test's "mixed" case: of index `1` the running pod is kept
example : appendDuplicatedIndexPodsForRemoval [] []
    [indexPhasePod "a" "-" .pending, indexPhasePod "b" "invalid" .running,
      indexPhasePod "c" "-2" .running, indexPhasePod "d" "0" .pending,
      indexPhasePod "e" "1" .pending, indexPhasePod "f" "1" .pending,
      indexPhasePod "g" "1" .running] 6 =
    .ok ([indexPhasePod "a" "-" .pending, indexPhasePod "b" "invalid" .running,
      indexPhasePod "c" "-2" .running, indexPhasePod "e" "1" .pending,
      indexPhasePod "f" "1" .pending],
      [indexPhasePod "d" "0" .pending, indexPhasePod "g" "1" .running]) := by
  decide

end Job
end Kubernetes
