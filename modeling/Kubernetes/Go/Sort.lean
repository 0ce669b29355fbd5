import Mathlib

/-!
# Go's `sort` package

`sort.Search(n, f)` is a binary search for the first index of `[0, n)` at which `f` holds,
for an `f` that is false and then true there.  The loop narrows `[i, j)`, halving it on
each iteration; the model runs it on fuel `n`, which is enough because each iteration
shrinks `j - i`.  `search_spec` is what callers use: below the result `f` is false, from
it on `f` is true.

`sort.SliceStable` and `sort.Sort` are both insertion sort here.  For `sort.SliceStable` that
is exact up to the order of incomparable elements, which a stable sort fixes.  `sort.Sort` is
insertion sort only up to 12 elements; above that Go runs pdqsort, which is not stable.  What
the development proves about `sort` for every input therefore uses only what pdqsort has too:
the result is a permutation (`sliceStable_perm`) ordered by the key (`sort_isChain_key`), a
list already ordered by the key comes back as it is (`sort_of_isChain_key`), and with distinct
keys the result is determined (`sort_eq_of_perm_key`).  The order of equal keys is read only at
fixed inputs of at most 12 elements.
-/

namespace Kubernetes
namespace Go

/-- The loop of `sort.Search` on `[i, j)`. -/
def searchLoop (f : Nat → Bool) : Nat → Nat → Nat → Nat
  | 0, i, _ => i
  | fuel + 1, i, j =>
      if i < j then
        let h := (i + j) / 2
        if !f h then searchLoop f fuel (h + 1) j else searchLoop f fuel i h
      else i
attribute [grind] searchLoop

/-- `sort.Search`. -/
def search (n : Nat) (f : Nat → Bool) : Nat :=
  searchLoop f n 0 n
attribute [grind] search

/-- `f` is false and then true on `[0, n)`, the precondition of `sort.Search`. -/
def FalseThenTrue (n : Nat) (f : Nat → Bool) : Prop :=
  ∀ i j, i ≤ j → j < n → f i = true → f j = true
attribute [grind] FalseThenTrue

/-- The invariant of the loop: `f` is false below `i` and true from `j` on. -/
structure SearchInv (n : Nat) (f : Nat → Bool) (i j : Nat) : Prop where
  le : i ≤ j
  le_n : j ≤ n
  below : ∀ k, k < i → f k = false
  above : ∀ k, j ≤ k → k < n → f k = true

section

variable {n : Nat} {f : Nat → Bool}

theorem searchInv_init : SearchInv n f 0 n :=
  ⟨Nat.zero_le n, Nat.le_refl n, fun _ hk => absurd hk (Nat.not_lt_zero _), fun _ hk hn => absurd hn (by omega)⟩

/-- One iteration keeps the invariant and shrinks the interval. -/
theorem SearchInv.step (hf : FalseThenTrue n f) {i j : Nat} (hinv : SearchInv n f i j) (hij : i < j) :
    (f ((i + j) / 2) = false → SearchInv n f ((i + j) / 2 + 1) j) ∧
      (f ((i + j) / 2) = true → SearchInv n f i ((i + j) / 2)) := by
  have hlo : i ≤ (i + j) / 2 := by omega
  have hhi : (i + j) / 2 < j := by omega
  constructor
  · intro hh
    refine ⟨by omega, hinv.le_n, fun k hk => ?_, hinv.above⟩
    rcases Nat.lt_or_ge k i with hki | hki
    · exact hinv.below k hki
    · -- between `i` and the midpoint: true there would make the midpoint true
      cases hfk : f k with
      | false => rfl
      | true =>
          have := hf k ((i + j) / 2) (by omega) (by have := hinv.le_n; omega) hfk
          rw [hh] at this
          exact absurd this (by decide)
  · intro hh
    refine ⟨hlo, by have := hinv.le_n; omega, hinv.below, fun k hk hkn => ?_⟩
    rcases Nat.lt_or_ge k j with hkj | hkj
    · exact hf ((i + j) / 2) k hk hkn hh
    · exact hinv.above k hkj hkn

theorem searchLoop_spec (hf : FalseThenTrue n f) :
    ∀ (fuel i j : Nat), SearchInv n f i j → j - i ≤ fuel →
      SearchInv n f (searchLoop f fuel i j) (searchLoop f fuel i j) := by
  intro fuel
  induction fuel with
  | zero =>
      intro i j hinv hfuel
      have hij : i = j := by have := hinv.le; omega
      subst hij
      exact hinv
  | succ fuel ih =>
      intro i j hinv hfuel
      unfold searchLoop
      by_cases hij : i < j
      · rw [if_pos hij]
        obtain ⟨hfalse, htrue⟩ := hinv.step hf hij
        cases hmid : f ((i + j) / 2) with
        | false =>
            simp only [hmid, Bool.not_false, ↓reduceIte]
            exact ih _ _ (hfalse hmid) (by omega)
        | true =>
            simp only [hmid, Bool.not_true, Bool.false_eq_true, ↓reduceIte]
            exact ih _ _ (htrue hmid) (by omega)
      · rw [if_neg hij]
        have hij' : i = j := by have := hinv.le; omega
        subst hij'
        exact hinv

/-- `sort.Search` returns the first index at which `f` holds, or `n`. -/
theorem search_spec (hf : FalseThenTrue n f) :
    search n f ≤ n ∧ (∀ k, k < search n f → f k = false) ∧
      ∀ k, search n f ≤ k → k < n → f k = true := by
  have h := searchLoop_spec hf n 0 n searchInv_init (by omega)
  exact ⟨h.le_n, h.below, h.above⟩

/-- A list whose elements fail `p` before position `m` and satisfy it from `m` on keeps,
under `p`, exactly its elements from `m` on. -/
theorem filter_eq_drop {β : Type _} {l : List β} {p : β → Bool} {m : Nat}
    (hlo : ∀ i (h : i < l.length), i < m → p l[i] = false)
    (hhi : ∀ i (h : i < l.length), m ≤ i → p l[i] = true) :
    l.filter p = l.drop m := by
  have htake : (l.take m).filter p = [] := by
    rw [List.filter_eq_nil_iff]
    intro x hx
    obtain ⟨i, hi, rfl⟩ := List.getElem_of_mem hx
    rw [List.getElem_take]
    simp only [List.length_take] at hi
    simp [hlo i (by omega) (by omega)]
  have hdrop : (l.drop m).filter p = l.drop m := by
    rw [List.filter_eq_self]
    intro x hx
    obtain ⟨i, hi, rfl⟩ := List.getElem_of_mem hx
    rw [List.getElem_drop]
    simp only [List.length_drop] at hi
    exact hhi (m + i) (by omega) (by omega)
  calc l.filter p = (l.take m ++ l.drop m).filter p := by rw [List.take_append_drop]
    _ = l.drop m := by rw [List.filter_append, htake, hdrop, List.nil_append]

end

/-! ## `sort.SliceStable` -/

section Stable

variable {α : Type _}

/-- One pass of the inner loop of `insertionSort`: the next element `x` moves left past
every element it is `less` than, stopping at the first it is not.  The part already sorted
is given and returned in reverse, nearest element first. -/
def insertLeft (less : α → α → Bool) (x : α) : List α → List α
  | [] => [x]
  | y :: ys => if less x y then y :: insertLeft less x ys else x :: y :: ys
attribute [grind] insertLeft

/-- `sort.SliceStable(x, less)`.  Go sorts a slice of at most 20 elements by insertion
sort (`insertionSort_func`), which this is, comparison for comparison; a longer slice is
cut into blocks of 20 sorted so and then merged by `symMerge`, which puts the elements in
the same order whenever `less` is a strict weak order. -/
def sliceStable (l : List α) (less : α → α → Bool) : List α :=
  (l.foldl (fun sorted x => insertLeft less x sorted) []).reverse
attribute [grind] sliceStable

/-- `sort.Sort`.  Go sorts at most 12 elements by insertion sort (`insertionSort`), which
this is, comparison for comparison.  A longer slice goes through pattern-defeating quicksort,
which can put elements that `less` does not tell apart in another order than this; on a list
already in order its `partialInsertionSort` returns without a swap, as this does. -/
def sort (l : List α) (less : α → α → Bool) : List α :=
  sliceStable l less
attribute [grind] sort

theorem insertLeft_perm (less : α → α → Bool) (x : α) (l : List α) :
    (insertLeft less x l).Perm (x :: l) := by
  induction l with
  | nil => exact List.Perm.refl _
  | cons y ys ih =>
      unfold insertLeft
      split_ifs
      · exact (ih.cons y).trans (List.Perm.swap x y ys)
      · exact List.Perm.refl _

/-- A stable sort moves elements, it never adds or drops one. -/
theorem sliceStable_perm (l : List α) (less : α → α → Bool) : (sliceStable l less).Perm l := by
  have key : ∀ (acc : List α) (l : List α),
      (l.foldl (fun sorted x => insertLeft less x sorted) acc).Perm (l.reverse ++ acc) := by
    intro acc l
    induction l generalizing acc with
    | nil => exact List.Perm.refl _
    | cons x xs ih =>
        rw [List.foldl_cons, List.reverse_cons, List.append_assoc, List.singleton_append]
        exact (ih _).trans ((insertLeft_perm less x acc).append_left _)
  unfold sliceStable
  have hrev : (l.reverse ++ []).Perm l := by
    rw [List.append_nil]
    exact List.reverse_perm l
  exact (List.reverse_perm _).trans ((key [] l).trans hrev)

/-- Inserting into a list sorted in reverse keeps it so, for an asymmetric `less`. -/
theorem insertLeft_isChain {less : α → α → Bool}
    (hasymm : ∀ a b, less a b = true → less b a = false) (x : α) :
    ∀ {l : List α}, l.IsChain (fun a b => less a b = false) →
      (insertLeft less x l).IsChain (fun a b => less a b = false)
  | [], _ => List.isChain_singleton x
  | y :: ys, hl => by
      unfold insertLeft
      split
      · next hxy =>
        -- `x` moves past `y`: whatever follows `y` now is `x` or the old next element
        have htail := insertLeft_isChain hasymm x (List.isChain_cons.mp hl).2
        refine List.isChain_cons.mpr ⟨?_, htail⟩
        intro z hz
        cases ys with
        | nil =>
            simp only [insertLeft, List.head?_cons, Option.mem_def, Option.some.injEq] at hz
            rw [← hz]
            exact hasymm x y hxy
        | cons w ws =>
            unfold insertLeft at hz
            split at hz
            · simp only [List.head?_cons, Option.mem_def, Option.some.injEq] at hz
              rw [← hz]
              exact (List.isChain_cons_cons.mp hl).1
            · simp only [List.head?_cons, Option.mem_def, Option.some.injEq] at hz
              rw [← hz]
              exact hasymm x y hxy
      · next hxy => exact List.IsChain.cons_cons (by simpa using hxy) hl

/-- Insertion sort leaves no element before one it is `less` than. -/
theorem sliceStable_isChain {less : α → α → Bool}
    (hasymm : ∀ a b, less a b = true → less b a = false) (l : List α) :
    (sliceStable l less).IsChain (fun a b => less b a = false) := by
  have key : ∀ (l acc : List α), acc.IsChain (fun a b => less a b = false) →
      (l.foldl (fun sorted x => insertLeft less x sorted) acc).IsChain
        (fun a b => less a b = false) := by
    intro l
    induction l with
    | nil => exact fun _ h => h
    | cons x xs ih => exact fun acc h => ih _ (insertLeft_isChain hasymm x h)
  unfold sliceStable
  exact List.isChain_reverse.mpr (key l [] List.isChain_nil)

/-- Insertion sort leaves a sorted list as it is. -/
theorem sliceStable_of_isChain {less : α → α → Bool} {l : List α}
    (h : l.IsChain (fun a b => less b a = false)) : sliceStable l less = l := by
  -- the sorted part, reversed, is the prefix read so far
  have key : ∀ (l acc : List α), (acc.reverse ++ l).IsChain (fun a b => less b a = false) →
      l.foldl (fun sorted x => insertLeft less x sorted) acc = l.reverse ++ acc := by
    intro l
    induction l with
    | nil => simp
    | cons x xs ih =>
        intro acc hchain
        have hinsert : insertLeft less x acc = x :: acc := by
          cases acc with
          | nil => rfl
          | cons y ys =>
              have hyx : less x y = false := by
                have := (List.isChain_append.mp hchain).2.2
                exact this y (by simp) x (by simp)
              simp [insertLeft, hyx]
        rw [List.foldl_cons, hinsert, ih (x :: acc) (by simpa using hchain)]
        simp
  unfold sliceStable
  rw [key l [] (by simpa using h), List.append_nil, List.reverse_reverse]

end Stable

/-! ## Sorting by a key -/

section Keys

variable {α β : Type _} [LinearOrder β] (key : α → β)

/-- `sort.Sort` by a key leaves the keys in order. -/
theorem sort_isChain_key (l : List α) :
    (sort l (fun a b => decide (key a < key b))).IsChain (fun a b => key a ≤ key b) := by
  have h : (sliceStable l fun a b => decide (key a < key b)).IsChain
      (fun a b => decide (key b < key a) = false) :=
    sliceStable_isChain (fun a b hab => by simpa using (lt_asymm (of_decide_eq_true hab))) l
  simpa [sort] using h

/-- Sorting by a key a list already in order of its keys leaves it as it is. -/
theorem sort_of_isChain_key {l : List α} (h : l.IsChain (fun a b => key a ≤ key b)) :
    sort l (fun a b => decide (key a < key b)) = l :=
  sliceStable_of_isChain (by simpa using h)

/-- Sorting by a key a permutation of a list whose keys strictly increase gives that list. -/
theorem sort_eq_of_perm_key {l l' : List α} (hperm : l.Perm l')
    (hsorted : l'.Pairwise (fun a b => key a < key b)) :
    sort l (fun a b => decide (key a < key b)) = l' := by
  have hchain := sort_isChain_key key l
  have hmem : ∀ a ∈ sort l (fun a b => decide (key a < key b)), a ∈ l' := fun a ha =>
    hperm.subset ((sliceStable_perm l _).subset ha)
  refine List.Perm.eq_of_pairwise ?_ ?_
    (hsorted.imp le_of_lt : l'.Pairwise fun a b => key a ≤ key b) ((sliceStable_perm l _).trans hperm)
  · -- two elements of `l'` with the same key are one: the keys of `l'` are distinct
    intro a b ha hb hab hba
    have hnodup : (l'.map key).Nodup := List.pairwise_map.mpr (hsorted.imp ne_of_lt)
    exact List.inj_on_of_nodup_map hnodup (hmem a ha) hb (le_antisymm hab hba)
  · have := List.isChain_map (R := fun x y : β => x ≤ y) key |>.mpr hchain
    exact List.pairwise_map.mp (List.isChain_iff_pairwise.mp this)

/-- Sorting by a key orders the keys, any two of them and not only neighbours. -/
theorem sort_pairwise_le_key (l : List α) :
    (sort l (fun a b => decide (key a < key b))).Pairwise (fun a b => key a ≤ key b) :=
  List.pairwise_map.mp (List.isChain_iff_pairwise.mp
    (List.isChain_map (R := fun x y : β => x ≤ y) key |>.mpr (sort_isChain_key key l)))

/-- With distinct keys, sorting by key orders the keys strictly. -/
theorem sort_pairwise_key {l : List α} (hnodup : (l.map key).Nodup) :
    (sort l (fun a b => decide (key a < key b))).Pairwise (fun a b => key a < key b) := by
  have hperm := sliceStable_perm l (fun a b => decide (key a < key b))
  have hle := sort_pairwise_le_key key l
  have hne : (sort l (fun a b => decide (key a < key b))).Pairwise (fun a b => key a ≠ key b) :=
    List.pairwise_map.mp ((hperm.map key).nodup_iff.mpr hnodup)
  exact (hle.and hne).imp fun h => lt_of_le_of_ne h.1 h.2

/-- Sorting by distinct keys does not see the order of the list. -/
theorem sort_eq_sort_of_perm_key {l l' : List α} (hperm : l.Perm l') (hnodup : (l.map key).Nodup) :
    sort l (fun a b => decide (key a < key b)) = sort l' (fun a b => decide (key a < key b)) :=
  sort_eq_of_perm_key key (hperm.trans (sliceStable_perm l' _).symm)
    (sort_pairwise_key key ((hperm.map key).nodup_iff.mp hnodup))

end Keys

/-! ## Sets of ints -/

/-- `sets.Int.List`: the elements of a Go set of `int`s, in increasing order. -/
def setsIntList (s : Finset Int) : List Int :=
  s.sort (· ≤ ·)
attribute [grind] setsIntList

theorem setsIntList_pairwise (s : Finset Int) : (setsIntList s).Pairwise (· < ·) :=
  (Finset.sortedLT_sort s).pairwise

@[simp] theorem mem_setsIntList {s : Finset Int} {ix : Int} : ix ∈ setsIntList s ↔ ix ∈ s :=
  Finset.mem_sort _

@[simp] theorem setsIntList_toFinset (s : Finset Int) : (setsIntList s).toFinset = s :=
  Finset.sort_toFinset _ _

@[simp] theorem length_setsIntList (s : Finset Int) : (setsIntList s).length = s.card :=
  Finset.length_sort _

/-- The set of an increasing list lists as that list. -/
theorem setsIntList_toFinset_of_pairwise {l : List Int} (h : l.Pairwise (· < ·)) :
    setsIntList l.toFinset = l :=
  (List.toFinset_sort _ h.nodup).mpr (h.imp le_of_lt)

end Go
end Kubernetes
