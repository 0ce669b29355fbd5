import Mathlib

/-!
# The least element of a list under a key

`List.argmin f l` keeps the first element of least key, the way a selection loop keeps its
current best and replaces it only by a strictly better candidate.  Two facts such loops need:

* `foldl_argAux_filter` — a loop that passes over the elements failing a test computes `argmin`
  of the filtered list;
* `argmin_eq_some_iff_of_injOn`, `argmin_congr` — when the key tells the elements apart, the
  result is the element whose key is below all the others, so it depends only on which elements
  the list has.
-/

namespace Kubernetes
namespace Lists

variable {α β : Type*} [LinearOrder β] {f : α → β}

/-- A loop that passes over the elements failing `p` and otherwise keeps the least key. -/
theorem foldl_argAux_filter (p : α → Bool) (l : List α) (o : Option α) :
    l.foldl (fun o b => if p b then List.argAux (fun b c => f b < f c) o b else o) o =
      (l.filter p).foldl (List.argAux fun b c => f b < f c) o := by
  induction l generalizing o with
  | nil => rfl
  | cons b l ih =>
      by_cases hb : p b
      · simp only [List.foldl_cons, hb, if_true, List.filter_cons_of_pos hb]
        exact ih _
      · simp only [List.foldl_cons, hb, Bool.false_eq_true, if_false,
          List.filter_cons_of_neg hb]
        exact ih _

/-- With a key that tells the elements apart, the least element is the one whose key is below
all the others. -/
theorem argmin_eq_some_iff_of_injOn {l : List α} (hinj : Set.InjOn f {x | x ∈ l}) {m : α} :
    List.argmin f l = some m ↔ m ∈ l ∧ ∀ a ∈ l, f m ≤ f a := by
  constructor
  · intro h
    exact ⟨List.argmin_mem h, fun a ha => List.le_of_mem_argmin ha h⟩
  · rintro ⟨hm, hle⟩
    cases h : List.argmin f l with
    | none =>
        rw [List.argmin_eq_none] at h
        rw [h] at hm
        exact absurd hm List.not_mem_nil
    | some m' =>
        -- both keys are below each other, so the elements agree
        have hm' : m' ∈ l := List.argmin_mem h
        have hle' : f m' ≤ f m := List.le_of_mem_argmin hm h
        rw [hinj hm' hm (le_antisymm hle' (hle m' hm'))]

/-- With a key that tells the elements apart, the least element depends only on which elements
the list has, not on their order or how often they occur. -/
theorem argmin_congr {l l' : List α} (hmem : ∀ x, x ∈ l ↔ x ∈ l')
    (hinj : Set.InjOn f {x | x ∈ l}) : List.argmin f l = List.argmin f l' := by
  have hinj' : Set.InjOn f {x | x ∈ l'} := fun x hx y hy =>
    hinj ((hmem x).mpr hx) ((hmem y).mpr hy)
  cases hm : List.argmin f l with
  | none =>
      rw [List.argmin_eq_none] at hm
      -- no elements on either side
      have hnil : l' = [] := List.eq_nil_iff_forall_not_mem.mpr fun x hx => by
        simpa [hm] using (hmem x).mpr hx
      rw [hnil]
      rfl
  | some m =>
      obtain ⟨hml, hle⟩ := (argmin_eq_some_iff_of_injOn hinj).mp hm
      exact ((argmin_eq_some_iff_of_injOn hinj').mpr
        ⟨(hmem m).mp hml, fun a ha => hle a ((hmem a).mpr ha)⟩).symm

end Lists
end Kubernetes
