import Mathlib.Logic.Relation

/-!
# Merging adjacent list elements

A partial function `merge : α → α → Option α` says when two neighbours `b, a` (with `a`
the later one) stand for one element, and which.  `Merges merge xs ys` says that `ys` is
`xs` with some such neighbours merged, any number of times: nothing is dropped, added or
reordered otherwise.  Logs that coalesce repeated events as they are appended are related
to the log of all events by `Merges`.

The rules used downstream are the congruences `Merges.append_left` and `Merges.append_right`,
and `merges_pair` for one merge at the end.
-/

namespace Kubernetes
namespace Lists

universe u

variable {α : Type u} (merge : α → α → Option α)

/-- One merge: the neighbours `b, a` replaced by `merge a b`. -/
inductive MergeStep : List α → List α → Prop
  | merge (xs ys : List α) {a b out : α} (h : merge a b = some out) :
      MergeStep (xs ++ b :: a :: ys) (xs ++ out :: ys)

/-- Any number of merges. -/
def Merges : List α → List α → Prop :=
  Relation.ReflTransGen (MergeStep merge)
attribute [grind] Merges

variable {merge}

theorem MergeStep.append_left {xs ys : List α} (h : MergeStep merge xs ys) (zs : List α) :
    MergeStep merge (zs ++ xs) (zs ++ ys) := by
  obtain ⟨xs, ys, hm⟩ := h
  simpa only [List.append_assoc] using MergeStep.merge (zs ++ xs) ys hm

theorem MergeStep.append_right {xs ys : List α} (h : MergeStep merge xs ys) (zs : List α) :
    MergeStep merge (xs ++ zs) (ys ++ zs) := by
  obtain ⟨xs, ys, hm⟩ := h
  simpa only [List.append_assoc, List.cons_append] using MergeStep.merge xs (ys ++ zs) hm

@[refl] theorem Merges.refl (xs : List α) : Merges merge xs xs :=
  Relation.ReflTransGen.refl

theorem Merges.of_eq {xs ys : List α} (h : xs = ys) : Merges merge xs ys :=
  h ▸ Merges.refl xs

@[trans] theorem Merges.trans {xs ys zs : List α} (h₁ : Merges merge xs ys)
    (h₂ : Merges merge ys zs) : Merges merge xs zs :=
  Relation.ReflTransGen.trans h₁ h₂

theorem Merges.append_left {xs ys : List α} (h : Merges merge xs ys) (zs : List α) :
    Merges merge (zs ++ xs) (zs ++ ys) :=
  Relation.ReflTransGen.lift (zs ++ ·) (fun _ _ hs => MergeStep.append_left hs zs) _ _ h

theorem Merges.append_right {xs ys : List α} (h : Merges merge xs ys) (zs : List α) :
    Merges merge (xs ++ zs) (ys ++ zs) :=
  Relation.ReflTransGen.lift (· ++ zs) (fun _ _ hs => MergeStep.append_right hs zs) _ _ h

/-- One merge of the last two elements. -/
theorem merges_pair (init : List α) {a b out : α} (h : merge a b = some out) :
    Merges merge (init ++ [b] ++ [a]) (init ++ [out]) := by
  have hstep := MergeStep.merge init [] h
  simp only [List.append_assoc, List.cons_append, List.nil_append]
  exact Relation.ReflTransGen.single hstep

end Lists
end Kubernetes
