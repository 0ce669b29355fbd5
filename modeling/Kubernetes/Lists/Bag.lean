import Mathlib

/-!
# Lists of lists up to order

A list of lists read as a bag of bags forgets the order of the lists and the order inside each
of them, which is what a loop over a Go map, or over slices filled from one, may change.  Two facts
about computations that go through every list:

* `foldl_eq_of_bagOf_eq` — a fold of a value of each list, where the value does not depend on
  the order inside the list and the step not on the order of the lists, is the same on lists with
  one bag;
* `exists_perm_forall₂_of_bagOf_eq` — a choice of one element of each list is, up to order, a
  choice for the lists in another order;
* `Forall₂.exists_of_mem_right`, `Forall₂.exists_of_mem_left` — each list of a choice has its
  element, and each element its list.
-/

namespace Kubernetes
namespace Lists

variable {α β γ : Type*}

/-- A list of lists as a bag of bags. -/
def bagOf (L : List (List α)) : Multiset (Multiset α) :=
  ((L.map Multiset.ofList : List (Multiset α)) : Multiset (Multiset α))
attribute [grind] bagOf

theorem bagOf_eq_iff {L L' : List (List α)} :
    bagOf L = bagOf L' ↔ (L.map Multiset.ofList).Perm (L'.map Multiset.ofList) :=
  Multiset.coe_eq_coe

/-- A fold of a value of each list that does not depend on the order inside the list, by a step
whose order does not matter, depends only on the bag. -/
theorem foldl_eq_of_bagOf_eq {g : List α → β} (hg : ∀ l l', l.Perm l' → g l = g l')
    {op : γ → β → γ} (hop : ∀ c x y, op (op c x) y = op (op c y) x) {L L' : List (List α)}
    (h : bagOf L = bagOf L') (c : γ) : L.foldl (fun c l => op c (g l)) c = L'.foldl (fun c l => op c (g l)) c := by
  -- the value read on bags
  let g' : Multiset α → β := Quot.lift g hg
  have hmap : ∀ L : List (List α), L.map g = (L.map Multiset.ofList).map g' := by
    intro L
    rw [List.map_map]
    rfl
  rw [← List.foldl_map (f := g) (l := L), ← List.foldl_map (f := g) (l := L'), hmap L, hmap L']
  exact ((bagOf_eq_iff.mp h).map g').foldl_eq' (fun x _ y _ z => hop z x y) c

/-- A choice of one element of each list is, up to order, a choice of one element of each list of
another list of lists with the same bag. -/
theorem exists_perm_forall₂_of_bagOf_eq {L L' : List (List α)} (h : bagOf L = bagOf L')
    {P : List α} (hP : List.Forall₂ (· ∈ ·) P L) :
    ∃ P', P.Perm P' ∧ List.Forall₂ (· ∈ ·) P' L' := by
  -- the choice as one of elements of the bags, read from the bags' side
  have hbags : List.Forall₂ (fun (s : Multiset α) x => x ∈ s)
      (L.map Multiset.ofList) P := by
    apply List.Forall₂.flip
    rw [List.forall₂_map_right_iff]
    exact hP.imp fun x l hx => Multiset.mem_coe.mpr hx
  obtain ⟨P', hP', hperm⟩ := List.perm_comp_forall₂ (bagOf_eq_iff.mp h).symm hbags
  refine ⟨P', hperm.symm, ?_⟩
  have hP'' := List.Forall₂.flip (R := fun x (s : Multiset α) => x ∈ s) hP'
  rw [List.forall₂_map_right_iff] at hP''
  exact hP''.imp fun x l hx => Multiset.mem_coe.mp hx

/-- Every list of a choice is met by its element. -/
theorem Forall₂.exists_of_mem_right {R : α → β → Prop} {l₁ : List α} {l₂ : List β}
    (h : List.Forall₂ R l₁ l₂) {b : β} (hb : b ∈ l₂) : ∃ a ∈ l₁, R a b := by
  induction h with
  | nil => exact absurd hb List.not_mem_nil
  | @cons a b' l₁ l₂ hab _ ih =>
      rcases List.mem_cons.mp hb with rfl | hb
      · exact ⟨a, List.mem_cons_self, hab⟩
      · obtain ⟨a', ha', hr⟩ := ih hb
        exact ⟨a', List.mem_cons_of_mem a ha', hr⟩

/-- Every element of a choice is met by its list. -/
theorem Forall₂.exists_of_mem_left {R : α → β → Prop} {l₁ : List α} {l₂ : List β}
    (h : List.Forall₂ R l₁ l₂) {a : α} (ha : a ∈ l₁) : ∃ b ∈ l₂, R a b := by
  induction h with
  | nil => exact absurd ha List.not_mem_nil
  | @cons a' b l₁ l₂ hab _ ih =>
      rcases List.mem_cons.mp ha with rfl | ha
      · exact ⟨b, List.mem_cons_self, hab⟩
      · obtain ⟨b', hb', hr⟩ := ih ha
        exact ⟨b', List.mem_cons_of_mem b hb', hr⟩

end Lists
end Kubernetes
