import Mathlib

/-!
# Finite maps: loops that write each key once, and inverted indices

Two facts about finite maps, taken as Mathlib's association lists `AList`, that models of
indexed stores rest on.

* A loop over a list of entries with distinct keys that writes, at each key, a value computed
  from the entry and from what the map held at that key (`lookup_foldl_insert`): since each
  key is written once, the loop acts on every key separately.
* The inverted index of a map under a multi-valued function: for each value, the keys whose
  entry has that value (`invertedIndex`).  It is what an incrementally maintained index must
  hold, and is characterised by `mem_invertedIndex`.
-/

namespace Kubernetes
namespace FiniteMap

variable {α β γ V : Type _} [DecidableEq α]

section Loops

/-- A loop writing each key of `l` once leaves at `a` the value written from `a`'s entry, or
what was there when `l` has no entry for `a`. -/
theorem lookup_foldl_insert (g : α → γ → Option β → β) {l : List (Σ _ : α, γ)}
    (hl : l.NodupKeys) (s : AList fun _ : α => β) (a : α) :
    (l.foldl (fun s e => s.insert e.1 (g e.1 e.2 (s.lookup e.1))) s).lookup a =
      match l.dlookup a with
      | some c => some (g a c (s.lookup a))
      | none => s.lookup a := by
  induction l generalizing s with
  | nil => rfl
  | cons e l ih =>
    obtain ⟨a', c⟩ := e
    obtain ⟨hnot, hl⟩ := List.nodupKeys_cons.mp hl
    rw [List.foldl_cons, ih hl]
    by_cases h : a = a'
    · -- the entry of `a` is not met again
      subst h
      rw [List.dlookup_eq_none.mpr hnot, List.dlookup_cons_eq]
      simp [AList.lookup_insert]
    · rw [List.dlookup_cons_ne _ _ h]
      cases l.dlookup a <;> simp [AList.lookup_insert_ne h]

/-- A loop of writes only adds the keys it writes. -/
theorem mem_foldl_insert (g : (AList fun _ : α => β) → (Σ _ : α, γ) → β)
    (l : List (Σ _ : α, γ)) (s : AList fun _ : α => β) (a : α) :
    a ∈ l.foldl (fun s e => s.insert e.1 (g s e)) s ↔ a ∈ l.keys ∨ a ∈ s := by
  induction l generalizing s with
  | nil => simp
  | cons e l ih =>
    rw [List.foldl_cons, ih, AList.mem_insert, List.keys_cons, List.mem_cons]
    tauto

end Loops

section Inverted

variable [DecidableEq V]

/-- The inverted index of a list of entries under `f`: the keys of the entries that have the
value `v`. -/
def invertedIndex (entries : List (Σ _ : α, β)) (f : β → List V) (v : V) : Finset α :=
  ((entries.filter fun e => v ∈ f e.2).map Sigma.fst).toFinset
attribute [grind] invertedIndex

/-- The inverted index of a map holds the keys whose value has `v`. -/
theorem mem_invertedIndex {s : AList fun _ : α => β} {f : β → List V} {v : V} {a : α} :
    a ∈ invertedIndex s.entries f v ↔ ∃ b, s.lookup a = some b ∧ v ∈ f b := by
  simp only [invertedIndex, List.mem_toFinset, List.mem_map, List.mem_filter,
    decide_eq_true_eq]
  constructor
  · rintro ⟨⟨a, b⟩, ⟨hmem, hv⟩, rfl⟩
    exact ⟨b, AList.mem_lookup_iff.mpr hmem, hv⟩
  · rintro ⟨b, hb, hv⟩
    exact ⟨⟨a, b⟩, ⟨AList.mem_lookup_iff.mp hb, hv⟩, rfl⟩

@[simp] theorem invertedIndex_nil (f : β → List V) (v : V) :
    invertedIndex ([] : List (Σ _ : α, β)) f v = ∅ := rfl

theorem invertedIndex_append_singleton (entries : List (Σ _ : α, β)) (e : Σ _ : α, β)
    (f : β → List V) (v : V) :
    invertedIndex (entries ++ [e]) f v =
      if v ∈ f e.2 then insert e.1 (invertedIndex entries f v) else invertedIndex entries f v := by
  ext a
  by_cases hv : v ∈ f e.2 <;> simp [invertedIndex, List.filter_append, hv]

end Inverted

end FiniteMap
end Kubernetes
