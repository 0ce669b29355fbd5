import Mathlib.Logic.Basic
import Mathlib.Data.List.Forall2

/-!
# Go loops with an early error return

The shape

```
for _, x := range xs {
	if err := body(x); err != nil {
		return err
	}
}
return nil
```

over a receiver the body mutates.  The mutations made before an error stay in place, so
the model threads the state through and returns it with the error: `forRangeErr`.  Its
invariant rule, `forRangeErr_invariant`, is the only fact callers need about the loop
itself.

Two more shapes return an error at once and otherwise a result: a loop that collects what
each call returns (`xs.mapM f`), and one that threads a state through calls that can fail
(`xs.foldlM f s`).  Each has its rule: what `mapM` returns element by element, and the
invariant and termination rules of `foldlM`.
-/

namespace Kubernetes
namespace Go

universe u v w

variable {σ : Type u} {β : Type v} {ε : Type w}

/-- The loop above: run `body` on each element in order, stopping at the first error. -/
def forRangeErr (body : σ → β → σ × Except ε Unit) : σ → List β → σ × Except ε Unit
  | s, [] => (s, .ok ())
  | s, x :: xs =>
      match body s x with
      | (s', .ok ()) => forRangeErr body s' xs
      | (s', .error e) => (s', .error e)
attribute [grind] forRangeErr

@[simp] theorem forRangeErr_nil (body : σ → β → σ × Except ε Unit) (s : σ) :
    forRangeErr body s [] = (s, .ok ()) := rfl

theorem forRangeErr_cons (body : σ → β → σ × Except ε Unit) (s : σ) (x : β) (xs : List β) :
    forRangeErr body s (x :: xs) =
      match body s x with
      | (s', .ok ()) => forRangeErr body s' xs
      | (s', .error e) => (s', .error e) := rfl

/-- The loop invariant rule: a property every iteration preserves, over the elements the
loop visits, holds of the final state (also when the loop stopped at an error). -/
theorem forRangeErr_invariant (body : σ → β → σ × Except ε Unit) (P : σ → Prop) (xs : List β)
    (hbody : ∀ s x, x ∈ xs → P s → P (body s x).1) (s : σ) (hs : P s) :
    P (forRangeErr body s xs).1 := by
  induction xs generalizing s with
  | nil => exact hs
  | cons x xs ih =>
      rw [forRangeErr_cons]
      have hx := hbody s x List.mem_cons_self hs
      rcases hb : body s x with ⟨s', r⟩
      rw [hb] at hx
      cases r with
      | error e => exact hx
      | ok u =>
          cases u
          exact ih (fun s y hy => hbody s y (List.mem_cons_of_mem _ hy)) s' hx

/-- A computation that can panic succeeds when each of its two parts does: the rule that
peels a `do` block apart. -/
theorem bind_eq_ok {α γ : Type u} {x : Except ε α} {f : α → Except ε γ} {c : γ} :
    x >>= f = .ok c ↔ ∃ a, x = .ok a ∧ f a = .ok c := by
  cases x <;> simp [bind, Except.bind]

/-! ## Collecting loops -/

/-- A collecting loop succeeds with `ys` exactly when each call succeeds with the element of
`ys` at its place. -/
theorem mapM_eq_ok_iff {α β : Type u} {f : α → Except ε β} :
    ∀ {xs : List α} {ys : List β}, xs.mapM f = .ok ys ↔ List.Forall₂ (fun x y => f x = .ok y) xs ys
  | [], ys => by
      rw [List.mapM_nil, List.forall₂_nil_left_iff]
      exact ⟨fun h => (Except.ok.inj h).symm, fun h => h ▸ rfl⟩
  | x :: xs, ys => by
      rw [List.mapM_cons, bind_eq_ok, List.forall₂_cons_left_iff]
      constructor
      · rintro ⟨y, hy, h⟩
        obtain ⟨ys', hys, h⟩ := bind_eq_ok.mp h
        exact ⟨y, ys', hy, mapM_eq_ok_iff.mp hys, (Except.ok.inj h).symm⟩
      · rintro ⟨y, ys', hy, hys, rfl⟩
        exact ⟨y, hy, bind_eq_ok.mpr ⟨ys', mapM_eq_ok_iff.mpr hys, rfl⟩⟩

/-- A collecting loop whose calls return what `g` gives where `P` holds, and fail elsewhere,
returns the `filterMap g` of the elements when `P` holds of each. -/
theorem mapM_eq_ok_iff_filterMap {α β : Type u} {f : α → Except ε β} {g : α → Option β}
    {P : α → Prop} (hf : ∀ x y, f x = .ok y ↔ P x ∧ g x = some y) (hP : ∀ x, P x → (g x).isSome)
    {xs : List α} {ys : List β} :
    xs.mapM f = .ok ys ↔ (∀ x ∈ xs, P x) ∧ ys = xs.filterMap g := by
  rw [mapM_eq_ok_iff]
  induction xs generalizing ys with
  | nil => simp
  | cons x xs ih =>
      rw [List.forall₂_cons_left_iff, List.forall_mem_cons]
      constructor
      · rintro ⟨y, ys', hxy, hrest, rfl⟩
        obtain ⟨hPx, hgx⟩ := (hf x y).mp hxy
        obtain ⟨hall, rfl⟩ := ih.mp hrest
        exact ⟨⟨hPx, hall⟩, by simp [hgx]⟩
      · rintro ⟨⟨hPx, hall⟩, rfl⟩
        obtain ⟨y, hy⟩ := Option.isSome_iff_exists.mp (hP x hPx)
        exact ⟨y, xs.filterMap g, (hf x y).mpr ⟨hPx, hy⟩, ih.mpr ⟨hall, rfl⟩, by simp [hy]⟩

/-! ## Folds that can fail -/

/-- The invariant rule of a fold in `Except`: a property of the state and of the elements
visited so far that each step keeps holds of the state the fold returns. -/
theorem foldlM_invariant {σ : Type u} {α : Type v} {f : σ → α → Except ε σ}
    (Inv : List α → σ → Prop) {xs : List α}
    (hstep : ∀ pre x post s s', pre ++ x :: post = xs → Inv pre s → f s x = .ok s' →
      Inv (pre ++ [x]) s')
    {s s' : σ} (hs : Inv [] s) (h : xs.foldlM f s = .ok s') : Inv xs s' := by
  -- the fold over what is left, from a state that holds of what was visited
  suffices H : ∀ rest pre s, pre ++ rest = xs → Inv pre s → rest.foldlM f s = .ok s' →
      Inv xs s' from H xs [] s rfl hs h
  intro rest
  induction rest with
  | nil =>
      intro pre s hpre hinv h
      rw [List.foldlM_nil] at h
      rw [← Except.ok.inj h, ← hpre, List.append_nil]
      exact hinv
  | cons x rest ih =>
      intro pre s hpre hinv h
      rw [List.foldlM_cons] at h
      obtain ⟨s₁, h₁, h⟩ := bind_eq_ok.mp h
      exact ih (pre ++ [x]) s₁ (by rw [List.append_assoc, List.singleton_append, hpre])
        (hstep pre x rest s s₁ hpre hinv h₁) h

/-- A fold in `Except` returns when each step, from a state with the property, returns a
state with it. -/
theorem foldlM_isOk {σ : Type u} {α : Type v} {f : σ → α → Except ε σ} (P : σ → Prop)
    {xs : List α} (hstep : ∀ x s, x ∈ xs → P s → ∃ s', f s x = .ok s' ∧ P s') {s : σ}
    (hs : P s) : ∃ s', xs.foldlM f s = .ok s' ∧ P s' := by
  induction xs generalizing s with
  | nil => exact ⟨s, rfl, hs⟩
  | cons x xs ih =>
      obtain ⟨s₁, h₁, hs₁⟩ := hstep x s List.mem_cons_self hs
      obtain ⟨s', h', hs'⟩ := ih (fun y t hy => hstep y t (List.mem_cons_of_mem x hy)) hs₁
      exact ⟨s', by rw [List.foldlM_cons, h₁]; exact h', hs'⟩

/-- A fold in `Except` whose steps return, from a state with the property `P`, what a pure step
function gives, and keep `P`, is the pure fold. -/
theorem foldlM_eq_ok_foldl {σ : Type u} {α : Type v} {f : σ → α → Except ε σ} (g : σ → α → σ)
    (P : σ → Prop) {xs : List α} (hstep : ∀ x ∈ xs, ∀ s, P s → f s x = .ok (g s x) ∧ P (g s x))
    {s : σ} (hs : P s) : xs.foldlM f s = .ok (xs.foldl g s) := by
  induction xs generalizing s with
  | nil => rfl
  | cons x xs ih =>
      obtain ⟨hx, hP⟩ := hstep x List.mem_cons_self s hs
      rw [List.foldlM_cons, hx, List.foldl_cons]
      exact ih (fun y hy => hstep y (List.mem_cons_of_mem x hy)) hP

end Go
end Kubernetes
