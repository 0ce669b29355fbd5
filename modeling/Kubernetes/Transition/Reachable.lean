import Mathlib.Logic.Basic

/-!
# Labelled transition systems: reachability, runs and invariants

A small library for the state machines of the models.  A system is a labelled step
relation `step : σ → ℓ → σ → Prop`; labels carry what an observer sees of a step (the
operation and its result), so that properties of whole runs can talk about them.

* `Reachable init step` — the states reachable from an initial predicate;
* `Run step s as t` — a run from `s` to `t` with labels `as`;
* `Inductive init step P` — an invariant that holds initially and is preserved by every
  step, and `Inductive.reachable`, the induction rule every invariant proof here ends with;
* `Trace init step as t` — the labels `as` of a run from an initial state to `t`, built from
  its last step, for properties of what happened since an event.
-/

namespace Kubernetes
namespace Transition

universe u v

variable {σ : Type u} {ℓ : Type v}

/-- The states reachable from a state satisfying `init` by finitely many steps. -/
inductive Reachable (init : σ → Prop) (step : σ → ℓ → σ → Prop) : σ → Prop
  | init {s : σ} : init s → Reachable init step s
  | step {s t : σ} {a : ℓ} : Reachable init step s → step s a t → Reachable init step t

/-- A run of the system from `s` to `t`, labelled by the steps taken. -/
inductive Run (step : σ → ℓ → σ → Prop) : σ → List ℓ → σ → Prop
  | nil (s : σ) : Run step s [] s
  | cons {s t u : σ} {a : ℓ} {as : List ℓ} : step s a t → Run step t as u → Run step s (a :: as) u

/-- An inductive invariant: it holds initially and every step preserves it. -/
structure Inductive (init : σ → Prop) (step : σ → ℓ → σ → Prop) (P : σ → Prop) : Prop where
  init : ∀ s, init s → P s
  step : ∀ s a t, P s → step s a t → P t

variable {init : σ → Prop} {step : σ → ℓ → σ → Prop}

/-- The induction rule: an inductive invariant holds in every reachable state. -/
theorem Inductive.reachable {P : σ → Prop} (hP : Inductive init step P) {s : σ}
    (hs : Reachable init step s) : P s := by
  induction hs with
  | init h => exact hP.init _ h
  | step _ hstep ih => exact hP.step _ _ _ ih hstep

/-- A run from a reachable state ends in a reachable state. -/
theorem Run.reachable {s t : σ} {as : List ℓ} (hrun : Run step s as t)
    (hs : Reachable init step s) : Reachable init step t := by
  induction hrun with
  | nil => exact hs
  | cons hstep _ ih => exact ih (hs.step hstep)

/-- A run of one step. -/
theorem Run.single {s t : σ} {a : ℓ} (h : step s a t) : Run step s [a] t :=
  Run.cons h (Run.nil t)

/-- A property preserved by the steps a run takes (from states where it holds) holds at the
end of the run when it holds at its start. -/
theorem Run.preserves {P : σ → Prop} {s t : σ} {as : List ℓ} (hrun : Run step s as t)
    (hP : ∀ s a t, a ∈ as → P s → step s a t → P t) (hs : P s) : P t := by
  induction hrun with
  | nil => exact hs
  | cons hstep _ ih =>
      exact ih (fun s a t ha => hP s a t (List.mem_cons_of_mem _ ha))
        (hP _ _ _ List.mem_cons_self hs hstep)

/-- A trace of the system: the labels of a run from a state satisfying `init` to `t`, oldest
first.  Properties that speak of what happened since some event are proved by induction on
it. -/
inductive Trace (init : σ → Prop) (step : σ → ℓ → σ → Prop) : List ℓ → σ → Prop
  | init {s : σ} : init s → Trace init step [] s
  | snoc {as : List ℓ} {s t : σ} {a : ℓ} : Trace init step as s → step s a t →
      Trace init step (as ++ [a]) t

end Transition
end Kubernetes
