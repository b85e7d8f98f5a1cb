/-
Runs of a labelled transition relation and the induction over them.

A guarded run is one in which every step meets a condition on its label and on
the state before it. An invariant of all steps holds in every reachable state;
an invariant that only the guarded steps keep holds along guarded runs.
-/

import Mathlib.Init

namespace Library.Transition

variable {σ ι : Type*}

/-- States reached from the initial one by any number of steps. -/
inductive Reachable (initial : σ) (step : σ → ι → σ → Prop) : σ → Prop
  | start : Reachable initial step initial
  | next {before after : σ} (label : ι) (earlier : Reachable initial step before)
      (moved : step before label after) : Reachable initial step after

/-- States reached by runs whose steps all meet the guard. -/
inductive Guarded (initial : σ) (step : σ → ι → σ → Prop) (guard : σ → ι → Prop) : σ → Prop
  | start : Guarded initial step guard initial
  | next {before after : σ} (label : ι) (earlier : Guarded initial step guard before)
      (allowed : guard before label) (moved : step before label after) :
      Guarded initial step guard after

variable {initial : σ} {step : σ → ι → σ → Prop} {guard : σ → ι → Prop}

theorem Reachable.invariant {invariant : σ → Prop} (atStart : invariant initial)
    (kept : ∀ before label after, invariant before → step before label after → invariant after)
    {state : σ} (reached : Reachable initial step state) : invariant state := by
  induction reached with
  | start => exact atStart
  | next label _ moved ih => exact kept _ label _ ih moved

theorem Guarded.reachable {state : σ} (reached : Guarded initial step guard state) :
    Reachable initial step state := by
  induction reached with
  | start => exact .start
  | next label _ _ moved ih => exact .next label ih moved

theorem Guarded.invariant {known invariant : σ → Prop}
    (always : ∀ state, Reachable initial step state → known state)
    (atStart : invariant initial)
    (kept : ∀ before label after, known before → invariant before → guard before label →
      step before label after → invariant after)
    {state : σ} (reached : Guarded initial step guard state) : invariant state := by
  induction reached with
  | start => exact atStart
  | next label earlier allowed moved ih =>
      exact kept _ label _ (always _ earlier.reachable) ih allowed moved

end Library.Transition
