/-
Services that carry out calls or refuse them.

A refused call changes nothing. A service simulates another when its states can be read as states
of the other, and the two carry out the same calls and to the same effect. It is enough to know
this where an invariant holds and for calls that meet a condition; runs of such calls then are
runs of the other service.
-/

import Mathlib.Init

namespace Library

/-- What a service carries out, and what it does then. -/
structure Service (σ κ : Type) where
  Allows : σ → κ → Prop
  effect : σ → κ → σ

namespace Service

variable {σ τ κ : Type}

/-- A run of calls that meet the guard; each is marked with whether it was carried out. -/
inductive Run (service : Service σ κ) (guard : σ → κ → Prop) : σ → List (κ × Bool) → σ → Prop
  | done (state : σ) : Run service guard state [] state
  | carried {state last : σ} {call : κ} {later : List (κ × Bool)} (met : guard state call)
      (allowed : service.Allows state call)
      (rest : Run service guard (service.effect state call) later last) :
      Run service guard state ((call, true) :: later) last
  | refused {state last : σ} {call : κ} {later : List (κ × Bool)} (met : guard state call)
      (forbidden : ¬ service.Allows state call) (rest : Run service guard state later last) :
      Run service guard state ((call, false) :: later) last

/-- The states of `concrete` read by `view` as states of `abstract`. -/
structure Simulates (concrete : Service σ κ) (abstract : Service τ κ) (guard : σ → κ → Prop)
    (invariant : σ → Prop) (view : σ → τ) : Prop where
  allows : ∀ state call, invariant state → guard state call →
    (concrete.Allows state call ↔ abstract.Allows (view state) call)
  effect : ∀ state call, invariant state → guard state call → concrete.Allows state call →
    view (concrete.effect state call) = abstract.effect (view state) call
  keeps : ∀ state call, invariant state → guard state call → concrete.Allows state call →
    invariant (concrete.effect state call)

variable {concrete : Service σ κ} {abstract : Service τ κ} {guard : σ → κ → Prop}
  {invariant : σ → Prop} {view : σ → τ}

theorem Simulates.run (simulates : Simulates concrete abstract guard invariant view)
    {state last : σ} {calls : List (κ × Bool)} (holds : invariant state)
    (ran : concrete.Run guard state calls last) :
    abstract.Run (fun _ _ => True) (view state) calls (view last) ∧ invariant last := by
  induction ran with
  | done state => exact ⟨.done (view state), holds⟩
  | carried met allowed _ ih =>
      obtain ⟨followed, still⟩ := ih (simulates.keeps _ _ holds met allowed)
      rw [simulates.effect _ _ holds met allowed] at followed
      exact ⟨.carried trivial ((simulates.allows _ _ holds met).mp allowed) followed, still⟩
  | refused met forbidden _ ih =>
      obtain ⟨followed, still⟩ := ih holds
      refine ⟨.refused trivial ?_ followed, still⟩
      rwa [← simulates.allows _ _ holds met]

end Service

end Library
