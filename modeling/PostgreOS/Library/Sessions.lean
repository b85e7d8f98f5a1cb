/-
Computations that may fail on a state, and rules for reasoning about them.

What a computation has done to the state before it fails stays done. A triple states
what holds after success, of the value and the state, and what holds after failure.
-/

import Mathlib.Init

namespace Library.Sessions

variable {σ ε α β : Type}

def Session (σ ε α : Type) : Type :=
  σ → Except ε α × σ

/-- Runs `next` on the value of `first`, unless that fails. -/
def Session.andThen (first : Session σ ε α) (next : α → Session σ ε β) : Session σ ε β := fun state =>
  match first state with
  | (.ok value, after) => next value after
  | (.error failure, after) => (.error failure, after)

instance : Monad (Session σ ε) where
  pure value := fun state => (.ok value, state)
  bind := Session.andThen

def ask (question : σ → Except ε α) : Session σ ε α := fun state =>
  (question state, state)

/-- A change of the state that does nothing when it fails. -/
def perform (action : σ → Except ε (α × σ)) : Session σ ε α := fun state =>
  match action state with
  | .ok (value, after) => (.ok value, after)
  | .error failure => (.error failure, state)

def modify (change : σ → σ) : Session σ ε Unit := fun state =>
  (.ok (), change state)

def fail (failure : ε) : Session σ ε α := fun state =>
  (.error failure, state)

/-- Reports every failure as `report`. -/
def reporting {δ : Type} (report : δ) (program : Session σ ε α) : Session σ δ α := fun state =>
  match program state with
  | (.ok value, after) => (.ok value, after)
  | (.error _, after) => (.error report, after)

/-- Goes on with `value` instead of a failure. -/
def recovering (value : α) (program : Session σ ε α) : Session σ ε α := fun state =>
  match program state with
  | (.ok answer, after) => (.ok answer, after)
  | (.error _, after) => (.ok value, after)

section Runs

variable {first : Session σ ε α} {next : α → Session σ ε β} {state after : σ} {value : α} {failure : ε}

theorem bind_of_ok (done : first state = (.ok value, after)) :
    (first >>= next) state = next value after := by
  change Session.andThen first next state = _
  unfold Session.andThen
  rw [done]

theorem bind_of_error (failed : first state = (.error failure, after)) :
    (first >>= next) state = (.error failure, after) := by
  change Session.andThen first next state = _
  unfold Session.andThen
  rw [failed]

theorem pure_eq : (Pure.pure value : Session σ ε α) state = (.ok value, state) :=
  rfl

theorem fail_eq : (fail failure : Session σ ε α) state = (.error failure, state) :=
  rfl

theorem reporting_congr {δ : Type} {report : δ} {other : Session σ ε α}
    (same : first state = other after) :
    reporting report first state = reporting report other after := by
  unfold reporting
  rw [same]

theorem reporting_of_ok {δ : Type} {report : δ} (done : first state = (.ok value, after)) :
    reporting report first state = (.ok value, after) := by
  unfold reporting
  rw [done]

theorem reporting_of_error {δ : Type} {report : δ} (failed : first state = (.error failure, after)) :
    reporting report first state = (.error report, after) := by
  unfold reporting
  rw [failed]

theorem perform_of_ok {action : σ → Except ε (α × σ)} (done : action state = .ok (value, after)) :
    perform action state = (.ok value, after) := by
  unfold perform
  rw [done]

theorem perform_of_error {action : σ → Except ε (α × σ)} (failed : action state = .error failure) :
    perform action state = (.error failure, state) := by
  unfold perform
  rw [failed]

end Runs

/-! ### Triples -/

/-- From `pre` the computation ends in `post` or fails in `failed`. -/
def Triple (pre : σ → Prop) (program : Session σ ε α) (post : α → σ → Prop) (failed : σ → Prop) :
    Prop :=
  ∀ state, pre state →
    (∀ value after, program state = (.ok value, after) → post value after) ∧
      ∀ failure after, program state = (.error failure, after) → failed after

variable {pre : σ → Prop} {post : α → σ → Prop} {failed : σ → Prop}

theorem Triple.pure {value : α} (holds : ∀ state, pre state → post value state) :
    Triple pre (Pure.pure value : Session σ ε α) post failed := by
  intro state before
  constructor
  · intro other after same
    obtain ⟨⟨⟩, rfl⟩ := Prod.mk.inj same
    exact holds _ before
  · intro failure after impossible
    cases (Prod.mk.inj impossible).1

theorem Triple.bind {middle : α → σ → Prop} {post : β → σ → Prop} {first : Session σ ε α}
    {next : α → Session σ ε β} (atFirst : Triple pre first middle failed)
    (atNext : ∀ value, Triple (middle value) (next value) post failed) :
    Triple pre (first >>= next) post failed := by
  intro state before
  obtain ⟨succeeds, fails⟩ := atFirst state before
  change (∀ value after, Session.andThen first next state = _ → _) ∧
    ∀ failure after, Session.andThen first next state = _ → _
  unfold Session.andThen
  split
  · rename_i value after done
    exact atNext value after (succeeds value after done)
  · rename_i failure after done
    constructor
    · intro value last impossible
      cases (Prod.mk.inj impossible).1
    · intro other last same
      rw [← (Prod.mk.inj same).2]
      exact fails failure after done

theorem Triple.ask {question : σ → Except ε α}
    (succeeds : ∀ state value, pre state → question state = .ok value → post value state)
    (fails : ∀ state, pre state → failed state) :
    Triple pre (ask question) post failed := by
  intro state before
  constructor
  · intro value after same
    obtain ⟨answer, rfl⟩ := Prod.mk.inj same
    exact succeeds _ value before answer
  · intro failure after same
    rw [← (Prod.mk.inj same).2]
    exact fails state before

theorem Triple.asked (question : σ → Except ε α) :
    Triple pre (Sessions.ask question) (fun _ => pre) pre :=
  .ask (fun _ _ holds _ => holds) fun _ holds => holds

theorem Triple.perform {action : σ → Except ε (α × σ)}
    (succeeds : ∀ state value after, pre state → action state = .ok (value, after) →
      post value after)
    (fails : ∀ state, pre state → failed state) :
    Triple pre (perform action) post failed := by
  intro state before
  unfold Sessions.perform
  split
  · rename_i result after done
    constructor
    · intro value last same
      obtain ⟨⟨⟩, rfl⟩ := Prod.mk.inj same
      exact succeeds state _ _ before done
    · intro failure last impossible
      cases (Prod.mk.inj impossible).1
  · constructor
    · intro value last impossible
      cases (Prod.mk.inj impossible).1
    · intro failure last same
      rw [← (Prod.mk.inj same).2]
      exact fails state before

theorem Triple.modify {change : σ → σ} {post : Unit → σ → Prop}
    (holds : ∀ state, pre state → post () (change state)) :
    Triple pre (modify change : Session σ ε Unit) post failed := by
  intro state before
  constructor
  · intro value after same
    rw [← (Prod.mk.inj same).2]
    exact holds state before
  · intro failure after impossible
    cases (Prod.mk.inj impossible).1

theorem Triple.fail {failure : ε} (fails : ∀ state, pre state → failed state) :
    Triple pre (fail failure : Session σ ε α) post failed := by
  intro state before
  constructor
  · intro value after impossible
    cases (Prod.mk.inj impossible).1
  · intro other after same
    rw [← (Prod.mk.inj same).2]
    exact fails state before

theorem Triple.reporting {δ : Type} {report : δ} {program : Session σ ε α}
    (triple : Triple pre program post failed) :
    Triple pre (reporting report program) post failed := by
  intro state before
  obtain ⟨succeeds, fails⟩ := triple state before
  unfold Sessions.reporting
  split
  · rename_i result last done
    constructor
    · intro value after same
      obtain ⟨⟨⟩, rfl⟩ := Prod.mk.inj same
      exact succeeds _ _ done
    · intro failure after impossible
      cases (Prod.mk.inj impossible).1
  · rename_i reason last done
    constructor
    · intro value after impossible
      cases (Prod.mk.inj impossible).1
    · intro failure after same
      rw [← (Prod.mk.inj same).2]
      exact fails _ _ done

theorem Triple.recovering {value : α} {program : Session σ ε α}
    (triple : Triple pre program (fun _ => failed) failed) :
    Triple pre (recovering value program) (fun _ => failed) failed := by
  intro state before
  obtain ⟨succeeds, fails⟩ := triple state before
  unfold Sessions.recovering
  split
  · rename_i result last done
    constructor
    · intro answer after same
      rw [← (Prod.mk.inj same).2]
      exact succeeds result last done
    · intro failure after impossible
      cases (Prod.mk.inj impossible).1
  · rename_i reason last done
    constructor
    · intro answer after same
      rw [← (Prod.mk.inj same).2]
      exact fails reason last done
    · intro failure after impossible
      cases (Prod.mk.inj impossible).1

theorem Triple.after {program : Session σ ε α} {state : σ}
    (triple : Triple pre program (fun _ => failed) failed) (holds : pre state) :
    failed (program state).2 := by
  obtain ⟨succeeds, fails⟩ := triple state holds
  cases result : program state with
  | mk answer after =>
      cases answer with
      | ok value => exact succeeds value after result
      | error failure => exact fails failure after result

theorem Triple.of_states {program : Session σ ε α}
    (triple : ∀ state, pre state → Triple (· = state) program post failed) :
    Triple pre program post failed := by
  intro state holds
  exact triple state holds state rfl

theorem Triple.of_run {program : Session σ ε α} {state after : σ} {value : α}
    (done : program state = (.ok value, after)) (holds : post value after) :
    Triple (· = state) program post failed := by
  rintro other rfl
  rw [done]
  constructor
  · rintro result last same
    obtain ⟨⟨⟩, rfl⟩ := Prod.mk.inj same
    exact holds
  · rintro failure last impossible
    cases (Prod.mk.inj impossible).1

theorem Triple.of_failure {program : Session σ ε α} {state after : σ} {failure : ε}
    (done : program state = (.error failure, after)) (holds : failed after) :
    Triple (· = state) program post failed := by
  rintro other rfl
  rw [done]
  constructor
  · rintro value last impossible
    cases (Prod.mk.inj impossible).1
  · rintro reason last same
    rw [← (Prod.mk.inj same).2]
    exact holds

theorem Triple.weaken {program : Session σ ε α} {stronger : σ → Prop} {result : α → σ → Prop}
    {failing : σ → Prop} (triple : Triple pre program post failed)
    (before : ∀ state, stronger state → pre state)
    (after : ∀ value state, post value state → result value state)
    (fails : ∀ state, failed state → failing state) :
    Triple stronger program result failing := by
  intro state holds
  obtain ⟨succeeds, failure⟩ := triple state (before state holds)
  exact ⟨fun value last done => after value last (succeeds value last done),
    fun reason last done => fails last (failure reason last done)⟩

end Library.Sessions
