/-
Resolving a path from left to right.

A step of a path stays, goes up or goes down to a name. From the start no step leads up,
so a path resolves as long as it has never gone up more often than down.
-/

import Mathlib.Data.List.Infix

namespace Library.Resolution

variable {α : Type}

inductive PathStep (α : Type) where
  | stay
  | up
  | down (name : α)
  deriving DecidableEq, Repr

/-- Where a step leads; a place is the list of the names above it and its own. -/
def move (place : List α) : PathStep α → Option (List α)
  | .stay => some place
  | .up => if place.isEmpty then none else some place.dropLast
  | .down name => some (place ++ [name])

def resolve (place : List α) (steps : List (PathStep α)) : Option (List α) :=
  steps.foldlM move place

def ups : List (PathStep α) → Nat
  | [] => 0
  | .up :: rest => ups rest + 1
  | _ :: rest => ups rest

def downs : List (PathStep α) → Nat
  | [] => 0
  | .down _ :: rest => downs rest + 1
  | _ :: rest => downs rest

def Inside (steps : List (PathStep α)) : Prop :=
  ∀ front, front <+: steps → ups front ≤ downs front

@[simp] theorem resolve_nil (place : List α) : resolve place [] = some place := rfl

theorem resolve_cons (place : List α) (step : PathStep α) (rest : List (PathStep α)) :
    resolve place (step :: rest) = (move place step).bind fun next => resolve next rest := rfl

theorem resolve_append (place : List α) (first second : List (PathStep α)) :
    resolve place (first ++ second) = (resolve place first).bind fun next => resolve next second :=
  List.foldlM_append

@[simp] theorem resolve_stay (place : List α) (rest : List (PathStep α)) :
    resolve place (.stay :: rest) = resolve place rest := rfl

@[simp] theorem resolve_down (place : List α) (name : α) (rest : List (PathStep α)) :
    resolve place (.down name :: rest) = resolve (place ++ [name]) rest := rfl

@[simp] theorem resolve_up_nil (rest : List (PathStep α)) :
    resolve ([] : List α) (.up :: rest) = none := rfl

theorem resolve_up {place : List α} (below : place ≠ []) (rest : List (PathStep α)) :
    resolve place (.up :: rest) = resolve place.dropLast rest := by
  rw [resolve_cons, move, if_neg (by simpa using below)]
  rfl

theorem resolve_downs (place names : List α) :
    resolve place (names.map .down) = some (place ++ names) := by
  induction names generalizing place with
  | nil => simp
  | cons name rest ih =>
      rw [List.map_cons, resolve_down, ih, List.append_assoc]
      rfl

theorem resolve_filter_map {β : Type} (step : β → PathStep α) (keep : β → Bool)
    (stays : ∀ part, keep part = false → step part = .stay) (place : List α) (parts : List β) :
    resolve place ((parts.filter keep).map step) = resolve place (parts.map step) := by
  induction parts generalizing place with
  | nil => rfl
  | cons part rest ih =>
      cases kept : keep part with
      | false =>
          rw [List.filter_cons_of_neg (by simp [kept]), ih, List.map_cons, stays part kept,
            resolve_stay]
      | true =>
          rw [List.filter_cons_of_pos kept, List.map_cons, List.map_cons, resolve_cons, resolve_cons]
          simp only [ih]

theorem mem_of_move {place next : List α} {step : PathStep α} {name : α}
    (moved : move place step = some next) (member : name ∈ next) :
    name ∈ place ∨ step = .down name := by
  cases step with
  | stay =>
      obtain rfl := Option.some.inj moved
      exact Or.inl member
  | down last =>
      obtain rfl := Option.some.inj moved
      rcases List.mem_append.mp member with above | same
      · exact Or.inl above
      · rw [List.mem_singleton.mp same]
        exact Or.inr rfl
  | up =>
      cases place with
      | nil => cases moved
      | cons head rest =>
          obtain rfl := Option.some.inj moved
          exact Or.inl (List.mem_of_mem_dropLast member)

theorem mem_of_resolve {place result : List α} {steps : List (PathStep α)} {name : α}
    (found : resolve place steps = some result) (member : name ∈ result) :
    name ∈ place ∨ .down name ∈ steps := by
  induction steps generalizing place with
  | nil =>
      obtain rfl := Option.some.inj found
      exact Or.inl member
  | cons step rest ih =>
      rw [resolve_cons] at found
      obtain ⟨next, moved, later⟩ := Option.bind_eq_some_iff.mp found
      rcases ih later with above | below
      · rcases mem_of_move moved above with old | rfl
        · exact Or.inl old
        · exact Or.inr List.mem_cons_self
      · exact Or.inr (List.mem_cons_of_mem step below)

theorem resolve_below (base : List α) {place result : List α} {steps : List (PathStep α)}
    (found : resolve place steps = some result) :
    resolve (base ++ place) steps = some (base ++ result) := by
  induction steps generalizing place with
  | nil =>
      rw [resolve_nil, Option.some.injEq] at found
      rw [resolve_nil, found]
  | cons step rest ih =>
      cases step with
      | stay => exact ih found
      | down name =>
          rw [resolve_down] at found ⊢
          rw [List.append_assoc]
          exact ih found
      | up =>
          have below : place ≠ [] := by
            rintro rfl
            cases found
          rw [resolve_up below] at found
          rw [resolve_up (List.append_ne_nil_of_right_ne_nil base below),
            List.dropLast_append_of_ne_nil below]
          exact ih found

/-- How far up the steps may lead is the depth of the place. -/
theorem resolve_isSome_iff (place : List α) (steps : List (PathStep α)) :
    (resolve place steps).isSome = true ↔
      ∀ front, front <+: steps → ups front ≤ place.length + downs front := by
  induction steps generalizing place with
  | nil =>
      simp only [resolve_nil, Option.isSome_some, List.prefix_nil, true_iff]
      rintro front rfl
      exact Nat.zero_le _
  | cons step rest ih =>
      have fronts (bound : List (PathStep α) → Prop) : (∀ front, front <+: step :: rest → bound front) ↔
          bound [] ∧ ∀ front, front <+: rest → bound (step :: front) := by
        simp only [List.prefix_cons_iff]
        constructor
        · intro all
          exact ⟨all [] (Or.inl rfl), fun front begins => all _ (Or.inr ⟨front, rfl, begins⟩)⟩
        · rintro ⟨empty, longer⟩ front (rfl | ⟨shorter, rfl, begins⟩)
          · exact empty
          · exact longer shorter begins
      rw [fronts]
      cases step with
      | stay => simp [ih, ups, downs]
      | down name => simp [ih, ups, downs, Nat.add_assoc, Nat.add_comm 1]
      | up =>
          by_cases below : place = []
          · subst below
            simp only [resolve_up_nil, Option.isSome_none, Bool.false_eq_true, false_iff, not_and]
            intro _ all
            exact absurd (all [] List.nil_prefix) (by simp [ups, downs])
          · have positive := List.length_pos_of_ne_nil below
            rw [resolve_up below, ih, List.length_dropLast]
            simp only [ups, downs, Nat.zero_le, true_and]
            refine forall₂_congr fun front begins => ?_
            omega

theorem resolve_isSome_iff_inside (steps : List (PathStep α)) :
    (resolve [] steps).isSome = true ↔ Inside steps := by
  rw [resolve_isSome_iff]
  simp [Inside]

theorem not_inside_iff (steps : List (PathStep α)) :
    ¬ Inside steps ↔ ∃ front, front <+: steps ∧ downs front < ups front := by
  simp [Inside]

end Library.Resolution
