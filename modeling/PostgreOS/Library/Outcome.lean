/-
Reasoning about computations that may fail.

A successful run of a sequence of computations gives the intermediate results one
after the other; the lemmas below take such a run apart.
-/

import Mathlib.Data.List.Basic
import Mathlib.Data.List.Forall2
import Mathlib.Logic.Relation

namespace Library.Outcome

universe u

variable {ε : Type} {α β σ : Type u}

theorem bind_eq_ok {computation : Except ε α} {next : α → Except ε β} {result : β} :
    (computation >>= next) = .ok result ↔ ∃ value, computation = .ok value ∧ next value = .ok result := by
  cases computation with
  | error error =>
      constructor
      · intro impossible
        cases impossible
      · rintro ⟨value, impossible, -⟩
        cases impossible
  | ok value =>
      constructor
      · intro done
        exact ⟨value, rfl, done⟩
      · rintro ⟨other, same, done⟩
        cases same
        exact done

theorem map_eq_ok {computation : Except ε α} {change : α → β} {result : β} :
    (change <$> computation) = .ok result ↔ ∃ value, computation = .ok value ∧ change value = result := by
  cases computation with
  | error error =>
      constructor
      · intro impossible
        cases impossible
      · rintro ⟨value, impossible, -⟩
        cases impossible
  | ok value =>
      constructor
      · intro done
        exact ⟨value, rfl, Except.ok.inj done⟩
      · rintro ⟨other, same, rfl⟩
        cases same
        rfl

theorem ok_bind (value : α) (next : α → Except ε β) :
    ((Except.ok value : Except ε α) >>= next) = next value := rfl

theorem map_ite (change : α → β) (condition : Prop) [Decidable condition] (first second : Except ε α) :
    (change <$> if condition then first else second) =
      if condition then change <$> first else change <$> second :=
  apply_ite _ condition first second

theorem exists_error_iff {computation : Except ε α} :
    (∃ error, computation = .error error) ↔ ¬ ∃ result, computation = .ok result := by
  cases computation with
  | error error => simp
  | ok value => simp

theorem mapM_congr {first second : α → Except ε β} {items : List α}
    (same : ∀ item ∈ items, first item = second item) : items.mapM first = items.mapM second := by
  induction items with
  | nil => rfl
  | cons item rest ih =>
      obtain ⟨here, later⟩ := List.forall_mem_cons.mp same
      rw [List.mapM_cons, List.mapM_cons, here, ih later]

theorem foldlM_invariant {step : σ → α → Except ε σ} (invariant : σ → Prop) {items : List α}
    (kept : ∀ state item after, item ∈ items → invariant state → step state item = .ok after →
      invariant after)
    {start finish : σ} (atStart : invariant start)
    (done : items.foldlM step start = .ok finish) : invariant finish := by
  induction items generalizing start with
  | nil =>
      cases done
      exact atStart
  | cons item rest ih =>
      rw [List.foldlM_cons, bind_eq_ok] at done
      obtain ⟨middle, stepped, later⟩ := done
      refine ih (fun state other after member => kept state other after (by simp [member])) ?_ later
      exact kept start item middle (by simp) atStart stepped

theorem mapM_eq_ok {transform : α → Except ε β} {items : List α} {results : List β} :
    items.mapM transform = .ok results ↔
      List.Forall₂ (fun item result => transform item = .ok result) items results := by
  induction items generalizing results with
  | nil =>
      rw [List.mapM_nil, List.forall₂_nil_left_iff]
      constructor
      · intro done
        cases done
        rfl
      · rintro rfl
        rfl
  | cons item rest ih =>
      rw [List.mapM_cons, bind_eq_ok, List.forall₂_cons_left_iff]
      constructor
      · rintro ⟨first, transformed, done⟩
        obtain ⟨later, remaining, same⟩ := bind_eq_ok.mp done
        cases same
        exact ⟨first, later, transformed, ih.mp remaining, rfl⟩
      · rintro ⟨first, later, transformed, remaining, rfl⟩
        exact ⟨first, transformed, bind_eq_ok.mpr ⟨later, ih.mpr remaining, rfl⟩⟩

theorem mapM_eq_some {transform : α → Option β} {result : α → β} {items : List α}
    (each : ∀ item ∈ items, transform item = some (result item)) :
    items.mapM transform = some (items.map result) := by
  induction items with
  | nil => rfl
  | cons item rest ih =>
      obtain ⟨here, later⟩ := List.forall_mem_cons.mp each
      rw [List.mapM_cons, here, ih later]
      rfl

theorem mapM_results {items : List (Except ε α)} {results : List α}
    (done : items.mapM (fun item => item) = .ok results) : items = results.map .ok := by
  have each := mapM_eq_ok.mp done
  clear done
  induction each with
  | nil => rfl
  | cons same _ ih => rw [List.map_cons, same, ← ih]

theorem exists_mapM (items : List α) (transform : α → Except ε β) (related : α → β → Prop)
    (each : ∀ item ∈ items, ∃ result, transform item = .ok result ∧ related item result) :
    ∃ results, items.mapM transform = .ok results ∧ List.Forall₂ related items results := by
  induction items with
  | nil => exact ⟨[], rfl, .nil⟩
  | cons item rest ih =>
      obtain ⟨first, transformed, fits⟩ := each item List.mem_cons_self
      obtain ⟨later, remaining, others⟩ := ih fun other member =>
        each other (List.mem_cons_of_mem item member)
      refine ⟨first :: later, ?_, .cons fits others⟩
      rw [List.mapM_cons, transformed, ok_bind, remaining]
      rfl

theorem mapM_mapM_eq_ok {γ : Type u} {first : α → Except ε β} {second : β → Except ε γ}
    {items : List α} {results : List γ} :
    (∃ middle, items.mapM first = .ok middle ∧ middle.mapM second = .ok results) ↔
      List.Forall₂ (fun item result => ∃ value, first item = .ok value ∧ second value = .ok result)
        items results := by
  simp only [mapM_eq_ok]
  constructor
  · rintro ⟨middle, before, after⟩
    induction before generalizing results with
    | nil =>
        cases after
        exact .nil
    | cons made _ ih =>
        obtain ⟨result, rest, done, later, rfl⟩ := List.forall₂_cons_left_iff.mp after
        exact .cons ⟨_, made, done⟩ (ih later)
  · intro each
    induction each with
    | nil => exact ⟨[], .nil, .nil⟩
    | cons done _ ih =>
        obtain ⟨value, made, finished⟩ := done
        obtain ⟨middle, before, after⟩ := ih
        exact ⟨value :: middle, .cons made before, .cons finished after⟩

theorem forall₂_filterMap_iff {γ : Type u} {row : α → Option β} {keep : α → Bool}
    {rowRelated : β → γ → Prop} {related : α → γ → Prop} {items : List α} {results : List γ}
    (dropped : ∀ item ∈ items, keep item = false → row item = none)
    (kept : ∀ item ∈ items, keep item = true →
      ∃ value, row item = some value ∧ ∀ result, rowRelated value result ↔ related item result) :
    List.Forall₂ rowRelated (items.filterMap row) results ↔
      List.Forall₂ related (items.filter keep) results := by
  induction items generalizing results with
  | nil => simp
  | cons item rest ih =>
      rw [List.forall_mem_cons] at dropped kept
      have later := fun results => @ih results dropped.2 kept.2
      cases chosen : keep item with
      | false =>
          rw [List.filterMap_cons_none (dropped.1 chosen),
            List.filter_cons_of_neg (Bool.not_eq_true _ ▸ chosen)]
          exact later results
      | true =>
          obtain ⟨value, found, same⟩ := kept.1 chosen
          rw [List.filterMap_cons_some found, List.filter_cons_of_pos chosen,
            List.forall₂_cons_left_iff, List.forall₂_cons_left_iff]
          simp only [same, later]

theorem exists_left_of_forall₂ (related : α → β → Prop) {items : List α} {results : List β}
    (each : List.Forall₂ related items results) {result : β} (member : result ∈ results) :
    ∃ item ∈ items, related item result := by
  induction each with
  | nil => cases member
  | @cons item first rest later fits _ ih =>
      rcases List.mem_cons.mp member with rfl | inRest
      · exact ⟨item, List.mem_cons_self, fits⟩
      · obtain ⟨other, otherMember, otherFits⟩ := ih inRest
        exact ⟨other, List.mem_cons_of_mem item otherMember, otherFits⟩

theorem exists_right_of_forall₂ {related : α → β → Prop} {items : List α} {results : List β}
    (each : List.Forall₂ related items results) {item : α} (member : item ∈ items) :
    ∃ result ∈ results, related item result :=
  exists_left_of_forall₂ (fun result item => related item result) each.flip member

end Library.Outcome
