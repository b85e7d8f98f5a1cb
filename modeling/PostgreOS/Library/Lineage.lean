/-
Tables whose rows descend from earlier rows.

Rows carry serial numbers that are handed out in order. Every row of the later table whose
number had already been handed out descends from a row of the earlier table, so that a number
that left the table does not come back.
-/

import PostgreOS.Library.Table

namespace Library.Lineage

open Library.Table

variable {α : Type*}

/-- Every row of `after` with a number below `bound` is related to a row of `before`. -/
def Descends (number : α → Nat) (related : α → α → Prop) (bound : Nat) (before after : List α) :
    Prop :=
  ∀ row ∈ after, number row < bound → ∃ old ∈ before, related old row

section Steps

variable {number : α → Nat} {first second related : α → α → Prop} {bound next : Nat}
  {before middle after : List α}

theorem Descends.trans (hFirst : Descends number first bound before middle)
    (hSecond : Descends number second next middle after) (later : bound ≤ next)
    (numbers : ∀ old row, second old row → number old = number row)
    (compose : ∀ old middle row, first old middle → second middle row → related old row) :
    Descends number related bound before after := by
  intro row member old
  obtain ⟨mid, midMember, descended⟩ := hSecond row member (Nat.lt_of_lt_of_le old later)
  have midOld : number mid < bound := by
    rw [numbers mid row descended]
    exact old
  obtain ⟨start, startMember, earlier⟩ := hFirst mid midMember midOld
  exact ⟨start, startMember, compose start mid row earlier descended⟩

theorem Descends.of_subset (subset : after ⊆ before)
    (same : ∀ row ∈ before, related row row) : Descends number related bound before after :=
  fun row member _ => ⟨row, subset member, same row (subset member)⟩

theorem Descends.append {added : List α} (fresh : ∀ row ∈ added, bound ≤ number row)
    (same : ∀ row ∈ before, related row row) :
    Descends number related bound before (before ++ added) := by
  intro row member old
  rcases List.mem_append.mp member with stays | new
  · exact ⟨row, stays, same row stays⟩
  · exact absurd old (Nat.not_lt.mpr (fresh row new))

theorem Descends.map {change : α → α} (each : ∀ row ∈ before, related row (change row)) :
    Descends number related bound before (before.map change) := by
  intro row member _
  obtain ⟨old, oldMember, rfl⟩ := List.mem_map.mp member
  exact ⟨old, oldMember, each old oldMember⟩

theorem Descends.rewrite {selected : α → Bool} {change : α → α}
    (same : ∀ row ∈ before, related row row)
    (each : ∀ row ∈ before, selected row = true → related row (change row)) :
    Descends number related bound before (before.map (rewritten selected change)) := by
  refine .map ?_
  intro row member
  cases chosen : selected row with
  | false =>
      rw [rewritten_of_not_selected chosen]
      exact same row member
  | true =>
      rw [rewritten_of_selected chosen]
      exact each row member chosen

end Steps

end Library.Lineage
