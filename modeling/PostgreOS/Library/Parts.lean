/-
Parts of tables.

A part is the rows that a condition owns. Statements that insert, delete and rewrite only
rows outside the part leave it as it is, whatever they do to the rest of the table.
-/

import PostgreOS.Library.Table

namespace Library.Parts

open Library.Table

variable {α : Type*} {own : α → Bool} {rows : List α}

theorem filter_append_foreign {added : List α} (foreign : ∀ row ∈ added, own row = false) :
    (rows ++ added).filter own = rows.filter own := by
  have none : added.filter own = [] := by
    rw [List.filter_eq_nil_iff]
    intro row member owned
    rw [foreign row member] at owned
    cases owned
  rw [List.filter_append, none, List.append_nil]

theorem filter_filter_own {keep : α → Bool}
    (kept : ∀ row ∈ rows, own row = true → keep row = true) :
    (rows.filter keep).filter own = rows.filter own := by
  rw [List.filter_filter]
  apply List.filter_congr
  intro row member
  cases owned : own row with
  | false => exact Bool.false_and _
  | true => rw [kept row member owned, Bool.and_self]

theorem filter_map_own {change : α → α} (owner : ∀ row ∈ rows, own (change row) = own row)
    (same : ∀ row ∈ rows, own row = true → change row = row) :
    (rows.map change).filter own = rows.filter own := by
  induction rows with
  | nil => rfl
  | cons row rest ih =>
      rw [List.forall_mem_cons] at owner same
      have later := ih owner.2 same.2
      cases owned : own row with
      | false =>
          rw [List.map_cons, List.filter_cons_of_neg (by simp [owner.1, owned]),
            List.filter_cons_of_neg (by simp [owned]), later]
      | true =>
          rw [List.map_cons, List.filter_cons_of_pos (by rw [owner.1, owned]),
            List.filter_cons_of_pos owned, later, same.1 owned]

theorem filter_rewritten {selected : α → Bool} {change : α → α}
    (foreign : ∀ row ∈ rows, selected row = true → own row = false ∧ own (change row) = false) :
    (rows.map (rewritten selected change)).filter own = rows.filter own := by
  apply filter_map_own
  · intro row member
    cases chosen : selected row with
    | false => rw [rewritten_of_not_selected chosen]
    | true =>
        obtain ⟨before, after⟩ := foreign row member chosen
        rw [rewritten_of_selected chosen, before, after]
  · intro row member owned
    cases chosen : selected row with
    | false => rw [rewritten_of_not_selected chosen]
    | true =>
        rw [(foreign row member chosen).1] at owned
        cases owned

end Library.Parts
