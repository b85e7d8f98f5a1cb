/-
Reading a list in pages while it changes.

Every page is cut from the list as it is then, at the position after the last element
returned. An element that stays in the list can slide over that position between two
pages: to the front, and it is skipped, or to the back, and it is shown again.
-/

import Mathlib.Data.List.Basic

namespace Library.Paging

variable {α : Type*}

/-- The list at the time of a page, and the number of elements the page has room for. -/
structure Page (α : Type*) where
  listing : List α
  capacity : Nat

def returned (offset : Nat) (page : Page α) : List α :=
  (page.listing.drop offset).take page.capacity

def next (offset : Nat) (page : Page α) : Nat :=
  offset + (returned offset page).length

/-- All elements returned by pages from `offset` on. -/
def collected : Nat → List (Page α) → List α
  | _, [] => []
  | offset, page :: pages => returned offset page ++ collected (next offset page) pages

def finish : Nat → List (Page α) → Nat
  | offset, [] => offset
  | offset, page :: pages => finish (next offset page) pages

section Elements

variable [BEq α] {item : α} {offset : Nat} {page : Page α}

def passed (item : α) (offset : Nat) (page : Page α) : Nat :=
  if page.listing.idxOf item < offset then 1 else 0

/-- How often the element slides to the front over the beginning of a page. -/
def skips (item : α) : Nat → List (Page α) → Nat
  | offset, page :: later :: pages =>
      (if passed item (next offset page) page < passed item (next offset page) later then 1 else 0) +
        skips item (next offset page) (later :: pages)
  | _, _ => 0

/-- How often the element slides to the back over the beginning of a page. -/
def repeats (item : α) : Nat → List (Page α) → Nat
  | offset, page :: later :: pages =>
      (if passed item (next offset page) later < passed item (next offset page) page then 1 else 0) +
        repeats item (next offset page) (later :: pages)
  | _, _ => 0

theorem passed_le_one (item : α) (offset : Nat) (page : Page α) : passed item offset page ≤ 1 := by
  unfold passed
  split
  · exact Nat.le_refl 1
  · exact Nat.zero_le 1

variable [LawfulBEq α]

theorem eq_idxOf_of_getElem {items : List α} (once : items.count item = 1) {index : Nat}
    (bound : index < items.length) (same : items[index] = item) : index = items.idxOf item := by
  obtain ⟨front, back, rfl, notFront⟩ :=
    List.eq_append_cons_of_mem (List.count_pos_iff.mp (once ▸ Nat.one_pos))
  have notBack : item ∉ back := by
    rw [List.count_append, List.count_cons_self, List.count_eq_zero_of_not_mem notFront] at once
    exact List.count_eq_zero.mp (by omega)
  rw [List.idxOf_append_of_notMem notFront, List.idxOf_cons_self, Nat.add_zero]
  rcases Nat.lt_trichotomy index front.length with before | here | behind
  · rw [List.getElem_append_left before] at same
    exact absurd (same ▸ List.getElem_mem before) notFront
  · exact here
  · rw [List.getElem_append_right (Nat.le_of_lt behind), List.getElem_cons] at same
    rw [dif_neg (by omega)] at same
    exact absurd (same ▸ List.getElem_mem _) notBack

theorem count_take_drop {items : List α} (once : items.count item = 1) (start room : Nat) :
    ((items.drop start).take room).count item =
      if start ≤ items.idxOf item ∧ items.idxOf item < start + room then 1 else 0 := by
  have atMost : ((items.drop start).take room).count item ≤ 1 :=
    once ▸ ((List.take_sublist _ _).trans (List.drop_sublist _ _)).count_le item
  have member : item ∈ items := List.count_pos_iff.mp (once ▸ Nat.one_pos)
  have inside : item ∈ (items.drop start).take room ↔
      start ≤ items.idxOf item ∧ items.idxOf item < start + room := by
    rw [List.mem_take_iff_getElem]
    constructor
    · rintro ⟨index, bound, same⟩
      rw [List.length_drop] at bound
      rw [List.getElem_drop] at same
      have position := eq_idxOf_of_getElem once (by omega) same
      omega
    · rintro ⟨lower, upper⟩
      have within := List.idxOf_lt_length_of_mem member
      refine ⟨items.idxOf item - start, ?_, ?_⟩
      · rw [List.length_drop]
        omega
      · rw [List.getElem_drop]
        have position : start + (items.idxOf item - start) = items.idxOf item := by omega
        simp only [position]
        exact List.getElem_idxOf within
  by_cases here : item ∈ (items.drop start).take room
  · rw [if_pos (inside.mp here)]
    have atLeast := List.count_pos_iff.mpr here
    omega
  · rw [if_neg (mt inside.mpr here)]
    exact List.count_eq_zero_of_not_mem here

theorem count_returned (once : page.listing.count item = 1) :
    (returned offset page).count item + passed item offset page =
      passed item (next offset page) page := by
  have within := List.idxOf_lt_length_of_mem (List.count_pos_iff.mp (once ▸ Nat.one_pos))
  have length : (returned offset page).length =
      min page.capacity (page.listing.length - offset) := by
    unfold returned
    rw [List.length_take, List.length_drop]
  unfold passed next
  rw [length]
  unfold returned
  rw [count_take_drop once]
  by_cases before : page.listing.idxOf item < offset
  · rw [if_neg (by omega), if_pos before, if_pos (by omega)]
  · by_cases inside : page.listing.idxOf item < offset + page.capacity
    · rw [if_pos (by omega), if_neg before, if_pos (by omega)]
    · rw [if_neg (by omega), if_neg before, if_neg (by omega)]

/-- What the pages return of an element that stays. -/
theorem count_collected (pages : List (Page α)) (page : Page α) (offset : Nat)
    (stays : ∀ shown ∈ page :: pages, shown.listing.count item = 1) :
    (collected offset (page :: pages)).count item + passed item offset page +
        skips item offset (page :: pages) =
      passed item (finish offset (page :: pages)) ((page :: pages).getLast (List.cons_ne_nil _ _)) +
        repeats item offset (page :: pages) := by
  induction pages generalizing page offset with
  | nil =>
      have one : (returned offset page).count item + passed item offset page = _ :=
        count_returned (stays page List.mem_cons_self)
      simp only [collected, finish, skips, repeats, List.append_nil, List.getLast_singleton]
      omega
  | cons later pages ih =>
      have one : (returned offset page).count item + passed item offset page = _ :=
        count_returned (stays page List.mem_cons_self)
      have rest := ih later (next offset page) fun shown shownMember =>
        stays shown (List.mem_cons_of_mem _ shownMember)
      have atPage := passed_le_one item (next offset page) page
      have atLater := passed_le_one item (next offset page) later
      rw [List.getLast_cons (List.cons_ne_nil later pages)]
      simp only [collected, finish, skips, repeats, List.count_append] at rest ⊢
      split
      · rw [if_neg (by omega)]
        omega
      · split
        · omega
        · omega

theorem count_eq_one_iff {pages : List (Page α)} {last : Page α}
    (stays : ∀ shown ∈ pages ++ [last], shown.listing.count item = 1)
    (ended : last.listing.length ≤ finish 0 (pages ++ [last])) :
    (collected 0 (pages ++ [last])).count item = 1 ↔
      skips item 0 (pages ++ [last]) = repeats item 0 (pages ++ [last]) := by
  have atEnd : passed item (finish 0 (pages ++ [last])) last = 1 := by
    have once := stays last (by simp)
    have within := List.idxOf_lt_length_of_mem (List.count_pos_iff.mp (once ▸ Nat.one_pos))
    unfold passed
    exact if_pos (by omega)
  cases whole : pages ++ [last] with
  | nil => simp at whole
  | cons first rest =>
      have counted : (collected 0 (first :: rest)).count item + _ + _ = _ :=
        count_collected rest first 0 (whole ▸ stays)
      have same : (first :: rest).getLast (List.cons_ne_nil _ _) = last := by
        simp only [← whole, List.getLast_append_singleton]
      have atStart : passed item 0 first = 0 := if_neg (Nat.not_lt_zero _)
      rw [whole] at atEnd
      rw [same, atEnd, atStart] at counted
      omega

end Elements

end Library.Paging
