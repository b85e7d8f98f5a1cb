/-
Lists of segments written with one separator, such as the components of a path.

A segment is nonempty and free of the separator. The rendered form puts the
separator in front of every segment, so concatenation of segment lists is
concatenation of the rendered forms, and a segment boundary is visible as an
occurrence of the separator. Nothing here depends on what the symbols are.
-/

import Mathlib.Data.List.Basic
import Mathlib.Data.List.Infix

namespace Library.Segments

variable {α : Type*}

def Segment (sep : α) (part : List α) : Prop :=
  part ≠ [] ∧ sep ∉ part

instance [DecidableEq α] (sep : α) (part : List α) : Decidable (Segment sep part) :=
  inferInstanceAs (Decidable (_ ∧ _))

def AllSegments (sep : α) (parts : List (List α)) : Prop :=
  ∀ part ∈ parts, Segment sep part

/-- Every segment is preceded by the separator; the empty list renders to nothing. -/
def render (sep : α) (parts : List (List α)) : List α :=
  parts.flatMap (sep :: ·)

@[simp] theorem render_nil (sep : α) : render sep [] = [] := rfl

@[simp] theorem render_cons (sep : α) (part : List α) (parts : List (List α)) :
    render sep (part :: parts) = sep :: (part ++ render sep parts) := by
  simp [render]

@[simp] theorem render_append (sep : α) (left right : List (List α)) :
    render sep (left ++ right) = render sep left ++ render sep right := by
  simp [render]

theorem render_eq_nil_iff (sep : α) (parts : List (List α)) :
    render sep parts = [] ↔ parts = [] := by
  cases parts with
  | nil => simp
  | cons part rest => simp

theorem render_head (sep : α) (parts : List (List α)) :
    render sep parts = [] ∨ ∃ tail, render sep parts = sep :: tail := by
  cases parts with
  | nil => exact Or.inl rfl
  | cons part rest => exact Or.inr ⟨_, render_cons sep part rest⟩

theorem allSegments_cons_iff (sep : α) (part : List α) (parts : List (List α)) :
    AllSegments sep (part :: parts) ↔ Segment sep part ∧ AllSegments sep parts := by
  simp [AllSegments]

/-- Two separator-free blocks that are each followed by nothing or by the
separator agree as soon as the whole texts agree. -/
theorem segment_cancel (sep : α) {first second firstTail secondTail : List α}
    (hFirst : sep ∉ first) (hSecond : sep ∉ second)
    (firstEnd : firstTail = [] ∨ ∃ tail, firstTail = sep :: tail)
    (secondEnd : secondTail = [] ∨ ∃ tail, secondTail = sep :: tail)
    (same : first ++ firstTail = second ++ secondTail) :
    first = second ∧ firstTail = secondTail := by
  induction first generalizing second with
  | nil =>
      cases second with
      | nil => exact ⟨rfl, same⟩
      | cons head rest =>
          exfalso
          rw [List.nil_append, List.cons_append] at same
          rcases firstEnd with rfl | ⟨tail, rfl⟩
          · cases same
          · obtain ⟨rfl, -⟩ := List.cons.inj same
            exact hSecond List.mem_cons_self
  | cons head rest ih =>
      cases second with
      | nil =>
          exfalso
          rw [List.nil_append, List.cons_append] at same
          rcases secondEnd with rfl | ⟨tail, rfl⟩
          · cases same
          · obtain ⟨rfl, -⟩ := List.cons.inj same
            exact hFirst List.mem_cons_self
      | cons other more =>
          obtain ⟨rfl, sameRest⟩ := List.cons.inj same
          obtain ⟨rfl, tails⟩ := ih (fun member => hFirst (List.mem_cons_of_mem _ member))
            (fun member => hSecond (List.mem_cons_of_mem _ member)) sameRest
          exact ⟨rfl, tails⟩

/-- A separator-terminated rendering is a prefix of another one exactly at a
segment boundary that is not the end. -/
theorem render_boundary_prefix_iff (sep : α) {parts whole : List (List α)}
    (hParts : AllSegments sep parts) (hWhole : AllSegments sep whole) :
    render sep parts ++ [sep] <+: render sep whole ↔ parts <+: whole ∧ parts ≠ whole := by
  induction parts generalizing whole with
  | nil =>
      cases whole with
      | nil => simp
      | cons part rest => simp
  | cons part rest ih =>
      cases whole with
      | nil => simp
      | cons other more =>
          have hPart := (allSegments_cons_iff sep part rest).mp hParts
          have hOther := (allSegments_cons_iff sep other more).mp hWhole
          constructor
          · rintro ⟨tail, same⟩
            simp only [render_cons, List.cons_append, List.append_assoc, List.cons.injEq,
              true_and] at same
            have boundary : ∃ back, render sep rest ++ ([sep] ++ tail) = sep :: back := by
              rcases render_head sep rest with empty | ⟨back, found⟩
              · exact ⟨tail, by rw [empty]; rfl⟩
              · exact ⟨back ++ ([sep] ++ tail), by rw [found]; rfl⟩
            obtain ⟨samePart, sameRest⟩ := segment_cancel sep hPart.1.2 hOther.1.2
              (Or.inr boundary) (render_head sep more) same
            have inner : render sep rest ++ [sep] <+: render sep more :=
              ⟨tail, by rw [List.append_assoc]; exact sameRest⟩
            obtain ⟨isPrefix, proper⟩ := (ih hPart.2 hOther.2).mp inner
            refine ⟨List.cons_prefix_cons.mpr ⟨samePart, isPrefix⟩, ?_⟩
            intro equal
            exact proper (List.cons.inj equal).2
          · rintro ⟨isPrefix, proper⟩
            obtain ⟨rfl, restPrefix⟩ := List.cons_prefix_cons.mp isPrefix
            have restProper : rest ≠ more := fun equal => proper (by rw [equal])
            obtain ⟨tail, same⟩ := (ih hPart.2 hOther.2).mpr ⟨restPrefix, restProper⟩
            refine ⟨tail, ?_⟩
            rw [render_cons, render_cons, ← same]
            simp

theorem exists_prefix_of_boundary (sep : α) {parts : List (List α)} (hParts : AllSegments sep parts)
    {stem : List α} (isPrefix : stem ++ [sep] <+: render sep parts) :
    ∃ front, front <+: parts ∧ stem = render sep front := by
  induction parts generalizing stem with
  | nil => exact absurd (List.prefix_nil.mp isPrefix) (by simp)
  | cons part rest ih =>
      obtain ⟨⟨-, free⟩, others⟩ := (allSegments_cons_iff sep part rest).mp hParts
      cases stem with
      | nil => exact ⟨[], List.nil_prefix, rfl⟩
      | cons symbol more =>
          rw [List.cons_append, render_cons, List.cons_prefix_cons] at isPrefix
          obtain ⟨rfl, tail, whole⟩ := isPrefix
          rw [List.append_assoc] at whole
          rcases List.append_eq_append_iff.mp whole with ⟨extra, inPart, behind⟩ | ⟨extra, rfl, behind⟩
          · cases extra with
            | nil =>
                refine ⟨[part], List.cons_prefix_cons.mpr ⟨rfl, List.nil_prefix⟩, ?_⟩
                rw [inPart, List.append_nil, render_cons, render_nil, List.append_nil]
            | cons next extra =>
                rw [List.singleton_append, List.cons_append] at behind
                obtain ⟨rfl, -⟩ := List.cons.inj behind
                exact absurd (inPart ▸ List.mem_append_right more List.mem_cons_self) free
          · obtain ⟨front, inRest, rfl⟩ := ih others
              ⟨tail, by rw [behind, List.append_assoc]⟩
            exact ⟨part :: front, List.cons_prefix_cons.mpr ⟨rfl, inRest⟩, by rw [render_cons]⟩

theorem render_injective (sep : α) {left right : List (List α)}
    (hLeft : AllSegments sep left) (hRight : AllSegments sep right)
    (same : render sep left = render sep right) : left = right := by
  induction left generalizing right with
  | nil => exact ((render_eq_nil_iff sep right).mp same.symm).symm
  | cons part rest ih =>
      cases right with
      | nil => simp at same
      | cons other more =>
          have hPart := (allSegments_cons_iff sep part rest).mp hLeft
          have hOther := (allSegments_cons_iff sep other more).mp hRight
          simp only [render_cons, List.cons.injEq, true_and] at same
          obtain ⟨rfl, sameRest⟩ := segment_cancel sep hPart.1.2 hOther.1.2
            (render_head sep rest) (render_head sep more) same
          rw [ih hPart.2 hOther.2 sameRest]

theorem render_eq_cons_intercalate (sep : α) {parts : List (List α)} (nonempty : parts ≠ []) :
    render sep parts = sep :: [sep].intercalate parts := by
  induction parts with
  | nil => exact absurd rfl nonempty
  | cons part rest ih =>
      cases rest with
      | nil => simp
      | cons next more =>
          rw [render_cons, ih (List.cons_ne_nil _ _)]
          simp

theorem mem_intercalate {symbol : α} {separator part : List α} {parts : List (List α)}
    (member : part ∈ parts) (inPart : symbol ∈ part) : symbol ∈ separator.intercalate parts := by
  induction parts with
  | nil => cases member
  | cons head rest ih =>
      by_cases last : rest = []
      · subst last
        rw [List.intercalate_singleton, ← List.mem_singleton.mp member]
        exact inPart
      · rw [List.intercalate_cons_of_ne_nil last]
        rcases List.mem_cons.mp member with rfl | later
        · exact List.mem_append_left _ (List.mem_append_left _ inPart)
        · exact List.mem_append_right _ (ih later)

theorem mem_of_mem_intercalate {symbol : α} {separator : List α} {parts : List (List α)}
    (member : symbol ∈ separator.intercalate parts) :
    symbol ∈ separator ∨ ∃ part ∈ parts, symbol ∈ part := by
  induction parts with
  | nil => cases member
  | cons head rest ih =>
      by_cases last : rest = []
      · subst last
        rw [List.intercalate_singleton] at member
        exact Or.inr ⟨head, List.mem_cons_self, member⟩
      · rw [List.intercalate_cons_of_ne_nil last, List.append_assoc] at member
        rcases List.mem_append.mp member with inHead | later
        · exact Or.inr ⟨head, List.mem_cons_self, inHead⟩
        · rcases List.mem_append.mp later with inSeparator | inRest
          · exact Or.inl inSeparator
          · exact (ih inRest).imp_right fun ⟨part, inParts, inPart⟩ =>
              ⟨part, List.mem_cons_of_mem head inParts, inPart⟩

theorem notMem_of_mem_splitOn [DecidableEq α] (separator : α) (input : List α) :
    ∀ part ∈ input.splitOn separator, separator ∉ part := by
  induction input with
  | nil => simp [List.splitOn_nil]
  | cons symbol rest ih =>
      intro part member
      rw [List.splitOn_cons_eq_if_modifyHead] at member
      split at member
      · rcases List.mem_cons.mp member with rfl | later
        · exact List.not_mem_nil
        · exact ih part later
      · rename_i other
        cases found : rest.splitOn separator with
        | nil => exact absurd found (List.splitOn_ne_nil separator rest)
        | cons head tail =>
            rw [found] at member ih
            rcases List.mem_cons.mp member with rfl | later
            · have headFree := ih head List.mem_cons_self
              simp only [List.mem_cons, not_or]
              exact ⟨fun same => other (by simp [same]), headFree⟩
            · exact ih part (List.mem_cons_of_mem head later)

theorem intercalate_prefix (separator : List α) {kept parts : List (List α)} (begins : kept <+: parts) :
    separator.intercalate kept <+: separator.intercalate parts := by
  induction kept generalizing parts with
  | nil => exact List.nil_prefix
  | cons head rest ih =>
      cases parts with
      | nil => exact absurd (List.prefix_nil.mp begins) (List.cons_ne_nil head rest)
      | cons other more =>
          rw [List.cons_prefix_cons] at begins
          obtain ⟨rfl, begins⟩ := begins
          by_cases last : rest = []
          · subst last
            rw [List.intercalate_singleton]
            by_cases alone : more = []
            · rw [alone, List.intercalate_singleton]
            · rw [List.intercalate_cons_of_ne_nil alone, List.append_assoc]
              exact List.prefix_append head _
          · have longer : more ≠ [] := by
              rintro rfl
              exact last (List.prefix_nil.mp begins)
            rw [List.intercalate_cons_of_ne_nil last, List.intercalate_cons_of_ne_nil longer,
              List.prefix_append_right_inj]
            exact ih begins

end Library.Segments
