/-
What a pattern matches inside a subject.

A span relates the symbols before a match, the matched symbols and the symbols after it, so
that a pattern may look around. Patterns are composed by sequence and by iteration.
-/

import PostgreOS.Library.Runs

namespace Library.Spans

open Library.Runs

variable {α : Type*}

/-- The symbols before a match, the matched ones and the symbols after it. -/
abbrev Span (α : Type*) := List α → List α → List α → Prop

def Span.seq (first second : Span α) : Span α := fun before text after =>
  ∃ left right, text = left ++ right ∧ first before left (right ++ after) ∧
    second (before ++ left) right after

def Span.iterate (span : Span α) : Nat → Span α
  | 0 => fun _ text _ => text = []
  | times + 1 => span.seq (span.iterate times)

def Span.FoundIn (span : Span α) (subject : List α) : Prop :=
  ∃ before text after, subject = before ++ text ++ after ∧ span before text after

variable {property : α → Prop} {span first second : Span α} {count times : Nat}
  {before text after : List α}

theorem hasRun_of_seq (matched : first.seq second before text after)
    (run : (∀ before text after, first before text after → HasRun property count text) ∨
      ∀ before text after, second before text after → HasRun property count text) :
    HasRun property count text := by
  obtain ⟨left, right, rfl, leftMatched, rightMatched⟩ := matched
  rcases run with inFirst | inSecond
  · exact (inFirst _ _ _ leftMatched).widen (List.prefix_append left right).isInfix
  · exact (inSecond _ _ _ rightMatched).widen (List.suffix_append left right).isInfix

theorem hasRun_of_iterate (some : 0 < times) (matched : span.iterate times before text after)
    (run : ∀ before text after, span before text after → HasRun property count text) :
    HasRun property count text := by
  cases times with
  | zero => exact absurd some (Nat.lt_irrefl 0)
  | succ times => exact hasRun_of_seq matched (Or.inl run)

theorem forall_of_iterate (matched : span.iterate times before text after)
    (all : ∀ before text after, span before text after → ∀ symbol ∈ text, property symbol) :
    ∀ symbol ∈ text, property symbol := by
  induction times generalizing before text with
  | zero =>
      obtain rfl : text = [] := matched
      exact fun symbol member => absurd member List.not_mem_nil
  | succ times ih =>
      obtain ⟨left, right, rfl, leftMatched, rightMatched⟩ := matched
      rw [List.forall_mem_append]
      exact ⟨all _ _ _ leftMatched, ih rightMatched⟩

theorem length_of_iterate (matched : span.iterate times before text after)
    (long : ∀ before text after, span before text after → count ≤ text.length) :
    count * times ≤ text.length := by
  induction times generalizing before text with
  | zero => exact Nat.zero_le _
  | succ times ih =>
      obtain ⟨left, right, rfl, leftMatched, rightMatched⟩ := matched
      have here := long _ _ _ leftMatched
      have rest := ih rightMatched
      rw [List.length_append, Nat.mul_succ]
      omega

/-! ### The sides of a match -/

/-- The side from which a match is read. -/
inductive Side where
  | front
  | back

/-- A list with the part that is at the side and the part away from it. -/
def Side.join : Side → List α → List α → List α
  | .front => fun near far => near ++ far
  | .back => fun near far => far ++ near

def Side.Outside : Side → (α → Prop) → List α → Prop
  | .front => StartsOutside
  | .back => EndsOutside

section Sides

variable {side : Side} {near far rest : List α} {next further : Prop}

theorem Side.join_assoc : side.join (side.join near far) rest = side.join near (side.join far rest) := by
  cases side with
  | front => exact List.append_assoc near far rest
  | back => exact (List.append_assoc rest far near).symm

theorem Side.join_nil : side.join near [] = near := by
  cases side with
  | front => exact List.append_nil near
  | back => rfl

theorem Side.join_eq_nil_iff : side.join near far = [] ↔ near = [] ∧ far = [] := by
  cases side with
  | front => exact List.append_eq_nil_iff
  | back => exact List.append_eq_nil_iff.trans and_comm

theorem Side.outside_nil (side : Side) (property : α → Prop) : side.Outside property [] := by
  cases side with
  | front => exact startsOutside_nil property
  | back => exact endsOutside_nil property

theorem Side.outside_join (here : side.Outside property near)
    (there : near = [] → side.Outside property far) : side.Outside property (side.join near far) := by
  cases side with
  | front => exact startsOutside_append here there
  | back => exact endsOutside_append here there

theorem Side.outside_join_next (here : side.Outside property near ∧ (near = [] → next))
    (there : next → side.Outside property far ∧ (far = [] → further)) :
    side.Outside property (side.join near far) ∧ (side.join near far = [] → further) := by
  refine ⟨outside_join here.1 fun empty => (there (here.2 empty)).1, fun empty => ?_⟩
  obtain ⟨nearEmpty, farEmpty⟩ := join_eq_nil_iff.mp empty
  exact (there (here.2 nearEmpty)).2 farEmpty

theorem iterate_last (matched : span.iterate (times + 1) before text after) :
    (span.iterate times).seq span before text after := by
  induction times generalizing before text with
  | zero =>
      obtain ⟨left, right, rfl, leftMatched, rfl⟩ := matched
      refine ⟨[], left, List.append_nil left, rfl, ?_⟩
      rwa [List.append_nil]
  | succ times ih =>
      obtain ⟨left, right, rfl, leftMatched, rightMatched⟩ := matched
      obtain ⟨middle, last, rfl, middleMatched, lastMatched⟩ := ih rightMatched
      refine ⟨left ++ middle, last, (List.append_assoc left middle last).symm, ?_, ?_⟩
      · refine ⟨left, middle, rfl, ?_, middleMatched⟩
        rwa [← List.append_assoc]
      · rwa [← List.append_assoc]

theorem Side.near_of_iterate (side : Side) (matched : span.iterate (times + 1) before text after) :
    ∃ near far, text = side.join near far ∧ (∃ before after, span before near after) ∧
      ∃ before after, span.iterate times before far after := by
  cases side with
  | front =>
      obtain ⟨left, right, rfl, leftMatched, rightMatched⟩ := matched
      exact ⟨left, right, rfl, ⟨_, _, leftMatched⟩, _, _, rightMatched⟩
  | back =>
      obtain ⟨left, right, rfl, leftMatched, rightMatched⟩ := iterate_last matched
      exact ⟨right, left, rfl, ⟨_, _, rightMatched⟩, _, _, leftMatched⟩

end Sides

end Library.Spans
