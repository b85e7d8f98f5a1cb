/-
A text cut into consecutive blocks that end at line boundaries.

Each block records its position in the sequence, the size of everything before
it and the number of its first line. The size of a body is any measure; lines
are counted by occurrences of one symbol. The recursive form is what a splitter
builds block by block; the indexed form is what a reader of the table sees.
-/

import Mathlib.Data.List.Basic
import Mathlib.Algebra.BigOperators.Group.List.Basic
import Mathlib.Algebra.Ring.Nat

namespace Library.LineBlocks

variable {α : Type*} [DecidableEq α]

structure LineBlock (α : Type*) where
  ordinal : Nat
  offset : Nat
  firstLine : Nat
  body : List α
  deriving DecidableEq, Repr

/-- `body` ends with the line terminator. -/
def EndsLine (newline : α) (body : List α) : Prop :=
  ∃ front, body = front ++ [newline]

/-- Blocks continuing a text after `ordinal` blocks, `offset` units and
`line - 1` complete lines. -/
def ChainFrom (newline : α) (size : List α → Nat) :
    Nat → Nat → Nat → List (LineBlock α) → Prop
  | _, _, _, [] => True
  | ordinal, offset, line, block :: rest =>
      block.ordinal = ordinal ∧ block.offset = offset ∧ block.firstLine = line ∧
        (rest ≠ [] → EndsLine newline block.body) ∧
        ChainFrom newline size (ordinal + 1) (offset + size block.body)
          (line + block.body.count newline) rest

def Chain (newline : α) (size : List α → Nat) (blocks : List (LineBlock α)) : Prop :=
  ChainFrom newline size 0 0 1 blocks

def text (blocks : List (LineBlock α)) : List α :=
  blocks.flatMap LineBlock.body

def totalSize (size : List α → Nat) (blocks : List (LineBlock α)) : Nat :=
  (blocks.map fun block => size block.body).sum

omit [DecidableEq α] in
theorem totalSize_cons (size : List α → Nat) (block : LineBlock α) (rest : List (LineBlock α)) :
    totalSize size (block :: rest) = size block.body + totalSize size rest := by
  simp [totalSize]

omit [DecidableEq α] in
theorem text_cons (block : LineBlock α) (rest : List (LineBlock α)) :
    text (block :: rest) = block.body ++ text rest := rfl

/-- The chain condition read at one index. -/
theorem ChainFrom.at_index {newline : α} {size : List α → Nat} {ordinal offset line : Nat}
    {blocks : List (LineBlock α)} (chain : ChainFrom newline size ordinal offset line blocks)
    (index : Nat) (bound : index < blocks.length) :
    blocks[index].ordinal = ordinal + index ∧
      blocks[index].offset = offset + totalSize size (blocks.take index) ∧
      blocks[index].firstLine = line + (text (blocks.take index)).count newline ∧
      (index + 1 < blocks.length → EndsLine newline blocks[index].body) := by
  induction blocks generalizing ordinal offset line index with
  | nil => exact absurd bound (Nat.not_lt_zero index)
  | cons block rest ih =>
      obtain ⟨hOrdinal, hOffset, hLine, hEnd, hRest⟩ := chain
      cases index with
      | zero =>
          refine ⟨by simpa using hOrdinal, by simpa [totalSize] using hOffset,
            by simpa [text] using hLine, ?_⟩
          intro more
          refine hEnd ?_
          rintro rfl
          simp at more
      | succ index =>
          have within : index < rest.length := by simpa using bound
          obtain ⟨iOrdinal, iOffset, iLine, iEnd⟩ := ih hRest index within
          simp only [List.getElem_cons_succ, List.take_succ_cons, totalSize_cons, text_cons,
            List.count_append]
          refine ⟨by omega, by omega, by omega, ?_⟩
          intro more
          exact iEnd (by simpa using more)

theorem ChainFrom.ordinals {newline : α} {size : List α → Nat} {ordinal offset line : Nat}
    {blocks : List (LineBlock α)} (chain : ChainFrom newline size ordinal offset line blocks) :
    blocks.map LineBlock.ordinal = List.range' ordinal blocks.length := by
  induction blocks generalizing ordinal offset line with
  | nil => rfl
  | cons block rest ih =>
      obtain ⟨hOrdinal, -, -, -, hRest⟩ := chain
      rw [List.map_cons, List.length_cons, List.range'_succ, hOrdinal, ih hRest]

end Library.LineBlocks
