/-
Parsed regular expressions and what they match.

The constructors are those of the syntax tree of the regex parser. Its trees match whole
characters, so a literal matches the text that its bytes encode. What the assertions ask of
the text around them is a parameter.
-/

import PostgreOS.Library.Spans
import PostgreOS.Text

namespace PostgreOS

open Library.Spans

/-- The ranges of a class of characters or of bytes. -/
inductive HirClass where
  | unicode (ranges : List (Char × Char))
  | bytes (ranges : List (UInt8 × UInt8))
  deriving DecidableEq, Repr

/-- `HirKind`, without the greediness of a repetition and the name of a capture. -/
inductive Hir (Look : Type) where
  | empty
  | literal (bytes : Bytes)
  | characters (ranges : HirClass)
  | look (assertion : Look)
  | repetition (min : Nat) (max : Option Nat) (sub : Hir Look)
  | capture (sub : Hir Look)
  | concat (parts : List (Hir Look))
  | alternation (parts : List (Hir Look))

/-- The characters of a class. A class of bytes has the characters of one byte only. -/
def HirClass.Contains : HirClass → Char → Prop
  | .unicode ranges, symbol => ∃ range ∈ ranges, range.1 ≤ symbol ∧ symbol ≤ range.2
  | .bytes ranges, symbol => ∃ byte, String.utf8EncodeChar symbol = [byte] ∧
      ∃ range ∈ ranges, range.1 ≤ byte ∧ byte ≤ range.2

section Matching

variable {Look : Type} (looks : Look → Text → Text → Prop)

mutual

/-- The text that an expression matches between two others. -/
def Hir.Matches : Hir Look → Span Char
  | .empty => fun _ text _ => text = []
  | .literal bytes => fun _ text _ => convertTo text = bytes
  | .characters ranges => fun _ text _ => ∃ symbol, text = [symbol] ∧ ranges.Contains symbol
  | .look assertion => fun before text after => text = [] ∧ looks assertion before after
  | .repetition min max sub => fun before text after =>
      ∃ times, min ≤ times ∧ (∀ bound ∈ max, times ≤ bound) ∧
        Span.iterate (Hir.Matches sub) times before text after
  | .capture sub => Hir.Matches sub
  | .concat parts => Hir.MatchesAll parts
  | .alternation parts => Hir.MatchesAny parts

def Hir.MatchesAll : List (Hir Look) → Span Char
  | [] => fun _ text _ => text = []
  | part :: rest => Span.seq (Hir.Matches part) (Hir.MatchesAll rest)

/-- One of the parts. -/
def Hir.MatchesAny : List (Hir Look) → Span Char
  | [] => fun _ _ _ => False
  | part :: rest => fun before text after =>
      Hir.Matches part before text after ∨ Hir.MatchesAny rest before text after

end

theorem Hir.matchesAny_iff {parts : List (Hir Look)} {before text after : Text} :
    Hir.MatchesAny looks parts before text after ↔
      ∃ part ∈ parts, part.Matches looks before text after := by
  induction parts with
  | nil => simp [Hir.MatchesAny]
  | cons part rest ih =>
      rw [Hir.MatchesAny]
      dsimp only
      rw [ih, List.exists_mem_cons_iff]

end Matching

@[elab_as_elim]
theorem Hir.induction {Look : Type} {motive : Hir Look → Prop} (empty : motive .empty)
    (literal : ∀ bytes, motive (.literal bytes)) (characters : ∀ ranges, motive (.characters ranges))
    (look : ∀ assertion, motive (.look assertion))
    (repetition : ∀ min max sub, motive sub → motive (.repetition min max sub))
    (capture : ∀ sub, motive sub → motive (.capture sub))
    (concat : ∀ parts, (∀ part ∈ parts, motive part) → motive (.concat parts))
    (alternation : ∀ parts, (∀ part ∈ parts, motive part) → motive (.alternation parts))
    (hir : Hir Look) : motive hir := by
  refine @Hir.rec Look motive (fun parts => ∀ part ∈ parts, motive part) empty literal characters look
    repetition capture concat alternation ?_ ?_ hir
  · exact fun part member => absurd member List.not_mem_nil
  · intro part rest here later
    exact List.forall_mem_cons.mpr ⟨here, later⟩

end PostgreOS
