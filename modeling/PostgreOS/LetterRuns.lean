/-
The run of letters that a pattern guarantees.

`minimum_ascii_letter_run` counts how many neighbouring letters every match has, so that the
database can leave out the lines without such a run. The count multiplies the run of a repeated
expression, and it takes a range of characters for letters when both its ends are letters.
-/

import Mathlib.Data.List.ReduceOption
import PostgreOS.Hir
import PostgreOS.SegmentLifecycle

namespace PostgreOS

open Library.LineBlocks Library.Runs Library.Spans

/-- `is_ascii_alphabetic` of a byte or of a character. -/
def isAsciiAlphabetic (code : Nat) : Bool :=
  decide (65 ≤ code ∧ code ≤ 90 ∨ 97 ≤ code ∧ code ≤ 122)

def HirClass.codes : HirClass → List (Nat × Nat)
  | .unicode ranges => ranges.map fun range => (range.1.toNat, range.2.toNat)
  | .bytes ranges => ranges.map fun range => (range.1.toNat, range.2.toNat)

def HirClass.startsAndEndsAlphabetic (ranges : HirClass) : Bool :=
  ranges.codes.all fun range => isAsciiAlphabetic range.1 && isAsciiAlphabetic range.2

/-- A number that fits in `u32`. -/
def checkedU32 (value : Nat) : Option Nat :=
  if value < 4294967296 then some value else none

section Counting

variable {Look : Type}

mutual

def guaranteedAsciiLetterRun : Hir Look → Option Nat
  | .empty => none
  | .literal bytes =>
      if bytes.all fun byte => isAsciiAlphabetic byte.toNat then checkedU32 bytes.length else none
  | .characters ranges => if ranges.startsAndEndsAlphabetic then some 1 else none
  | .look _ => none
  | .repetition min _ sub => (guaranteedAsciiLetterRun sub).bind fun run => checkedU32 (run * min)
  | .capture sub => guaranteedAsciiLetterRun sub
  | .concat parts => (guaranteedAsciiLetterRuns parts).reduceOption.max?
  | .alternation parts =>
      if (guaranteedAsciiLetterRuns parts).all Option.isSome then
        (guaranteedAsciiLetterRuns parts).reduceOption.min?
      else none

def guaranteedAsciiLetterRuns : List (Hir Look) → List (Option Nat)
  | [] => []
  | part :: rest => guaranteedAsciiLetterRun part :: guaranteedAsciiLetterRuns rest

end

/-- `minimum_ascii_letter_run`, with the parser of regular expressions as a parameter. -/
def minimumAsciiLetterRun (parse : Text → Option (Hir Look)) (pattern : Text) (fixed extended : Bool) :
    Option Nat :=
  if fixed || !extended || !(pattern.all fun symbol => symbol.toNat < 128) then none
  else
    (parse pattern).bind fun hir =>
      (guaranteedAsciiLetterRun hir).bind fun length => if 8 ≤ length then some length else none

theorem guaranteedAsciiLetterRuns_eq (parts : List (Hir Look)) :
    guaranteedAsciiLetterRuns parts = parts.map guaranteedAsciiLetterRun := by
  induction parts with
  | nil => rfl
  | cons part rest ih => rw [guaranteedAsciiLetterRuns, ih, List.map_cons]

theorem checkedU32_eq_some {value number : Nat} (fits : checkedU32 value = some number) :
    number = value := by
  unfold checkedU32 at fits
  split at fits
  · exact (Option.some.inj fits).symm
  · cases fits

theorem guaranteed_alternation {parts : List (Hir Look)} {count : Nat}
    (counted : guaranteedAsciiLetterRun (.alternation parts) = some count) :
    ∀ part ∈ parts, ∃ run, guaranteedAsciiLetterRun part = some run ∧ count ≤ run := by
  rw [guaranteedAsciiLetterRun, guaranteedAsciiLetterRuns_eq] at counted
  split at counted
  · rename_i all
    intro part member
    have here := List.mem_map_of_mem (f := guaranteedAsciiLetterRun) member
    obtain ⟨run, same⟩ := Option.isSome_iff_exists.mp (List.all_eq_true.mp all _ here)
    rw [same] at here
    exact ⟨run, same,
      (List.min?_eq_some_iff.mp counted).2 run (List.reduceOption_mem_iff.mpr here)⟩
  · cases counted

end Counting

/-! ### What the count presumes -/

/-- A class whose ranges lie among the capital or among the small letters, if letters are at
both ends of each. -/
def HirClass.OneCase (ranges : HirClass) : Prop :=
  ranges.startsAndEndsAlphabetic = true → ∀ range ∈ ranges.codes, range.2 ≤ 90 ∨ 97 ≤ range.1

section Presumed

variable {Look : Type} (looks : Look → Text → Text → Prop)

def Hir.OnlyLetters (hir : Hir Look) : Prop :=
  ∀ before text after, hir.Matches looks before text after →
    ∀ symbol ∈ text, isAsciiAlphabetic symbol.toNat = true

/-- Some part of the expression whose own count is large enough has that many letters in a row:
a class does not cross the gap between the capital and the small letters, and a repetition
multiplies the run of its body only if the body matches letters only. -/
def Hir.Joined : Hir Look → Nat → Prop
  | .empty => fun _ => True
  | .literal _ => fun _ => True
  | .characters ranges => fun _ => ranges.OneCase
  | .look _ => fun _ => True
  | .repetition min _ sub => fun count => ∀ run, guaranteedAsciiLetterRun sub = some run →
      count = 0 ∨ (0 < min ∧ count ≤ run ∧ sub.Joined count) ∨
        (sub.OnlyLetters looks ∧ sub.Joined run)
  | .capture sub => sub.Joined
  | .concat parts => fun count => ∃ part, ∃ _member : part ∈ parts,
      (∃ run, guaranteedAsciiLetterRun part = some run ∧ count ≤ run) ∧ part.Joined count
  | .alternation parts => fun count => ∀ part ∈ parts, part.Joined count

end Presumed

/-! ### Matches have the run -/

/-- A character whose encoding consists of letters is a letter, encoded in one byte. -/
theorem alphabetic_of_encoding {symbol : Char}
    (all : ∀ byte ∈ String.utf8EncodeChar symbol, isAsciiAlphabetic byte.toNat = true) :
    isAsciiAlphabetic symbol.toNat = true ∧ (String.utf8EncodeChar symbol).length = 1 := by
  have bound : symbol.val.toNat < 1114112 := by
    rcases symbol.valid with small | ⟨-, large⟩
    · exact Nat.lt_trans small (by decide)
    · exact large
  have high (value : Nat) (small : value < 256) (large : 128 ≤ value) :
      isAsciiAlphabetic (UInt8.ofNat value).toNat = false := by
    rw [UInt8.toNat_ofNat', isAsciiAlphabetic, decide_eq_false_iff_not]
    omega
  unfold String.utf8EncodeChar at all ⊢
  simp only at all ⊢
  split at all
  · rename_i small
    have letter := all _ List.mem_cons_self
    rw [UInt8.toNat_ofNat', Nat.mod_eq_of_lt (by omega)] at letter
    rw [if_pos small]
    exact ⟨letter, rfl⟩
  · exfalso
    split at all
    · have letter := all _ List.mem_cons_self
      rw [high _ (by omega) (by omega)] at letter
      cases letter
    · split at all
      · have letter := all _ List.mem_cons_self
        rw [high _ (by omega) (by omega)] at letter
        cases letter
      · have letter := all _ List.mem_cons_self
        rw [high _ (by omega) (by omega)] at letter
        cases letter

theorem alphabetic_of_convertTo {text : Text}
    (all : ∀ byte ∈ convertTo text, isAsciiAlphabetic byte.toNat = true) :
    (∀ symbol ∈ text, isAsciiAlphabetic symbol.toNat = true) ∧
      (convertTo text).length = text.length := by
  induction text with
  | nil => exact ⟨fun symbol member => absurd member List.not_mem_nil, rfl⟩
  | cons symbol rest ih =>
      rw [convertTo_cons, List.forall_mem_append] at all
      obtain ⟨here, one⟩ := alphabetic_of_encoding all.1
      obtain ⟨later, same⟩ := ih all.2
      rw [convertTo_cons, List.length_append, one, same, List.length_cons]
      exact ⟨List.forall_mem_cons.mpr ⟨here, later⟩, Nat.add_comm _ _⟩

theorem code_of_encoding {symbol : Char} {byte : UInt8} (encoded : String.utf8EncodeChar symbol = [byte]) :
    byte.toNat = symbol.toNat := by
  unfold String.utf8EncodeChar at encoded
  simp only at encoded
  split at encoded
  · obtain ⟨rfl, -⟩ := List.cons.inj encoded
    rw [UInt8.toNat_ofNat', Nat.mod_eq_of_lt (by omega)]
    rfl
  · have lengths := congrArg List.length encoded
    split at lengths
    · cases lengths
    · split at lengths <;> cases lengths

theorem HirClass.Contains.code {ranges : HirClass} {symbol : Char} (contains : ranges.Contains symbol) :
    ∃ range ∈ ranges.codes, range.1 ≤ symbol.toNat ∧ symbol.toNat ≤ range.2 := by
  cases ranges with
  | unicode ranges =>
      obtain ⟨range, member, low, high⟩ := contains
      exact ⟨_, List.mem_map_of_mem member, low, high⟩
  | bytes ranges =>
      obtain ⟨byte, encoded, range, member, low, high⟩ := contains
      refine ⟨_, List.mem_map_of_mem member, ?_⟩
      rw [← code_of_encoding encoded]
      exact ⟨low, high⟩

theorem HirClass.OneCase.alphabetic {ranges : HirClass} (oneCase : ranges.OneCase)
    (ends : ranges.startsAndEndsAlphabetic = true) {symbol : Char} (contains : ranges.Contains symbol) :
    isAsciiAlphabetic symbol.toNat = true := by
  obtain ⟨range, member, low, high⟩ := contains.code
  have inOne := oneCase ends range member
  have both := List.all_eq_true.mp ends range member
  simp only [Bool.and_eq_true, isAsciiAlphabetic, decide_eq_true_eq] at both ⊢
  omega

section Matching

variable {Look : Type} (looks : Look → Text → Text → Prop)

theorem hasRun_of_matchesAll {count : Nat} {parts : List (Hir Look)} {part : Hir Look}
    (member : part ∈ parts)
    (run : ∀ before text after, part.Matches looks before text after →
      HasRun (fun symbol => isAsciiAlphabetic symbol.toNat = true) count text) :
    ∀ before text after, Hir.MatchesAll looks parts before text after →
      HasRun (fun symbol => isAsciiAlphabetic symbol.toNat = true) count text := by
  induction parts with
  | nil => exact absurd member List.not_mem_nil
  | cons first rest ih =>
      intro before text after matched
      rw [Hir.MatchesAll] at matched
      rcases List.mem_cons.mp member with rfl | later
      · exact hasRun_of_seq matched (Or.inl run)
      · exact hasRun_of_seq matched (Or.inr (ih later))

/-- Every match of a joined expression has as many letters in a row, if that many are counted. -/
theorem hasRun_of_guaranteed (hir : Hir Look) :
    ∀ count, hir.Joined looks count → ∀ run, guaranteedAsciiLetterRun hir = some run → count ≤ run →
      ∀ before text after, hir.Matches looks before text after →
        HasRun (fun symbol => isAsciiAlphabetic symbol.toNat = true) count text := by
  induction hir using Hir.induction with
  | empty => exact fun count _ run counted => nomatch counted
  | literal bytes =>
      intro count _ run counted atMost before text after matched
      rw [guaranteedAsciiLetterRun] at counted
      split at counted
      · rename_i all
        rw [Hir.Matches] at matched
        obtain rfl := checkedU32_eq_some counted
        obtain ⟨letters, length⟩ := alphabetic_of_convertTo (matched ▸ List.all_eq_true.mp all)
        refine hasRun_of_forall letters (Nat.le_trans atMost ?_)
        rw [← matched, length]
      · cases counted
  | characters ranges =>
      intro count joined run counted atMost before text after matched
      rw [guaranteedAsciiLetterRun] at counted
      split at counted
      · rename_i ends
        rw [Hir.Joined] at joined
        rw [Hir.Matches] at matched
        obtain ⟨symbol, rfl, contains⟩ := matched
        obtain rfl := Option.some.inj counted
        refine hasRun_of_forall ?_ atMost
        rw [List.forall_mem_singleton]
        exact joined.alphabetic ends contains
      · cases counted
  | look assertion => exact fun count _ run counted => nomatch counted
  | repetition min max sub ih =>
      intro count joined total counted atMost before text after matched
      rw [guaranteedAsciiLetterRun] at counted
      obtain ⟨run, found, product⟩ := Option.bind_eq_some_iff.mp counted
      obtain rfl := checkedU32_eq_some product
      rw [Hir.Joined] at joined
      rw [Hir.Matches] at matched
      obtain ⟨times, atLeast, -, iterated⟩ := matched
      rcases joined run found with rfl | ⟨positive, inside, inner⟩ | ⟨letters, inner⟩
      · exact hasRun_zero _ text
      · exact hasRun_of_iterate (Nat.lt_of_lt_of_le positive atLeast) iterated
          (ih count inner run found inside)
      · -- Only here do the runs of the single matches join.
        have each := ih run inner run found (Nat.le_refl run)
        have long := length_of_iterate iterated fun before text after inside =>
          (each before text after inside).length_le
        refine hasRun_of_forall (forall_of_iterate iterated letters) (Nat.le_trans atMost ?_)
        exact Nat.le_trans (Nat.mul_le_mul_left run atLeast) long
  | capture sub ih =>
      intro count joined run counted atMost before text after matched
      rw [Hir.Joined] at joined
      rw [guaranteedAsciiLetterRun] at counted
      rw [Hir.Matches] at matched
      exact ih count joined run counted atMost before text after matched
  | concat parts ih =>
      intro count joined run counted _ before text after matched
      rw [Hir.Joined] at joined
      rw [Hir.Matches] at matched
      obtain ⟨part, member, ⟨own, found, inside⟩, inner⟩ := joined
      exact hasRun_of_matchesAll looks member (ih part member count inner own found inside)
        before text after matched
  | alternation parts ih =>
      intro count joined run counted atMost before text after matched
      rw [Hir.Joined] at joined
      rw [Hir.Matches] at matched
      obtain ⟨part, member, inside⟩ := (Hir.matchesAny_iff looks).mp matched
      obtain ⟨own, found, below⟩ := guaranteed_alternation counted part member
      exact ih part member count (joined part member) own found (Nat.le_trans atMost below)
        before text after inside

end Matching

/-- In `[A-z]abcdefgh` the literal sets the bound, and the class does not matter. -/
example (looks : Empty → Text → Text → Prop) : (Hir.concat [.characters (.unicode [('A', 'z')]),
    .literal (convertTo "abcdefgh".toList)]).Joined looks 8 := by
  rw [Hir.Joined]
  refine ⟨.literal (convertTo "abcdefgh".toList), by simp, ⟨8, by decide +kernel, Nat.le_refl 8⟩, ?_⟩
  rw [Hir.Joined]
  trivial

end PostgreOS
