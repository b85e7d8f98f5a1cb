/-
The literals that every match of a pattern contains.

`required_literals` takes them from the beginnings, the ends or the parts of the parsed pattern,
and `gnu_required_literals` first rewrites the pattern of GNU grep to one of the regex parser
that is meant to match no less. The parser and the extractor are parameters.
-/

import Mathlib.Data.List.Destutter
import Mathlib.Data.List.MinMax
import Mathlib.Data.Prod.Lex
import PostgreOS.LetterRuns

namespace PostgreOS

open Library.Runs Library.Spans

/-- `ExtractKind`. -/
inductive ExtractKind where
  | prefixes
  | suffixes
  deriving DecidableEq, Repr

/-- What the search takes from the regex libraries. -/
structure RegexCalls (Look : Type) where
  /-- `regex_syntax::parse`. -/
  parse : Text → Option (Hir Look)
  /-- `Extractor::extract` and the literals of its sequence; `none` is an infinite one. -/
  extract : ExtractKind → Hir Look → Option (List Bytes)
  /-- `properties().minimum_len()`. -/
  minimumLen : Hir Look → Option Nat
  /-- `regex::escape`. -/
  escape : Text → Text

def ExtractKind.Bounds : ExtractKind → Bytes → Bytes → Prop
  | .prefixes => fun literal text => literal <+: text
  | .suffixes => fun literal text => literal <:+ text

theorem ExtractKind.Bounds.isInfix {kind : ExtractKind} {literal text : Bytes}
    (bounds : kind.Bounds literal text) : literal <:+: text := by
  cases kind with
  | prefixes => exact List.IsPrefix.isInfix bounds
  | suffixes => exact List.IsSuffix.isInfix bounds

/-- The extracted literals begin or end every match. -/
def RegexCalls.ExtractsLiterals {Look : Type} (calls : RegexCalls Look)
    (looks : Look → Text → Text → Prop) : Prop :=
  ∀ kind hir found, calls.extract kind hir = some found →
    ∀ before text after, hir.Matches looks before text after →
      ∃ literal ∈ found, kind.Bounds literal (convertTo text)

/-- `collect` of optional values: all of them, or none. -/
def collect {α : Type} : List (Option α) → Option (List α)
  | [] => some []
  | none :: _ => none
  | some value :: rest => (collect rest).map (value :: ·)

theorem collect_eq_some_iff {α : Type} {values : List (Option α)} {found : List α} :
    collect values = some found ↔ values = found.map some := by
  induction values generalizing found with
  | nil =>
      rw [collect, Option.some.injEq]
      constructor
      · rintro rfl
        rfl
      · intro empty
        exact (List.map_eq_nil_iff.mp empty.symm).symm
  | cons value rest ih =>
      cases value with
      | none =>
          rw [collect]
          constructor
          · intro impossible
            cases impossible
          · intro same
            cases found <;> cases same
      | some value =>
          rw [collect, Option.map_eq_some_iff]
          constructor
          · rintro ⟨later, collected, rfl⟩
            rw [List.map_cons, ih.mp collected]
          · intro same
            cases found with
            | nil => cases same
            | cons head tail =>
                obtain ⟨sameHead, sameTail⟩ := List.cons.inj same
                exact ⟨tail, ih.mpr sameTail, by rw [Option.some.inj sameHead]⟩

/-- `sort_unstable` and `dedup`. -/
def sortDedup (values : List Text) : List Text :=
  (values.mergeSort collateC).destutter (· ≠ ·)

theorem mem_destutter'_ne {head value : Text} {rest : List Text} (member : value ∈ head :: rest) :
    value ∈ rest.destutter' (· ≠ ·) head := by
  induction rest generalizing head with
  | nil => exact member
  | cons next rest ih =>
      rw [List.destutter'_cons]
      split
      · rcases List.mem_cons.mp member with rfl | later
        · exact List.mem_cons_self
        · exact List.mem_cons_of_mem head (ih later)
      · rename_i equal
        obtain rfl := not_not.mp equal
        rcases List.mem_cons.mp member with rfl | later
        · exact ih List.mem_cons_self
        · exact ih later

theorem mem_sortDedup {values : List Text} {value : Text} :
    value ∈ sortDedup values ↔ value ∈ values := by
  unfold sortDedup
  rw [← @List.mem_mergeSort _ collateC value values]
  generalize values.mergeSort collateC = sorted
  refine ⟨fun member => (List.destutter_sublist _ sorted).mem member, fun member => ?_⟩
  cases sorted with
  | nil => exact member
  | cons head rest => exact mem_destutter'_ne member

def shortestLength (literals : List Text) : Nat :=
  (literals.map octetLength).min?.getD 0

section Parsed

variable {Look : Type}

mutual

/-- `required_interior`. Of equally good parts `max_by_key` takes the last one. -/
def requiredInterior : Hir Look → Option (List Text)
  | .empty => none
  | .literal bytes => if 3 ≤ bytes.length then (fromUtf8 bytes).map ([·]) else none
  | .characters _ => none
  | .look _ => none
  | .repetition min _ sub => if 0 < min then requiredInterior sub else none
  | .capture sub => requiredInterior sub
  | .concat parts => (requiredInteriors parts).reduceOption.reverse.argmax shortestLength
  | .alternation parts => (collect (requiredInteriors parts)).map fun values => sortDedup values.flatten

def requiredInteriors : List (Hir Look) → List (Option (List Text))
  | [] => []
  | part :: rest => requiredInterior part :: requiredInteriors rest

end

theorem requiredInteriors_eq (parts : List (Hir Look)) :
    requiredInteriors parts = parts.map requiredInterior := by
  induction parts with
  | nil => rfl
  | cons part rest ih => rw [requiredInteriors, ih, List.map_cons]

/-- The literals of an extracted sequence, if they are texts of three bytes or more. -/
def usableLiterals (literals : List Bytes) : Option (List Text) :=
  (collect (literals.map fromUtf8)).bind fun strings =>
    if strings = [] ∨ strings.any (fun literal => decide (octetLength literal < 3)) then none
    else some (sortDedup strings)

variable (calls : RegexCalls Look)

/-- `required_literals`. -/
def requiredLiterals (pattern : Text) : Option (List Text) :=
  (calls.parse pattern).bind fun hir =>
    let extracted := [ExtractKind.prefixes, ExtractKind.suffixes].filterMap fun kind =>
      (calls.extract kind hir).bind usableLiterals
    (extracted ++ (requiredInterior hir).toList).argmin fun literals =>
      toLex (literals.length, OrderDual.toDual (shortestLength literals))

end Parsed

/-! ### Patterns of GNU grep -/

/-- `is_ascii_alphanumeric` of a byte or of a character. -/
def isAsciiAlphanumeric (code : Nat) : Bool :=
  decide (48 ≤ code ∧ code ≤ 57) || isAsciiAlphabetic code

def isWordCode (code : Nat) : Bool :=
  isAsciiAlphanumeric code || code == 95

def wordRange (range : Nat × Nat) : Bool :=
  (List.range' range.1 (range.2 + 1 - range.1)).all isWordCode

section Translated

variable {Look : Type}

mutual

/-- `ascii_word_expression`. -/
def asciiWordExpression : Hir Look → Bool
  | .empty => true
  | .literal bytes => bytes.all fun byte => isWordCode byte.toNat
  | .characters (.unicode ranges) => ranges.all fun range =>
      range.1.toNat < 128 && range.2.toNat < 128 && wordRange (range.1.toNat, range.2.toNat)
  | .characters (.bytes ranges) => ranges.all fun range => wordRange (range.1.toNat, range.2.toNat)
  | .look _ => true
  | .repetition _ _ sub => asciiWordExpression sub
  | .capture sub => asciiWordExpression sub
  | .concat parts => asciiWordExpressions parts
  | .alternation parts => asciiWordExpressions parts

def asciiWordExpressions : List (Hir Look) → Bool
  | [] => true
  | part :: rest => asciiWordExpression part && asciiWordExpressions rest

end

/-- `str::is_ascii`. -/
def isAscii (text : Text) : Bool :=
  text.all fun symbol => symbol.toNat < 128

variable (calls : RegexCalls Look)

/-- `word_pattern`. -/
def wordPattern (pattern : Text) (fixed : Bool) : Text :=
  "\\b(?:".toList ++ (if fixed then calls.escape pattern else pattern) ++ ")\\b".toList

/-- `gnu_pattern`. -/
def gnuPattern (pattern : Text) (fixed extended word : Bool) : Option Text := do
  if '\n' ∈ pattern then none
  let translated ←
    if fixed || !extended then
      if !fixed && pattern.any (['\\', '.', '[', '*', '^', '$'].contains ·) then none
      else some (calls.escape pattern)
    else if !isAscii pattern || '\\' ∈ pattern || "(?".toList <:+: pattern then none
    else
      (calls.parse pattern).bind fun hir => if asciiWordExpression hir then some pattern else none
  if word then
    (calls.parse translated).bind fun hir =>
      if !asciiWordExpression hir || calls.minimumLen hir = some 0 then none
      else some (wordPattern calls translated false)
  else some translated

/-- The loop of `gnu_required_literals`: an escape for a kind of characters becomes one for any
character. -/
def supersetPattern (inClass : Bool) : Text → Option Text
  | [] => some []
  | '\\' :: rest =>
      if inClass then none
      else
        match rest with
        | [] => none
        | escaped :: later =>
            if ['w', 'W', 's', 'S'].contains escaped then
              (supersetPattern inClass later).map ("(?s:.)".toList ++ ·)
            else none
  | character :: rest =>
      (supersetPattern (character == '[' || character != ']' && inClass) rest).map (character :: ·)

/-- The pattern that `gnu_required_literals` looks into. -/
def gnuSuperset (pattern : Text) (fixed extended : Bool) : Option Text :=
  if '\n' ∈ pattern then none
  else if fixed then some (calls.escape pattern)
  else if !extended then gnuPattern calls pattern false false false
  else if !isAscii pattern || "(?".toList <:+: pattern || "[[".toList <:+: pattern then none
  else supersetPattern false pattern

/-- `gnu_required_literals`. -/
def gnuRequiredLiterals (pattern : Text) (fixed extended : Bool) : Option (List Text) :=
  (gnuSuperset calls pattern fixed extended).bind (requiredLiterals calls)

end Translated

/-! ### Every match contains one of them -/

def Covers (literals : List Text) (span : Span Char) : Prop :=
  ∀ before text after, span before text after →
    ∃ literal ∈ literals, convertTo literal <:+: convertTo text

section Covered

variable {Look : Type} {literals more : List Text} {span first second : Span Char}

theorem Covers.mono (covers : Covers literals span) (subset : ∀ literal ∈ literals, literal ∈ more) :
    Covers more span := by
  intro before text after matched
  obtain ⟨literal, member, inside⟩ := covers before text after matched
  exact ⟨literal, subset literal member, inside⟩

theorem covers_seq (covers : Covers literals first ∨ Covers literals second) :
    Covers literals (first.seq second) := by
  rintro before _ after ⟨left, right, rfl, leftMatched, rightMatched⟩
  rw [convertTo_append]
  rcases covers with inFirst | inSecond
  · obtain ⟨literal, member, inside⟩ := inFirst _ _ _ leftMatched
    exact ⟨literal, member, inside.trans (List.prefix_append _ _).isInfix⟩
  · obtain ⟨literal, member, inside⟩ := inSecond _ _ _ rightMatched
    exact ⟨literal, member, inside.trans (List.suffix_append _ _).isInfix⟩

variable (looks : Look → Text → Text → Prop)

theorem covers_matchesAll {parts : List (Hir Look)} {part : Hir Look} (member : part ∈ parts)
    (covers : Covers literals (part.Matches looks)) : Covers literals (Hir.MatchesAll looks parts) := by
  induction parts with
  | nil => exact absurd member List.not_mem_nil
  | cons head rest ih =>
      rw [Hir.MatchesAll]
      rcases List.mem_cons.mp member with rfl | later
      · exact covers_seq (Or.inl covers)
      · exact covers_seq (Or.inr (ih later))

/-- The literals from inside an expression come from a literal, through parts of which every
match has one, and from all branches of an alternation. -/
theorem requiredInterior_induction {motive : Hir Look → List Text → Prop}
    (literal : ∀ text, 3 ≤ octetLength text → motive (.literal (convertTo text)) [text])
    (repetition : ∀ min max sub literals, 0 < min → motive sub literals →
      motive (.repetition min max sub) literals)
    (capture : ∀ sub literals, motive sub literals → motive (.capture sub) literals)
    (concat : ∀ parts, ∀ part ∈ parts, ∀ literals, motive part literals →
      motive (.concat parts) literals)
    (alternation : ∀ (parts : List (Hir Look)) (values : List (List Text)),
      (∀ part ∈ parts, ∃ literals ∈ values, motive part literals) →
      (∀ literals ∈ values, ∃ part ∈ parts, motive part literals) →
        motive (.alternation parts) (sortDedup values.flatten))
    (hir : Hir Look) :
    ∀ literals, requiredInterior hir = some literals → motive hir literals := by
  induction hir using Hir.induction with
  | empty =>
      intro literals found
      cases found
  | literal bytes =>
      intro literals found
      rw [requiredInterior] at found
      split at found
      · rename_i long
        obtain ⟨text, decoded, rfl⟩ := Option.map_eq_some_iff.mp found
        obtain rfl := (fromUtf8_eq_some_iff bytes text).mp decoded
        exact literal text long
      · cases found
  | characters ranges =>
      intro literals found
      cases found
  | look assertion =>
      intro literals found
      cases found
  | repetition min max sub ih =>
      intro literals found
      rw [requiredInterior] at found
      split at found
      · rename_i positive
        exact repetition min max sub literals positive (ih literals found)
      · cases found
  | capture sub ih =>
      intro literals found
      rw [requiredInterior] at found
      exact capture sub literals (ih literals found)
  | concat parts ih =>
      intro literals found
      rw [requiredInterior, requiredInteriors_eq] at found
      have chosen := List.mem_reverse.mp (List.argmax_mem found)
      obtain ⟨part, member, inPart⟩ := List.mem_map.mp (List.reduceOption_mem_iff.mp chosen)
      exact concat parts part member literals (ih part member literals inPart)
  | alternation parts ih =>
      intro literals found
      rw [requiredInterior, requiredInteriors_eq] at found
      obtain ⟨values, collected, rfl⟩ := Option.map_eq_some_iff.mp found
      rw [collect_eq_some_iff] at collected
      refine alternation parts values ?_ ?_
      · intro part member
        have here := List.mem_map_of_mem (f := requiredInterior) member
        rw [collected] at here
        obtain ⟨inPart, listed, same⟩ := List.mem_map.mp here
        exact ⟨inPart, listed, ih part member inPart same.symm⟩
      · intro inPart listed
        have here := List.mem_map_of_mem (f := some) listed
        rw [← collected] at here
        obtain ⟨part, member, same⟩ := List.mem_map.mp here
        exact ⟨part, member, ih part member inPart same⟩

theorem requiredInterior_covers (hir : Hir Look) :
    ∀ literals, requiredInterior hir = some literals → Covers literals (hir.Matches looks) := by
  refine requiredInterior_induction (motive := fun hir literals => Covers literals (hir.Matches looks))
    ?_ ?_ ?_ ?_ ?_ hir
  · intro text _ before matched after same
    rw [Hir.Matches] at same
    exact ⟨text, List.mem_singleton_self _, by rw [same]⟩
  · rintro min max sub literals positive covers before text after matched
    rw [Hir.Matches] at matched
    obtain ⟨times, atLeast, -, iterated⟩ := matched
    -- The first of the repeated matches has a literal.
    obtain ⟨fewer, rfl⟩ := Nat.exists_eq_add_one_of_ne_zero
      (Nat.pos_iff_ne_zero.mp (Nat.lt_of_lt_of_le positive atLeast))
    exact covers_seq (Or.inl covers) before text after iterated
  · intro sub literals covers
    rwa [Hir.Matches]
  · intro parts part member literals covers
    rw [Hir.Matches]
    exact covers_matchesAll looks member covers
  · intro parts values each _ before text after matched
    rw [Hir.Matches] at matched
    obtain ⟨part, member, inside⟩ := (Hir.matchesAny_iff looks).mp matched
    obtain ⟨literals, listed, covers⟩ := each part member
    refine covers.mono (fun literal inLiterals => ?_) before text after inside
    exact mem_sortDedup.mpr (List.mem_flatten_of_mem listed inLiterals)

theorem usableLiterals_covers {found : List Bytes}
    (contains : ∀ before text after, span before text after →
      ∃ literal ∈ found, literal <:+: convertTo text)
    (usable : usableLiterals found = some literals) : Covers literals span := by
  unfold usableLiterals at usable
  obtain ⟨strings, collected, chosen⟩ := Option.bind_eq_some_iff.mp usable
  split at chosen
  · cases chosen
  · obtain rfl := Option.some.inj chosen
    rw [collect_eq_some_iff] at collected
    intro before text after matched
    obtain ⟨literal, member, inside⟩ := contains before text after matched
    have here := List.mem_map_of_mem (f := fromUtf8) member
    rw [collected] at here
    obtain ⟨string, listed, decoded⟩ := List.mem_map.mp here
    refine ⟨string, mem_sortDedup.mpr listed, ?_⟩
    rwa [(fromUtf8_eq_some_iff literal string).mp decoded.symm]

/-- Every match of the expression contains one of the literals that are extracted from it. -/
def RegexCalls.SequencesCover (calls : RegexCalls Look) (looks : Look → Text → Text → Prop)
    (hir : Hir Look) : Prop :=
  ∀ kind found, calls.extract kind hir = some found →
    ∀ before text after, hir.Matches looks before text after →
      ∃ literal ∈ found, literal <:+: convertTo text

theorem RegexCalls.ExtractsLiterals.sequencesCover {calls : RegexCalls Look}
    (extracts : calls.ExtractsLiterals looks) (hir : Hir Look) : calls.SequencesCover looks hir := by
  intro kind found extracted before text after matched
  obtain ⟨literal, member, bounds⟩ := extracts kind hir found extracted before text after matched
  exact ⟨literal, member, bounds.isInfix⟩

theorem requiredLiterals_covers {calls : RegexCalls Look} {pattern : Text} {hir : Hir Look}
    (sequences : calls.SequencesCover looks hir) (parsed : calls.parse pattern = some hir)
    (required : requiredLiterals calls pattern = some literals) :
    Covers literals (hir.Matches looks) := by
  unfold requiredLiterals at required
  rw [parsed, Option.bind_some] at required
  rcases List.mem_append.mp (List.argmin_mem required) with extracted | interior
  · obtain ⟨kind, -, usable⟩ := List.mem_filterMap.mp extracted
    obtain ⟨found, same, chosen⟩ := Option.bind_eq_some_iff.mp usable
    exact usableLiterals_covers (sequences kind found same) chosen
  · exact requiredInterior_covers looks hir literals (Option.mem_toList.mp interior)

theorem gnuRequiredLiterals_covers {calls : RegexCalls Look} (extracts : calls.ExtractsLiterals looks)
    {pattern : Text} {fixed extended : Bool}
    (superset : ∀ translated hir, gnuSuperset calls pattern fixed extended = some translated →
      calls.parse translated = some hir →
        ∀ before text after, span before text after → hir.Matches looks before text after)
    (required : gnuRequiredLiterals calls pattern fixed extended = some literals) :
    Covers literals span := by
  obtain ⟨translated, rewritten, found⟩ := Option.bind_eq_some_iff.mp required
  obtain ⟨hir, parsed, -⟩ := Option.bind_eq_some_iff.mp found
  intro before text after matched
  exact requiredLiterals_covers looks (extracts.sequencesCover looks hir) parsed found before text after
    (superset translated hir rewritten parsed before text after matched)

end Covered

theorem requiredInterior_long {Look : Type} (hir : Hir Look) :
    ∀ literals, requiredInterior hir = some literals → ∀ literal ∈ literals, 3 ≤ octetLength literal := by
  refine requiredInterior_induction
    (motive := fun _ literals => ∀ literal ∈ literals, 3 ≤ octetLength literal) ?_ ?_ ?_ ?_ ?_ hir
  · intro text long literal member
    rwa [List.mem_singleton.mp member]
  · exact fun min max sub literals _ long => long
  · exact fun sub literals long => long
  · exact fun parts part _ literals long => long
  · intro parts values _ only literal member
    obtain ⟨literals, listed, inside⟩ := List.mem_flatten.mp (mem_sortDedup.mp member)
    obtain ⟨part, -, long⟩ := only literals listed
    exact long literal inside

/-- Every alternation in an expression has a branch. -/
def Hir.Branches {Look : Type} : Hir Look → Prop
  | .empty => True
  | .literal _ => True
  | .characters _ => True
  | .look _ => True
  | .repetition _ _ sub => sub.Branches
  | .capture sub => sub.Branches
  | .concat parts => ∀ part ∈ parts, part.Branches
  | .alternation parts => parts ≠ [] ∧ ∀ part ∈ parts, part.Branches

theorem sortDedup_ne_nil {values : List Text} (nonempty : values ≠ []) : sortDedup values ≠ [] := by
  obtain ⟨value, member⟩ := List.exists_mem_of_ne_nil values nonempty
  exact List.ne_nil_of_mem (mem_sortDedup.mpr member)

theorem requiredInterior_ne_nil {Look : Type} (hir : Hir Look) (branches : hir.Branches) :
    ∀ literals, requiredInterior hir = some literals → literals ≠ [] := by
  have nonempty : ∀ literals, requiredInterior hir = some literals → hir.Branches → literals ≠ [] := by
    refine requiredInterior_induction (motive := fun hir literals => hir.Branches → literals ≠ []) ?_ ?_ ?_ ?_ ?_ hir
    · exact fun text _ _ => List.cons_ne_nil text []
    · intro min max sub literals _ nonempty branches
      rw [Hir.Branches] at branches
      exact nonempty branches
    · intro sub literals nonempty branches
      rw [Hir.Branches] at branches
      exact nonempty branches
    · intro parts part member literals nonempty branches
      rw [Hir.Branches] at branches
      exact nonempty (branches part member)
    · intro parts values each _ branches
      rw [Hir.Branches] at branches
      -- The literals of the first branch are among them.
      obtain ⟨part, member⟩ := List.exists_mem_of_ne_nil parts branches.1
      obtain ⟨literals, listed, nonempty⟩ := each part member
      obtain ⟨literal, inside⟩ := List.exists_mem_of_ne_nil literals
        (nonempty (branches.2 part member))
      exact sortDedup_ne_nil (List.ne_nil_of_mem (List.mem_flatten_of_mem listed inside))
  exact fun literals found => nonempty literals found branches

theorem usableLiterals_long {found : List Bytes} {literals : List Text}
    (usable : usableLiterals found = some literals) : ∀ literal ∈ literals, 3 ≤ octetLength literal := by
  obtain ⟨strings, -, chosen⟩ := Option.bind_eq_some_iff.mp usable
  split at chosen
  · cases chosen
  · rename_i long
    obtain rfl := Option.some.inj chosen
    intro literal member
    by_contra short
    refine long (Or.inr (List.any_eq_true.mpr ⟨literal, mem_sortDedup.mp member, ?_⟩))
    exact decide_eq_true (Nat.lt_of_not_le short)

theorem requiredLiterals_long {Look : Type} {calls : RegexCalls Look} {pattern : Text}
    {literals : List Text} (required : requiredLiterals calls pattern = some literals) :
    ∀ literal ∈ literals, 3 ≤ octetLength literal := by
  obtain ⟨hir, -, chosen⟩ := Option.bind_eq_some_iff.mp required
  rcases List.mem_append.mp (List.argmin_mem chosen) with extracted | interior
  · obtain ⟨kind, -, usable⟩ := List.mem_filterMap.mp extracted
    obtain ⟨found, -, same⟩ := Option.bind_eq_some_iff.mp usable
    exact usableLiterals_long same
  · exact requiredInterior_long hir literals (Option.mem_toList.mp interior)

theorem usableLiterals_ne_nil {found : List Bytes} {literals : List Text}
    (usable : usableLiterals found = some literals) : literals ≠ [] := by
  obtain ⟨strings, -, chosen⟩ := Option.bind_eq_some_iff.mp usable
  split at chosen
  · cases chosen
  · rename_i proper
    obtain rfl := Option.some.inj chosen
    exact sortDedup_ne_nil fun empty => proper (Or.inl empty)

theorem requiredLiterals_ne_nil {Look : Type} {calls : RegexCalls Look} {pattern : Text}
    {hir : Hir Look} (parsed : calls.parse pattern = some hir) (branches : hir.Branches)
    {literals : List Text} (required : requiredLiterals calls pattern = some literals) :
    literals ≠ [] := by
  unfold requiredLiterals at required
  rw [parsed, Option.bind_some] at required
  rcases List.mem_append.mp (List.argmin_mem required) with extracted | interior
  · obtain ⟨kind, -, usable⟩ := List.mem_filterMap.mp extracted
    obtain ⟨found, -, same⟩ := Option.bind_eq_some_iff.mp usable
    exact usableLiterals_ne_nil same
  · exact requiredInterior_ne_nil hir branches literals (Option.mem_toList.mp interior)

/-- Literals of three bytes or more, one of which is in every match. -/
structure Guaranteed (literals : List Text) (span : Span Char) : Prop where
  nonempty : literals ≠ []
  long : ∀ literal ∈ literals, 3 ≤ octetLength literal
  contained : ∀ before text after, span before text after → ∃ literal ∈ literals, literal <:+: text

theorem Covers.contained {literals : List Text} {span : Span Char} (covers : Covers literals span) :
    ∀ before text after, span before text after → ∃ literal ∈ literals, literal <:+: text := by
  intro before text after matched
  obtain ⟨literal, member, inside⟩ := covers before text after matched
  exact ⟨literal, member, convertTo_infix_iff.mp inside⟩

/-- The literals from inside an expression are guaranteed, and so are those that
`required_literals` chooses, if the extracted sequences are in every match. -/
theorem requiredLiterals_guaranteed {Look : Type} (looks : Look → Text → Text → Prop) :
    (∀ hir : Hir Look, hir.Branches → ∀ literals, requiredInterior hir = some literals →
      Guaranteed literals (hir.Matches looks)) ∧
    ∀ (calls : RegexCalls Look) (pattern : Text) (hir : Hir Look), calls.parse pattern = some hir →
      hir.Branches → calls.SequencesCover looks hir →
        ∀ literals, requiredLiterals calls pattern = some literals →
          Guaranteed literals (hir.Matches looks) := by
  constructor
  · intro hir branches literals found
    exact ⟨requiredInterior_ne_nil hir branches literals found, requiredInterior_long hir literals found,
      (requiredInterior_covers looks hir literals found).contained⟩
  · intro calls pattern hir parsed branches sequences literals required
    exact ⟨requiredLiterals_ne_nil parsed branches required, requiredLiterals_long required,
      (requiredLiterals_covers looks sequences parsed required).contained⟩

/-- The parse of `\b[A-Z]+_SUSPEND\b`; its only assertion is `\b`. -/
def suspendHir : Hir Unit :=
  .concat [.look (), .repetition 1 none (.characters (.unicode [('A', 'Z')])),
    .literal (convertTo "_SUSPEND".toList), .look ()]

/-- What the regex libraries answer for the pattern: no prefixes, and one suffix. -/
def suspendCalls : RegexCalls Unit where
  parse _ := some suspendHir
  extract kind _ := if kind = .suffixes then some [convertTo "_SUSPEND".toList] else none
  minimumLen _ := some 9
  escape pattern := pattern

/-- One of the neighbours is a letter, a digit or an underscore. -/
def wordBoundary (_ : Unit) (before after : Text) : Prop :=
  (before.getLast?.any fun symbol => isWordCode symbol.toNat) ≠
    (after.head?.any fun symbol => isWordCode symbol.toNat)

/-- The literal from inside the sequence, which is the extracted suffix as well. -/
theorem requiredLiterals_guaranteed_suspend :
    requiredInterior suspendHir = some ["_SUSPEND".toList] ∧
    requiredLiterals suspendCalls "\\b[A-Z]+_SUSPEND\\b".toList = some ["_SUSPEND".toList] ∧
    Guaranteed ["_SUSPEND".toList] (suspendHir.Matches wordBoundary) := by
  have inside : requiredInterior suspendHir = some ["_SUSPEND".toList] := by decide +kernel
  have chosen : requiredLiterals suspendCalls "\\b[A-Z]+_SUSPEND\\b".toList =
      some ["_SUSPEND".toList] := by
    decide +kernel
  have branches : suspendHir.Branches := by
    simp [suspendHir, Hir.Branches]
  have contained := ((requiredLiterals_guaranteed wordBoundary).1 suspendHir branches _ inside).contained
  refine ⟨inside, chosen, (requiredLiterals_guaranteed wordBoundary).2 suspendCalls _ suspendHir rfl
    branches ?_ _ chosen⟩
  intro kind found extracted before text after matched
  obtain ⟨literal, member, here⟩ := contained before text after matched
  obtain rfl := List.mem_singleton.mp member
  dsimp only [suspendCalls] at extracted
  split at extracted
  · obtain rfl := Option.some.inj extracted
    exact ⟨_, List.mem_singleton_self _, convertTo_infix_iff.mpr here⟩
  · cases extracted

end PostgreOS
