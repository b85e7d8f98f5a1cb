/-
Literals at the beginning or at the end of every match.

The parsed expression decides whether a literal stands at a side of all its matches: as the
mandatory part of a sequence at that side, or as the beginning of a few parts that spell it
together, in every branch of an alternation. Where the literal is a whole word, the parts next
to it must not go on with a letter or a digit.
-/

import PostgreOS.RequiredLiterals

namespace PostgreOS

open Library.Runs Library.Spans

/-- A byte that is an ASCII letter or digit. -/
abbrev AlphanumericByte (byte : UInt8) : Prop := isAsciiAlphanumeric byte.toNat = true

/-- A character that is an ASCII letter or digit. -/
abbrev AlphanumericChar (symbol : Char) : Prop := isAsciiAlphanumeric symbol.toNat = true

theorem lt_of_isAsciiAlphanumeric {code : Nat} (holds : isAsciiAlphanumeric code = true) :
    code < 128 := by
  simp only [isAsciiAlphanumeric, isAsciiAlphabetic, Bool.or_eq_true, decide_eq_true_eq] at holds
  omega

theorem alphanumericChar_of_mem {symbol : Char} {byte : UInt8}
    (member : byte ∈ String.utf8EncodeChar symbol) (holds : AlphanumericByte byte) :
    AlphanumericChar symbol := by
  have code := code_of_mem_utf8EncodeChar member (lt_of_isAsciiAlphanumeric holds)
  unfold AlphanumericChar
  rwa [← Char.toNat_val, code]

theorem alphanumericByte_of_mem {symbol : Char} {byte : UInt8}
    (member : byte ∈ String.utf8EncodeChar symbol) (holds : AlphanumericChar symbol) :
    AlphanumericByte byte := by
  have ascii : symbol.val.toNat < 128 := lt_of_isAsciiAlphanumeric holds
  rw [utf8EncodeChar_ascii ascii, List.mem_singleton] at member
  unfold AlphanumericByte
  rwa [member, UInt8.toNat_ofNat', Nat.mod_eq_of_lt (by omega)]

theorem startsOutside_convertTo (text : Text) :
    StartsOutside AlphanumericByte (convertTo text) ↔ StartsOutside AlphanumericChar text := by
  cases text with
  | nil => exact iff_of_true (startsOutside_nil _) (startsOutside_nil _)
  | cons symbol rest =>
      rw [convertTo_cons, startsOutside_append_iff String.utf8EncodeChar_ne_nil]
      obtain ⟨byte, more, code⟩ := List.exists_cons_of_ne_nil (@String.utf8EncodeChar_ne_nil symbol)
      have member : byte ∈ String.utf8EncodeChar symbol := by
        rw [code]
        exact List.mem_cons_self
      rw [code]
      constructor
      · rintro outside _ ⟨⟩ holds
        exact outside byte rfl (alphanumericByte_of_mem member holds)
      · rintro outside _ ⟨⟩ holds
        exact outside symbol rfl (alphanumericChar_of_mem member holds)

theorem endsOutside_convertTo (text : Text) :
    EndsOutside AlphanumericByte (convertTo text) ↔ EndsOutside AlphanumericChar text := by
  rcases List.eq_nil_or_concat text with rfl | ⟨rest, symbol, rfl⟩
  · exact iff_of_true (endsOutside_nil _) (endsOutside_nil _)
  · have single : convertTo [symbol] = String.utf8EncodeChar symbol := by
      rw [convertTo_cons, convertTo_nil, List.append_nil]
    rw [List.concat_eq_append, convertTo_append, single,
      endsOutside_append_iff String.utf8EncodeChar_ne_nil, endsOutside_append_iff (List.cons_ne_nil _ _)]
    rcases List.eq_nil_or_concat (String.utf8EncodeChar symbol) with none | ⟨more, byte, code⟩
    · exact absurd none String.utf8EncodeChar_ne_nil
    · rw [List.concat_eq_append] at code
      have member : byte ∈ String.utf8EncodeChar symbol := by
        rw [code]
        exact List.mem_append_right more (List.mem_singleton_self byte)
      rw [code]
      constructor
      · rintro outside _ ⟨⟩ holds
        exact outside byte List.getLast?_concat (alphanumericByte_of_mem member holds)
      · intro outside last isLast holds
        rw [List.getLast?_concat] at isLast
        obtain rfl := Option.some.inj isLast
        exact outside symbol rfl (alphanumericChar_of_mem member holds)

section Expressions

variable {Look : Type}

mutual

/-- Every match is this text. -/
def Hir.Spells : Hir Look → Bytes → Prop
  | .empty => fun text => text = []
  | .literal bytes => fun text => text = bytes
  | .characters _ => fun _ => False
  | .look _ => fun text => text = []
  | .repetition _ _ _ => fun _ => False
  | .capture sub => Hir.Spells sub
  | .concat parts => Hir.SpellsAll parts
  | .alternation parts => Hir.SpellsEach parts

/-- The parts spell the text together. -/
def Hir.SpellsAll : List (Hir Look) → Bytes → Prop
  | [] => fun text => text = []
  | part :: rest => fun text => ∃ first later, text = first ++ later ∧ Hir.Spells part first ∧
      Hir.SpellsAll rest later

def Hir.SpellsEach : List (Hir Look) → Bytes → Prop
  | [] => fun _ => True
  | part :: rest => fun text => Hir.Spells part text ∧ Hir.SpellsEach rest text

end

variable (side : Side)

mutual

/-- No match has a letter or a digit at the side, and if one is empty, `next` holds. -/
def Hir.OutsideAt : Hir Look → Prop → Prop
  | .empty => fun next => next
  | .literal bytes => fun next => side.Outside AlphanumericByte bytes ∧ (bytes = [] → next)
  | .characters ranges => fun _ => ∀ symbol, ranges.Contains symbol → ¬ AlphanumericChar symbol
  | .look _ => fun next => next
  | .repetition min _ sub => fun next => (min = 0 → next) ∧ Hir.OutsideAt sub next
  | .capture sub => Hir.OutsideAt sub
  | .concat parts => Hir.OutsideAtAll parts
  | .alternation parts => Hir.OutsideAtEach parts

/-- The parts of a sequence, those at the side first. -/
def Hir.OutsideAtAll : List (Hir Look) → Prop → Prop
  | [] => fun next => next
  | part :: rest => fun next =>
      match side with
      | .front => Hir.OutsideAt part (Hir.OutsideAtAll rest next)
      | .back => Hir.OutsideAtAll rest (Hir.OutsideAt part next)

def Hir.OutsideAtEach : List (Hir Look) → Prop → Prop
  | [] => fun _ => True
  | part :: rest => fun next => Hir.OutsideAt part next ∧ Hir.OutsideAtEach rest next

end

variable (whole : Prop)

mutual

/-- The literal is the mandatory part of the expression at the side. If it is a whole word, no
letter or digit follows it, and if nothing follows it, `next` holds. -/
def Hir.StandsAt : Hir Look → Bytes → Prop → Prop
  | .empty => fun _ _ => False
  | .literal bytes => fun literal next => ∃ rest, bytes = side.join literal rest ∧
      (whole → side.Outside AlphanumericByte rest ∧ (rest = [] → next))
  | .characters _ => fun _ _ => False
  | .look _ => fun _ _ => False
  | .repetition min max sub => fun literal next => 0 < min ∧ (whole → max = some 1) ∧
      Hir.StandsAt sub literal next
  | .capture sub => Hir.StandsAt sub
  | .concat parts => Hir.StandsAtAll parts
  | .alternation parts => Hir.StandsAtEach parts

/-- The literal stands in the part at the side, or the part at the side spells a piece of it and
the rest of it stands in the others. -/
def Hir.StandsAtAll : List (Hir Look) → Bytes → Prop → Prop
  | [] => fun _ _ => False
  | part :: rest => fun literal next =>
      match side with
      | .front => Hir.StandsAt part literal (Hir.OutsideAtAll side rest next) ∨
          ∃ first later, literal = first ++ later ∧ Hir.Spells part first ∧
            Hir.StandsAtAll rest later next
      | .back => Hir.StandsAtAll rest literal (Hir.OutsideAt side part next) ∨
          ∃ first later, literal = first ++ later ∧ Hir.SpellsAll rest later ∧
            Hir.StandsAt part first next

/-- The literal stands in every branch. -/
def Hir.StandsAtEach : List (Hir Look) → Bytes → Prop → Prop
  | [] => fun _ _ => True
  | part :: rest => fun literal next => Hir.StandsAt part literal next ∧
      Hir.StandsAtEach rest literal next

end

theorem Hir.spellsEach_iff {parts : List (Hir Look)} {text : Bytes} :
    Hir.SpellsEach parts text ↔ ∀ part ∈ parts, part.Spells text := by
  induction parts with
  | nil => exact iff_of_true (by rw [Hir.SpellsEach]; trivial) fun _ member =>
      absurd member List.not_mem_nil
  | cons part rest ih =>
      rw [Hir.SpellsEach]
      dsimp only
      rw [ih, List.forall_mem_cons]

theorem Hir.outsideAtEach_iff {parts : List (Hir Look)} {next : Prop} :
    Hir.OutsideAtEach side parts next ↔ ∀ part ∈ parts, part.OutsideAt side next := by
  induction parts with
  | nil => exact iff_of_true (by rw [Hir.OutsideAtEach]; trivial) fun _ member =>
      absurd member List.not_mem_nil
  | cons part rest ih =>
      rw [Hir.OutsideAtEach]
      dsimp only
      rw [ih, List.forall_mem_cons]

theorem Hir.standsAtEach_iff {parts : List (Hir Look)} {literal : Bytes} {next : Prop} :
    Hir.StandsAtEach side whole parts literal next ↔
      ∀ part ∈ parts, part.StandsAt side whole literal next := by
  induction parts with
  | nil => exact iff_of_true (by rw [Hir.StandsAtEach]; trivial) fun _ member =>
      absurd member List.not_mem_nil
  | cons part rest ih =>
      rw [Hir.StandsAtEach]
      dsimp only
      rw [ih, List.forall_mem_cons]

end Expressions

/-! ### What the expressions say about their matches -/

theorem convertTo_join {side : Side} (near far : Text) :
    convertTo (side.join near far) = side.join (convertTo near) (convertTo far) := by
  cases side with
  | front => exact convertTo_append near far
  | back => exact convertTo_append far near

theorem outside_single {side : Side} {symbol : Char} (outside : ¬ AlphanumericChar symbol) :
    side.Outside AlphanumericByte (convertTo [symbol]) := by
  cases side with
  | front =>
      refine (startsOutside_convertTo [symbol]).mpr fun first isFirst => ?_
      exact Option.some.inj isFirst ▸ outside
  | back =>
      refine (endsOutside_convertTo [symbol]).mpr fun last isLast => ?_
      exact Option.some.inj isLast ▸ outside

section Matched

variable {Look : Type} (looks : Look → Text → Text → Prop) {side : Side} {whole : Prop}

def SpelledIn (text : Bytes) (span : Span Char) : Prop :=
  ∀ before matched after, span before matched after → convertTo matched = text

def OutsideIn (side : Side) (next : Prop) (span : Span Char) : Prop :=
  ∀ before matched after, span before matched after →
    side.Outside AlphanumericByte (convertTo matched) ∧ (convertTo matched = [] → next)

/-- Every matched text has the literal at the side. -/
def StandsIn (side : Side) (whole : Prop) (literal : Bytes) (next : Prop) (span : Span Char) : Prop :=
  ∀ before matched after, span before matched after → ∃ rest,
    convertTo matched = side.join literal rest ∧
      (whole → side.Outside AlphanumericByte rest ∧ (rest = [] → next))

theorem spelledIn_of_all {parts : List (Hir Look)}
    (each : ∀ part ∈ parts, ∀ text, part.Spells text → SpelledIn text (part.Matches looks)) :
    ∀ text, Hir.SpellsAll parts text → SpelledIn text (Hir.MatchesAll looks parts) := by
  induction parts with
  | nil =>
      rintro text spells before matched after same
      rw [Hir.SpellsAll] at spells
      rw [Hir.MatchesAll] at same
      rw [spells, same, convertTo_nil]
  | cons part rest ih =>
      rw [List.forall_mem_cons] at each
      rintro text spells before matched after found
      rw [Hir.SpellsAll] at spells
      rw [Hir.MatchesAll] at found
      obtain ⟨first, later, rfl, here, there⟩ := spells
      obtain ⟨left, right, rfl, leftMatched, rightMatched⟩ := found
      rw [convertTo_append, each.1 first here _ _ _ leftMatched,
        ih each.2 later there _ _ _ rightMatched]

theorem Hir.Spells.matched (hir : Hir Look) :
    ∀ text, hir.Spells text → SpelledIn text (hir.Matches looks) := by
  induction hir using Hir.induction with
  | empty =>
      intro text spells before matched after same
      rw [Hir.Spells] at spells
      rw [Hir.Matches] at same
      rw [spells, same, convertTo_nil]
  | literal bytes =>
      intro text spells before matched after same
      rw [Hir.Spells] at spells
      rw [Hir.Matches] at same
      rw [spells, same]
  | characters ranges =>
      intro text spells
      rw [Hir.Spells] at spells
      exact spells.elim
  | look assertion =>
      intro text spells before matched after same
      rw [Hir.Spells] at spells
      rw [Hir.Matches] at same
      rw [spells, same.1, convertTo_nil]
  | repetition min max sub ih =>
      intro text spells
      rw [Hir.Spells] at spells
      exact spells.elim
  | capture sub ih =>
      intro text spells
      rw [Hir.Spells] at spells
      rw [Hir.Matches]
      exact ih text spells
  | concat parts ih =>
      intro text spells
      rw [Hir.Spells] at spells
      rw [Hir.Matches]
      exact spelledIn_of_all looks ih text spells
  | alternation parts ih =>
      intro text spells before matched after found
      rw [Hir.Spells] at spells
      rw [Hir.Matches] at found
      obtain ⟨part, member, inside⟩ := (Hir.matchesAny_iff looks).mp found
      exact ih part member text (Hir.spellsEach_iff.mp spells part member) before matched after inside

theorem outsideIn_of_all {parts : List (Hir Look)}
    (each : ∀ part ∈ parts, ∀ next, part.OutsideAt side next →
      OutsideIn side next (part.Matches looks)) :
    ∀ next, Hir.OutsideAtAll side parts next →
      OutsideIn side next (Hir.MatchesAll looks parts) := by
  induction parts with
  | nil =>
      intro next holds before matched after same
      rw [Hir.OutsideAtAll] at holds
      rw [Hir.MatchesAll] at same
      rw [same, convertTo_nil]
      exact ⟨side.outside_nil _, fun _ => holds⟩
  | cons part rest ih =>
      rw [List.forall_mem_cons] at each
      intro next outside before matched after found
      rw [Hir.OutsideAtAll] at outside
      rw [Hir.MatchesAll] at found
      obtain ⟨left, right, rfl, leftMatched, rightMatched⟩ := found
      rw [convertTo_append]
      cases side with
      | front =>
          have here := each.1 _ outside _ _ _ leftMatched
          exact Side.outside_join_next here fun holds => ih each.2 _ holds _ _ _ rightMatched
      | back =>
          have here := ih each.2 _ outside _ _ _ rightMatched
          exact Side.outside_join_next here fun holds => each.1 _ holds _ _ _ leftMatched

theorem outside_of_iterate {span : Span Char} {next : Prop} (outside : OutsideIn side next span)
    {times : Nat} {before matched after : Text} (found : span.iterate times before matched after) :
    side.Outside AlphanumericByte (convertTo matched) ∧
      (0 < times → convertTo matched = [] → next) := by
  induction times generalizing before matched after with
  | zero =>
      obtain rfl : matched = [] := found
      exact ⟨side.outside_nil _, fun impossible => absurd impossible (Nat.lt_irrefl 0)⟩
  | succ times ih =>
      obtain ⟨near, far, rfl, ⟨_, _, nearMatched⟩, _, _, farMatched⟩ := side.near_of_iterate found
      obtain ⟨here, empty⟩ := outside _ _ _ nearMatched
      rw [convertTo_join]
      refine ⟨Side.outside_join here fun _ => (ih farMatched).1, fun _ none => ?_⟩
      exact empty (Side.join_eq_nil_iff.mp none).1

theorem Hir.OutsideAt.matched (hir : Hir Look) :
    ∀ next, hir.OutsideAt side next → OutsideIn side next (hir.Matches looks) := by
  induction hir using Hir.induction with
  | empty =>
      intro next holds before matched after same
      rw [Hir.OutsideAt] at holds
      rw [Hir.Matches] at same
      rw [same, convertTo_nil]
      exact ⟨side.outside_nil _, fun _ => holds⟩
  | literal bytes =>
      intro next outside before matched after same
      rw [Hir.OutsideAt] at outside
      rw [Hir.Matches] at same
      rwa [same]
  | characters ranges =>
      intro next outside before matched after found
      rw [Hir.OutsideAt] at outside
      rw [Hir.Matches] at found
      obtain ⟨symbol, rfl, contains⟩ := found
      refine ⟨outside_single (outside symbol contains), fun none => ?_⟩
      rw [convertTo_cons, convertTo_nil, List.append_nil] at none
      exact absurd none String.utf8EncodeChar_ne_nil
  | look assertion =>
      intro next holds before matched after same
      rw [Hir.OutsideAt] at holds
      rw [Hir.Matches] at same
      rw [same.1, convertTo_nil]
      exact ⟨side.outside_nil _, fun _ => holds⟩
  | repetition min max sub ih =>
      intro next outside before matched after found
      rw [Hir.OutsideAt] at outside
      rw [Hir.Matches] at found
      obtain ⟨times, atLeast, -, iterated⟩ := found
      obtain ⟨here, later⟩ := outside_of_iterate (ih next outside.2) iterated
      refine ⟨here, fun none => ?_⟩
      rcases Nat.eq_zero_or_pos times with rfl | positive
      · exact outside.1 (Nat.le_zero.mp atLeast)
      · exact later positive none
  | capture sub ih =>
      intro next outside
      rw [Hir.OutsideAt] at outside
      rw [Hir.Matches]
      exact ih next outside
  | concat parts ih =>
      intro next outside
      rw [Hir.OutsideAt] at outside
      rw [Hir.Matches]
      exact outsideIn_of_all looks ih next outside
  | alternation parts ih =>
      intro next outside before matched after found
      rw [Hir.OutsideAt, Hir.outsideAtEach_iff] at outside
      rw [Hir.Matches] at found
      obtain ⟨part, member, inside⟩ := (Hir.matchesAny_iff looks).mp found
      exact ih part member next (outside part member) before matched after inside

theorem stands_join {literal rest far : Bytes} {next further : Prop}
    (here : whole → side.Outside AlphanumericByte rest ∧ (rest = [] → next))
    (there : next → side.Outside AlphanumericByte far ∧ (far = [] → further)) :
    ∃ more, side.join (side.join literal rest) far = side.join literal more ∧
      (whole → side.Outside AlphanumericByte more ∧ (more = [] → further)) :=
  ⟨side.join rest far, Side.join_assoc, fun holds => Side.outside_join_next (here holds) there⟩

/-- The literal in a sequence. -/
theorem standsIn_of_all {parts : List (Hir Look)}
    (each : ∀ part ∈ parts, ∀ literal next, part.StandsAt side whole literal next →
      StandsIn side whole literal next (part.Matches looks)) :
    ∀ literal next, Hir.StandsAtAll side whole parts literal next →
      StandsIn side whole literal next (Hir.MatchesAll looks parts) := by
  have outside (parts : List (Hir Look)) : ∀ next, Hir.OutsideAtAll side parts next →
      OutsideIn side next (Hir.MatchesAll looks parts) :=
    outsideIn_of_all looks fun part _ => Hir.OutsideAt.matched looks part
  have spelled (parts : List (Hir Look)) : ∀ text, Hir.SpellsAll parts text →
      SpelledIn text (Hir.MatchesAll looks parts) :=
    spelledIn_of_all looks fun part _ => Hir.Spells.matched looks part
  induction parts with
  | nil =>
      intro literal next stands
      rw [Hir.StandsAtAll] at stands
      exact stands.elim
  | cons part rest ih =>
      rw [List.forall_mem_cons] at each
      intro literal next stands before matched after found
      rw [Hir.StandsAtAll] at stands
      rw [Hir.MatchesAll] at found
      obtain ⟨left, right, rfl, leftMatched, rightMatched⟩ := found
      rw [convertTo_append]
      cases side with
      | front =>
          rcases stands with inPart | ⟨first, later, rfl, spells, inRest⟩
          · obtain ⟨more, split, ends⟩ := each.1 _ _ inPart _ _ _ leftMatched
            rw [split]
            exact stands_join ends fun holds => outside rest _ holds _ _ _ rightMatched
          · obtain ⟨more, split, ends⟩ := ih each.2 _ _ inRest _ _ _ rightMatched
            rw [Hir.Spells.matched looks part _ spells _ _ _ leftMatched, split]
            exact ⟨more, (List.append_assoc first later more).symm, ends⟩
      | back =>
          rcases stands with inRest | ⟨first, later, rfl, spells, inPart⟩
          · obtain ⟨more, split, ends⟩ := ih each.2 _ _ inRest _ _ _ rightMatched
            rw [split]
            exact stands_join ends fun holds =>
              Hir.OutsideAt.matched looks part _ holds _ _ _ leftMatched
          · obtain ⟨more, split, ends⟩ := each.1 _ _ inPart _ _ _ leftMatched
            rw [spelled rest _ spells _ _ _ rightMatched, split]
            exact ⟨more, List.append_assoc more first later, ends⟩

theorem Hir.StandsAt.matched (hir : Hir Look) :
    ∀ literal next, hir.StandsAt side whole literal next →
      StandsIn side whole literal next (hir.Matches looks) := by
  induction hir using Hir.induction with
  | empty =>
      intro literal next stands
      rw [Hir.StandsAt] at stands
      exact stands.elim
  | literal bytes =>
      intro literal next stands before matched after same
      rw [Hir.StandsAt] at stands
      rw [Hir.Matches] at same
      rwa [same]
  | characters ranges =>
      intro literal next stands
      rw [Hir.StandsAt] at stands
      exact stands.elim
  | look assertion =>
      intro literal next stands
      rw [Hir.StandsAt] at stands
      exact stands.elim
  | repetition min max sub ih =>
      intro literal next stands before matched after found
      rw [Hir.StandsAt] at stands
      obtain ⟨positive, once, inside⟩ := stands
      rw [Hir.Matches] at found
      obtain ⟨times, atLeast, atMost, iterated⟩ := found
      obtain ⟨others, rfl⟩ := Nat.exists_eq_add_one_of_ne_zero
        (Nat.pos_iff_ne_zero.mp (Nat.lt_of_lt_of_le positive atLeast))
      obtain ⟨near, far, rfl, ⟨_, _, nearMatched⟩, _, _, farMatched⟩ :=
        side.near_of_iterate iterated
      obtain ⟨rest, split, ends⟩ := ih literal next inside _ _ _ nearMatched
      rw [convertTo_join, split, Side.join_assoc]
      refine ⟨side.join rest (convertTo far), rfl, fun holds => ?_⟩
      -- The only match is the one at the side.
      have single := atMost 1 (once holds)
      obtain rfl : others = 0 := by omega
      obtain rfl : far = [] := farMatched
      rw [convertTo_nil, Side.join_nil]
      exact ends holds
  | capture sub ih =>
      intro literal next stands
      rw [Hir.StandsAt] at stands
      rw [Hir.Matches]
      exact ih literal next stands
  | concat parts ih =>
      intro literal next stands
      rw [Hir.StandsAt] at stands
      rw [Hir.Matches]
      exact standsIn_of_all looks ih literal next stands
  | alternation parts ih =>
      intro literal next stands before matched after found
      rw [Hir.StandsAt, Hir.standsAtEach_iff] at stands
      rw [Hir.Matches] at found
      obtain ⟨part, member, inside⟩ := (Hir.matchesAny_iff looks).mp found
      exact ih part member literal next (stands part member) before matched after inside

end Matched

end PostgreOS
