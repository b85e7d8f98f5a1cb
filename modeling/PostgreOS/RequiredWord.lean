/-
The word that a pattern guarantees.

`required_word` takes the longest run of letters and digits of the one required literal, so that
the database can look up the lines by their words. A run inside the literal is bounded by the
literal itself. For a run at its end the function looks at the text of the pattern, which says
less about the matches than it takes from it.
-/

import PostgreOS.BoundaryLiterals

namespace PostgreOS

open Library.Runs Library.Spans

/-- The better one of the word found so far and a run. -/
def betterWord (left right : Bool) (best : Option Text) (run : Bytes) : Option Text :=
  if left && right && decide (3 ≤ run.length ∧ run.length ≤ 128) &&
      best.all fun old => decide (octetLength old < run.length) then
    fromUtf8 run
  else best

/-- The loop of `required_word` over the bytes from `start`. -/
def requiredWordLoop (atStart atEnd : Bool) (start : Nat) (best : Option Text) (bytes : Bytes) :
    Option Text :=
  match bytes with
  | [] => best
  | byte :: rest =>
      if isAsciiAlphanumeric byte.toNat then
        let run := byte :: rest.takeWhile fun next => isAsciiAlphanumeric next.toNat
        let later := rest.dropWhile fun next => isAsciiAlphanumeric next.toNat
        requiredWordLoop atStart atEnd (start + run.length)
          (betterWord (decide (0 < start) || atStart) (!later.isEmpty || atEnd) best run) later
      else requiredWordLoop atStart atEnd (start + 1) best rest
  termination_by bytes.length
  decreasing_by
    · exact Nat.lt_succ_of_le (List.length_dropWhile_le _ rest)
    · exact Nat.lt_succ_self _

/-- `required_word`. -/
def requiredWord (pattern : Text) (literals : List Text) (wholeWord : Bool) : Option Text :=
  match literals with
  | [literal] =>
      requiredWordLoop (wholeWord && decide (literal <+: pattern))
        (wholeWord && decide (literal <:+ pattern)) 0 none (convertTo literal)
  | _ => none

/-- A run that the loop may choose. -/
structure WordAt (atStart atEnd : Bool) (bytes front run back : Bytes) : Prop where
  split : bytes = front ++ (run ++ back)
  alphanumeric : ∀ byte ∈ run, AlphanumericByte byte
  before : EndsOutside AlphanumericByte front
  after : StartsOutside AlphanumericByte back
  long : 3 ≤ run.length
  short : run.length ≤ 128
  first : front = [] → atStart = true
  last : back = [] → atEnd = true

/-- No such run is longer, and none before it as long. -/
structure FirstLongest (atStart atEnd : Bool) (bytes front run back : Bytes) : Prop
    extends WordAt atStart atEnd bytes front run back where
  longest : ∀ otherFront other otherBack, WordAt atStart atEnd bytes otherFront other otherBack →
    other.length ≤ run.length ∧ (otherFront.length < front.length → other.length < run.length)

section Loop

variable {atStart atEnd : Bool} {bytes front run back seen later : Bytes}

theorem run_unique {property : UInt8 → Prop} {first second firstRest secondRest : Bytes}
    (same : first ++ firstRest = second ++ secondRest)
    (firstAll : ∀ byte ∈ first, property byte) (secondAll : ∀ byte ∈ second, property byte)
    (firstEnds : StartsOutside property firstRest) (secondEnds : StartsOutside property secondRest) :
    first = second := by
  induction first generalizing second with
  | nil =>
      cases second with
      | nil => rfl
      | cons byte rest =>
          rw [List.nil_append] at same
          rw [same] at firstEnds
          exact absurd (secondAll byte List.mem_cons_self) (firstEnds byte rfl)
  | cons byte rest ih =>
      cases second with
      | nil =>
          rw [List.nil_append] at same
          rw [← same] at secondEnds
          exact absurd (firstAll byte List.mem_cons_self) (secondEnds byte rfl)
      | cons other more =>
          obtain ⟨rfl, sameRest⟩ := List.cons.inj same
          rw [List.forall_mem_cons] at firstAll secondAll
          rw [ih sameRest firstAll.2 secondAll.2]

theorem WordAt.at_place (word : WordAt atStart atEnd (seen ++ later) front run back)
    (place : front.length = seen.length) : front = seen ∧ run ++ back = later := by
  obtain ⟨rfl, same⟩ := List.append_inj word.split place.symm
  exact ⟨rfl, same.symm⟩

theorem WordAt.head (word : WordAt atStart atEnd (seen ++ later) front run back)
    (place : front.length = seen.length) : ∃ byte rest, later = byte :: rest ∧ AlphanumericByte byte := by
  obtain ⟨-, rfl⟩ := word.at_place place
  cases run with
  | nil => exact absurd word.long (by decide)
  | cons byte rest => exact ⟨byte, rest ++ back, rfl, word.alphanumeric byte List.mem_cons_self⟩

theorem WordAt.not_inside {inside : Bytes}
    (word : WordAt atStart atEnd (seen ++ (inside ++ later)) front run back)
    (all : ∀ byte ∈ inside, AlphanumericByte byte) (here : seen.length ≤ front.length)
    (within : front.length < seen.length + inside.length) : front.length = seen.length := by
  by_contra other
  have split := word.split
  obtain ⟨skipped, rfl, same⟩ : ∃ skipped, front = seen ++ skipped ∧
      inside ++ later = skipped ++ (run ++ back) := by
    rcases List.append_eq_append_iff.mp split with ⟨extra, found, same⟩ | ⟨extra, found, same⟩
    · exact ⟨extra, found, same⟩
    · obtain rfl : extra = [] := by
        rw [found, List.length_append] at here
        exact List.length_eq_zero_iff.mp (by omega)
      exact ⟨[], by rw [found, List.append_nil, List.append_nil], same.symm⟩
  rw [List.length_append] at within other
  obtain ⟨rest, split⟩ : skipped <+: inside :=
    List.prefix_of_prefix_length_le ⟨run ++ back, same.symm⟩ (List.prefix_append inside later)
      (by omega)
  rcases List.eq_nil_or_concat skipped with rfl | ⟨start, byte, rfl⟩
  · exact other rfl
  · rw [List.concat_eq_append] at split
    refine word.before byte ?_ (all byte ?_)
    · rw [List.concat_eq_append, ← List.append_assoc, List.getLast?_concat]
      rfl
    · rw [← split]
      exact List.mem_append_left rest (List.mem_append_right start (List.mem_singleton_self byte))

theorem WordAt.unique {inside : Bytes}
    (word : WordAt atStart atEnd (seen ++ (inside ++ later)) front run back)
    (all : ∀ byte ∈ inside, AlphanumericByte byte) (ended : StartsOutside AlphanumericByte later)
    (place : front.length = seen.length) : front = seen ∧ run = inside ∧ back = later := by
  obtain ⟨sameFront, rest⟩ := word.at_place place
  have sameRun := run_unique rest word.alphanumeric all word.after ended
  rw [sameRun] at rest
  exact ⟨sameFront, sameRun, List.append_cancel_left rest⟩

theorem exists_text_of_ascii {bytes : Bytes} (ascii : ∀ byte ∈ bytes, byte.toNat < 128) :
    ∃ text, convertTo text = bytes := by
  induction bytes with
  | nil => exact ⟨[], rfl⟩
  | cons byte rest ih =>
      rw [List.forall_mem_cons] at ascii
      obtain ⟨text, encoded⟩ := ih ascii.2
      have code : (Char.ofNat byte.toNat).val.toNat = byte.toNat := by
        rw [Char.ofNat, dif_pos (Or.inl (Nat.lt_trans ascii.1 (by decide)))]
        rfl
      refine ⟨Char.ofNat byte.toNat :: text, ?_⟩
      rw [convertTo_cons, utf8EncodeChar_ascii (by rw [code]; exact ascii.1), code, encoded,
        List.singleton_append, UInt8.ofNat_toNat]

/-- What the loop has found among the runs that start before a place. -/
def BestBefore (atStart atEnd : Bool) (bytes : Bytes) (place : Nat) : Option Text → Prop
  | none => ∀ front run back, WordAt atStart atEnd bytes front run back → place ≤ front.length
  | some word => ∃ front back, WordAt atStart atEnd bytes front (convertTo word) back ∧
      front.length < place ∧
      ∀ otherFront other otherBack, WordAt atStart atEnd bytes otherFront other otherBack →
        otherFront.length < place → other.length ≤ octetLength word ∧
          (otherFront.length < front.length → other.length < octetLength word)

theorem BestBefore.skip {best : Option Text} {place next : Nat}
    (found : BestBefore atStart atEnd bytes place best) (forward : place ≤ next)
    (free : ∀ front run back, WordAt atStart atEnd bytes front run back →
      place ≤ front.length → next ≤ front.length) :
    BestBefore atStart atEnd bytes next best := by
  cases best with
  | none => exact fun front run back word => free front run back word (found front run back word)
  | some chosen =>
      obtain ⟨front, back, word, early, longest⟩ := found
      refine ⟨front, back, word, Nat.lt_of_lt_of_le early forward, ?_⟩
      intro otherFront other otherBack otherWord otherEarly
      refine longest otherFront other otherBack otherWord ?_
      by_contra late
      exact absurd (free _ _ _ otherWord (Nat.le_of_not_lt late)) (Nat.not_le_of_lt otherEarly)

theorem wordAt_iff {inside : Bytes} (all : ∀ byte ∈ inside, AlphanumericByte byte)
    (before : EndsOutside AlphanumericByte seen) (ended : StartsOutside AlphanumericByte later) :
    WordAt atStart atEnd (seen ++ (inside ++ later)) seen inside later ↔
      ((decide (0 < seen.length) || atStart) && (!later.isEmpty || atEnd) &&
        decide (3 ≤ inside.length ∧ inside.length ≤ 128)) = true := by
  simp only [Bool.and_eq_true, Bool.or_eq_true, decide_eq_true_eq, Bool.not_eq_true',
    List.isEmpty_eq_false_iff, List.length_pos_iff_ne_nil]
  constructor
  · intro word
    exact ⟨⟨or_iff_not_imp_left.mpr fun none => word.first (not_not.mp none),
      or_iff_not_imp_left.mpr fun none => word.last (not_not.mp none)⟩, word.long, word.short⟩
  · rintro ⟨⟨left, right⟩, long, short⟩
    exact ⟨rfl, all, before, ended, long, short, fun none => left.resolve_left (not_not.mpr none),
      fun none => right.resolve_left (not_not.mpr none)⟩

/-- After a stretch of letters and digits the better one of the old word and the stretch is
found. -/
theorem BestBefore.stretch {best : Option Text} {inside : Bytes}
    (found : BestBefore atStart atEnd (seen ++ (inside ++ later)) seen.length best)
    (some : inside ≠ []) (all : ∀ byte ∈ inside, AlphanumericByte byte)
    (before : EndsOutside AlphanumericByte seen) (ended : StartsOutside AlphanumericByte later) :
    BestBefore atStart atEnd (seen ++ (inside ++ later)) (seen.length + inside.length)
      (betterWord (decide (0 < seen.length) || atStart) (!later.isEmpty || atEnd) best inside) := by
  -- Where a run starts in the stretch, it is the stretch.
  have only (front run back : Bytes)
      (word : WordAt atStart atEnd (seen ++ (inside ++ later)) front run back)
      (here : seen.length ≤ front.length) (within : front.length < seen.length + inside.length) :
      front = seen ∧ run = inside ∧ back = later :=
    word.unique all ended (word.not_inside all here within)
  unfold betterWord
  by_cases word : WordAt atStart atEnd (seen ++ (inside ++ later)) seen inside later
  · rw [(wordAt_iff all before ended).mp word, Bool.true_and]
    split
    · rename_i better
      obtain ⟨text, rfl⟩ := exists_text_of_ascii fun byte member =>
        lt_of_isAsciiAlphanumeric (all byte member)
      rw [(fromUtf8_eq_some_iff _ text).mpr rfl]
      refine ⟨seen, later, word, Nat.lt_add_of_pos_right (List.length_pos_of_ne_nil some), ?_⟩
      intro front run back other early
      by_cases place : front.length < seen.length
      · have shorter : run.length < octetLength text := by
          cases best with
          | none => exact absurd (found front run back other) (Nat.not_le_of_lt place)
          | some old =>
              obtain ⟨_, _, _, _, longest⟩ := found
              exact Nat.lt_of_le_of_lt (longest front run back other place).1
                (of_decide_eq_true better)
        exact ⟨Nat.le_of_lt shorter, fun _ => shorter⟩
      · obtain ⟨rfl, rfl, rfl⟩ := only front run back other (Nat.le_of_not_lt place) early
        exact ⟨Nat.le_refl _, fun impossible => absurd impossible (Nat.lt_irrefl _)⟩
    · rename_i kept
      cases best with
      | none => exact absurd rfl kept
      | some old =>
          obtain ⟨front, back, oldWord, early, longest⟩ := found
          have notLonger : inside.length ≤ octetLength old := by
            rw [Option.all_some, decide_eq_true_eq] at kept
            omega
          refine ⟨front, back, oldWord, Nat.lt_add_right _ early, ?_⟩
          intro otherFront other otherBack otherWord otherEarly
          by_cases place : otherFront.length < seen.length
          · exact longest otherFront other otherBack otherWord place
          · obtain ⟨rfl, rfl, rfl⟩ :=
              only otherFront other otherBack otherWord (Nat.le_of_not_lt place) otherEarly
            exact ⟨notLonger, fun earlier => absurd early (Nat.lt_asymm earlier)⟩
  · have refused := (@wordAt_iff atStart atEnd _ _ _ all before ended).not.mp word
    rw [if_neg (by rw [Bool.and_eq_true]; exact fun both => refused both.1)]
    refine found.skip (Nat.le_add_right _ _) fun front run back other here => ?_
    by_contra within
    obtain ⟨rfl, rfl, rfl⟩ := only front run back other here (Nat.lt_of_not_le within)
    exact word other

/-- The loop finds the first longest run of the whole list. -/
theorem bestBefore_requiredWordLoop (start : Nat) (best : Option Text) :
    ∀ seen : Bytes, start = seen.length → BestBefore atStart atEnd (seen ++ later) start best →
      EndsOutside AlphanumericByte seen ∨ StartsOutside AlphanumericByte later →
      BestBefore atStart atEnd (seen ++ later) (seen ++ later).length
        (requiredWordLoop atStart atEnd start best later) := by
  induction start, best, later using requiredWordLoop.induct atStart atEnd with
  | case1 start best =>
      rintro seen rfl found -
      rw [requiredWordLoop]
      rwa [List.append_nil] at found ⊢
  | case2 start best byte rest holds run later ih =>
      rintro seen rfl found apart
      rw [requiredWordLoop, if_pos holds]
      have split : byte :: rest = run ++ later := by
        rw [List.cons_append, List.takeWhile_append_dropWhile]
      have all : ∀ next ∈ run, AlphanumericByte next := by
        rw [List.forall_mem_cons]
        refine ⟨holds, fun next member => ?_⟩
        have taken := List.mem_takeWhile_imp member
        exact taken
      have before : EndsOutside AlphanumericByte seen :=
        apart.resolve_right fun outside => outside byte rfl holds
      have ended : StartsOutside AlphanumericByte later := by
        intro next member
        have stopped := List.head?_dropWhile_not (fun next : UInt8 => isAsciiAlphanumeric next.toNat) rest
        rw [Option.mem_def.mp member] at stopped
        exact Bool.eq_false_iff.mp stopped
      rw [split] at found ⊢
      have stretched := found.stretch (List.cons_ne_nil _ _) all before ended
      have finished := ih (seen ++ run) (by rw [List.length_append])
      rw [List.append_assoc] at finished
      exact finished stretched (Or.inr ended)
  | case3 start best byte rest other ih =>
      rintro seen rfl found -
      rw [requiredWordLoop, if_neg other]
      have skipped := ih (seen ++ [byte]) (by rw [List.length_append]; rfl)
      rw [List.append_assoc, List.singleton_append] at skipped
      refine skipped (found.skip (Nat.le_succ _) ?_) (Or.inl (endsOutside_append ?_ ?_))
      · intro front run back word here
        by_contra within
        obtain ⟨head, more, same, holds⟩ := word.head (by omega)
        obtain ⟨rfl, -⟩ := List.cons.inj same
        exact other holds
      · intro last member
        obtain rfl := Option.some.inj member
        exact other
      · intro impossible
        cases impossible

theorem requiredWord_eq_some {pattern word : Text} {literals : List Text} {wholeWord : Bool}
    (chosen : requiredWord pattern literals wholeWord = some word) :
    ∃ literal front back, literals = [literal] ∧
      FirstLongest (wholeWord && decide (literal <+: pattern)) (wholeWord && decide (literal <:+ pattern))
        (convertTo literal) front (convertTo word) back := by
  unfold requiredWord at chosen
  split at chosen
  · rename_i literal
    have found := @bestBefore_requiredWordLoop (wholeWord && decide (literal <+: pattern))
      (wholeWord && decide (literal <:+ pattern)) (convertTo literal) 0 none [] rfl
      (fun _ _ _ _ => Nat.zero_le _) (Or.inl (endsOutside_nil _))
    rw [List.nil_append, chosen] at found
    obtain ⟨front, back, inside, -, longest⟩ := found
    refine ⟨literal, front, back, rfl, inside, fun otherFront other otherBack otherInside => ?_⟩
    refine longest otherFront other otherBack otherInside ?_
    have split := congrArg List.length otherInside.split
    have long := otherInside.long
    rw [List.length_append, List.length_append] at split
    omega
  · cases chosen

end Loop

theorem hasToken_of_convertTo {word line : Text} (some : word ≠ [])
    (all : ∀ byte ∈ convertTo word, AlphanumericByte byte)
    (token : HasToken AlphanumericByte (convertTo word) (convertTo line)) :
    HasToken AlphanumericChar word line := by
  have ascii : ∀ symbol ∈ word, symbol.val.toNat < 128 := by
    intro symbol member
    obtain ⟨byte, inCode⟩ := List.exists_mem_of_ne_nil _ (@String.utf8EncodeChar_ne_nil symbol)
    have holds := all byte (List.mem_flatMap.mpr ⟨symbol, member, inCode⟩)
    rw [code_of_mem_utf8EncodeChar inCode (lt_of_isAsciiAlphanumeric holds)]
    exact lt_of_isAsciiAlphanumeric holds
  obtain ⟨before, after, split, outsideBefore, outsideAfter⟩ := token
  rw [List.append_assoc] at split
  obtain ⟨front, back, rfl, rfl, rfl⟩ := convertTo_split_word some ascii split
  rw [endsOutside_convertTo] at outsideBefore
  rw [startsOutside_convertTo] at outsideAfter
  exact ⟨front, back, by rw [List.append_assoc], outsideBefore, outsideAfter⟩

/-! ### Lines of GNU grep -/

/-- The matches that GNU grep accepts, with `-w` those that form whole words. -/
def acceptedBy (isWord : Char → Prop) (wholeWord : Bool) (gnu : Span Char) : Span Char :=
  fun before text after => gnu before text after ∧
    (wholeWord = true → EndsOutside isWord before ∧ StartsOutside isWord after)

section Sound

variable {Look : Type} (calls : RegexCalls Look) (looks : Look → Text → Text → Prop)
  (isWord : Char → Prop) (gnu : Span Char)

/-- The rewritten pattern matches no less than GNU grep does, and where the longest run of the only
literal reaches an end of it, the literal is the mandatory part of the parsed expression at that
end. If it is one run, no letter or digit stands on its other side. -/
structure BoundariesProven (pattern : Text) (fixed extended wholeWord : Bool) : Prop where
  superset : ∀ translated hir, gnuSuperset calls pattern fixed extended = some translated →
    calls.parse translated = some hir →
      ∀ before text after, gnu before text after → hir.Matches looks before text after
  stands : ∀ literal front run back translated hir,
    gnuRequiredLiterals calls pattern fixed extended = some [literal] →
      gnuSuperset calls pattern fixed extended = some translated → calls.parse translated = some hir →
        FirstLongest (wholeWord && decide (literal <+: pattern))
          (wholeWord && decide (literal <:+ pattern)) (convertTo literal) front run back →
          front = [] ∨ back = [] →
            front = [] ∧ hir.StandsAt .front (back = []) (convertTo literal) True ∨
              back = [] ∧ hir.StandsAt .back (front = []) (convertTo literal) True

variable {calls} {isWord} {gnu}

theorem parsed_of_required {pattern : Text} {fixed extended : Bool} {literals : List Text}
    (required : gnuRequiredLiterals calls pattern fixed extended = some literals) :
    ∃ translated hir, gnuSuperset calls pattern fixed extended = some translated ∧
      calls.parse translated = some hir := by
  obtain ⟨translated, rewritten, found⟩ := Option.bind_eq_some_iff.mp required
  obtain ⟨hir, parsed, -⟩ := Option.bind_eq_some_iff.mp found
  exact ⟨translated, hir, rewritten, parsed⟩

/-- Every accepted line has the required word as a token, where its boundaries are proven. -/
theorem requiredWord_sound {pattern : Text} {fixed extended wholeWord : Bool}
    (extracts : calls.ExtractsLiterals looks)
    (letters : ∀ symbol, AlphanumericChar symbol → isWord symbol)
    (proven : BoundariesProven calls looks gnu pattern fixed extended wholeWord)
    {literals : List Text} {word : Text}
    (required : gnuRequiredLiterals calls pattern fixed extended = some literals)
    (chosen : requiredWord pattern literals wholeWord = some word) :
    ∀ line, (acceptedBy isWord wholeWord gnu).FoundIn line → HasToken AlphanumericChar word line := by
  obtain ⟨literal, front, back, rfl, longest⟩ := requiredWord_eq_some chosen
  have some : word ≠ [] := by
    rintro rfl
    exact absurd longest.long (by decide)
  rintro _ ⟨before, text, after, rfl, accepted⟩
  refine hasToken_of_convertTo some longest.alphanumeric ?_
  rw [convertTo_append, convertTo_append]
  by_cases ends : front = [] ∨ back = []
  · -- The run reaches an end of the literal, so the function looked at the pattern under `-w`.
    have whole : wholeWord = true := by
      rcases ends with none | none
      · exact (Bool.and_eq_true_iff.mp (longest.first none)).1
      · exact (Bool.and_eq_true_iff.mp (longest.last none)).1
    obtain ⟨outsideBefore, outsideAfter⟩ := accepted.2 whole
    have before_ := (endsOutside_convertTo before).mpr (outsideBefore.mono letters)
    have after_ := (startsOutside_convertTo after).mpr (outsideAfter.mono letters)
    obtain ⟨translated, hir, rewritten, parsed⟩ := parsed_of_required required
    have matched := proven.superset translated hir rewritten parsed before text after accepted.1
    rcases proven.stands literal front _ back translated hir required rewritten parsed longest ends with
      ⟨rfl, stands⟩ | ⟨rfl, stands⟩
    · obtain ⟨rest, split, free⟩ := Hir.StandsAt.matched looks hir _ _ stands before text after matched
      refine ⟨convertTo before, back ++ (rest ++ convertTo after), ?_, before_, ?_⟩
      · rw [split, longest.split]
        simp only [Side.join, List.nil_append, List.append_assoc]
      · refine startsOutside_append longest.after fun empty => ?_
        exact startsOutside_append (free empty).1 fun _ => after_
    · obtain ⟨rest, split, free⟩ := Hir.StandsAt.matched looks hir _ _ stands before text after matched
      refine ⟨convertTo before ++ (rest ++ front), convertTo after, ?_, ?_, after_⟩
      · rw [split, longest.split]
        simp only [Side.join, List.append_nil, List.append_assoc]
      · rw [← List.append_assoc]
        refine endsOutside_append longest.before fun empty => ?_
        exact endsOutside_append (free empty).1 fun _ => before_
  · -- The literal bounds the run on both sides, wherever it stands.
    obtain ⟨left, right⟩ := not_or.mp ends
    obtain ⟨found, member, earlier, later, split⟩ :=
      gnuRequiredLiterals_covers looks extracts proven.superset required before text after accepted.1
    obtain rfl := List.mem_singleton.mp member
    rw [← split, longest.split]
    refine ⟨convertTo before ++ earlier ++ front, back ++ (later ++ convertTo after), ?_,
      (endsOutside_append_iff left).mpr longest.before,
      (startsOutside_append_iff right).mpr longest.after⟩
    simp only [List.append_assoc]

end Sound

def leadingLiteral {Look : Type} : ExtractKind → Hir Look → Option (List Bytes)
  | .prefixes, .concat (.literal bytes :: _) => some [bytes]
  | _, _ => none

/-- The class of `.`. -/
def anyCharacter : HirClass := .unicode [('\x00', '\t'), ('\x0b', Char.ofNat 1114111)]

/-- The parse of `Sherlock .*`. -/
def sherlockHir : Hir Empty :=
  .concat [.literal (convertTo "Sherlock ".toList), .repetition 0 none (.characters anyCharacter)]

/-- The parse of `foo.*foo`. -/
def fooHir : Hir Empty :=
  .concat [.literal (convertTo "foo".toList), .repetition 0 none (.characters anyCharacter),
    .literal (convertTo "foo".toList)]

/-- What the regex libraries answer for the two patterns. -/
def leadingCalls : RegexCalls Empty where
  parse pattern :=
    if pattern = "Sherlock .*".toList then some sherlockHir
    else if pattern = "foo.*foo".toList then some fooHir
    else none
  extract := leadingLiteral
  minimumLen _ := some 6
  escape pattern := pattern.flatMap fun symbol =>
    if ("\\.+*?()|[]^$#&-~".toList ++ ['\x7b', '\x7d']).contains symbol then ['\\', symbol] else [symbol]

def noLooks (assertion : Empty) (_ _ : Text) : Prop := assertion.elim

def isWordChar (symbol : Char) : Prop := isWordCode symbol.toNat = true

theorem leadingCalls_extracts : leadingCalls.ExtractsLiterals noLooks := by
  intro kind hir found extracted before text after matched
  unfold leadingCalls leadingLiteral at extracted
  dsimp only at extracted
  split at extracted
  · obtain rfl := Option.some.inj extracted
    rw [Hir.Matches, Hir.MatchesAll] at matched
    obtain ⟨left, right, rfl, leftMatched, -⟩ := matched
    rw [Hir.Matches] at leftMatched
    refine ⟨_, List.mem_singleton_self _, ?_⟩
    rw [convertTo_append, leftMatched]
    exact List.prefix_append _ _
  · cases extracted

theorem requiredWord_sound_sherlock :
    requiredWord "Sherlock .*".toList ["Sherlock ".toList] true = some "Sherlock".toList ∧
    ∀ line, (acceptedBy isWordChar true (sherlockHir.Matches noLooks)).FoundIn line →
      HasToken AlphanumericChar "Sherlock".toList line := by
  have required : gnuRequiredLiterals leadingCalls "Sherlock .*".toList false true =
      some ["Sherlock ".toList] := by decide +kernel
  have chosen : requiredWord "Sherlock .*".toList ["Sherlock ".toList] true =
      some "Sherlock".toList := by decide +kernel
  have same : gnuSuperset leadingCalls "Sherlock .*".toList false true =
      some "Sherlock .*".toList := by decide +kernel
  refine ⟨chosen, requiredWord_sound noLooks leadingCalls_extracts ?_ ⟨?_, ?_⟩ required chosen⟩
  · intro symbol holds
    exact Bool.or_eq_true_iff.mpr (Or.inl holds)
  · intro translated hir rewritten parsed before text after matched
    rw [same] at rewritten
    obtain rfl := Option.some.inj rewritten
    obtain rfl := Option.some.inj parsed
    exact matched
  · intro literal front run back translated hir found rewritten parsed longest ends
    rw [required] at found
    obtain ⟨rfl, -⟩ := List.cons.inj (Option.some.inj found)
    rw [same] at rewritten
    obtain rfl := Option.some.inj rewritten
    obtain rfl : sherlockHir = hir := Option.some.inj parsed
    -- The pattern does not end with the literal, so the run does not end it.
    have inside : back ≠ [] := fun none => absurd (longest.last none) (by decide)
    refine Or.inl ⟨ends.resolve_right inside, ?_⟩
    rw [sherlockHir, Hir.StandsAt, Hir.StandsAtAll]
    refine Or.inl ?_
    rw [Hir.StandsAt]
    exact ⟨[], (List.append_nil _).symm, fun none => absurd none inside⟩

/-- The line `fooxfoo` is one match of `foo.*foo`, and `foo` is not a word of it. -/
theorem requiredWord_not_sound :
    ¬ ∀ (literals : List Text) (word : Text),
      gnuRequiredLiterals leadingCalls "foo.*foo".toList false true = some literals →
        requiredWord "foo.*foo".toList literals true = some word →
          ∀ line, (acceptedBy isWordChar true (fooHir.Matches noLooks)).FoundIn line →
            HasToken AlphanumericChar word line := by
  intro every
  have token := every ["foo".toList] "foo".toList (by decide +kernel) (by decide +kernel)
    "fooxfoo".toList
  refine absurd (token ⟨[], "fooxfoo".toList, [], rfl, ?_, ?_⟩) (by decide +kernel)
  · rw [fooHir, Hir.Matches, Hir.MatchesAll]
    refine ⟨"foo".toList, "xfoo".toList, rfl, by rw [Hir.Matches], ?_⟩
    rw [Hir.MatchesAll]
    refine ⟨"x".toList, "foo".toList, rfl, ?_, ?_⟩
    · rw [Hir.Matches]
      refine ⟨1, Nat.zero_le 1, fun bound impossible => (by cases impossible), ?_⟩
      refine ⟨"x".toList, [], rfl, ?_, rfl⟩
      rw [Hir.Matches]
      exact ⟨'x', rfl, _, List.mem_cons_of_mem _ (List.mem_singleton_self _), by decide, by decide⟩
    · rw [Hir.MatchesAll]
      refine ⟨"foo".toList, [], rfl, by rw [Hir.Matches], ?_⟩
      rw [Hir.MatchesAll]
  · intro _
    exact ⟨endsOutside_nil _, startsOutside_nil _⟩

end PostgreOS
