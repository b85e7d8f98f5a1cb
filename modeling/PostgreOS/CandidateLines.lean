/-
The lines that are searched for a pattern with a run of letters.

`candidate_file_ascii_text` returns the lines of a file that have a run of letters. No line
that the pattern matches is left out, if its matches have the run that is counted for it.
-/

import PostgreOS.LetterRuns
import PostgreOS.Library.Lines

namespace PostgreOS

open Library.LineBlocks Library.Lines Library.Runs Library.Outcome

/-- A row of lines. -/
structure TextRow where
  firstLine : Nat
  body : Text
  deriving DecidableEq, Repr

/-- `pgos_private.file_content`: the object and the inline text of a text file. -/
def Database.fileContent (db : Database) (volume : Uuid) (target : Text) :
    Result (Option Uuid × Text) := do
  let cleanPath ← assertPath target
  match (db.locateZone volume cleanPath).bind (db.entryAt volume) with
  | none => raise "P0002" "file does not exist: %" [target]
  | some entry =>
      match entry.kind, entry.textContent with
      | .file, some inlineText => .ok (entry.contentObject, inlineText)
      | _, _ => raise "42809" "not a text file: %" [target]

/-- The blocks of a file, or its inline text as one block. -/
def Database.fileBlocks (db : Database) (volume : Uuid) (file : Option Uuid × Text) : List TextRow :=
  match file.1 with
  | some object => ((db.objectBlocks object).filter fun block => block.volumeId = volume).map fun block =>
      { firstLine := block.firstLine, body := block.body }
  | none => [{ firstLine := 1, body := file.2 }]

/-- `text COLLATE "C" ~ format('[A-Za-z]{%s}', minimum_letters)`. -/
def matchesLetters (minimumLetters : Nat) (text : Text) : Bool :=
  findRun (fun symbol : Char => isAsciiAlphabetic symbol.toNat = true) minimumLetters text

/-- `string_to_table(body, E'\n')`. -/
def stringToTable (body : Text) : List Text :=
  if body = [] then [] else body.splitOn '\n'

/-- The lines of a block with enough letters, each followed by a line feed. -/
def letterHits (minimumLetters : Nat) (block : TextRow) : Option TextRow :=
  let lines := (stringToTable block.body).filter (matchesLetters minimumLetters)
  if lines = [] then none
  else some { block with body := lines.flatMap fun line => line ++ ['\n'] }

/-- `pgos.candidate_file_ascii_text`; a repetition in a regular expression is at most 255. -/
def Database.candidateFileAsciiText (db : Database) (volume : Uuid) (target : Text)
    (minimumLetters : Nat) : Result (List TextRow) := do
  let file ← db.fileContent volume target
  let blocks := db.fileBlocks volume file
  if blocks ≠ [] ∧ 255 < minimumLetters then
    raise "2201B" "invalid regular expression: invalid repetition count(s)" []
  else
    .ok ((blocks.filter fun block => matchesLetters minimumLetters block.body).filterMap
      (letterHits minimumLetters))

/-- A text file at a path. -/
def Database.TextAt (db : Database) (volume : Uuid) (path content : Text) : Prop :=
  CanonicalPath path ∧ ∃ location entry, db.locateZone volume path = some location ∧
    db.entryAt volume location = some entry ∧ entry.textContent ≠ none ∧
    db.contentOf entry = some (convertTo content)

theorem textAt_iff {db : Database} {volume : Uuid} {path content : Text} :
    db.TextAt volume path content ↔
      CanonicalPath path ∧ ∃ entry, (db.locateZone volume path).bind (db.entryAt volume) = some entry ∧
        entry.textContent ≠ none ∧ db.contentOf entry = some (convertTo content) := by
  constructor
  · rintro ⟨canonical, location, entry, located, found, text, bytes⟩
    exact ⟨canonical, entry, Option.bind_eq_some_iff.mpr ⟨location, located, found⟩, text, bytes⟩
  · rintro ⟨canonical, entry, found, text, bytes⟩
    obtain ⟨location, located, here⟩ := Option.bind_eq_some_iff.mp found
    exact ⟨canonical, location, entry, located, here, text, bytes⟩

section Lines

variable {minimumLetters : Nat} {line : Text}

theorem mem_letterHits {block : TextRow} (member : line ∈ block.body.splitOn '\n')
    (nonempty : line ≠ []) (letters : matchesLetters minimumLetters line = true) :
    matchesLetters minimumLetters block.body = true ∧
      ∃ row, letterHits minimumLetters block = some row ∧ line ∈ row.body.splitOn '\n' := by
  have inside : line <:+: block.body := infix_of_mem_splitOn member
  constructor
  · exact findRun_iff.mpr ((findRun_iff.mp letters).widen inside)
  · have bodyNonempty : block.body ≠ [] := by
      intro empty
      rw [empty] at inside
      exact nonempty (List.infix_nil.mp inside)
    have kept : line ∈ (stringToTable block.body).filter (matchesLetters minimumLetters) := by
      rw [stringToTable, if_neg bodyNonempty]
      exact List.mem_filter.mpr ⟨member, letters⟩
    refine ⟨_, if_neg (List.ne_nil_of_mem kept), ?_⟩
    dsimp only
    rw [splitOn_of_terminated, List.mem_append]
    · exact Or.inl kept
    · intro other otherMember
      rw [stringToTable, if_neg bodyNonempty] at otherMember
      exact Library.Segments.notMem_of_mem_splitOn '\n' block.body other (List.mem_filter.mp otherMember).1

end Lines

section Blocks

variable {db : Database} {volume : Uuid} {path content : Text}

theorem Orderly.block_volume (orderly : Orderly db) {object : ContentObject}
    (member : object ∈ db.contentObjects) {block : ContentBlock}
    (blockMember : block ∈ db.blockRows object.id) : block.volumeId = object.volumeId := by
  obtain ⟨stored, same⟩ := List.mem_filter.mp blockMember
  rw [decide_eq_true_eq] at same
  rcases List.mem_append.mp stored with plain | bulk
  · obtain ⟨owner, ownerMember, ownerId, inVolume⟩ := orderly.catalog.plain_volume block plain
    rw [← inVolume, orderly.sound.store.object_eq ownerMember member (ownerId.trans same)]
  · obtain ⟨-, owner, ownerMember, ownerId, ownerSegment⟩ :=
      orderly.sound.store.bulk_object block bulk
    obtain rfl := orderly.sound.store.object_eq ownerMember member (ownerId.trans same)
    obtain ⟨segment, segmentMember, blockSegment, inVolume⟩ := orderly.catalog.bulk_volume block bulk
    obtain ⟨other, otherMember, otherId, otherVolume⟩ :=
      orderly.sound.store.object_segment owner member segment.id (ownerSegment.trans blockSegment)
    obtain rfl := List.inj_on_of_nodup_map orderly.sound.store.segment_ids otherMember segmentMember
      otherId
    rw [← inVolume, otherVolume]

/-- The content of a text file is inline, or in the blocks of its object. -/
theorem Orderly.fileContent_cases (orderly : Orderly db) (at_ : db.TextAt volume path content) :
    ∃ file, db.fileContent volume path = .ok file ∧
      ((file.1 = none ∧ file.2 = content) ∨
        ∃ object, file.1 = some object ∧
          BlocksOf content ((db.objectBlocks object).map ContentBlock.toLineBlock) ∧
          ∀ block ∈ db.objectBlocks object, block.volumeId = volume) := by
  obtain ⟨canonical, location, entry, located, found, isText, bytes⟩ := at_
  obtain ⟨member, -⟩ := mem_of_entryAt found
  obtain ⟨stored, inVolume⟩ := mem_tree_entries.mp member
  obtain ⟨inlineText, text⟩ := Option.ne_none_iff_exists'.mp isText
  have regular : entry.kind = .file := by
    unfold ZoneEntry.textContent at text
    rw [ZoneEntry.kind]
    split at text
    · rename_i payload
      rw [payload]
      rfl
    · cases text
  refine ⟨(entry.contentObject, inlineText), ?_, ?_⟩
  · unfold Database.fileContent
    rw [assertPath_of_canonical canonical, ok_bind, located, Option.bind_some, found]
    dsimp only
    rw [regular, text]
  · dsimp only
    cases reference : entry.contentObject with
    | none =>
        refine Or.inl ⟨rfl, ?_⟩
        apply convertTo_injective
        apply Option.some.inj
        rw [← bytes]
        unfold ZoneEntry.textContent at text
        unfold ZoneEntry.contentObject at reference
        unfold Database.contentOf
        split at text
        · rename_i inner object payload
          rw [payload] at reference ⊢
          obtain rfl : object = none := reference
          rw [← Option.some.inj text]
          rfl
        · cases text
    | some object =>
        obtain ⟨payload, owner, ownerMember, rfl, ownerVolume, -⟩ :=
          (orderly.sound.stored entry stored).object reference
        obtain ⟨whole, blocksOf, -⟩ := orderly.sound.store.object_blocks owner ownerMember
        have same : whole = content := by
          rw [Database.contentOf, payload] at bytes
          have encoded := Option.some.inj bytes
          rw [objectText_eq blocksOf] at encoded
          exact convertTo_injective encoded
        refine Or.inr ⟨owner.id, rfl, ?_, ?_⟩
        · rwa [objectBlocks_eq_blockRows blocksOf, ← same]
        · intro block blockMember
          rw [objectBlocks_eq_blockRows blocksOf] at blockMember
          rw [orderly.block_volume ownerMember blockMember, ownerVolume, inVolume]

theorem Orderly.mem_fileBlocks (orderly : Orderly db) (at_ : db.TextAt volume path content) :
    ∃ file, db.fileContent volume path = .ok file ∧
      ∀ line ∈ content.splitOn '\n', line ≠ [] →
        ∃ block ∈ db.fileBlocks volume file, line ∈ block.body.splitOn '\n' := by
  obtain ⟨⟨reference, inlineText⟩, read, stored⟩ := orderly.fileContent_cases at_
  refine ⟨_, read, ?_⟩
  intro line lineMember nonempty
  unfold Database.fileBlocks
  rcases stored with ⟨rfl, rfl⟩ | ⟨object, rfl, blocksOf, inVolume⟩
  · exact ⟨_, List.mem_cons_self, lineMember⟩
  · rw [← blocksOf.2.1] at lineMember
    obtain ⟨row, rowMember, inside⟩ := mem_splitOn_text blocksOf.1 nonempty lineMember
    obtain ⟨block, blockMember, rfl⟩ := List.mem_map.mp rowMember
    refine ⟨_, List.mem_map_of_mem (List.mem_filter.mpr ⟨blockMember, ?_⟩), inside⟩
    rw [decide_eq_true_eq, inVolume block blockMember]

theorem Orderly.mem_candidates (orderly : Orderly db) (at_ : db.TextAt volume path content)
    {minimumLetters : Nat} (some : 0 < minimumLetters) (small : minimumLetters ≤ 255) :
    ∃ rows, db.candidateFileAsciiText volume path minimumLetters = .ok rows ∧
      ∀ line ∈ content.splitOn '\n',
        HasRun (fun symbol : Char => isAsciiAlphabetic symbol.toNat = true) minimumLetters line →
          ∃ row ∈ rows, line ∈ row.body.splitOn '\n' := by
  obtain ⟨file, read, blocks⟩ := orderly.mem_fileBlocks at_
  unfold Database.candidateFileAsciiText
  rw [read, ok_bind]
  dsimp only
  rw [if_neg fun tooMany => Nat.not_lt_of_le small tooMany.2]
  refine ⟨_, rfl, ?_⟩
  intro line member run
  have nonempty : line ≠ [] := by
    rintro rfl
    exact absurd run.length_le (Nat.not_le_of_lt some)
  obtain ⟨block, blockMember, inside⟩ := blocks line member nonempty
  obtain ⟨chosen, row, hit, kept⟩ := mem_letterHits inside nonempty (findRun_iff.mpr run)
  exact ⟨row, List.mem_filterMap.mpr ⟨block, List.mem_filter.mpr ⟨blockMember, chosen⟩, hit⟩, kept⟩

theorem Orderly.candidates_refused (orderly : Orderly db) (at_ : db.TextAt volume path content)
    {minimumLetters : Nat} (large : 255 < minimumLetters) {line : Text}
    (member : line ∈ content.splitOn '\n') (nonempty : line ≠ []) :
    db.candidateFileAsciiText volume path minimumLetters =
      raise "2201B" "invalid regular expression: invalid repetition count(s)" [] := by
  obtain ⟨file, read, blocks⟩ := orderly.mem_fileBlocks at_
  obtain ⟨block, blockMember, -⟩ := blocks line member nonempty
  unfold Database.candidateFileAsciiText
  rw [read, ok_bind]
  dsimp only
  rw [if_pos ⟨List.ne_nil_of_mem blockMember, large⟩]

end Blocks

section Sound

variable {Look : Type} (looks : Look → Text → Text → Prop)

def Hir.FoundIn (hir : Hir Look) (line : Text) : Prop :=
  ∃ before text after, line = before ++ text ++ after ∧ hir.Matches looks before text after

theorem minimumAsciiLetterRun_eq_some {parse : Text → Option (Hir Look)} {pattern : Text}
    {hir : Hir Look} {count : Nat} (parsed : parse pattern = some hir)
    (counted : minimumAsciiLetterRun parse pattern false true = some count) :
    guaranteedAsciiLetterRun hir = some count ∧ 8 ≤ count := by
  unfold minimumAsciiLetterRun at counted
  rw [parsed, Option.bind_some] at counted
  split at counted
  · cases counted
  · obtain ⟨length, found, bounded⟩ := Option.bind_eq_some_iff.mp counted
    split at bounded
    · rename_i long
      obtain rfl := Option.some.inj bounded
      exact ⟨found, long⟩
    · cases bounded

/-- Where the counted letters stand in a row, every match has the run, and the lines that the
database returns include every line with a match, up to the largest run that PostgreSQL takes. -/
theorem minimumAsciiLetterRun_sound {parse : Text → Option (Hir Look)} {pattern : Text}
    {hir : Hir Look} {count : Nat} (parsed : parse pattern = some hir)
    (counted : minimumAsciiLetterRun parse pattern false true = some count)
    (joined : hir.Joined looks count) (small : count ≤ 255) :
    (∀ before text after, hir.Matches looks before text after →
      HasRun (fun symbol => isAsciiAlphabetic symbol.toNat = true) count text) ∧
    ∀ db, ReachableByCalls db → ∀ volume path content, db.TextAt volume path content →
      ∃ rows, db.candidateFileAsciiText volume path count = .ok rows ∧
        ∀ line ∈ content.splitOn '\n', hir.FoundIn looks line →
          ∃ row ∈ rows, line ∈ row.body.splitOn '\n' := by
  obtain ⟨guaranteed, long⟩ := minimumAsciiLetterRun_eq_some parsed counted
  have runs := hasRun_of_guaranteed looks hir count joined count guaranteed (Nat.le_refl count)
  refine ⟨runs, ?_⟩
  intro db reachable volume path content at_
  obtain ⟨rows, answered, kept⟩ := (orderly_of_reachable reachable).mem_candidates at_
    (Nat.lt_of_lt_of_le (by decide) long) small
  refine ⟨rows, answered, ?_⟩
  rintro line member ⟨before, text, after, rfl, matched⟩
  exact kept _ member ((runs before text after matched).widen (List.infix_append before text after))

end Sound

def letterClass : HirClass := .unicode [('A', 'Z'), ('a', 'z')]

/-- The parse of `[A-Za-z]{30}`. -/
def parseLetters (pattern : Text) : Option (Hir Empty) :=
  if pattern = "[A-Za-z]\x7b30\x7d".toList then
    some (.repetition 30 (some 30) (.characters letterClass))
  else none

theorem minimumAsciiLetterRun_sound_letters :
    minimumAsciiLetterRun parseLetters "[A-Za-z]\x7b30\x7d".toList false true = some 30 ∧
    ∀ before text after, (Hir.repetition 30 (some 30) (.characters letterClass)).Matches
      (fun (assertion : Empty) _ _ => nomatch assertion) before text after →
        HasRun (fun symbol => isAsciiAlphabetic symbol.toNat = true) 30 text := by
  have oneCase : letterClass.OneCase := fun _ => by decide
  have joined : (Hir.repetition 30 (some 30) (.characters letterClass)).Joined
      (fun (assertion : Empty) _ _ => nomatch assertion) 30 := by
    rw [Hir.Joined]
    refine fun run _ => Or.inr (Or.inr ⟨?_, by rwa [Hir.Joined]⟩)
    intro before text after matched
    rw [Hir.Matches] at matched
    obtain ⟨symbol, rfl, contains⟩ := matched
    rw [List.forall_mem_singleton]
    exact oneCase.alphabetic (by decide) contains
  have parsed : parseLetters "[A-Za-z]\x7b30\x7d".toList =
      some (.repetition 30 (some 30) (.characters letterClass)) := if_pos rfl
  have counted : minimumAsciiLetterRun parseLetters "[A-Za-z]\x7b30\x7d".toList false true =
      some 30 := by decide +kernel
  exact ⟨counted, (minimumAsciiLetterRun_sound _ parsed counted joined (by decide)).1⟩

/-- The parse of `(abcd[0-9]){2}`. -/
def parseGroups (pattern : Text) : Option (Hir Empty) :=
  if pattern = "(abcd[0-9])\x7b2\x7d".toList then
    some (.repetition 2 (some 2) (.capture (.concat
      [.literal [97, 98, 99, 100], .characters (.unicode [('0', '9')])])))
  else none

/-- The counted run of eight letters is not in the text `abcd1abcd2`. -/
theorem minimumAsciiLetterRun_not_sound :
    ¬ ∀ (looks : Empty → Text → Text → Prop) (pattern : Text) (hir : Hir Empty) (count : Nat),
      parseGroups pattern = some hir →
        minimumAsciiLetterRun parseGroups pattern false true = some count →
          ∀ before text after, hir.Matches looks before text after →
            HasRun (fun symbol => isAsciiAlphabetic symbol.toNat = true) count text := by
  intro every
  have group (before after : Text) (digit : Char) (isDigit : '0' ≤ digit ∧ digit ≤ '9') :
      (Hir.capture (.concat [.literal [97, 98, 99, 100], .characters (.unicode [('0', '9')])])).Matches
        (fun (assertion : Empty) _ _ => nomatch assertion) before ['a', 'b', 'c', 'd', digit] after := by
    rw [Hir.Matches, Hir.Matches, Hir.MatchesAll]
    refine ⟨['a', 'b', 'c', 'd'], [digit], rfl, ?_, ?_⟩
    · rw [Hir.Matches]
      exact (by decide : convertTo ['a', 'b', 'c', 'd'] = [97, 98, 99, 100])
    · rw [Hir.MatchesAll]
      refine ⟨[digit], [], rfl, ?_, ?_⟩
      · rw [Hir.Matches]
        exact ⟨digit, rfl, _, List.mem_singleton_self _, isDigit⟩
      · rw [Hir.MatchesAll]
  have run := every (fun assertion _ _ => nomatch assertion) "(abcd[0-9])\x7b2\x7d".toList _ 8
    (if_pos rfl) (by decide +kernel) [] "abcd1abcd2".toList []
  have impossible : ¬ HasRun (fun symbol : Char => isAsciiAlphabetic symbol.toNat = true) 8
      "abcd1abcd2".toList := by decide +kernel
  refine impossible (run ?_)
  rw [Hir.Matches]
  refine ⟨2, Nat.le_refl 2, fun bound same => ?_, ?_⟩
  · obtain rfl := Option.some.inj same
    exact Nat.le_refl 2
  · exact ⟨"abcd1".toList, "abcd2".toList, rfl, group _ _ '1' (by decide), "abcd2".toList, [], rfl,
      group _ _ '2' (by decide), rfl⟩

end PostgreOS
