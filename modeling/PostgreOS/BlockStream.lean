/-
The stream that `write_blocks` sends to the server.

The blocks of a text go to the staging table as a binary `COPY`. A text is sent exactly if
it is UTF-8 without NUL and without long lines, and the server reads its blocks back from
the stream.
-/

import PostgreOS.Library.CopyFormat
import PostgreOS.Library.Lines
import PostgreOS.Splitting

namespace PostgreOS

open Library.LineBlocks Library.Lines Library.CopyFormat Library.Frames Library.Outcome

/-- A read gets the first line, unless the line is longer than the limit. -/
theorem readUntilNewline_first (limit : Nat) {reader : Bytes} (nonempty : reader ≠ []) :
    ∃ line rest, reader = line ++ rest ∧
      linesOf newlineByte reader = line :: linesOf newlineByte rest ∧
      (line.length ≤ limit → readUntilNewline (limit + 1) reader = (line, rest)) ∧
      (limit < line.length → limit < (readUntilNewline (limit + 1) reader).1.length) := by
  by_cases present : newlineByte ∈ reader
  · obtain ⟨front, rest, rfl, free⟩ := List.eq_append_cons_of_mem present
    refine ⟨front ++ [newlineByte], rest, List.append_cons front newlineByte rest,
      linesOf_append_cons free rest, ?_, ?_⟩
    · intro fits
      rw [List.length_append, List.length_singleton] at fits
      exact readUntilNewline_found free (by omega) rest
    · intro long
      rw [List.length_append, List.length_singleton] at long
      by_cases near : front.length < limit + 1
      · rw [readUntilNewline_found free near, List.length_append, List.length_singleton]
        exact long
      · have inFront : (front ++ newlineByte :: rest).take (limit + 1) = front.take (limit + 1) :=
          List.take_append_of_le_length (by omega)
        rw [readUntilNewline_free, inFront, List.length_take]
        · omega
        · rw [inFront]
          exact fun member => free (List.mem_of_mem_take member)
  · have absent : newlineByte ∉ reader.take (limit + 1) :=
      fun member => present (List.mem_of_mem_take member)
    rw [readUntilNewline_free absent]
    refine ⟨reader, [], (List.append_nil reader).symm, ?_, ?_, ?_⟩
    · rw [linesOf_of_notMem present nonempty, linesOf_nil]
    · intro fits
      rw [List.take_of_length_le (by omega), List.drop_eq_nil_of_le (by omega)]
    · intro long
      rw [List.length_take]
      omega

theorem fillBlock_linesOf {reader block : Bytes} {lines : Nat} {filled rest : Bytes} {count : Nat}
    (done : fillBlock reader block lines = .ok (filled, rest, count)) :
    ∃ taken, linesOf newlineByte reader = taken ++ linesOf newlineByte rest ∧
      ∀ line ∈ taken, line.length ≤ maxLineBytes := by
  refine fillBlock_invariant (fun later _ _ =>
    ∃ taken, linesOf newlineByte reader = taken ++ linesOf newlineByte later ∧
      ∀ line ∈ taken, line.length ≤ maxLineBytes) ?_
    ⟨[], rfl, fun _ member => absurd member List.not_mem_nil⟩ done
  rintro later _ _ - fits more ⟨taken, split, small⟩
  have nonempty : later ≠ [] := by
    rintro rfl
    exact more rfl
  obtain ⟨line, next, -, first, short, long⟩ := readUntilNewline_first maxLineBytes nonempty
  have here : line.length ≤ maxLineBytes :=
    Nat.le_of_not_lt fun tooLong => absurd fits (Nat.not_le_of_lt (long tooLong))
  refine ⟨taken ++ [line], ?_, ?_⟩
  · rw [short here, split, first, List.append_cons]
  · rw [List.forall_mem_append, List.forall_mem_singleton]
    exact ⟨small, here⟩

/-- A block is filled if no line is too long. -/
theorem fillBlock_exists {reader block : Bytes} {lines : Nat}
    (small : ∀ line ∈ linesOf newlineByte reader, line.length ≤ maxLineBytes) :
    ∃ filled rest count, fillBlock reader block lines = .ok (filled, rest, count) := by
  induction reader, block, lines using fillBlock.induct with
  | case1 reader block lines full =>
      exact ⟨block, reader, lines, by rw [fillBlock, if_pos full]⟩
  | case2 reader block lines partly long =>
      exfalso
      have nonempty : reader ≠ [] := by
        rintro rfl
        exact Nat.not_lt_zero _ long
      obtain ⟨line, later, -, first, short, -⟩ := readUntilNewline_first maxLineBytes nonempty
      have here : line.length ≤ maxLineBytes := small line (first ▸ List.mem_cons_self)
      rw [short here] at long
      exact absurd here (Nat.not_le_of_lt long)
  | case3 reader block lines partly fits empty =>
      exact ⟨block, reader, lines, by rw [fillBlock, if_neg partly, if_neg fits, if_pos empty]⟩
  | case4 reader block lines partly fits more ih =>
      have nonempty : reader ≠ [] := by
        rintro rfl
        exact more rfl
      obtain ⟨line, later, -, first, short, -⟩ := readUntilNewline_first maxLineBytes nonempty
      rw [first] at small
      rw [fillBlock, if_neg partly, if_neg fits, if_neg more]
      apply ih
      rw [short (small line List.mem_cons_self)]
      exact fun other member => small other (List.mem_cons_of_mem line member)

theorem fillBlock_length {reader block : Bytes} {lines : Nat} {filled rest : Bytes} {count : Nat}
    (small : block.length < blockBytes + maxLineBytes)
    (done : fillBlock reader block lines = .ok (filled, rest, count)) :
    filled.length < blockBytes + maxLineBytes := by
  refine fillBlock_invariant (fun _ gained _ => gained.length < blockBytes + maxLineBytes) ?_ small
    done
  intro _ _ _ partly fits _ _
  rw [List.length_append]
  omega

/-! ### The blocks -/

theorem fillBlock_text {content : Text} {block rest : Bytes} {lines : Nat}
    (filled : fillBlock (convertTo content) [] 0 = .ok (block, rest, lines)) :
    ∃ body remaining, content = body ++ remaining ∧ block = convertTo body ∧
      rest = convertTo remaining := by
  obtain ⟨read, gained, joined⟩ := fillBlock_ok filled
  rw [List.nil_append] at gained
  subst gained
  by_cases last : rest = []
  · subst last
    rw [List.append_nil] at joined
    exact ⟨content, [], (List.append_nil content).symm, joined.symm, rfl⟩
  · obtain ⟨-, empty | ⟨front, ends⟩⟩ :=
      fillBlock_lines (fun _ => ⟨rfl, Or.inl rfl⟩) filled last
    · rw [empty] at joined ⊢
      exact ⟨[], content, rfl, rfl, joined.symm⟩
    · rw [ends, ← List.append_cons] at joined
      obtain ⟨before, after, rfl, hBefore, hAfter⟩ := convertTo_split_newline content front rest joined
      refine ⟨before ++ ['\n'], after, List.append_cons before '\n' after, ?_, hAfter.symm⟩
      rw [ends, convertTo_append, hBefore, convertTo_newline]

theorem writeBlocks_fits (reader : Bytes) (ordinal offset firstLine : Nat)
    {blocks : List (LineBlock Char)} {total : Nat}
    (done : writeBlocks reader ordinal offset firstLine = .ok (blocks, total)) :
    ∀ line ∈ linesOf newlineByte reader, line.length ≤ maxLineBytes := by
  induction size : reader.length using Nat.strong_induction_on generalizing reader ordinal offset
    firstLine blocks total with
  | _ size ih =>
      subst size
      rcases writeBlocks_ok_iff.mp done with
        ⟨rfl, -, -⟩ | ⟨body, rest, lines, later, nonempty, filled, -, wrote, -⟩
      · exact fun _ member => absurd member List.not_mem_nil
      · obtain ⟨taken, split, small⟩ := fillBlock_linesOf filled
        rw [split]
        intro line member
        rcases List.mem_append.mp member with here | inRest
        · exact small line here
        · exact ih rest.length (fillBlock_shrinks nonempty filled) rest _ _ _ wrote rfl line inRest

/-- All text without long lines is cut. -/
theorem writeBlocks_exists (content : Text) (noNul : '\x00' ∉ content)
    (small : ∀ line ∈ linesOf newlineByte (convertTo content), line.length ≤ maxLineBytes)
    (ordinal offset firstLine : Nat) :
    ∃ blocks total, writeBlocks (convertTo content) ordinal offset firstLine =
      .ok (blocks, total) := by
  induction size : content.length using Nat.strong_induction_on generalizing content ordinal offset
    firstLine with
  | _ size ih =>
      subst size
      by_cases empty : content = []
      · subst empty
        exact ⟨[], offset, writeBlocks_nil⟩
      · obtain ⟨block, rest, lines, filled⟩ := @fillBlock_exists _ [] 0 small
        obtain ⟨body, remaining, rfl, rfl, rfl⟩ := fillBlock_text filled
        have nonempty : body ≠ [] := by
          rintro rfl
          exact empty (convertTo_eq_nil (fillBlock_empty filled))
        obtain ⟨taken, split, -⟩ := fillBlock_linesOf filled
        obtain ⟨bodyClean, restClean⟩ := not_or.mp (mt List.mem_append.mpr noNul)
        have shorter : remaining.length < (body ++ remaining).length := by
          have some := List.length_pos_of_ne_nil nonempty
          rw [List.length_append]
          omega
        rw [split] at small
        obtain ⟨later, total, wrote⟩ := ih remaining.length shorter remaining restClean
          (fun line member => small line (List.mem_append_right taken member))
          (ordinal + 1) (offset + octetLength body) (firstLine + lines) rfl
        exact ⟨_, total, writeBlocks_ok_iff.mpr (Or.inr ⟨body, convertTo remaining, lines, later,
          nonempty, filled, bodyClean, wrote, rfl⟩)⟩

theorem writeBlocks_small (reader : Bytes) (ordinal offset firstLine : Nat)
    {blocks : List (LineBlock Char)} {total : Nat}
    (done : writeBlocks reader ordinal offset firstLine = .ok (blocks, total)) :
    ∀ block ∈ blocks, block.body ≠ [] ∧ octetLength block.body < 2 ^ 31 := by
  induction blocks generalizing reader ordinal offset firstLine with
  | nil => exact fun _ member => absurd member List.not_mem_nil
  | cons block rest ih =>
      rcases writeBlocks_ok_iff.mp done with
        ⟨-, empty, -⟩ | ⟨body, remaining, lines, later, nonempty, filled, -, wrote, same⟩
      · cases empty
      · obtain ⟨rfl, rfl⟩ := List.cons.inj same
        have size := fillBlock_length (by decide) filled
        exact List.forall_mem_cons.mpr ⟨⟨nonempty, Nat.lt_trans size (by decide)⟩,
          ih remaining _ _ _ wrote⟩

theorem length_le_octetLength {blocks : List (LineBlock Char)}
    (nonempty : ∀ block ∈ blocks, block.body ≠ []) :
    blocks.length ≤ octetLength (blocks.flatMap LineBlock.body) := by
  induction blocks with
  | nil => exact Nat.zero_le _
  | cons block rest ih =>
      obtain ⟨here, later⟩ := List.forall_mem_cons.mp nonempty
      have some : 0 < octetLength block.body :=
        List.length_pos_of_ne_nil fun empty => here (convertTo_eq_nil empty)
      have shorter := ih later
      rw [List.length_cons, List.flatMap_cons, octetLength_append]
      omega

theorem counters_lt {content : Text} {blocks : List (LineBlock Char)}
    (chain : Chain '\n' octetLength blocks) (whole : text blocks = content)
    (nonempty : ∀ block ∈ blocks, block.body ≠ []) :
    ∀ block ∈ blocks, block.ordinal < octetLength content ∧ block.offset < octetLength content ∧
      block.firstLine ≤ octetLength content := by
  intro block member
  obtain ⟨index, bound, rfl⟩ := List.getElem_of_mem member
  obtain ⟨ordinal, offset, firstLine, -⟩ := chain.at_index index bound
  have some : 0 < octetLength blocks[index].body :=
    List.length_pos_of_ne_nil fun empty => nonempty _ member (convertTo_eq_nil empty)
  have split : octetLength content = octetLength (text (blocks.take index)) +
      (octetLength blocks[index].body + octetLength (text (blocks.drop (index + 1)))) := by
    rw [← whole, ← octetLength_append, ← octetLength_append, ← text_cons,
      List.getElem_cons_drop bound, text, text, text, ← List.flatMap_append, List.take_append_drop]
  have ordinals : index ≤ octetLength (text (blocks.take index)) := by
    have few := @length_le_octetLength (blocks.take index)
      fun block member => nonempty block (List.mem_of_mem_take member)
    rw [List.length_take] at few
    unfold text
    omega
  have lines : (text (blocks.take index)).count '\n' ≤ octetLength (text (blocks.take index)) := by
    rw [← count_newlineByte]
    exact List.count_le_length
  rw [octetLength_flatMap] at offset
  change blocks[index].firstLine = 1 + (text (blocks.take index)).count '\n' at firstLine
  omega

/-- `field`. -/
def sendField (sink value : Bytes) : Result Bytes :=
  if value.length < 2 ^ 31 then .ok (sink ++ ofInt 4 value.length ++ value)
  else raise "" "out of range integral type conversion attempted" []

/-- The 128 bits of a `uuid::Uuid`, `Uuid::as_bytes`. -/
def uuidBytes (id : BitVec 128) : Bytes :=
  toBytes 16 id.toNat

/-- `b"PGCOPY\n\xff\r\n\0\0\0\0\0\0\0\0\0"`. -/
def copyHeader : Bytes :=
  [80, 71, 67, 79, 80, 89, 10, 255, 13, 10, 0, 0, 0, 0, 0, 0, 0, 0, 0]

/-- The loop of `write_blocks`. -/
def sendBlocks (segment object volume : BitVec 128) (sink reader : Bytes)
    (ordinal offset firstLine : Nat) : Result (Bytes × Nat) :=
  match _filled : fillBlock reader [] 0 with
  | .error error => .error error
  | .ok ([], _, _) => .ok (sink ++ ofInt 2 (-1), offset)
  | .ok (byte :: bytes, rest, lines) =>
      match fromUtf8 (byte :: bytes) with
      | none => raise "" "large text file is not UTF-8" []
      | some _ =>
          if 0 ∈ byte :: bytes then raise "" "large text file contains NUL" []
          else do
            let sink := sink ++ ofInt 2 7
            let sink ← sendField sink (uuidBytes segment)
            let sink ← sendField sink (uuidBytes object)
            let sink ← sendField sink (uuidBytes volume)
            let sink ← sendField sink (ofInt 8 ordinal)
            let sink ← sendField sink (ofInt 8 offset)
            let sink ← sendField sink (ofInt 8 firstLine)
            let sink ← sendField sink (byte :: bytes)
            sendBlocks segment object volume sink rest (ordinal + 1)
              (offset + (byte :: bytes).length) (firstLine + lines)
  termination_by reader.length
  decreasing_by
    obtain ⟨read, gained, rfl⟩ := fillBlock_ok _filled
    rw [List.nil_append] at gained
    rw [← gained, List.length_append, List.length_cons]
    omega

/-- `write_blocks` on a writer and a reader that do not fail. -/
def writeBlocksInto (sink reader : Bytes) (segment object volume : BitVec 128) :
    Result (Bytes × Nat) :=
  sendBlocks segment object volume (sink ++ copyHeader) reader 0 0 1

section Stream

variable {segment object volume : BitVec 128}

def blockFields (segment object volume : BitVec 128) (block : LineBlock Char) : List Bytes :=
  [uuidBytes segment, uuidBytes object, uuidBytes volume, ofInt 8 block.ordinal,
    ofInt 8 block.offset, ofInt 8 block.firstLine, convertTo block.body]

theorem sendField_ok {sink value : Bytes} (small : value.length < 2 ^ 31) :
    sendField sink value = .ok (sink ++ writeField value) := by
  rw [sendField, if_pos small, writeField, List.append_assoc]

theorem blockFields_small {block : LineBlock Char} (small : octetLength block.body < 2 ^ 31) :
    ∀ value ∈ blockFields segment object volume block, value.length < 2 ^ 31 := by
  have id (bits : BitVec 128) : (uuidBytes bits).length < 2 ^ 31 := by
    rw [uuidBytes, toBytes_length]
    decide
  have number (value : Int) : (ofInt 8 value).length < 2 ^ 31 := by
    rw [ofInt_length]
    decide
  simp only [blockFields, List.forall_mem_cons, List.not_mem_nil, false_imp_iff, implies_true,
    and_true]
  exact ⟨id _, id _, id _, number _, number _, number _, small⟩

theorem sendBlocks_nil (sink : Bytes) (ordinal offset firstLine : Nat) :
    sendBlocks segment object volume sink [] ordinal offset firstLine =
      .ok (sink ++ trailer, offset) := by
  have filled : fillBlock [] [] 0 = .ok ([], [], 0) := by
    rw [fillBlock]
    rfl
  rw [sendBlocks]
  split
  · rename_i failed
    rw [filled] at failed
    cases failed
  · rfl
  · rename_i more
    rw [filled] at more
    cases more

/-- A block becomes a tuple. -/
theorem sendBlocks_filled {sink reader rest : Bytes} {body : Text} {lines : Nat}
    (nonempty : body ≠ []) (filled : fillBlock reader [] 0 = .ok (convertTo body, rest, lines))
    (clean : '\x00' ∉ body) (ordinal offset firstLine : Nat) :
    sendBlocks segment object volume sink reader ordinal offset firstLine =
      sendBlocks segment object volume
        (sink ++ writeTuple (blockFields segment object volume
          { ordinal := ordinal, offset := offset, firstLine := firstLine, body := body }))
        rest (ordinal + 1) (offset + octetLength body) (firstLine + lines) := by
  have small : octetLength body < 2 ^ 31 :=
    Nat.lt_trans (fillBlock_length (by decide) filled) (by decide)
  have fields := @blockFields_small segment object volume
    { ordinal := ordinal, offset := offset, firstLine := firstLine, body := body } small
  simp only [blockFields, List.forall_mem_cons] at fields
  obtain ⟨segmentField, objectField, volumeField, ordinalField, offsetField, lineField, bodyField, -⟩ :=
    fields
  rw [sendBlocks]
  split
  · rename_i failed
    rw [filled] at failed
    cases failed
  · rename_i ended
    rw [filled] at ended
    exact absurd (convertTo_eq_nil (Prod.mk.inj (Except.ok.inj ended)).1) nonempty
  · rename_i byte bytes later count more
    rw [filled] at more
    obtain ⟨encoded, same⟩ := Prod.mk.inj (Except.ok.inj more)
    cases same
    rw [← encoded, (fromUtf8_eq_some_iff _ body).mpr rfl]
    dsimp only
    rw [if_neg (mt zero_mem_convertTo.mp clean), sendField_ok segmentField, ok_bind,
      sendField_ok objectField, ok_bind, sendField_ok volumeField, ok_bind,
      sendField_ok ordinalField, ok_bind, sendField_ok offsetField, ok_bind, sendField_ok lineField,
      ok_bind, sendField_ok bodyField, ok_bind]
    simp only [writeTuple, blockFields, List.flatMap_cons, List.flatMap_nil, List.append_assoc,
      List.append_nil]
    rfl

theorem sendBlocks_cases {sink reader : Bytes} {ordinal offset firstLine : Nat}
    {result : Bytes × Nat}
    (done : sendBlocks segment object volume sink reader ordinal offset firstLine = .ok result) :
    reader = [] ∨ ∃ body rest lines, body ≠ [] ∧
      fillBlock reader [] 0 = .ok (convertTo body, rest, lines) ∧ '\x00' ∉ body := by
  rw [sendBlocks] at done
  split at done
  · cases done
  · rename_i filled
    exact Or.inl (fillBlock_empty filled)
  · rename_i byte bytes rest lines filled
    split at done
    · cases done
    · rename_i body decoded
      split at done
      · cases done
      · rename_i clean
        obtain ⟨encoded, nonempty, noNul⟩ := body_of_block decoded clean
        rw [← encoded] at filled
        exact Or.inr ⟨body, rest, lines, nonempty, filled, noNul⟩

/-- The stream carries the rows of the blocks. -/
theorem sendBlocks_ok_iff {sink reader written : Bytes} {ordinal offset firstLine total : Nat} :
    sendBlocks segment object volume sink reader ordinal offset firstLine = .ok (written, total) ↔
      ∃ blocks, writeBlocks reader ordinal offset firstLine = .ok (blocks, total) ∧
        written = sink ++ ((blocks.flatMap fun block =>
          writeTuple (blockFields segment object volume block)) ++ trailer) := by
  induction size : reader.length using Nat.strong_induction_on generalizing sink reader ordinal offset
    firstLine with
  | _ size ih =>
      subst size
      constructor
      · intro done
        rcases sendBlocks_cases done with rfl | ⟨body, rest, lines, nonempty, filled, clean⟩
        · rw [sendBlocks_nil] at done
          cases done
          exact ⟨[], writeBlocks_nil, rfl⟩
        · rw [sendBlocks_filled nonempty filled clean] at done
          obtain ⟨later, wrote, rfl⟩ :=
            (ih rest.length (fillBlock_shrinks nonempty filled) rfl).mp done
          refine ⟨_, writeBlocks_ok_iff.mpr (Or.inr ⟨body, rest, lines, later, nonempty, filled,
            clean, wrote, rfl⟩), ?_⟩
          rw [List.flatMap_cons, List.append_assoc, List.append_assoc]
      · rintro ⟨blocks, wrote, rfl⟩
        rcases writeBlocks_ok_iff.mp wrote with
          ⟨rfl, rfl, rfl⟩ | ⟨body, rest, lines, later, nonempty, filled, clean, wroteLater, rfl⟩
        · exact sendBlocks_nil sink ordinal total firstLine
        · rw [sendBlocks_filled nonempty filled clean]
          refine (ih rest.length (fillBlock_shrinks nonempty filled) rfl).mpr ⟨later, wroteLater, ?_⟩
          rw [List.flatMap_cons, List.append_assoc, List.append_assoc]

/-! ### Reading the stream -/

/-- A row of the staging table. -/
structure CopyRow where
  segmentId : BitVec 128
  objectId : BitVec 128
  volumeId : BitVec 128
  ordinal : Int
  byteOffset : Int
  firstLine : Int
  body : Bytes
  deriving DecidableEq, Repr

/-- The row that seven fields carry: three ids, three `bigint` and a text. -/
def CopyRow.ofFields : List Field → Option CopyRow
  | [some segment, some object, some volume, some ordinal, some offset, some firstLine,
      some body] =>
      if segment.length = 16 ∧ object.length = 16 ∧ volume.length = 16 ∧ ordinal.length = 8 ∧
          offset.length = 8 ∧ firstLine.length = 8 then
        some { segmentId := BitVec.ofNat 128 (ofBigEndian segment),
               objectId := BitVec.ofNat 128 (ofBigEndian object),
               volumeId := BitVec.ofNat 128 (ofBigEndian volume),
               ordinal := toInt ordinal, byteOffset := toInt offset, firstLine := toInt firstLine,
               body := body }
      else none
  | _ => none

/-- The rows of a stream that is used up. -/
def receiveCopy (stream : Bytes) : Option (List CopyRow) :=
  match readStream stream with
  | some (tuples, []) => tuples.mapM CopyRow.ofFields
  | _ => none

def copyRow (segment object volume : BitVec 128) (block : LineBlock Char) : CopyRow :=
  { segmentId := segment, objectId := object, volumeId := volume, ordinal := block.ordinal,
    byteOffset := block.offset, firstLine := block.firstLine, body := convertTo block.body }

theorem ofFields_blockFields {block : LineBlock Char} (ordinal : block.ordinal < 2 ^ 63)
    (offset : block.offset < 2 ^ 63) (firstLine : block.firstLine < 2 ^ 63) :
    CopyRow.ofFields ((blockFields segment object volume block).map some) =
      some (copyRow segment object volume block) := by
  have id (bits : BitVec 128) : BitVec.ofNat 128 (ofBigEndian (uuidBytes bits)) = bits := by
    rw [uuidBytes, ofBigEndian_toBytes bits.isLt, BitVec.ofNat_toNat, BitVec.setWidth_eq]
  have width (bits : BitVec 128) : (uuidBytes bits).length = 16 := toBytes_length 16 _
  have number {value : Nat} (small : value < 2 ^ 63) : toInt (ofInt 8 value) = value :=
    toInt_ofInt (by omega) (by omega) (by decide)
  simp only [blockFields, List.map_cons, List.map_nil, CopyRow.ofFields]
  rw [if_pos ⟨width _, width _, width _, ofInt_length 8 _, ofInt_length 8 _, ofInt_length 8 _⟩, id,
    id, id, number ordinal, number offset, number firstLine]
  rfl

theorem readTuples_blocks (blocks : List (LineBlock Char))
    (small : ∀ block ∈ blocks, octetLength block.body < 2 ^ 31) :
    readTuples ((blocks.flatMap fun block =>
      writeTuple (blockFields segment object volume block)) ++ trailer) =
      some (blocks.map fun block => (blockFields segment object volume block).map some, []) := by
  induction blocks with
  | nil => exact readTuples_trailer []
  | cons block rest ih =>
      obtain ⟨here, later⟩ := List.forall_mem_cons.mp small
      have few : (blockFields segment object volume block).length < 2 ^ 15 := by
        change 7 < 2 ^ 15
        decide
      rw [List.flatMap_cons, List.append_assoc,
        readTuples_writeTuple _ _ few (blockFields_small here), ih later]
      rfl

theorem flatMap_copyRow (blocks : List (LineBlock Char)) :
    (blocks.map (copyRow segment object volume)).flatMap CopyRow.body = convertTo (text blocks) := by
  induction blocks with
  | nil => rfl
  | cons block rest ih =>
      rw [List.map_cons, List.flatMap_cons, ih, text_cons, convertTo_append]
      rfl

theorem receiveCopy_blocks {content : Text} {blocks : List (LineBlock Char)}
    (chain : Chain '\n' octetLength blocks) (whole : text blocks = content)
    (small : ∀ block ∈ blocks, block.body ≠ [] ∧ octetLength block.body < 2 ^ 31)
    (short : octetLength content < 2 ^ 63) :
    receiveCopy (header ++ ((blocks.flatMap fun block =>
        writeTuple (blockFields segment object volume block)) ++ trailer)) =
      some (blocks.map (copyRow segment object volume)) := by
  unfold receiveCopy
  rw [readStream_header, readTuples_blocks blocks fun block member => (small block member).2]
  dsimp only
  rw [List.mapM_map]
  have counters := counters_lt chain whole fun block member => (small block member).1
  apply mapM_eq_some
  intro block member
  obtain ⟨ordinal, offset, firstLine⟩ := counters block member
  exact ofFields_blockFields (by omega) (by omega) (by omega)

end Stream

/-- A byte slice; an object in memory has at most `isize::MAX` bytes. -/
abbrev Slice : Type := { bytes : Bytes // bytes.length < 2 ^ 63 }

/-- `write_blocks` accepts the UTF-8 text without NUL and without long lines, and what it
sends is read back as the blocks of the text. -/
theorem writeBlocksInto_exact (sink : Bytes) (input : Slice) (segment object volume : BitVec 128) :
    ((∃ result, writeBlocksInto sink input.val segment object volume = .ok result) ↔
      (∃ content, fromUtf8 input.val = some content) ∧ 0 ∉ input.val ∧
        ∀ line ∈ linesOf newlineByte input.val, line.length ≤ maxLineBytes) ∧
    ∀ written total, writeBlocksInto sink input.val segment object volume = .ok (written, total) →
      total = input.val.length ∧
      ∃ stream rows, written = sink ++ stream ∧ receiveCopy stream = some rows ∧
        rows.flatMap CopyRow.body = input.val ∧
        ∀ (index : Nat) (bound : index < rows.length),
          rows[index].segmentId = segment ∧ rows[index].objectId = object ∧
          rows[index].volumeId = volume ∧ rows[index].ordinal = index ∧
          rows[index].byteOffset = ((rows.take index).flatMap CopyRow.body).length ∧
          rows[index].firstLine =
            1 + ((rows.take index).flatMap CopyRow.body).count newlineByte ∧
          (index + 1 < rows.length → EndsLine newlineByte rows[index].body) := by
  obtain ⟨input, short⟩ := input
  dsimp only
  constructor
  · constructor
    · rintro ⟨⟨written, total⟩, done⟩
      obtain ⟨blocks, wrote, -⟩ := sendBlocks_ok_iff.mp done
      obtain ⟨content, encoded, noNul, -⟩ := writeBlocks_chain input 0 0 1 wrote
      refine ⟨⟨content, (fromUtf8_eq_some_iff _ _).mpr encoded⟩, ?_, writeBlocks_fits input 0 0 1 wrote⟩
      rwa [← encoded, zero_mem_convertTo]
    · rintro ⟨⟨content, decoded⟩, noNul, small⟩
      obtain rfl := (fromUtf8_eq_some_iff _ _).mp decoded
      rw [zero_mem_convertTo] at noNul
      obtain ⟨blocks, total, wrote⟩ := writeBlocks_exists content noNul small 0 0 1
      exact ⟨_, sendBlocks_ok_iff.mpr ⟨blocks, wrote, rfl⟩⟩
  · intro written total done
    obtain ⟨blocks, wrote, rfl⟩ := sendBlocks_ok_iff.mp done
    obtain ⟨content, rfl, noNul, chain, whole, counted⟩ := writeBlocks_chain input 0 0 1 wrote
    rw [Nat.zero_add] at counted
    refine ⟨counted, header ++ ((blocks.flatMap fun block =>
      writeTuple (blockFields segment object volume block)) ++ trailer),
      blocks.map (copyRow segment object volume), List.append_assoc _ _ _,
      receiveCopy_blocks chain whole (writeBlocks_small _ 0 0 1 wrote) short, ?_, ?_⟩
    · rw [flatMap_copyRow, whole]
    · intro index bound
      rw [List.length_map] at bound
      obtain ⟨ordinal, offset, firstLine, ends⟩ := chain.at_index index bound
      have before : ((blocks.map (copyRow segment object volume)).take index).flatMap CopyRow.body =
          convertTo (text (blocks.take index)) := by
        rw [← List.map_take, flatMap_copyRow]
      rw [before, count_newlineByte, List.getElem_map]
      rw [octetLength_flatMap, Nat.zero_add] at offset
      refine ⟨rfl, rfl, rfl, ?_, ?_, ?_, ?_⟩
      · exact congrArg Int.ofNat (ordinal.trans (Nat.zero_add index))
      · exact congrArg Int.ofNat offset
      · exact congrArg Int.ofNat firstLine
      · intro more
        rw [List.length_map] at more
        obtain ⟨front, body⟩ := ends more
        exact ⟨convertTo front, by rw [copyRow, body, convertTo_append, convertTo_newline]⟩

end PostgreOS
