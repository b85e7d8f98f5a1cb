/-
The two block writers cut a text into the same kind of blocks.

`split_text_blocks` cuts stored text, `write_blocks` cuts a stream of bytes. Both give
blocks that are numbered, that carry the size and the line number of what precedes
them, and that end with a line feed unless they are last.
-/

import PostgreOS.Library.Outcome
import PostgreOS.Operations.Files

namespace PostgreOS

open Library.LineBlocks Library.Outcome

/-- The blocks of a text of `size` bytes. -/
def BlocksOf (content : Text) (blocks : List (LineBlock Char)) : Prop :=
  Chain '\n' octetLength blocks ∧ text blocks = content ∧
    totalSize octetLength blocks = octetLength content

theorem octetLength_flatMap (blocks : List (LineBlock Char)) :
    totalSize octetLength blocks = octetLength (text blocks) := by
  induction blocks with
  | nil => rfl
  | cons block rest ih => rw [totalSize_cons, text_cons, octetLength_append, ih]

theorem length_replace_newline (content : Text) :
    (replaceChar '\n' [] content).length + content.count '\n' = content.length := by
  induction content with
  | nil => rfl
  | cons symbol rest ih =>
      unfold replaceChar at ih ⊢
      rw [List.flatMap_cons, List.length_append, List.count_cons, List.length_cons]
      by_cases newline : symbol = '\n'
      · subst newline
        simp only [if_pos, List.length_nil, beq_self_eq_true]
        omega
      · rw [if_neg newline, if_neg (by simpa using newline)]
        simp only [List.length_cons, List.length_nil]
        omega

theorem lines_of_body (line : Nat) (body : Text) :
    line + body.length - (replaceChar '\n' [] body).length = line + body.count '\n' := by
  have lengths := length_replace_newline body
  omega

theorem count_newlineByte (content : Text) :
    (convertTo content).count newlineByte = content.count '\n' := by
  induction content with
  | nil => rfl
  | cons symbol rest ih =>
      rw [convertTo_cons, List.count_append, List.count_cons, ih]
      by_cases newline : symbol = '\n'
      · subst newline
        have single : (String.utf8EncodeChar '\n').count newlineByte = 1 := by decide
        rw [single, if_pos (by simp)]
        omega
      · rw [List.count_eq_zero_of_not_mem (newlineByte_notMem_utf8EncodeChar newline),
          if_neg (by simpa using newline)]
        omega

theorem convertTo_eq_nil {content : Text} (empty : convertTo content = []) : content = [] :=
  convertTo_injective (empty.trans rfl : convertTo content = convertTo [])

theorem endsLine_of_bytes {content : Text} {before : Bytes}
    (ends : convertTo content = before ++ [newlineByte]) : EndsLine '\n' content := by
  obtain ⟨front, back, rfl, -, empty⟩ := convertTo_split_newline content before [] ends
  rw [convertTo_eq_nil empty]
  exact ⟨front, rfl⟩

/-! ### `split_text_blocks` -/

/-- The body ends with its first line feed after `targetBytes` bytes. -/
def CutAfter (targetBytes : Nat) (body : Text) : Prop :=
  ∃ front, convertTo body = front ++ [newlineByte] ∧ targetBytes ≤ front.length ∧
    newlineByte ∉ front.drop targetBytes

theorem CutAfter.endsLine {targetBytes : Nat} {body : Text} (cut : CutAfter targetBytes body) :
    EndsLine '\n' body := by
  obtain ⟨front, ends, -, -⟩ := cut
  exact endsLine_of_bytes ends

/-- A block is cut off after a line feed, so it is text and so is the rest. -/
theorem cutBlock_convertTo (targetBytes : Nat) {content : Text} (nonempty : content ≠ []) :
    ∃ front back, content = front ++ back ∧ front ≠ [] ∧
      cutBlock targetBytes (convertTo content) = (convertTo front, convertTo back) ∧
      (back ≠ [] → CutAfter targetBytes front) := by
  have whole : ∃ front back, content = front ++ back ∧ front ≠ [] ∧
      (convertTo content, ([] : Bytes)) = (convertTo front, convertTo back) ∧
      (back ≠ [] → CutAfter targetBytes front) :=
    ⟨content, [], (List.append_nil content).symm, nonempty, rfl, fun more => absurd rfl more⟩
  unfold cutBlock
  split
  · exact whole
  · split
    · exact whole
    · rename_i larger hasNewline
      unfold bytePosition at hasNewline ⊢
      by_cases present : newlineByte ∈ (convertTo content).drop targetBytes
      · rw [if_pos present]
        obtain ⟨before, after, dropped, free⟩ := List.eq_append_cons_of_mem present
        have index : ((convertTo content).drop targetBytes).idxOf newlineByte = before.length := by
          rw [dropped, List.idxOf_append_of_notMem free]
          simp
        have joined : convertTo content =
            ((convertTo content).take targetBytes ++ before) ++ newlineByte :: after := by
          rw [List.append_assoc, ← dropped, List.take_append_drop]
        obtain ⟨front, back, rfl, hFront, hBack⟩ := convertTo_split_newline content _ after joined
        have size : targetBytes + (before.length + 1) =
            (convertTo (front ++ ['\n'])).length := by
          rw [convertTo_append, hFront, convertTo_newline, List.length_append, List.length_append,
            List.length_take]
          simp only [List.length_singleton]
          omega
        have shape : front ++ '\n' :: back = (front ++ ['\n']) ++ back := by simp
        have taken : ((convertTo (front ++ '\n' :: back)).take targetBytes).length = targetBytes := by
          rw [List.length_take]
          omega
        refine ⟨front ++ ['\n'], back, shape, by simp, ?_, fun _ => ⟨convertTo front, ?_, ?_, ?_⟩⟩
        · rw [index, size, shape, convertTo_append (front ++ ['\n']) back]
          simp only [List.take_left, List.drop_left]
        · rw [convertTo_append, convertTo_newline]
        · rw [hFront, List.length_append, taken]
          exact Nat.le_add_right _ _
        · rw [hFront, List.drop_append_of_le_length (Nat.le_of_eq taken.symm),
            List.drop_eq_nil_of_le (Nat.le_of_eq taken), List.nil_append]
          exact free
      · rw [if_neg present] at hasNewline
        exact absurd rfl hasNewline

theorem splitLoop_ok (targetBytes : Nat) (content : Text) (noNul : '\x00' ∉ content)
    (ordinal offset line : Nat) :
    ∃ blocks, splitLoop targetBytes (convertTo content) ordinal offset line = .ok blocks ∧
      ChainFrom '\n' octetLength ordinal offset line blocks ∧ text blocks = content ∧
      (∀ block ∈ blocks, block.body ≠ []) ∧
      ∀ block ∈ blocks.dropLast, CutAfter targetBytes block.body := by
  -- Every round cuts a nonempty front off the content.
  induction size : content.length using Nat.strong_induction_on generalizing content ordinal offset
    line with
  | _ size ih =>
      subst size
      rw [splitLoop]
      by_cases empty : content = []
      · subst empty
        exact ⟨[], rfl, trivial, rfl, fun _ member => absurd member List.not_mem_nil,
          fun _ member => absurd member List.not_mem_nil⟩
      · rw [if_neg fun same => empty (convertTo_eq_nil same)]
        obtain ⟨front, back, rfl, nonempty, cut, ends⟩ := cutBlock_convertTo targetBytes empty
        have frontClean : '\x00' ∉ front := fun member => noNul (List.mem_append_left back member)
        have backClean : '\x00' ∉ back := fun member => noNul (List.mem_append_right front member)
        rw [cut]
        simp only [convertFrom_convertTo frontClean]
        have shorter : back.length < (front ++ back).length := by
          have positive := List.length_pos_of_ne_nil nonempty
          rw [List.length_append]
          omega
        obtain ⟨later, split, chain, same, bodies, cuts⟩ := ih back.length shorter back backClean
          (ordinal + 1) (offset + octetLength front) (line + front.count '\n') rfl
        rw [lines_of_body, split]
        -- More blocks follow only where bytes are left.
        have cutFront (more : later ≠ []) : CutAfter targetBytes front := by
          apply ends
          rintro rfl
          apply more
          cases later with
          | nil => rfl
          | cons block rest =>
              rw [splitLoop] at split
              cases split
        refine ⟨_, rfl, ⟨rfl, rfl, rfl, fun more => (cutFront more).endsLine, chain⟩, ?_, ?_, ?_⟩
        · rw [text_cons, same]
        · exact List.forall_mem_cons.mpr ⟨nonempty, bodies⟩
        · cases later with
          | nil => exact fun _ member => absurd member List.not_mem_nil
          | cons second rest =>
              rw [List.dropLast_cons_cons]
              exact List.forall_mem_cons.mpr ⟨cutFront (List.cons_ne_nil _ _), cuts⟩

theorem splitTextBlocks_ok {content : Text} (noNul : '\x00' ∉ content) {targetBytes : Nat}
    (positive : 0 < targetBytes) :
    ∃ blocks, splitTextBlocks content targetBytes = .ok blocks ∧ BlocksOf content blocks := by
  obtain ⟨blocks, split, chain, same, -⟩ := splitLoop_ok targetBytes content noNul 0 0 1
  refine ⟨blocks, ?_, chain, same, ?_⟩
  · unfold splitTextBlocks
    rw [if_neg (by omega), split]
  · rw [octetLength_flatMap, same]

/-- The blocks of `split_text_blocks`, read one by one. PostgreSQL text holds no NUL. -/
theorem splitTextBlocks_blocks {content : Text} (noNul : '\x00' ∉ content) {targetBytes : Nat}
    (positive : 1 ≤ targetBytes) :
    ∃ blocks, splitTextBlocks content targetBytes = .ok blocks ∧
      blocks.flatMap LineBlock.body = content ∧ (content = [] → blocks = []) ∧
      ∀ (index : Nat) (bound : index < blocks.length),
        blocks[index].ordinal = index ∧
        blocks[index].offset = octetLength ((blocks.take index).flatMap LineBlock.body) ∧
        blocks[index].firstLine = 1 + ((blocks.take index).flatMap LineBlock.body).count '\n' ∧
        blocks[index].body ≠ [] ∧
        convertFrom (convertTo blocks[index].body) = some blocks[index].body ∧
        (index + 1 < blocks.length → CutAfter targetBytes blocks[index].body) := by
  obtain ⟨blocks, split, chain, same, bodies, cuts⟩ := splitLoop_ok targetBytes content noNul 0 0 1
  refine ⟨blocks, ?_, same, ?_, ?_⟩
  · unfold splitTextBlocks
    rw [if_neg (by omega), split]
  · rintro rfl
    rw [splitLoop] at split
    exact (Except.ok.inj split).symm
  · intro index bound
    obtain ⟨ordinal, offset, line, -⟩ := chain.at_index index bound
    have member := List.getElem_mem bound
    refine ⟨by omega, ?_, line, bodies _ member, ?_, ?_⟩
    · rw [offset, octetLength_flatMap, Nat.zero_add]
      rfl
    · apply convertFrom_convertTo
      intro inBody
      apply noNul
      rw [← same]
      exact List.mem_flatMap.mpr ⟨_, member, inBody⟩
    · intro more
      apply cuts
      rw [← List.getElem_dropLast (by rw [List.length_dropLast]; omega)]
      exact List.getElem_mem _

theorem splitTextBlocks_blocks_two :
    ∃ blocks, splitTextBlocks ['a', '\n', '\n', 'é', 'b', '\n', 'c'] 3 = .ok blocks ∧
      blocks.map LineBlock.body = [['a', '\n', '\n', 'é', 'b', '\n'], ['c']] ∧
      blocks.flatMap LineBlock.body = ['a', '\n', '\n', 'é', 'b', '\n', 'c'] := by
  obtain ⟨blocks, split, whole, -⟩ := splitTextBlocks_blocks
    (by decide : '\x00' ∉ ['a', '\n', '\n', 'é', 'b', '\n', 'c']) (by decide : 1 ≤ 3)
  have computed : (LineBlock.body <$> ·) <$> splitTextBlocks
      ['a', '\n', '\n', 'é', 'b', '\n', 'c'] 3 =
        .ok [['a', '\n', '\n', 'é', 'b', '\n'], ['c']] := by decide +kernel
  rw [split] at computed
  exact ⟨blocks, split, Except.ok.inj computed, whole⟩

/-! ### `write_blocks` -/

/-- Bytes that consist of `lines` complete lines. -/
def WholeLines (block : Bytes) (lines : Nat) : Prop :=
  block.count newlineByte = lines ∧ (block = [] ∨ ∃ front, block = front ++ [newlineByte])

theorem readUntilNewline_found {limit : Nat} {front : Bytes} (free : newlineByte ∉ front)
    (near : front.length < limit) (rest : Bytes) :
    readUntilNewline limit (front ++ newlineByte :: rest) = (front ++ [newlineByte], rest) := by
  have window : (front ++ newlineByte :: rest).take limit =
      front ++ newlineByte :: rest.take (limit - front.length - 1) := by
    rw [List.take_append, List.take_of_length_le (Nat.le_of_lt near),
      (by omega : limit - front.length = limit - front.length - 1 + 1), List.take_succ_cons]
    rfl
  have index : (front ++ newlineByte :: rest.take (limit - front.length - 1)).idxOf newlineByte =
      front.length := by
    rw [List.idxOf_append_of_notMem free]
    simp
  have size : front.length + 1 = (front ++ [newlineByte]).length := by simp
  unfold readUntilNewline
  dsimp only
  rw [window, if_pos (by simp), index, size, List.append_cons front newlineByte rest,
    List.take_left, List.drop_left]

theorem readUntilNewline_free {limit : Nat} {reader : Bytes}
    (free : newlineByte ∉ reader.take limit) :
    readUntilNewline limit reader = (reader.take limit, reader.drop limit) := by
  unfold readUntilNewline
  dsimp only
  rw [if_neg free, List.length_take]
  by_cases short : limit ≤ reader.length
  · rw [Nat.min_eq_left short]
  · have reached : reader.length ≤ limit := by omega
    rw [Nat.min_eq_right reached, List.take_length, List.drop_length,
      List.take_of_length_le reached, List.drop_eq_nil_of_le reached]

theorem readUntilNewline_line {limit : Nat} {reader : Bytes}
    (short : (readUntilNewline (limit + 1) reader).1.length ≤ limit) :
    (∃ front, (readUntilNewline (limit + 1) reader).1 = front ++ [newlineByte] ∧
      newlineByte ∉ front) ∨ (readUntilNewline (limit + 1) reader).2 = [] := by
  by_cases present : newlineByte ∈ reader.take (limit + 1)
  · left
    obtain ⟨before, after, window, free⟩ := List.eq_append_cons_of_mem present
    have near := congrArg List.length window
    rw [List.length_append, List.length_cons, List.length_take] at near
    have joined : reader = before ++ newlineByte :: (after ++ reader.drop (limit + 1)) := by
      rw [← List.cons_append, ← List.append_assoc, ← window, List.take_append_drop]
    rw [joined, readUntilNewline_found free (by omega)]
    exact ⟨before, rfl, free⟩
  · right
    rw [readUntilNewline_free present] at short ⊢
    rw [List.length_take] at short
    exact List.drop_eq_nil_of_le (by omega)

theorem fillBlock_lines {reader block : Bytes} {lines : Nat} {filled rest : Bytes} {count : Nat}
    (whole : reader ≠ [] → WholeLines block lines)
    (done : fillBlock reader block lines = .ok (filled, rest, count)) (more : rest ≠ []) :
    WholeLines filled count := by
  refine fillBlock_invariant (fun later gained lines => later ≠ [] → WholeLines gained lines) ?_
    whole done more
  intro later gained lines _ fits nonempty sofar remains
  rcases readUntilNewline_line fits with ⟨front, line, free⟩ | ended
  · have present : later ≠ [] := by
      rintro rfl
      simp [readUntilNewline] at remains
    obtain ⟨counted, -⟩ := sofar present
    rw [line]
    refine ⟨?_, Or.inr ⟨gained ++ front, (List.append_assoc gained front _).symm⟩⟩
    rw [List.count_append, List.count_append, counted, List.count_eq_zero_of_not_mem free]
    simp
  · exact absurd ended remains

theorem readUntilNewline_nonempty {limit : Nat} {reader : Bytes}
    (empty : (readUntilNewline (limit + 1) reader).1 = []) : reader = [] := by
  unfold readUntilNewline at empty
  dsimp only at empty
  cases reader with
  | nil => rfl
  | cons byte rest =>
      have lengths := congrArg List.length empty
      split at lengths
      · simp at lengths
      · simp at lengths

theorem fillBlock_empty {reader rest : Bytes} {count : Nat}
    (done : fillBlock reader [] 0 = .ok ([], rest, count)) : reader = [] := by
  rw [fillBlock, if_neg (by simp [blockBytes])] at done
  split at done
  · cases done
  · split at done
    · exact readUntilNewline_nonempty ‹_›
    · rename_i nonempty
      obtain ⟨read, gained, -⟩ := fillBlock_ok done
      have both := List.append_eq_nil_iff.mp gained.symm
      exact absurd (List.append_eq_nil_iff.mp both.1).2 nonempty

theorem writeBlocks_nil {ordinal offset firstLine : Nat} :
    writeBlocks [] ordinal offset firstLine = .ok ([], offset) := by
  rw [writeBlocks]
  have filled : fillBlock [] [] 0 = .ok ([], [], 0) := by
    rw [fillBlock]
    rfl
  split
  · rename_i failed
    rw [filled] at failed
    cases failed
  · rfl
  · rename_i more
    rw [filled] at more
    cases more

theorem fillBlock_shrinks {reader rest : Bytes} {body : Text} {lines : Nat} (nonempty : body ≠ [])
    (filled : fillBlock reader [] 0 = .ok (convertTo body, rest, lines)) :
    rest.length < reader.length := by
  obtain ⟨read, gained, rfl⟩ := fillBlock_ok filled
  rw [List.nil_append] at gained
  have some : 0 < (convertTo body).length :=
    List.length_pos_of_ne_nil fun empty => nonempty (convertTo_eq_nil empty)
  rw [List.length_append, ← gained]
  omega

theorem body_of_block {byte : UInt8} {bytes : Bytes} {body : Text}
    (decoded : fromUtf8 (byte :: bytes) = some body) (clean : 0 ∉ byte :: bytes) :
    convertTo body = byte :: bytes ∧ body ≠ [] ∧ '\x00' ∉ body := by
  have encoded := (fromUtf8_eq_some_iff _ body).mp decoded
  refine ⟨encoded, ?_, ?_⟩
  · rintro rfl
    cases encoded
  · rw [← zero_mem_convertTo, encoded]
    exact clean

/-- The writer stops at the end of the stream, or it cuts a block and goes on. -/
theorem writeBlocks_ok_iff {reader : Bytes} {ordinal offset firstLine : Nat}
    {blocks : List (LineBlock Char)} {total : Nat} :
    writeBlocks reader ordinal offset firstLine = .ok (blocks, total) ↔
      (reader = [] ∧ blocks = [] ∧ total = offset) ∨
        ∃ body rest lines later, body ≠ [] ∧
          fillBlock reader [] 0 = .ok (convertTo body, rest, lines) ∧ '\x00' ∉ body ∧
          writeBlocks rest (ordinal + 1) (offset + octetLength body) (firstLine + lines) =
            .ok (later, total) ∧
          blocks = { ordinal := ordinal, offset := offset, firstLine := firstLine, body := body } ::
            later := by
  constructor
  · intro done
    rw [writeBlocks] at done
    split at done
    · cases done
    · rename_i filled
      cases done
      exact Or.inl ⟨fillBlock_empty filled, rfl, rfl⟩
    · rename_i byte bytes rest lines filled
      split at done
      · cases done
      · rename_i body decoded
        split at done
        · cases done
        · rename_i clean
          obtain ⟨encoded, nonempty, noNul⟩ := body_of_block decoded clean
          rw [← encoded] at filled done
          obtain ⟨⟨later, laterTotal⟩, wrote, same⟩ := bind_eq_ok.mp done
          cases same
          exact Or.inr ⟨body, rest, lines, later, nonempty, filled, noNul, wrote, rfl⟩
  · rintro (⟨rfl, rfl, rfl⟩ | ⟨body, rest, lines, later, nonempty, filled, clean, wrote, rfl⟩)
    · exact writeBlocks_nil
    · rw [writeBlocks]
      split
      · rename_i failed
        rw [filled] at failed
        cases failed
      · rename_i ended
        rw [filled] at ended
        exact absurd (convertTo_eq_nil (Prod.mk.inj (Except.ok.inj ended)).1) nonempty
      · rename_i byte bytes later lines more
        rw [filled] at more
        obtain ⟨encoded, same⟩ := Prod.mk.inj (Except.ok.inj more)
        cases same
        rw [← encoded, (fromUtf8_eq_some_iff _ body).mpr rfl]
        dsimp only
        rw [if_neg (mt zero_mem_convertTo.mp clean)]
        unfold octetLength at wrote
        rw [wrote]
        rfl

/-- The rows that `import_text` streams are the blocks of the decoded stream. -/
theorem writeBlocks_chain (reader : Bytes) (ordinal offset firstLine : Nat)
    {blocks : List (LineBlock Char)} {total : Nat}
    (done : writeBlocks reader ordinal offset firstLine = .ok (blocks, total)) :
    ∃ content, convertTo content = reader ∧ '\x00' ∉ content ∧
      ChainFrom '\n' octetLength ordinal offset firstLine blocks ∧ text blocks = content ∧
      total = offset + octetLength content := by
  induction size : reader.length using Nat.strong_induction_on generalizing reader ordinal offset
    firstLine blocks total with
  | _ size ih =>
      subst size
      rcases writeBlocks_ok_iff.mp done with
        ⟨rfl, rfl, rfl⟩ | ⟨body, rest, lines, later, nonempty, filled, noNul, wrote, rfl⟩
      · exact ⟨[], rfl, List.not_mem_nil, trivial, rfl, rfl⟩
      · obtain ⟨content, restBytes, restClean, chain, spelled, counted⟩ :=
          ih rest.length (fillBlock_shrinks nonempty filled) rest _ _ _ wrote rfl
        obtain ⟨read, gained, joined⟩ := fillBlock_ok filled
        rw [List.nil_append] at gained
        rw [← gained] at joined
        -- A block that is not last was filled with complete lines.
        have complete : rest ≠ [] → WholeLines (convertTo body) lines :=
          fillBlock_lines (fun _ => ⟨rfl, Or.inl rfl⟩) filled
        have ended : rest = [] → later = [] := by
          rintro rfl
          rw [writeBlocks_nil] at wrote
          cases wrote
          rfl
        refine ⟨body ++ content, ?_, ?_, ⟨rfl, rfl, rfl, ?_, ?_⟩, ?_, ?_⟩
        · rw [convertTo_append, restBytes, joined]
        · rw [List.mem_append]
          exact not_or.mpr ⟨noNul, restClean⟩
        · intro more
          obtain ⟨-, empty | ⟨front, ends⟩⟩ := complete fun last => more (ended last)
          · exact absurd (convertTo_eq_nil empty) nonempty
          · exact endsLine_of_bytes ends
        · by_cases last : rest = []
          · rw [ended last]
            trivial
          · obtain ⟨lineCount, -⟩ := complete last
            rw [count_newlineByte] at lineCount
            rw [lineCount]
            exact chain
        · rw [text_cons, spelled]
        · rw [counted, octetLength_append]
          omega

end PostgreOS
