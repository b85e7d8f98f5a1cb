/-
Reading a range of a file.

`read_range` cuts a range out of inline content, or out of the blocks that overlap the
range; whatever is stored, the answer is the range of the bytes of the file.
-/

import PostgreOS.Library.BlockRanges
import PostgreOS.ReadBack

namespace PostgreOS

open Library.BlockRanges Library.LineBlocks Library.Outcome

/-- The part of a block in `string_agg(substring(...) ORDER BY ordinal)`. -/
def blockPart (startByte endByte : Nat) (block : ContentBlock) : Result Bytes :=
  let skipped := startByte - block.offset
  let length := min ((endByte : Int) - block.offset) (octetLength block.body) - skipped
  if length < 0 then raise "22011" "negative substring length not allowed" []
  else .ok (((convertTo block.body).drop skipped).take length.toNat)

/-- The blocks that `read_range` selects, in order. -/
def Database.rangeBlocks (db : Database) (object : Uuid) (startByte endByte : Nat) :
    List ContentBlock :=
  let previous := (db.allContentBlocks.filter fun block =>
    block.objectId = object ∧ block.offset ≤ startByte).map fun block => block.offset
  match previous.max? with
  | none => []
  | some first =>
      (db.objectBlocks object).filter fun block => first ≤ block.offset ∧ block.offset < endByte

/-- `pgos.read_range`. The fields hold less than 2^30 bytes, so that no cast to `integer`
overflows. -/
def Database.readRange (db : Database) (volume : Uuid) (targetPath : Text)
    (startByte byteCount : Int) : Result Bytes :=
  if startByte < 0 ∨ byteCount < 0 ∨ 16777216 < byteCount then
    raise "22023" "invalid read range" []
  else do
    let target ← assertPath targetPath
    match (db.locateZone volume target).bind (db.entryAt volume) with
    | none => raise "P0002" "file does not exist: %" [target]
    | some entry =>
        match entry.payload with
        | .file data object =>
            let start := startByte.toNat
            let count := byteCount.toNat
            if entry.size ≤ start ∨ count = 0 then .ok []
            else
              match object with
              | none => .ok ((data.bytes.drop start).take count)
              | some object => do
                  let endByte := start + min count (entry.size - start)
                  let parts ← (db.rangeBlocks object start endByte).mapM (blockPart start endByte)
                  .ok parts.flatten
        | _ => raise "42809" "not a regular file: %" [target]

/-! ### The blocks of a range -/

def bytePiece (block : LineBlock Char) : Nat × Bytes :=
  (block.offset, convertTo block.body)

theorem consecutive_of_chain {ordinal offset line : Nat} {blocks : List (LineBlock Char)}
    (chain : ChainFrom '\n' octetLength ordinal offset line blocks) :
    Consecutive offset (blocks.map bytePiece) := by
  induction blocks generalizing ordinal offset line with
  | nil => trivial
  | cons block rest ih =>
      obtain ⟨-, same, -, -, later⟩ := chain
      exact ⟨same, ih later⟩

theorem flatMap_bytePiece (blocks : List (LineBlock Char)) :
    (blocks.map bytePiece).flatMap Prod.snd = convertTo (text blocks) := by
  induction blocks with
  | nil => rfl
  | cons block rest ih =>
      rw [List.map_cons, List.flatMap_cons, ih, text_cons, convertTo_append]
      rfl

theorem ChainFrom.pairwise {ordinal offset line : Nat} {blocks : List (LineBlock Char)}
    (chain : ChainFrom '\n' octetLength ordinal offset line blocks) :
    (∀ block ∈ blocks, offset ≤ block.offset) ∧
      blocks.Pairwise fun first second =>
        first.offset + octetLength first.body ≤ second.offset := by
  induction blocks generalizing ordinal offset line with
  | nil => exact ⟨by simp, .nil⟩
  | cons block rest ih =>
      obtain ⟨-, same, -, -, later⟩ := chain
      obtain ⟨bounds, pairs⟩ := ih later
      refine ⟨?_, List.pairwise_cons.mpr ⟨?_, pairs⟩⟩
      · intro other member
        rcases List.mem_cons.mp member with rfl | inRest
        · exact Nat.le_of_eq same.symm
        · exact Nat.le_trans (Nat.le_add_right _ _) (bounds other inRest)
      · intro other inRest
        rw [same]
        exact bounds other inRest

theorem ChainFrom.apart {ordinal offset line : Nat} {blocks : List (LineBlock Char)}
    (chain : ChainFrom '\n' octetLength ordinal offset line blocks) {first second : LineBlock Char}
    (hFirst : first ∈ blocks) (hSecond : second ∈ blocks) (different : first ≠ second) :
    first.offset + octetLength first.body ≤ second.offset ∨
      second.offset + octetLength second.body ≤ first.offset := by
  have either : blocks.Pairwise fun one other =>
      one.offset + octetLength one.body ≤ other.offset ∨
        other.offset + octetLength other.body ≤ one.offset :=
    (ChainFrom.pairwise chain).2.imp Or.inl
  have : Std.Symm fun one other : LineBlock Char =>
      one.offset + octetLength one.body ≤ other.offset ∨
        other.offset + octetLength other.body ≤ one.offset := ⟨fun _ _ => Or.symm⟩
  exact either.forall hFirst hSecond different

theorem ChainFrom.next {ordinal offset line : Nat} {blocks : List (LineBlock Char)}
    (chain : ChainFrom '\n' octetLength ordinal offset line blocks) {block : LineBlock Char}
    (member : block ∈ blocks) :
    block.offset + octetLength block.body = offset + totalSize octetLength blocks ∨
      0 < octetLength block.body ∧
        ∃ later ∈ blocks, later.offset = block.offset + octetLength block.body := by
  induction blocks generalizing ordinal offset line with
  | nil => cases member
  | cons head rest ih =>
      obtain ⟨-, same, -, ends, later⟩ := chain
      rcases List.mem_cons.mp member with rfl | inRest
      · cases rest with
        | nil =>
            refine Or.inl ?_
            rw [totalSize_cons, same]
            rfl
        | cons second others =>
            obtain ⟨front, body⟩ := ends (List.cons_ne_nil _ _)
            refine Or.inr ⟨?_, second, by simp, ?_⟩
            · rw [body, octetLength_append]
              exact Nat.lt_of_lt_of_le (by decide : 0 < octetLength ['\n']) (Nat.le_add_left _ _)
            · rw [later.2.1, same]
      · rcases ih later inRest with last | ⟨nonempty, next, nextMember, offset_eq⟩
        · refine Or.inl ?_
          rw [totalSize_cons, last, Nat.add_assoc]
        · exact Or.inr ⟨nonempty, next, List.mem_cons_of_mem _ nextMember, offset_eq⟩

theorem blockPart_eq {startByte endByte : Nat} {block : ContentBlock}
    (before : block.offset < endByte) (ordered : startByte ≤ endByte)
    (reaches : startByte ≤ block.offset + octetLength block.body) :
    blockPart startByte endByte block =
      .ok (inRange startByte endByte (bytePiece block.toLineBlock)) := by
  unfold blockPart inRange bytePiece
  have length : (convertTo block.body).length = octetLength block.body := rfl
  dsimp only
  rw [if_neg (by omega)]
  congr 1
  rw [List.take_eq_take_iff, List.length_drop, length]
  omega

section Object

variable {db : Database} {object : Uuid} {content : Text} {startByte endByte first : Nat}
  (blocks : BlocksOf content ((db.blockRows object).map ContentBlock.toLineBlock))

include blocks

/-- The last block that starts before the range exists and is the first to be read. -/
theorem rangeBlocks_eq (endByte : Nat) (inside : startByte < octetLength content) :
    ∃ first, (∀ block ∈ db.blockRows object, block.offset ≤ startByte → block.offset ≤ first) ∧
      first ≤ startByte ∧ (∃ block ∈ db.blockRows object, block.offset = first) ∧
      db.rangeBlocks object startByte endByte =
        (db.blockRows object).filter fun block =>
          first ≤ block.offset ∧ block.offset < endByte := by
  have listed : (db.allContentBlocks.filter fun block =>
      decide (block.objectId = object ∧ block.offset ≤ startByte)).map (fun block => block.offset) =
        ((db.blockRows object).filter fun block => decide (block.offset ≤ startByte)).map
          fun block => block.offset := by
    unfold Database.blockRows
    rw [List.filter_filter]
    simp only [Bool.decide_and, Bool.and_comm]
  unfold Database.rangeBlocks
  dsimp only
  rw [listed, objectBlocks_eq_blockRows blocks]
  split
  · rename_i none
    -- The first block starts at zero.
    exfalso
    have total := blocks.2.2
    cases rows : db.blockRows object with
    | nil =>
        rw [rows] at total
        change 0 = octetLength content at total
        omega
    | cons head rest =>
        have chain := blocks.1
        rw [rows] at chain none
        have zero : head.offset = 0 := chain.2.1
        rw [List.max?_eq_none_iff, List.map_eq_nil_iff, List.filter_eq_nil_iff] at none
        exact none head List.mem_cons_self (decide_eq_true (by omega))
  · rename_i first found
    obtain ⟨member, largest⟩ := (List.max?_eq_some_iff).mp found
    obtain ⟨block, kept, same⟩ := List.mem_map.mp member
    obtain ⟨blockMember, before⟩ := List.mem_filter.mp kept
    refine ⟨first, ?_, ?_, ⟨block, blockMember, same⟩, rfl⟩
    · intro other otherMember early
      exact largest _ (List.mem_map.mpr
        ⟨other, List.mem_filter.mpr ⟨otherMember, decide_eq_true early⟩, rfl⟩)
    · rw [← same]
      exact of_decide_eq_true before

/-- The blocks give the range of the text. -/
theorem rangeBlocks_parts (ordered : startByte < endByte) (inside : endByte ≤ octetLength content) :
    ∃ parts, (db.rangeBlocks object startByte endByte).mapM (blockPart startByte endByte) =
        .ok parts ∧
      parts.flatten = ((convertTo content).drop startByte).take (endByte - startByte) := by
  obtain ⟨first, largest, early, ⟨start, startMember, startOffset⟩, selected⟩ :=
    rangeBlocks_eq blocks endByte (Nat.lt_of_lt_of_le ordered inside)
  have total := blocks.2.2
  have inChain {block : ContentBlock} (member : block ∈ db.blockRows object) :
      block.toLineBlock ∈ (db.blockRows object).map ContentBlock.toLineBlock :=
    List.mem_map_of_mem member
  have parts : ∀ block ∈ db.rangeBlocks object startByte endByte,
      blockPart startByte endByte block =
        .ok (inRange startByte endByte (bytePiece block.toLineBlock)) := by
    rw [selected]
    intro block chosen
    obtain ⟨member, bounds⟩ := List.mem_filter.mp chosen
    obtain ⟨notBefore, before⟩ := of_decide_eq_true bounds
    apply blockPart_eq before (Nat.le_of_lt ordered)
    -- A block that starts before the range is the last to do so, so it reaches the range.
    by_contra short
    have atFirst := largest block member (by omega)
    rcases ChainFrom.next blocks.1 (inChain member) with last | ⟨nonempty, later, laterMember, follows⟩
    · rw [Nat.zero_add, total] at last
      omega
    · obtain ⟨row, rowMember, rfl⟩ := List.mem_map.mp laterMember
      have := largest row rowMember (by omega)
      omega
  refine ⟨_, mapM_eq_ok.mpr (List.forall₂_map_right_iff.mpr (List.forall₂_same.mpr parts)), ?_⟩
  have outside : ∀ row ∈ db.blockRows object, ¬ (first ≤ row.offset ∧ row.offset < endByte) →
      inRange startByte endByte (bytePiece row.toLineBlock) = [] := by
    intro row member unselected
    by_cases past : endByte ≤ row.offset
    · exact inRange_of_stop_le past
    · have earlier : row.offset < start.offset := by omega
      have different : row.toLineBlock ≠ start.toLineBlock := by
        intro same
        have offsets := congrArg LineBlock.offset same
        omega
      have apart := ChainFrom.apart blocks.1 (inChain member) (inChain startMember) different
      apply inRange_of_le_start
      change row.offset + octetLength row.body ≤ startByte
      omega
  have kept : (((db.blockRows object).map fun row => bytePiece row.toLineBlock).filter fun piece =>
        decide (first ≤ piece.1 ∧ piece.1 < endByte)).flatMap (inRange startByte endByte) =
      ((((db.blockRows object).map fun row => bytePiece row.toLineBlock).flatMap Prod.snd).drop
        (startByte - 0)).take (endByte - max startByte 0) := by
    apply flatMap_inRange_filter
    · have pieces := consecutive_of_chain blocks.1
      rwa [List.map_map] at pieces
    · intro piece member dropped
      obtain ⟨row, rowMember, rfl⟩ := List.mem_map.mp member
      exact outside row rowMember (of_decide_eq_false dropped)
  have whole := flatMap_bytePiece ((db.blockRows object).map ContentBlock.toLineBlock)
  rw [List.map_map, blocks.2.1] at whole
  rw [← List.flatMap_def, selected, ← whole]
  rw [List.filter_map, List.flatMap_map, Nat.sub_zero, Nat.max_zero] at kept
  exact kept

end Object

/-- The bytes of a file: those in its row, or those of the text in the blocks of its object. -/
inductive Bytewise (db : Database) (entry : ZoneEntry) (bytes : Bytes) : Prop
  | inline (data : FileData) (payload : entry.payload = .file data none) (same : data.bytes = bytes)
  | blocks (data : FileData) (object : Uuid) (content : Text)
      (payload : entry.payload = .file data (some object))
      (blocksOf : BlocksOf content ((db.blockRows object).map ContentBlock.toLineBlock))
      (same : convertTo content = bytes)

/-- The size of a file is the number of its bytes. -/
theorem bytewise_of_contentOf {db : Database} (store : StoreSound db) {entry : ZoneEntry}
    (stored : Stored db.contentObjects entry) {bytes : Bytes}
    (content : db.contentOf entry = some bytes) :
    Bytewise db entry bytes ∧ bytes.length = entry.size := by
  unfold Database.contentOf at content
  cases payload : entry.payload with
  | directory =>
      rw [payload] at content
      cases content
  | symlink target =>
      rw [payload] at content
      cases content
  | file data reference =>
      rw [payload] at content
      cases reference with
      | none =>
          obtain rfl := Option.some.inj content
          refine ⟨.inline data payload rfl, ?_⟩
          rw [Stored, payload] at stored
          cases data with
          | text text => exact stored.1
          | binary raw => exact stored
      | some object =>
          obtain ⟨-, found, foundMember, rfl, -, size⟩ :=
            stored.object (by rw [ZoneEntry.contentObject, payload])
          obtain ⟨text, blocksOf, length⟩ := store.object_blocks found foundMember
          obtain rfl := Option.some.inj content
          rw [objectText_eq blocksOf]
          exact ⟨.blocks data found.id text payload blocksOf rfl, length.trans size⟩

/-- `read_range` of the path of a file. -/
theorem readRange_of_found {db : Database} {volume : Uuid} {path : Text} {entry : ZoneEntry}
    (store : StoreSound db) (stored : Stored db.contentObjects entry)
    (canonical : CanonicalPath path)
    (found : (db.locateZone volume path).bind (db.entryAt volume) = some entry) {bytes : Bytes}
    (content : db.contentOf entry = some bytes) {startByte byteCount : Nat}
    (limit : byteCount ≤ 16777216) :
    db.readRange volume path startByte byteCount =
      .ok ((bytes.drop startByte).take byteCount) := by
  unfold Database.readRange
  rw [if_neg (by omega), assertPath_of_canonical canonical, ok_bind, found]
  simp only [Int.toNat_natCast]
  obtain ⟨bytewise, size⟩ := bytewise_of_contentOf store stored content
  have empty (nothing : entry.size ≤ startByte ∨ byteCount = 0) :
      (bytes.drop startByte).take byteCount = [] := by
    rcases nothing with past | none
    · rw [List.drop_eq_nil_of_le (size ▸ past), List.take_nil]
    · rw [none, List.take_zero]
  cases bytewise with
  | inline data payload same =>
      rw [payload]
      dsimp only
      split
      · rename_i nothing
        rw [empty nothing]
      · rw [same]
  | blocks data object text payload blocksOf same =>
      rw [payload]
      dsimp only
      split
      · rename_i nothing
        rw [empty nothing]
      · rename_i something
        rw [not_or] at something
        have length : octetLength text = entry.size := by
          rw [← size, ← same]
          rfl
        have ordered : startByte < startByte + min byteCount (entry.size - startByte) := by omega
        obtain ⟨parts, read, whole⟩ := rangeBlocks_parts blocksOf ordered (by omega)
        rw [read, ok_bind, whole, same]
        congr 1
        rw [List.take_eq_take_iff, List.length_drop]
        omega

theorem readRange_of_entryAt {db : Database} {volume : Uuid} (sound : Sound db)
    (wellFormed : (db.tree volume).WellFormed) {zone : ZoneNode} {entry : ZoneEntry}
    {front rest : List Text} (found : (db.tree volume).EntryAt zone entry front rest)
    {bytes : Bytes} (content : db.contentOf entry = some bytes) {startByte byteCount : Nat}
    (limit : byteCount ≤ 16777216) :
    db.readRange volume (pathText (front ++ rest)) startByte byteCount =
      .ok ((bytes.drop startByte).take byteCount) := by
  have valid := found.components
  refine readRange_of_found sound.store
    (sound.stored entry (mem_tree_entries.mp found.member).1) (canonicalPath_pathText valid) ?_
    content limit
  rw [locateZone_of_located wellFormed valid (wellFormed.located_of_entryAt found),
    Option.bind_some, entryAt_eq_some wellFormed found zone.path]

end PostgreOS
