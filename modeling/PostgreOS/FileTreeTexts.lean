/-
Imported texts in the tree of files.

`import_text` cuts a stream into the blocks of an object, writes an empty file and makes the
file refer to the object. In the tree of files it is a write of the bytes of the stream.
-/

import PostgreOS.BlockStream
import PostgreOS.FileTreeFiles
import PostgreOS.NewRows

namespace PostgreOS

open Library.LineBlocks Library.Lines Library.Outcome Library.Table

/-- A stream of UTF-8 text without NUL and without a line over 16 MiB. -/
def FileTree.CanStream (reader : Bytes) : Prop :=
  ∃ content, convertTo content = reader ∧ '\x00' ∉ content ∧
    ∀ line ∈ linesOf newlineByte reader, line.length ≤ maxLineBytes

def Object.refilled (data : Bytes) (object : Object) : Object :=
  { object with body := .file data }

theorem FileTree.write_refilled (tree : FileTree) (path : List Text) (first data : Bytes)
    (mode : Int) (now : Timestamp) :
    Function.update (tree.write path first mode now) path
      ((tree.write path first mode now path).map (Object.refilled data)) =
        tree.write path data mode now := by
  unfold FileTree.write
  rw [Function.update_idem, Function.update_self, Option.map_some]
  cases tree path <;> rfl

theorem writeBlocks_exists_iff (reader : Bytes) :
    (∃ blocks size, writeBlocks reader 0 0 1 = .ok (blocks, size)) ↔
      FileTree.CanStream reader := by
  constructor
  · rintro ⟨blocks, size, done⟩
    obtain ⟨content, encoded, noNul, -⟩ := writeBlocks_chain reader 0 0 1 done
    exact ⟨content, encoded, noNul, writeBlocks_fits reader 0 0 1 done⟩
  · rintro ⟨content, rfl, noNul, short⟩
    exact writeBlocks_exists content noNul short 0 0 1

section Text

variable {db : Database} {volume : Uuid} {reader : Bytes} {blocks : List (LineBlock Char)}
  {size : Nat} {now : Timestamp}

/-- Once the stream is cut, the file is written over the new object. -/
theorem importText_eq (sound : Sound db) (known : volume ∈ db.volumes.map Volume.id)
    (cut : writeBlocks reader 0 0 1 = .ok (blocks, size)) (target : Text) :
    db.importText volume target reader now = (do
      let (written, id) ←
        (db.withText volume blocks size).writeFileInline volume target [] 420 now
      let after ← written.updateEntries
        (fun entry => decide (entry.volumeId = volume ∧ entry.id = id)) (attached db.nextUuid size)
      .ok (after, id)) := by
  have freshStaging : ∀ schema ∈ db.stagingSchemas, schema.1 ≠ db.nextUuid + 1 :=
    fun schema member => Nat.ne_of_lt (Nat.lt_succ_of_lt (sound.store.staging_bound schema member))
  have freshSegment : ∀ stored ∈ db.contentSegments, stored.id ≠ db.nextUuid + 1 :=
    fun stored member => Nat.ne_of_lt (Nat.lt_succ_of_lt (sound.store.segment_bound stored member))
  obtain ⟨row, rowMember, rfl⟩ := List.mem_map.mp known
  have table := sound.keys.volume_table row rowMember
  let staged : Database :=
    { db with
      nextUuid := db.nextUuid + 2
      contentSegments := db.contentSegments ++
        [{ id := db.nextUuid + 1, volumeId := row.id, published := false }]
      stagingSchemas := db.stagingSchemas ++ [(db.nextUuid + 1, [])]
      contentObjects := db.contentObjects ++
        [{ id := db.nextUuid, volumeId := row.id, byteSize := 0
           segmentId := some (db.nextUuid + 1) }] }
  let rows := textRows row.id db.nextUuid (db.nextUuid + 1) blocks
  obtain ⟨published, publishOk⟩ : ∃ published, (staged.stageBlocks (db.nextUuid + 1)
      rows).publishContentSegment row.id (db.nextUuid + 1) = .ok published := by
    refine publishContentSegment_exists freshStaging
      (List.mem_append_right _ (List.mem_singleton_self _)) (staging_of_fresh freshStaging rows) ?_ table
    intro block member
    obtain ⟨line, -, rfl⟩ := List.mem_map.mp member
    exact ⟨rfl, rfl⟩
  have shape := publishContentSegment_ok db rows freshStaging freshSegment rfl rfl publishOk
  have cutRow := withText_published sound size shape
  unfold Database.importText Database.prepareContentSegment
  dsimp only
  rw [if_neg (not_not.mpr known), ok_bind, cut, ok_bind]
  dsimp only
  change (staged.stageBlocks (db.nextUuid + 1) rows).publishContentSegment row.id
    (db.nextUuid + 1) >>= _ = _
  rw [publishOk, ok_bind]
  unfold Database.publishContent
  rw [if_neg, cutRow]
  rw [shape, Bool.not_eq_true, List.all_eq_false]
  exact ⟨_, List.mem_append_right _ (List.mem_singleton_self _), by simp⟩

theorem view_withText (sound : Sound db) (cut : writeBlocks reader 0 0 1 = .ok (blocks, size)) :
    (db.withText volume blocks size).view volume = db.view volume := by
  have extension : StoreExtension db (db.withText volume blocks size) _ _ _ _ :=
    withText_extension sound cut
  refine view_congr (Tree.nodes_congr fun entry member => ?_)
  refine contentOf_congr fun object refers => extension.blockRows_of_old ?_
  obtain ⟨-, found, foundMember, rfl, -⟩ :=
    (sound.stored entry (mem_tree_entries.mp member).1).object refers
  exact sound.store.object_bound found foundMember

theorem withText_spells (sound : Sound db)
    (cut : writeBlocks reader 0 0 1 = .ok (blocks, size)) :
    convertTo ((db.withText volume blocks size).objectText db.nextUuid) = reader := by
  have extension : StoreExtension db (db.withText volume blocks size) _ _ _ _ :=
    withText_extension sound cut
  obtain ⟨content, rfl, -, chain, spelled, -⟩ := writeBlocks_chain reader 0 0 1 cut
  have rows := extension.blockRows_of_new sound.store (List.mem_singleton_self _)
  have whole : BlocksOf content (((db.withText volume blocks size).blockRows db.nextUuid).map
      ContentBlock.toLineBlock) := by
    rw [rows, List.nil_append, textRows_lines]
    exact ⟨chain, spelled, by rw [octetLength_flatMap, spelled]⟩
  rw [objectText_eq whole]

end Text

section Row

variable {db after : Database} {volume : Uuid} {names : List Text} {data : Bytes} {mode : Int}
  {now : Timestamp} {id : NodeId}

/-- The returned id is that of the entry at the path. -/
theorem writeFileInline_entryAt (before : (db.tree volume).WellFormed)
    (valid : Components names)
    (done : db.writeFileInline volume (pathText names) data mode now = .ok (after, id)) :
    ∃ zone entry front rest, (after.tree volume).EntryAt zone entry front rest ∧
      front ++ rest = names ∧ entry.id = id := by
  obtain ⟨canonical, above, parent, located, branch⟩ := writeFileInline_ok done
  obtain ⟨zone, upper, rest, name, place⟩ := place_of_parent before canonical above located
  obtain rfl := pathText_injective valid place.components place.path_eq
  have inZone : parent.zoneId = zone.id := congrArg Location.zoneId place.location_eq
  have relative := congrArg Location.relativePath place.child_eq
  rcases branch with ⟨-, rfl, inserted⟩ | ⟨existing, found, -, rfl, updated⟩
  · have tree := tree_insertEntries inserted volume
    refine ⟨zone, fileEntry volume parent (nameOf _) data mode now db.nextNode, upper,
      rest ++ [name],
      ⟨⟨?_, place.zoneAt.valid, place.zoneAt.path⟩, ?_, inZone, place.valid, by simp, relative⟩, rfl, rfl⟩
    · rw [tree]
      exact place.zoneAt.member
    · rw [tree]
      exact List.mem_append_right _ (List.mem_filter.mpr
        ⟨List.mem_singleton_self _, decide_eq_true rfl⟩)
  · have entryAt := (entryAt_child_iff before place).mp found
    have columns (entry : ZoneEntry) : (overwritten data now entry).volumeId = entry.volumeId := rfl
    have tree := tree_updateEntries (fun entry _ _ => columns entry) updated volume
    have chosen : atLocation volume (parent.child (nameOf _)) existing = true :=
      atLocation_iff.mpr ⟨(mem_tree_entries.mp entryAt.member).2, entryAt.inZone.trans inZone.symm,
        entryAt.path.trans relative.symm⟩
    refine ⟨zone, overwritten data now existing, upper, rest ++ [name],
      ⟨⟨?_, place.zoneAt.valid, place.zoneAt.path⟩, ?_, entryAt.inZone, place.valid, by simp,
        entryAt.path⟩, rfl, rfl⟩
    · rw [tree]
      exact place.zoneAt.member
    · rw [tree]
      exact List.mem_map.mpr ⟨existing, entryAt.member, rewritten_of_selected chosen⟩

theorem attached_columns (object : Uuid) (size : Nat) (entry : ZoneEntry) :
    (attached object size entry).volumeId = entry.volumeId ∧
      (attached object size entry).zoneId = entry.zoneId ∧
      (attached object size entry).relativePath = entry.relativePath := by
  unfold attached
  split <;> exact ⟨rfl, rfl, rfl⟩

theorem attached_clash (object : Uuid) (size : Nat) (entry other : ZoneEntry) :
    entryClash (attached object size entry) other = entryClash entry other := by
  unfold attached
  split
  · exact entryClash_congr other rfl rfl rfl rfl rfl rfl
  · rfl

theorem attached_object {content other : ZoneEntry → Option Bytes} {zonePath : Text}
    {entry : ZoneEntry} {inline : FileData} {object : Uuid} {size : Nat}
    (payload : entry.payload = .file inline none)
    (bytes : content (attached object size entry) = some data) :
    (nodeOfEntry content zonePath (attached object size entry)).object =
      (nodeOfEntry other zonePath entry).object.refilled data := by
  unfold Node.object Node.body nodeOfEntry Object.refilled
  rw [bytes]
  unfold attached entryInode ZoneEntry.kind
  rw [payload]
  rfl

end Row

/-! ### The imported file -/

section Imported

variable {db after : Database} {volume : Uuid} {names : List Text} {reader : Bytes}
  {now : Timestamp} {id : NodeId} (committed : Committed db)
  (before : (db.tree volume).WellFormed) (valid : Components names)
  (plain : ¬ db.NestedZone volume (pathText names))

include committed before valid plain

theorem view_importText
    (done : db.importText volume (pathText names) reader now = .ok (after, id)) :
    after.view volume = (db.view volume).write names reader 420 now := by
  obtain ⟨blocks, size, written, cut, writeOk, updateOk⟩ :=
    importText_stored committed.sound done
  obtain ⟨same, kept⟩ : SameTables db (db.withText volume blocks size) ∧ _ :=
    withText_kept committed.sound cut
  have stored : ((db.withText volume blocks size).tree volume).WellFormed := before
  have writtenView := view_writeFileInline stored valid plain kept.sound writeOk
  rw [view_withText committed.sound cut] at writtenView
  have noZone : pathText names ≠ ['/'] →
      ∀ zone ∈ (db.tree volume).zones, zone.path ≠ pathText names := by
    intro inner zone member path
    obtain ⟨inTable, inVolume⟩ := mem_tree_zones.mp member
    exact plain ⟨inner, zone, inTable, inVolume, path⟩
  have middle : (written.tree volume).WellFormed :=
    writeFileInline_wellFormed kept.sound stored noZone writeOk
  have still := importText_wellFormed committed.sound before noZone done
  obtain ⟨zone, row, front, rest, rowAt, spelled, rowId⟩ :=
    writeFileInline_entryAt stored valid writeOk
  have tree := tree_updateEntries
    (fun entry _ _ => (attached_columns db.nextUuid size entry).1) updateOk volume
  have mapped : after.tree volume = _ :=
    tree.trans (congrArg (fun zones => Tree.mk zones _) (List.map_id _).symm)
  rw [← FileTree.write_refilled _ _ [], ← writtenView, update_map_eq]
  refine view_mapped middle still mapped (fun _ => ⟨rfl, rfl⟩) ?_ ?_ ?_
  · intro entry
    unfold rewritten
    split
    · exact (attached_columns _ _ entry).2
    · exact ⟨rfl, rfl⟩
  · intro other upper otherAt
    rw [if_neg]
    · rfl
    · intro here
      exact middle.not_zoneAt_of_entryAt rowAt otherAt (here.trans spelled.symm)
  · intro owner entry upper inside found
    have sameStore : SameStore written after := by
      rw [(updateEntries_ok updateOk).1]
      exact ⟨rfl, rfl, rfl, rfl, rfl, rfl, rfl⟩
    by_cases here : upper ++ inside = names
    · obtain ⟨rfl, rfl, -, -⟩ := middle.entryAt_unique found rowAt (here.trans spelled.symm)
      obtain ⟨member, inVolume⟩ := mem_tree_entries.mp found.member
      obtain ⟨payload, -⟩ := writeFileInline_row kept.sound writeOk entry member rowId
      have bytes : after.contentOf (attached db.nextUuid size entry) = some reader := by
        rw [sameStore.contentOf, (sameStore_writeFileInline writeOk).contentOf]
        unfold Database.contentOf attached
        rw [payload]
        exact congrArg some (withText_spells committed.sound cut)
      have turned : rewritten (fun entry => decide (entry.volumeId = volume ∧ entry.id = id))
          (attached db.nextUuid size) entry = attached db.nextUuid size entry :=
        rewritten_of_selected (decide_eq_true ⟨inVolume, rowId⟩)
      rw [if_pos here, turned]
      exact attached_object payload bytes
    · rw [if_neg here, sameStore.contentOf, rewritten_of_not_selected]
      refine decide_eq_false fun chosen => here ?_
      have keys := (writeFileInline_kept (.refl kept.sound) writeOk).sound.keys
      obtain rfl := (keys.identified volume).entry_eq found.member rowAt.member
        (chosen.2.trans rowId.symm)
      obtain rfl := middle.zone_ids owner found.zoneAt.member zone rowAt.zoneAt.member
        (found.inZone.symm.trans rowAt.inZone)
      exact (pathText_injective found.components rowAt.components
        (found.absolutePath_eq.symm.trans rowAt.absolutePath_eq)).trans spelled

/-- A text is imported where it can be written. -/
theorem importText_allowed_iff (reader : Bytes) (now : Timestamp) :
    (∃ result, db.importText volume (pathText names) reader now = .ok result) ↔
      (db.view volume).CanWrite names ∧ FileTree.CanStream reader := by
  have inline {blocks : List (LineBlock Char)} {size : Nat}
      (cut : writeBlocks reader 0 0 1 = .ok (blocks, size)) :
      (∃ result, (db.withText volume blocks size).writeFileInline volume (pathText names) [] 420
        now = .ok result) ↔ (db.view volume).CanWrite names := by
    obtain ⟨same, kept⟩ : SameTables db (db.withText volume blocks size) ∧ _ :=
      withText_kept committed.sound cut
    have stored : ((db.withText volume blocks size).tree volume).WellFormed := before
    have stable : Committed (db.withText volume blocks size) := ⟨kept.sound, committed.unmapped⟩
    have whole := writeFile_error_iff_inline stable stored (canonicalPath_pathText valid) [] 420 now
    rw [exists_error_iff, exists_error_iff, not_iff_not] at whole
    rw [← whole, writeFile_allowed_iff stored valid plain stable, view_withText committed.sound cut]
  constructor
  · rintro ⟨⟨after, id⟩, done⟩
    obtain ⟨blocks, size, written, cut, writeOk, -⟩ := importText_stored committed.sound done
    exact ⟨(inline cut).mp ⟨_, writeOk⟩, (writeBlocks_exists_iff reader).mp ⟨blocks, size, cut⟩⟩
  · rintro ⟨allowed, streams⟩
    obtain ⟨blocks, size, cut⟩ := (writeBlocks_exists_iff reader).mpr streams
    obtain ⟨⟨written, id⟩, writeOk⟩ := (inline cut).mpr allowed
    obtain ⟨same, kept⟩ : SameTables db (db.withText volume blocks size) ∧ _ :=
      withText_kept committed.sound cut
    obtain ⟨after, updated⟩ := updateEntries_of_same_keys written
      (fun entry => decide (entry.volumeId = volume ∧ entry.id = id)) (attached db.nextUuid size)
      (writeFileInline_kept (.refl kept.sound) writeOk).sound.keys.entries_distinct
      fun entry _ _ other => attached_clash db.nextUuid size entry other
    rw [importText_eq committed.sound (volume_known committed.sound.keys before) cut, writeOk, ok_bind]
    dsimp only
    rw [updated, ok_bind]
    exact ⟨_, rfl⟩

end Imported

end PostgreOS
