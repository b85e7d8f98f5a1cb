/-
Writing files.

A write goes to the row of the parent's zone. Text is first stored in the row and
then moved to blocks together with every other inline text of the zone.
`import_text` streams a text into a segment of its own before it publishes it.
-/

import PostgreOS.Operations.Directories

namespace PostgreOS

open Library.LineBlocks Library.Outcome

/-- `text_content` and `binary_content` for some bytes. -/
def fileDataOf (data : Bytes) : FileData :=
  match convertFrom data with
  | some decoded => .text decoded
  | none => .binary data

/-- The row of a new file. -/
def fileEntry (volume : Uuid) (parent : Location) (name : Text) (data : Bytes) (mode : Int)
    (now : Timestamp) (id : NodeId) : ZoneEntry :=
  { id := id
    volumeId := volume
    zoneId := parent.zoneId
    relativePath := childRelative parent.relativePath name
    parentPath := parent.relativePath
    name := name
    payload := .file (fileDataOf data) none
    size := data.length
    metadata := newMetadata mode now }

/-- The assignments of `ON CONFLICT DO UPDATE`. -/
def overwritten (data : Bytes) (now : Timestamp) (entry : ZoneEntry) : ZoneEntry :=
  { entry with
    payload := .file (fileDataOf data) none
    size := data.length
    metadata := { entry.metadata with
      mtime := now
      ctime := now
      generation := entry.metadata.generation + 1 } }

/-- `pgos.write_file_inline`. -/
def Database.writeFileInline (db : Database) (volume : Uuid) (targetPath : Text) (data : Bytes)
    (mode : Int) (now : Timestamp) : Result (Database × NodeId) := do
  let cleanPath ← assertPath targetPath
  if db.kindOfParent volume cleanPath ≠ some .directory then
    raise "P0002" "parent directory does not exist: %" [cleanPath]
  else
    let parentLocation ← strict (db.locateParent volume cleanPath)
    let target := parentLocation.child (nameOf cleanPath)
    match db.entryAt volume target with
    | none =>
        let after ← db.insertEntries
          [fileEntry volume parentLocation (nameOf cleanPath) data mode now]
        .ok (after, db.nextNode)
    | some existing =>
        if existing.kind ≠ .file then raise "42809" "not a regular file: %" [cleanPath]
        else
          let after ← db.updateEntries (atLocation volume target) (overwritten data now)
          .ok (after, existing.id)

theorem writeFileInline_ok {db after : Database} {volume : Uuid} {targetPath : Text}
    {data : Bytes} {mode : Int} {now : Timestamp} {id : NodeId}
    (done : db.writeFileInline volume targetPath data mode now = .ok (after, id)) :
    CanonicalPath targetPath ∧ db.kindOfParent volume targetPath = some .directory ∧
    ∃ parent, db.locateParent volume targetPath = some parent ∧
      (db.entryAt volume (parent.child (nameOf targetPath)) = none ∧ id = db.nextNode ∧
          db.insertEntries [fileEntry volume parent (nameOf targetPath) data mode now] = .ok after ∨
        ∃ existing, db.entryAt volume (parent.child (nameOf targetPath)) = some existing ∧
          existing.kind = .file ∧ id = existing.id ∧
          db.updateEntries (atLocation volume (parent.child (nameOf targetPath)))
            (overwritten data now) = .ok after) := by
  unfold Database.writeFileInline at done
  obtain ⟨cleanPath, accepted, checked⟩ := bind_eq_ok.mp done
  obtain ⟨rfl, canonical⟩ := assertPath_eq_ok accepted
  split at checked
  · cases checked
  · rename_i present
    obtain ⟨parent, located, written⟩ := bind_eq_ok.mp checked
    refine ⟨canonical, not_not.mp present, parent, strict_eq_ok.mp located, ?_⟩
    dsimp only at written
    split at written
    · rename_i absent
      obtain ⟨inserted, insertOk, same⟩ := bind_eq_ok.mp written
      obtain ⟨rfl, rfl⟩ := Prod.mk.inj (Except.ok.inj same)
      exact Or.inl ⟨absent, rfl, insertOk⟩
    · rename_i existing found
      split at written
      · cases written
      · rename_i regular
        obtain ⟨updated, updateOk, same⟩ := bind_eq_ok.mp written
        obtain ⟨rfl, rfl⟩ := Prod.mk.inj (Except.ok.inj same)
        exact Or.inr ⟨existing, found, not_not.mp regular, rfl, updateOk⟩

theorem writeFileInline_contentMapping {db after : Database} {volume : Uuid} {targetPath : Text}
    {data : Bytes} {mode : Int} {now : Timestamp} {id : NodeId}
    (done : db.writeFileInline volume targetPath data mode now = .ok (after, id)) :
    after.contentMapping = db.contentMapping := by
  obtain ⟨-, -, parent, -, ⟨-, -, inserted⟩ | ⟨existing, -, -, -, updated⟩⟩ :=
    writeFileInline_ok done
  · rw [(insertEntries_ok inserted).1]
  · rw [(updateEntries_ok updated).1]

/-- `pgos.write_file`. -/
def Database.writeFile (db : Database) (volume : Uuid) (targetPath : Text) (data : Bytes)
    (mode : Int) (now : Timestamp) : Result (Database × NodeId) := do
  let (db, result) ← db.writeFileInline volume targetPath data mode now
  let location ← strict (db.locateZone volume targetPath)
  let db ← db.blockizeZone volume location.zoneId
  let db ← db.reclaimContentSegments volume
  .ok (db, result)

theorem writeFile_ok {db after : Database} {volume : Uuid} {targetPath : Text} {data : Bytes}
    {mode : Int} {now : Timestamp} {id : NodeId}
    (done : db.writeFile volume targetPath data mode now = .ok (after, id)) :
    ∃ written location blockized,
      db.writeFileInline volume targetPath data mode now = .ok (written, id) ∧
      written.locateZone volume targetPath = some location ∧
      written.blockizeZone volume location.zoneId = .ok blockized ∧
      blockized.reclaimContentSegments volume = .ok after := by
  unfold Database.writeFile at done
  obtain ⟨⟨written, result⟩, writeOk, located⟩ := bind_eq_ok.mp done
  obtain ⟨location, locateOk, moved⟩ := bind_eq_ok.mp located
  obtain ⟨blockized, blockOk, reclaimed⟩ := bind_eq_ok.mp moved
  obtain ⟨last, reclaimOk, same⟩ := bind_eq_ok.mp reclaimed
  obtain ⟨rfl, rfl⟩ := Prod.mk.inj (Except.ok.inj same)
  exact ⟨written, location, blockized, writeOk, strict_eq_ok.mp locateOk, blockOk, reclaimOk⟩

/-- `content_object = object, size = bytes` in the row of a file. -/
def attached (object : Uuid) (bytes : Nat) (entry : ZoneEntry) : ZoneEntry :=
  match entry.payload with
  | .file data _ => { entry with payload := .file data (some object), size := bytes }
  | _ => entry

/-- `pgos.publish_content`. -/
def Database.publishContent (db : Database) (volume : Uuid) (targetPath : Text) (object : Uuid)
    (bytes : Nat) (now : Timestamp) : Result (Database × NodeId) := do
  if db.contentObjects.all fun stored => ¬ (stored.id = object ∧ stored.volumeId = volume) then
    raise "22023" "content object does not belong to volume" []
  else
    let db : Database := { db with
      contentObjects := db.contentObjects.map fun stored =>
        if stored.id = object then { stored with byteSize := bytes } else stored }
    let (db, result) ← db.writeFileInline volume targetPath [] 420 now
    let db ← db.updateEntries (fun entry => decide (entry.volumeId = volume ∧ entry.id = result))
      (attached object bytes)
    .ok (db, result)

theorem publishContent_ok {db after : Database} {volume : Uuid} {targetPath : Text}
    {object : Uuid} {bytes : Nat} {now : Timestamp} {id : NodeId}
    (done : db.publishContent volume targetPath object bytes now = .ok (after, id)) :
    ∃ written,
      Database.writeFileInline
        { db with
          contentObjects := db.contentObjects.map fun stored =>
            if stored.id = object then { stored with byteSize := bytes } else stored }
        volume targetPath [] 420 now = .ok (written, id) ∧
      written.updateEntries (fun entry => decide (entry.volumeId = volume ∧ entry.id = id))
        (attached object bytes) = .ok after := by
  unfold Database.publishContent at done
  split at done
  · cases done
  · obtain ⟨⟨written, result⟩, writeOk, attaching⟩ := bind_eq_ok.mp done
    obtain ⟨last, updateOk, same⟩ := bind_eq_ok.mp attaching
    obtain ⟨rfl, rfl⟩ := Prod.mk.inj (Except.ok.inj same)
    exact ⟨written, writeOk, updateOk⟩

/-! ### The block writer of `import_text` -/

def blockBytes : Nat := 8 * 1024

def maxLineBytes : Nat := 16 * 1024 * 1024

/-- `read_until(b'\n')` on at most `limit` bytes: the bytes read and the rest. -/
def readUntilNewline (limit : Nat) (reader : Bytes) : Bytes × Bytes :=
  let window := reader.take limit
  let read := if newlineByte ∈ window then window.idxOf newlineByte + 1 else window.length
  (reader.take read, reader.drop read)

theorem readUntilNewline_shrinks {limit : Nat} {reader : Bytes}
    (more : (readUntilNewline limit reader).1 ≠ []) :
    (readUntilNewline limit reader).2.length < reader.length := by
  unfold readUntilNewline at more ⊢
  dsimp only at more ⊢
  have taken := List.length_pos_of_ne_nil more
  rw [List.length_take] at taken
  rw [List.length_drop]
  omega

/-- The inner loop of `write_blocks`: whole lines until the block is large enough. -/
def fillBlock (reader block : Bytes) (lines : Nat) : Result (Bytes × Bytes × Nat) :=
  if blockBytes ≤ block.length then .ok (block, reader, lines)
  else if maxLineBytes < (readUntilNewline (maxLineBytes + 1) reader).1.length then
    raise "" "text line exceeds 16 MiB" []
  else if (readUntilNewline (maxLineBytes + 1) reader).1 = [] then .ok (block, reader, lines)
  else
    fillBlock (readUntilNewline (maxLineBytes + 1) reader).2
      (block ++ (readUntilNewline (maxLineBytes + 1) reader).1) (lines + 1)
  termination_by reader.length
  decreasing_by exact readUntilNewline_shrinks ‹_›

theorem fillBlock_invariant {reader block : Bytes} {lines : Nat} {filled rest : Bytes} {count : Nat}
    (invariant : Bytes → Bytes → Nat → Prop)
    (step : ∀ reader block lines, block.length < blockBytes →
      (readUntilNewline (maxLineBytes + 1) reader).1.length ≤ maxLineBytes →
        (readUntilNewline (maxLineBytes + 1) reader).1 ≠ [] → invariant reader block lines →
          invariant (readUntilNewline (maxLineBytes + 1) reader).2
            (block ++ (readUntilNewline (maxLineBytes + 1) reader).1) (lines + 1))
    (start : invariant reader block lines)
    (done : fillBlock reader block lines = .ok (filled, rest, count)) :
    invariant rest filled count := by
  induction reader, block, lines using fillBlock.induct with
  | case1 reader block lines full =>
      rw [fillBlock, if_pos full] at done
      cases done
      exact start
  | case2 reader block lines partly long =>
      rw [fillBlock, if_neg partly, if_pos long] at done
      cases done
  | case3 reader block lines partly fits empty =>
      rw [fillBlock, if_neg partly, if_neg fits, if_pos empty] at done
      cases done
      exact start
  | case4 reader block lines partly fits more ih =>
      rw [fillBlock, if_neg partly, if_neg fits, if_neg more] at done
      exact ih (step reader block lines (Nat.lt_of_not_le partly) (Nat.le_of_not_lt fits) more start)
        done

theorem fillBlock_ok {reader block : Bytes} {lines : Nat} {filled rest : Bytes} {count : Nat}
    (done : fillBlock reader block lines = .ok (filled, rest, count)) :
    ∃ read, filled = block ++ read ∧ reader = read ++ rest := by
  refine fillBlock_invariant
    (fun later gained _ => ∃ read, gained = block ++ read ∧ reader = read ++ later) ?_
    ⟨[], (List.append_nil block).symm, rfl⟩ done
  rintro later _ _ - - - ⟨read, rfl, split⟩
  refine ⟨read ++ (readUntilNewline (maxLineBytes + 1) later).1, List.append_assoc _ _ _, ?_⟩
  have parts : (readUntilNewline (maxLineBytes + 1) later).1 ++
      (readUntilNewline (maxLineBytes + 1) later).2 = later := List.take_append_drop _ later
  rw [List.append_assoc, parts, split]

/-- `write_blocks`: the rows sent to the staging table and the total of bytes. -/
def writeBlocks (reader : Bytes) (ordinal offset firstLine : Nat) :
    Result (List (LineBlock Char) × Nat) :=
  match _filled : fillBlock reader [] 0 with
  | .error error => .error error
  | .ok ([], _, _) => .ok ([], offset)
  | .ok (byte :: bytes, rest, lines) =>
      match fromUtf8 (byte :: bytes) with
      | none => raise "" "large text file is not UTF-8" []
      | some body =>
          if 0 ∈ byte :: bytes then raise "" "large text file contains NUL" []
          else do
            let (later, total) ← writeBlocks rest (ordinal + 1) (offset + (byte :: bytes).length)
              (firstLine + lines)
            .ok ({ ordinal := ordinal, offset := offset, firstLine := firstLine, body := body } ::
              later, total)
  termination_by reader.length
  decreasing_by
    obtain ⟨read, gained, rfl⟩ := fillBlock_ok _filled
    rw [List.nil_append] at gained
    rw [← gained, List.length_append, List.length_cons]
    omega

/-- `Database::import_text` on a path that is already normalized. -/
def Database.importText (db : Database) (volume : Uuid) (target : Text) (reader : Bytes)
    (now : Timestamp) : Result (Database × NodeId) := do
  let object := db.nextUuid
  let segment := db.nextUuid + 1
  let db : Database := { db with nextUuid := db.nextUuid + 2 }
  let db ← db.prepareContentSegment volume segment
  let db : Database := { db with
    contentObjects := db.contentObjects ++
      [{ id := object, volumeId := volume, byteSize := 0, segmentId := some segment }] }
  let (blocks, total) ← writeBlocks reader 0 0 1
  let rows : List ContentBlock := blocks.map fun block =>
    { toLineBlock := block, objectId := object, volumeId := volume, segmentId := some segment }
  let db ← (db.stageBlocks segment rows).publishContentSegment volume segment
  db.publishContent volume target object total now

end PostgreOS
