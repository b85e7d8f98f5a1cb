/-
Content objects and their blocks.

Text files written in one piece are moved to content objects whose blocks end at
line boundaries. Ordinary writes store the blocks in `content_blocks`; imports
store them in a segment of `bulk_content_blocks` that is dropped as a whole when
no entry of the volume refers to an object of the segment any more. Universally
unique ids are drawn from a counter, so fresh ids never collide.
-/

import PostgreOS.Zones

namespace PostgreOS

open Library.LineBlocks Library.Table

/-- `position(byte IN data)`. -/
def bytePosition (byte : UInt8) (data : Bytes) : Nat :=
  if byte ∈ data then data.idxOf byte + 1 else 0

/-- `next_bytes` and the new `remaining` of one round of `split_text_blocks`. -/
def cutBlock (targetBytes : Nat) (remaining : Bytes) : Bytes × Bytes :=
  if remaining.length ≤ targetBytes then (remaining, [])
  else if bytePosition newlineByte (remaining.drop targetBytes) = 0 then (remaining, [])
  else
    let newlineOffset := targetBytes + bytePosition newlineByte (remaining.drop targetBytes)
    (remaining.take newlineOffset, remaining.drop newlineOffset)

theorem cutBlock_shrinks (targetBytes : Nat) {remaining : Bytes} (nonempty : remaining ≠ []) :
    (cutBlock targetBytes remaining).2.length < remaining.length := by
  have positive := List.length_pos_of_ne_nil nonempty
  unfold cutBlock
  split
  · exact positive
  · split
    · exact positive
    · simp only [List.length_drop]
      omega

/-- The loop of `split_text_blocks`. -/
def splitLoop (targetBytes : Nat) (remaining : Bytes) (nextOrdinal nextByteOffset nextFirstLine : Nat) :
    Result (List (LineBlock Char)) :=
  if remaining = [] then .ok []
  else
    match convertFrom (cutBlock targetBytes remaining).1 with
    | none => raise "22021" "invalid byte sequence for encoding" []
    | some nextBody => do
        let later ← splitLoop targetBytes (cutBlock targetBytes remaining).2 (nextOrdinal + 1)
          (nextByteOffset + octetLength nextBody)
          (nextFirstLine + nextBody.length - (replaceChar '\n' [] nextBody).length)
        .ok ({ ordinal := nextOrdinal
               offset := nextByteOffset
               firstLine := nextFirstLine
               body := nextBody } :: later)
  termination_by remaining.length
  decreasing_by exact cutBlock_shrinks targetBytes ‹_›

/-- `pgos_private.split_text_blocks`. -/
def splitTextBlocks (content : Text) (targetBytes : Nat) : Result (List (LineBlock Char)) :=
  if targetBytes < 1 then raise "22023" "block size must be positive" []
  else splitLoop targetBytes (convertTo content) 0 0 1

/-! ### Segments -/

def uuidText (id : Uuid) : Text :=
  (Nat.repr id).toList

/-- `pgos_private.prepare_content_volume`. -/
def Database.prepareContentVolume (db : Database) (volume : Uuid) : Database :=
  if volume ∈ db.volumeTables then db
  else { db with volumeTables := db.volumeTables ++ [volume] }

theorem prepareContentVolume_eq (db : Database) (volume : Uuid) :
    ∃ tables, db.prepareContentVolume volume = { db with volumeTables := tables } ∧
      volume ∈ tables ∧ ∀ table ∈ db.volumeTables, table ∈ tables := by
  by_cases known : volume ∈ db.volumeTables
  · exact ⟨db.volumeTables, if_pos known, known, fun _ member => member⟩
  · exact ⟨db.volumeTables ++ [volume], if_neg known, by simp,
      fun _ member => List.mem_append_left _ member⟩

/-- `pgos_private.prepare_content_segment`. -/
def Database.prepareContentSegment (db : Database) (volume segment : Uuid) : Result Database :=
  if volume ∉ db.volumes.map Volume.id then raise "P0002" "volume does not exist: %" [uuidText volume]
  else .ok
    { db with
      contentSegments := db.contentSegments ++
        [{ id := segment, volumeId := volume, published := false }]
      stagingSchemas := db.stagingSchemas ++ [(segment, [])] }

def Database.stagedBlocks (db : Database) (segment : Uuid) : List ContentBlock :=
  (db.stagingSchemas.filter fun schema => schema.1 = segment).flatMap Prod.snd

/-- `INSERT` or `COPY` into the staging table of a segment. -/
def Database.stageBlocks (db : Database) (segment : Uuid) (blocks : List ContentBlock) : Database :=
  { db with
    stagingSchemas := db.stagingSchemas.map fun schema =>
      if schema.1 = segment then (schema.1, schema.2 ++ blocks) else schema }

/-- `pgos_private.publish_content_segment`. -/
def Database.publishContentSegment (db : Database) (volume segment : Uuid) : Result Database :=
  let ready := db.contentSegments.filter fun stored =>
    stored.id = segment ∧ stored.volumeId = volume ∧ stored.published = false
  let mismatched := (db.stagedBlocks segment).filter fun block =>
    block.segmentId ≠ some segment ∨ block.volumeId ≠ volume
  if ready = [] then raise "55000" "content segment is not ready: %" [uuidText segment]
  else if mismatched ≠ [] then raise "22023" "content segment staging does not match" []
  else if volume ∉ db.volumeTables then raise "55000" "content volume is not prepared: %" [uuidText volume]
  else .ok
    { db with
      bulkContentBlocks := db.bulkContentBlocks ++ db.stagedBlocks segment
      segmentTables := db.segmentTables ++ [{ segment := segment, parent := volume }]
      stagingSchemas := db.stagingSchemas.filter fun schema => schema.1 ≠ segment
      contentSegments := db.contentSegments.map fun stored =>
        if stored.id = segment then { stored with published := true } else stored }

def objectsOfSegment (segment : Uuid) (objects : List ContentObject) : List Uuid :=
  (objects.filter fun object => object.segmentId = some segment).map ContentObject.id

/-- One round of `reclaim_content_segments`. The delete of the objects fails while
an entry of any volume refers to one of them, and cascades to `content_blocks`. -/
def Database.reclaimSegment (db : Database) (segment : Uuid) : Result Database :=
  let objects := objectsOfSegment segment db.contentObjects
  if segment ∉ db.segmentTables.map SegmentTable.segment then raise "42P01" "table does not exist" []
  else if db.zoneEntries.any fun entry => objects.any fun object => entry.contentObject = some object
    then foreignKeyViolation
  else .ok
    { db with
      segmentTables := db.segmentTables.filter fun table => table.segment ≠ segment
      bulkContentBlocks := db.bulkContentBlocks.filter fun block => block.segmentId ≠ some segment
      contentBlocks := db.contentBlocks.filter fun block => block.objectId ∉ objects
      contentObjects := db.contentObjects.filter fun object => object.segmentId ≠ some segment
      contentSegments := db.contentSegments.filter fun stored => stored.id ≠ segment }

/-- The published segments of a volume without an object that an entry uses. -/
def Database.unusedSegments (db : Database) (volume : Uuid) : List Uuid :=
  (db.contentSegments.filter fun stored =>
    stored.volumeId = volume ∧ stored.published = true ∧
      ¬ (db.contentObjects.any fun object =>
        object.segmentId = some stored.id ∧
          (db.zoneEntries.any fun entry =>
            entry.volumeId = volume ∧ entry.contentObject = some object.id))).map
    ContentSegment.id

/-- `pgos_private.reclaim_content_segments`; the loop runs over one snapshot. -/
def Database.reclaimContentSegments (db : Database) (volume : Uuid) : Result Database :=
  (db.unusedSegments volume).foldlM Database.reclaimSegment db

/-! ### Moving inline text to blocks -/

/-- The entries of a zone that keep their text in the row. -/
def inlineText (volume : Uuid) (zone : NodeId) (entry : ZoneEntry) : Bool :=
  decide (entry.volumeId = volume ∧ entry.zoneId = zone ∧ entry.kind = .file ∧
    entry.textContent.isSome ∧ entry.contentObject = none)

/-- `CREATE TEMPORARY TABLE pgos_content_mapping`; it lives until the commit. -/
def Database.createContentMapping (db : Database) (volume : Uuid) (zone : NodeId) :
    Result Database :=
  if db.contentMapping.isSome then
    raise "42P07" "relation \"pgos_content_mapping\" already exists" []
  else
    let entries := db.zoneEntries.filter (inlineText volume zone)
    .ok
      { db with
        contentMapping := some (numbered db.nextUuid
          (entries.map fun entry objectId => (entry.id, objectId)))
        nextUuid := db.nextUuid + entries.length }

/-- The rows of the mapping joined with their entries. -/
def Database.mappedEntries (db : Database) (volume : Uuid) (zone : NodeId) :
    List (Uuid × ZoneEntry) :=
  (db.contentMapping.getD []).flatMap fun mapping =>
    (db.zoneEntries.filter fun entry =>
      entry.volumeId = volume ∧ entry.zoneId = zone ∧ entry.id = mapping.1).map fun entry =>
        (mapping.2, entry)

/-- The blocks of the mapped texts. -/
def Database.mappedBlocks (db : Database) (volume : Uuid) (zone : NodeId)
    (segment : Option Uuid) : Result (List ContentBlock) := do
  let blocks ← (db.mappedEntries volume zone).mapM fun mapped => do
    let split ← splitTextBlocks (mapped.2.textContent.getD []) 8192
    .ok (split.map fun block : LineBlock Char =>
      { toLineBlock := block
        objectId := mapped.1
        volumeId := volume
        segmentId := segment : ContentBlock })
  .ok blocks.flatten

/-- `content_object = object, text_content = ''`. -/
def detachText (object : Uuid) (entry : ZoneEntry) : ZoneEntry :=
  match entry.payload with
  | .file (.text _) _ => { entry with payload := .file (.text []) (some object) }
  | _ => entry

/-- The update at the end of both blockizing functions. -/
def Database.detachMapped (db : Database) (volume : Uuid) (zone : NodeId) : Result Database :=
  let mapping := db.contentMapping.getD []
  db.updateEntries
    (fun entry => decide (entry.volumeId = volume ∧ entry.zoneId = zone ∧
      entry.id ∈ mapping.map Prod.fst))
    fun entry =>
      match mapping.lookup entry.id with
      | some object => detachText object entry
      | none => entry

/-- The objects of the mapped texts. -/
def Database.mappedObjects (db : Database) (volume : Uuid) (zone : NodeId)
    (segment : Option Uuid) : List ContentObject :=
  (db.mappedEntries volume zone).map fun mapped =>
    { id := mapped.1, volumeId := volume, byteSize := mapped.2.size, segmentId := segment }

/-- `pgos_private.blockize_zone`. -/
def Database.blockizeZone (db : Database) (volume : Uuid) (zone : NodeId) : Result Database := do
  let db ← db.createContentMapping volume zone
  let db := { db with contentObjects := db.contentObjects ++ db.mappedObjects volume zone none }
  let blocks ← db.mappedBlocks volume zone none
  let db := { db with contentBlocks := db.contentBlocks ++ blocks }
  db.detachMapped volume zone

/-- `pgos_private.blockize_zone_segment`. -/
def Database.blockizeZoneSegment (db : Database) (volume : Uuid) (zone : NodeId) :
    Result Database := do
  let segment := db.nextUuid
  let db := { db with nextUuid := db.nextUuid + 1 }
  let db ← db.prepareContentSegment volume segment
  let db ← db.createContentMapping volume zone
  if db.contentMapping.getD [] = [] then
    .ok { db with contentSegments := db.contentSegments.filter fun stored => stored.id ≠ segment }
  else
    let db := { db with
      contentObjects := db.contentObjects ++ db.mappedObjects volume zone (some segment) }
    let blocks ← db.mappedBlocks volume zone (some segment)
    let db ← (db.stageBlocks segment blocks).detachMapped volume zone
    db.publishContentSegment volume segment

/-- The blocks of an object in the order of `string_agg(body, '' ORDER BY ordinal)`. -/
def Database.objectBlocks (db : Database) (object : Uuid) : List ContentBlock :=
  (db.allContentBlocks.filter fun block => block.objectId = object).insertionSort
    fun first second => first.ordinal ≤ second.ordinal

def Database.objectText (db : Database) (object : Uuid) : Text :=
  (db.objectBlocks object).flatMap fun block => block.body

/-- `pgos_private.entry_bytes(text, bytea)`. -/
def FileData.bytes : FileData → Bytes
  | .text content => convertTo content
  | .binary content => content

/-- `pgos_private.entry_bytes(text, bytea, uuid)`; 134217728 is 128 MiB. -/
def Database.entryBytes (db : Database) (data : FileData) (object : Option Uuid) : Result Bytes :=
  match object with
  | none => .ok data.bytes
  | some object =>
      if db.contentObjects.any fun stored => stored.id = object ∧ 134217728 < stored.byteSize then
        raise "54000" "large file requires the streaming or range API" []
      else .ok (convertTo (db.objectText object))

/-- `pgos.read_file`. -/
def Database.readFile (db : Database) (volume : Uuid) (target : Text) : Result Bytes := do
  let target ← assertPath target
  let location ← strict (db.locateZone volume target)
  if location.relativePath = [] then raise "42809" "not a regular file: %" [target]
  else
    match (db.entryAt volume location).map ZoneEntry.payload with
    | some (.file data object) => db.entryBytes data object
    | _ => raise "P0002" "path does not exist or is not a regular file: %" [target]

end PostgreOS
