/-
The content store.

Every object has the blocks of one text, of the recorded size, and belongs to a
published segment or to none. Moving inline text to blocks adds objects and changes
no content; reclaiming drops segments that no entry refers to.
-/

import PostgreOS.Keys
import PostgreOS.Splitting

namespace PostgreOS

open Library.LineBlocks Library.Outcome Library.Table

def Database.blockRows (db : Database) (object : Uuid) : List ContentBlock :=
  db.allContentBlocks.filter fun block => block.objectId = object

/-- The blocks of an object spell a text of the recorded size. -/
def ObjectBlocks (db : Database) (object : ContentObject) : Prop :=
  ∃ content, BlocksOf content ((db.blockRows object.id).map ContentBlock.toLineBlock) ∧
    octetLength content = object.byteSize

def ContentSegment.table (stored : ContentSegment) : SegmentTable :=
  { segment := stored.id, parent := stored.volumeId }

structure StoreSound (db : Database) : Prop where
  object_ids : (db.contentObjects.map ContentObject.id).Nodup
  object_bound : ∀ object ∈ db.contentObjects, object.id < db.nextUuid
  object_segment : ∀ object ∈ db.contentObjects, ∀ segment, object.segmentId = some segment →
    ∃ stored ∈ db.contentSegments, stored.id = segment ∧ stored.volumeId = object.volumeId
  object_blocks : ∀ object ∈ db.contentObjects, ObjectBlocks db object
  block_object : ∀ block ∈ db.contentBlocks, block.segmentId = none ∧
    ∃ object ∈ db.contentObjects, object.id = block.objectId ∧ object.segmentId = none
  bulk_object : ∀ block ∈ db.bulkContentBlocks, block.segmentId ≠ none ∧
    ∃ object ∈ db.contentObjects, object.id = block.objectId ∧ object.segmentId = block.segmentId
  segment_ids : (db.contentSegments.map ContentSegment.id).Nodup
  segment_bound : ∀ stored ∈ db.contentSegments, stored.id < db.nextUuid
  segment_published : ∀ stored ∈ db.contentSegments, stored.published = true
  segment_tables : db.segmentTables = db.contentSegments.map ContentSegment.table
  staging_bound : ∀ schema ∈ db.stagingSchemas, schema.1 < db.nextUuid

theorem StoreSound.segment_table {db : Database} (store : StoreSound db) {stored : ContentSegment}
    (member : stored ∈ db.contentSegments) : stored.table ∈ db.segmentTables :=
  store.segment_tables ▸ List.mem_map_of_mem member

/-- Inline content has the recorded size, and text contains no NUL. -/
def FileData.Inline (data : FileData) (size : Nat) : Prop :=
  match data with
  | .text content => octetLength content = size ∧ '\x00' ∉ content
  | .binary content => content.length = size

/-- The content columns of an entry agree with its size and with the objects. -/
def Stored (objects : List ContentObject) (entry : ZoneEntry) : Prop :=
  match entry.payload with
  | .file data none => data.Inline entry.size
  | .file data (some object) => data = .text [] ∧ ∃ stored ∈ objects,
      stored.id = object ∧ stored.volumeId = entry.volumeId ∧ stored.byteSize = entry.size
  | .directory => True
  | .symlink _ => True

/-- The bytes of a regular file. -/
def Database.contentOf (db : Database) (entry : ZoneEntry) : Option Bytes :=
  match entry.payload with
  | .file data none => some data.bytes
  | .file _ (some object) => some (convertTo (db.objectText object))
  | _ => none

theorem Stored.mono {objects others : List ContentObject} {entry : ZoneEntry}
    (stored : Stored objects entry)
    (kept : ∀ object ∈ objects, entry.contentObject = some object.id → object ∈ others) :
    Stored others entry := by
  unfold Stored at stored ⊢
  cases payload : entry.payload with
  | file data reference =>
      rw [payload] at stored
      cases reference with
      | none => exact stored
      | some object =>
          obtain ⟨empty, found, member, same, rest⟩ := stored
          refine ⟨empty, found, kept found member ?_, same, rest⟩
          rw [ZoneEntry.contentObject, payload, same]
  | directory => trivial
  | symlink target => trivial

theorem Stored.object {objects : List ContentObject} {entry : ZoneEntry} {object : Uuid}
    (stored : Stored objects entry) (refers : entry.contentObject = some object) :
    entry.payload = .file (.text []) (some object) ∧ ∃ found ∈ objects,
      found.id = object ∧ found.volumeId = entry.volumeId ∧ found.byteSize = entry.size := by
  unfold ZoneEntry.contentObject at refers
  unfold Stored at stored
  cases payload : entry.payload with
  | file data reference =>
      rw [payload] at refers stored
      simp only at refers
      subst refers
      obtain ⟨empty, found⟩ := stored
      rw [empty]
      exact ⟨rfl, found⟩
  | directory =>
      rw [payload] at refers
      cases refers
  | symlink target =>
      rw [payload] at refers
      cases refers

theorem StoreSound.object_eq {db : Database} (sound : StoreSound db) {first second : ContentObject}
    (hFirst : first ∈ db.contentObjects) (hSecond : second ∈ db.contentObjects)
    (same : first.id = second.id) : first = second :=
  List.inj_on_of_nodup_map sound.object_ids hFirst hSecond same

theorem objectBlocks_eq_blockRows {db : Database} {object : Uuid} {content : Text}
    (blocks : BlocksOf content ((db.blockRows object).map ContentBlock.toLineBlock)) :
    db.objectBlocks object = db.blockRows object := by
  apply List.Pairwise.insertionSort_eq
  have ordinals := ChainFrom.ordinals blocks.1
  rw [List.map_map, List.length_map] at ordinals
  have increasing : ((db.blockRows object).map fun block => block.ordinal).Pairwise (· ≤ ·) := by
    have same : (db.blockRows object).map (fun block => block.ordinal) =
        List.range' 0 (db.blockRows object).length := ordinals
    rw [same]
    exact List.pairwise_le_range'
  rw [List.pairwise_map] at increasing
  exact increasing.imp fun ordered => by simpa using ordered

theorem objectText_eq {db : Database} {object : Uuid} {content : Text}
    (blocks : BlocksOf content ((db.blockRows object).map ContentBlock.toLineBlock)) :
    db.objectText object = content := by
  unfold Database.objectText
  rw [objectBlocks_eq_blockRows blocks, ← blocks.2.1]
  unfold text
  rw [List.flatMap_map]

/-- New objects with their blocks, and the segments they lie in. -/
structure StoreExtension (db after : Database) (objects : List ContentObject)
    (plain bulk : List ContentBlock) (segments : List ContentSegment) : Prop where
  bound : db.nextUuid ≤ after.nextUuid
  objects_eq : after.contentObjects = db.contentObjects ++ objects
  plain_eq : after.contentBlocks = db.contentBlocks ++ plain
  bulk_eq : after.bulkContentBlocks = db.bulkContentBlocks ++ bulk
  segments_eq : after.contentSegments = db.contentSegments ++ segments
  tables_eq : after.segmentTables = db.segmentTables ++ segments.map ContentSegment.table
  staging : ∀ schema ∈ after.stagingSchemas, schema.1 < after.nextUuid
  object_fresh : ∀ object ∈ objects, db.nextUuid ≤ object.id ∧ object.id < after.nextUuid
  object_ids : (objects.map ContentObject.id).Nodup
  object_segment : ∀ object ∈ objects, ∀ segment, object.segmentId = some segment →
    ∃ stored ∈ segments, stored.id = segment ∧ stored.volumeId = object.volumeId
  object_blocks : ∀ object ∈ objects, ∃ content,
    BlocksOf content (((plain ++ bulk).filter fun block => block.objectId = object.id).map
      ContentBlock.toLineBlock) ∧ octetLength content = object.byteSize
  plain_object : ∀ block ∈ plain, block.segmentId = none ∧
    ∃ object ∈ objects, object.id = block.objectId ∧ object.segmentId = none
  bulk_object : ∀ block ∈ bulk, block.segmentId ≠ none ∧
    ∃ object ∈ objects, object.id = block.objectId ∧ object.segmentId = block.segmentId
  segment_fresh : ∀ stored ∈ segments, db.nextUuid ≤ stored.id ∧ stored.id < after.nextUuid
  segment_ids : (segments.map ContentSegment.id).Nodup
  segment_published : ∀ stored ∈ segments, stored.published = true

section Extension

variable {db after : Database} {objects : List ContentObject} {plain bulk : List ContentBlock}
  {segments : List ContentSegment} (sound : StoreSound db)
  (extension : StoreExtension db after objects plain bulk segments)

include sound

theorem StoreSound.block_bound {block : ContentBlock} (member : block ∈ db.allContentBlocks) :
    block.objectId < db.nextUuid := by
  rcases List.mem_append.mp member with inPlain | inBulk
  · obtain ⟨-, object, objectMember, same, -⟩ := sound.block_object block inPlain
    rw [← same]
    exact sound.object_bound object objectMember
  · obtain ⟨-, object, objectMember, same, -⟩ := sound.bulk_object block inBulk
    rw [← same]
    exact sound.object_bound object objectMember

theorem StoreSound.blockRows_of_fresh {object : Uuid} (fresh : db.nextUuid ≤ object) :
    db.blockRows object = [] := by
  unfold Database.blockRows
  rw [List.filter_eq_nil_iff]
  intro block member same
  have bound := sound.block_bound member
  rw [of_decide_eq_true same] at bound
  exact absurd fresh (Nat.not_le_of_lt bound)

include extension

omit sound in
theorem StoreExtension.blockRows_of_old {object : Uuid} (old : object < db.nextUuid) :
    after.blockRows object = db.blockRows object := by
  have foreign (blocks : List ContentBlock)
      (owned : ∀ block ∈ blocks, ∃ owner ∈ objects, owner.id = block.objectId) :
      blocks.filter (fun block => decide (block.objectId = object)) = [] := by
    rw [List.filter_eq_nil_iff]
    intro block member same
    obtain ⟨owner, ownerMember, ownerId⟩ := owned block member
    have fresh := (extension.object_fresh owner ownerMember).1
    rw [ownerId, of_decide_eq_true same] at fresh
    exact absurd fresh (Nat.not_le_of_lt old)
  have newPlain := foreign plain fun block member =>
    let ⟨_, owner, ownerMember, ownerId, _⟩ := extension.plain_object block member
    ⟨owner, ownerMember, ownerId⟩
  have newBulk := foreign bulk fun block member =>
    let ⟨_, owner, ownerMember, ownerId, _⟩ := extension.bulk_object block member
    ⟨owner, ownerMember, ownerId⟩
  unfold Database.blockRows Database.allContentBlocks
  rw [extension.plain_eq, extension.bulk_eq]
  simp only [List.filter_append, newPlain, newBulk, List.append_nil]

theorem StoreExtension.blockRows_of_new {object : ContentObject} (new : object ∈ objects) :
    after.blockRows object.id =
      (plain ++ bulk).filter fun block => block.objectId = object.id := by
  have none := sound.blockRows_of_fresh (extension.object_fresh object new).1
  unfold Database.blockRows Database.allContentBlocks at none ⊢
  rw [List.filter_append] at none
  obtain ⟨noPlain, noBulk⟩ := List.append_eq_nil_iff.mp none
  rw [extension.plain_eq, extension.bulk_eq]
  simp only [List.filter_append, noPlain, noBulk, List.nil_append]

theorem StoreExtension.storeSound : StoreSound after where
  object_ids := by
    rw [extension.objects_eq, List.map_append, List.nodup_append]
    refine ⟨sound.object_ids, extension.object_ids, ?_⟩
    intro old oldMember new newMember
    obtain ⟨object, member, rfl⟩ := List.mem_map.mp oldMember
    obtain ⟨other, otherMember, rfl⟩ := List.mem_map.mp newMember
    exact Nat.ne_of_lt (Nat.lt_of_lt_of_le (sound.object_bound object member)
      (extension.object_fresh other otherMember).1)
  object_bound := by
    rw [extension.objects_eq]
    intro object member
    rcases List.mem_append.mp member with old | new
    · exact Nat.lt_of_lt_of_le (sound.object_bound object old) extension.bound
    · exact (extension.object_fresh object new).2
  object_segment := by
    rw [extension.objects_eq, extension.segments_eq]
    intro object member segment inSegment
    rcases List.mem_append.mp member with old | new
    · obtain ⟨stored, storedMember, found⟩ := sound.object_segment object old segment inSegment
      exact ⟨stored, List.mem_append_left _ storedMember, found⟩
    · obtain ⟨stored, storedMember, found⟩ := extension.object_segment object new segment inSegment
      exact ⟨stored, List.mem_append_right _ storedMember, found⟩
  object_blocks := by
    rw [extension.objects_eq]
    intro object member
    rcases List.mem_append.mp member with old | new
    · unfold ObjectBlocks
      rw [extension.blockRows_of_old (sound.object_bound object old)]
      exact sound.object_blocks object old
    · unfold ObjectBlocks
      rw [extension.blockRows_of_new sound new]
      exact extension.object_blocks object new
  block_object := by
    rw [extension.objects_eq, extension.plain_eq]
    intro block member
    rcases List.mem_append.mp member with old | new
    · obtain ⟨noSegment, object, objectMember, found⟩ := sound.block_object block old
      exact ⟨noSegment, object, List.mem_append_left _ objectMember, found⟩
    · obtain ⟨noSegment, object, objectMember, found⟩ := extension.plain_object block new
      exact ⟨noSegment, object, List.mem_append_right _ objectMember, found⟩
  bulk_object := by
    rw [extension.objects_eq, extension.bulk_eq]
    intro block member
    rcases List.mem_append.mp member with old | new
    · obtain ⟨inSegment, object, objectMember, found⟩ := sound.bulk_object block old
      exact ⟨inSegment, object, List.mem_append_left _ objectMember, found⟩
    · obtain ⟨inSegment, object, objectMember, found⟩ := extension.bulk_object block new
      exact ⟨inSegment, object, List.mem_append_right _ objectMember, found⟩
  segment_ids := by
    rw [extension.segments_eq, List.map_append, List.nodup_append]
    refine ⟨sound.segment_ids, extension.segment_ids, ?_⟩
    intro old oldMember new newMember
    obtain ⟨stored, member, rfl⟩ := List.mem_map.mp oldMember
    obtain ⟨other, otherMember, rfl⟩ := List.mem_map.mp newMember
    exact Nat.ne_of_lt (Nat.lt_of_lt_of_le (sound.segment_bound stored member)
      (extension.segment_fresh other otherMember).1)
  segment_bound := by
    rw [extension.segments_eq]
    intro stored member
    rcases List.mem_append.mp member with old | new
    · exact Nat.lt_of_lt_of_le (sound.segment_bound stored old) extension.bound
    · exact (extension.segment_fresh stored new).2
  segment_published := by
    rw [extension.segments_eq]
    intro stored member
    rcases List.mem_append.mp member with old | new
    · exact sound.segment_published stored old
    · exact extension.segment_published stored new
  segment_tables := by
    rw [extension.tables_eq, extension.segments_eq, sound.segment_tables, List.map_append]
  staging_bound := extension.staging

end Extension

/-! ### Publishing a segment -/

def publishedSegment (volume segment : Uuid) : ContentSegment :=
  { id := segment, volumeId := volume, published := true }

theorem prepareContentSegment_ok {db after : Database} {volume segment : Uuid}
    (prepared : db.prepareContentSegment volume segment = .ok after) :
    after = { db with
      contentSegments := db.contentSegments ++
        [{ id := segment, volumeId := volume, published := false }]
      stagingSchemas := db.stagingSchemas ++ [(segment, [])] } := by
  unfold Database.prepareContentSegment at prepared
  split at prepared
  · cases prepared
  · exact (Except.ok.inj prepared).symm

theorem staging_of_fresh {schemas : List (Uuid × List ContentBlock)} {segment : Uuid}
    (fresh : ∀ schema ∈ schemas, schema.1 ≠ segment) (blocks : List ContentBlock) :
    (schemas ++ [(segment, [])]).map (fun schema : Uuid × List ContentBlock =>
      if schema.1 = segment then (schema.1, schema.2 ++ blocks) else schema) =
        schemas ++ [(segment, blocks)] := by
  have old : schemas.map (fun schema : Uuid × List ContentBlock =>
      if schema.1 = segment then (schema.1, schema.2 ++ blocks) else schema) = schemas := by
    conv => rhs; rw [← List.map_id schemas]
    apply List.map_congr_left
    intro schema member
    rw [if_neg (fresh schema member)]
    rfl
  rw [List.map_append, old]
  simp

theorem stagedBlocks_of_fresh {staged : Database} {schemas : List (Uuid × List ContentBlock)}
    {segment : Uuid} {blocks : List ContentBlock} (fresh : ∀ schema ∈ schemas, schema.1 ≠ segment)
    (staging : staged.stagingSchemas = schemas ++ [(segment, blocks)]) :
    staged.stagedBlocks segment = blocks := by
  unfold Database.stagedBlocks
  have noneOld : schemas.filter (fun schema => decide (schema.1 = segment)) = [] := by
    rw [List.filter_eq_nil_iff]
    intro schema member same
    exact fresh schema member (of_decide_eq_true same)
  rw [staging, List.filter_append, noneOld]
  simp

/-- Publishing moves the staged rows of a fresh segment to the bulk table. -/
theorem publishContentSegment_ok (db : Database) (blocks : List ContentBlock)
    {staged after : Database} {volume segment : Uuid} (freshStaging : ∀ schema ∈ db.stagingSchemas, schema.1 ≠ segment)
    (freshSegment : ∀ stored ∈ db.contentSegments, stored.id ≠ segment)
    (staging : staged.stagingSchemas = (db.stagingSchemas ++ [(segment, [])]).map
      fun schema : Uuid × List ContentBlock =>
        if schema.1 = segment then (schema.1, schema.2 ++ blocks) else schema)
    (segments : staged.contentSegments = db.contentSegments ++
      [{ id := segment, volumeId := volume, published := false }])
    (published : staged.publishContentSegment volume segment = .ok after) :
    after = { staged with
      bulkContentBlocks := staged.bulkContentBlocks ++ blocks
      segmentTables := staged.segmentTables ++ [{ segment := segment, parent := volume }]
      stagingSchemas := db.stagingSchemas
      contentSegments := db.contentSegments ++ [publishedSegment volume segment] } := by
  rw [staging_of_fresh freshStaging] at staging
  have rows := stagedBlocks_of_fresh freshStaging staging
  have kept : staged.stagingSchemas.filter (fun schema => decide (schema.1 ≠ segment)) =
      db.stagingSchemas := by
    have allOld : db.stagingSchemas.filter (fun schema => decide (schema.1 ≠ segment)) =
        db.stagingSchemas := by
      rw [List.filter_eq_self]
      exact fun schema member => decide_eq_true (freshStaging schema member)
    rw [staging, List.filter_append, allOld]
    simp
  have marked : staged.contentSegments.map (fun stored =>
      if stored.id = segment then { stored with published := true } else stored) =
        db.contentSegments ++ [publishedSegment volume segment] := by
    have allOld : db.contentSegments.map (fun stored =>
        if stored.id = segment then { stored with published := true } else stored) =
          db.contentSegments := by
      conv => rhs; rw [← List.map_id db.contentSegments]
      apply List.map_congr_left
      intro stored member
      rw [if_neg (freshSegment stored member)]
      rfl
    rw [segments, List.map_append, allOld]
    simp [publishedSegment]
  unfold Database.publishContentSegment at published
  dsimp only at published
  split at published
  · cases published
  · split at published
    · cases published
    · split at published
      · cases published
      · rw [← Except.ok.inj published, rows, kept, marked]

theorem publishContentSegment_exists {staged : Database} {volume segment : Uuid}
    {schemas : List (Uuid × List ContentBlock)} {blocks : List ContentBlock}
    (fresh : ∀ schema ∈ schemas, schema.1 ≠ segment)
    (ready : { id := segment, volumeId := volume, published := false } ∈ staged.contentSegments)
    (staging : staged.stagingSchemas = schemas ++ [(segment, blocks)])
    (own : ∀ block ∈ blocks, block.segmentId = some segment ∧ block.volumeId = volume)
    (known : volume ∈ staged.volumeTables) :
    ∃ after, staged.publishContentSegment volume segment = .ok after := by
  unfold Database.publishContentSegment
  dsimp only
  rw [if_neg, if_neg, if_neg (not_not.mpr known)]
  · exact ⟨_, rfl⟩
  · rw [not_not, stagedBlocks_of_fresh fresh staging, List.filter_eq_nil_iff]
    intro block member
    simp [own block member]
  · rw [List.filter_eq_nil_iff]
    exact fun none => none _ ready (decide_eq_true ⟨rfl, rfl, rfl⟩)

/-! ### Reclaiming segments -/

theorem reclaimSegment_ok {db after : Database} {segment : Uuid}
    (reclaimed : db.reclaimSegment segment = .ok after) :
    after = { db with
      segmentTables := db.segmentTables.filter fun table => table.segment ≠ segment
      bulkContentBlocks := db.bulkContentBlocks.filter fun block => block.segmentId ≠ some segment
      contentBlocks := db.contentBlocks.filter fun block =>
        block.objectId ∉ objectsOfSegment segment db.contentObjects
      contentObjects := db.contentObjects.filter fun object => object.segmentId ≠ some segment
      contentSegments := db.contentSegments.filter fun stored => stored.id ≠ segment } ∧
      ∀ entry ∈ db.zoneEntries, ∀ object ∈ db.contentObjects, object.segmentId = some segment →
        entry.contentObject ≠ some object.id := by
  unfold Database.reclaimSegment at reclaimed
  dsimp only at reclaimed
  split at reclaimed
  · cases reclaimed
  · split at reclaimed
    · cases reclaimed
    · rename_i unused
      refine ⟨(Except.ok.inj reclaimed).symm, ?_⟩
      intro entry member object objectMember inSegment refers
      apply unused
      simp only [List.any_eq_true, decide_eq_true_eq]
      refine ⟨entry, member, object.id, ?_, refers⟩
      exact List.mem_map.mpr ⟨object, List.mem_filter.mpr ⟨objectMember, decide_eq_true inSegment⟩, rfl⟩

/-- What reclaiming keeps: the tables other than those of the content store, and of the
store everything that an entry refers to. -/
structure Reclaimed (db after : Database) : Prop where
  tables : SameTables db after
  nextUuid : after.nextUuid = db.nextUuid
  store : StoreSound after
  stored : ∀ entry ∈ after.zoneEntries, Stored after.contentObjects entry
  objects_sub : ∀ object ∈ after.contentObjects, object ∈ db.contentObjects
  segments_sub : ∀ stored ∈ after.contentSegments, stored ∈ db.contentSegments
  blocks : ∀ entry ∈ db.zoneEntries, ∀ object, entry.contentObject = some object →
    after.blockRows object = db.blockRows object

section Reclaim

variable {db after : Database} (sound : StoreSound db)
  (stored : ∀ entry ∈ db.zoneEntries, Stored db.contentObjects entry)

include sound

/-- The rows of an object outside the reclaimed segment stay. -/
theorem blockRows_of_reclaimSegment {segment : Uuid} {object : ContentObject}
    (reclaimed : db.reclaimSegment segment = .ok after) (member : object ∈ db.contentObjects)
    (outside : object.segmentId ≠ some segment) :
    after.blockRows object.id = db.blockRows object.id := by
  rw [(reclaimSegment_ok reclaimed).1]
  have unlisted : object.id ∉ objectsOfSegment segment db.contentObjects := by
    intro listed
    obtain ⟨other, otherMember, same⟩ := List.mem_map.mp listed
    obtain ⟨inTable, inSegment⟩ := List.mem_filter.mp otherMember
    rw [sound.object_eq inTable member same] at inSegment
    exact outside (of_decide_eq_true inSegment)
  unfold Database.blockRows Database.allContentBlocks
  simp only [List.filter_append, List.filter_filter]
  congr 1
  · apply List.filter_congr
    intro block _
    by_cases same : block.objectId = object.id
    · simp [same, unlisted]
    · simp [same]
  · apply List.filter_congr
    intro block blockMember
    by_cases same : block.objectId = object.id
    · obtain ⟨-, owner, ownerMember, ownerId, ownerSegment⟩ := sound.bulk_object block blockMember
      rw [sound.object_eq ownerMember member (ownerId.trans same)] at ownerSegment
      rw [← ownerSegment]
      simp [same, outside]
    · simp [same]

include stored

theorem Reclaimed.of_segment {segment : Uuid}
    (reclaimed : db.reclaimSegment segment = .ok after) : Reclaimed db after := by
  obtain ⟨shape, unused⟩ := reclaimSegment_ok reclaimed
  have objects : after.contentObjects =
      db.contentObjects.filter fun object => object.segmentId ≠ some segment := by rw [shape]
  have rows {object : ContentObject} (member : object ∈ after.contentObjects) :
      object ∈ db.contentObjects ∧ object.segmentId ≠ some segment ∧
        after.blockRows object.id = db.blockRows object.id := by
    rw [objects] at member
    obtain ⟨old, outside⟩ := List.mem_filter.mp member
    have apart := of_decide_eq_true outside
    exact ⟨old, apart, blockRows_of_reclaimSegment sound reclaimed old apart⟩
  have stays {object : ContentObject} (member : object ∈ db.contentObjects)
      (outside : object.segmentId ≠ some segment) : object ∈ after.contentObjects := by
    rw [objects]
    exact List.mem_filter.mpr ⟨member, decide_eq_true outside⟩
  refine
    { tables := by
        rw [shape]
        exact ⟨rfl, rfl, rfl, rfl, rfl⟩
      nextUuid := by rw [shape]
      store := ?_
      stored := ?_
      objects_sub := fun object member => (rows member).1
      segments_sub := ?_
      blocks := ?_ }
  · constructor
    · rw [objects]
      exact sound.object_ids.sublist (List.filter_sublist.map ContentObject.id)
    · intro object member
      rw [shape]
      exact sound.object_bound object (rows member).1
    · intro object member inner inSegment
      obtain ⟨old, outside, -⟩ := rows member
      obtain ⟨found, foundMember, same, volume⟩ := sound.object_segment object old inner inSegment
      refine ⟨found, ?_, same, volume⟩
      rw [shape]
      refine List.mem_filter.mpr ⟨foundMember, decide_eq_true ?_⟩
      rintro rfl
      exact outside (by rw [inSegment, same])
    · intro object member
      obtain ⟨old, -, same⟩ := rows member
      unfold ObjectBlocks
      rw [same]
      exact sound.object_blocks object old
    · intro block member
      rw [shape] at member
      obtain ⟨old, -⟩ := List.mem_filter.mp member
      obtain ⟨noSegment, object, objectMember, same, objectSegment⟩ := sound.block_object block old
      exact ⟨noSegment, object, stays objectMember (by rw [objectSegment]; simp), same, objectSegment⟩
    · intro block member
      rw [shape] at member
      obtain ⟨old, outside⟩ := List.mem_filter.mp member
      obtain ⟨inSegment, object, objectMember, same, objectSegment⟩ := sound.bulk_object block old
      exact ⟨inSegment, object,
        stays objectMember (by rw [objectSegment]; exact of_decide_eq_true outside), same,
        objectSegment⟩
    · rw [shape]
      exact sound.segment_ids.sublist (List.filter_sublist.map ContentSegment.id)
    · intro found member
      rw [shape] at member ⊢
      exact sound.segment_bound found (List.mem_of_mem_filter member)
    · intro found member
      rw [shape] at member
      exact sound.segment_published found (List.mem_of_mem_filter member)
    · rw [shape]
      exact (congrArg (List.filter _) sound.segment_tables).trans List.filter_map
    · rw [shape]
      exact sound.staging_bound
  · intro entry member
    rw [shape] at member
    refine (stored entry member).mono fun object objectMember refers => stays objectMember ?_
    intro inSegment
    exact unused entry member object objectMember inSegment refers
  · intro found member
    rw [shape] at member
    exact List.mem_of_mem_filter member
  · intro entry member object refers
    obtain ⟨-, found, foundMember, rfl, -⟩ := (stored entry member).object refers
    refine blockRows_of_reclaimSegment sound reclaimed foundMember ?_
    intro inSegment
    exact unused entry member found foundMember inSegment refers

theorem Reclaimed.refl : Reclaimed db db where
  tables := .refl db
  nextUuid := rfl
  store := sound
  stored := stored
  objects_sub := fun _ member => member
  segments_sub := fun _ member => member
  blocks := fun _ _ _ _ => rfl

omit sound stored in
theorem Reclaimed.trans {middle : Database} (first : Reclaimed db middle)
    (second : Reclaimed middle after) : Reclaimed db after where
  tables := first.tables.trans second.tables
  nextUuid := second.nextUuid.trans first.nextUuid
  store := second.store
  stored := second.stored
  objects_sub := fun object member => first.objects_sub object (second.objects_sub object member)
  segments_sub := fun found member => first.segments_sub found (second.segments_sub found member)
  blocks := by
    intro entry member object refers
    rw [second.blocks entry (first.tables.zoneEntries ▸ member) object refers]
    exact first.blocks entry member object refers

theorem Reclaimed.of_reclaim {volume : Uuid}
    (reclaimed : db.reclaimContentSegments volume = .ok after) : Reclaimed db after := by
  refine foldlM_invariant (Reclaimed db) ?_ (.refl sound stored) reclaimed
  intro state segment next _ soFar stepped
  exact soFar.trans (.of_segment soFar.store soFar.stored stepped)

omit sound stored in
theorem reclaimSegment_of_unused {segment : Uuid} (table : segment ∈ db.segmentTables.map SegmentTable.segment)
    (unused : ∀ entry ∈ db.zoneEntries, ∀ object ∈ db.contentObjects,
      object.segmentId = some segment → entry.contentObject ≠ some object.id) :
    ∃ after, db.reclaimSegment segment = .ok after := by
  unfold Database.reclaimSegment
  dsimp only
  rw [if_neg (by simpa using table), if_neg]
  · exact ⟨_, rfl⟩
  · intro used
    simp only [List.any_eq_true, decide_eq_true_eq] at used
    obtain ⟨entry, member, id, listed, refers⟩ := used
    obtain ⟨object, objectMember, rfl⟩ := List.mem_map.mp listed
    obtain ⟨inTable, inSegment⟩ := List.mem_filter.mp objectMember
    exact unused entry member object inTable (of_decide_eq_true inSegment) refers

omit sound stored in
/-- The loop drops one segment after the other; what it drops leaves the others alone. -/
theorem reclaimLoop_ok {segments : List Uuid} (nodup : segments.Nodup)
    (tables : ∀ segment ∈ segments, segment ∈ db.segmentTables.map SegmentTable.segment)
    (unused : ∀ segment ∈ segments, ∀ entry ∈ db.zoneEntries, ∀ object ∈ db.contentObjects,
      object.segmentId = some segment → entry.contentObject ≠ some object.id) :
    ∃ after, segments.foldlM Database.reclaimSegment db = .ok after := by
  induction segments generalizing db with
  | nil => exact ⟨db, rfl⟩
  | cons segment rest ih =>
      rw [List.nodup_cons] at nodup
      obtain ⟨middle, reclaimed⟩ := reclaimSegment_of_unused
        (tables segment List.mem_cons_self) (unused segment List.mem_cons_self)
      obtain ⟨shape, -⟩ := reclaimSegment_ok reclaimed
      rw [List.foldlM_cons, reclaimed, ok_bind]
      apply ih nodup.2
      · intro other member
        rw [shape]
        obtain ⟨table, listed, rfl⟩ := List.mem_map.mp (tables other (List.mem_cons_of_mem _ member))
        refine List.mem_map_of_mem (List.mem_filter.mpr ⟨listed, decide_eq_true ?_⟩)
        rintro rfl
        exact nodup.1 member
      · intro other member entry entryMember object objectMember
        rw [shape] at entryMember objectMember
        exact unused other (List.mem_cons_of_mem _ member) entry entryMember object
          (List.mem_of_mem_filter objectMember)

/-- Reclaiming never fails on a sound store: a segment is dropped only when no entry of
its own volume refers to it, and entries of other volumes cannot. -/
theorem reclaimContentSegments_ok (volume : Uuid) :
    ∃ after, db.reclaimContentSegments volume = .ok after := by
  apply reclaimLoop_ok
  · exact sound.segment_ids.sublist (List.filter_sublist.map ContentSegment.id)
  · intro segment member
    obtain ⟨found, foundMember, rfl⟩ := List.mem_map.mp member
    exact List.mem_map_of_mem (sound.segment_table (List.mem_of_mem_filter foundMember))
  · intro segment member entry entryMember object objectMember inSegment refers
    obtain ⟨found, foundMember, rfl⟩ := List.mem_map.mp member
    obtain ⟨inTable, idle⟩ := List.mem_filter.mp foundMember
    obtain ⟨inVolume, -, noUse⟩ := of_decide_eq_true idle
    obtain ⟨-, target, targetMember, targetId, targetVolume, -⟩ :=
      (stored entry entryMember).object refers
    obtain ⟨owner, ownerMember, ownerId, ownerVolume⟩ :=
      sound.object_segment object objectMember found.id inSegment
    rw [sound.object_eq targetMember objectMember targetId] at targetVolume
    rw [List.inj_on_of_nodup_map sound.segment_ids ownerMember inTable ownerId] at ownerVolume
    apply noUse
    simp only [List.any_eq_true, decide_eq_true_eq]
    exact ⟨object, objectMember, inSegment, entry, entryMember,
      targetVolume.symm.trans (ownerVolume.symm.trans inVolume), refers⟩

end Reclaim

theorem objectText_congr {db after : Database} {object : Uuid}
    (same : after.blockRows object = db.blockRows object) :
    after.objectText object = db.objectText object := by
  unfold Database.objectText Database.objectBlocks
  unfold Database.blockRows at same
  rw [same]

end PostgreOS
