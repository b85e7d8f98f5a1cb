/-
Volumes are isolated from each other.

All volumes share the tables. A call names one volume, and the rows of every other volume
stay as they are in each table, those of the content store included: the statements that
address objects, blocks and segments without their volume find rows of the named volume only.
-/

import PostgreOS.Effects
import PostgreOS.Library.Parts
import PostgreOS.SegmentLifecycle

namespace PostgreOS

open Library.Outcome Library.Parts Library.Table Library.Transition

/-- What the tables hold of one volume. -/
structure VolumeRows where
  volumes : List Volume
  zones : List Zone
  entries : List ZoneEntry
  objects : List ContentObject
  segments : List ContentSegment
  plainBlocks : List ContentBlock
  bulkBlocks : List ContentBlock
  volumeTables : List Uuid
  segmentTables : List SegmentTable
  deriving DecidableEq

def Database.rowsOf (db : Database) (volume : Uuid) : VolumeRows :=
  { volumes := db.volumes.filter fun stored => stored.id = volume
    zones := db.zonesOf volume
    entries := db.entriesOf volume
    objects := db.contentObjects.filter fun object => object.volumeId = volume
    segments := db.contentSegments.filter fun stored => stored.volumeId = volume
    plainBlocks := db.contentBlocks.filter fun block => block.volumeId = volume
    bulkBlocks := db.bulkContentBlocks.filter fun block => block.volumeId = volume
    volumeTables := db.volumeTables.filter fun table => table = volume
    segmentTables := db.segmentTables.filter fun table => table.parent = volume }

section Statements

variable {db after : Database} {volume other : Uuid}

theorem SameStore.rowsOf (same : SameStore db after)
    (volumes : after.volumes.filter (fun stored => decide (stored.id = other)) =
      db.volumes.filter fun stored => decide (stored.id = other))
    (zones : after.zonesOf other = db.zonesOf other)
    (entries : after.entriesOf other = db.entriesOf other)
    (tables : after.volumeTables = db.volumeTables) : after.rowsOf other = db.rowsOf other := by
  unfold Database.rowsOf
  rw [volumes, zones, entries, same.objects, same.segments, same.plain, same.bulk, tables,
    same.tables]

theorem entriesOfZone_foreign {zone : ZoneNode} {entries : List ZoneEntry}
    (foreign : ∀ entry ∈ entries, entry.volumeId ≠ zone.volumeId) :
    entriesOfZone zone entries = [] := by
  unfold entriesOfZone
  rw [List.filter_eq_nil_iff]
  intro entry member inZone
  exact foreign entry member (of_decide_eq_true inZone).1

theorem adjustCounters_foreign {zone : Zone} {removed added : List ZoneEntry}
    (hRemoved : ∀ entry ∈ removed, entry.volumeId ≠ zone.volumeId)
    (hAdded : ∀ entry ∈ added, entry.volumeId ≠ zone.volumeId) :
    adjustCounters removed added zone = zone := by
  unfold adjustCounters entryCountOf fileBytesOf
  rw [entriesOfZone_foreign hRemoved, entriesOfZone_foreign hAdded]
  simp

theorem zonesOf_adjusted {zones : List Zone} {removed added : List ZoneEntry}
    (hRemoved : ∀ entry ∈ removed, entry.volumeId ≠ other)
    (hAdded : ∀ entry ∈ added, entry.volumeId ≠ other) :
    (zones.map (adjustCounters removed added)).filter (fun zone => decide (zone.volumeId = other)) =
      zones.filter fun zone => decide (zone.volumeId = other) := by
  apply filter_map_own
  · exact fun _ _ => rfl
  · intro zone _ owned
    rw [decide_eq_true_eq] at owned
    rw [← owned] at hRemoved hAdded
    exact adjustCounters_foreign hRemoved hAdded

variable (different : other ≠ volume)

include different

theorem rowsOf_insertEntries {makers : List (NodeId → ZoneEntry)}
    (inVolume : ∀ make ∈ makers, ∀ serial, (make serial).volumeId = volume)
    (inserted : db.insertEntries makers = .ok after) : after.rowsOf other = db.rowsOf other := by
  have foreign : ∀ entry ∈ numbered db.nextNode makers, entry.volumeId ≠ other := by
    intro entry member
    obtain ⟨make, makeMember, serial, -, -, rfl⟩ := mem_numbered member
    rw [inVolume make makeMember]
    exact different.symm
  have store := sameStore_insertEntries inserted
  obtain ⟨rfl, -⟩ := insertEntries_ok inserted
  refine store.rowsOf rfl ?_ ?_ rfl
  · exact zonesOf_adjusted (fun _ member => absurd member List.not_mem_nil) foreign
  · exact filter_append_foreign fun entry member => decide_eq_false (foreign entry member)

theorem rowsOf_deleteEntries {selected : ZoneEntry → Bool}
    (inVolume : ∀ entry ∈ db.zoneEntries, selected entry = true → entry.volumeId = volume) :
    (db.deleteEntries selected).rowsOf other = db.rowsOf other := by
  have store : SameStore db (db.deleteEntries selected) := ⟨rfl, rfl, rfl, rfl, rfl, rfl, rfl⟩
  refine store.rowsOf rfl ?_ ?_ rfl
  · refine zonesOf_adjusted ?_ fun _ member => absurd member List.not_mem_nil
    intro entry member
    obtain ⟨inTable, chosen⟩ := List.mem_filter.mp member
    rw [inVolume entry inTable chosen]
    exact different.symm
  · apply filter_filter_own
    intro entry member owned
    rw [decide_eq_true_eq] at owned
    rw [Bool.not_eq_true', ← Bool.not_eq_true]
    intro chosen
    exact different (owned.symm.trans (inVolume entry member chosen))

theorem rowsOf_updateEntries {selected : ZoneEntry → Bool} {change : ZoneEntry → ZoneEntry}
    (inVolume : ∀ entry ∈ db.zoneEntries, selected entry = true →
      entry.volumeId = volume ∧ (change entry).volumeId = volume)
    (updated : db.updateEntries selected change = .ok after) :
    after.rowsOf other = db.rowsOf other := by
  obtain ⟨rfl, -⟩ := updateEntries_ok updated
  refine SameStore.rowsOf ⟨rfl, rfl, rfl, rfl, rfl, rfl, rfl⟩ rfl ?_ ?_ rfl
  · refine zonesOf_adjusted ?_ ?_
    · intro entry member
      obtain ⟨inTable, chosen⟩ := List.mem_filter.mp member
      rw [(inVolume entry inTable chosen).1]
      exact different.symm
    · intro entry member
      obtain ⟨old, oldMember, rfl⟩ := List.mem_map.mp member
      obtain ⟨inTable, chosen⟩ := List.mem_filter.mp oldMember
      rw [(inVolume old inTable chosen).2]
      exact different.symm
  · apply filter_rewritten
    intro entry member chosen
    obtain ⟨before, later⟩ := inVolume entry member chosen
    rw [before, later]
    exact ⟨decide_eq_false different.symm, decide_eq_false different.symm⟩

theorem rowsOf_insertZone {make : NodeId → ZoneNode} {id : NodeId}
    (inVolume : ∀ serial, (make serial).volumeId = volume)
    (inserted : db.insertZone make = .ok (after, id)) : after.rowsOf other = db.rowsOf other := by
  have store := sameStore_insertZone inserted
  obtain ⟨rfl, -⟩ := insertZone_ok inserted
  refine store.rowsOf rfl ?_ rfl rfl
  apply filter_append_foreign
  intro zone member
  rw [List.mem_singleton.mp member]
  refine decide_eq_false ?_
  rw [inVolume]
  exact different.symm

theorem rowsOf_deleteZones {selected : Zone → Bool}
    (inVolume : ∀ zone ∈ db.zones, selected zone = true → zone.volumeId = volume) :
    (db.deleteZones selected).rowsOf other = db.rowsOf other := by
  have store : SameStore db (db.deleteZones selected) := ⟨rfl, rfl, rfl, rfl, rfl, rfl, rfl⟩
  refine store.rowsOf rfl ?_ rfl rfl
  apply filter_filter_own
  intro zone member owned
  rw [decide_eq_true_eq] at owned
  rw [Bool.not_eq_true', ← Bool.not_eq_true]
  intro chosen
  exact different (owned.symm.trans (inVolume zone member chosen))

theorem rowsOf_updateZones {selected : Zone → Bool} {change : Zone → Zone}
    (inVolume : ∀ zone ∈ db.zones, selected zone = true →
      zone.volumeId = volume ∧ (change zone).volumeId = volume)
    (updated : db.updateZones selected change = .ok after) :
    after.rowsOf other = db.rowsOf other := by
  obtain ⟨rfl, -⟩ := updateZones_ok updated
  refine SameStore.rowsOf ⟨rfl, rfl, rfl, rfl, rfl, rfl, rfl⟩ rfl ?_ rfl rfl
  apply filter_rewritten
  intro zone member chosen
  obtain ⟨before, later⟩ := inVolume zone member chosen
  exact ⟨decide_eq_false (before ▸ different.symm), decide_eq_false (later ▸ different.symm)⟩

end Statements

section Store

variable {db after : Database} {volume other : Uuid}

theorem Catalog.block_volume (catalog : Catalog db) (store : StoreSound db) {block : ContentBlock}
    (member : block ∈ db.allContentBlocks) {object : ContentObject}
    (objectMember : object ∈ db.contentObjects) (owner : object.id = block.objectId) :
    object.volumeId = block.volumeId := by
  rcases List.mem_append.mp member with plain | bulk
  · obtain ⟨found, foundMember, foundOwner, sameVolume⟩ := catalog.plain_volume block plain
    rw [store.object_eq objectMember foundMember (owner.trans foundOwner.symm)]
    exact sameVolume
  · obtain ⟨-, found, foundMember, foundOwner, sameSegment⟩ := store.bulk_object block bulk
    obtain rfl := store.object_eq objectMember foundMember (owner.trans foundOwner.symm)
    obtain ⟨stored, storedMember, inSegment, sameVolume⟩ := catalog.bulk_volume block bulk
    obtain ⟨row, rowMember, rowId, rowVolume⟩ :=
      store.object_segment object objectMember stored.id (sameSegment.trans inSegment)
    rw [← rowVolume, List.inj_on_of_nodup_map store.segment_ids rowMember storedMember rowId]
    exact sameVolume

/-- Everything that is found by the id of the segment is in the volume. -/
structure OwnSegment (db : Database) (volume segment : Uuid) : Prop where
  segments : ∀ stored ∈ db.contentSegments, stored.id = segment → stored.volumeId = volume
  objects : ∀ object ∈ db.contentObjects, object.segmentId = some segment →
    object.volumeId = volume
  bulk : ∀ block ∈ db.bulkContentBlocks, block.segmentId = some segment → block.volumeId = volume
  plain : ∀ block ∈ db.contentBlocks, block.objectId ∈ objectsOfSegment segment db.contentObjects →
    block.volumeId = volume
  tables : ∀ table ∈ db.segmentTables, table.segment = segment → table.parent = volume

theorem Catalog.ownSegment (catalog : Catalog db) (store : StoreSound db)
    {stored : ContentSegment} (member : stored ∈ db.contentSegments) :
    OwnSegment db stored.volumeId stored.id where
  segments := by
    intro row rowMember same
    rw [List.inj_on_of_nodup_map store.segment_ids rowMember member same]
  objects := by
    intro object objectMember inSegment
    obtain ⟨row, rowMember, rowId, rowVolume⟩ :=
      store.object_segment object objectMember stored.id inSegment
    rw [← rowVolume, List.inj_on_of_nodup_map store.segment_ids rowMember member rowId]
  bulk := by
    intro block blockMember inSegment
    obtain ⟨row, rowMember, rowSegment, rowVolume⟩ := catalog.bulk_volume block blockMember
    have same : row.id = stored.id := Option.some.inj (rowSegment.symm.trans inSegment)
    rw [← rowVolume, List.inj_on_of_nodup_map store.segment_ids rowMember member same]
  plain := by
    intro block blockMember listed
    -- A block of `content_blocks` belongs to an object outside the segments.
    obtain ⟨object, objectMember, owner⟩ := List.mem_map.mp listed
    obtain ⟨inTable, inSegment⟩ := List.mem_filter.mp objectMember
    obtain ⟨-, found, foundMember, foundOwner, alone⟩ := store.block_object block blockMember
    rw [store.object_eq inTable foundMember (owner.trans foundOwner.symm), alone] at inSegment
    cases of_decide_eq_true inSegment
  tables := by
    intro table listed named
    rw [store.segment_tables] at listed
    obtain ⟨row, rowMember, rfl⟩ := List.mem_map.mp listed
    exact congrArg ContentSegment.volumeId
      (List.inj_on_of_nodup_map store.segment_ids rowMember member named)

theorem OwnSegment.reclaimed {segment found : Uuid} (own : OwnSegment db volume found)
    (reclaimed : db.reclaimSegment segment = .ok after) : OwnSegment after volume found := by
  rw [(reclaimSegment_ok reclaimed).1]
  refine ⟨?_, ?_, ?_, ?_, fun table listed => own.tables table (List.mem_of_mem_filter listed)⟩
  · exact fun stored member => own.segments stored (List.mem_of_mem_filter member)
  · exact fun object member => own.objects object (List.mem_of_mem_filter member)
  · exact fun block member => own.bulk block (List.mem_of_mem_filter member)
  · intro block member listed
    refine own.plain block (List.mem_of_mem_filter member) ?_
    obtain ⟨object, objectMember, owner⟩ := List.mem_map.mp listed
    obtain ⟨inTable, inSegment⟩ := List.mem_filter.mp objectMember
    exact List.mem_map.mpr ⟨object, List.mem_filter.mpr ⟨List.mem_of_mem_filter inTable, inSegment⟩,
      owner⟩

theorem rowsOf_createContentMapping {zone : NodeId}
    (created : db.createContentMapping volume zone = .ok after) :
    after.rowsOf other = db.rowsOf other := by
  rw [(createContentMapping_ok created).1]
  rfl

variable (different : other ≠ volume)

include different

theorem rowsOf_reclaimSegment {segment : Uuid} (own : OwnSegment db volume segment)
    (reclaimed : db.reclaimSegment segment = .ok after) : after.rowsOf other = db.rowsOf other := by
  rw [(reclaimSegment_ok reclaimed).1]
  unfold Database.rowsOf
  dsimp only
  congr 1
  · apply filter_filter_own
    intro object member owned
    rw [decide_eq_true_eq] at owned
    exact decide_eq_true fun inSegment =>
      different (owned.symm.trans (own.objects object member inSegment))
  · apply filter_filter_own
    intro stored member owned
    rw [decide_eq_true_eq] at owned
    exact decide_eq_true fun same => different (owned.symm.trans (own.segments stored member same))
  · apply filter_filter_own
    intro block member owned
    rw [decide_eq_true_eq] at owned
    exact decide_eq_true fun listed => different (owned.symm.trans (own.plain block member listed))
  · apply filter_filter_own
    intro block member owned
    rw [decide_eq_true_eq] at owned
    exact decide_eq_true fun inSegment =>
      different (owned.symm.trans (own.bulk block member inSegment))
  · apply filter_filter_own
    intro table listed owned
    rw [decide_eq_true_eq] at owned
    exact decide_eq_true fun named => different (owned.symm.trans (own.tables table listed named))

theorem rowsOf_reclaim (catalog : Catalog db) (store : StoreSound db)
    (done : db.reclaimContentSegments volume = .ok after) : after.rowsOf other = db.rowsOf other := by
  have owned : ∀ segment ∈ db.unusedSegments volume, OwnSegment db volume segment := by
    intro segment member
    obtain ⟨stored, storedMember, rfl⟩ := List.mem_map.mp member
    obtain ⟨inTable, chosen⟩ := List.mem_filter.mp storedMember
    rw [← (of_decide_eq_true chosen).1]
    exact catalog.ownSegment store inTable
  refine (foldlM_invariant (fun state => state.rowsOf other = db.rowsOf other ∧
    ∀ segment ∈ db.unusedSegments volume, OwnSegment state volume segment) ?_ ⟨rfl, owned⟩ done).1
  rintro state segment next member ⟨same, own⟩ reclaimed
  exact ⟨(rowsOf_reclaimSegment different (own segment member) reclaimed).trans same,
    fun found foundMember => (own found foundMember).reclaimed reclaimed⟩

theorem rowsOf_addContent (state : Database) {objects : List ContentObject}
    {plain : List ContentBlock} (hObjects : ∀ object ∈ objects, object.volumeId = volume)
    (hPlain : ∀ block ∈ plain, block.volumeId = volume) :
    Database.rowsOf { state with
        contentObjects := state.contentObjects ++ objects
        contentBlocks := state.contentBlocks ++ plain } other = state.rowsOf other := by
  unfold Database.rowsOf
  dsimp only
  congr 1
  · exact filter_append_foreign fun object member =>
      decide_eq_false (hObjects object member ▸ different.symm)
  · exact filter_append_foreign fun block member =>
      decide_eq_false (hPlain block member ▸ different.symm)

theorem rowsOf_detachMapped {zone : NodeId} (done : db.detachMapped volume zone = .ok after) :
    after.rowsOf other = db.rowsOf other := by
  unfold Database.detachMapped at done
  refine rowsOf_updateEntries different ?_ done
  intro entry _ chosen
  have inVolume := (of_decide_eq_true chosen).1
  refine ⟨inVolume, ?_⟩
  split
  · unfold detachText
    split
    · exact inVolume
    · exact inVolume
  · exact inVolume

theorem rowsOf_blockizeZone {zone : NodeId} (done : db.blockizeZone volume zone = .ok after) :
    after.rowsOf other = db.rowsOf other := by
  obtain ⟨mapped, mapOk, done⟩ := bind_eq_ok.mp done
  obtain ⟨blocks, blocksOk, detachOk⟩ := bind_eq_ok.mp done
  have objects : ∀ object ∈ mapped.mappedObjects volume zone none, object.volumeId = volume :=
    fun _ => mappedObjects_volume
  have stored := rowsOf_addContent different mapped objects
    fun block member => (mem_mappedBlocks blocksOk member).1
  exact (rowsOf_detachMapped different detachOk).trans
    (stored.trans (rowsOf_createContentMapping mapOk))

theorem rowsOf_prepareContentSegment {segment : Uuid}
    (prepared : db.prepareContentSegment volume segment = .ok after) :
    after.rowsOf other = db.rowsOf other := by
  rw [prepareContentSegment_ok prepared]
  unfold Database.rowsOf
  dsimp only
  congr 1
  apply filter_append_foreign
  intro stored member
  rw [List.mem_singleton.mp member]
  exact decide_eq_false different.symm

theorem rowsOf_publishContentSegment {segment : Uuid}
    (own : ∀ stored ∈ db.contentSegments, stored.id = segment → stored.volumeId = volume)
    (published : db.publishContentSegment volume segment = .ok after) :
    after.rowsOf other = db.rowsOf other := by
  obtain ⟨blocks, fit, -, rfl⟩ := publishContentSegment_shape published
  unfold Database.rowsOf
  dsimp only
  congr 1
  · apply filter_map_own
    · intro stored _
      split
      · rfl
      · rfl
    · intro stored member owned
      rw [decide_eq_true_eq] at owned
      rw [if_neg]
      exact fun same => different (owned.symm.trans (own stored member same))
  · apply filter_append_foreign
    intro block member
    exact decide_eq_false ((fit block member).2 ▸ different.symm)
  · apply filter_append_foreign
    intro table listed
    rw [List.mem_singleton.mp listed]
    exact decide_eq_false different.symm

theorem rowsOf_blockizeZoneSegment {zone : NodeId} (store : StoreSound db)
    (done : db.blockizeZoneSegment volume zone = .ok after) :
    after.rowsOf other = db.rowsOf other := by
  unfold Database.blockizeZoneSegment at done
  dsimp only at done
  obtain ⟨prepared, prepareOk, done⟩ := bind_eq_ok.mp done
  obtain ⟨mapped, mapOk, done⟩ := bind_eq_ok.mp done
  have preparedShape := prepareContentSegment_ok prepareOk
  obtain ⟨-, mappedSegments, -, -, -, -, -⟩ := createContentMapping_sameCatalog mapOk
  -- The id of the new segment is fresh.
  have own : ∀ stored ∈ mapped.contentSegments, stored.id = db.nextUuid → stored.volumeId = volume := by
    intro stored member same
    rw [mappedSegments, preparedShape] at member
    rcases List.mem_append.mp member with old | new
    · exact absurd same (Nat.ne_of_lt (store.segment_bound stored old))
    · rw [List.mem_singleton.mp new]
  have preparing : prepared.rowsOf other = db.rowsOf other :=
    (rowsOf_prepareContentSegment different prepareOk).trans rfl
  have sofar : mapped.rowsOf other = db.rowsOf other :=
    (rowsOf_createContentMapping mapOk).trans preparing
  split at done
  · rw [← Except.ok.inj done, ← sofar]
    unfold Database.rowsOf
    dsimp only
    congr 1
    apply filter_filter_own
    intro stored member owned
    rw [decide_eq_true_eq] at owned
    exact decide_eq_true fun same => different (owned.symm.trans (own stored member same))
  · obtain ⟨blocks, blocksOk, done⟩ := bind_eq_ok.mp done
    obtain ⟨detached, detachOk, publishOk⟩ := bind_eq_ok.mp done
    have objects : ∀ object ∈ mapped.mappedObjects volume zone (some db.nextUuid),
        object.volumeId = volume := fun _ => mappedObjects_volume
    have none : ∀ block ∈ ([] : List ContentBlock), block.volumeId = volume :=
      fun _ member => absurd member List.not_mem_nil
    have stored := rowsOf_addContent different mapped objects none
    rw [List.append_nil] at stored
    have segments : detached.contentSegments = mapped.contentSegments := by
      rw [(updateEntries_ok detachOk).1]
      rfl
    refine (rowsOf_publishContentSegment different (segments ▸ own) publishOk).trans
      ((rowsOf_detachMapped different detachOk).trans ?_)
    exact stored.trans sofar

end Store

/-! ### Operations on one volume -/

section Operations

variable {db after : Database} {volume other : Uuid} {now : Timestamp} (different : other ≠ volume)

include different

theorem rowsOf_prepareContentVolume (state : Database) :
    (state.prepareContentVolume volume).rowsOf other = state.rowsOf other := by
  unfold Database.prepareContentVolume
  split
  · rfl
  · unfold Database.rowsOf
    dsimp only
    congr 1
    apply filter_append_foreign
    intro table listed
    rw [List.mem_singleton.mp listed]
    exact decide_eq_false different.symm

theorem rowsOf_createVolume {id : Uuid} {volumeName : Text}
    (done : db.createVolume volume volumeName now = .ok (after, id)) :
    after.rowsOf other = db.rowsOf other := by
  obtain ⟨-, inserted, zone, insertOk, rfl⟩ := createVolume_ok done
  have listed : Database.rowsOf
      { db with volumes := db.volumes ++ [{ id := volume, name := volumeName }] } other =
        db.rowsOf other := by
    unfold Database.rowsOf
    dsimp only
    congr 1
    apply filter_append_foreign
    intro stored member
    rw [List.mem_singleton.mp member]
    exact decide_eq_false different.symm
  have inserting := (rowsOf_insertZone different (fun _ => rfl) insertOk).trans listed
  exact (rowsOf_prepareContentVolume different inserted).trans inserting

theorem rowsOf_insertOne {make : NodeId → ZoneEntry}
    (inVolume : ∀ serial, (make serial).volumeId = volume)
    (inserted : db.insertEntries [make] = .ok after) : after.rowsOf other = db.rowsOf other := by
  refine rowsOf_insertEntries different ?_ inserted
  intro found member
  rw [List.mem_singleton.mp member]
  exact inVolume

theorem rowsOf_mkdirOne {targetPath : Text} {mode : Int}
    (done : db.mkdirOne volume targetPath mode now = .ok after) :
    after.rowsOf other = db.rowsOf other := by
  obtain ⟨-, rfl⟩ | ⟨location, -, inserted⟩ := mkdirOne_ok done
  · rfl
  · exact rowsOf_insertOne different (fun _ => rfl) inserted

theorem rowsOf_mkdir {targetPath : Text} {parents : Bool} {mode : Int}
    (done : db.mkdir volume targetPath parents mode now = .ok after) :
    after.rowsOf other = db.rowsOf other :=
  mkdir_invariant (fun state => state.rowsOf other = db.rowsOf other)
    (fun _ _ _ sofar made => (rowsOf_mkdirOne different made).trans sofar) rfl done

theorem rowsOf_mkdirMany {targetPaths : List Text} {parents : Bool}
    (done : db.mkdirMany volume targetPaths parents now = .ok after) :
    after.rowsOf other = db.rowsOf other := by
  cases parents with
  | true =>
      exact foldlM_invariant (fun state => state.rowsOf other = db.rowsOf other)
        (fun _ _ _ _ sofar made => (rowsOf_mkdir different made).trans sofar) rfl done
  | false =>
      obtain ⟨-, inserted⟩ := mkdirMany_ok done
      refine rowsOf_insertEntries different ?_ inserted
      intro make member serial
      obtain ⟨path, -, found⟩ := List.mem_filterMap.mp member
      obtain ⟨location, -, rfl⟩ := Option.map_eq_some_iff.mp found
      rfl

theorem rowsOf_setTimes {targetPath : Text}
    {atimeSeconds atimeNanoseconds mtimeSeconds mtimeNanoseconds : Int} {rows : List Inode}
    (done : db.setTimes volume targetPath atimeSeconds atimeNanoseconds mtimeSeconds
      mtimeNanoseconds now = .ok (after, rows)) : after.rowsOf other = db.rowsOf other := by
  obtain ⟨location, atime, mtime, -, updated | updated⟩ := setTimes_ok done
  · refine rowsOf_updateZones different ?_ updated
    intro zone _ chosen
    exact ⟨(of_decide_eq_true chosen).1, (of_decide_eq_true chosen).1⟩
  · refine rowsOf_updateEntries different ?_ updated
    intro entry _ chosen
    exact ⟨(atLocation_iff.mp chosen).1, (atLocation_iff.mp chosen).1⟩

theorem rowsOf_writeFileInline {targetPath : Text} {data : Bytes} {mode : Int} {id : NodeId}
    (done : db.writeFileInline volume targetPath data mode now = .ok (after, id)) :
    after.rowsOf other = db.rowsOf other := by
  obtain ⟨-, -, parent, -, ⟨-, -, inserted⟩ | ⟨existing, -, -, -, updated⟩⟩ :=
    writeFileInline_ok done
  · exact rowsOf_insertOne different (fun _ => rfl) inserted
  · refine rowsOf_updateEntries different ?_ updated
    intro entry _ chosen
    exact ⟨(atLocation_iff.mp chosen).1, (atLocation_iff.mp chosen).1⟩

theorem rowsOf_writeFile {targetPath : Text} {data : Bytes} {mode : Int} {id : NodeId}
    (orderly : Orderly db)
    (done : db.writeFile volume targetPath data mode now = .ok (after, id)) :
    after.rowsOf other = db.rowsOf other := by
  obtain ⟨written, location, blockized, writeOk, -, blockOk, reclaimOk⟩ := writeFile_ok done
  have sofar := writeFileInline_kept (.refl orderly.sound) writeOk
  obtain ⟨found, change, foundOk, moved⟩ := blockizeZone_ok sofar.sound
    ((writeFileInline_contentMapping writeOk).trans orderly.unmapped) volume location.zoneId
  obtain rfl : found = blockized := Except.ok.inj (foundOk.symm.trans blockOk)
  obtain ⟨-, -, parent, located, -⟩ := writeFileInline_ok writeOk
  have writing := sameCatalog_writeFileInline writeOk
  have known := writing.volumes volume (known_of_locateParent orderly.sound.keys located)
  have catalog := (writing.kept.trans (catalogKept_blockizeZone known foundOk)).catalog
    orderly.catalog
  exact (rowsOf_reclaim different catalog moved.sound.store reclaimOk).trans
    ((rowsOf_blockizeZone different foundOk).trans (rowsOf_writeFileInline different writeOk))

theorem rowsOf_fillZone {inserted : Database} {make : NodeId → ZoneNode} {zone : NodeId}
    {makers : List (NodeId → ZoneEntry)} (inVolume : ∀ serial, (make serial).volumeId = volume)
    (zoneOk : db.insertZone make = .ok (inserted, zone))
    (rows : ∀ maker ∈ makers, ∀ serial, (maker serial).volumeId = volume)
    (fillOk : inserted.insertEntries makers = .ok after) : after.rowsOf other = db.rowsOf other :=
  (rowsOf_insertEntries different rows fillOk).trans (rowsOf_insertZone different inVolume zoneOk)

theorem rowsOf_importTree {destination : Text} {entries : List ImportEntry} {count : Nat}
    (sound : Sound db)
    (done : db.importTree volume destination entries now = .ok (after, count)) :
    after.rowsOf other = db.rowsOf other := by
  obtain ⟨-, staging, imported, location, -, importOk, -, blockOk⟩ := importTree_ok done
  have store := (applyImportInline_kept (.refl sound) importOk).sound.store
  refine (rowsOf_blockizeZoneSegment different store blockOk).trans ?_
  obtain ⟨-, root, parent, -, -, ⟨-, inserted, zone, zoneOk, fillOk⟩ | ⟨-, insertOk⟩⟩ :=
    applyImportInline_ok importOk
  · refine rowsOf_fillZone different (fun _ => rfl) zoneOk ?_ fillOk
    intro make member serial
    obtain ⟨staged, -, rfl⟩ := List.mem_map.mp member
    rfl
  · exact rowsOf_insertOne different (fun _ => rfl) insertOk

/-- The object and the segment of an imported text are new. -/
theorem rowsOf_importText {target : Text} {reader : Bytes} {id : NodeId} (store : StoreSound db)
    (done : db.importText volume target reader now = .ok (after, id)) :
    after.rowsOf other = db.rowsOf other := by
  unfold Database.importText at done
  dsimp only at done
  obtain ⟨prepared, prepareOk, done⟩ := bind_eq_ok.mp done
  obtain ⟨⟨blocks, size⟩, -, done⟩ := bind_eq_ok.mp done
  obtain ⟨published, publishOk, done⟩ := bind_eq_ok.mp done
  obtain ⟨written, writeOk, updateOk⟩ := publishContent_ok done
  have prepareShape := prepareContentSegment_ok prepareOk
  have preparing : prepared.rowsOf other = db.rowsOf other :=
    (rowsOf_prepareContentSegment different prepareOk).trans rfl
  obtain ⟨bulk, -, -, publishShape⟩ := publishContentSegment_shape publishOk
  have objects : published.contentObjects = db.contentObjects ++
      [{ id := db.nextUuid, volumeId := volume, byteSize := 0, segmentId := some (db.nextUuid + 1) }] := by
    rw [publishShape, prepareShape]
    rfl
  have publishing : published.rowsOf other = db.rowsOf other := by
    refine (rowsOf_publishContentSegment different ?_ publishOk).trans ?_
    · intro stored member same
      have member : stored ∈ prepared.contentSegments := member
      rw [prepareShape] at member
      rcases List.mem_append.mp member with old | new
      · exact absurd same (Nat.ne_of_lt (Nat.lt_succ_of_lt (store.segment_bound stored old)))
      · rw [List.mem_singleton.mp new]
    · rw [← preparing]
      unfold Database.rowsOf
      dsimp only
      congr 1
      apply filter_append_foreign
      intro object member
      rw [List.mem_singleton.mp member]
      exact decide_eq_false different.symm
  have sized : Database.rowsOf { published with
      contentObjects := published.contentObjects.map fun stored =>
        if stored.id = db.nextUuid then { stored with byteSize := size } else stored } other =
      published.rowsOf other := by
    unfold Database.rowsOf
    dsimp only
    congr 1
    apply filter_map_own
    · intro object _
      split
      · rfl
      · rfl
    · intro object member owned
      rw [decide_eq_true_eq] at owned
      rw [objects] at member
      rcases List.mem_append.mp member with old | new
      · rw [if_neg (Nat.ne_of_lt (store.object_bound object old))]
      · rw [List.mem_singleton.mp new] at owned
        exact absurd owned.symm different
  refine Eq.trans ?_ ((rowsOf_writeFileInline different writeOk).trans (sized.trans publishing))
  refine rowsOf_updateEntries different ?_ updateOk
  intro entry _ chosen
  have inVolume := (of_decide_eq_true chosen).1
  refine ⟨inVolume, ?_⟩
  unfold attached
  split
  · exact inVolume
  · exact inVolume

theorem rowsOf_copy {source destination : Text} {recursive : Bool} {count : Nat}
    (done : db.copy volume source destination recursive now = .ok (after, count)) :
    after.rowsOf other = db.rowsOf other := by
  obtain ⟨sourceLocation, parent, -, ⟨-, copied⟩ | ⟨-, copied⟩⟩ := copy_ok done
  · obtain ⟨-, -, zone, inserted, id, -, zoneOk, fillOk, -⟩ := copyZone_ok copied
    refine rowsOf_fillZone different (fun _ => rfl) zoneOk ?_ fillOk
    intro make member serial
    obtain ⟨entry, -, rfl⟩ := List.mem_map.mp member
    rfl
  · obtain ⟨-, insertOk, -⟩ := copyEntry_ok copied
    refine rowsOf_insertEntries different ?_ insertOk
    intro make member serial
    obtain ⟨entry, -, rfl⟩ := List.mem_map.mp member
    rfl

theorem rowsOf_relocated {replaced : Database} {source destination : Text}
    {sourceLocation parent : Location}
    (movable : Movable db replaced volume source destination sourceLocation parent)
    (relocated : Relocated replaced after volume source destination sourceLocation parent now) :
    after.rowsOf other = db.rowsOf other := by
  have replacing : replaced.rowsOf other = db.rowsOf other := by
    obtain ⟨-, ⟨-, rfl⟩ | ⟨location, -, rfl⟩⟩ := replaceDestination_ok movable.replaces
    · rfl
    · exact rowsOf_deleteEntries different fun entry _ chosen => (atLocation_iff.mp chosen).1
  obtain ⟨-, updated⟩ | ⟨-, -, updated⟩ := relocated
  · refine (rowsOf_updateZones different ?_ updated).trans replacing
    intro zone _ chosen
    have inVolume := (of_decide_eq_true chosen).1
    refine ⟨inVolume, ?_⟩
    unfold movedZone
    dsimp only
    split
    · exact inVolume
    · exact inVolume
  · refine (rowsOf_updateEntries different ?_ updated).trans replacing
    intro entry _ chosen
    exact ⟨(of_decide_eq_true chosen).1, (of_decide_eq_true chosen).1⟩

theorem rowsOf_deleteZoneTrees {selected : ZoneNode → Bool}
    (inVolume : ∀ zone, selected zone = true → zone.volumeId = volume) :
    (db.deleteZoneTrees volume selected).1.rowsOf other = db.rowsOf other :=
  (rowsOf_deleteZones different fun zone _ chosen => inVolume zone.toZoneNode chosen).trans
    (rowsOf_deleteEntries different fun _ _ chosen => (of_decide_eq_true chosen).1)

theorem rowsOf_removeRows (target : Text) (location : Location) (recursive : Bool) :
    (db.removeRows volume target location recursive).1.rowsOf other = db.rowsOf other := by
  unfold Database.removeRows
  split
  · exact rowsOf_deleteZoneTrees different fun _ chosen => (of_decide_eq_true chosen).1
  · unfold Database.removeEntryRows
    refine (rowsOf_deleteEntries different fun _ _ chosen => (of_decide_eq_true chosen).1).trans ?_
    split
    · exact rowsOf_deleteZoneTrees different fun _ chosen => (of_decide_eq_true chosen).1
    · rfl

theorem rowsOf_remove {targetPath : Text} {recursive : Bool} {count : Nat} (sound : Sound db)
    (catalog : Catalog db)
    (done : db.remove volume targetPath recursive = .ok (after, count)) :
    after.rowsOf other = db.rowsOf other := by
  obtain ⟨location, removable, reclaimed, -⟩ := remove_ok.mp done
  have removed := removeRows_kept (.refl sound) removable
  have ordered := (sameCatalog_removeRows db volume targetPath location recursive).kept.catalog
    catalog
  exact (rowsOf_reclaim different ordered removed.sound.store reclaimed).trans
    (rowsOf_removeRows different targetPath location recursive)

theorem rowsOf_removeMany {targetPaths : List Text} {recursive forceMissing : Bool} {count : Nat}
    (sound : Sound db) (catalog : Catalog db)
    (done : db.removeMany volume targetPaths recursive forceMissing = .ok (after, count)) :
    after.rowsOf other = db.rowsOf other := by
  refine (removeMany_invariant (fun state => Kept db state ∧ Catalog state ∧
    state.rowsOf other = db.rowsOf other) ?_ ?_ ⟨.refl sound, catalog, rfl⟩ done).2.2
  · rintro state path next removed ⟨kept, ordered, sofar⟩ removeOk
    exact ⟨remove_kept kept removeOk, ((CatalogKept.refl state).remove removeOk).catalog ordered,
      (rowsOf_remove different kept.sound ordered removeOk).trans sofar⟩
  · intro _ _ removing
    obtain ⟨-, -, -, reclaimed⟩ := removeBulk_ok.mp removing
    have deleted := (Kept.refl sound).deleteEntries
      (db.bulkRow volume (targetPaths.filterMap (db.resolve volume)) recursive)
    have deleting := (sameCatalog_deleteEntries db
      (db.bulkRow volume (targetPaths.filterMap (db.resolve volume)) recursive)).kept
    refine ⟨deleted.reclaim reclaimed,
      (deleting.trans (catalogKept_reclaim reclaimed)).catalog catalog, ?_⟩
    refine (rowsOf_reclaim different (deleting.catalog catalog) deleted.sound.store
      reclaimed).trans ?_
    exact rowsOf_deleteEntries different fun _ _ chosen => (of_decide_eq_true chosen).1

theorem rowsOf_withoutVolume : (db.withoutVolume volume).rowsOf other = db.rowsOf other := by
  have kept {row : Uuid} (owned : decide (row = other) = true) : decide (row ≠ volume) = true := by
    rw [decide_eq_true_eq] at owned ⊢
    rw [owned]
    exact different
  unfold Database.rowsOf Database.withoutVolume
  dsimp only
  congr 1
  · exact filter_filter_own fun _ _ => kept
  · exact filter_filter_own fun _ _ => kept
  · exact filter_filter_own fun _ _ => kept
  · exact filter_filter_own fun _ _ => kept
  · exact filter_filter_own fun _ _ => kept
  · exact filter_filter_own fun _ _ => kept
  · exact filter_filter_own fun _ _ => kept
  · exact filter_filter_own fun _ _ => kept

theorem rowsOf_removeVolume (sound : Sound db) (catalog : Catalog db)
    (done : db.removeVolume volume = .ok after) : after.rowsOf other = db.rowsOf other := by
  obtain ⟨reclaimed, reclaimOk, deleted⟩ := removeVolume_ok done
  have emptied := (Kept.refl sound).deleteEntries fun entry => decide (entry.volumeId = volume)
  have deleting :=
    (sameCatalog_deleteEntries db fun entry => decide (entry.volumeId = volume)).kept
  rw [deleteVolume_eq (emptied.reclaim reclaimOk).sound
    ((deleting.trans (catalogKept_reclaim reclaimOk)).catalog catalog) deleted]
  refine (rowsOf_withoutVolume different).trans ((rowsOf_reclaim different
    (deleting.catalog catalog) emptied.sound.store reclaimOk).trans ?_)
  exact rowsOf_deleteEntries different fun _ _ chosen => of_decide_eq_true chosen

end Operations

/-! ### Runs -/

/-- The volume that a call creates, reads or changes. -/
def Op.volume : Op → Uuid
  | .createVolume volumeId _ _ => volumeId
  | .mkdir volume _ _ _ _ => volume
  | .mkdirMany volume _ _ _ => volume
  | .writeFile volume _ _ _ _ => volume
  | .importTree volume _ _ _ => volume
  | .importText volume _ _ _ => volume
  | .copy volume _ _ _ _ => volume
  | .move volume _ _ _ => volume
  | .moveCommand volume _ _ _ => volume
  | .remove volume _ _ => volume
  | .removeMany volume _ _ _ => volume
  | .setTimes volume _ _ _ _ _ _ => volume

def Call.volume : Call → Uuid
  | .operation op => op.volume
  | .removeVolume volume => volume

theorem rowsOf_run {db after : Database} {op : Op} {other : Uuid} (orderly : Orderly db)
    (different : other ≠ op.volume) (done : op.run db = .ok after) :
    after.rowsOf other = db.rowsOf other := by
  cases op with
  | createVolume volumeId volumeName now =>
      obtain ⟨⟨last, id⟩, ran, rfl⟩ := map_eq_ok.mp done
      exact rowsOf_createVolume different ran
  | mkdir volume targetPath parents mode now => exact rowsOf_mkdir different done
  | mkdirMany volume targetPaths parents now => exact rowsOf_mkdirMany different done
  | writeFile volume targetPath data mode now =>
      obtain ⟨⟨last, id⟩, ran, rfl⟩ := map_eq_ok.mp done
      exact rowsOf_writeFile different orderly ran
  | importTree volume destination entries now =>
      obtain ⟨⟨last, count⟩, ran, rfl⟩ := map_eq_ok.mp done
      exact rowsOf_importTree different orderly.sound ran
  | importText volume target reader now =>
      obtain ⟨⟨last, id⟩, ran, rfl⟩ := map_eq_ok.mp done
      exact rowsOf_importText different orderly.sound.store ran
  | copy volume sourcePath destinationPath recursive now =>
      obtain ⟨⟨last, count⟩, ran, rfl⟩ := map_eq_ok.mp done
      exact rowsOf_copy different ran
  | move volume sourcePath destinationPath now =>
      obtain ⟨⟨last, count⟩, ran, rfl⟩ := map_eq_ok.mp done
      obtain ⟨replaced, sourceLocation, parent, movable, relocated⟩ := move_ok ran
      exact rowsOf_relocated different movable relocated
  | moveCommand volume sourcePath destinationPath now =>
      obtain ⟨⟨last, count⟩, ran, rfl⟩ := map_eq_ok.mp done
      obtain ⟨replaced, sourceLocation, parent, movable, relocated⟩ := moveCommand_ok ran
      exact rowsOf_relocated different movable relocated
  | remove volume targetPath recursive =>
      obtain ⟨⟨last, count⟩, ran, rfl⟩ := map_eq_ok.mp done
      exact rowsOf_remove different orderly.sound orderly.catalog ran
  | removeMany volume targetPaths recursive forceMissing =>
      obtain ⟨⟨last, count⟩, ran, rfl⟩ := map_eq_ok.mp done
      exact rowsOf_removeMany different orderly.sound orderly.catalog ran
  | setTimes volume targetPath atimeSeconds atimeNanoseconds mtimeSeconds mtimeNanoseconds now =>
      obtain ⟨⟨last, rows⟩, ran, rfl⟩ := map_eq_ok.mp done
      exact rowsOf_setTimes different ran

theorem rowsOf_step {before after : Database} {call : Call} {other : Uuid}
    (orderly : Orderly before) (different : other ≠ call.volume)
    (moved : CallStep before call after) : after.rowsOf other = before.rowsOf other := by
  unfold CallStep transact at moved
  split at moved
  · rename_i last ran
    have committed : last.commit.rowsOf other = last.rowsOf other := rfl
    rw [moved, committed]
    cases call with
    | operation op => exact rowsOf_run orderly different ran
    | removeVolume volume =>
        exact rowsOf_removeVolume different orderly.sound orderly.catalog ran
  · rw [moved]

end PostgreOS
