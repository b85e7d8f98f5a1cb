/-
The life of a segment.

A segment is prepared, filled and published by one call, and dropped by a later one. If no
text file is imported, a segment is prepared that is neither filled nor published; only the
row of that segment goes, and its staging schema stays.
-/

import PostgreOS.Catalog

namespace PostgreOS

open Library.Outcome Library.Table Library.Transition

section Operations

variable {base db after : Database} {volume : Uuid} (sofar : CatalogKept base db)

include sofar

theorem CatalogKept.same (same : SameCatalog db after) : CatalogKept base after :=
  sofar.trans same.kept

theorem CatalogKept.createVolume {volumeId id : Uuid} {volumeName : Text} {now : Timestamp}
    (done : db.createVolume volumeId volumeName now = .ok (after, id)) : CatalogKept base after := by
  obtain ⟨-, inserted, zone, insertOk, rfl⟩ := createVolume_ok done
  obtain ⟨tables, shape, -⟩ := prepareContentVolume_eq inserted volumeId
  rw [shape, (insertZone_ok insertOk).1]
  refine sofar.same ⟨⟨rfl, rfl, rfl, rfl, rfl, rfl, rfl⟩, ?_⟩
  intro volume member
  rw [List.map_append]
  exact List.mem_append_left _ member

theorem CatalogKept.mkdirOne {targetPath : Text} {mode : Int} {now : Timestamp}
    (done : db.mkdirOne volume targetPath mode now = .ok after) : CatalogKept base after := by
  obtain ⟨-, rfl⟩ | ⟨location, -, inserted⟩ := mkdirOne_ok done
  · exact sofar
  · exact sofar.same (sameCatalog_insertEntries inserted)

theorem CatalogKept.mkdir {targetPath : Text} {parents : Bool} {mode : Int} {now : Timestamp}
    (done : db.mkdir volume targetPath parents mode now = .ok after) : CatalogKept base after :=
  mkdir_invariant (CatalogKept base) (fun _ _ _ earlier made => CatalogKept.mkdirOne earlier made)
    sofar done

theorem CatalogKept.mkdirMany {targetPaths : List Text} {parents : Bool} {now : Timestamp}
    (done : db.mkdirMany volume targetPaths parents now = .ok after) : CatalogKept base after := by
  cases parents with
  | true =>
      exact foldlM_invariant (CatalogKept base) (fun _ _ _ _ earlier made => earlier.mkdir made)
        sofar done
  | false => exact sofar.same (sameCatalog_insertEntries (mkdirMany_ok done).2)

theorem CatalogKept.setTimes {targetPath : Text}
    {atimeSeconds atimeNanoseconds mtimeSeconds mtimeNanoseconds : Int} {now : Timestamp}
    {rows : List Inode}
    (done : db.setTimes volume targetPath atimeSeconds atimeNanoseconds mtimeSeconds
      mtimeNanoseconds now = .ok (after, rows)) : CatalogKept base after := by
  obtain ⟨location, atime, mtime, -, updated | updated⟩ := setTimes_ok done
  · exact sofar.same (sameCatalog_updateZones updated)
  · exact sofar.same (sameCatalog_updateEntries updated)

omit sofar in
theorem sameCatalog_writeFileInline {targetPath : Text} {data : Bytes} {mode : Int}
    {now : Timestamp} {id : NodeId}
    (done : db.writeFileInline volume targetPath data mode now = .ok (after, id)) :
    SameCatalog db after := by
  obtain ⟨-, -, parent, -, ⟨-, -, inserted⟩ | ⟨existing, -, -, -, updated⟩⟩ := writeFileInline_ok done
  · exact sameCatalog_insertEntries inserted
  · exact sameCatalog_updateEntries updated

theorem CatalogKept.writeFile {targetPath : Text} {data : Bytes} {mode : Int} {now : Timestamp}
    {id : NodeId} (known : volume ∈ db.volumes.map Volume.id)
    (done : db.writeFile volume targetPath data mode now = .ok (after, id)) :
    CatalogKept base after := by
  obtain ⟨written, location, blockized, writeOk, -, blockOk, reclaimOk⟩ := writeFile_ok done
  have writing := sameCatalog_writeFileInline writeOk
  have moving := catalogKept_blockizeZone (writing.volumes volume known) blockOk
  exact ((sofar.same writing).trans moving).trans (catalogKept_reclaim reclaimOk)

theorem CatalogKept.copy {sourcePath destinationPath : Text} {recursive : Bool} {now : Timestamp}
    {count : Nat}
    (done : db.copy volume sourcePath destinationPath recursive now = .ok (after, count)) :
    CatalogKept base after := by
  obtain ⟨sourceLocation, parent, -, ⟨-, copied⟩ | ⟨-, copied⟩⟩ := copy_ok done
  · obtain ⟨-, -, source, inserted, zone, -, zoneOk, fillOk, -⟩ := copyZone_ok copied
    exact (sofar.same (sameCatalog_insertZone zoneOk)).same (sameCatalog_insertEntries fillOk)
  · obtain ⟨-, insertOk, -⟩ := copyEntry_ok copied
    exact sofar.same (sameCatalog_insertEntries insertOk)

theorem CatalogKept.relocate {replaced : Database} {source destination : Text}
    {sourceLocation parent : Location} {now : Timestamp}
    (movable : Movable db replaced volume source destination sourceLocation parent)
    (relocated : Relocated replaced after volume source destination sourceLocation parent now) :
    CatalogKept base after := by
  have replacing : CatalogKept base replaced := by
    obtain ⟨-, ⟨-, rfl⟩ | ⟨location, -, rfl⟩⟩ := replaceDestination_ok movable.replaces
    · exact sofar
    · exact sofar.same (sameCatalog_deleteEntries db _)
  obtain ⟨-, updated⟩ | ⟨-, -, updated⟩ := relocated
  · exact replacing.same (sameCatalog_updateZones updated)
  · exact replacing.same (sameCatalog_updateEntries updated)

theorem CatalogKept.move {sourcePath destinationPath : Text} {now : Timestamp} {count : Nat}
    (done : db.move volume sourcePath destinationPath now = .ok (after, count)) :
    CatalogKept base after := by
  obtain ⟨replaced, sourceLocation, parent, movable, relocated⟩ := move_ok done
  exact sofar.relocate movable relocated

theorem CatalogKept.moveCommand {sourcePath destinationPath : Text} {now : Timestamp} {count : Int}
    (done : db.moveCommand volume sourcePath destinationPath now = .ok (after, count)) :
    CatalogKept base after := by
  obtain ⟨replaced, sourceLocation, parent, movable, relocated⟩ := moveCommand_ok done
  exact sofar.relocate movable relocated

omit sofar in
theorem sameCatalog_removeRows (db : Database) (volume : Uuid) (target : Text) (location : Location)
    (recursive : Bool) : SameCatalog db (db.removeRows volume target location recursive).1 := by
  unfold Database.removeRows
  split
  · exact ⟨⟨rfl, rfl, rfl, rfl, rfl, rfl, rfl⟩, fun _ member => member⟩
  · unfold Database.removeEntryRows
    split
    · exact ⟨⟨rfl, rfl, rfl, rfl, rfl, rfl, rfl⟩, fun _ member => member⟩
    · exact ⟨⟨rfl, rfl, rfl, rfl, rfl, rfl, rfl⟩, fun _ member => member⟩

theorem CatalogKept.remove {targetPath : Text} {recursive : Bool} {count : Nat}
    (done : db.remove volume targetPath recursive = .ok (after, count)) :
    CatalogKept base after := by
  obtain ⟨location, -, reclaimed, -⟩ := remove_ok.mp done
  exact (sofar.same (sameCatalog_removeRows db volume targetPath location recursive)).trans
    (catalogKept_reclaim reclaimed)

theorem CatalogKept.removeMany {targetPaths : List Text} {recursive forceMissing : Bool}
    {count : Nat}
    (done : db.removeMany volume targetPaths recursive forceMissing = .ok (after, count)) :
    CatalogKept base after := by
  refine removeMany_invariant (CatalogKept base) ?_ ?_ sofar done
  · intro state path next removed earlier removeOk
    exact CatalogKept.remove earlier removeOk
  · intro _ _ removing
    obtain ⟨-, -, -, reclaimed⟩ := removeBulk_ok.mp removing
    exact (sofar.same (sameCatalog_deleteEntries db _)).trans (catalogKept_reclaim reclaimed)

end Operations

section Imports

variable {db after : Database} {volume : Uuid}

def StagedEntry.isText (staged : StagedEntry) : Bool :=
  decide (staged.kind = .file) && (convertFrom staged.content).isSome

theorem StagedEntry.payload_of_isText {staged : StagedEntry} (isText : staged.isText = true) :
    ∃ content, staged.payload = .file (.text content) none := by
  unfold StagedEntry.isText at isText
  rw [Bool.and_eq_true, decide_eq_true_eq] at isText
  obtain ⟨content, decoded⟩ := Option.isSome_iff_exists.mp isText.2
  refine ⟨content, ?_⟩
  unfold StagedEntry.payload fileDataOf
  rw [isText.1, decoded]

theorem sameCatalog_applyImportInline {destination : Text} {staging : List StagedEntry}
    {now : Timestamp} {count : Nat}
    (done : db.applyImportInline volume destination staging now = .ok (after, count)) :
    SameCatalog db after := by
  obtain ⟨-, root, parent, -, -, ⟨-, inserted, zone, zoneOk, fillOk⟩ | ⟨-, insertOk⟩⟩ :=
    applyImportInline_ok done
  · exact (sameCatalog_insertZone zoneOk).trans (sameCatalog_insertEntries fillOk)
  · exact sameCatalog_insertEntries insertOk

/-- A staged text is in the row of the zone whose texts the import moves. -/
theorem applyImportInline_inlineText {destination : Text} {staging : List StagedEntry}
    {now : Timestamp} {count : Nat} {location : Location} (sound : Sound db)
    (distinct : (staging.map StagedEntry.relativePath).Nodup)
    (done : db.applyImportInline volume destination staging now = .ok (after, count))
    (located : after.locateZone volume destination = some location)
    {staged : StagedEntry} (member : staged ∈ staging) (isText : staged.isText = true) :
    ∃ entry ∈ after.zoneEntries, inlineText volume location.zoneId entry = true := by
  have keys := (applyImportInline_kept (.refl sound) done).sound.keys
  obtain ⟨content, payload⟩ := staged.payload_of_isText isText
  have regular : staged.kind = .file := by
    unfold StagedEntry.isText at isText
    rw [Bool.and_eq_true, decide_eq_true_eq] at isText
    exact isText.1
  obtain ⟨-, root, parent, batch, vacant, ⟨directory, inserted, zone, zoneOk, fillOk⟩ |
    ⟨single, insertOk⟩⟩ := applyImportInline_ok done
  · have nodes := (zoneNodes_insertEntries fillOk).trans (zoneNodes_insertZone zoneOk)
    have zoneId := (insertZone_ok zoneOk).2.1
    have here : importedZone volume parent destination root now db.nextNode ∈ after.zoneNodes := by
      rw [nodes]
      exact List.mem_append_right _ (List.mem_singleton_self _)
    have located := located_of_zone_path keys vacant.canonical located here rfl rfl
    have inner : staged.relativePath ≠ [] := by
      intro outer
      rw [batch.root_eq distinct member outer, directory] at regular
      cases regular
    have listed : importedEntry volume zone staged now ∈ importedRows volume zone staging now :=
      List.mem_map.mpr ⟨staged, List.mem_filter.mpr ⟨member, decide_eq_true inner⟩, rfl⟩
    obtain ⟨serial, -, arrived⟩ := exists_mem_numbered inserted.nextNode listed
    refine ⟨importedEntry volume zone staged now serial, ?_,
      inlineText_iff.mpr ⟨rfl, zoneId.trans located, content, payload⟩⟩
    rw [(insertEntries_ok fillOk).1]
    exact List.mem_append_right _ arrived
  · have outer : staged.relativePath = [] := by
      by_contra inner
      exact single (batch.root_directory distinct member inner)
    obtain rfl := batch.root_eq distinct member outer
    have sameZone := zoneId_of_vacant sound.keys vacant
      ((locateZone_congr (zoneNodes_insertEntries insertOk) volume destination).symm.trans located)
    refine ⟨importedRoot volume parent (nameOf destination) staged now db.nextNode, ?_,
      inlineText_iff.mpr ⟨rfl, sameZone.symm, content, payload⟩⟩
    rw [(insertEntries_ok insertOk).1]
    exact List.mem_append_right _ (List.mem_singleton_self _)

theorem catalog_importTree {destination : Text} {entries : List ImportEntry} {now : Timestamp}
    {count : Nat} (sound : Sound db)
    (done : db.importTree volume destination entries now = .ok (after, count)) :
    (Catalog db → Catalog after) ∧
      ((∀ staging root, ImportAccepted db volume destination entries staging root →
        staging.any StagedEntry.isText = true) → after.stagingSchemas = db.stagingSchemas) := by
  obtain ⟨staging, root, imported, location, accepted, importOk, located, blockOk⟩ :=
    importTree_accepted done
  have importing := sameCatalog_applyImportInline importOk
  obtain ⟨ordered, emptied⟩ := catalog_blockizeZoneSegment
    (applyImportInline_kept (.refl sound) importOk).sound.store blockOk
  constructor
  · exact fun catalog => ordered (importing.kept.catalog catalog)
  · intro texts
    obtain ⟨staged, member, isText⟩ := List.any_eq_true.mp (texts staging root accepted)
    exact (emptied (applyImportInline_inlineText sound accepted.distinct importOk located member
      isText)).trans importing.staging

theorem catalogKept_importText {target : Text} {reader : Bytes} {now : Timestamp} {id : NodeId}
    (store : StoreSound db) (done : db.importText volume target reader now = .ok (after, id)) :
    (Catalog db → Catalog after) ∧ after.stagingSchemas = db.stagingSchemas := by
  unfold Database.importText at done
  dsimp only at done
  obtain ⟨prepared, prepareOk, done⟩ := bind_eq_ok.mp done
  obtain ⟨⟨blocks, size⟩, -, done⟩ := bind_eq_ok.mp done
  obtain ⟨published, publishOk, done⟩ := bind_eq_ok.mp done
  obtain ⟨written, writeOk, updateOk⟩ := publishContent_ok done
  have writing := (sameCatalog_writeFileInline writeOk).trans (sameCatalog_updateEntries updateOk)
  constructor
  · intro catalog
    have start : Catalog { db with nextUuid := db.nextUuid + 2 } :=
      ⟨catalog.segment_volume, catalog.object_volume, catalog.plain_volume, catalog.bulk_volume⟩
    obtain ⟨ready, known⟩ := catalog_prepareContentSegment prepareOk start
    let object : ContentObject :=
      { id := db.nextUuid, volumeId := volume, byteSize := 0, segmentId := some (db.nextUuid + 1) }
    have owned : ∀ other ∈ [object], other.volumeId = volume := by
      intro other member
      rw [List.mem_singleton.mp member]
    have added := ready.addObjects known owned
    have ordered := catalog_publishContentSegment publishOk
      ⟨added.segment_volume, added.object_volume, added.plain_volume, added.bulk_volume⟩
    refine writing.kept.catalog ⟨ordered.segment_volume, ?_, ?_, ordered.bulk_volume⟩
    · intro object member
      obtain ⟨old, oldMember, rfl⟩ := List.mem_map.mp member
      have known := ordered.object_volume old oldMember
      split
      · exact known
      · exact known
    · intro block member
      obtain ⟨object, objectMember, owner, sameVolume⟩ := ordered.plain_volume block member
      refine ⟨_, List.mem_map_of_mem objectMember, ?_⟩
      split
      · exact ⟨owner, sameVolume⟩
      · exact ⟨owner, sameVolume⟩
  · have shape := publishContentSegment_ok { db with nextUuid := db.nextUuid + 2 } _
      (fun schema member => Nat.ne_of_lt (Nat.lt_succ_of_lt (store.staging_bound schema member)))
      (fun stored member => Nat.ne_of_lt (Nat.lt_succ_of_lt (store.segment_bound stored member)))
      (by
        rw [prepareContentSegment_ok prepareOk]
        rfl)
      (by
        rw [prepareContentSegment_ok prepareOk]
        rfl) publishOk
    have staging : published.stagingSchemas = db.stagingSchemas := by rw [shape]
    exact writing.staging.trans staging

end Imports

/-! ### Removing a volume -/

section Removing

variable {db after : Database} {volume : Uuid}

theorem ownsSegment_iff (store : StoreSound db) {stored : ContentSegment}
    (member : stored ∈ db.contentSegments) :
    db.ownsSegment volume stored.id = true ↔ stored.volumeId = volume := by
  unfold Database.ownsSegment
  rw [List.any_eq_true]
  constructor
  · rintro ⟨other, otherMember, owned⟩
    obtain ⟨sameId, inVolume⟩ := of_decide_eq_true owned
    rw [← List.inj_on_of_nodup_map store.segment_ids otherMember member sameId]
    exact inVolume
  · intro inVolume
    exact ⟨stored, member, decide_eq_true ⟨rfl, inVolume⟩⟩

theorem ownsObject_iff (store : StoreSound db) {object : ContentObject}
    (member : object ∈ db.contentObjects) :
    db.ownsObject volume object = true ↔ object.volumeId = volume := by
  unfold Database.ownsObject
  rw [decide_eq_true_eq]
  constructor
  · rintro (inVolume | inSegment)
    · exact inVolume
    · cases segment : object.segmentId with
      | none =>
          rw [segment] at inSegment
          cases inSegment
      | some id =>
          rw [segment] at inSegment
          obtain ⟨stored, storedMember, rfl, sameVolume⟩ := store.object_segment object member id segment
          exact sameVolume.symm.trans ((ownsSegment_iff store storedMember).mp inSegment)
  · exact Or.inl

theorem dropVolumeTable_eq (sound : Sound db) (catalog : Catalog db) (volume : Uuid) :
    db.dropVolumeTable volume =
      { db with
        volumeTables := db.volumeTables.filter (· ≠ volume)
        segmentTables := db.segmentTables.filter fun table => table.parent ≠ volume
        bulkContentBlocks := db.bulkContentBlocks.filter fun block => block.volumeId ≠ volume } := by
  unfold Database.dropVolumeTable
  split
  · rename_i unprepared
    -- A volume without a table has no segments, and so no blocks in them.
    have unknown : volume ∉ db.volumes.map Volume.id := by
      intro known
      obtain ⟨row, rowMember, rfl⟩ := List.mem_map.mp known
      exact unprepared (sound.keys.volume_table row rowMember)
    have tables : db.volumeTables.filter (fun table => decide (table ≠ volume)) = db.volumeTables := by
      rw [List.filter_eq_self]
      intro table member
      exact decide_eq_true fun same => unprepared (same ▸ member)
    have segments : db.segmentTables.filter (fun table => decide (table.parent ≠ volume)) =
        db.segmentTables := by
      rw [List.filter_eq_self, sound.store.segment_tables]
      intro table listed
      obtain ⟨stored, member, rfl⟩ := List.mem_map.mp listed
      exact decide_eq_true fun inVolume => unknown (inVolume ▸ catalog.segment_volume stored member)
    have blocks : db.bulkContentBlocks.filter (fun block => decide (block.volumeId ≠ volume)) =
        db.bulkContentBlocks := by
      rw [List.filter_eq_self]
      intro block member
      obtain ⟨stored, storedMember, -, sameVolume⟩ := catalog.bulk_volume block member
      refine decide_eq_true fun inVolume => unknown ?_
      rw [← inVolume, ← sameVolume]
      exact catalog.segment_volume stored storedMember
    rw [tables, segments, blocks]
  · rfl

theorem deleteVolume_ok (deleted : db.deleteVolume volume = .ok after) :
    after = { db with
      volumes := db.volumes.filter fun stored => stored.id ≠ volume
      zones := db.zones.filter fun zone => zone.volumeId ≠ volume
      contentObjects := db.contentObjects.filter fun object => !db.ownsObject volume object
      contentBlocks := db.contentBlocks.filter fun block =>
        block.objectId ∉ (db.contentObjects.filter (db.ownsObject volume)).map ContentObject.id
      contentSegments := db.contentSegments.filter fun stored => stored.volumeId ≠ volume } := by
  unfold Database.deleteVolume at deleted
  dsimp only at deleted
  split at deleted
  · cases deleted
  · exact (Except.ok.inj deleted).symm

/-- What is left of a database without a volume that has no entries. -/
def Database.withoutVolume (db : Database) (volume : Uuid) : Database :=
  { db with
    volumes := db.volumes.filter fun stored => stored.id ≠ volume
    zones := db.zones.filter fun zone => zone.volumeId ≠ volume
    contentObjects := db.contentObjects.filter fun object => object.volumeId ≠ volume
    contentBlocks := db.contentBlocks.filter fun block => block.volumeId ≠ volume
    contentSegments := db.contentSegments.filter fun stored => stored.volumeId ≠ volume
    volumeTables := db.volumeTables.filter (· ≠ volume)
    segmentTables := db.segmentTables.filter fun table => table.parent ≠ volume
    bulkContentBlocks := db.bulkContentBlocks.filter fun block => block.volumeId ≠ volume }

/-- The last two statements of `pgos.remove_volume` leave the rows of the other volumes. -/
theorem deleteVolume_eq (sound : Sound db) (catalog : Catalog db)
    (deleted : (db.dropVolumeTable volume).deleteVolume volume = .ok after) :
    after = db.withoutVolume volume := by
  rw [dropVolumeTable_eq sound catalog] at deleted
  rw [deleteVolume_ok deleted]
  have objects : db.contentObjects.filter (fun object => !db.ownsObject volume object) =
      db.contentObjects.filter fun object => object.volumeId ≠ volume := by
    apply List.filter_congr
    intro object member
    rw [Bool.eq_iff_iff, Bool.not_eq_true', ← Bool.not_eq_true, ownsObject_iff sound.store member,
      decide_eq_true_eq]
  have blocks : db.contentBlocks.filter (fun block => decide (block.objectId ∉
      (db.contentObjects.filter (db.ownsObject volume)).map ContentObject.id)) =
        db.contentBlocks.filter fun block => block.volumeId ≠ volume := by
    apply List.filter_congr
    intro block member
    obtain ⟨object, objectMember, owner, sameVolume⟩ := catalog.plain_volume block member
    rw [decide_eq_decide, ← sameVolume, not_iff_not]
    constructor
    · intro listed
      obtain ⟨other, otherMember, sameId⟩ := List.mem_map.mp listed
      obtain ⟨inTable, owned⟩ := List.mem_filter.mp otherMember
      rw [← sound.store.object_eq inTable objectMember (sameId.trans owner.symm)]
      exact (ownsObject_iff sound.store inTable).mp owned
    · intro inVolume
      exact List.mem_map.mpr ⟨object, List.mem_filter.mpr
        ⟨objectMember, (ownsObject_iff sound.store objectMember).mpr inVolume⟩, owner⟩
  unfold Database.withoutVolume
  rw [← objects, ← blocks]
  rfl

theorem withoutVolume_catalog (catalog : Catalog db) (volume : Uuid) :
    Catalog (db.withoutVolume volume) := by
  have known {other : Uuid} (listed : other ∈ db.volumes.map Volume.id) (stays : other ≠ volume) :
      other ∈ (db.volumes.filter fun stored => stored.id ≠ volume).map Volume.id := by
    obtain ⟨row, member, rfl⟩ := List.mem_map.mp listed
    exact List.mem_map_of_mem (List.mem_filter.mpr ⟨member, decide_eq_true stays⟩)
  constructor
  · intro stored member
    obtain ⟨inTable, stays⟩ := List.mem_filter.mp member
    exact known (catalog.segment_volume stored inTable) (of_decide_eq_true stays)
  · intro object member
    obtain ⟨inTable, stays⟩ := List.mem_filter.mp member
    exact known (catalog.object_volume object inTable) (of_decide_eq_true stays)
  · intro block member
    obtain ⟨inTable, stays⟩ := List.mem_filter.mp member
    obtain ⟨object, objectMember, owner, sameVolume⟩ := catalog.plain_volume block inTable
    refine ⟨object, List.mem_filter.mpr ⟨objectMember, ?_⟩, owner, sameVolume⟩
    rw [sameVolume]
    exact stays
  · intro block member
    obtain ⟨inTable, stays⟩ := List.mem_filter.mp member
    obtain ⟨stored, storedMember, inSegment, sameVolume⟩ := catalog.bulk_volume block inTable
    refine ⟨stored, List.mem_filter.mpr ⟨storedMember, ?_⟩, inSegment, sameVolume⟩
    rw [sameVolume]
    exact stays

theorem withoutVolume_keys (keys : Keys db)
    (none : ∀ entry ∈ db.zoneEntries, entry.volumeId ≠ volume) : Keys (db.withoutVolume volume) := by
  have node {zone : ZoneNode} : zone ∈ (db.withoutVolume volume).zoneNodes ↔
      zone ∈ db.zoneNodes ∧ zone.volumeId ≠ volume := by
    unfold Database.zoneNodes Database.withoutVolume
    dsimp only
    rw [List.mem_map, List.mem_map]
    constructor
    · rintro ⟨row, member, rfl⟩
      obtain ⟨inTable, stays⟩ := List.mem_filter.mp member
      exact ⟨⟨row, inTable, rfl⟩, of_decide_eq_true stays⟩
    · rintro ⟨⟨row, member, rfl⟩, stays⟩
      exact ⟨row, List.mem_filter.mpr ⟨member, decide_eq_true stays⟩, rfl⟩
  constructor
  · exact keys.entry_ids
  · exact keys.entry_bound
  · exact fun zone member => keys.zone_bound zone (node.mp member).1
  · exact fun entry member zone zoneMember => keys.ids_apart entry member zone (node.mp zoneMember).1
  · exact keys.zones_distinct.sublist (List.filter_sublist.map Zone.toZoneNode)
  · exact keys.entries_distinct
  · intro entry member
    obtain ⟨zone, zoneMember, sameId, sameVolume⟩ := keys.entry_zone entry member
    exact ⟨zone, node.mpr ⟨zoneMember, sameVolume ▸ none entry member⟩, sameId, sameVolume⟩
  · intro zone member
    obtain ⟨stored, stays⟩ := node.mp member
    obtain ⟨row, rowMember, sameId⟩ := List.mem_map.mp (keys.zone_volume zone stored)
    rw [← sameId] at stays ⊢
    exact List.mem_map_of_mem (List.mem_filter.mpr ⟨rowMember, decide_eq_true stays⟩)
  · exact fun zone member => keys.zone_path zone (node.mp member).1
  · intro row member
    obtain ⟨inTable, stays⟩ := List.mem_filter.mp member
    obtain ⟨zone, zoneMember, inVolume, path⟩ := keys.root row inTable
    exact ⟨zone, node.mpr ⟨zoneMember, inVolume ▸ of_decide_eq_true stays⟩, inVolume, path⟩
  · intro row member
    obtain ⟨inTable, stays⟩ := List.mem_filter.mp member
    exact List.mem_filter.mpr ⟨keys.volume_table row inTable, stays⟩

theorem withoutVolume_storeSound (store : StoreSound db) (catalog : Catalog db) (volume : Uuid) :
    StoreSound (db.withoutVolume volume) := by
  have segmentStays {object : ContentObject} (member : object ∈ db.contentObjects)
      (stays : object.volumeId ≠ volume) {segment : Uuid} (inSegment : object.segmentId = some segment) :
      ∃ stored ∈ db.contentSegments.filter fun stored => stored.volumeId ≠ volume,
        stored.id = segment ∧ stored.volumeId = object.volumeId := by
    obtain ⟨stored, storedMember, sameId, sameVolume⟩ := store.object_segment object member segment inSegment
    exact ⟨stored, List.mem_filter.mpr ⟨storedMember, decide_eq_true (sameVolume ▸ stays)⟩, sameId,
      sameVolume⟩
  -- A block belongs to the volume of its object.
  have plainVolume {block : ContentBlock} (member : block ∈ db.contentBlocks) {object : ContentObject}
      (objectMember : object ∈ db.contentObjects) (owner : object.id = block.objectId) :
      object.volumeId = block.volumeId := by
    obtain ⟨other, otherMember, otherOwner, sameVolume⟩ := catalog.plain_volume block member
    rw [store.object_eq objectMember otherMember (owner.trans otherOwner.symm)]
    exact sameVolume
  have bulkVolume {block : ContentBlock} (member : block ∈ db.bulkContentBlocks) {object : ContentObject}
      (objectMember : object ∈ db.contentObjects) (owner : object.id = block.objectId) :
      object.volumeId = block.volumeId := by
    obtain ⟨-, other, otherMember, otherOwner, sameSegment⟩ := store.bulk_object block member
    obtain rfl := store.object_eq objectMember otherMember (owner.trans otherOwner.symm)
    obtain ⟨stored, storedMember, inSegment, sameVolume⟩ := catalog.bulk_volume block member
    obtain ⟨found, foundMember, foundId, foundVolume⟩ :=
      store.object_segment object objectMember stored.id (sameSegment.trans inSegment)
    rw [← foundVolume, List.inj_on_of_nodup_map store.segment_ids foundMember storedMember foundId]
    exact sameVolume
  constructor
  · exact store.object_ids.sublist (List.filter_sublist.map ContentObject.id)
  · exact fun object member => store.object_bound object (List.mem_of_mem_filter member)
  · intro object member segment inSegment
    obtain ⟨inTable, stays⟩ := List.mem_filter.mp member
    exact segmentStays inTable (of_decide_eq_true stays) inSegment
  · intro object member
    obtain ⟨inTable, stays⟩ := List.mem_filter.mp member
    have rows : (db.withoutVolume volume).blockRows object.id = db.blockRows object.id := by
      unfold Database.blockRows Database.allContentBlocks Database.withoutVolume
      dsimp only
      rw [List.filter_append, List.filter_append, List.filter_filter, List.filter_filter]
      congr 1
      · apply List.filter_congr
        intro block blockMember
        by_cases owner : block.objectId = object.id
        · rw [decide_eq_true owner, Bool.true_and, ← plainVolume blockMember inTable owner.symm]
          exact stays
        · rw [decide_eq_false owner, Bool.false_and]
      · apply List.filter_congr
        intro block blockMember
        by_cases owner : block.objectId = object.id
        · rw [decide_eq_true owner, Bool.true_and, ← bulkVolume blockMember inTable owner.symm]
          exact stays
        · rw [decide_eq_false owner, Bool.false_and]
    obtain ⟨content, blocks, size⟩ := store.object_blocks object inTable
    exact ⟨content, rows.symm ▸ blocks, size⟩
  · intro block member
    obtain ⟨inTable, stays⟩ := List.mem_filter.mp member
    obtain ⟨plain, object, objectMember, owner, alone⟩ := store.block_object block inTable
    refine ⟨plain, object, List.mem_filter.mpr ⟨objectMember, ?_⟩, owner, alone⟩
    rw [plainVolume inTable objectMember owner]
    exact stays
  · intro block member
    obtain ⟨inTable, stays⟩ := List.mem_filter.mp member
    obtain ⟨bulk, object, objectMember, owner, sameSegment⟩ := store.bulk_object block inTable
    refine ⟨bulk, object, List.mem_filter.mpr ⟨objectMember, ?_⟩, owner, sameSegment⟩
    rw [bulkVolume inTable objectMember owner]
    exact stays
  · exact store.segment_ids.sublist (List.filter_sublist.map ContentSegment.id)
  · exact fun stored member => store.segment_bound stored (List.mem_of_mem_filter member)
  · exact fun stored member => store.segment_published stored (List.mem_of_mem_filter member)
  · exact (congrArg (List.filter _) store.segment_tables).trans List.filter_map
  · exact store.staging_bound

theorem withoutVolume_sound (sound : Sound db) (catalog : Catalog db)
    (none : ∀ entry ∈ db.zoneEntries, entry.volumeId ≠ volume) : Sound (db.withoutVolume volume) where
  keys := withoutVolume_keys sound.keys none
  accounts := fun zone member => sound.accounts zone (List.mem_of_mem_filter member)
  store := withoutVolume_storeSound sound.store catalog volume
  stored := by
    intro entry member
    refine (sound.stored entry member).mono ?_
    intro object objectMember refers
    obtain ⟨-, found, foundMember, sameId, inVolume, -⟩ := (sound.stored entry member).object refers
    rw [sound.store.object_eq foundMember objectMember sameId] at inVolume
    exact List.mem_filter.mpr ⟨objectMember, decide_eq_true (inVolume ▸ none entry member)⟩

theorem removeVolume_sound (sound : Sound db) (catalog : Catalog db)
    (done : db.removeVolume volume = .ok after) :
    Sound after ∧ Catalog after ∧ after.stagingSchemas = db.stagingSchemas := by
  obtain ⟨reclaimed, reclaimOk, deleted⟩ := removeVolume_ok done
  let emptied := db.deleteEntries fun entry => entry.volumeId = volume
  have emptiedSound : Sound emptied := ((Kept.refl sound).deleteEntries _).sound
  have sofar := Reclaimed.of_reclaim emptiedSound.store emptiedSound.stored reclaimOk
  have reclaimedSound : Sound reclaimed := (((Kept.refl sound).deleteEntries _).reclaim reclaimOk).sound
  have kept := (sameCatalog_deleteEntries db fun entry => decide (entry.volumeId = volume)).kept.trans
    (catalogKept_reclaim reclaimOk)
  have none : ∀ entry ∈ reclaimed.zoneEntries, entry.volumeId ≠ volume := by
    rw [sofar.tables.zoneEntries]
    intro entry member inVolume
    obtain ⟨-, stays⟩ := List.mem_filter.mp member
    simp [inVolume] at stays
  rw [deleteVolume_eq reclaimedSound (kept.catalog catalog) deleted]
  exact ⟨withoutVolume_sound reclaimedSound (kept.catalog catalog) none,
    withoutVolume_catalog (kept.catalog catalog) volume, kept.staging⟩

end Removing

/-! ### Runs -/

/-- An import that passes its checks brings a file that is kept as text. -/
def Call.FillsSegment (db : Database) : Call → Prop
  | .operation (.importTree volume destination entries _) =>
      ∀ staging root, ImportAccepted db volume destination entries staging root →
        staging.any StagedEntry.isText = true
  | _ => True

/-- What holds between the calls, volumes being removed too. -/
structure Orderly (db : Database) : Prop where
  sound : Sound db
  unmapped : db.contentMapping = none
  catalog : Catalog db

theorem orderly_empty : Orderly Database.empty :=
  ⟨committed_empty.sound, rfl, catalog_empty⟩

theorem known_of_locateParent {db : Database} (keys : Keys db) {volume : Uuid} {path : Text}
    {parent : Location} (located : db.locateParent volume path = some parent) :
    volume ∈ db.volumes.map Volume.id := by
  obtain ⟨above, -, found⟩ := Option.bind_eq_some_iff.mp located
  obtain ⟨zone, member, -⟩ := locateZone_eq_some found
  obtain ⟨stored, inVolume⟩ := mem_tree_zones.mp member
  exact inVolume ▸ keys.zone_volume zone stored

/-- What one operation does to the catalog. -/
theorem run_catalog {db after : Database} {op : Op} (sound : Sound db) (done : op.run db = .ok after) :
    (Catalog db → Catalog after) ∧
      ((Call.operation op).FillsSegment db → after.stagingSchemas = db.stagingSchemas) := by
  have kept (sofar : CatalogKept db after) : (Catalog db → Catalog after) ∧
      ((Call.operation op).FillsSegment db → after.stagingSchemas = db.stagingSchemas) :=
    ⟨sofar.catalog, fun _ => sofar.staging⟩
  have start := CatalogKept.refl db
  cases op with
  | createVolume volumeId volumeName now =>
      obtain ⟨⟨last, id⟩, ran, rfl⟩ := map_eq_ok.mp done
      exact kept (start.createVolume ran)
  | mkdir volume targetPath parents mode now => exact kept (start.mkdir done)
  | mkdirMany volume targetPaths parents now => exact kept (start.mkdirMany done)
  | writeFile volume targetPath data mode now =>
      obtain ⟨⟨last, id⟩, ran, rfl⟩ := map_eq_ok.mp done
      obtain ⟨written, -, -, writeOk, -⟩ := writeFile_ok ran
      obtain ⟨-, -, parent, located, -⟩ := writeFileInline_ok writeOk
      exact kept (start.writeFile (known_of_locateParent sound.keys located) ran)
  | importTree volume destination entries now =>
      obtain ⟨⟨last, count⟩, ran, rfl⟩ := map_eq_ok.mp done
      exact catalog_importTree sound ran
  | importText volume target reader now =>
      obtain ⟨⟨last, id⟩, ran, rfl⟩ := map_eq_ok.mp done
      obtain ⟨ordered, staging⟩ := catalogKept_importText sound.store ran
      exact ⟨ordered, fun _ => staging⟩
  | copy volume sourcePath destinationPath recursive now =>
      obtain ⟨⟨last, count⟩, ran, rfl⟩ := map_eq_ok.mp done
      exact kept (start.copy ran)
  | move volume sourcePath destinationPath now =>
      obtain ⟨⟨last, count⟩, ran, rfl⟩ := map_eq_ok.mp done
      exact kept (start.move ran)
  | moveCommand volume sourcePath destinationPath now =>
      obtain ⟨⟨last, count⟩, ran, rfl⟩ := map_eq_ok.mp done
      exact kept (start.moveCommand ran)
  | remove volume targetPath recursive =>
      obtain ⟨⟨last, count⟩, ran, rfl⟩ := map_eq_ok.mp done
      exact kept (start.remove ran)
  | removeMany volume targetPaths recursive forceMissing =>
      obtain ⟨⟨last, count⟩, ran, rfl⟩ := map_eq_ok.mp done
      exact kept (start.removeMany ran)
  | setTimes volume targetPath atimeSeconds atimeNanoseconds mtimeSeconds mtimeNanoseconds now =>
      obtain ⟨⟨last, rows⟩, ran, rfl⟩ := map_eq_ok.mp done
      exact kept (start.setTimes ran)

theorem Orderly.step {before after : Database} {call : Call} (orderly : Orderly before)
    (moved : CallStep before call after) :
    Orderly after ∧ (call.FillsSegment before → after.stagingSchemas = before.stagingSchemas) := by
  unfold CallStep transact at moved
  split at moved
  · rename_i last ran
    rw [moved]
    cases call with
    | operation op =>
        obtain ⟨ordered, staging⟩ := run_catalog orderly.sound ran
        have catalog := ordered orderly.catalog
        exact ⟨⟨(run_kept orderly.sound orderly.unmapped ran).commit.sound, rfl, catalog.segment_volume,
          catalog.object_volume, catalog.plain_volume, catalog.bulk_volume⟩, staging⟩
    | removeVolume volume =>
        obtain ⟨sound, catalog, staging⟩ := removeVolume_sound orderly.sound orderly.catalog ran
        exact ⟨⟨(Kept.refl sound).commit.sound, rfl, catalog.segment_volume, catalog.object_volume,
          catalog.plain_volume, catalog.bulk_volume⟩, fun _ => staging⟩
  · rw [moved]
    exact ⟨orderly, fun _ => rfl⟩

theorem orderly_of_reachable {db : Database} (reachable : ReachableByCalls db) : Orderly db :=
  Reachable.invariant orderly_empty (fun _ _ _ orderly moved => (orderly.step moved).1) reachable

/-- Each segment is published, and its table is a partition of the table of its volume and
of no other. -/
def Database.SegmentsAttached (db : Database) : Prop :=
  ∀ stored ∈ db.contentSegments, stored.published = true ∧ stored.volumeId ∈ db.volumeTables ∧
    { segment := stored.id, parent := stored.volumeId } ∈ db.segmentTables ∧
    ∀ table ∈ db.segmentTables, table.segment = stored.id → table.parent = stored.volumeId

theorem Sound.segmentsAttached {db : Database} (sound : Sound db) (catalog : Catalog db) :
    db.SegmentsAttached := by
  intro stored member
  obtain ⟨volume, volumeMember, same⟩ := List.mem_map.mp (catalog.segment_volume stored member)
  refine ⟨sound.store.segment_published stored member,
    same ▸ sound.keys.volume_table volume volumeMember, sound.store.segment_table member, ?_⟩
  intro table listed named
  rw [sound.store.segment_tables] at listed
  obtain ⟨other, otherMember, rfl⟩ := List.mem_map.mp listed
  exact congrArg ContentSegment.volumeId
    (List.inj_on_of_nodup_map sound.store.segment_ids otherMember member named)

/-- While every import brings a text, each segment is published in a partition of the table
of its volume, and no staging schema is left between the calls. -/
theorem segments_published {db : Database}
    (reached : Guarded Database.empty CallStep (fun before call => call.FillsSegment before) db) :
    db.SegmentsAttached ∧ db.stagingSchemas = [] := by
  obtain ⟨sound, -, catalog⟩ := orderly_of_reachable reached.reachable
  constructor
  · exact sound.segmentsAttached catalog
  · have always : ∀ state, Reachable Database.empty CallStep state → Orderly state :=
      fun _ => orderly_of_reachable
    have kept : ∀ before (call : Call) after, Orderly before → before.stagingSchemas = [] →
        call.FillsSegment before → CallStep before call after → after.stagingSchemas = [] :=
      fun before call after orderly empty filled moved => ((orderly.step moved).2 filled).trans empty
    exact @Guarded.invariant Database Call _ _ _ Orderly (fun state => state.stagingSchemas = [])
      always rfl kept db reached

/-- A directory with a text, a binary file, a link and an empty directory. -/
def mixedBatch : List ImportEntry :=
  [{ relativePath := [], kind := 2, content := [], mode := 493, uid := 0, gid := 0
     mtimeSeconds := 0, mtimeNanoseconds := 0, linkTarget := [] },
    { relativePath := ['t'], kind := 1, content := [104, 105], mode := 420, uid := 0, gid := 0
      mtimeSeconds := 0, mtimeNanoseconds := 0, linkTarget := [] },
    { relativePath := ['b'], kind := 1, content := [255], mode := 420, uid := 0, gid := 0
      mtimeSeconds := 0, mtimeNanoseconds := 0, linkTarget := [] },
    { relativePath := ['l'], kind := 3, content := [], mode := 511, uid := 0, gid := 0
      mtimeSeconds := 0, mtimeNanoseconds := 0, linkTarget := ['t'] },
    { relativePath := ['e'], kind := 2, content := [], mode := 493, uid := 0, gid := 0
      mtimeSeconds := 0, mtimeNanoseconds := 0, linkTarget := [] }]

/-- An import of a mixed tree, after which another volume is removed. -/
def mixedCalls : List Call :=
  [.operation (.createVolume 7 ['v'] 0), .operation (.createVolume 8 ['w'] 0),
    .operation (.importTree 7 ['/', 'd'] mixedBatch 1), .removeVolume 8]

def Database.afterCalls (db : Database) (calls : List Call) : Database :=
  calls.foldl (fun before call => transact before (call.run before)) db

theorem segments_published_mixed :
    (Database.empty.afterCalls mixedCalls).contentSegments ≠ [] ∧
    (Database.empty.afterCalls mixedCalls).SegmentsAttached ∧
    (Database.empty.afterCalls mixedCalls).stagingSchemas = [] := by
  refine ⟨by decide +kernel, segments_published (.next (.removeVolume 8) (.next
    (.operation (.importTree 7 ['/', 'd'] mixedBatch 1)) (.next
      (.operation (.createVolume 8 ['w'] 0)) (.next (.operation (.createVolume 7 ['v'] 0)) .start
        trivial rfl) trivial rfl) ?_ rfl) trivial rfl)⟩
  intro staging root accepted
  have staged := accepted.staged
  have computed : mixedBatch.mapM stageEntry = .ok
      (mixedBatch.filterMap fun entry => (stageEntry entry).toOption) := by decide +kernel
  obtain rfl := Except.ok.inj (computed.symm.trans staged)
  decide +kernel

def emptyImportCalls : List Call :=
  [.operation (.createVolume 7 ['v'] 0),
    .operation (.importTree 7 ['/', 'd'] (mixedBatch.take 1) 1)]

theorem segments_not_published :
    ¬ ∀ db, ReachableByCalls db → db.SegmentsAttached ∧ db.stagingSchemas = [] := by
  intro every
  have reached : ReachableByCalls (Database.empty.afterCalls emptyImportCalls) :=
    .next (.operation (.importTree 7 ['/', 'd'] (mixedBatch.take 1) 1))
      (.next (.operation (.createVolume 7 ['v'] 0)) .start rfl) rfl
  have none := (every _ reached).2
  revert none
  decide +kernel

end PostgreOS
