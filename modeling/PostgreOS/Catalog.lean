/-
The catalog of segments.

Segments, objects and blocks belong to existing volumes, and the blocks of a segment to the
volume of the segment. Every call keeps this, and a staging schema stays behind only
where an import finds no text to move to a segment.
-/

import PostgreOS.Operations.Volumes
import PostgreOS.Statements

namespace PostgreOS

open Library.Outcome Library.Table Library.Transition

structure Catalog (db : Database) : Prop where
  segment_volume : ∀ stored ∈ db.contentSegments, stored.volumeId ∈ db.volumes.map Volume.id
  object_volume : ∀ object ∈ db.contentObjects, object.volumeId ∈ db.volumes.map Volume.id
  plain_volume : ∀ block ∈ db.contentBlocks, ∃ object ∈ db.contentObjects,
    object.id = block.objectId ∧ object.volumeId = block.volumeId
  bulk_volume : ∀ block ∈ db.bulkContentBlocks, ∃ stored ∈ db.contentSegments,
    block.segmentId = some stored.id ∧ stored.volumeId = block.volumeId

theorem catalog_empty : Catalog Database.empty where
  segment_volume := fun _ member => absurd member List.not_mem_nil
  object_volume := fun _ member => absurd member List.not_mem_nil
  plain_volume := fun _ member => absurd member List.not_mem_nil
  bulk_volume := fun _ member => absurd member List.not_mem_nil

/-- The content store and the staging schemas are as they were. -/
structure SameCatalog (db after : Database) : Prop extends SameStore db after where
  volumes : ∀ volume ∈ db.volumes.map Volume.id, volume ∈ after.volumes.map Volume.id

/-- The catalog is still in order, and no staging schema has come or gone. -/
structure CatalogKept (db after : Database) : Prop where
  volumes : ∀ volume ∈ db.volumes.map Volume.id, volume ∈ after.volumes.map Volume.id
  catalog : Catalog db → Catalog after
  staging : after.stagingSchemas = db.stagingSchemas

section Steps

variable {db middle after : Database} {volume : Uuid}

theorem CatalogKept.refl (db : Database) : CatalogKept db db :=
  ⟨fun _ member => member, fun catalog => catalog, rfl⟩

theorem CatalogKept.trans (first : CatalogKept db middle) (second : CatalogKept middle after) :
    CatalogKept db after :=
  ⟨fun volume member => second.volumes volume (first.volumes volume member),
    fun catalog => second.catalog (first.catalog catalog), second.staging.trans first.staging⟩

theorem SameCatalog.trans (first : SameCatalog db middle) (second : SameCatalog middle after) :
    SameCatalog db after :=
  { toSameStore := first.toSameStore.trans second.toSameStore
    volumes := fun volume member => second.volumes volume (first.volumes volume member) }

theorem SameCatalog.kept (same : SameCatalog db after) : CatalogKept db after where
  volumes := same.volumes
  staging := same.staging
  catalog := by
    intro catalog
    constructor
    · rw [same.segments]
      exact fun stored member => same.volumes _ (catalog.segment_volume stored member)
    · rw [same.objects]
      exact fun object member => same.volumes _ (catalog.object_volume object member)
    · rw [same.plain, same.objects]
      exact catalog.plain_volume
    · rw [same.bulk, same.segments]
      exact catalog.bulk_volume

theorem sameCatalog_insertEntries {makers : List (NodeId → ZoneEntry)}
    (inserted : db.insertEntries makers = .ok after) : SameCatalog db after := by
  obtain ⟨rfl, -⟩ := insertEntries_ok inserted
  exact ⟨⟨rfl, rfl, rfl, rfl, rfl, rfl, rfl⟩, fun _ member => member⟩

theorem sameCatalog_deleteEntries (db : Database) (selected : ZoneEntry → Bool) :
    SameCatalog db (db.deleteEntries selected) :=
  ⟨⟨rfl, rfl, rfl, rfl, rfl, rfl, rfl⟩, fun _ member => member⟩

theorem sameCatalog_updateEntries {selected : ZoneEntry → Bool} {change : ZoneEntry → ZoneEntry}
    (updated : db.updateEntries selected change = .ok after) : SameCatalog db after := by
  obtain ⟨rfl, -⟩ := updateEntries_ok updated
  exact ⟨⟨rfl, rfl, rfl, rfl, rfl, rfl, rfl⟩, fun _ member => member⟩

theorem sameCatalog_insertZone {make : NodeId → ZoneNode} {id : NodeId}
    (inserted : db.insertZone make = .ok (after, id)) : SameCatalog db after := by
  obtain ⟨rfl, -⟩ := insertZone_ok inserted
  exact ⟨⟨rfl, rfl, rfl, rfl, rfl, rfl, rfl⟩, fun _ member => member⟩

theorem sameCatalog_updateZones {selected : Zone → Bool} {change : Zone → Zone}
    (updated : db.updateZones selected change = .ok after) : SameCatalog db after := by
  obtain ⟨rfl, -⟩ := updateZones_ok updated
  exact ⟨⟨rfl, rfl, rfl, rfl, rfl, rfl, rfl⟩, fun _ member => member⟩

/-! ### Statements on the store -/

theorem catalogKept_reclaimSegment {segment : Uuid}
    (reclaimed : db.reclaimSegment segment = .ok after) : CatalogKept db after := by
  obtain ⟨rfl, -⟩ := reclaimSegment_ok reclaimed
  refine ⟨fun _ member => member, ?_, rfl⟩
  intro catalog
  constructor
  · exact fun stored member => catalog.segment_volume stored (List.mem_of_mem_filter member)
  · exact fun object member => catalog.object_volume object (List.mem_of_mem_filter member)
  · intro block member
    obtain ⟨inTable, remains⟩ := List.mem_filter.mp member
    obtain ⟨object, objectMember, owner, sameVolume⟩ := catalog.plain_volume block inTable
    refine ⟨object, List.mem_filter.mpr ⟨objectMember, decide_eq_true ?_⟩, owner, sameVolume⟩
    intro inSegment
    refine of_decide_eq_true remains (List.mem_map.mpr ⟨object, ?_, owner⟩)
    exact List.mem_filter.mpr ⟨objectMember, decide_eq_true inSegment⟩
  · intro block member
    obtain ⟨inTable, remains⟩ := List.mem_filter.mp member
    obtain ⟨stored, storedMember, inSegment, sameVolume⟩ := catalog.bulk_volume block inTable
    refine ⟨stored, List.mem_filter.mpr ⟨storedMember, decide_eq_true ?_⟩, inSegment, sameVolume⟩
    rintro rfl
    exact of_decide_eq_true remains inSegment

theorem catalogKept_reclaim (reclaimed : db.reclaimContentSegments volume = .ok after) :
    CatalogKept db after :=
  foldlM_invariant (CatalogKept db)
    (fun _ _ _ _ sofar stepped => sofar.trans (catalogKept_reclaimSegment stepped)) (.refl db) reclaimed

theorem Catalog.addObjects {objects : List ContentObject} (catalog : Catalog db)
    (known : volume ∈ db.volumes.map Volume.id)
    (owned : ∀ object ∈ objects, object.volumeId = volume) :
    Catalog { db with contentObjects := db.contentObjects ++ objects } := by
  refine ⟨catalog.segment_volume, ?_, ?_, catalog.bulk_volume⟩
  · intro object member
    rcases List.mem_append.mp member with old | new
    · exact catalog.object_volume object old
    · rw [owned object new]
      exact known
  · intro block member
    obtain ⟨object, objectMember, found⟩ := catalog.plain_volume block member
    exact ⟨object, List.mem_append_left _ objectMember, found⟩

theorem Catalog.addBlocks {blocks : List ContentBlock} (catalog : Catalog db)
    (listed : ∀ block ∈ blocks, ∃ object ∈ db.contentObjects,
      object.id = block.objectId ∧ object.volumeId = block.volumeId) :
    Catalog { db with contentBlocks := db.contentBlocks ++ blocks } := by
  refine ⟨catalog.segment_volume, catalog.object_volume, ?_, catalog.bulk_volume⟩
  intro block member
  rcases List.mem_append.mp member with old | new
  · exact catalog.plain_volume block old
  · exact listed block new

/-- What publishing a segment adds. -/
theorem publishContentSegment_shape {segment : Uuid}
    (published : db.publishContentSegment volume segment = .ok after) :
    ∃ blocks : List ContentBlock,
      (∀ block ∈ blocks, block.segmentId = some segment ∧ block.volumeId = volume) ∧
      (∃ stored ∈ db.contentSegments, stored.id = segment ∧ stored.volumeId = volume) ∧
      after = { db with
        bulkContentBlocks := db.bulkContentBlocks ++ blocks
        segmentTables := db.segmentTables ++ [{ segment := segment, parent := volume }]
        stagingSchemas := db.stagingSchemas.filter fun schema => schema.1 ≠ segment
        contentSegments := db.contentSegments.map fun stored =>
          if stored.id = segment then { stored with published := true } else stored } := by
  unfold Database.publishContentSegment at published
  dsimp only at published
  split at published
  · cases published
  · rename_i ready
    split at published
    · cases published
    · rename_i matching
      split at published
      · cases published
      · refine ⟨db.stagedBlocks segment, ?_, ?_, (Except.ok.inj published).symm⟩
        · intro block member
          have fits := List.filter_eq_nil_iff.mp (not_not.mp matching) block member
          simpa [not_or] using fits
        · obtain ⟨stored, member⟩ := List.exists_mem_of_ne_nil _ ready
          obtain ⟨inTable, chosen⟩ := List.mem_filter.mp member
          obtain ⟨sameId, sameVolume, -⟩ := of_decide_eq_true chosen
          exact ⟨stored, inTable, sameId, sameVolume⟩

/-- Publishing keeps the catalog in order. -/
theorem catalog_publishContentSegment {segment : Uuid}
    (published : db.publishContentSegment volume segment = .ok after) (catalog : Catalog db) :
    Catalog after := by
  obtain ⟨blocks, fit, ⟨ready, readyMember, readyId, readyVolume⟩, rfl⟩ :=
    publishContentSegment_shape published
  -- The rows of `content_segments` change in the column `published` only.
  have row {stored : ContentSegment} (member : stored ∈ db.contentSegments) :
      ∃ other ∈ db.contentSegments.map (fun stored =>
          if stored.id = segment then { stored with published := true } else stored),
        other.id = stored.id ∧ other.volumeId = stored.volumeId := by
    refine ⟨_, List.mem_map_of_mem member, ?_⟩
    split
    · exact ⟨rfl, rfl⟩
    · exact ⟨rfl, rfl⟩
  constructor
  · intro other member
    obtain ⟨stored, storedMember, rfl⟩ := List.mem_map.mp member
    have known := catalog.segment_volume stored storedMember
    split
    · exact known
    · exact known
  · exact catalog.object_volume
  · exact catalog.plain_volume
  · intro block member
    rcases List.mem_append.mp member with old | new
    · obtain ⟨stored, storedMember, inSegment, sameVolume⟩ := catalog.bulk_volume block old
      obtain ⟨other, otherMember, sameId, otherVolume⟩ := row storedMember
      exact ⟨other, otherMember, sameId ▸ inSegment, otherVolume.trans sameVolume⟩
    · obtain ⟨other, otherMember, sameId, otherVolume⟩ := row readyMember
      obtain ⟨inSegment, inVolume⟩ := fit block new
      exact ⟨other, otherMember, (sameId.trans readyId) ▸ inSegment,
        otherVolume.trans (readyVolume.trans inVolume.symm)⟩

theorem catalog_prepareContentSegment {segment : Uuid}
    (prepared : db.prepareContentSegment volume segment = .ok after) (catalog : Catalog db) :
    Catalog after ∧ volume ∈ after.volumes.map Volume.id := by
  unfold Database.prepareContentSegment at prepared
  split at prepared
  · cases prepared
  · rename_i known
    rw [← Except.ok.inj prepared]
    refine ⟨⟨?_, catalog.object_volume, catalog.plain_volume, ?_⟩, not_not.mp known⟩
    · intro stored member
      rcases List.mem_append.mp member with old | new
      · exact catalog.segment_volume stored old
      · rw [List.mem_singleton.mp new]
        exact not_not.mp known
    · intro block member
      obtain ⟨stored, storedMember, found⟩ := catalog.bulk_volume block member
      exact ⟨stored, List.mem_append_left _ storedMember, found⟩

theorem createContentMapping_sameCatalog {zone : NodeId}
    (created : db.createContentMapping volume zone = .ok after) :
    after.contentObjects = db.contentObjects ∧ after.contentSegments = db.contentSegments ∧
      after.contentBlocks = db.contentBlocks ∧ after.bulkContentBlocks = db.bulkContentBlocks ∧
      after.stagingSchemas = db.stagingSchemas ∧ after.volumes = db.volumes ∧
      after.zoneEntries = db.zoneEntries := by
  rw [(createContentMapping_ok created).1]
  exact ⟨rfl, rfl, rfl, rfl, rfl, rfl, rfl⟩

theorem Catalog.createContentMapping {zone : NodeId} (catalog : Catalog db)
    (created : db.createContentMapping volume zone = .ok after) : Catalog after := by
  rw [(createContentMapping_ok created).1]
  exact ⟨catalog.segment_volume, catalog.object_volume, catalog.plain_volume, catalog.bulk_volume⟩

theorem mem_mappedBlocks {zone : NodeId} {segment : Option Uuid} {blocks : List ContentBlock}
    (done : db.mappedBlocks volume zone segment = .ok blocks) {block : ContentBlock}
    (member : block ∈ blocks) :
    block.volumeId = volume ∧ ∃ object ∈ db.mappedObjects volume zone segment,
      object.id = block.objectId := by
  obtain ⟨lists, each, same⟩ := bind_eq_ok.mp done
  obtain rfl := Except.ok.inj same
  obtain ⟨list, listMember, inList⟩ := List.mem_flatten.mp member
  obtain ⟨mapped, mappedMember, split⟩ := exists_left_of_forall₂ _ (mapM_eq_ok.mp each) listMember
  obtain ⟨lines, -, spelled⟩ := bind_eq_ok.mp split
  obtain rfl := Except.ok.inj spelled
  obtain ⟨line, -, rfl⟩ := List.mem_map.mp inList
  exact ⟨rfl, _, List.mem_map_of_mem mappedMember, rfl⟩

theorem mappedObjects_volume {zone : NodeId} {segment : Option Uuid} {object : ContentObject}
    (member : object ∈ db.mappedObjects volume zone segment) : object.volumeId = volume := by
  obtain ⟨mapped, -, rfl⟩ := List.mem_map.mp member
  rfl

theorem catalogKept_blockizeZone {zone : NodeId} (known : volume ∈ db.volumes.map Volume.id)
    (done : db.blockizeZone volume zone = .ok after) : CatalogKept db after := by
  obtain ⟨mapped, mapOk, done⟩ := bind_eq_ok.mp done
  obtain ⟨blocks, blocksOk, detachOk⟩ := bind_eq_ok.mp done
  obtain ⟨-, -, -, -, staging, volumes, -⟩ := createContentMapping_sameCatalog mapOk
  have mapping : CatalogKept db mapped :=
    ⟨fun _ member => volumes ▸ member, fun catalog => catalog.createContentMapping mapOk, staging⟩
  refine mapping.trans (CatalogKept.trans ?_ (sameCatalog_updateEntries detachOk).kept)
  refine ⟨fun _ member => member, ?_, rfl⟩
  intro catalog
  refine (catalog.addObjects (volumes ▸ known) fun _ => mappedObjects_volume).addBlocks ?_
  intro block member
  obtain ⟨inVolume, object, objectMember, owner⟩ := mem_mappedBlocks blocksOk member
  exact ⟨object, List.mem_append_right _ objectMember, owner,
    (mappedObjects_volume objectMember).trans inVolume.symm⟩

/-- Without a text to move, the staging schema of the new segment stays. -/
theorem catalog_blockizeZoneSegment {zone : NodeId} (store : StoreSound db)
    (done : db.blockizeZoneSegment volume zone = .ok after) :
    (Catalog db → Catalog after) ∧
      ((∃ entry ∈ db.zoneEntries, inlineText volume zone entry = true) →
        after.stagingSchemas = db.stagingSchemas) := by
  unfold Database.blockizeZoneSegment at done
  dsimp only at done
  obtain ⟨prepared, prepareOk, done⟩ := bind_eq_ok.mp done
  obtain ⟨mapped, mapOk, done⟩ := bind_eq_ok.mp done
  have preparedShape := prepareContentSegment_ok prepareOk
  obtain ⟨-, mappedSegments, -, -, mappedStaging, mappedVolumes, mappedEntries⟩ :=
    createContentMapping_sameCatalog mapOk
  have freshSegment : ∀ stored ∈ db.contentSegments, stored.id ≠ db.nextUuid :=
    fun stored member => Nat.ne_of_lt (store.segment_bound stored member)
  have mapping (catalog : Catalog db) : Catalog mapped ∧ volume ∈ mapped.volumes.map Volume.id := by
    have start : Catalog { db with nextUuid := db.nextUuid + 1 } :=
      ⟨catalog.segment_volume, catalog.object_volume, catalog.plain_volume, catalog.bulk_volume⟩
    obtain ⟨ready, known⟩ := catalog_prepareContentSegment prepareOk start
    exact ⟨ready.createContentMapping mapOk, mappedVolumes ▸ known⟩
  split at done
  · rename_i empty
    obtain rfl := Except.ok.inj done
    constructor
    · intro catalog
      obtain ⟨ready, -⟩ := mapping catalog
      refine ⟨fun stored member => ready.segment_volume stored (List.mem_of_mem_filter member),
        ready.object_volume, ready.plain_volume, ?_⟩
      intro block member
      have inTable : block ∈ db.bulkContentBlocks := by
        have same : mapped.bulkContentBlocks = db.bulkContentBlocks := by
          rw [(createContentMapping_ok mapOk).1, preparedShape]
        exact same ▸ member
      obtain ⟨stored, storedMember, found⟩ := catalog.bulk_volume block inTable
      refine ⟨stored, List.mem_filter.mpr ⟨?_, decide_eq_true (freshSegment stored storedMember)⟩, found⟩
      rw [mappedSegments, preparedShape]
      exact List.mem_append_left _ storedMember
    · rintro ⟨entry, entryMember, inline⟩
      have pairs := (createContentMapping_ok mapOk).2.mapping
      rw [empty, preparedShape] at pairs
      have noPairs := List.map_eq_nil_iff.mp pairs.symm
      rw [mappedEntries, preparedShape] at noPairs
      have entries := objectPairs_snd (db.nextUuid + 1) (db.zoneEntries.filter (inlineText volume zone))
      rw [noPairs] at entries
      exact absurd inline (by simpa using List.filter_eq_nil_iff.mp entries.symm entry entryMember)
  · obtain ⟨blocks, -, done⟩ := bind_eq_ok.mp done
    obtain ⟨detached, detachOk, publishOk⟩ := bind_eq_ok.mp done
    have detachedShape := (updateEntries_ok detachOk).1
    constructor
    · intro catalog
      obtain ⟨ready, known⟩ := mapping catalog
      have added : Catalog { mapped with
          contentObjects := mapped.contentObjects ++
            mapped.mappedObjects volume zone (some db.nextUuid) } :=
        ready.addObjects known fun _ => mappedObjects_volume
      exact catalog_publishContentSegment publishOk ((sameCatalog_updateEntries detachOk).kept.catalog
        ⟨added.segment_volume, added.object_volume, added.plain_volume, added.bulk_volume⟩)
    · intro
      have freshStaging : ∀ schema ∈ db.stagingSchemas, schema.1 ≠ db.nextUuid :=
        fun schema member => Nat.ne_of_lt (store.staging_bound schema member)
      have afterShape := publishContentSegment_ok db blocks freshStaging freshSegment (by
        rw [detachedShape]
        change mapped.stagingSchemas.map _ = _
        rw [mappedStaging, preparedShape]) (by
        rw [detachedShape]
        change mapped.contentSegments = _
        rw [mappedSegments, preparedShape]) publishOk
      rw [afterShape]

end Steps

end PostgreOS
