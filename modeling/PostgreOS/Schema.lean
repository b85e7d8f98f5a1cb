/-
The tables of `pgos_private` and the statements that change them.

Rows keep the columns of the schema. The CHECK constraint that ties `kind` to
the content columns of an entry is the shape of `Payload`, so a row that breaks
it cannot be written; `kind` is read off the payload. Unique indexes are checked
by every insert and update, and the statement triggers on `zone_entries` keep
the counters of the zones. A transaction is a function on the whole database.
-/

import PostgreOS.Library.LineBlocks
import PostgreOS.Library.Table
import PostgreOS.Path

namespace PostgreOS

open Library.Table

abbrev Uuid := Nat

/-- `bigint` keys drawn from `node_id_seq`. -/
abbrev NodeId := Nat

/-- Microseconds since the Unix epoch. -/
abbrev Timestamp := Int

/-- The values 1, 2 and 3 of the `kind` columns. -/
inductive Kind where
  | file
  | directory
  | symlink
  deriving DecidableEq, Repr

structure Metadata where
  mode : Int
  uid : Int
  gid : Int
  atime : Timestamp
  mtime : Timestamp
  ctime : Timestamp
  generation : Nat
  deriving DecidableEq, Repr

/-- Exactly one of `text_content` and `binary_content` is set in a file row. -/
inductive FileData where
  | text (content : Text)
  | binary (content : Bytes)
  deriving DecidableEq, Repr

/-- The content columns that `zone_entries_check1` allows together. -/
inductive Payload where
  | file (data : FileData) (contentObject : Option Uuid)
  | directory
  | symlink (linkTarget : Text)
  deriving DecidableEq, Repr

def Payload.kind : Payload → Kind
  | .file _ _ => .file
  | .directory => .directory
  | .symlink _ => .symlink

/-- A row of `zone_entries`. -/
structure ZoneEntry where
  id : NodeId
  volumeId : Uuid
  zoneId : NodeId
  relativePath : Text
  parentPath : Text
  name : Text
  payload : Payload
  size : Nat
  metadata : Metadata
  deriving DecidableEq, Repr

def ZoneEntry.kind (entry : ZoneEntry) : Kind := entry.payload.kind

def ZoneEntry.contentObject (entry : ZoneEntry) : Option Uuid :=
  match entry.payload with
  | .file _ object => object
  | _ => none

def ZoneEntry.textContent (entry : ZoneEntry) : Option Text :=
  match entry.payload with
  | .file (.text content) _ => some content
  | _ => none

def ZoneEntry.linkTarget (entry : ZoneEntry) : Option Text :=
  match entry.payload with
  | .symlink target => some target
  | _ => none

/-- A row of `zones` without its counters. `parent` holds `parent_zone_id` and
`parent_path`, which are null together. -/
structure ZoneNode where
  id : NodeId
  volumeId : Uuid
  path : Text
  parent : Option (NodeId × Text)
  name : Text
  metadata : Metadata
  deriving DecidableEq, Repr

/-- A row of `zones`. -/
structure Zone extends ZoneNode where
  entryCount : Int
  fileBytes : Int
  deriving DecidableEq, Repr

structure Volume where
  id : Uuid
  name : Text
  deriving DecidableEq, Repr

/-- A row of `content_objects`. -/
structure ContentObject where
  id : Uuid
  volumeId : Uuid
  byteSize : Nat
  segmentId : Option Uuid
  deriving DecidableEq, Repr

/-- A row of `content_segments`. -/
structure ContentSegment where
  id : Uuid
  volumeId : Uuid
  published : Bool
  deriving DecidableEq, Repr

/-- A row of the view `all_content_blocks`: `segmentId` is null for the rows of
`content_blocks` and set for those of `bulk_content_blocks`. -/
structure ContentBlock extends Library.LineBlocks.LineBlock Char where
  objectId : Uuid
  volumeId : Uuid
  segmentId : Option Uuid
  deriving DecidableEq, Repr

/-- The table of a segment, with the volume whose table it is a partition of. -/
structure SegmentTable where
  segment : Uuid
  parent : Uuid
  deriving DecidableEq, Repr

/-- The database. `volumeTables` are the partitions of `bulk_content_blocks` by volume and
`segmentTables` the partitions of these by segment, `stagingSchemas` the staging
schemas with the rows of their table, `contentMapping` the temporary table
`pgos_content_mapping` of the running transaction. -/
structure Database where
  volumes : List Volume
  zones : List Zone
  zoneEntries : List ZoneEntry
  contentObjects : List ContentObject
  contentSegments : List ContentSegment
  contentBlocks : List ContentBlock
  bulkContentBlocks : List ContentBlock
  volumeTables : List Uuid
  segmentTables : List SegmentTable
  stagingSchemas : List (Uuid × List ContentBlock)
  contentMapping : Option (List (NodeId × Uuid))
  nextNode : NodeId
  nextUuid : Uuid
  deriving DecidableEq, Repr

/-- The installed schema without volumes. -/
def Database.empty : Database :=
  { volumes := []
    zones := []
    zoneEntries := []
    contentObjects := []
    contentSegments := []
    contentBlocks := []
    bulkContentBlocks := []
    volumeTables := []
    segmentTables := []
    stagingSchemas := []
    contentMapping := none
    nextNode := 1
    nextUuid := 1 }

/-- The view `all_content_blocks`. -/
def Database.allContentBlocks (db : Database) : List ContentBlock :=
  db.contentBlocks ++ db.bulkContentBlocks

/-- The end of a transaction drops the tables created with `ON COMMIT DROP`. -/
def Database.commit (db : Database) : Database :=
  { db with contentMapping := none }

/-- Two databases that differ in the content store only. -/
structure SameTables (db after : Database) : Prop where
  volumes : after.volumes = db.volumes
  zones : after.zones = db.zones
  zoneEntries : after.zoneEntries = db.zoneEntries
  volumeTables : after.volumeTables = db.volumeTables
  nextNode : after.nextNode = db.nextNode

theorem SameTables.refl (db : Database) : SameTables db db :=
  ⟨rfl, rfl, rfl, rfl, rfl⟩

theorem SameTables.trans {db middle after : Database} (first : SameTables db middle)
    (second : SameTables middle after) : SameTables db after where
  volumes := second.volumes.trans first.volumes
  zones := second.zones.trans first.zones
  zoneEntries := second.zoneEntries.trans first.zoneEntries
  volumeTables := second.volumeTables.trans first.volumeTables
  nextNode := second.nextNode.trans first.nextNode

/-- Two entries share a key of `zone_entries_pkey`, `zone_entries_path_cover_idx`
or `zone_entries_parent_idx`. -/
def entryClash (first second : ZoneEntry) : Bool :=
  decide (first.volumeId = second.volumeId ∧ first.zoneId = second.zoneId ∧
    (first.id = second.id ∨ first.relativePath = second.relativePath ∨
      first.parentPath = second.parentPath ∧ first.name = second.name))

/-- Two zones share a key of `zones_pkey`, `zones_volume_id_path_key` or
`zones_parent_name_idx`. -/
def zoneClash (first second : ZoneNode) : Bool :=
  decide (first.id = second.id ∨ first.volumeId = second.volumeId ∧
    (first.path = second.path ∨
      first.parent ≠ none ∧ first.parent = second.parent ∧ first.name = second.name))

def storedZoneClash (first second : Zone) : Bool :=
  zoneClash first.toZoneNode second.toZoneNode

theorem entryClash_comm (first second : ZoneEntry) :
    entryClash first second = entryClash second first := by
  simp only [entryClash, eq_comm]

theorem zoneClash_comm (first second : ZoneNode) : zoneClash first second = zoneClash second first := by
  unfold zoneClash
  rw [decide_eq_decide]
  constructor
  · rintro (same | ⟨volume, same | ⟨present, parent, name⟩⟩)
    · exact Or.inl same.symm
    · exact Or.inr ⟨volume.symm, Or.inl same.symm⟩
    · exact Or.inr ⟨volume.symm, Or.inr ⟨parent ▸ present, parent.symm, name.symm⟩⟩
  · rintro (same | ⟨volume, same | ⟨present, parent, name⟩⟩)
    · exact Or.inl same.symm
    · exact Or.inr ⟨volume.symm, Or.inl same.symm⟩
    · exact Or.inr ⟨volume.symm, Or.inr ⟨parent ▸ present, parent.symm, name.symm⟩⟩

theorem storedZoneClash_comm (first second : Zone) :
    storedZoneClash first second = storedZoneClash second first :=
  zoneClash_comm first.toZoneNode second.toZoneNode

def entriesOfZone (zone : ZoneNode) (entries : List ZoneEntry) : List ZoneEntry :=
  entries.filter fun entry => entry.volumeId = zone.volumeId ∧ entry.zoneId = zone.id

/-- `count(*)` of the rows of one zone. -/
def entryCountOf (zone : ZoneNode) (entries : List ZoneEntry) : Int :=
  (entriesOfZone zone entries).length

/-- `COALESCE(sum(size) FILTER (WHERE kind = 1), 0)` over the rows of one zone. -/
def fileBytesOf (zone : ZoneNode) (entries : List ZoneEntry) : Int :=
  total (fun entry => (entry.size : Int))
    ((entriesOfZone zone entries).filter fun entry => entry.kind = .file)

/-- The counters after rows left (`removed`) and joined (`added`) the zones. -/
def adjustCounters (removed added : List ZoneEntry) (zone : Zone) : Zone :=
  { zone with
    entryCount := zone.entryCount - entryCountOf zone.toZoneNode removed +
      entryCountOf zone.toZoneNode added
    fileBytes := zone.fileBytes - fileBytesOf zone.toZoneNode removed +
      fileBytesOf zone.toZoneNode added }

/-- `zone_entries_after_insert`. -/
def zoneEntriesAfterInsert (newEntries : List ZoneEntry) (zones : List Zone) : List Zone :=
  zones.map (adjustCounters [] newEntries)

/-- `zone_entries_after_delete`. -/
def zoneEntriesAfterDelete (oldEntries : List ZoneEntry) (zones : List Zone) : List Zone :=
  zones.map (adjustCounters oldEntries [])

/-- `zone_entries_after_update`; both images of a changed row are counted. -/
def zoneEntriesAfterUpdate (oldEntries newEntries : List ZoneEntry) (zones : List Zone) :
    List Zone :=
  zones.map (adjustCounters oldEntries newEntries)

/-! ### Statements -/

def uniqueViolation {α : Type} : Result α :=
  raise "23505" "duplicate key value violates unique constraint" []

def foreignKeyViolation {α : Type} : Result α :=
  raise "23503" "update or delete on table violates foreign key constraint" []

/-- `INSERT INTO zone_entries`; ids come from the sequence in row order. -/
def Database.insertEntries (db : Database) (makers : List (NodeId → ZoneEntry)) :
    Result Database :=
  match insertRows entryClash (numbered db.nextNode makers) db.zoneEntries with
  | none => uniqueViolation
  | some entries => .ok
      { db with
        zoneEntries := entries
        zones := zoneEntriesAfterInsert (numbered db.nextNode makers) db.zones
        nextNode := db.nextNode + makers.length }

/-- `DELETE FROM zone_entries`. -/
def Database.deleteEntries (db : Database) (selected : ZoneEntry → Bool) : Database :=
  { db with
    zoneEntries := db.zoneEntries.filter fun entry => !selected entry
    zones := zoneEntriesAfterDelete (db.zoneEntries.filter selected) db.zones }

/-- `UPDATE zone_entries`. -/
def Database.updateEntries (db : Database) (selected : ZoneEntry → Bool)
    (change : ZoneEntry → ZoneEntry) : Result Database :=
  match updateRows entryClash selected change db.zoneEntries with
  | none => uniqueViolation
  | some entries => .ok
      { db with
        zoneEntries := entries
        zones := zoneEntriesAfterUpdate (db.zoneEntries.filter selected)
          ((db.zoneEntries.filter selected).map change) db.zones }

/-- `INSERT INTO zones`; the counters start at their default zero. -/
def Database.insertZone (db : Database) (make : NodeId → ZoneNode) : Result (Database × NodeId) :=
  let zone : Zone := { toZoneNode := make db.nextNode, entryCount := 0, fileBytes := 0 }
  if zone.volumeId ∉ db.volumes.map Volume.id then foreignKeyViolation
  else
    match insertRows storedZoneClash [zone] db.zones with
    | none => uniqueViolation
    | some zones => .ok ({ db with zones := zones, nextNode := db.nextNode + 1 }, zone.id)

/-- `DELETE FROM zones`. -/
def Database.deleteZones (db : Database) (selected : Zone → Bool) : Database :=
  { db with zones := db.zones.filter fun zone => !selected zone }

/-- `UPDATE zones`. -/
def Database.updateZones (db : Database) (selected : Zone → Bool) (change : Zone → Zone) :
    Result Database :=
  match updateRows storedZoneClash selected change db.zones with
  | none => uniqueViolation
  | some zones => .ok { db with zones := zones }

/-! ### What the statements change -/

def Database.zoneNodes (db : Database) : List ZoneNode :=
  db.zones.map Zone.toZoneNode

theorem distinct_storedZoneClash_iff (zones : List Zone) :
    Distinct storedZoneClash zones ↔ Distinct zoneClash (zones.map Zone.toZoneNode) := by
  unfold Distinct
  rw [List.pairwise_map]
  rfl

theorem map_adjustCounters_toZoneNode (removed added : List ZoneEntry) (zones : List Zone) :
    (zones.map (adjustCounters removed added)).map Zone.toZoneNode = zones.map Zone.toZoneNode := by
  rw [List.map_map]
  rfl

theorem insertEntries_ok {db after : Database} {makers : List (NodeId → ZoneEntry)}
    (inserted : db.insertEntries makers = .ok after) :
    after = { db with
        zoneEntries := db.zoneEntries ++ numbered db.nextNode makers
        zones := zoneEntriesAfterInsert (numbered db.nextNode makers) db.zones
        nextNode := db.nextNode + makers.length } ∧
      Distinct entryClash (db.zoneEntries ++ numbered db.nextNode makers) := by
  unfold Database.insertEntries at inserted
  split at inserted
  · cases inserted
  · rename_i entries found
    obtain ⟨rfl, distinct⟩ := (insertRows_eq_some_iff _ _ _ _).mp found
    exact ⟨(Except.ok.inj inserted).symm, distinct⟩

theorem insertEntries_of_distinct {db : Database} {makers : List (NodeId → ZoneEntry)}
    (distinct : Distinct entryClash (db.zoneEntries ++ numbered db.nextNode makers)) :
    db.insertEntries makers = .ok { db with
        zoneEntries := db.zoneEntries ++ numbered db.nextNode makers
        zones := zoneEntriesAfterInsert (numbered db.nextNode makers) db.zones
        nextNode := db.nextNode + makers.length } := by
  unfold Database.insertEntries
  rw [(insertRows_eq_some_iff entryClash _ _ _).mpr ⟨rfl, distinct⟩]

theorem updateEntries_ok {db after : Database} {selected : ZoneEntry → Bool}
    {change : ZoneEntry → ZoneEntry} (updated : db.updateEntries selected change = .ok after) :
    after = { db with
        zoneEntries := db.zoneEntries.map (rewritten selected change)
        zones := zoneEntriesAfterUpdate (db.zoneEntries.filter selected)
          ((db.zoneEntries.filter selected).map change) db.zones } ∧
      (Distinct entryClash db.zoneEntries →
        Distinct entryClash (db.zoneEntries.map (rewritten selected change))) := by
  unfold Database.updateEntries at updated
  split at updated
  · cases updated
  · rename_i entries found
    obtain rfl := updateRows_eq_some found
    exact ⟨(Except.ok.inj updated).symm,
      fun distinct => updateRows_distinct entryClash_comm distinct found⟩

theorem updateZones_ok {db after : Database} {selected : Zone → Bool} {change : Zone → Zone}
    (updated : db.updateZones selected change = .ok after) :
    after = { db with zones := db.zones.map (rewritten selected change) } ∧
      (Distinct storedZoneClash db.zones →
        Distinct storedZoneClash (db.zones.map (rewritten selected change))) := by
  unfold Database.updateZones at updated
  split at updated
  · cases updated
  · rename_i zones found
    obtain rfl := updateRows_eq_some found
    exact ⟨(Except.ok.inj updated).symm,
      fun distinct => updateRows_distinct storedZoneClash_comm distinct found⟩

theorem insertZone_ok {db after : Database} {make : NodeId → ZoneNode} {id : NodeId}
    (inserted : db.insertZone make = .ok (after, id)) :
    let zone : Zone := { toZoneNode := make db.nextNode, entryCount := 0, fileBytes := 0 }
    after = { db with zones := db.zones ++ [zone], nextNode := db.nextNode + 1 } ∧
      id = (make db.nextNode).id ∧ (make db.nextNode).volumeId ∈ db.volumes.map Volume.id ∧
      Distinct storedZoneClash (db.zones ++ [zone]) := by
  unfold Database.insertZone at inserted
  dsimp only at inserted
  split at inserted
  · cases inserted
  · rename_i known
    split at inserted
    · cases inserted
    · rename_i zones found
      obtain ⟨rfl, distinct⟩ := (insertRows_eq_some_iff _ _ _ _).mp found
      obtain ⟨sameAfter, sameId⟩ := Prod.mk.inj (Except.ok.inj inserted)
      exact ⟨sameAfter.symm, sameId.symm, not_not.mp known, distinct⟩

theorem zoneNodes_insertEntries {db after : Database} {makers : List (NodeId → ZoneEntry)}
    (inserted : db.insertEntries makers = .ok after) : after.zoneNodes = db.zoneNodes := by
  rw [(insertEntries_ok inserted).1]
  exact map_adjustCounters_toZoneNode _ _ _

theorem zoneNodes_deleteEntries (db : Database) (selected : ZoneEntry → Bool) :
    (db.deleteEntries selected).zoneNodes = db.zoneNodes :=
  map_adjustCounters_toZoneNode _ _ _

theorem zoneNodes_updateEntries {db after : Database} {selected : ZoneEntry → Bool}
    {change : ZoneEntry → ZoneEntry} (updated : db.updateEntries selected change = .ok after) :
    after.zoneNodes = db.zoneNodes := by
  rw [(updateEntries_ok updated).1]
  exact map_adjustCounters_toZoneNode _ _ _

theorem zoneNodes_insertZone {db after : Database} {make : NodeId → ZoneNode} {id : NodeId}
    (inserted : db.insertZone make = .ok (after, id)) :
    after.zoneNodes = db.zoneNodes ++ [make db.nextNode] := by
  rw [(insertZone_ok inserted).1]
  exact List.map_append

end PostgreOS
