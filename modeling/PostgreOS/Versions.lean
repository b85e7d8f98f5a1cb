/-
Versions of nodes.

The generation of a node counts its versions. From call to call an id goes on to name the
same node, with its kind, its mode and its owner; every other change of its row or of its
bytes comes with a later generation; and an id that no node has any more is never given to
another node.
-/

import PostgreOS.Library.Lineage
import PostgreOS.MoveSpec
import PostgreOS.ReadBack
import PostgreOS.RemoveSpec
import PostgreOS.SegmentLifecycle
import PostgreOS.StayingRows
import PostgreOS.VolumeReads

namespace PostgreOS

open Library.Lineage Library.Outcome Library.Table Library.Transition

/-- What no version changes. -/
structure Metadata.SameOwner (old new : Metadata) : Prop where
  mode : old.mode = new.mode
  uid : old.uid = new.uid
  gid : old.gid = new.gid

theorem Metadata.SameOwner.refl (metadata : Metadata) : metadata.SameOwner metadata :=
  ⟨rfl, rfl, rfl⟩

theorem Metadata.SameOwner.trans {old middle new : Metadata} (first : old.SameOwner middle)
    (second : middle.SameOwner new) : old.SameOwner new :=
  ⟨first.mode.trans second.mode, first.uid.trans second.uid, first.gid.trans second.gid⟩

/-- A zone in a later version, or with no change but that of a path above it. -/
structure ZoneNode.Later (old new : ZoneNode) : Prop where
  id : old.id = new.id
  volumeId : old.volumeId = new.volumeId
  owner : old.metadata.SameOwner new.metadata
  version : old.metadata.generation < new.metadata.generation ∨
    old.metadata = new.metadata ∧ old.parent = new.parent ∧ old.name = new.name

/-- Rows of an entry in one version: where the bytes are stored is not part of it. -/
structure ZoneEntry.SameVersion (content newContent : ZoneEntry → Option Bytes)
    (old new : ZoneEntry) : Prop where
  zoneId : old.zoneId = new.zoneId
  relativePath : old.relativePath = new.relativePath
  name : old.name = new.name
  size : old.size = new.size
  metadata : old.metadata = new.metadata
  content : content old = newContent new

/-- An entry in a later version, or in the same one. -/
structure ZoneEntry.Later (content newContent : ZoneEntry → Option Bytes)
    (old new : ZoneEntry) : Prop where
  id : old.id = new.id
  volumeId : old.volumeId = new.volumeId
  kind : old.kind = new.kind
  linkTarget : old.linkTarget = new.linkTarget
  owner : old.metadata.SameOwner new.metadata
  version : old.metadata.generation < new.metadata.generation ∨
    ZoneEntry.SameVersion content newContent old new

theorem ZoneNode.Later.refl (zone : ZoneNode) : zone.Later zone :=
  ⟨rfl, rfl, .refl _, Or.inr ⟨rfl, rfl, rfl⟩⟩

theorem ZoneNode.Later.trans {old middle new : ZoneNode} (first : old.Later middle)
    (second : middle.Later new) : old.Later new where
  id := first.id.trans second.id
  volumeId := first.volumeId.trans second.volumeId
  owner := first.owner.trans second.owner
  version := by
    rcases first.version with earlier | ⟨metadata, parent, name⟩
    · rcases second.version with later | ⟨metadata, -, -⟩
      · exact Or.inl (Nat.lt_trans earlier later)
      · exact Or.inl (metadata ▸ earlier)
    · rcases second.version with later | ⟨newMetadata, newParent, newName⟩
      · exact Or.inl (metadata ▸ later)
      · exact Or.inr ⟨metadata.trans newMetadata, parent.trans newParent, name.trans newName⟩

theorem ZoneEntry.Later.refl (content : ZoneEntry → Option Bytes) (entry : ZoneEntry) :
    ZoneEntry.Later content content entry entry :=
  ⟨rfl, rfl, rfl, rfl, .refl _, Or.inr ⟨rfl, rfl, rfl, rfl, rfl, rfl⟩⟩

theorem ZoneEntry.Later.trans {content middleContent newContent : ZoneEntry → Option Bytes}
    {old middle new : ZoneEntry} (first : ZoneEntry.Later content middleContent old middle)
    (second : ZoneEntry.Later middleContent newContent middle new) :
    ZoneEntry.Later content newContent old new where
  id := first.id.trans second.id
  volumeId := first.volumeId.trans second.volumeId
  kind := first.kind.trans second.kind
  linkTarget := first.linkTarget.trans second.linkTarget
  owner := first.owner.trans second.owner
  version := by
    rcases first.version with earlier | same
    · rcases second.version with later | unchanged
      · exact Or.inl (Nat.lt_trans earlier later)
      · exact Or.inl (unchanged.metadata ▸ earlier)
    · rcases second.version with later | unchanged
      · exact Or.inl (same.metadata ▸ later)
      · exact Or.inr ⟨same.zoneId.trans unchanged.zoneId,
          same.relativePath.trans unchanged.relativePath, same.name.trans unchanged.name,
          same.size.trans unchanged.size, same.metadata.trans unchanged.metadata,
          same.content.trans unchanged.content⟩

/-- Every row with an id that had been given out is a version of the row that had it. -/
structure Advances (db after : Database) : Prop where
  nextNode : db.nextNode ≤ after.nextNode
  zones : Descends ZoneNode.id ZoneNode.Later db.nextNode db.zoneNodes after.zoneNodes
  entries : Descends ZoneEntry.id (ZoneEntry.Later db.contentOf after.contentOf) db.nextNode
    db.zoneEntries after.zoneEntries

section Statements

variable {db middle after : Database}

theorem Advances.refl (db : Database) : Advances db db where
  nextNode := Nat.le_refl _
  zones := .of_subset (List.Subset.refl _) fun zone _ => .refl zone
  entries := .of_subset (List.Subset.refl _) fun entry _ => .refl _ entry

theorem Advances.trans (first : Advances db middle) (second : Advances middle after) :
    Advances db after where
  nextNode := Nat.le_trans first.nextNode second.nextNode
  zones := first.zones.trans second.zones first.nextNode (fun _ _ later => later.id)
    fun _ _ _ earlier later => earlier.trans later
  entries := first.entries.trans second.entries first.nextNode (fun _ _ later => later.id)
    fun _ _ _ earlier later => earlier.trans later

theorem Advances.of_tables (nextNode : db.nextNode ≤ after.nextNode)
    (zones : after.zoneNodes ⊆ db.zoneNodes) (entries : after.zoneEntries ⊆ db.zoneEntries)
    (content : ∀ entry ∈ after.zoneEntries, db.contentOf entry = after.contentOf entry) :
    Advances db after where
  nextNode := nextNode
  zones := .of_subset zones fun zone _ => .refl zone
  entries := fun entry member _ => ⟨entry, entries member, rfl, rfl, rfl, rfl, .refl _,
    Or.inr ⟨rfl, rfl, rfl, rfl, rfl, content entry member⟩⟩

theorem advances_insertEntries {makers : List (NodeId → ZoneEntry)}
    (ids : ∀ make ∈ makers, ∀ serial, (make serial).id = serial)
    (inserted : db.insertEntries makers = .ok after) : Advances db after := by
  have nodes := zoneNodes_insertEntries inserted
  have content := (sameStore_insertEntries inserted).contentOf
  refine ⟨?_, ?_, ?_⟩
  · rw [(insertEntries_ok inserted).1]
    exact Nat.le_add_right _ _
  · rw [nodes]
    exact .of_subset (List.Subset.refl _) fun zone _ => .refl zone
  · rw [content, (insertEntries_ok inserted).1]
    refine .append ?_ fun entry _ => .refl _ entry
    intro entry member
    obtain ⟨make, makeMember, serial, above, -, rfl⟩ := mem_numbered member
    rw [ids make makeMember]
    exact above

theorem advances_deleteEntries (db : Database) (selected : ZoneEntry → Bool) :
    Advances db (db.deleteEntries selected) := by
  refine .of_tables (Nat.le_refl _) ?_ List.filter_sublist.subset fun _ _ => rfl
  rw [zoneNodes_deleteEntries]
  exact List.Subset.refl _

theorem advances_deleteZones (db : Database) (selected : Zone → Bool) :
    Advances db (db.deleteZones selected) :=
  .of_tables (Nat.le_refl _) (List.map_subset _ List.filter_sublist.subset) (List.Subset.refl _)
    fun _ _ => rfl

theorem advances_updateEntries {selected : ZoneEntry → Bool} {change : ZoneEntry → ZoneEntry}
    (later : ∀ entry ∈ db.zoneEntries, selected entry = true →
      ZoneEntry.Later db.contentOf db.contentOf entry (change entry))
    (updated : db.updateEntries selected change = .ok after) : Advances db after := by
  have nodes := zoneNodes_updateEntries updated
  obtain ⟨rfl, -⟩ := updateEntries_ok updated
  refine ⟨Nat.le_refl _, ?_, ?_⟩
  · rw [nodes]
    exact .of_subset (List.Subset.refl _) fun zone _ => .refl zone
  · exact .rewrite (fun entry _ => .refl _ entry) later

theorem advances_insertZone {make : NodeId → ZoneNode} {id : NodeId}
    (ids : ∀ serial, (make serial).id = serial)
    (inserted : db.insertZone make = .ok (after, id)) : Advances db after := by
  have nodes := zoneNodes_insertZone inserted
  obtain ⟨rfl, -⟩ := insertZone_ok inserted
  refine ⟨Nat.le_succ _, ?_, .of_subset (List.Subset.refl _) fun entry _ => .refl _ entry⟩
  rw [nodes]
  refine .append ?_ fun zone _ => .refl zone
  intro zone member
  rw [List.mem_singleton.mp member, ids]

theorem advances_updateZones {selected : Zone → Bool} {change : Zone → Zone}
    (later : ∀ zone ∈ db.zones, selected zone = true →
      zone.toZoneNode.Later (change zone).toZoneNode)
    (updated : db.updateZones selected change = .ok after) : Advances db after := by
  obtain ⟨rfl, -⟩ := updateZones_ok updated
  refine ⟨Nat.le_refl _, ?_, .of_subset (List.Subset.refl _) fun entry _ => .refl _ entry⟩
  intro zone member _
  obtain ⟨row, rowMember, rfl⟩ := List.mem_map.mp member
  obtain ⟨kept, -⟩ | ⟨old, oldMember, chosen, rfl⟩ := mem_map_rewritten.mp rowMember
  · exact ⟨row.toZoneNode, List.mem_map_of_mem kept, .refl _⟩
  · exact ⟨old.toZoneNode, List.mem_map_of_mem oldMember, later old oldMember chosen⟩

theorem SameTables.advances (same : SameTables db after)
    (content : ∀ entry ∈ db.zoneEntries, after.contentOf entry = db.contentOf entry) :
    Advances db after := by
  refine .of_tables (Nat.le_of_eq same.nextNode.symm) ?_ ?_ ?_
  · unfold Database.zoneNodes
    rw [same.zones]
    exact List.Subset.refl _
  · rw [same.zoneEntries]
    exact List.Subset.refl _
  · intro entry member
    rw [same.zoneEntries] at member
    exact (content entry member).symm

theorem Reclaimed.advances (reclaimed : Reclaimed db after) : Advances db after :=
  reclaimed.tables.advances fun _ member => reclaimed.contentOf member

theorem Blockized.advances {volume : Uuid} {zone : NodeId} {change : ZoneEntry → ZoneEntry}
    (nextNode : db.nextNode ≤ after.nextNode)
    (blockized : Blockized db after volume zone change) : Advances db after := by
  refine ⟨nextNode, ?_, ?_⟩
  · rw [blockized.zoneNodes]
    exact .of_subset (List.Subset.refl _) fun zone _ => .refl zone
  · rw [blockized.zoneEntries]
    refine .map ?_
    intro entry member
    obtain ⟨payload, same, kind, target⟩ := blockized.entry member
    have content := blockized.content entry member
    have sameKind : entry.kind = (change entry).kind := by
      rw [same]
      exact kind.symm
    refine ⟨?_, ?_, sameKind, target.symm, ?_, Or.inr ⟨?_, ?_, ?_, ?_, ?_, content.symm⟩⟩
    all_goals rw [same]
    exact .refl _

end Statements

/-! ### Operations -/

section Operations

variable {db after : Database} {volume : Uuid} {now : Timestamp}

theorem advances_createVolume {volumeId id : Uuid} {volumeName : Text}
    (done : db.createVolume volumeId volumeName now = .ok (after, id)) : Advances db after := by
  obtain ⟨-, inserted, zone, insertOk, rfl⟩ := createVolume_ok done
  obtain ⟨tables, shape, -⟩ := prepareContentVolume_eq inserted volumeId
  have listed : Advances db
      { db with volumes := db.volumes ++ [{ id := volumeId, name := volumeName }] } :=
    .of_tables (Nat.le_refl _) (List.Subset.refl _) (List.Subset.refl _) fun _ _ => rfl
  rw [shape]
  exact (listed.trans (advances_insertZone (fun _ => rfl) insertOk)).trans
    (.of_tables (Nat.le_refl _) (List.Subset.refl _) (List.Subset.refl _) fun _ _ => rfl)

theorem advances_insertOne {make : NodeId → ZoneEntry} (ids : ∀ serial, (make serial).id = serial)
    (inserted : db.insertEntries [make] = .ok after) : Advances db after := by
  refine advances_insertEntries ?_ inserted
  intro other member
  rw [List.mem_singleton.mp member]
  exact ids

theorem advances_mkdirOne {targetPath : Text} {mode : Int}
    (done : db.mkdirOne volume targetPath mode now = .ok after) : Advances db after := by
  obtain ⟨-, rfl⟩ | ⟨location, -, inserted⟩ := mkdirOne_ok done
  · exact .refl after
  · exact advances_insertOne (fun _ => rfl) inserted

theorem advances_mkdir {targetPath : Text} {parents : Bool} {mode : Int}
    (done : db.mkdir volume targetPath parents mode now = .ok after) : Advances db after :=
  mkdir_invariant (Advances db) (fun _ _ _ sofar made => sofar.trans (advances_mkdirOne made))
    (.refl db) done

theorem advances_mkdirMany {targetPaths : List Text} {parents : Bool}
    (done : db.mkdirMany volume targetPaths parents now = .ok after) : Advances db after := by
  cases parents with
  | true =>
      exact foldlM_invariant (Advances db)
        (fun _ _ _ _ sofar made => sofar.trans (advances_mkdir made)) (.refl db) done
  | false =>
      obtain ⟨-, inserted⟩ := mkdirMany_ok done
      refine advances_insertEntries ?_ inserted
      intro make member serial
      obtain ⟨path, -, found⟩ := List.mem_filterMap.mp member
      obtain ⟨location, -, rfl⟩ := Option.map_eq_some_iff.mp found
      rfl

theorem advances_setTimes {targetPath : Text}
    {atimeSeconds atimeNanoseconds mtimeSeconds mtimeNanoseconds : Int} {rows : List Inode}
    (done : db.setTimes volume targetPath atimeSeconds atimeNanoseconds mtimeSeconds
      mtimeNanoseconds now = .ok (after, rows)) : Advances db after := by
  obtain ⟨location, atime, mtime, -, updated | updated⟩ := setTimes_ok done
  · refine advances_updateZones ?_ updated
    intro zone _ _
    exact ⟨rfl, rfl, ⟨rfl, rfl, rfl⟩, Or.inl (Nat.lt_succ_self _)⟩
  · refine advances_updateEntries ?_ updated
    intro entry _ _
    exact ⟨rfl, rfl, rfl, rfl, ⟨rfl, rfl, rfl⟩, Or.inl (Nat.lt_succ_self _)⟩

theorem overwritten_later (keys : Keys db) {location : Location} {existing entry : ZoneEntry}
    (found : db.entryAt volume location = some existing) (regular : existing.kind = .file)
    (member : entry ∈ db.zoneEntries) (chosen : atLocation volume location entry = true)
    (data : Bytes) (content newContent : ZoneEntry → Option Bytes) :
    ZoneEntry.Later content newContent entry (overwritten data now entry) := by
  have here := atLocation_iff.mp chosen
  have there := atLocation_iff.mp (List.find?_some found)
  obtain rfl := keys.entry_eq_of_path member (List.mem_of_find?_eq_some found)
    (here.1.trans there.1.symm) (here.2.1.trans there.2.1.symm) (here.2.2.trans there.2.2.symm)
  have noTarget : entry.linkTarget = none := by
    unfold ZoneEntry.kind at regular
    unfold ZoneEntry.linkTarget
    cases payload : entry.payload with
    | file _ _ => rfl
    | directory => rfl
    | symlink target =>
        rw [payload] at regular
        cases regular
  exact ⟨rfl, rfl, regular, noTarget, ⟨rfl, rfl, rfl⟩, Or.inl (Nat.lt_succ_self _)⟩

theorem advances_writeFileInline {targetPath : Text} {data : Bytes} {mode : Int} {id : NodeId}
    (keys : Keys db)
    (done : db.writeFileInline volume targetPath data mode now = .ok (after, id)) :
    Advances db after := by
  obtain ⟨-, -, parent, -, ⟨-, -, inserted⟩ | ⟨existing, found, regular, -, updated⟩⟩ :=
    writeFileInline_ok done
  · exact advances_insertOne (fun _ => rfl) inserted
  · refine advances_updateEntries ?_ updated
    intro entry member chosen
    exact overwritten_later keys found regular member chosen data _ _

theorem advances_writeFile {targetPath : Text} {data : Bytes} {mode : Int} {id : NodeId}
    (committed : Committed db)
    (done : db.writeFile volume targetPath data mode now = .ok (after, id)) :
    Advances db after := by
  obtain ⟨written, location, blockized, writeOk, -, blockOk, reclaimOk⟩ := writeFile_ok done
  have sofar := writeFileInline_kept (.refl committed.sound) writeOk
  obtain ⟨found, change, foundOk, moved⟩ := blockizeZone_ok sofar.sound
    ((writeFileInline_contentMapping writeOk).trans committed.unmapped) volume location.zoneId
  obtain rfl : found = blockized := Except.ok.inj (foundOk.symm.trans blockOk)
  have counted : written.nextNode ≤ found.nextNode :=
    (Statements.blockizeZone .refl foundOk).nextNode_le
  exact ((advances_writeFileInline committed.sound.keys writeOk).trans
    (moved.advances counted)).trans
      (Reclaimed.of_reclaim moved.sound.store moved.sound.stored reclaimOk).advances

theorem writeFileInline_version {targetPath : Text} {data : Bytes} {mode : Int} {id : NodeId}
    (keys : Keys db)
    (done : db.writeFileInline volume targetPath data mode now = .ok (after, id))
    (newContent : ZoneEntry → Option Bytes) {entry : ZoneEntry}
    (member : entry ∈ after.zoneEntries) (written : entry.id = id) (given : id < db.nextNode) :
    ∃ old ∈ db.zoneEntries, ZoneEntry.Later db.contentOf newContent old entry ∧
      old.metadata.generation < entry.metadata.generation := by
  obtain ⟨-, -, parent, -, ⟨-, rfl, -⟩ | ⟨existing, found, regular, rfl, updated⟩⟩ :=
    writeFileInline_ok done
  · exact absurd given (Nat.lt_irrefl _)
  · rw [(updateEntries_ok updated).1] at member
    have existingMember := List.mem_of_find?_eq_some found
    obtain ⟨kept, unselected⟩ | ⟨old, oldMember, chosen, rfl⟩ := mem_map_rewritten.mp member
    · obtain rfl := keys.entry_eq_of_id kept existingMember written
      rw [List.find?_some found] at unselected
      cases unselected
    · exact ⟨old, oldMember, overwritten_later keys found regular oldMember chosen data _ _,
        Nat.lt_succ_self _⟩

theorem attached_shape (object : Uuid) (bytes : Nat) (entry : ZoneEntry) :
    ∃ payload size, attached object bytes entry =
        { entry with payload := payload, size := size } ∧ payload.kind = entry.kind ∧
      (attached object bytes entry).linkTarget = entry.linkTarget := by
  obtain ⟨id, volume, zone, path, parent, name, payload, size, metadata⟩ := entry
  cases payload with
  | file data reference => exact ⟨.file data (some object), bytes, rfl, rfl, rfl⟩
  | directory => exact ⟨.directory, size, rfl, rfl, rfl⟩
  | symlink target => exact ⟨.symlink target, size, rfl, rfl, rfl⟩

theorem advances_importText {target : Text} {reader : Bytes} {id : NodeId} (sound : Sound db)
    (done : db.importText volume target reader now = .ok (after, id)) : Advances db after := by
  obtain ⟨stored, written, size, tables, kept, -, writeOk, updated⟩ := importText_ok sound done
  have storing : Advances db stored := by
    refine tables.advances ?_
    intro entry member
    refine contentOf_congr ?_
    intro object refers
    obtain ⟨-, found, foundMember, rfl, -⟩ := (sound.stored entry member).object refers
    exact kept.blocks entry (tables.zoneEntries.symm ▸ member) _
      (sound.store.object_bound found foundMember) refers
  have writing := advances_writeFileInline kept.sound.keys writeOk
  have nodes := zoneNodes_updateEntries updated
  have store : SameStore written after := by
    rw [(updateEntries_ok updated).1]
    exact ⟨rfl, rfl, rfl, rfl, rfl, rfl, rfl⟩
  refine storing.trans ⟨?_, ?_, ?_⟩
  · rw [(updateEntries_ok updated).1]
    exact writing.nextNode
  · rw [nodes]
    exact writing.zones
  · intro entry member given
    rw [(updateEntries_ok updated).1] at member
    obtain ⟨stays, -⟩ | ⟨old, oldMember, chosen, rfl⟩ := mem_map_rewritten.mp member
    · obtain ⟨start, startMember, later⟩ := writing.entries entry stays given
      rw [store.contentOf]
      exact ⟨start, startMember, later⟩
    · -- Attaching the object keeps the generation that the write has raised.
      obtain ⟨-, isWritten⟩ := of_decide_eq_true chosen
      obtain ⟨payload, bytes, shape, kind, linkTarget⟩ := attached_shape db.nextUuid size old
      have numbered : old.id < stored.nextNode := by
        rw [shape] at given
        exact given
      obtain ⟨start, startMember, later, raised⟩ := writeFileInline_version kept.sound.keys writeOk
        after.contentOf oldMember isWritten (isWritten ▸ numbered)
      refine ⟨start, startMember, ?_, ?_, ?_, later.linkTarget.trans linkTarget.symm, ?_, Or.inl ?_⟩
      · rw [shape]
        exact later.id
      · rw [shape]
        exact later.volumeId
      · rw [shape]
        exact later.kind.trans kind.symm
      · rw [shape]
        exact later.owner
      · rw [shape]
        exact raised

theorem advances_applyImportInline {destination : Text} {staging : List StagedEntry} {count : Nat}
    (done : db.applyImportInline volume destination staging now = .ok (after, count)) :
    Advances db after := by
  obtain ⟨-, root, parent, -, -, ⟨-, inserted, zone, zoneOk, fillOk⟩ | ⟨-, insertOk⟩⟩ :=
    applyImportInline_ok done
  · refine (advances_insertZone (fun _ => rfl) zoneOk).trans (advances_insertEntries ?_ fillOk)
    intro make member serial
    obtain ⟨staged, -, rfl⟩ := List.mem_map.mp member
    rfl
  · exact advances_insertOne (fun _ => rfl) insertOk

theorem advances_importTree {destination : Text} {entries : List ImportEntry} {count : Nat}
    (sound : Sound db)
    (done : db.importTree volume destination entries now = .ok (after, count)) :
    Advances db after := by
  obtain ⟨-, staging, imported, location, -, importOk, -, blockOk⟩ := importTree_ok done
  obtain ⟨change, moved⟩ :=
    blockizeZoneSegment_ok (applyImportInline_kept (.refl sound) importOk).sound blockOk
  exact (advances_applyImportInline importOk).trans
    (moved.advances (Statements.blockizeZoneSegment .refl blockOk).nextNode_le)

theorem advances_copy {source destination : Text} {recursive : Bool} {count : Nat}
    (done : db.copy volume source destination recursive now = .ok (after, count)) :
    Advances db after := by
  obtain ⟨sourceLocation, parent, -, ⟨-, copied⟩ | ⟨-, copied⟩⟩ := copy_ok done
  · obtain ⟨-, -, zone, inserted, id, -, zoneOk, fillOk, -⟩ := copyZone_ok copied
    refine (advances_insertZone (fun _ => rfl) zoneOk).trans (advances_insertEntries ?_ fillOk)
    intro make member serial
    obtain ⟨entry, -, rfl⟩ := List.mem_map.mp member
    rfl
  · obtain ⟨-, insertOk, -⟩ := copyEntry_ok copied
    refine advances_insertEntries ?_ insertOk
    intro make member serial
    obtain ⟨entry, -, rfl⟩ := List.mem_map.mp member
    rfl

/-- The root of a moved zone and moved entries get a later version; a zone below the moved one
changes its path only. -/
theorem advances_relocated {replaced : Database} {source destination : Text}
    {sourceLocation parent : Location}
    (movable : Movable db replaced volume source destination sourceLocation parent)
    (relocated : Relocated replaced after volume source destination sourceLocation parent now) :
    Advances db after := by
  have replacing : Advances db replaced := by
    obtain ⟨-, ⟨-, rfl⟩ | ⟨location, -, rfl⟩⟩ := replaceDestination_ok movable.replaces
    · exact .refl replaced
    · exact advances_deleteEntries db _
  obtain ⟨-, updated⟩ | ⟨-, -, updated⟩ := relocated
  · refine replacing.trans (advances_updateZones ?_ updated)
    intro zone _ _
    unfold movedZone
    dsimp only
    split
    · exact ⟨rfl, rfl, ⟨rfl, rfl, rfl⟩, Or.inl (Nat.lt_succ_self _)⟩
    · exact ⟨rfl, rfl, .refl _, Or.inr ⟨rfl, rfl, rfl⟩⟩
  · refine replacing.trans (advances_updateEntries ?_ updated)
    intro entry _ _
    exact ⟨rfl, rfl, rfl, rfl, ⟨rfl, rfl, rfl⟩, Or.inl (Nat.lt_succ_self _)⟩

theorem advances_deleteZoneTrees (db : Database) (volume : Uuid) (selected : ZoneNode → Bool) :
    Advances db (db.deleteZoneTrees volume selected).1 :=
  (advances_deleteEntries db _).trans (advances_deleteZones _ _)

theorem advances_removeRows (db : Database) (volume : Uuid) (target : Text) (location : Location)
    (recursive : Bool) : Advances db (db.removeRows volume target location recursive).1 := by
  unfold Database.removeRows
  split
  · exact advances_deleteZoneTrees db volume _
  · unfold Database.removeEntryRows
    refine Advances.trans ?_ (advances_deleteEntries _ _)
    split
    · exact advances_deleteZoneTrees db volume _
    · exact .refl db

theorem advances_remove {targetPath : Text} {recursive : Bool} {count : Nat} (sound : Sound db)
    (done : db.remove volume targetPath recursive = .ok (after, count)) : Advances db after := by
  obtain ⟨location, removable, reclaimed, -⟩ := remove_ok.mp done
  have removed := removeRows_kept (.refl sound) removable
  exact (advances_removeRows db volume targetPath location recursive).trans
    (Reclaimed.of_reclaim removed.sound.store removed.sound.stored reclaimed).advances

theorem advances_removeMany {targetPaths : List Text} {recursive forceMissing : Bool} {count : Nat}
    (sound : Sound db)
    (done : db.removeMany volume targetPaths recursive forceMissing = .ok (after, count)) :
    Advances db after := by
  refine (removeMany_invariant (fun state => Kept db state ∧ Advances db state) ?_ ?_
    ⟨.refl sound, .refl db⟩ done).2
  · rintro state path next removed ⟨kept, sofar⟩ removeOk
    exact ⟨remove_kept kept removeOk, sofar.trans (advances_remove kept.sound removeOk)⟩
  · intro _ _ removing
    obtain ⟨-, -, -, reclaimed⟩ := removeBulk_ok.mp removing
    have deleted := (Kept.refl sound).deleteEntries
      (db.bulkRow volume (targetPaths.filterMap (db.resolve volume)) recursive)
    exact ⟨deleted.reclaim reclaimed, (advances_deleteEntries db _).trans
      (Reclaimed.of_reclaim deleted.sound.store deleted.sound.stored reclaimed).advances⟩

theorem advances_removeVolume (sound : Sound db) (catalog : Catalog db)
    (done : db.removeVolume volume = .ok after) : Advances db after := by
  obtain ⟨laterSound, laterCatalog, -⟩ := removeVolume_sound sound catalog done
  obtain ⟨reclaimed, reclaimOk, deleted⟩ := removeVolume_ok done
  have emptied := (Kept.refl sound).deleteEntries fun entry => decide (entry.volumeId = volume)
  have sofar := Reclaimed.of_reclaim emptied.sound.store emptied.sound.stored reclaimOk
  have kept := (emptied.reclaim reclaimOk).sound
  have ordered := ((sameCatalog_deleteEntries db fun entry => decide (entry.volumeId = volume)).kept.trans
    (catalogKept_reclaim reclaimOk)).catalog catalog
  have shape := deleteVolume_eq kept ordered deleted
  refine ((advances_deleteEntries db _).trans sofar.advances).trans ?_
  rw [shape] at laterSound laterCatalog ⊢
  refine .of_tables (Nat.le_refl _) (List.map_subset _ List.filter_sublist.subset)
    (List.Subset.refl _) ?_
  intro entry member
  have inTable : entry ∈ reclaimed.zoneEntries := member
  have different : entry.volumeId ≠ volume := by
    rw [sofar.tables.zoneEntries] at inTable
    obtain ⟨-, stays⟩ := List.mem_filter.mp inTable
    simpa using stays
  have same := SameReach.of_rows kept ordered laterSound laterCatalog
    (rowsOf_withoutVolume different)
  refine (contentOf_congr ?_).symm
  exact same.blocks entry (List.mem_filter.mpr ⟨inTable, decide_eq_true rfl⟩)

end Operations

/-! ### Runs -/

theorem advances_run {db after : Database} {op : Op} (committed : Committed db)
    (done : op.run db = .ok after) : Advances db after := by
  cases op with
  | createVolume volumeId volumeName now =>
      obtain ⟨⟨last, id⟩, ran, rfl⟩ := map_eq_ok.mp done
      exact advances_createVolume ran
  | mkdir volume targetPath parents mode now => exact advances_mkdir done
  | mkdirMany volume targetPaths parents now => exact advances_mkdirMany done
  | writeFile volume targetPath data mode now =>
      obtain ⟨⟨last, id⟩, ran, rfl⟩ := map_eq_ok.mp done
      exact advances_writeFile committed ran
  | importTree volume destination entries now =>
      obtain ⟨⟨last, count⟩, ran, rfl⟩ := map_eq_ok.mp done
      exact advances_importTree committed.sound ran
  | importText volume target reader now =>
      obtain ⟨⟨last, id⟩, ran, rfl⟩ := map_eq_ok.mp done
      exact advances_importText committed.sound ran
  | copy volume sourcePath destinationPath recursive now =>
      obtain ⟨⟨last, count⟩, ran, rfl⟩ := map_eq_ok.mp done
      exact advances_copy ran
  | move volume sourcePath destinationPath now =>
      obtain ⟨⟨last, count⟩, ran, rfl⟩ := map_eq_ok.mp done
      obtain ⟨replaced, sourceLocation, parent, movable, relocated⟩ := move_ok ran
      exact advances_relocated movable relocated
  | moveCommand volume sourcePath destinationPath now =>
      obtain ⟨⟨last, count⟩, ran, rfl⟩ := map_eq_ok.mp done
      obtain ⟨replaced, sourceLocation, parent, movable, relocated⟩ := moveCommand_ok ran
      exact advances_relocated movable relocated
  | remove volume targetPath recursive =>
      obtain ⟨⟨last, count⟩, ran, rfl⟩ := map_eq_ok.mp done
      exact advances_remove committed.sound ran
  | removeMany volume targetPaths recursive forceMissing =>
      obtain ⟨⟨last, count⟩, ran, rfl⟩ := map_eq_ok.mp done
      exact advances_removeMany committed.sound ran
  | setTimes volume targetPath atimeSeconds atimeNanoseconds mtimeSeconds mtimeNanoseconds now =>
      obtain ⟨⟨last, rows⟩, ran, rfl⟩ := map_eq_ok.mp done
      exact advances_setTimes ran

theorem advances_step {before after : Database} {call : Call} (orderly : Orderly before)
    (moved : CallStep before call after) : Advances before after := by
  unfold CallStep transact at moved
  split at moved
  · rename_i last ran
    have committing : Advances last last.commit :=
      .of_tables (Nat.le_refl _) (List.Subset.refl _) (List.Subset.refl _) fun _ _ => rfl
    rw [moved]
    cases call with
    | operation op => exact (advances_run ⟨orderly.sound, orderly.unmapped⟩ ran).trans committing
    | removeVolume volume =>
        exact (advances_removeVolume orderly.sound orderly.catalog ran).trans committing
  · rw [moved]
    exact .refl before

theorem advances_afterCalls {db : Database} (orderly : Orderly db) (calls : List Call) :
    Advances db (db.afterCalls calls) := by
  induction calls generalizing db with
  | nil => exact .refl db
  | cons call rest ih => exact (advances_step orderly rfl).trans (ih (orderly.step rfl).1)

/-- The later node is the earlier one, in the same version or in a later one. -/
structure Node.Continues (old new : Node) : Prop where
  id : old.id = new.id
  kind : old.kind = new.kind
  linkTarget : old.linkTarget = new.linkTarget
  mode : old.mode = new.mode
  uid : old.uid = new.uid
  gid : old.gid = new.gid
  version : old.generation < new.generation ∨ old.generation = new.generation ∧
    old.name = new.name ∧ old.size = new.size ∧ old.atime = new.atime ∧ old.mtime = new.mtime ∧
      old.ctime = new.ctime ∧ old.content = new.content

/-- Nodes are versions of the nodes that had their ids. -/
theorem Advances.node {db after : Database} (advances : Advances db after) (keys : Keys db)
    {volume : Uuid} {node : Node} (member : node ∈ after.nodes volume)
    (given : node.id < db.nextNode) : ∃ old ∈ db.nodes volume, old.Continues node := by
  obtain ⟨zone, zoneMember, rfl⟩ | ⟨entry, entryMember, zone, -, -, rfl⟩ := Tree.mem_nodes.mp member
  · obtain ⟨inTable, inVolume⟩ := mem_tree_zones.mp zoneMember
    obtain ⟨old, oldMember, later⟩ := advances.zones zone inTable given
    refine ⟨nodeOfZone old, Tree.nodeOfZone_mem
      (mem_tree_zones.mpr ⟨oldMember, later.volumeId.trans inVolume⟩), later.id, rfl, rfl,
      later.owner.mode, later.owner.uid, later.owner.gid, ?_⟩
    rcases later.version with raised | ⟨metadata, -, name⟩
    · exact Or.inl raised
    · exact Or.inr ⟨congrArg Metadata.generation metadata, name, rfl,
        congrArg Metadata.atime metadata, congrArg Metadata.mtime metadata,
        congrArg Metadata.ctime metadata, rfl⟩
  · obtain ⟨inTable, inVolume⟩ := mem_tree_entries.mp entryMember
    obtain ⟨old, oldMember, later⟩ := advances.entries entry inTable given
    obtain ⟨owner, ownerMember, inZone, ownerVolume⟩ := keys.entry_zone old oldMember
    have oldVolume := later.volumeId.trans inVolume
    refine ⟨nodeOfEntry db.contentOf owner.path old, Tree.nodeOfEntry_mem
      (mem_tree_entries.mpr ⟨oldMember, oldVolume⟩)
      (mem_tree_zones.mpr ⟨ownerMember, ownerVolume.trans oldVolume⟩) inZone, later.id, later.kind,
      later.linkTarget, later.owner.mode, later.owner.uid, later.owner.gid, ?_⟩
    rcases later.version with raised | same
    · exact Or.inl raised
    · exact Or.inr ⟨congrArg Metadata.generation same.metadata, same.name, same.size,
        congrArg Metadata.atime same.metadata, congrArg Metadata.mtime same.metadata,
        congrArg Metadata.ctime same.metadata, same.content⟩

/-- Whatever calls run, a node with an id of an earlier node is that node, and with the same
generation it has the same metadata and bytes; an id that has left the volume stays away. -/
theorem nodes_versioned {db : Database} (reachable : ReachableByCalls db) (calls : List Call)
    (volume : Uuid) :
    (∀ node ∈ (db.afterCalls calls).nodes volume, node.id < db.nextNode →
      ∃ old ∈ db.nodes volume, old.Continues node) ∧
    (∀ node ∈ db.nodes volume, node.id < db.nextNode) ∧
    ∀ id < db.nextNode, (∀ node ∈ db.nodes volume, node.id ≠ id) →
      ∀ node ∈ (db.afterCalls calls).nodes volume, node.id ≠ id := by
  have orderly := orderly_of_reachable reachable
  have advances := advances_afterCalls orderly calls
  have continued : ∀ node ∈ (db.afterCalls calls).nodes volume, node.id < db.nextNode →
      ∃ old ∈ db.nodes volume, old.Continues node :=
    fun node member given => advances.node orderly.sound.keys member given
  refine ⟨continued, fun node member => orderly.sound.keys.node_bound member, ?_⟩
  intro id given gone node member same
  obtain ⟨old, oldMember, continues⟩ := continued node member (same.symm ▸ given)
  exact gone old oldMember (continues.id.trans same)

/-- A file is overwritten, moved and removed, and a new file takes its name. -/
def replacingCalls : List Call :=
  [.operation (.writeFile 7 ['/', 't'] [104, 105, 33] 420 3),
    .operation (.move 7 ['/', 't'] ['/', 'u'] 4), .operation (.remove 7 ['/', 'u'] false),
    .operation (.writeFile 7 ['/', 't'] [104, 105] 420 5)]

theorem nodes_versioned_replaced :
    let db := Database.empty.calls [.createVolume 7 ['v'] 0, .writeFile 7 ['/', 't'] [104, 105] 420 2]
    (∀ node ∈ (db.afterCalls replacingCalls).nodes 7, node.id < db.nextNode →
      ∃ old ∈ db.nodes 7, old.Continues node) ∧
    (∀ node ∈ db.nodes 7, node.id < db.nextNode) ∧
    ∀ id < db.nextNode, (∀ node ∈ db.nodes 7, node.id ≠ id) →
      ∀ node ∈ (db.afterCalls replacingCalls).nodes 7, node.id ≠ id :=
  nodes_versioned (reachable_calls _).byCalls replacingCalls 7

end PostgreOS
