/-
Rows that stay where they are.

Only a move changes the path of a row that stays in its table. The other operations add
rows with new ids, delete rows, or change columns that do not place a row, so whatever is
known about where an id is stays true for as long as the id is there.
-/

import PostgreOS.Moving
import PostgreOS.Statements

namespace PostgreOS

open Library.Outcome Library.Table Relation

/-- The rows of `after` that were there before are where they were. -/
structure StaysPut (db after : Database) : Prop where
  nextNode : db.nextNode ≤ after.nextNode
  zone : ∀ zone ∈ after.zoneNodes, zone.id < db.nextNode →
    ∃ old ∈ db.zoneNodes, old.id = zone.id ∧ old.volumeId = zone.volumeId ∧ old.path = zone.path
  entry : ∀ entry ∈ after.zoneEntries, entry.id < db.nextNode →
    ∃ old ∈ db.zoneEntries, old.id = entry.id ∧ old.volumeId = entry.volumeId ∧
      old.zoneId = entry.zoneId ∧ old.relativePath = entry.relativePath ∧ old.kind = entry.kind

section Statements

variable {db middle after : Database}

theorem StaysPut.refl (db : Database) : StaysPut db db where
  nextNode := Nat.le_refl _
  zone := fun zone member _ => ⟨zone, member, rfl, rfl, rfl⟩
  entry := fun entry member _ => ⟨entry, member, rfl, rfl, rfl, rfl, rfl⟩

theorem StaysPut.trans (first : StaysPut db middle) (second : StaysPut middle after) :
    StaysPut db after where
  nextNode := Nat.le_trans first.nextNode second.nextNode
  zone := by
    intro zone member bound
    obtain ⟨mid, midMember, id, volume, path⟩ :=
      second.zone zone member (Nat.lt_of_lt_of_le bound first.nextNode)
    obtain ⟨old, oldMember, oldId, oldVolume, oldPath⟩ := first.zone mid midMember (id ▸ bound)
    exact ⟨old, oldMember, oldId.trans id, oldVolume.trans volume, oldPath.trans path⟩
  entry := by
    intro entry member bound
    obtain ⟨mid, midMember, id, volume, zone, path, kind⟩ :=
      second.entry entry member (Nat.lt_of_lt_of_le bound first.nextNode)
    obtain ⟨old, oldMember, oldId, oldVolume, oldZone, oldPath, oldKind⟩ :=
      first.entry mid midMember (id ▸ bound)
    exact ⟨old, oldMember, oldId.trans id, oldVolume.trans volume, oldZone.trans zone,
      oldPath.trans path, oldKind.trans kind⟩

theorem StaysPut.of_tables (nextNode : db.nextNode ≤ after.nextNode)
    (zones : after.zoneNodes = db.zoneNodes) (entries : after.zoneEntries = db.zoneEntries) :
    StaysPut db after where
  nextNode := nextNode
  zone := fun zone member _ => ⟨zone, zones ▸ member, rfl, rfl, rfl⟩
  entry := fun entry member _ => ⟨entry, entries ▸ member, rfl, rfl, rfl, rfl, rfl⟩

theorem staysPut_insertEntries {makers : List (NodeId → ZoneEntry)}
    (ids : ∀ make ∈ makers, ∀ serial, (make serial).id = serial)
    (inserted : db.insertEntries makers = .ok after) : StaysPut db after := by
  have nodes := zoneNodes_insertEntries inserted
  obtain ⟨rfl, -⟩ := insertEntries_ok inserted
  refine ⟨Nat.le_add_right _ _, ?_, ?_⟩
  · rw [nodes]
    exact fun zone member _ => ⟨zone, member, rfl, rfl, rfl⟩
  · intro entry member bound
    rcases List.mem_append.mp member with old | new
    · exact ⟨entry, old, rfl, rfl, rfl, rfl, rfl⟩
    · obtain ⟨make, makeMember, serial, above, -, rfl⟩ := mem_numbered new
      rw [ids make makeMember] at bound
      exact absurd bound (Nat.not_lt.mpr above)

theorem staysPut_deleteEntries (db : Database) (selected : ZoneEntry → Bool) :
    StaysPut db (db.deleteEntries selected) := by
  refine ⟨Nat.le_refl _, ?_, ?_⟩
  · rw [zoneNodes_deleteEntries]
    exact fun zone member _ => ⟨zone, member, rfl, rfl, rfl⟩
  · exact fun entry member _ =>
      ⟨entry, List.mem_of_mem_filter member, rfl, rfl, rfl, rfl, rfl⟩

theorem staysPut_deleteZones (db : Database) (selected : Zone → Bool) :
    StaysPut db (db.deleteZones selected) := by
  refine ⟨Nat.le_refl _, ?_, ?_⟩
  · intro zone member _
    obtain ⟨row, rowMember, rfl⟩ := List.mem_map.mp member
    exact ⟨row.toZoneNode, List.mem_map_of_mem (List.mem_of_mem_filter rowMember), rfl, rfl, rfl⟩
  · exact fun entry member _ => ⟨entry, member, rfl, rfl, rfl, rfl, rfl⟩

theorem staysPut_updateEntries {selected : ZoneEntry → Bool} {change : ZoneEntry → ZoneEntry}
    (same : ∀ entry ∈ db.zoneEntries, selected entry = true →
      entry.id = (change entry).id ∧ entry.volumeId = (change entry).volumeId ∧
        entry.zoneId = (change entry).zoneId ∧
        entry.relativePath = (change entry).relativePath ∧ entry.kind = (change entry).kind)
    (updated : db.updateEntries selected change = .ok after) : StaysPut db after := by
  have nodes := zoneNodes_updateEntries updated
  obtain ⟨rfl, -⟩ := updateEntries_ok updated
  refine ⟨Nat.le_refl _, ?_, ?_⟩
  · rw [nodes]
    exact fun zone member _ => ⟨zone, member, rfl, rfl, rfl⟩
  · intro entry member _
    obtain ⟨kept, -⟩ | ⟨old, oldMember, chosen, rfl⟩ := mem_map_rewritten.mp member
    · exact ⟨entry, kept, rfl, rfl, rfl, rfl, rfl⟩
    · exact ⟨old, oldMember, same old oldMember chosen⟩

theorem staysPut_updateZones {selected : Zone → Bool} {change : Zone → Zone}
    (same : ∀ zone ∈ db.zones, selected zone = true → zone.id = (change zone).id ∧
      zone.volumeId = (change zone).volumeId ∧ zone.path = (change zone).path)
    (updated : db.updateZones selected change = .ok after) : StaysPut db after := by
  obtain ⟨rfl, -⟩ := updateZones_ok updated
  refine ⟨Nat.le_refl _, ?_, ?_⟩
  · intro zone member _
    obtain ⟨row, rowMember, rfl⟩ := List.mem_map.mp member
    obtain ⟨kept, -⟩ | ⟨old, oldMember, chosen, rfl⟩ := mem_map_rewritten.mp rowMember
    · exact ⟨row.toZoneNode, List.mem_map_of_mem kept, rfl, rfl, rfl⟩
    · exact ⟨old.toZoneNode, List.mem_map_of_mem oldMember, same old oldMember chosen⟩
  · exact fun entry member _ => ⟨entry, member, rfl, rfl, rfl, rfl, rfl⟩

theorem Statement.nextNode_le (statement : Statement db after) : db.nextNode ≤ after.nextNode := by
  cases statement with
  | insertEntries ids inZone inserted =>
      rw [(insertEntries_ok inserted).1]
      exact Nat.le_add_right _ _
  | updateEntries inZone updated =>
      rw [(updateEntries_ok updated).1]
  | deleteEntries selected => exact Nat.le_refl _
  | insertZone ids inserted =>
      rw [(insertZone_ok inserted).1]
      exact Nat.le_succ _
  | updateZones same updated =>
      rw [(updateZones_ok updated).1]
  | deleteZones selected => exact Nat.le_refl _
  | other zones zoneEntries nextNode => exact Nat.le_of_eq nextNode.symm

theorem Statements.nextNode_le (statements : Statements db after) :
    db.nextNode ≤ after.nextNode := by
  induction statements with
  | refl => exact Nat.le_refl _
  | tail _ statement ih => exact Nat.le_trans ih statement.nextNode_le

theorem Blockized.staysPut {volume : Uuid} {zone : NodeId} {change : ZoneEntry → ZoneEntry}
    (nextNode : db.nextNode ≤ after.nextNode)
    (blockized : Blockized db after volume zone change) : StaysPut db after := by
  refine ⟨nextNode, ?_, ?_⟩
  · rw [blockized.zoneNodes]
    exact fun zone member _ => ⟨zone, member, rfl, rfl, rfl⟩
  · rw [blockized.zoneEntries]
    intro entry member _
    obtain ⟨old, oldMember, rfl⟩ := List.mem_map.mp member
    obtain ⟨payload, same, kind, -⟩ := blockized.entry oldMember
    refine ⟨old, oldMember, ?_⟩
    rw [same]
    exact ⟨rfl, rfl, rfl, rfl, kind.symm⟩

end Statements

section Operations

variable {db after : Database} {volume : Uuid}

theorem staysPut_commit (db : Database) : StaysPut db db.commit :=
  .of_tables (Nat.le_refl _) rfl rfl

theorem staysPut_mkdirOne {targetPath : Text} {mode : Int} {now : Timestamp}
    (done : db.mkdirOne volume targetPath mode now = .ok after) : StaysPut db after := by
  obtain ⟨-, rfl⟩ | ⟨location, -, inserted⟩ := mkdirOne_ok done
  · exact .refl after
  · refine staysPut_insertEntries ?_ inserted
    intro make member serial
    rw [List.mem_singleton.mp member]
    rfl

theorem staysPut_mkdir {targetPath : Text} {parents : Bool} {mode : Int} {now : Timestamp}
    (done : db.mkdir volume targetPath parents mode now = .ok after) : StaysPut db after :=
  mkdir_invariant (StaysPut db) (fun _ _ _ sofar made => sofar.trans (staysPut_mkdirOne made))
    (.refl db) done

theorem staysPut_setTimes {targetPath : Text}
    {atimeSeconds atimeNanoseconds mtimeSeconds mtimeNanoseconds : Int} {now : Timestamp}
    {rows : List Inode}
    (done : db.setTimes volume targetPath atimeSeconds atimeNanoseconds mtimeSeconds
      mtimeNanoseconds now = .ok (after, rows)) : StaysPut db after := by
  obtain ⟨location, atime, mtime, -, updated | updated⟩ := setTimes_ok done
  · refine staysPut_updateZones ?_ updated
    exact fun _ _ _ => ⟨rfl, rfl, rfl⟩
  · refine staysPut_updateEntries ?_ updated
    exact fun _ _ _ => ⟨rfl, rfl, rfl, rfl, rfl⟩

theorem staysPut_writeFileInline {targetPath : Text} {data : Bytes} {mode : Int}
    {now : Timestamp} {id : NodeId} (keys : Keys db)
    (done : db.writeFileInline volume targetPath data mode now = .ok (after, id)) :
    StaysPut db after := by
  obtain ⟨-, -, parent, -, ⟨-, -, inserted⟩ | ⟨existing, found, regular, -, updated⟩⟩ :=
    writeFileInline_ok done
  · refine staysPut_insertEntries ?_ inserted
    intro make member serial
    rw [List.mem_singleton.mp member]
    rfl
  · refine staysPut_updateEntries ?_ updated
    intro entry member chosen
    have here := atLocation_iff.mp chosen
    have there := atLocation_iff.mp (List.find?_some found)
    obtain rfl := keys.entry_eq_of_path member (List.mem_of_find?_eq_some found)
      (here.1.trans there.1.symm) (here.2.1.trans there.2.1.symm) (here.2.2.trans there.2.2.symm)
    exact ⟨rfl, rfl, rfl, rfl, regular⟩

theorem Reclaimed.staysPut (reclaimed : Reclaimed db after) : StaysPut db after :=
  .of_tables (Nat.le_of_eq reclaimed.tables.nextNode.symm)
    (congrArg (List.map Zone.toZoneNode) reclaimed.tables.zones) reclaimed.tables.zoneEntries

theorem staysPut_writeFile {targetPath : Text} {data : Bytes} {mode : Int} {now : Timestamp}
    {id : NodeId} (committed : Committed db)
    (done : db.writeFile volume targetPath data mode now = .ok (after, id)) :
    StaysPut db after := by
  obtain ⟨written, location, blockized, writeOk, -, blockOk, reclaimOk⟩ := writeFile_ok done
  have sofar := writeFileInline_kept (.refl committed.sound) writeOk
  obtain ⟨found, change, foundOk, moved⟩ := blockizeZone_ok sofar.sound
    ((writeFileInline_contentMapping writeOk).trans committed.unmapped) volume location.zoneId
  obtain rfl : found = blockized := Except.ok.inj (foundOk.symm.trans blockOk)
  have counted : written.nextNode ≤ found.nextNode :=
    (Statements.blockizeZone .refl foundOk).nextNode_le
  exact ((staysPut_writeFileInline committed.sound.keys writeOk).trans
    (moved.staysPut counted)).trans
      (Reclaimed.of_reclaim moved.sound.store moved.sound.stored reclaimOk).staysPut

theorem staysPut_deleteZoneTrees (db : Database) (volume : Uuid) (selected : ZoneNode → Bool) :
    StaysPut db (db.deleteZoneTrees volume selected).1 :=
  (staysPut_deleteEntries db _).trans (staysPut_deleteZones _ _)

theorem staysPut_removeRows (db : Database) (volume : Uuid) (target : Text) (location : Location)
    (recursive : Bool) : StaysPut db (db.removeRows volume target location recursive).1 := by
  unfold Database.removeRows
  split
  · exact staysPut_deleteZoneTrees db volume _
  · unfold Database.removeEntryRows
    refine StaysPut.trans ?_ (staysPut_deleteEntries _ _)
    split
    · exact staysPut_deleteZoneTrees db volume _
    · exact .refl db

theorem staysPut_remove {targetPath : Text} {recursive : Bool} {count : Nat} (sound : Sound db)
    (done : db.remove volume targetPath recursive = .ok (after, count)) : StaysPut db after := by
  obtain ⟨location, removable, reclaimed, -⟩ := remove_ok.mp done
  have removed := removeRows_kept (.refl sound) removable
  exact (staysPut_removeRows db volume targetPath location recursive).trans
    (Reclaimed.of_reclaim removed.sound.store removed.sound.stored reclaimed).staysPut

end Operations

/-! ### Nodes -/

theorem StaysPut.node {db after : Database} {volume : Uuid} (stays : StaysPut db after)
    (keys : Keys db) {node : Node} (member : node ∈ after.nodes volume)
    (bound : node.id < db.nextNode) :
    ∃ old ∈ db.nodes volume, old.id = node.id ∧ old.path = node.path ∧ old.kind = node.kind := by
  obtain ⟨zone, zoneMember, rfl⟩ | ⟨entry, entryMember, zone, zoneMember, inZone, rfl⟩ :=
    Tree.mem_nodes.mp member
  · obtain ⟨inTable, inVolume⟩ := mem_tree_zones.mp zoneMember
    obtain ⟨old, oldMember, id, sameVolume, path⟩ := stays.zone zone inTable bound
    exact ⟨nodeOfZone old, Tree.nodeOfZone_mem
      (mem_tree_zones.mpr ⟨oldMember, sameVolume.trans inVolume⟩), id, path, rfl⟩
  · obtain ⟨inTable, inVolume⟩ := mem_tree_entries.mp entryMember
    obtain ⟨old, oldMember, id, sameVolume, sameZone, path, kind⟩ := stays.entry entry inTable bound
    obtain ⟨owner, ownerMember, ownerId, ownerVolume⟩ := keys.entry_zone old oldMember
    -- The zone of the entry was there too.
    obtain ⟨zoneInTable, zoneVolume⟩ := mem_tree_zones.mp zoneMember
    have sameOwner : owner.id = zone.id := ownerId.trans (sameZone.trans inZone.symm)
    obtain ⟨before, beforeMember, beforeId, -, beforePath⟩ :=
      stays.zone zone zoneInTable (sameOwner ▸ keys.zone_bound owner ownerMember)
    obtain rfl := keys.zone_eq_of_id beforeMember ownerMember (beforeId.trans sameOwner.symm)
    refine ⟨nodeOfEntry db.contentOf before.path old, Tree.nodeOfEntry_mem
      (mem_tree_entries.mpr ⟨oldMember, sameVolume.trans inVolume⟩)
      (mem_tree_zones.mpr ⟨ownerMember, ?_⟩) ownerId, id, ?_, kind⟩
    · exact ownerVolume.trans (sameVolume.trans inVolume)
    · change absolutePath before.path old.relativePath = absolutePath zone.path entry.relativePath
      rw [beforePath, path]

end PostgreOS
