/-
Files that keep their bytes.

The row of a file refers to its bytes, and wherever a statement puts the row it goes on to
refer to the same bytes. Only a write replaces them, and only those of one row.
-/

import PostgreOS.MoveSpec
import PostgreOS.ReadBack
import PostgreOS.RemoveSpec

namespace PostgreOS

open Library.Outcome Library.Table

/-- Every file but the written ones was a file with these bytes. -/
def KeepsBytes (db after : Database) (written : NodeId → Prop) : Prop :=
  ∀ entry ∈ after.zoneEntries, entry.kind = .file → ¬ written entry.id →
    ∃ old ∈ db.zoneEntries, old.id = entry.id ∧ old.volumeId = entry.volumeId ∧
      old.kind = .file ∧ db.contentOf old = after.contentOf entry

section Statements

variable {db middle after : Database} {written : NodeId → Prop}

theorem KeepsBytes.refl (db : Database) (written : NodeId → Prop) : KeepsBytes db db written :=
  fun entry member file _ => ⟨entry, member, rfl, rfl, file, rfl⟩

theorem KeepsBytes.trans (first : KeepsBytes db middle written)
    (second : KeepsBytes middle after written) : KeepsBytes db after written := by
  intro entry member file unwritten
  obtain ⟨mid, midMember, id, volume, midFile, content⟩ := second entry member file unwritten
  obtain ⟨old, oldMember, oldId, oldVolume, oldFile, oldContent⟩ :=
    first mid midMember midFile (id ▸ unwritten)
  exact ⟨old, oldMember, oldId.trans id, oldVolume.trans volume, oldFile,
    oldContent.trans content⟩

theorem KeepsBytes.of_payload (same : SameStore db after)
    (rows : ∀ entry ∈ after.zoneEntries, entry.kind = .file → ¬ written entry.id →
      ∃ old ∈ db.zoneEntries, old.id = entry.id ∧ old.volumeId = entry.volumeId ∧
        old.payload = entry.payload) : KeepsBytes db after written := by
  intro entry member file unwritten
  obtain ⟨old, oldMember, id, volume, payload⟩ := rows entry member file unwritten
  refine ⟨old, oldMember, id, volume, ?_, ?_⟩
  · rw [ZoneEntry.kind, payload]
    exact file
  · rw [same.contentOf]
    exact contentOf_of_payload db payload

theorem KeepsBytes.of_subset (same : SameStore db after)
    (rows : after.zoneEntries ⊆ db.zoneEntries) : KeepsBytes db after written :=
  .of_payload same fun entry member _ _ => ⟨entry, rows member, rfl, rfl, rfl⟩

theorem keepsBytes_insertEntries {makers : List (NodeId → ZoneEntry)}
    (new : ∀ entry ∈ numbered db.nextNode makers, entry.kind = .file → written entry.id)
    (inserted : db.insertEntries makers = .ok after) : KeepsBytes db after written := by
  refine .of_payload (sameStore_insertEntries inserted) ?_
  obtain ⟨rfl, -⟩ := insertEntries_ok inserted
  intro entry member file unwritten
  rcases List.mem_append.mp member with old | added
  · exact ⟨entry, old, rfl, rfl, rfl⟩
  · exact absurd (new entry added file) unwritten

theorem keepsBytes_updateEntries {selected : ZoneEntry → Bool} {change : ZoneEntry → ZoneEntry}
    (same : ∀ entry ∈ db.zoneEntries, selected entry = true → ¬ written (change entry).id →
      entry.id = (change entry).id ∧ entry.volumeId = (change entry).volumeId ∧
        entry.payload = (change entry).payload)
    (updated : db.updateEntries selected change = .ok after) : KeepsBytes db after written := by
  obtain ⟨rfl, -⟩ := updateEntries_ok updated
  refine .of_payload ⟨rfl, rfl, rfl, rfl, rfl, rfl, rfl⟩ ?_
  intro entry member _ unwritten
  obtain ⟨kept, -⟩ | ⟨old, oldMember, chosen, rfl⟩ := mem_map_rewritten.mp member
  · exact ⟨entry, kept, rfl, rfl, rfl⟩
  · exact ⟨old, oldMember, same old oldMember chosen unwritten⟩

theorem keepsBytes_updateZones {selected : Zone → Bool} {change : Zone → Zone}
    (updated : db.updateZones selected change = .ok after) : KeepsBytes db after written := by
  obtain ⟨rfl, -⟩ := updateZones_ok updated
  exact .of_subset ⟨rfl, rfl, rfl, rfl, rfl, rfl, rfl⟩ (List.Subset.refl _)

end Statements

section Operations

variable {db after : Database} {volume : Uuid} {now : Timestamp}

theorem keepsBytes_mkdirOne {targetPath : Text} {mode : Int} {written : NodeId → Prop}
    (done : db.mkdirOne volume targetPath mode now = .ok after) : KeepsBytes db after written := by
  obtain ⟨-, rfl⟩ | ⟨location, -, inserted⟩ := mkdirOne_ok done
  · exact .refl after written
  · refine keepsBytes_insertEntries ?_ inserted
    intro entry member file
    obtain ⟨make, makeMember, serial, -, -, rfl⟩ := mem_numbered member
    rw [List.mem_singleton.mp makeMember] at file
    cases file

theorem keepsBytes_mkdir {targetPath : Text} {parents : Bool} {mode : Int}
    {written : NodeId → Prop}
    (done : db.mkdir volume targetPath parents mode now = .ok after) :
    KeepsBytes db after written :=
  mkdir_invariant (fun state => KeepsBytes db state written)
    (fun _ _ _ sofar made => sofar.trans (keepsBytes_mkdirOne made)) (.refl db written) done

theorem keepsBytes_setTimes {targetPath : Text}
    {atimeSeconds atimeNanoseconds mtimeSeconds mtimeNanoseconds : Int} {rows : List Inode}
    {written : NodeId → Prop}
    (done : db.setTimes volume targetPath atimeSeconds atimeNanoseconds mtimeSeconds
      mtimeNanoseconds now = .ok (after, rows)) : KeepsBytes db after written := by
  obtain ⟨location, atime, mtime, -, updated | updated⟩ := setTimes_ok done
  · exact keepsBytes_updateZones updated
  · refine keepsBytes_updateEntries ?_ updated
    exact fun _ _ _ _ => ⟨rfl, rfl, rfl⟩

theorem keepsBytes_writeFileInline {targetPath : Text} {data : Bytes} {mode : Int} {id : NodeId}
    (keys : Keys db)
    (done : db.writeFileInline volume targetPath data mode now = .ok (after, id)) :
    KeepsBytes db after (· = id) := by
  obtain ⟨-, -, parent, -, ⟨-, rfl, inserted⟩ | ⟨existing, found, -, rfl, updated⟩⟩ :=
    writeFileInline_ok done
  · refine keepsBytes_insertEntries ?_ inserted
    intro entry member _
    obtain ⟨make, makeMember, serial, lower, upper, rfl⟩ := mem_numbered member
    rw [List.mem_singleton.mp makeMember]
    change serial = db.nextNode
    rw [List.length_singleton] at upper
    omega
  · refine keepsBytes_updateEntries ?_ updated
    intro entry member chosen unwritten
    have here := atLocation_iff.mp chosen
    have there := atLocation_iff.mp (List.find?_some found)
    have same := keys.entry_eq_of_path member (List.mem_of_find?_eq_some found)
      (here.1.trans there.1.symm) (here.2.1.trans there.2.1.symm) (here.2.2.trans there.2.2.symm)
    exact absurd (congrArg ZoneEntry.id same) unwritten

theorem Settled.keepsBytes {written after : Database} {zone : NodeId}
    {change : ZoneEntry → ZoneEntry} (settled : Settled written after volume zone change)
    (excepted : NodeId → Prop) : KeepsBytes written after excepted := by
  intro entry member file _
  rw [settled.entries] at member
  obtain ⟨old, oldMember, rfl⟩ := List.mem_map.mp member
  obtain ⟨payload, same, kind, -⟩ := settled.row old oldMember
  have sameKind : (change old).kind = old.kind := by
    rw [same]
    exact kind
  refine ⟨old, oldMember, ?_, ?_, sameKind.symm.trans file, (settled.content old oldMember).symm⟩
  · rw [same]
  · rw [same]

theorem keepsBytes_writeFile {targetPath : Text} {data : Bytes} {mode : Int} {id : NodeId}
    (committed : Committed db)
    (done : db.writeFile volume targetPath data mode now = .ok (after, id)) :
    KeepsBytes db after (· = id) := by
  obtain ⟨written, location, change, writeOk, -, settled⟩ := writeFile_settled committed done
  exact (keepsBytes_writeFileInline committed.sound.keys writeOk).trans (settled.keepsBytes _)

theorem Reclaimed.keepsBytes {removed : Database} (reclaimed : Reclaimed removed after)
    (written : NodeId → Prop) : KeepsBytes removed after written := by
  intro entry member file _
  rw [reclaimed.tables.zoneEntries] at member
  exact ⟨entry, member, rfl, rfl, file, (reclaimed.contentOf member).symm⟩

theorem removeRows_zoneEntries (db : Database) (volume : Uuid) (target : Text)
    (location : Location) (recursive : Bool) :
    (db.removeRows volume target location recursive).1.zoneEntries ⊆ db.zoneEntries := by
  unfold Database.removeRows
  split
  · exact List.filter_sublist.subset
  · unfold Database.removeEntryRows
    refine List.Subset.trans (List.filter_sublist.subset) ?_
    split
    · exact List.filter_sublist.subset
    · exact List.Subset.refl _

theorem keepsBytes_remove {targetPath : Text} {recursive : Bool} {count : Nat}
    {written : NodeId → Prop} (sound : Sound db)
    (done : db.remove volume targetPath recursive = .ok (after, count)) :
    KeepsBytes db after written := by
  obtain ⟨location, removable, reclaimed, -⟩ := remove_ok.mp done
  have kept := removeRows_kept (.refl sound) removable
  refine KeepsBytes.trans (.of_subset (sameStore_removeRows db volume targetPath location recursive)
    (removeRows_zoneEntries db volume targetPath location recursive)) ?_
  exact (Reclaimed.of_reclaim kept.sound.store kept.sound.stored reclaimed).keepsBytes written

theorem keepsBytes_moveCommand {source destination : Text} {count : Int} {written : NodeId → Prop}
    (done : db.moveCommand volume source destination now = .ok (after, count)) :
    KeepsBytes db after written := by
  obtain ⟨replaced, sourceLocation, parent, movable, relocated⟩ := moveCommand_ok done
  have replacing : KeepsBytes db replaced written := by
    refine .of_subset (sameStore_replaceDestination movable.replaces) ?_
    obtain ⟨-, ⟨-, rfl⟩ | ⟨location, -, rfl⟩⟩ := replaceDestination_ok movable.replaces
    · exact List.Subset.refl _
    · exact List.filter_sublist.subset
  refine replacing.trans ?_
  obtain ⟨-, updated⟩ | ⟨-, -, updated⟩ := relocated
  · exact keepsBytes_updateZones updated
  · refine keepsBytes_updateEntries ?_ updated
    exact fun _ _ _ _ => ⟨rfl, rfl, rfl⟩

end Operations

end PostgreOS
