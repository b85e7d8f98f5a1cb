/-
Files in the tree of files.

A write puts a file at a vacant path or new bytes into the file that is there. Where no
nested zone has the path, it succeeds exactly where the tree of files allows it.
-/

import PostgreOS.FileTreeDirectories
import PostgreOS.ReadBack

namespace PostgreOS

open Library.Outcome Library.Table

theorem Database.contentOf_fileData (db : Database) {entry : ZoneEntry} {data : Bytes}
    (payload : entry.payload = .file (fileDataOf data) none) : db.contentOf entry = some data := by
  unfold Database.contentOf
  rw [payload]
  exact congrArg some (fileDataOf_bytes data)

section Writing

variable {db after : Database} {volume : Uuid} {names : List Text} {data : Bytes} {mode : Int}
  {now : Timestamp} {id : NodeId}

section Place

variable {location : Location} {zone : ZoneNode} {upper rest : List Text} {name : Text}
  (before : (db.tree volume).WellFormed)
  (plain : ¬ db.NestedZone volume (pathText (upper ++ (rest ++ [name]))))
  (place : (db.tree volume).Place (pathText (upper ++ (rest ++ [name]))) location zone upper rest name)

include before plain place

theorem view_at_place : db.view volume (upper ++ (rest ++ [name])) =
    (db.entryAt volume (location.child (nameOf (pathText (upper ++ (rest ++ [name])))))).map
      fun entry => (nodeOfEntry db.contentOf zone.path entry).object := by
  ext object
  rw [view_eq_some_iff before, Option.map_eq_some_iff]
  simp only [entryAt_child_iff before place]
  constructor
  · rintro ⟨-, node, member, spelled, rfl⟩
    obtain ⟨other, otherMember, rfl⟩ | ⟨entry, entryMember, owner, ownerMember, inZone, rfl⟩ :=
      Tree.mem_nodes.mp member
    · obtain ⟨inTable, inVolume⟩ := mem_tree_zones.mp otherMember
      exact absurd ⟨pathText_ne_root place.components (by simp), other, inTable, inVolume, spelled⟩
        plain
    · obtain ⟨holder, front, inner, found⟩ := before.entryAt_of_mem entryMember
      obtain rfl := before.zone_ids owner ownerMember holder found.zoneAt.member
        (inZone.trans found.inZone)
      rw [nodeOfEntry_path, found.absolutePath_eq] at spelled
      obtain ⟨rfl, rfl, rfl⟩ := place.entryAt before found
        (pathText_injective found.components place.components spelled)
      exact ⟨entry, found, rfl⟩
  · rintro ⟨entry, found, rfl⟩
    exact ⟨place.components, _, Tree.nodeOfEntry_mem found.member found.zoneAt.member
      found.inZone.symm, found.absolutePath_eq, rfl⟩

end Place

variable (before : (db.tree volume).WellFormed) (valid : Components names)
  (plain : ¬ db.NestedZone volume (pathText names))

include before valid plain

theorem view_writeFileInline (sound : Sound db)
    (done : db.writeFileInline volume (pathText names) data mode now = .ok (after, id)) :
    after.view volume = (db.view volume).write names data mode now := by
  have still : (after.tree volume).WellFormed := by
    refine writeFileInline_wellFormed sound before ?_ done
    intro inner other member same
    obtain ⟨inTable, inVolume⟩ := mem_tree_zones.mp member
    exact plain ⟨inner, other, inTable, inVolume, same⟩
  obtain ⟨canonical, above, parent, located, branch⟩ := writeFileInline_ok done
  obtain ⟨zone, upper, rest, name, place⟩ := place_of_parent before canonical above located
  obtain rfl := pathText_injective valid place.components place.path_eq
  have here := view_at_place before plain place
  unfold FileTree.write
  rcases branch with ⟨absent, -, inserted⟩ | ⟨existing, found, regular, -, updated⟩
  · rw [absent, Option.map_none] at here
    have free := (view_eq_none_iff before valid).mp here
    rw [here, view_insertChild sound before still place free (fun _ => ⟨rfl, rfl, rfl⟩) inserted]
    congr 2
    unfold Node.object Node.body nodeOfEntry
    dsimp only
    rw [db.contentOf_fileData rfl]
    rfl
  · rw [found, Option.map_some] at here
    have entryAt := (entryAt_child_iff before place).mp found
    have inZone := congrArg Location.zoneId place.child_eq
    have relative := congrArg Location.relativePath place.child_eq
    have shows (entry : ZoneEntry) :
        (nodeOfEntry db.contentOf zone.path (overwritten data now entry)).object =
          (nodeOfEntry db.contentOf zone.path entry).object.rewritten data now := by
      unfold Node.object Node.body nodeOfEntry Object.rewritten
      dsimp only
      rw [db.contentOf_fileData rfl]
      rfl
    have columns (entry : ZoneEntry) : (overwritten data now entry).volumeId = entry.volumeId ∧
        (overwritten data now entry).zoneId = entry.zoneId ∧
        (overwritten data now entry).relativePath = entry.relativePath := ⟨rfl, rfl, rfl⟩
    rw [view_updateEntry before still valid (before.located_of_entryAt entryAt) (by simp)
      ⟨inZone, relative⟩ columns (fun entry _ => shows entry) updated, here, Option.map_some]

theorem view_writeFile (committed : Committed db)
    (done : db.writeFile volume (pathText names) data mode now = .ok (after, id)) :
    after.view volume = (db.view volume).write names data mode now := by
  obtain ⟨written, location, blockized, writeOk, -, blockOk, reclaimOk⟩ := writeFile_ok done
  have kept := writeFileInline_kept (.refl committed.sound) writeOk
  obtain ⟨found, change, foundOk, moved⟩ := blockizeZone_ok kept.sound
    ((writeFileInline_contentMapping writeOk).trans committed.unmapped) volume location.zoneId
  obtain rfl : found = blockized := Except.ok.inj (foundOk.symm.trans blockOk)
  have reclaimed := Reclaimed.of_reclaim moved.sound.store moved.sound.stored reclaimOk
  rw [← view_writeFileInline before valid plain committed.sound writeOk]
  exact view_congr ((reclaimed.nodes volume).trans (moved.nodes volume))

/-- A write succeeds in a directory, at a vacant path or over a file. -/
theorem writeFile_allowed_iff (committed : Committed db) (data : Bytes) (mode : Int)
    (now : Timestamp) :
    (∃ result, db.writeFile volume (pathText names) data mode now = .ok result) ↔
      (db.view volume).CanWrite names := by
  have canonical := canonicalPath_pathText valid
  have failing := writeFile_error_iff_inline committed before canonical data mode now
  rw [exists_error_iff, exists_error_iff, not_iff_not] at failing
  rw [failing, FileTree.CanWrite, inDirectory_iff before valid]
  by_cases above : db.kindOfParent volume (pathText names) = some .directory
  · rw [and_iff_right above]
    obtain ⟨location, located⟩ := locateParent_isSome before canonical (ne_root_of_parent above)
    obtain ⟨zone, upper, rest, name, place⟩ := place_of_parent before canonical above located
    obtain rfl := pathText_injective valid place.components place.path_eq
    have inline := writeFileInline_error_iff committed before canonical above located place data
      mode now
    rw [exists_error_iff] at inline
    rw [← not_iff_not, inline, view_at_place before plain place]
    push Not
    constructor
    · rintro ⟨existing, found, irregular⟩
      refine ⟨_, Option.map_eq_some_iff.mpr ⟨existing, found, rfl⟩, fun content same => irregular ?_⟩
      have kind := Node.object_kind (nodeOfEntry db.contentOf zone.path existing)
      rw [same] at kind
      exact kind.symm
    · rintro ⟨object, found, irregular⟩
      obtain ⟨existing, present, rfl⟩ := Option.map_eq_some_iff.mp found
      refine ⟨existing, present, fun regular => ?_⟩
      obtain ⟨content, same⟩ := (Body.kind_eq_file_iff _).mp
        ((Node.object_kind (nodeOfEntry db.contentOf zone.path existing)).trans regular)
      exact irregular content same
  · refine iff_of_false ?_ fun allowed => above allowed.1
    rintro ⟨⟨written, id⟩, done⟩
    exact above (writeFileInline_ok done).2.1

end Writing

end PostgreOS
