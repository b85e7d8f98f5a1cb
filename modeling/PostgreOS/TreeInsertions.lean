/-
Operations that add rows keep the tree well formed.

A new row is a child of a directory at a path that nothing has. Imports and copies hang
in whole subtrees; writes may also overwrite the content of an entry.
-/

import PostgreOS.Effects
import PostgreOS.Subtrees

namespace PostgreOS

open Library.Outcome Library.Table

variable {db after : Database} {volume view : Uuid}

theorem insertEntries_wellFormed {makers : List (NodeId → ZoneEntry)}
    (volumes : ∀ make ∈ makers, ∀ serial, (make serial).volumeId = volume)
    (wellFormed : (db.tree view).WellFormed) (inserted : db.insertEntries makers = .ok after)
    (own : view = volume → Tree.WellFormed
      { db.tree volume with
        entries := (db.tree volume).entries ++ numbered db.nextNode makers }) :
    (after.tree view).WellFormed := by
  have all : ∀ entry ∈ numbered db.nextNode makers, entry.volumeId = volume := by
    intro entry member
    obtain ⟨make, makeMember, serial, -, -, rfl⟩ := mem_numbered member
    exact volumes make makeMember serial
  rw [tree_insertEntries inserted]
  by_cases same : view = volume
  · rw [same, filter_volume_of_all all]
    exact own same
  · rw [filter_volume_of_other all same, List.append_nil]
    exact wellFormed

theorem entries_unique_of_inserted {makers : List (NodeId → ZoneEntry)}
    (volumes : ∀ make ∈ makers, ∀ serial, (make serial).volumeId = volume)
    (inserted : db.insertEntries makers = .ok after) (keys : Keys after) :
    ∀ first ∈ (db.tree volume).entries ++ numbered db.nextNode makers,
      ∀ second ∈ (db.tree volume).entries ++ numbered db.nextNode makers,
      first.zoneId = second.zoneId → first.relativePath = second.relativePath → first = second := by
  have unique := keys.entries_unique volume
  rw [tree_insertEntries inserted, filter_volume_of_all] at unique
  · exact unique
  · intro entry member
    obtain ⟨make, makeMember, serial, -, -, rfl⟩ := mem_numbered member
    exact volumes make makeMember serial

/-- One new child at a free path. -/
theorem insertChild_wellFormed {path : Text} {location : Location} {make : NodeId → ZoneEntry}
    (wellFormed : (db.tree view).WellFormed)
    (free : view = volume → ∃ zone upper rest name,
      (db.tree volume).Place path location zone upper rest name ∧
        ∀ kind, ¬ (db.tree volume).Has (upper ++ (rest ++ [name])) kind)
    (columns : ∀ serial, (make serial).volumeId = volume ∧ (make serial).zoneId = location.zoneId ∧
      (make serial).relativePath = (location.child (nameOf path)).relativePath ∧
      (make serial).parentPath = location.relativePath ∧ (make serial).name = nameOf path)
    (keys : Keys after) (inserted : db.insertEntries [make] = .ok after) :
    (after.tree view).WellFormed := by
  have volumes : ∀ other ∈ [make], ∀ serial, (other serial).volumeId = volume := by
    intro other member serial
    rw [List.mem_singleton.mp member]
    exact (columns serial).1
  refine insertEntries_wellFormed volumes wellFormed inserted ?_
  rintro rfl
  obtain ⟨zone, upper, rest, name, place, absent⟩ := free rfl
  refine wellFormed.insertBelow _ place.zoneAt place.valid place.inside absent
    (entries_unique_of_inserted volumes inserted keys) ?_
  intro entry member
  rw [List.mem_singleton.mp member]
  obtain ⟨-, inZone, relative, parentPath, named⟩ := columns db.nextNode
  rw [place.child_eq] at relative
  rw [place.location_eq] at inZone parentPath
  rw [place.nameOf_eq] at named
  refine ⟨inZone, ?_, ?_, [], components_nil, ?_, Or.inl rfl⟩
  · rw [relative, parentPath, relativeParent_relativeText place.valid]
  · rw [relative, named, relativeName_relativeText place.valid]
  · rw [relative, List.append_nil]

theorem mkdirOne_wellFormed {targetPath : Text} {mode : Int} {now : Timestamp} (sound : Sound db)
    (wellFormed : (db.tree view).WellFormed)
    (done : db.mkdirOne volume targetPath mode now = .ok after) : (after.tree view).WellFormed := by
  have keys := (mkdirOne_kept (.refl sound) done).sound.keys
  obtain ⟨-, rfl⟩ | ⟨location, vacant, inserted⟩ := mkdirOne_ok done
  · exact wellFormed
  · exact insertChild_wellFormed wellFormed (fun same => vacant.place (same ▸ wellFormed))
      (fun _ => ⟨rfl, rfl, rfl, rfl, rfl⟩) keys inserted

theorem mkdir_wellFormed {targetPath : Text} {parents : Bool} {mode : Int} {now : Timestamp}
    (sound : Sound db) (wellFormed : (db.tree view).WellFormed)
    (done : db.mkdir volume targetPath parents mode now = .ok after) :
    (after.tree view).WellFormed := by
  refine (mkdir_invariant (fun state => Sound state ∧ (state.tree view).WellFormed) ?_
    ⟨sound, wellFormed⟩ done).2
  intro state path next sofar made
  exact ⟨(mkdirOne_kept (.refl sofar.1) made).sound, mkdirOne_wellFormed sofar.1 sofar.2 made⟩

/-- `mkdir_many` without `parents` does not ask what is at its paths. Where none of them is
the path of a zone, the unique index of the entries is enough. -/
theorem mkdirMany_wellFormed {targetPaths : List Text} {parents : Bool} {now : Timestamp}
    (sound : Sound db) (wellFormed : (db.tree view).WellFormed)
    (noZone : parents = false → ∀ path ∈ targetPaths, path ≠ ['/'] →
      ∀ zone ∈ (db.tree volume).zones, zone.path ≠ path)
    (done : db.mkdirMany volume targetPaths parents now = .ok after) :
    (after.tree view).WellFormed := by
  cases parents with
  | true =>
      refine (foldlM_invariant (fun state => Sound state ∧ (state.tree view).WellFormed) ?_
        ⟨sound, wellFormed⟩ done).2
      intro state path next _ sofar made
      exact ⟨(mkdir_kept (.refl sofar.1) made).sound, mkdir_wellFormed sofar.1 sofar.2 made⟩
  | false =>
      have keys := (mkdirMany_kept (.refl sound) done).sound.keys
      obtain ⟨present, inserted⟩ := mkdirMany_ok done
      have row {make : NodeId → ZoneEntry}
          (member : make ∈ db.newDirectories volume targetPaths now) :
          ∃ path ∈ targetPaths, ∃ location, db.locateParent volume path = some location ∧
            make = directoryEntry volume location (nameOf path) 493 now := by
        obtain ⟨path, pathMember, found⟩ := List.mem_filterMap.mp member
        obtain ⟨location, located, rfl⟩ := Option.map_eq_some_iff.mp found
        exact ⟨path, pathMember, location, located, rfl⟩
      have volumes : ∀ make ∈ db.newDirectories volume targetPaths now, ∀ serial,
          (make serial).volumeId = volume := by
        intro make member serial
        obtain ⟨path, -, location, -, rfl⟩ := row member
        rfl
      refine insertEntries_wellFormed volumes wellFormed inserted ?_
      rintro rfl
      have fits : ∀ entry ∈ numbered db.nextNode (db.newDirectories view targetPaths now),
          (db.tree view).EntryFits entry ∧
            (db.tree view).DirectoryIn entry.zoneId entry.parentPath := by
        intro entry member
        obtain ⟨make, makeMember, serial, -, -, rfl⟩ := mem_numbered member
        obtain ⟨path, pathMember, location, located, rfl⟩ := row makeMember
        obtain ⟨canonical, parent⟩ := present path pathMember
        obtain ⟨zone, upper, rest, name, place⟩ :=
          place_of_parent wellFormed canonical parent located
        have relative := congrArg Location.relativePath place.child_eq
        have inZone := congrArg Location.zoneId place.location_eq
        have parentPath := congrArg Location.relativePath place.location_eq
        constructor
        · refine wellFormed.entryFits place.zoneAt place.valid inZone relative parentPath
            place.nameOf_eq ?_
          intro other found
          exact noZone rfl path pathMember (ne_root_of_parent parent) other found.member
            (found.path.trans place.path_eq.symm)
        · change (db.tree view).DirectoryIn location.zoneId location.relativePath
          rw [inZone, parentPath]
          exact place.inside
      exact wellFormed.insertEntries (entries_unique_of_inserted volumes inserted keys)
        (fun entry member => (fits entry member).1)
        fun entry member => (fits entry member).2.append _

theorem updateEntries_wellFormed {selected : ZoneEntry → Bool} {change : ZoneEntry → ZoneEntry}
    (wellFormed : (db.tree view).WellFormed)
    (rows : ∀ entry ∈ db.zoneEntries, selected entry = true →
      (change entry).volumeId = entry.volumeId ∧ (entry ∈ (db.tree view).entries →
        Tree.SameEntryKeys (change entry) entry))
    (updated : db.updateEntries selected change = .ok after) : (after.tree view).WellFormed := by
  rw [tree_updateEntries (fun entry member chosen => (rows entry member chosen).1) updated]
  have kept := wellFormed.map id (rewritten selected change)
    (fun zone _ => ⟨rfl, rfl, rfl, rfl⟩) (by
      intro entry member
      cases chosen : selected entry with
      | false =>
          rw [rewritten_of_not_selected chosen]
          exact ⟨rfl, rfl, rfl, rfl, rfl⟩
      | true =>
          rw [rewritten_of_selected chosen]
          exact (rows entry (mem_tree_entries.mp member).1 chosen).2 member)
  rwa [List.map_id] at kept

theorem Blockized.wellFormed {zone : NodeId} {change : ZoneEntry → ZoneEntry}
    (blockized : Blockized db after volume zone change) (wellFormed : (db.tree view).WellFormed) :
    (after.tree view).WellFormed := by
  rw [blockized.tree view]
  have kept := wellFormed.map id change
    (fun zone _ => ⟨rfl, rfl, rfl, rfl⟩) (by
      intro entry member
      obtain ⟨payload, same, kind, -⟩ := blockized.entry (mem_tree_entries.mp member).1
      rw [same]
      exact ⟨rfl, rfl, rfl, rfl, kind⟩)
  rwa [List.map_id] at kept

theorem Reclaimed.wellFormed (reclaimed : Reclaimed db after)
    (wellFormed : (db.tree view).WellFormed) : (after.tree view).WellFormed := by
  rwa [reclaimed.tables.tree view]

/-- A write creates or overwrites the entry of its place. It does not see a zone there. -/
theorem writeFileInline_wellFormed {targetPath : Text} {data : Bytes} {mode : Int}
    {now : Timestamp} {id : NodeId} (sound : Sound db) (wellFormed : (db.tree view).WellFormed)
    (noZone : targetPath ≠ ['/'] → ∀ zone ∈ (db.tree volume).zones, zone.path ≠ targetPath)
    (done : db.writeFileInline volume targetPath data mode now = .ok (after, id)) :
    (after.tree view).WellFormed := by
  have keys := (writeFileInline_kept (.refl sound) done).sound.keys
  obtain ⟨canonical, parent, location, located, ⟨absent, -, inserted⟩ | ⟨existing, found, regular, -, updated⟩⟩ :=
    writeFileInline_ok done
  · refine insertChild_wellFormed wellFormed ?_ (fun _ => ⟨rfl, rfl, rfl, rfl, rfl⟩) keys inserted
    rintro rfl
    obtain ⟨zone, upper, rest, name, place⟩ := place_of_parent wellFormed canonical parent located
    refine ⟨zone, upper, rest, name, place, ?_⟩
    intro kind has
    obtain ⟨⟨other, otherAt⟩, -⟩ | ⟨entry, entryAt, -⟩ := (place.has_iff wellFormed).mp has
    · exact noZone (ne_root_of_parent parent) other otherAt.member
        (otherAt.path.trans place.path_eq.symm)
    · rw [(entryAt_child_iff wellFormed place).mpr entryAt] at absent
      cases absent
  · refine updateEntries_wellFormed wellFormed ?_ updated
    intro entry member chosen
    refine ⟨rfl, fun inView => ⟨rfl, rfl, rfl, rfl, ?_⟩⟩
    obtain ⟨inVolume, inZone, path⟩ := atLocation_iff.mp chosen
    obtain ⟨existingMember, existingZone, existingPath⟩ := mem_of_entryAt found
    obtain ⟨existingTable, existingVolume⟩ := mem_tree_entries.mp existingMember
    rw [sound.keys.entry_eq_of_path member existingTable (inVolume.trans existingVolume.symm)
      (inZone.trans existingZone.symm) (path.trans existingPath.symm), regular]
    rfl

theorem writeFile_wellFormed {targetPath : Text} {data : Bytes} {mode : Int} {now : Timestamp}
    {id : NodeId} (committed : Committed db) (wellFormed : (db.tree view).WellFormed)
    (noZone : targetPath ≠ ['/'] → ∀ zone ∈ (db.tree volume).zones, zone.path ≠ targetPath)
    (done : db.writeFile volume targetPath data mode now = .ok (after, id)) :
    (after.tree view).WellFormed := by
  obtain ⟨written, location, blockized, writeOk, -, blockOk, reclaimOk⟩ := writeFile_ok done
  have sofar := writeFileInline_kept (.refl committed.sound) writeOk
  obtain ⟨found, change, foundOk, moved⟩ := blockizeZone_ok sofar.sound
    ((writeFileInline_contentMapping writeOk).trans committed.unmapped) volume location.zoneId
  obtain rfl : found = blockized := Except.ok.inj (foundOk.symm.trans blockOk)
  refine Reclaimed.wellFormed (.of_reclaim moved.sound.store moved.sound.stored reclaimOk) ?_
  exact moved.wellFormed (writeFileInline_wellFormed committed.sound wellFormed noZone writeOk)

theorem importText_wellFormed {target : Text} {reader : Bytes} {now : Timestamp} {id : NodeId}
    (sound : Sound db) (wellFormed : (db.tree view).WellFormed)
    (noZone : target ≠ ['/'] → ∀ zone ∈ (db.tree volume).zones, zone.path ≠ target)
    (done : db.importText volume target reader now = .ok (after, id)) :
    (after.tree view).WellFormed := by
  obtain ⟨stored, written, size, same, kept, -, writeOk, updated⟩ := importText_ok sound done
  have storedTree := same.tree
  refine updateEntries_wellFormed (writeFileInline_wellFormed kept.sound ?_ ?_ writeOk) ?_ updated
  · rwa [storedTree]
  · rwa [storedTree]
  · intro entry member chosen
    have columns : (attached db.nextUuid size entry).volumeId = entry.volumeId ∧
        Tree.SameEntryKeys (attached db.nextUuid size entry) entry := by
      unfold attached
      split
      · rename_i data reference payload
        refine ⟨rfl, rfl, rfl, rfl, rfl, ?_⟩
        rw [ZoneEntry.kind, ZoneEntry.kind, payload]
        rfl
      · exact ⟨rfl, rfl, rfl, rfl, rfl, rfl⟩
    exact ⟨columns.1, fun _ => columns.2⟩

theorem setTimes_wellFormed {targetPath : Text}
    {atimeSeconds atimeNanoseconds mtimeSeconds mtimeNanoseconds : Int} {now : Timestamp}
    {rows : List Inode} (wellFormed : (db.tree view).WellFormed)
    (done : db.setTimes volume targetPath atimeSeconds atimeNanoseconds mtimeSeconds
      mtimeNanoseconds now = .ok (after, rows)) : (after.tree view).WellFormed := by
  obtain ⟨location, atime, mtime, -, updated | updated⟩ := setTimes_ok done
  · rw [tree_updateZones
      (fun zone => decide (zone.volumeId = volume ∧ zone.id = location.zoneId))
      (fun zone => { zone with metadata := zone.metadata.touched atime mtime now })
      (fun _ => rfl) (fun _ => rfl) updated view]
    have kept := wellFormed.map
      (rewritten (fun zone => decide (zone.volumeId = volume ∧ zone.id = location.zoneId))
        fun zone => { zone with metadata := zone.metadata.touched atime mtime now }) id (by
        intro zone _
        unfold rewritten
        split
        · exact ⟨rfl, rfl, rfl, rfl⟩
        · exact ⟨rfl, rfl, rfl, rfl⟩)
      (fun entry _ => ⟨rfl, rfl, rfl, rfl, rfl⟩)
    rwa [List.map_id] at kept
  · refine updateEntries_wellFormed wellFormed ?_ updated
    intro entry _ _
    exact ⟨rfl, fun _ => ⟨rfl, rfl, rfl, rfl, rfl⟩⟩

/-! ### Imports and copies -/

/-- A new zone at a free path. -/
theorem insertZone_wellFormed {path : Text} {location : Location} {make : NodeId → ZoneNode}
    {id : NodeId} (wellFormed : (db.tree view).WellFormed) (keys : Keys db)
    (vacant : Vacant db volume path location)
    (columns : ∀ serial, (make serial).id = serial ∧ (make serial).volumeId = volume ∧
      (make serial).path = path ∧
      (make serial).parent = some (location.zoneId, location.relativePath) ∧
      (make serial).name = nameOf path)
    (inserted : db.insertZone make = .ok (after, id)) : (after.tree view).WellFormed := by
  obtain ⟨ids, inVolume, itsPath, points, named⟩ := columns db.nextNode
  rw [tree_insertZone inserted]
  by_cases same : view = volume
  · subst same
    obtain ⟨zone, upper, rest, name, place, free⟩ := vacant.place wellFormed
    have single : [make db.nextNode].filter (fun zone => decide (zone.volumeId = view)) =
        [make db.nextNode] := by
      rw [List.filter_eq_self]
      intro other member
      rw [List.mem_singleton.mp member]
      exact decide_eq_true inVolume
    rw [single]
    refine wellFormed.insertZone ?_ ?_ place.zoneAt place.valid ?_ ?_ ?_ place.inside ?_
    · intro other member
      rw [ids]
      exact Nat.ne_of_lt (keys.zone_bound other (mem_tree_zones.mp member).1)
    · intro entry member
      rw [ids]
      exact Nat.ne_of_lt (keys.entry_zone_bound (mem_tree_entries.mp member).1)
    · rw [itsPath, place.path_eq, List.append_assoc]
    · rw [points, place.location_eq]
    · rw [named, place.nameOf_eq]
    · rwa [List.append_assoc]
  · have none : [make db.nextNode].filter (fun zone => decide (zone.volumeId = view)) = [] := by
      rw [List.filter_eq_nil_iff]
      intro other member
      rw [List.mem_singleton.mp member, inVolume, decide_eq_true_eq]
      exact fun wrong => same wrong.symm
    rw [none, List.append_nil]
    exact wellFormed

/-- Rows that fill a zone that was just made at a free path. -/
theorem fillZone_wellFormed {filled : Database} {path : Text} {location : Location}
    {make : NodeId → ZoneNode} {id : NodeId} {makers : List (NodeId → ZoneEntry)}
    (wellFormed : (db.tree view).WellFormed) (keys : Keys db)
    (vacant : Vacant db volume path location)
    (columns : ∀ serial, (make serial).id = serial ∧ (make serial).volumeId = volume ∧
      (make serial).path = path ∧
      (make serial).parent = some (location.zoneId, location.relativePath) ∧
      (make serial).name = nameOf path)
    (inserted : db.insertZone make = .ok (after, id))
    (volumes : ∀ row ∈ makers, ∀ serial, (row serial).volumeId = volume)
    (rows : view = volume → ∀ row ∈ makers, ∀ serial, (row serial).zoneId = id ∧
      CanonicalRelative (row serial).relativePath ∧
      (row serial).parentPath = relativeParent (row serial).relativePath ∧
      (row serial).name = relativeName (row serial).relativePath ∧
      ((row serial).parentPath = [] ∨ ∃ above ∈ makers, ∀ other,
        (above other).relativePath = (row serial).parentPath ∧
          (above other).kind = .directory))
    (filledKeys : Keys filled) (fill : after.insertEntries makers = .ok filled) :
    (filled.tree view).WellFormed := by
  have zoneTree := insertZone_wellFormed wellFormed keys vacant columns inserted
  refine insertEntries_wellFormed volumes zoneTree fill ?_
  rintro rfl
  have columnsOf := rows rfl
  obtain ⟨zone, upper, rest, name, place, free⟩ := vacant.place wellFormed
  obtain ⟨ids, inVolume, itsPath, -, -⟩ := columns db.nextNode
  have zoneId : id = db.nextNode := (insertZone_ok inserted).2.1.trans ids
  have nodes : (after.tree view).zones = (db.tree view).zones ++ [make db.nextNode] := by
    rw [tree_insertZone inserted]
    simp [inVolume]
  have zoneAt : (after.tree view).ZoneAt (make db.nextNode) (upper ++ (rest ++ [name])) := by
    refine ⟨?_, place.components, itsPath.trans place.path_eq⟩
    rw [nodes]
    exact List.mem_append_right _ (List.mem_singleton_self _)
  have row {entry : ZoneEntry} (member : entry ∈ numbered after.nextNode makers) :
      ∃ make ∈ makers, ∃ serial, entry = make serial := by
    obtain ⟨make, makeMember, serial, -, -, same⟩ := mem_numbered member
    exact ⟨make, makeMember, serial, same⟩
  refine zoneTree.fillZone zoneAt ?_ (entries_unique_of_inserted volumes fill filledKeys) ?_ ?_ ?_
    ?_ ?_
  · rintro other names otherAt ⟨extra, rfl⟩
    have otherMember := otherAt.member
    rw [nodes] at otherMember
    rcases List.mem_append.mp otherMember with old | new
    · exact absurd (.zone ⟨old, otherAt.valid, otherAt.path⟩)
        (wellFormed.free_below free extra .directory)
    · rw [List.mem_singleton.mp new] at otherAt
      exact otherAt.names_unique zoneAt
  · intro entry member
    obtain ⟨make, makeMember, serial, rfl⟩ := row member
    exact ((columnsOf make makeMember serial).1.trans zoneId).trans ids.symm
  · intro entry member
    obtain ⟨make, makeMember, serial, rfl⟩ := row member
    exact (columnsOf make makeMember serial).2.1
  · intro entry member
    obtain ⟨make, makeMember, serial, rfl⟩ := row member
    exact (columnsOf make makeMember serial).2.2.1
  · intro entry member
    obtain ⟨make, makeMember, serial, rfl⟩ := row member
    exact (columnsOf make makeMember serial).2.2.2.1
  · intro entry member
    obtain ⟨make, makeMember, serial, rfl⟩ := row member
    rcases (columnsOf make makeMember serial).2.2.2.2 with empty | ⟨above, aboveMember, found⟩
    · exact Or.inl empty
    · obtain ⟨other, -, arrived⟩ := exists_mem_numbered after.nextNode aboveMember
      exact Or.inr ⟨above other, arrived, found other⟩

theorem StagedEntry.payload_kind (staged : StagedEntry) : staged.payload.kind = staged.kind := by
  unfold StagedEntry.payload
  cases staged.kind <;> rfl

theorem applyImportInline_wellFormed {destination : Text} {staging : List StagedEntry}
    {now : Timestamp} {count : Nat} (sound : Sound db) (wellFormed : (db.tree view).WellFormed)
    (done : db.applyImportInline volume destination staging now = .ok (after, count)) :
    (after.tree view).WellFormed := by
  have keys := (applyImportInline_kept (.refl sound) done).sound.keys
  obtain ⟨-, root, parent, batch, vacant, ⟨-, inserted, zone, zoneOk, fillOk⟩ | ⟨-, insertOk⟩⟩ :=
    applyImportInline_ok done
  · refine fillZone_wellFormed wellFormed sound.keys vacant (fun _ => ⟨rfl, rfl, rfl, rfl, rfl⟩)
      zoneOk ?_ ?_ keys fillOk
    · intro row member serial
      obtain ⟨staged, -, rfl⟩ := List.mem_map.mp member
      rfl
    · intro _ row member serial
      obtain ⟨staged, stagedMember, rfl⟩ := List.mem_map.mp member
      obtain ⟨inBatch, inner⟩ := List.mem_filter.mp stagedMember
      have nonempty := of_decide_eq_true inner
      refine ⟨rfl, batch.canonical staged inBatch nonempty, rfl, rfl, ?_⟩
      change relativeParent staged.relativePath = [] ∨ _
      by_cases top : relativeParent staged.relativePath = []
      · exact Or.inl top
      · obtain ⟨above, aboveMember, path, kind⟩ := batch.parents staged inBatch nonempty
        refine Or.inr ⟨importedEntry volume zone above now, List.mem_map.mpr ⟨above, ?_, rfl⟩, ?_⟩
        · refine List.mem_filter.mpr ⟨aboveMember, decide_eq_true ?_⟩
          rw [path]
          exact top
        · exact fun _ => ⟨path, above.payload_kind.trans kind⟩
  · exact insertChild_wellFormed wellFormed (fun same => vacant.place (same ▸ wellFormed))
      (fun _ => ⟨rfl, rfl, rfl, rfl, rfl⟩) keys insertOk

theorem importTree_wellFormed {destination : Text} {entries : List ImportEntry}
    {now : Timestamp} {count : Nat} (sound : Sound db) (wellFormed : (db.tree view).WellFormed)
    (done : db.importTree volume destination entries now = .ok (after, count)) :
    (after.tree view).WellFormed := by
  obtain ⟨-, staging, imported, location, -, importOk, -, blockOk⟩ := importTree_ok done
  have sofar := applyImportInline_kept (.refl sound) importOk
  obtain ⟨change, moved⟩ := blockizeZoneSegment_ok sofar.sound blockOk
  exact moved.wellFormed (applyImportInline_wellFormed sound wellFormed importOk)

theorem copyZone_wellFormed {source destination : Text} {sourceLocation parent : Location}
    {recursive : Bool} {now : Timestamp} {count : Nat} (sound : Sound db)
    (wellFormed : (db.tree view).WellFormed) (vacant : Vacant db volume destination parent)
    (keys : Keys after)
    (done : db.copyZone volume source destination sourceLocation parent recursive now =
      .ok (after, count)) : (after.tree view).WellFormed := by
  obtain ⟨-, -, zone, inserted, id, -, zoneOk, fillOk, -⟩ := copyZone_ok done
  refine fillZone_wellFormed wellFormed sound.keys vacant (fun _ => ⟨rfl, rfl, rfl, rfl, rfl⟩)
    zoneOk ?_ ?_ keys fillOk
  · intro row member serial
    obtain ⟨entry, -, rfl⟩ := List.mem_map.mp member
    rfl
  · rintro rfl row member serial
    obtain ⟨entry, entryMember, rfl⟩ := List.mem_map.mp member
    obtain ⟨inTable, chosen⟩ := List.mem_filter.mp entryMember
    obtain ⟨inVolume, inZone⟩ := of_decide_eq_true chosen
    have inTree := mem_tree_entries.mpr ⟨inTable, inVolume⟩
    refine ⟨rfl, wellFormed.entry_canonical entry inTree, wellFormed.entry_parent_path entry inTree,
      wellFormed.entry_name entry inTree, ?_⟩
    rcases wellFormed.entry_parent entry inTree with top | ⟨above, aboveMember, aboveZone, path, kind⟩
    · exact Or.inl top
    · obtain ⟨aboveTable, aboveVolume⟩ := mem_tree_entries.mp aboveMember
      refine Or.inr ⟨copiedZoneEntry view id now above, List.mem_map.mpr ⟨above, ?_, rfl⟩,
        fun _ => ⟨path, kind⟩⟩
      exact List.mem_filter.mpr ⟨aboveTable,
        decide_eq_true ⟨aboveVolume, aboveZone.trans inZone⟩⟩

theorem copiedEntry_columns {parent : Location} {inner target extra : List Text} {name : Text}
    {now : Timestamp} {entry : ZoneEntry} {serial : NodeId} (hInner : inner ≠ [])
    (hTarget : target ≠ []) (path : entry.relativePath = relativeText (inner ++ extra)) :
    (copiedEntry volume parent (relativeText inner) (relativeText target) name now entry
      serial).relativePath = relativeText (target ++ extra) := by
  unfold copiedEntry
  rw [path]
  exact rebasedRelative_texts hInner hTarget

section CopiedEntry

variable {names front inner upper rest : List Text} {zone target : ZoneNode} {name destination : Text}
  {sourceLocation parent : Location} {recursive : Bool}

theorem copiedEntry_relative (place : (db.tree volume).Place destination parent target upper rest name)
    (location_eq : sourceLocation =
      { zoneId := zone.id, zonePath := zone.path, relativePath := relativeText inner })
    (nonempty : inner ≠ []) {entry : ZoneEntry} {extra : List Text}
    (path : entry.relativePath = relativeText (inner ++ extra)) (now : Timestamp)
    (serial : NodeId) :
    (copiedEntry volume parent sourceLocation.relativePath
      (parent.child (nameOf destination)).relativePath (nameOf destination) now entry
      serial).relativePath = relativeText (rest ++ [name] ++ extra) := by
  have child := congrArg Location.relativePath place.child_eq
  rw [child, location_eq]
  exact copiedEntry_columns nonempty (by simp) path

theorem copySelected (wellFormed : (db.tree volume).WellFormed)
    (located : (db.tree volume).Located names zone front inner) (valid : Components names)
    (location_eq : sourceLocation =
      { zoneId := zone.id, zonePath := zone.path, relativePath := relativeText inner })
    (nonempty : inner ≠ [])
    (exactly : recursive = true → (db.tree volume).EntriesExact sourceLocation)
    {entry : ZoneEntry} (member : entry ∈ (db.tree volume).entries)
    (chosen : subtreeRow volume sourceLocation.zoneId sourceLocation.relativePath recursive entry =
      true) :
    ∃ extra, (db.tree volume).EntryAt zone entry front (inner ++ extra) ∧
      (extra = [] ∨ recursive = true) := by
  obtain ⟨owner, lower, within, found⟩ := wellFormed.entryAt_of_mem member
  obtain ⟨rfl, inside⟩ := (subtreeRow_iff wellFormed sourceLocation recursive
    located.zoneAt.member (by rw [location_eq]) (located.components valid) nonempty
    (by rw [location_eq]) exactly found).mp chosen
  obtain rfl := found.zoneAt.names_unique located.zoneAt
  rcases inside with here | ⟨deep, ⟨extra, whole⟩⟩
  · refine ⟨[], ?_, Or.inl rfl⟩
    rwa [List.append_nil, ← here]
  · exact ⟨extra, whole ▸ found, Or.inr deep⟩

/-- A copied row arrives with the directory that holds it. -/
theorem arriving_copiedEntry (wellFormed : (db.tree volume).WellFormed)
    (place : (db.tree volume).Place destination parent target upper rest name)
    (located : (db.tree volume).Located names zone front inner) (valid : Components names)
    (location_eq : sourceLocation =
      { zoneId := zone.id, zonePath := zone.path, relativePath := relativeText inner })
    (nonempty : inner ≠ [])
    (exactly : recursive = true → (db.tree volume).EntriesExact sourceLocation)
    {entry : ZoneEntry} (member : entry ∈ (db.tree volume).entries)
    (chosen : subtreeRow volume sourceLocation.zoneId sourceLocation.relativePath recursive entry =
      true) (now : Timestamp) (serial : NodeId) :
    Tree.Arriving target rest name
      (numbered db.nextNode
        (db.copiedRows volume sourceLocation parent (nameOf destination) recursive now))
      (copiedEntry volume parent sourceLocation.relativePath
        (parent.child (nameOf destination)).relativePath (nameOf destination) now entry serial) := by
  have points := congrArg Location.zoneId place.location_eq
  obtain ⟨extra, found, inside⟩ :=
    copySelected wellFormed located valid location_eq nonempty exactly member chosen
  refine wellFormed.arriving_of_rebased found nonempty place.valid points rfl
    (copiedEntry_relative place location_eq nonempty found.path now serial) ?_ ?_
  · change (if entry.relativePath = sourceLocation.relativePath then nameOf destination
      else entry.name) = _
    rw [place.nameOf_eq, location_eq]
  · intro before last directory whole directoryAt kind
    have deep : recursive = true := inside.resolve_left (by simp [whole])
    have picked := (subtreeRow_iff wellFormed sourceLocation recursive located.zoneAt.member
      (by rw [location_eq]) (located.components valid) nonempty (by rw [location_eq]) exactly
      directoryAt).mpr ⟨rfl, Or.inr ⟨deep, List.prefix_append inner before⟩⟩
    obtain ⟨other, -, arrived⟩ := exists_mem_numbered db.nextNode (List.mem_map_of_mem
      (f := copiedEntry volume parent sourceLocation.relativePath
        (parent.child (nameOf destination)).relativePath (nameOf destination) now)
      (List.mem_filter.mpr ⟨(mem_tree_entries.mp directoryAt.member).1, picked⟩))
    exact ⟨_, arrived, points,
      copiedEntry_relative place location_eq nonempty directoryAt.path now other, kind⟩

end CopiedEntry

theorem copyEntry_wellFormed {source destination : Text} {sourceLocation parent : Location}
    {recursive : Bool} {now : Timestamp} {count : Nat} (wellFormed : (db.tree view).WellFormed)
    (copyable : Copyable db volume source destination sourceLocation parent)
    (isEntry : sourceLocation.relativePath ≠ [])
    (exactly : recursive = true → (db.tree volume).EntriesExact sourceLocation)
    (keys : Keys after)
    (done : db.copyEntry volume source destination sourceLocation parent recursive now =
      .ok (after, count)) : (after.tree view).WellFormed := by
  obtain ⟨-, inserted, -⟩ := copyEntry_ok done
  have volumes : ∀ make ∈ db.copiedRows volume sourceLocation parent (nameOf destination)
      recursive now, ∀ serial, (make serial).volumeId = volume := by
    intro make member serial
    obtain ⟨entry, -, rfl⟩ := List.mem_map.mp member
    rfl
  refine insertEntries_wellFormed volumes wellFormed inserted ?_
  rintro rfl
  obtain ⟨target, upper, rest, name, place, free⟩ := copyable.vacant.place wellFormed
  obtain ⟨names, zone, front, inner, valid, -, located, same⟩ :=
    located_of_locateZone wellFormed copyable.canonical copyable.located
  have nonempty : inner ≠ [] := by
    rintro rfl
    rw [same] at isEntry
    exact isEntry relativeText_nil
  refine wellFormed.insertBelow _ place.zoneAt place.valid place.inside free
    (entries_unique_of_inserted volumes inserted keys) ?_
  intro copied member
  obtain ⟨make, makeMember, serial, -, -, rfl⟩ := mem_numbered member
  obtain ⟨entry, entryMember, rfl⟩ := List.mem_map.mp makeMember
  obtain ⟨inTable, chosen⟩ := List.mem_filter.mp entryMember
  exact arriving_copiedEntry wellFormed place located valid same nonempty exactly
    (mem_tree_entries.mpr ⟨inTable, (of_decide_eq_true chosen).1⟩) chosen now serial

theorem copy_wellFormed {source destination : Text} {recursive : Bool} {now : Timestamp}
    {count : Nat} (sound : Sound db) (wellFormed : (db.tree view).WellFormed)
    (exactly : ∀ location, db.locateZone volume source = some location →
      location.relativePath ≠ [] → recursive = true → (db.tree volume).EntriesExact location)
    (done : db.copy volume source destination recursive now = .ok (after, count)) :
    (after.tree view).WellFormed := by
  have keys := (copy_kept (.refl sound) done).sound.keys
  obtain ⟨sourceLocation, parent, copyable, ⟨-, copied⟩ | ⟨isEntry, copied⟩⟩ := copy_ok done
  · exact copyZone_wellFormed sound wellFormed copyable.vacant keys copied
  · exact copyEntry_wellFormed wellFormed copyable isEntry
      (exactly sourceLocation copyable.located isEntry) keys copied

end PostgreOS
