/-
What `write_file` does to a volume.

A write looks at the entry that is the child of its parent directory, and at nothing
else: it rejects directories and links that are entries, and does not see a zone whose
root is at the path.
-/

import PostgreOS.TreeInsertions

namespace PostgreOS

open Library.Outcome Library.Table

def Database.Names (db : Database) (volume : Uuid) (path : Text) (kind : Kind) : Prop :=
  ∃ node ∈ db.nodes volume, node.path = path ∧ node.kind = kind

section Names

variable {db : Database} {volume : Uuid}

theorem names_iff_has (wellFormed : (db.tree volume).WellFormed) {names : List Text}
    (valid : Components names) (kind : Kind) :
    db.Names volume (pathText names) kind ↔ (db.tree volume).Has names kind := by
  constructor
  · rintro ⟨node, member, path, rfl⟩
    obtain ⟨others, has, same⟩ := wellFormed.has_of_mem_nodes member
    rwa [pathText_injective valid has.components (path.symm.trans same)]
  · intro has
    cases has with
    | zone found => exact ⟨_, Tree.nodeOfZone_mem found.member, found.path, rfl⟩
    | entry found =>
        exact ⟨_, Tree.nodeOfEntry_mem found.member found.zoneAt.member found.inZone.symm,
          found.absolutePath_eq, rfl⟩

theorem kindOf_eq_some_iff_names (wellFormed : (db.tree volume).WellFormed) {path : Text}
    (canonical : CanonicalPath path) (kind : Kind) :
    db.kindOf volume path = some kind ↔ db.Names volume path kind := by
  obtain ⟨names, valid, rfl⟩ := (canonicalPath_iff path).mp canonical
  rw [kindOf_eq_some_iff wellFormed valid, names_iff_has wellFormed valid]

theorem kindOfParent_iff_names (wellFormed : (db.tree volume).WellFormed) {path : Text}
    (canonical : CanonicalPath path) :
    db.kindOfParent volume path = some .directory ↔
      ∃ parent, parentOf path = some parent ∧ db.Names volume parent .directory := by
  obtain ⟨names, valid, rfl⟩ := (canonicalPath_iff path).mp canonical
  unfold Database.kindOfParent
  rw [Option.bind_eq_some_iff]
  apply exists_congr
  intro parent
  apply and_congr_right
  intro above
  rcases List.eq_nil_or_concat' names with rfl | ⟨front, name, rfl⟩
  · cases above
  · rw [parentOf_pathText valid] at above
    rw [← Option.some.inj above, kindOf_eq_some_iff wellFormed valid.left,
      names_iff_has wellFormed valid.left]

end Names

section Writing

variable {db : Database} {volume : Uuid} {path : Text}

theorem zoneNodes_writeFileInline {data : Bytes} {mode : Int} {now : Timestamp}
    {written : Database} {id : NodeId}
    (done : db.writeFileInline volume path data mode now = .ok (written, id)) :
    written.zoneNodes = db.zoneNodes := by
  obtain ⟨-, -, parent, -, ⟨-, -, inserted⟩ | ⟨existing, -, -, -, updated⟩⟩ :=
    writeFileInline_ok done
  · exact zoneNodes_insertEntries inserted
  · exact zoneNodes_updateEntries updated

theorem writeFile_of_inline (committed : Committed db) {data : Bytes} {mode : Int}
    {now : Timestamp} {written : Database} {id : NodeId} {location : Location}
    (located : db.locateZone volume path = some location)
    (done : db.writeFileInline volume path data mode now = .ok (written, id)) :
    ∃ after, db.writeFile volume path data mode now = .ok (after, id) := by
  have kept := writeFileInline_kept (.refl committed.sound) done
  have still : written.locateZone volume path = some location := by
    rw [locateZone_congr (zoneNodes_writeFileInline done), located]
  obtain ⟨blockized, change, blockOk, moved⟩ := blockizeZone_ok kept.sound
    ((writeFileInline_contentMapping done).trans committed.unmapped) volume location.zoneId
  obtain ⟨after, reclaimOk⟩ :=
    reclaimContentSegments_ok moved.sound.store moved.sound.stored volume
  refine ⟨after, ?_⟩
  unfold Database.writeFile
  rw [done, ok_bind]
  dsimp only
  rw [still, strict, ok_bind, blockOk, ok_bind, reclaimOk, ok_bind]

/-- A new row at a place clashes with an older row if that row is at the place. -/
theorem entryClash_place_iff (keys : Keys db) (wellFormed : (db.tree volume).WellFormed)
    {location : Location} {zone : ZoneNode} {upper rest : List Text} {name : Text}
    (place : (db.tree volume).Place path location zone upper rest name) {row old : ZoneEntry}
    (fresh : db.nextNode ≤ row.id) (inVolume : row.volumeId = volume)
    (inZone : row.zoneId = location.zoneId)
    (relative : row.relativePath = (location.child (nameOf path)).relativePath)
    (parentPath : row.parentPath = location.relativePath) (named : row.name = nameOf path)
    (member : old ∈ db.zoneEntries) :
    entryClash old row = true ↔ atLocation volume (location.child (nameOf path)) old = true := by
  unfold entryClash
  rw [decide_eq_true_iff, atLocation_iff, inVolume, inZone, relative]
  refine and_congr_right fun oldVolume => and_congr_right fun oldZone => ?_
  constructor
  · rintro (sameId | samePath | ⟨sameParent, sameName⟩)
    · exact absurd sameId (Nat.ne_of_lt (Nat.lt_of_lt_of_le (keys.entry_bound old member) fresh))
    · exact samePath
    · obtain ⟨owner, front, inner, found⟩ :=
        wellFormed.entryAt_of_mem (mem_tree_entries.mpr ⟨member, oldVolume⟩)
      obtain ⟨before, last, rfl⟩ := (List.eq_nil_or_concat' inner).resolve_left found.nonempty
      have before_eq : relativeText before = relativeText rest := by
        rw [← wellFormed.parentPath_eq found, sameParent, parentPath]
        exact congrArg Location.relativePath place.location_eq
      have last_eq : last = name := by
        rw [← wellFormed.name_eq found, sameName, named]
        exact place.nameOf_eq
      rw [found.path, place.child_eq, last_eq,
        relativeText_injective found.valid.left place.valid.left before_eq]
  · exact fun samePath => Or.inr (Or.inl samePath)

theorem insertChild_ok (keys : Keys db) (wellFormed : (db.tree volume).WellFormed)
    {location : Location} {zone : ZoneNode} {upper rest : List Text} {name : Text}
    (place : (db.tree volume).Place path location zone upper rest name)
    (absent : db.entryAt volume (location.child (nameOf path)) = none) {make : NodeId → ZoneEntry}
    (columns : ∀ serial, (make serial).id = serial ∧ (make serial).volumeId = volume ∧
      (make serial).zoneId = location.zoneId ∧
      (make serial).relativePath = (location.child (nameOf path)).relativePath ∧
      (make serial).parentPath = location.relativePath ∧ (make serial).name = nameOf path) :
    ∃ after, db.insertEntries [make] = .ok after := by
  refine ⟨_, insertEntries_of_distinct ?_⟩
  refine List.pairwise_append.mpr ⟨keys.entries_distinct, List.pairwise_singleton _ _, ?_⟩
  intro old member new newMember
  rw [List.mem_singleton.mp newMember, Bool.eq_false_iff]
  intro clash
  obtain ⟨id, inVolume, inZone, relative, parentPath, named⟩ := columns db.nextNode
  exact List.find?_eq_none.mp absent old member
    ((entryClash_place_iff keys wellFormed place (Nat.le_of_eq id.symm) inVolume inZone relative
      parentPath named member).mp clash)

theorem overwriteFile_ok (keys : Keys db) (location : Location) (data : Bytes) (now : Timestamp) :
    ∃ after, db.updateEntries (atLocation volume location) (overwritten data now) = .ok after := by
  apply updateEntries_of_same_keys _ _ _ keys.entries_distinct
  intro entry _ _ other
  exact entryClash_congr other rfl rfl rfl rfl rfl rfl

/-- The answer of `write_file_inline`, by what is at the place of the path. -/
theorem writeFileInline_error_iff (committed : Committed db)
    (wellFormed : (db.tree volume).WellFormed) (canonical : CanonicalPath path)
    {location : Location} {zone : ZoneNode} {upper rest : List Text} {name : Text}
    (parent : db.kindOfParent volume path = some .directory)
    (located : db.locateParent volume path = some location)
    (place : (db.tree volume).Place path location zone upper rest name) (data : Bytes) (mode : Int)
    (now : Timestamp) :
    (∃ error, db.writeFileInline volume path data mode now = .error error) ↔
      ∃ existing, db.entryAt volume (location.child (nameOf path)) = some existing ∧
        existing.kind ≠ .file := by
  have keys := committed.sound.keys
  unfold Database.writeFileInline
  rw [assertPath_of_canonical canonical, ok_bind, if_neg (not_not.mpr parent), located, strict,
    ok_bind]
  dsimp only
  cases found : db.entryAt volume (location.child (nameOf path)) with
  | none =>
      obtain ⟨after, inserted⟩ : ∃ after,
          db.insertEntries [fileEntry volume location (nameOf path) data mode now] = .ok after :=
        insertChild_ok keys wellFormed place found fun _ => ⟨rfl, rfl, rfl, rfl, rfl, rfl⟩
      dsimp only
      rw [inserted, ok_bind]
      constructor
      · rintro ⟨error, impossible⟩
        cases impossible
      · rintro ⟨existing, impossible, -⟩
        cases impossible
  | some existing =>
      dsimp only
      split
      · rename_i other
        exact ⟨fun _ => ⟨existing, rfl, other⟩, fun _ => ⟨_, rfl⟩⟩
      · rename_i regular
        obtain ⟨after, updated⟩ : ∃ after, db.updateEntries
            (atLocation volume (location.child (nameOf path))) (overwritten data now) = .ok after :=
          overwriteFile_ok keys _ data now
        rw [updated, ok_bind]
        constructor
        · rintro ⟨error, impossible⟩
          cases impossible
        · rintro ⟨other, same, irregular⟩
          rw [← Option.some.inj same] at irregular
          exact absurd irregular regular

theorem writeFile_error_iff_inline (committed : Committed db)
    (wellFormed : (db.tree volume).WellFormed) (canonical : CanonicalPath path) (data : Bytes)
    (mode : Int) (now : Timestamp) :
    (∃ error, db.writeFile volume path data mode now = .error error) ↔
      ∃ error, db.writeFileInline volume path data mode now = .error error := by
  rw [exists_error_iff, exists_error_iff, not_iff_not]
  constructor
  · rintro ⟨⟨after, id⟩, done⟩
    obtain ⟨written, -, -, writeOk, -⟩ := writeFile_ok done
    exact ⟨(written, id), writeOk⟩
  · rintro ⟨⟨written, id⟩, done⟩
    obtain ⟨names, valid, rfl⟩ := (canonicalPath_iff path).mp canonical
    obtain ⟨zone, front, rest, found⟩ := wellFormed.located_exists valid
    have located := locateZone_of_located wellFormed valid found
    obtain ⟨after, finished⟩ := writeFile_of_inline committed located done
    exact ⟨(after, id), finished⟩

def Database.Unwritable (db : Database) (volume : Uuid) (path : Text) : Prop :=
  (¬ ∃ parent, parentOf path = some parent ∧ db.Names volume parent .directory) ∨
    db.Names volume path .directory ∨ db.Names volume path .symlink

/-- A zone other than the root of the volume has this path. -/
def Database.NestedZone (db : Database) (volume : Uuid) (path : Text) : Prop :=
  path ≠ ['/'] ∧ ∃ zone ∈ db.zoneNodes, zone.volumeId = volume ∧ zone.path = path

/-- At a path whose parent is a directory, a write fails on entries that are no files, and
is expected to fail on zones too. -/
theorem unwritable_iff (wellFormed : (db.tree volume).WellFormed) {location : Location}
    {zone : ZoneNode} {upper rest : List Text} {name : Text}
    (parent : ∃ parent, parentOf path = some parent ∧ db.Names volume parent .directory)
    (place : (db.tree volume).Place path location zone upper rest name) :
    db.Unwritable volume path ↔ db.NestedZone volume path ∨
      ∃ existing, db.entryAt volume (location.child (nameOf path)) = some existing ∧
        existing.kind ≠ .file := by
  have nested : db.NestedZone volume path ↔
      ∃ other, (db.tree volume).ZoneAt other (upper ++ (rest ++ [name])) := by
    constructor
    · rintro ⟨-, other, member, inVolume, same⟩
      exact ⟨other, mem_tree_zones.mpr ⟨member, inVolume⟩, place.components,
        same.trans place.path_eq⟩
    · rintro ⟨other, found⟩
      obtain ⟨member, inVolume⟩ := mem_tree_zones.mp found.member
      refine ⟨?_, other, member, inVolume, found.path.trans place.path_eq.symm⟩
      rw [place.path_eq]
      exact pathText_ne_root place.components (by simp)
  have kinds (kind : Kind) : db.Names volume path kind ↔
      (∃ other, (db.tree volume).ZoneAt other (upper ++ (rest ++ [name]))) ∧ kind = .directory ∨
        ∃ entry, db.entryAt volume (location.child (nameOf path)) = some entry ∧
          entry.kind = kind := by
    rw [place.path_eq, names_iff_has wellFormed place.components, place.has_iff wellFormed,
      ← place.path_eq]
    simp only [entryAt_child_iff wellFormed place]
  unfold Database.Unwritable
  rw [kinds, kinds, nested]
  constructor
  · rintro (orphan | (⟨zoneAt, -⟩ | ⟨entry, found, kind⟩) | (⟨-, impossible⟩ | ⟨entry, found, kind⟩))
    · exact absurd parent orphan
    · exact Or.inl zoneAt
    · refine Or.inr ⟨entry, found, ?_⟩
      rw [kind]
      decide
    · cases impossible
    · refine Or.inr ⟨entry, found, ?_⟩
      rw [kind]
      decide
  · rintro (zoneAt | ⟨entry, found, irregular⟩)
    · exact Or.inr (Or.inl (Or.inl ⟨zoneAt, rfl⟩))
    · cases kind : entry.kind with
      | file => exact absurd kind irregular
      | directory => exact Or.inr (Or.inl (Or.inr ⟨entry, found, kind⟩))
      | symlink => exact Or.inr (Or.inr (Or.inr ⟨entry, found, kind⟩))

def Rejected (db : Database) (op : Op) : Prop :=
  (∃ error, op.run db = .error error) ∧ transact db (op.run db) = db

theorem rejected_iff (db : Database) (op : Op) :
    Rejected db op ↔ ∃ error, op.run db = .error error := by
  constructor
  · exact And.left
  · rintro ⟨error, failed⟩
    refine ⟨⟨error, failed⟩, ?_⟩
    rw [failed]
    rfl

theorem writeFile_rejected_iff (volume : Uuid) (path : Text) (data : Bytes) (mode : Int)
    (now : Timestamp) :
    Rejected db (.writeFile volume path data mode now) ↔
      ∃ error, db.writeFile volume path data mode now = .error error := by
  rw [rejected_iff, exists_error_iff, exists_error_iff, not_iff_not]
  constructor
  · rintro ⟨after, done⟩
    obtain ⟨result, ran, -⟩ := map_eq_ok.mp done
    exact ⟨result, ran⟩
  · rintro ⟨result, ran⟩
    exact ⟨result.1, map_eq_ok.mpr ⟨result, ran, rfl⟩⟩

/-- A write rejects the paths it is expected to reject, and only these, if no nested zone
has the path. -/
theorem writeFile_rejects_iff (state : WellFormedVolume db volume) (canonical : CanonicalPath path)
    (data : Bytes) (mode : Int) (now : Timestamp) :
    (Rejected db (.writeFile volume path data mode now) ↔ db.Unwritable volume path) ↔
      ¬ db.NestedZone volume path := by
  have wellFormed := state.tree
  rw [writeFile_rejected_iff, writeFile_error_iff_inline state.committed wellFormed canonical]
  by_cases parent : db.kindOfParent volume path = some .directory
  · have above := (kindOfParent_iff_names wellFormed canonical).mp parent
    obtain ⟨location, locatedParent⟩ :=
      locateParent_isSome wellFormed canonical (ne_root_of_parent parent)
    obtain ⟨zone, upper, rest, name, place⟩ :=
      place_of_parent wellFormed canonical parent locatedParent
    rw [writeFileInline_error_iff state.committed wellFormed canonical parent locatedParent place,
      unwritable_iff wellFormed above place]
    constructor
    · intro same nested
      obtain ⟨existing, found, -⟩ := same.mpr (Or.inl nested)
      obtain ⟨-, other, member, inVolume, otherPath⟩ := nested
      have entryAt := (entryAt_child_iff wellFormed place).mp found
      refine wellFormed.apart existing entryAt.member zone entryAt.zoneAt.member entryAt.inZone.symm
        other (mem_tree_zones.mpr ⟨member, inVolume⟩) ?_
      rw [entryAt.absolutePath_eq, otherPath, place.path_eq]
    · intro plain
      exact ⟨Or.inr, fun bad => bad.resolve_left plain⟩
  · have failed : ∃ error, db.writeFileInline volume path data mode now = .error error := by
      unfold Database.writeFileInline
      rw [assertPath_of_canonical canonical, ok_bind, if_pos parent]
      exact ⟨_, rfl⟩
    have orphan : db.Unwritable volume path :=
      Or.inl fun above => parent ((kindOfParent_iff_names wellFormed canonical).mpr above)
    refine iff_of_true (iff_of_true failed orphan) ?_
    rintro ⟨notRoot, zone, member, inVolume, same⟩
    apply parent
    rw [kindOfParent_iff_names wellFormed canonical]
    obtain ⟨front, zoneAt⟩ := wellFormed.zoneAt_of_mem (mem_tree_zones.mpr ⟨member, inVolume⟩)
    rw [← same, zoneAt.path] at notRoot ⊢
    rcases List.eq_nil_or_concat' front with rfl | ⟨before, last, rfl⟩
    · exact absurd rfl notRoot
    · refine ⟨pathText before, parentOf_pathText zoneAt.valid, ?_⟩
      rw [names_iff_has wellFormed zoneAt.valid.left]
      exact wellFormed.has_parent (.zone zoneAt)

end Writing

/-- An imported directory is a zone. -/
def zoneCalls : List Op :=
  [.createVolume 7 ['v'] 0,
    .importTree 7 ['/', 'z'] [{ relativePath := [], kind := 2, content := [], mode := 493, uid := 0,
                                gid := 0, mtimeSeconds := 0, mtimeNanoseconds := 0
                                linkTarget := [] }] 1]

theorem writeFile_rejects_iff_in_zone :
    Rejected (Database.empty.calls zoneCalls) (.writeFile 7 ['/', 'z', '/', 'f'] [104] 420 2) ↔
      (Database.empty.calls zoneCalls).Unwritable 7 ['/', 'z', '/', 'f'] := by
  refine (writeFile_rejects_iff (wellFormed_calls (by decide +kernel)) (by decide) [104] 420 2).mpr ?_
  rintro ⟨-, zone, member, -, path⟩
  revert zone
  decide +kernel

/-- A write to the root of a zone makes a file of the same path. -/
theorem writeFile_not_rejected :
    ¬ ∀ (db : Database) (volume : Uuid) (path : Text) (data : Bytes) (mode : Int) (now : Timestamp),
      WellFormedVolume db volume → CanonicalPath path →
        (Rejected db (.writeFile volume path data mode now) ↔ db.Unwritable volume path) := by
  intro every
  have same := every (Database.empty.calls zoneCalls) 7 ['/', 'z'] [] 420 2
    (wellFormed_calls (by decide +kernel)) (by decide)
  have directory : ∃ node ∈ (Database.empty.calls zoneCalls).nodes 7,
      node.path = ['/', 'z'] ∧ node.kind = .directory := by
    decide +kernel
  have done : ((Database.empty.calls zoneCalls).writeFile 7 ['/', 'z'] [] 420 2).toOption.isSome := by
    decide +kernel
  obtain ⟨error, failed⟩ := (writeFile_rejected_iff 7 ['/', 'z'] [] 420 2).mp
    (same.mpr (Or.inr (Or.inl directory)))
  rw [failed] at done
  cases done

end PostgreOS
