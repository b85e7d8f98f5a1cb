/-
Imported trees in the tree of files.

A batch that spells a tree is grafted at a vacant path. Every other batch, and every other
path, is refused.
-/

import PostgreOS.NewRows
import PostgreOS.VolumeTree

namespace PostgreOS

open Library.Outcome Library.Table

/-- What a row of the staging table asks for. -/
def StagedEntry.object (staged : StagedEntry) : Object :=
  { body := match staged.kind with
      | .file => .file staged.content
      | .directory => .directory
      | .symlink => .symlink staged.linkTarget
    mode := staged.mode
    uid := staged.uid
    gid := staged.gid
    atime := staged.mtime
    mtime := staged.mtime }

def ShowsObject (staged : StagedEntry) (node : Node) : Prop :=
  node.object = staged.object

section Staging

variable {entries : List ImportEntry} {staging : List StagedEntry}

theorem Kind.ofCode_eq_some_iff (code : Int) (kind : Kind) :
    Kind.ofCode code = some kind ↔ code = kind.code := by
  constructor
  · exact fun found => (Kind.code_of_ofCode found).symm
  · rintro rfl
    cases kind <;> rfl

theorem stageEntry_exists_iff (entry : ImportEntry) :
    (∃ staged, stageEntry entry = .ok staged) ↔ FileTree.Stageable entry := by
  constructor
  · rintro ⟨staged, done⟩
    unfold stageEntry at done
    split at done
    · cases done
    · rename_i kind found
      split at done
      · rename_i inRange
        rw [Kind.ofCode_eq_some_iff] at found
        refine ⟨?_, inRange⟩
        rw [found]
        cases kind <;> decide
      · cases done
  · rintro ⟨kind, time⟩
    obtain ⟨known, isKind⟩ : ∃ known, Kind.ofCode entry.kind = some known := by
      simp only [Kind.ofCode_eq_some_iff]
      rcases kind with same | same | same
      · exact ⟨_, same⟩
      · exact ⟨_, same⟩
      · exact ⟨_, same⟩
    unfold stageEntry
    rw [isKind]
    dsimp only
    rw [if_pos time]
    exact ⟨_, rfl⟩

theorem object_of_stageEntry {entry : ImportEntry} {staged : StagedEntry}
    (done : stageEntry entry = .ok staged) : staged.object = FileTree.importedObject entry := by
  unfold stageEntry at done
  split at done
  · cases done
  · rename_i kind found
    split at done
    · rw [← Except.ok.inj done]
      rw [Kind.ofCode_eq_some_iff] at found
      unfold StagedEntry.object FileTree.importedObject
      rw [found]
      cases kind <;> rfl
    · cases done

theorem timestamp_of_stageEntry {entry : ImportEntry} {staged : StagedEntry}
    (done : stageEntry entry = .ok staged) :
    staged.timestamp = toTimestamp entry.mtimeSeconds entry.mtimeNanoseconds := by
  unfold stageEntry at done
  split at done
  · cases done
  · split at done
    · rw [← Except.ok.inj done]
      rfl
    · cases done

theorem ofBatch_eq_some_iff (distinct : (entries.map ImportEntry.relativePath).Nodup)
    {names : List Text} {object : Object} :
    FileTree.ofBatch entries names = some object ↔ Components names ∧
      ∃ entry ∈ entries, entry.relativePath = relativeText names ∧
        FileTree.importedObject entry = object := by
  unfold FileTree.ofBatch
  rw [Option.map_eq_some_iff]
  constructor
  · rintro ⟨entry, found, rfl⟩
    have chosen := List.find?_some found
    rw [decide_eq_true_eq] at chosen
    exact ⟨chosen.2, entry, List.mem_of_find?_eq_some found, chosen.1, rfl⟩
  · rintro ⟨valid, entry, member, path, rfl⟩
    obtain ⟨first, found⟩ : ∃ first, entries.find? (fun entry =>
        entry.relativePath = relativeText names ∧ Components names) = some first := by
      rw [← Option.isSome_iff_exists, List.find?_isSome]
      exact ⟨entry, member, decide_eq_true ⟨path, valid⟩⟩
    have chosen := List.find?_some found
    rw [decide_eq_true_eq] at chosen
    obtain rfl := List.inj_on_of_nodup_map distinct member (List.mem_of_find?_eq_some found)
      (path.trans chosen.1.symm)
    exact ⟨entry, found, rfl⟩

end Staging

/-! ### The grafted batch -/

section Import

variable {db after : Database} {volume : Uuid} {names : List Text} {entries : List ImportEntry}
  {now : Timestamp} {count : Nat}

theorem showsObject_of_row (filled : Database) (zonePath : Text) (staged : StagedEntry)
    (entry : ZoneEntry) (payload : entry.payload = staged.payload)
    (_size : entry.size = staged.size) (metadata : entry.metadata = staged.metadata now) :
    ShowsObject staged (nodeOfEntry filled.contentOf zonePath entry) := by
  unfold ShowsObject Node.object Node.body StagedEntry.object nodeOfEntry entryInode
    ZoneEntry.kind Database.contentOf ZoneEntry.linkTarget
  rw [metadata, payload]
  unfold StagedEntry.payload
  cases staged.kind with
  | file =>
      dsimp only [StagedEntry.metadata, Payload.kind, Option.getD_some]
      rw [fileDataOf_bytes]
  | directory => rfl
  | symlink => rfl

theorem showsObject_of_zone {path : Text} (staged : StagedEntry) (parent : Location) (id : NodeId)
    (directory : staged.kind = .directory) :
    ShowsObject staged (nodeOfZone (importedZone volume parent path staged now id)) := by
  unfold ShowsObject StagedEntry.object
  rw [directory]
  rfl

theorem ValidBatch.spelled {staging : List StagedEntry} {root : StagedEntry}
    (batch : ValidBatch staging root) (valid : Components names) {staged : StagedEntry}
    (member : staged ∈ staging) : ∃ extra, Components extra ∧
      staged.relativePath = relativeText extra ∧
        absolutePath (pathText names) staged.relativePath = pathText (names ++ extra) := by
  by_cases outer : staged.relativePath = []
  · refine ⟨[], components_nil, outer.trans relativeText_nil.symm, ?_⟩
    rw [outer, List.append_nil]
    rfl
  · obtain ⟨extra, extraValid, -, path⟩ :=
      (canonicalRelative_iff _).mp (batch.canonical staged member outer)
    exact ⟨extra, extraValid, path, by rw [path, absolutePath_texts valid extraValid]⟩

theorem view_importTree (sound : Sound db) (before : (db.tree volume).WellFormed)
    (valid : Components names)
    (done : db.importTree volume (pathText names) entries now = .ok (after, count)) :
    after.view volume = (db.view volume).importBatch names entries := by
  have still := importTree_wellFormed sound before done
  obtain ⟨staging, root, imported, location, accepted, importOk, -, blockOk⟩ :=
    importTree_accepted done
  obtain ⟨-, notRoot⟩ := prepareImport_ok accepted.prepared
  obtain ⟨-, -, parent, -, vacant, -⟩ := applyImportInline_ok importOk
  have staged := mapM_eq_ok.mp accepted.staged
  have adds := applyImportInline_adds sound before accepted.distinct showsObject_of_row
    showsObject_of_zone importOk
  obtain ⟨change, blockized⟩ :=
    blockizeZoneSegment_ok (applyImportInline_kept (.refl sound) importOk).sound blockOk
  rw [← blockized.nodes volume] at adds
  have distinct := accepted.distinct
  rw [staged_paths staged] at distinct
  have inner : names ≠ [] := by
    rintro rfl
    exact notRoot pathText_nil
  let arrived : Node → Prop := fun node => node ∈ after.nodes volume ∧ ∃ staged ∈ staging,
    node.path = absolutePath (pathText names) staged.relativePath ∧ ShowsObject staged node
  have members (node : Node) :
      node ∈ after.nodes volume ↔ node ∈ db.nodes volume ∨ arrived node := by
    constructor
    · exact fun member => (adds.new node member).imp_right fun new => ⟨member, new⟩
    · rintro (old | new)
      · exact adds.kept node old
      · exact new.1
  refine view_graft before still valid inner members (vacant.free_nodes before) ?_ ?_
  · rintro node ⟨-, row, member, path, shows⟩
    obtain ⟨extra, extraValid, relative, whole⟩ := accepted.batch.spelled valid member
    obtain ⟨entry, entryMember, entryOk⟩ := exists_left_of_forall₂ _ staged member
    refine ⟨extra, extraValid, path.trans whole, (ofBatch_eq_some_iff distinct).mpr
      ⟨extraValid, entry, entryMember, ?_, ?_⟩⟩
    · rw [← (stages_of_stageEntry entryOk).relativePath, relative]
    · rw [← object_of_stageEntry entryOk]
      exact shows.symm
  · intro extra object found
    obtain ⟨extraValid, entry, entryMember, path, -⟩ := (ofBatch_eq_some_iff distinct).mp found
    obtain ⟨row, member, rowOk⟩ := exists_right_of_forall₂ staged entryMember
    obtain ⟨node, nodeMember, here, shows⟩ := adds.placed row member
    refine ⟨node, ⟨nodeMember, row, member, here, shows⟩, ?_, extraValid⟩
    rw [here, (stages_of_stageEntry rowOk).relativePath, path, absolutePath_texts valid extraValid]

/-! ### Batches that are accepted -/

/-- The checks on the staged rows are the conditions on the batch. -/
theorem validBatch_iff {staging : List StagedEntry}
    (staged : List.Forall₂ (fun entry row => stageEntry entry = .ok row) entries staging) :
    ((staging.map StagedEntry.relativePath).Nodup ∧ ∃ root, ValidBatch staging root) ↔
      FileTree.Batch entries := by
  have stageable : ∀ entry ∈ entries, FileTree.Stageable entry := by
    intro entry member
    obtain ⟨row, -, done⟩ := exists_right_of_forall₂ staged member
    exact (stageEntry_exists_iff entry).mp ⟨row, done⟩
  have forward {entry : ImportEntry} (member : entry ∈ entries) : ∃ row ∈ staging,
      row.relativePath = entry.relativePath ∧ row.kind.code = entry.kind := by
    obtain ⟨row, rowMember, done⟩ := exists_right_of_forall₂ staged member
    exact ⟨row, rowMember, (stages_of_stageEntry done).relativePath, (stages_of_stageEntry done).kind⟩
  have backward {row : StagedEntry} (member : row ∈ staging) : ∃ entry ∈ entries,
      row.relativePath = entry.relativePath ∧ row.kind.code = entry.kind := by
    obtain ⟨entry, entryMember, done⟩ := exists_left_of_forall₂ _ staged member
    exact ⟨entry, entryMember, (stages_of_stageEntry done).relativePath,
      (stages_of_stageEntry done).kind⟩
  rw [staged_paths staged]
  constructor
  · rintro ⟨distinct, root, batch⟩
    refine ⟨stageable, distinct, ?_, ?_, ?_⟩
    · obtain ⟨entry, member, path, -⟩ := backward (List.mem_of_find?_eq_some batch.root)
      exact ⟨entry, member, path.symm.trans batch.root_path⟩
    · intro entry member inner
      obtain ⟨row, rowMember, path, -⟩ := forward member
      rw [← path] at inner ⊢
      exact batch.canonical row rowMember inner
    · intro entry member inner
      obtain ⟨row, rowMember, path, -⟩ := forward member
      rw [← path] at inner ⊢
      obtain ⟨above, aboveMember, abovePath, directory⟩ := batch.parents row rowMember inner
      obtain ⟨parent, parentMember, parentPath, kind⟩ := backward aboveMember
      exact ⟨parent, parentMember, parentPath.symm.trans abovePath, by rw [← kind, directory]⟩
  · intro batch
    obtain ⟨entry, member, outer⟩ := batch.root
    obtain ⟨row, rowMember, rowPath, -⟩ := forward member
    obtain ⟨root, found⟩ : ∃ root,
        staging.find? (fun staged => staged.relativePath = []) = some root := by
      rw [← Option.isSome_iff_exists, List.find?_isSome]
      exact ⟨row, rowMember, decide_eq_true (rowPath.trans outer)⟩
    refine ⟨batch.distinct, root, found, ?_, ?_⟩
    · intro staged stagedMember inner
      obtain ⟨entry, entryMember, path, -⟩ := backward stagedMember
      rw [path] at inner ⊢
      exact batch.canonical entry entryMember inner
    · intro staged stagedMember inner
      obtain ⟨entry, entryMember, path, -⟩ := backward stagedMember
      rw [path] at inner ⊢
      obtain ⟨parent, parentMember, parentPath, directory⟩ := batch.parents entry entryMember inner
      obtain ⟨above, aboveMember, abovePath, kind⟩ := forward parentMember
      exact ⟨above, aboveMember, abovePath.trans parentPath,
        Kind.code_inj.mp (kind.trans directory)⟩

theorem importedRows_filled (volume : Uuid) (now : Timestamp) {inserted : Database}
    {staging : List StagedEntry} {root : StagedEntry} {zone : NodeId} (keys : Keys inserted)
    (empty : ∀ entry ∈ inserted.zoneEntries, entry.zoneId ≠ zone)
    (distinct : (staging.map StagedEntry.relativePath).Nodup) (batch : ValidBatch staging root) :
    ∃ after, inserted.insertEntries (importedRows volume zone staging now) = .ok after := by
  have columns : ∀ row ∈ importedRows volume zone staging now, ∀ serial,
      (row serial).id = serial ∧ (row serial).volumeId = volume ∧ (row serial).zoneId = zone ∧
      (row serial).relativePath = (row 0).relativePath ∧ Tree.Spelled (row serial) := by
    intro row member serial
    obtain ⟨staged, inside, rfl⟩ := List.mem_map.mp member
    obtain ⟨inBatch, inner⟩ := List.mem_filter.mp inside
    exact ⟨rfl, rfl, rfl, rfl, batch.canonical staged inBatch (of_decide_eq_true inner), rfl, rfl⟩
  refine fillZone_exists keys empty columns ?_
  unfold importedRows
  rw [List.map_map]
  exact distinct.sublist (List.filter_sublist.map StagedEntry.relativePath)

theorem applyImportInline_contentMapping {path : Text} {staging : List StagedEntry}
    (done : db.applyImportInline volume path staging now = .ok (after, count)) :
    after.contentMapping = db.contentMapping := by
  obtain ⟨-, root, parent, -, -, ⟨-, inserted, zone, zoneOk, fillOk⟩ | ⟨-, insertOk⟩⟩ :=
    applyImportInline_ok done
  · rw [(insertEntries_ok fillOk).1, (insertZone_ok zoneOk).1]
  · rw [(insertEntries_ok insertOk).1]

theorem applyImportInline_exists (sound : Sound db) (before : (db.tree volume).WellFormed)
    {path : Text} {location : Location} {staging : List StagedEntry} {root : StagedEntry}
    (vacant : Vacant db volume path location)
    (distinct : (staging.map StagedEntry.relativePath).Nodup) (batch : ValidBatch staging root)
    (timed : ∀ staged ∈ staging, ∃ time, staged.timestamp = .ok time) :
    ∃ result, db.applyImportInline volume path staging now = .ok result := by
  unfold Database.applyImportInline
  rw [assertPath_of_canonical vacant.canonical, ok_bind, batch.root]
  dsimp only
  rw [if_neg, if_neg, if_neg, vacant.located, strict, ok_bind]
  · obtain ⟨rootTime, rootOk⟩ := timed root (List.mem_of_find?_eq_some batch.root)
    obtain ⟨times, timesOk, -⟩ := exists_mapM
      (staging.filter fun staged => staged.relativePath ≠ []) StagedEntry.timestamp
      (fun _ _ => True) fun staged inside => by
        obtain ⟨time, timeOk⟩ := timed staged (List.mem_filter.mp inside).1
        exact ⟨time, timeOk, trivial⟩
    unfold Database.insertBatch
    rw [rootOk, ok_bind]
    split
    · have columns (serial : NodeId) :
          (importedZone volume location path root now serial).id = serial ∧
          (importedZone volume location path root now serial).volumeId = volume ∧
          (importedZone volume location path root now serial).path = path ∧
          (importedZone volume location path root now serial).parent =
            some (location.zoneId, location.relativePath) ∧
          (importedZone volume location path root now serial).name = nameOf path :=
        ⟨rfl, rfl, rfl, rfl, rfl⟩
      obtain ⟨inserted, zoneOk⟩ := insertZone_vacant sound.keys before vacant columns
      have keys := ((Kept.refl sound).insertZone (fun _ => rfl)
        (fun _ => vacant.canonical.zonePath) zoneOk).sound.keys
      have empty : ∀ entry ∈ inserted.zoneEntries, entry.zoneId ≠ db.nextNode := by
        rw [(insertZone_ok zoneOk).1]
        exact fun entry member => Nat.ne_of_lt (sound.keys.entry_zone_bound member)
      obtain ⟨after, fillOk⟩ := importedRows_filled volume now keys empty distinct batch
      rw [zoneOk, ok_bind]
      dsimp only
      rw [timesOk, ok_bind, fillOk, ok_bind]
      exact ⟨_, rfl⟩
    · obtain ⟨zone, upper, rest, name, place, free⟩ := vacant.place before
      have absent : db.entryAt volume (location.child (nameOf path)) = none := by
        rw [Option.eq_none_iff_forall_ne_some]
        exact fun entry found => free entry.kind (.entry ((entryAt_child_iff before place).mp found))
      have columns (serial : NodeId) :
          (importedRoot volume location (nameOf path) root now serial).id = serial ∧
          (importedRoot volume location (nameOf path) root now serial).volumeId = volume ∧
          (importedRoot volume location (nameOf path) root now serial).zoneId = location.zoneId ∧
          (importedRoot volume location (nameOf path) root now serial).relativePath =
            (location.child (nameOf path)).relativePath ∧
          (importedRoot volume location (nameOf path) root now serial).parentPath =
            location.relativePath ∧
          (importedRoot volume location (nameOf path) root now serial).name = nameOf path :=
        ⟨rfl, rfl, rfl, rfl, rfl, rfl⟩
      obtain ⟨after, inserted⟩ := insertChild_ok sound.keys before place absent columns
      rw [inserted, ok_bind]
      exact ⟨_, rfl⟩
  · rw [vacant.parent, vacant.free]
    simp
  · rw [Bool.not_eq_true, List.any_eq_false]
    intro child member found
    obtain ⟨inner, missing⟩ := of_decide_eq_true found
    obtain ⟨parent, parentMember, above⟩ := batch.parents child member inner
    exact missing (List.any_eq_true.mpr ⟨parent, parentMember, decide_eq_true above⟩)
  · rw [Bool.not_eq_true, List.any_eq_false]
    intro staged member found
    obtain ⟨inner, invalid⟩ := of_decide_eq_true found
    obtain ⟨matching, noDots⟩ := batch.canonical staged member inner
    exact invalid ⟨matching, by simpa using noDots⟩

theorem importTree_allowed_iff (committed : Committed db) (before : (db.tree volume).WellFormed)
    (valid : Components names) (entries : List ImportEntry) (now : Timestamp) :
    (∃ result, db.importTree volume (pathText names) entries now = .ok result) ↔
      (db.view volume).CanImport names entries := by
  unfold FileTree.CanImport
  rw [vacant_iff before valid]
  constructor
  · rintro ⟨⟨after, count⟩, done⟩
    obtain ⟨staging, root, imported, location, accepted, importOk, -, -⟩ := importTree_accepted done
    obtain ⟨top, parent, batch, vacant, inserting⟩ := applyImportInline_cases importOk
    refine ⟨⟨vacant.free, vacant.parent⟩, (validBatch_iff (mapM_eq_ok.mp accepted.staged)).mp
      ⟨accepted.distinct, root, accepted.batch⟩, ?_⟩
    intro entry member
    obtain ⟨row, rowMember, rowOk⟩ :=
      exists_right_of_forall₂ (mapM_eq_ok.mp accepted.staged) member
    unfold FileTree.InTime
    rw [← timestamp_of_stageEntry rowOk]
    exact insertBatch_timestamps batch accepted.distinct inserting row rowMember
  · rintro ⟨⟨free, parent⟩, batch, inTime⟩
    have canonical := canonicalPath_pathText valid
    obtain ⟨staging, stagedOk, staged⟩ := exists_mapM entries stageEntry
      (fun entry row => stageEntry entry = .ok row) fun entry member => by
        obtain ⟨row, done⟩ := (stageEntry_exists_iff entry).mpr (batch.stageable entry member)
        exact ⟨row, done, done⟩
    obtain ⟨distinct, root, accepted⟩ := (validBatch_iff staged).mpr batch
    have timed : ∀ row ∈ staging, ∃ time, row.timestamp = .ok time := by
      intro row rowMember
      obtain ⟨entry, member, rowOk⟩ := exists_left_of_forall₂ _ staged rowMember
      rw [timestamp_of_stageEntry rowOk]
      exact inTime entry member
    have notRoot := ne_root_of_parent parent
    obtain ⟨location, located⟩ := locateParent_isSome before canonical notRoot
    have vacant : Vacant db volume (pathText names) location := ⟨canonical, free, parent, located⟩
    obtain ⟨⟨imported, count⟩, importOk⟩ :
        ∃ result, db.applyImportInline volume (pathText names) staging now = .ok result :=
      applyImportInline_exists committed.sound before vacant distinct accepted timed
    have still := applyImportInline_wellFormed committed.sound before importOk
    have kept := applyImportInline_kept (.refl committed.sound) importOk
    obtain ⟨zone, front, rest, found⟩ := still.located_exists valid
    obtain ⟨after, blockOk⟩ := blockizeZoneSegment_exists kept.sound
      ((applyImportInline_contentMapping importOk).trans committed.unmapped)
      (volume_known kept.sound.keys still) zone.id
    unfold Database.importTree Database.prepareImport Database.applyImport
    rw [assertPath_of_canonical canonical, ok_bind, if_neg notRoot, if_neg (not_not.mpr parent),
      if_neg (not_not.mpr free), ok_bind, stagedOk, ok_bind, if_neg (not_not.mpr distinct), importOk,
      ok_bind]
    dsimp only
    rw [locateZone_of_located still valid found, strict, ok_bind]
    dsimp only
    rw [blockOk, ok_bind]
    exact ⟨_, rfl⟩

end Import

end PostgreOS
