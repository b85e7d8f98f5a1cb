/-
The tree along runs.

Where every call of a run keeps the two tables one tree, they are one tree in every state
that the run reaches. The conditions name the calls that do not: writes over the root of
a zone, bulk removals that leave children behind, and patterns that select too much or too
little.
-/

import PostgreOS.BulkRemoval
import PostgreOS.Moving
import PostgreOS.Run

namespace PostgreOS

open Library.Outcome Library.Table Library.Transition

/-- Every row hangs below a directory and no absolute path is named by two rows. -/
structure Tree.Consistent (tree : Tree) : Prop where
  entry_columns : ∀ entry ∈ tree.entries, entry.parentPath = relativeParent entry.relativePath ∧
    entry.name = relativeName entry.relativePath
  entry_parent : ∀ entry ∈ tree.entries, (∃ zone ∈ tree.zones, zone.id = entry.zoneId) ∧
    tree.DirectoryIn entry.zoneId entry.parentPath
  zone_parent : ∀ zone ∈ tree.zones, zone.path ≠ ['/'] →
    ∃ parent ∈ tree.zones, tree.HangsIn zone parent
  zones_apart : ∀ first ∈ tree.zones, ∀ second ∈ tree.zones,
    first.path = second.path → first = second
  entries_apart : ∀ first ∈ tree.entries, ∀ second ∈ tree.entries, ∀ firstZone ∈ tree.zones,
    ∀ secondZone ∈ tree.zones, firstZone.id = first.zoneId → secondZone.id = second.zoneId →
      absolutePath firstZone.path first.relativePath =
        absolutePath secondZone.path second.relativePath → first = second
  apart : ∀ entry ∈ tree.entries, ∀ zone ∈ tree.zones, zone.id = entry.zoneId →
    ∀ other ∈ tree.zones, absolutePath zone.path entry.relativePath ≠ other.path

theorem Tree.WellFormed.consistent {tree : Tree} (wellFormed : tree.WellFormed) :
    tree.Consistent := by
  refine
    { entry_columns := fun entry member =>
        ⟨wellFormed.entry_parent_path entry member, wellFormed.entry_name entry member⟩
      entry_parent := fun entry member =>
        ⟨wellFormed.entry_zone entry member, wellFormed.entry_parent entry member⟩
      zone_parent := wellFormed.zone_parent
      zones_apart := wellFormed.zone_paths
      entries_apart := ?_
      apart := wellFormed.apart }
  intro first firstMember second secondMember firstZone firstStored secondZone secondStored
    firstIn secondIn same
  obtain ⟨zone, front, rest, found⟩ := wellFormed.entryAt_of_mem firstMember
  obtain ⟨other, upper, lower, otherFound⟩ := wellFormed.entryAt_of_mem secondMember
  obtain rfl := wellFormed.zone_ids firstZone firstStored zone found.zoneAt.member
    (firstIn.trans found.inZone)
  obtain rfl := wellFormed.zone_ids secondZone secondStored other otherFound.zoneAt.member
    (secondIn.trans otherFound.inZone)
  rw [found.absolutePath_eq, otherFound.absolutePath_eq] at same
  exact (wellFormed.entryAt_unique found otherFound
    (pathText_injective found.components otherFound.components same)).2.1

section Volumes

variable {db after : Database} {volume : Uuid}

theorem volumes_insertEntries {makers : List (NodeId → ZoneEntry)}
    (inserted : db.insertEntries makers = .ok after) : after.volumes = db.volumes := by
  rw [(insertEntries_ok inserted).1]

theorem volumes_updateEntries {selected : ZoneEntry → Bool} {change : ZoneEntry → ZoneEntry}
    (updated : db.updateEntries selected change = .ok after) : after.volumes = db.volumes := by
  rw [(updateEntries_ok updated).1]

theorem volumes_updateZones {selected : Zone → Bool} {change : Zone → Zone}
    (updated : db.updateZones selected change = .ok after) : after.volumes = db.volumes := by
  rw [(updateZones_ok updated).1]

theorem volumes_insertZone {make : NodeId → ZoneNode} {id : NodeId}
    (inserted : db.insertZone make = .ok (after, id)) : after.volumes = db.volumes := by
  rw [(insertZone_ok inserted).1]

theorem volumes_mkdir {targetPath : Text} {parents : Bool} {mode : Int} {now : Timestamp}
    (done : db.mkdir volume targetPath parents mode now = .ok after) :
    after.volumes = db.volumes := by
  refine mkdir_invariant (fun state => state.volumes = db.volumes) ?_ rfl done
  intro state path next same made
  obtain ⟨-, rfl⟩ | ⟨location, -, inserted⟩ := mkdirOne_ok made
  · exact same
  · exact (volumes_insertEntries inserted).trans same

theorem volumes_mkdirMany {targetPaths : List Text} {parents : Bool} {now : Timestamp}
    (done : db.mkdirMany volume targetPaths parents now = .ok after) :
    after.volumes = db.volumes := by
  cases parents with
  | true =>
      exact foldlM_invariant (fun state => state.volumes = db.volumes)
        (fun _ _ _ _ same made => (volumes_mkdir made).trans same) rfl done
  | false => exact volumes_insertEntries (mkdirMany_ok done).2

theorem volumes_setTimes {targetPath : Text}
    {atimeSeconds atimeNanoseconds mtimeSeconds mtimeNanoseconds : Int} {now : Timestamp}
    {rows : List Inode}
    (done : db.setTimes volume targetPath atimeSeconds atimeNanoseconds mtimeSeconds
      mtimeNanoseconds now = .ok (after, rows)) : after.volumes = db.volumes := by
  obtain ⟨location, atime, mtime, -, updated | updated⟩ := setTimes_ok done
  · exact volumes_updateZones updated
  · exact volumes_updateEntries updated

theorem volumes_writeFileInline {targetPath : Text} {data : Bytes} {mode : Int}
    {now : Timestamp} {id : NodeId}
    (done : db.writeFileInline volume targetPath data mode now = .ok (after, id)) :
    after.volumes = db.volumes := by
  obtain ⟨-, -, parent, -, ⟨-, -, inserted⟩ | ⟨existing, -, -, -, updated⟩⟩ := writeFileInline_ok done
  · exact volumes_insertEntries inserted
  · exact volumes_updateEntries updated

theorem volumes_writeFile {targetPath : Text} {data : Bytes} {mode : Int} {now : Timestamp}
    {id : NodeId} (committed : Committed db)
    (done : db.writeFile volume targetPath data mode now = .ok (after, id)) :
    after.volumes = db.volumes := by
  obtain ⟨written, location, blockized, writeOk, -, blockOk, reclaimOk⟩ := writeFile_ok done
  have sofar := writeFileInline_kept (.refl committed.sound) writeOk
  obtain ⟨found, change, foundOk, moved⟩ := blockizeZone_ok sofar.sound
    ((writeFileInline_contentMapping writeOk).trans committed.unmapped) volume location.zoneId
  obtain rfl : found = blockized := Except.ok.inj (foundOk.symm.trans blockOk)
  have reclaimed := Reclaimed.of_reclaim moved.sound.store moved.sound.stored reclaimOk
  exact reclaimed.tables.volumes.trans (moved.volumes.trans (volumes_writeFileInline writeOk))

theorem volumes_importTree {destination : Text} {entries : List ImportEntry} {now : Timestamp}
    {count : Nat} (sound : Sound db)
    (done : db.importTree volume destination entries now = .ok (after, count)) :
    after.volumes = db.volumes := by
  obtain ⟨-, staging, imported, location, -, importOk, -, blockOk⟩ := importTree_ok done
  have sofar := applyImportInline_kept (.refl sound) importOk
  obtain ⟨change, moved⟩ := blockizeZoneSegment_ok sofar.sound blockOk
  refine moved.volumes.trans ?_
  obtain ⟨-, root, parent, -, -, ⟨-, inserted, zone, zoneOk, fillOk⟩ | ⟨-, insertOk⟩⟩ :=
    applyImportInline_ok importOk
  · exact (volumes_insertEntries fillOk).trans (volumes_insertZone zoneOk)
  · exact volumes_insertEntries insertOk

theorem volumes_importText {target : Text} {reader : Bytes} {now : Timestamp} {id : NodeId}
    (sound : Sound db) (done : db.importText volume target reader now = .ok (after, id)) :
    after.volumes = db.volumes := by
  obtain ⟨stored, written, size, same, -, -, writeOk, updated⟩ := importText_ok sound done
  exact (volumes_updateEntries updated).trans
    ((volumes_writeFileInline writeOk).trans same.volumes)

theorem volumes_copy {sourcePath destinationPath : Text} {recursive : Bool} {now : Timestamp}
    {count : Nat}
    (done : db.copy volume sourcePath destinationPath recursive now = .ok (after, count)) :
    after.volumes = db.volumes := by
  obtain ⟨sourceLocation, parent, -, ⟨-, copied⟩ | ⟨-, copied⟩⟩ := copy_ok done
  · obtain ⟨-, -, source, inserted, zone, -, zoneOk, fillOk, -⟩ := copyZone_ok copied
    exact (volumes_insertEntries fillOk).trans (volumes_insertZone zoneOk)
  · obtain ⟨-, insertOk, -⟩ := copyEntry_ok copied
    exact volumes_insertEntries insertOk

theorem Relocated.volumes {replaced : Database} {source destination : Text}
    {sourceLocation parent : Location} {now : Timestamp}
    (movable : Movable db replaced volume source destination sourceLocation parent)
    (relocated : Relocated replaced after volume source destination sourceLocation parent now) :
    after.volumes = db.volumes := by
  have replacing : replaced.volumes = db.volumes := by
    obtain ⟨-, ⟨-, rfl⟩ | ⟨location, -, rfl⟩⟩ := replaceDestination_ok movable.replaces
    · rfl
    · rfl
  obtain ⟨-, updated⟩ | ⟨-, -, updated⟩ := relocated
  · exact (volumes_updateZones updated).trans replacing
  · exact (volumes_updateEntries updated).trans replacing

theorem volumes_remove {targetPath : Text} {recursive : Bool} {count : Nat} (sound : Sound db)
    (done : db.remove volume targetPath recursive = .ok (after, count)) :
    after.volumes = db.volumes := by
  obtain ⟨location, removable, reclaimed, -⟩ := remove_ok.mp done
  have kept := removeRows_kept (.refl sound) removable
  rw [(Reclaimed.of_reclaim kept.sound.store kept.sound.stored reclaimed).tables.volumes]
  unfold Database.removeRows
  split
  · rfl
  · unfold Database.removeEntryRows
    cases recursive <;> rfl

theorem volumes_removeMany {targetPaths : List Text} {recursive forceMissing : Bool}
    {count : Nat} (sound : Sound db)
    (done : db.removeMany volume targetPaths recursive forceMissing = .ok (after, count)) :
    after.volumes = db.volumes := by
  refine (removeMany_invariant (fun state => Sound state ∧ state.volumes = db.volumes) ?_ ?_
    ⟨sound, rfl⟩ done).2
  · intro state path next removed sofar removeOk
    exact ⟨(remove_kept (.refl sofar.1) removeOk).sound,
      (volumes_remove sofar.1 removeOk).trans sofar.2⟩
  · intro _ _ removing
    obtain ⟨-, -, -, reclaimed⟩ := removeBulk_ok.mp removing
    have kept := Kept.deleteEntries (.refl sound)
      (db.bulkRow volume (targetPaths.filterMap (db.resolve volume)) recursive)
    exact ⟨(kept.reclaim reclaimed).sound,
      (Reclaimed.of_reclaim kept.sound.store kept.sound.stored reclaimed).tables.volumes⟩

end Volumes

/-! ### New volumes -/

/-- A volume without files is its root zone. -/
theorem rootZone_wellFormed (volume : Uuid) (now : Timestamp) (id : NodeId) :
    Tree.WellFormed { zones := [rootZone volume now id], entries := [] } where
  zone_ids := by
    intro first firstMember second secondMember _
    rw [List.mem_singleton.mp firstMember, List.mem_singleton.mp secondMember]
  zone_paths := by
    intro first firstMember second secondMember _
    rw [List.mem_singleton.mp firstMember, List.mem_singleton.mp secondMember]
  zone_canonical := by
    intro zone member
    rw [List.mem_singleton.mp member]
    exact canonicalPath_pathText components_nil
  root := ⟨_, List.mem_singleton_self _, rfl⟩
  root_parent := by
    intro zone member _
    rw [List.mem_singleton.mp member]
    rfl
  zone_parent := by
    intro zone member inner
    rw [List.mem_singleton.mp member] at inner
    exact absurd rfl inner
  entry_paths := by simp
  entry_canonical := by simp
  entry_parent_path := by simp
  entry_name := by simp
  entry_zone := by simp
  entry_parent := by simp
  apart := by simp

section Runs

variable {db after : Database}

def AllWellFormed (db : Database) : Prop :=
  ∀ volume ∈ db.volumes.map Volume.id, (db.tree volume).WellFormed

theorem tree_of_unknown (keys : Keys db) {volume : Uuid} (unknown : volume ∉ db.volumes.map Volume.id) :
    db.tree volume = { zones := [], entries := [] } := by
  have noZone : ∀ zone ∈ db.zoneNodes, zone.volumeId ≠ volume := by
    rintro zone member rfl
    exact unknown (keys.zone_volume zone member)
  have zones : db.zoneNodesOf volume = [] := by
    apply List.filter_eq_nil_iff.mpr
    intro zone member
    simpa using noZone zone member
  have entries : db.entriesOf volume = [] := by
    apply List.filter_eq_nil_iff.mpr
    intro entry member
    obtain ⟨zone, stored, -, same⟩ := keys.entry_zone entry member
    rw [← same]
    simpa using noZone zone stored
  unfold Database.tree
  rw [zones, entries]

theorem AllWellFormed.createVolume (keys : Keys db) (all : AllWellFormed db) {volumeId id : Uuid}
    {volumeName : Text} {now : Timestamp}
    (done : db.createVolume volumeId volumeName now = .ok (after, id)) : AllWellFormed after := by
  obtain ⟨fresh, inserted, zone, insertOk, rfl⟩ := createVolume_ok done
  obtain ⟨tables, shape, -⟩ := prepareContentVolume_eq inserted volumeId
  have volumes := volumes_insertZone insertOk
  rw [shape]
  intro view known
  change view ∈ inserted.volumes.map Volume.id at known
  rw [volumes, List.map_append, List.mem_append] at known
  change (inserted.tree view).WellFormed
  have tree := tree_insertZone insertOk view
  by_cases new : view = volumeId
  · subst new
    have unknown : view ∉ db.volumes.map Volume.id := by
      intro member
      obtain ⟨volume, stored, same⟩ := List.mem_map.mp member
      exact fresh volume stored same
    have before : Database.tree { db with
        volumes := db.volumes ++ [{ id := view, name := volumeName }] } view =
          { zones := [], entries := [] } := tree_of_unknown keys unknown
    rw [tree, before]
    simpa [rootZone] using rootZone_wellFormed view now db.nextNode
  · have old : view ∈ db.volumes.map Volume.id := by
      rcases known with old | added
      · exact old
      · exact absurd (List.mem_singleton.mp added) new
    have kept := all view old
    rw [tree]
    have none : [rootZone volumeId now db.nextNode].filter (fun zone => zone.volumeId = view) = [] := by
      apply List.filter_eq_nil_iff.mpr
      intro zone member
      rw [List.mem_singleton.mp member, decide_eq_true_eq]
      exact fun same => new same.symm
    change Tree.WellFormed { db.tree view with
      zones := (db.tree view).zones ++
        [rootZone volumeId now db.nextNode].filter (fun zone => zone.volumeId = view) }
    rw [none, List.append_nil]
    exact kept

/-- The condition under which a call keeps the rows one tree. Calls that are not named
keep it always. -/
def Op.KeepsTree (db : Database) : Op → Prop
  | .mkdirMany volume targetPaths parents _ => parents = false → ∀ path ∈ targetPaths,
      path ≠ ['/'] → ∀ zone ∈ (db.tree volume).zones, zone.path ≠ path
  | .writeFile volume targetPath _ _ _ =>
      targetPath ≠ ['/'] → ∀ zone ∈ (db.tree volume).zones, zone.path ≠ targetPath
  | .importText volume target _ _ =>
      target ≠ ['/'] → ∀ zone ∈ (db.tree volume).zones, zone.path ≠ target
  | .copy volume sourcePath _ recursive _ => ∀ location ∈ db.locateZone volume sourcePath,
      location.relativePath ≠ [] → recursive = true → (db.tree volume).EntriesExact location
  | .move volume sourcePath destinationPath _ | .moveCommand volume sourcePath destinationPath _ =>
      ∀ location ∈ db.locateZone volume sourcePath,
        MoveExact db volume sourcePath destinationPath location
  | .remove volume targetPath recursive => recursive = true →
      ∀ location ∈ db.locateZone volume targetPath,
        RemoveExact db volume targetPath recursive location
  | .removeMany volume targetPaths recursive _ =>
      recursive = true ∨ targetPaths.length ≠ 1 ∧ db.noZoneListed volume targetPaths = true →
        RemoveManyExact db volume targetPaths recursive
  | _ => True

theorem removeMany_plain_wellFormed {volume view : Uuid} {targetPaths : List Text}
    {forceMissing : Bool} {count : Nat} (sound : Sound db) (wellFormed : (db.tree view).WellFormed)
    (notBulk : ¬ (targetPaths.length ≠ 1 ∧ db.noZoneListed volume targetPaths = true))
    (done : db.removeMany volume targetPaths false forceMissing = .ok (after, count)) :
    (after.tree view).WellFormed := by
  refine (removeMany_invariant (fun state => Sound state ∧ (state.tree view).WellFormed) ?_ ?_
    ⟨sound, wellFormed⟩ done).2
  · intro state path next removed sofar removeOk
    exact ⟨(remove_kept (.refl sofar.1) removeOk).sound,
      remove_plain_wellFormed sofar.1 sofar.2 removeOk⟩
  · intro several noZone _
    have length : targetPaths.length ≠ 1 := by
      intro one
      obtain ⟨target, rfl⟩ := List.length_eq_one_iff.mp one
      exact several target rfl
    exact absurd ⟨length, noZone⟩ notBulk

/-- In a volume that is not there nothing is removed. -/
theorem removeMany_unknown_wellFormed {volume view : Uuid} {targetPaths : List Text}
    {recursive forceMissing : Bool} {count : Nat} (sound : Sound db)
    (wellFormed : (db.tree view).WellFormed) (unknown : volume ∉ db.volumes.map Volume.id)
    (done : db.removeMany volume targetPaths recursive forceMissing = .ok (after, count)) :
    (after.tree view).WellFormed := by
  have empty := tree_of_unknown sound.keys unknown
  have noZone : db.zonesOf volume = [] := by
    apply List.filter_eq_nil_iff.mpr
    intro zone member inVolume
    exact unknown (of_decide_eq_true inVolume ▸ sound.keys.zone_volume _ (List.mem_map_of_mem member))
  unfold Database.removeMany at done
  split at done
  · rename_i target
    obtain ⟨skipped, -, removing⟩ := bind_eq_ok.mp done
    split at removing
    · obtain ⟨rfl, -⟩ := Prod.mk.inj (Except.ok.inj removing)
      exact wellFormed
    · refine remove_wellFormed sound wellFormed ?_ removing
      intro location located
      obtain ⟨zone, member, -⟩ := locateZone_eq_some located
      rw [show db.zoneNodesOf volume = [] from congrArg Tree.zones empty] at member
      cases member
  · obtain ⟨cleanPaths, accepted, removing⟩ := bind_eq_ok.mp done
    rw [if_pos (by simp [noZone])] at removing
    refine removeBulk_wellFormed sound wellFormed ?_ removing
    intro entry member
    rw [empty] at member
    cases member

theorem AllWellFormed.of_volumes (all : AllWellFormed db) (volumes : after.volumes = db.volumes)
    (kept : ∀ view, (db.tree view).WellFormed → (after.tree view).WellFormed) :
    AllWellFormed after := by
  intro view known
  rw [volumes] at known
  exact kept view (all view known)

/-- What one call keeps. -/
theorem AllWellFormed.run {op : Op} (committed : Committed db) (all : AllWellFormed db)
    (allowed : op.KeepsTree db) (done : op.run db = .ok after) : AllWellFormed after := by
  have sound := committed.sound
  cases op with
  | createVolume volumeId volumeName now =>
      obtain ⟨⟨last, id⟩, ran, rfl⟩ := map_eq_ok.mp done
      exact all.createVolume sound.keys ran
  | mkdir volume targetPath parents mode now =>
      exact all.of_volumes (volumes_mkdir done) fun _ tree => mkdir_wellFormed sound tree done
  | mkdirMany volume targetPaths parents now =>
      exact all.of_volumes (volumes_mkdirMany done) fun _ tree =>
        mkdirMany_wellFormed sound tree allowed done
  | writeFile volume targetPath data mode now =>
      obtain ⟨⟨last, id⟩, ran, rfl⟩ := map_eq_ok.mp done
      exact all.of_volumes (volumes_writeFile committed ran) fun _ tree =>
        writeFile_wellFormed committed tree allowed ran
  | importTree volume destination entries now =>
      obtain ⟨⟨last, count⟩, ran, rfl⟩ := map_eq_ok.mp done
      exact all.of_volumes (volumes_importTree sound ran) fun _ tree =>
        importTree_wellFormed sound tree ran
  | importText volume target reader now =>
      obtain ⟨⟨last, id⟩, ran, rfl⟩ := map_eq_ok.mp done
      exact all.of_volumes (volumes_importText sound ran) fun _ tree =>
        importText_wellFormed sound tree allowed ran
  | copy volume sourcePath destinationPath recursive now =>
      obtain ⟨⟨last, count⟩, ran, rfl⟩ := map_eq_ok.mp done
      exact all.of_volumes (volumes_copy ran) fun _ tree => copy_wellFormed sound tree allowed ran
  | move volume sourcePath destinationPath now =>
      obtain ⟨⟨last, count⟩, ran, rfl⟩ := map_eq_ok.mp done
      obtain ⟨replaced, sourceLocation, parent, movable, relocated⟩ := move_ok ran
      exact all.of_volumes (relocated.volumes movable) fun _ tree =>
        move_wellFormed sound tree allowed ran
  | moveCommand volume sourcePath destinationPath now =>
      obtain ⟨⟨last, count⟩, ran, rfl⟩ := map_eq_ok.mp done
      obtain ⟨replaced, sourceLocation, parent, movable, relocated⟩ := moveCommand_ok ran
      exact all.of_volumes (relocated.volumes movable) fun _ tree =>
        moveCommand_wellFormed sound tree allowed ran
  | remove volume targetPath recursive =>
      obtain ⟨⟨last, count⟩, ran, rfl⟩ := map_eq_ok.mp done
      refine all.of_volumes (volumes_remove sound ran) fun _ tree => ?_
      cases recursive with
      | false => exact remove_plain_wellFormed sound tree ran
      | true => exact remove_wellFormed sound tree (allowed rfl) ran
  | removeMany volume targetPaths recursive forceMissing =>
      obtain ⟨⟨last, count⟩, ran, rfl⟩ := map_eq_ok.mp done
      intro view known
      have volumes := volumes_removeMany sound ran
      rw [volumes] at known
      have tree := all view known
      by_cases checked : recursive = true ∨
          targetPaths.length ≠ 1 ∧ db.noZoneListed volume targetPaths = true
      · by_cases own : volume ∈ db.volumes.map Volume.id
        · exact removeMany_wellFormed sound tree (all volume own) (allowed checked) ran
        · exact removeMany_unknown_wellFormed sound tree own ran
      · obtain ⟨plain, notBulk⟩ := not_or.mp checked
        rw [Bool.not_eq_true] at plain
        subst plain
        exact removeMany_plain_wellFormed sound tree notBulk ran
  | setTimes volume targetPath atimeSeconds atimeNanoseconds mtimeSeconds mtimeNanoseconds now =>
      obtain ⟨⟨last, rows⟩, ran, rfl⟩ := map_eq_ok.mp done
      exact all.of_volumes (volumes_setTimes ran) fun _ tree => setTimes_wellFormed tree ran

end Runs

theorem allWellFormed_of_guarded {db : Database}
    (run : Guarded Database.empty Step (fun before op => op.KeepsTree before) db) :
    AllWellFormed db := by
  have always : ∀ state, ReachableDatabase state → Committed state :=
    fun _ reached => committed_of_reachable reached
  refine Guarded.invariant always ?_ ?_ run
  · intro volume member
    cases member
  · intro before op after committed all allowed step
    unfold Step transact at step
    split at step
    · rename_i last ran
      have kept : AllWellFormed last := all.run committed allowed ran
      rw [step]
      exact kept
    · rw [step]
      exact all

/-- Where the condition holds at every call of a run, every volume is one tree in every state
that the run reaches. -/
theorem tree_consistent {db : Database}
    (run : Guarded Database.empty Step (fun before op => op.KeepsTree before) db) (volume : Uuid) :
    (db.tree volume).Consistent := by
  by_cases known : volume ∈ db.volumes.map Volume.id
  · exact (allWellFormed_of_guarded run volume known).consistent
  · have keys := (committed_of_reachable run.reachable).sound.keys
    rw [tree_of_unknown keys known]
    constructor <;> simp

/-- A directory is removed with what is in it. -/
theorem tree_consistent_of_removal :
    ((Database.empty.calls [.createVolume 7 ['v'] 0, .mkdir 7 ['/', 'd'] false 493 1,
      .mkdir 7 ['/', 'd', '/', 'x'] false 493 2,
      .removeMany 7 [['/', 'd']] true false]).tree 7).Consistent := by
  refine tree_consistent (.next (.removeMany 7 [['/', 'd']] true false) (.next
    (.mkdir 7 ['/', 'd', '/', 'x'] false 493 2) (.next (.mkdir 7 ['/', 'd'] false 493 1) (.next
      (.createVolume 7 ['v'] 0) .start trivial rfl) trivial rfl) trivial rfl) ?_ rfl) 7
  intro _
  decide +kernel

/-- Two directories of which the first is not empty, removed by one call. -/
def orphanCalls : List Op :=
  [.createVolume 7 ['v'] 0, .mkdir 7 ['/', 'a'] false 493 1,
    .mkdir 7 ['/', 'a', '/', 'x'] false 493 2, .mkdir 7 ['/', 'b'] false 493 3,
    .removeMany 7 [['/', 'a'], ['/', 'b']] true false]

theorem tree_not_consistent :
    ¬ ∀ db, ReachableDatabase db → ∀ volume, (db.tree volume).Consistent := by
  intro every
  have parents := fun entry member =>
    ((every _ (reachable_calls orphanCalls) 7).entry_parent entry member).2
  revert parents
  decide +kernel

end PostgreOS
