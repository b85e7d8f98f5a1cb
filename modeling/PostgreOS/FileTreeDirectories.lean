/-
Directories and times in the tree of files.

`mkdir` puts one directory at a vacant path, or all the missing ones on the way to a path;
`set_times` changes the times at a path. Both succeed exactly where the tree of files allows it.
-/

import PostgreOS.VolumeTree

namespace PostgreOS

open Library.Outcome Library.Segments Library.Table

section Directories

variable {db after : Database} {volume : Uuid} {names : List Text} {mode : Int} {now : Timestamp}

/-- A new row shows at its place what its columns say. -/
theorem view_insertChild (sound : Sound db) (before : (db.tree volume).WellFormed)
    (still : (after.tree volume).WellFormed) {path : Text} {location : Location} {zone : ZoneNode}
    {upper rest : List Text} {name : Text}
    (place : (db.tree volume).Place path location zone upper rest name)
    (free : db.kindOf volume path = none) {make : NodeId → ZoneEntry}
    (columns : ∀ serial, (make serial).volumeId = volume ∧ (make serial).zoneId = location.zoneId ∧
      (make serial).relativePath = (location.child (nameOf path)).relativePath)
    (inserted : db.insertEntries [make] = .ok after) :
    after.view volume = Function.update (db.view volume) (upper ++ (rest ++ [name]))
      (some (nodeOfEntry db.contentOf zone.path (make db.nextNode)).object) := by
  obtain ⟨-, -, relative⟩ := columns db.nextNode
  have inZone : location.zoneId = zone.id := congrArg Location.zoneId place.location_eq
  have spelled : (nodeOfEntry db.contentOf zone.path (make db.nextNode)).path =
      pathText (upper ++ (rest ++ [name])) := by
    rw [nodeOfEntry_path, relative, place.child_eq, place.zoneAt.path,
      absolutePath_texts place.zoneAt.valid place.valid]
  have added := mem_nodes_insertEntries sound.keys place.zoneAt.member (fun other member serial => by
    rw [List.mem_singleton.mp member]
    exact ⟨(columns serial).1, (columns serial).2.1.trans inZone⟩) inserted
  have canonical : CanonicalPath path := by
    rw [place.path_eq]
    exact canonicalPath_pathText place.components
  have absent := (kindOf_eq_none_iff_nodes before canonical).mp free
  refine view_update before still place.components spelled fun node => ?_
  rw [added, ← place.path_eq]
  simp only [numbered, List.map_cons, List.map_nil, List.mem_singleton]
  refine or_congr_left ?_
  exact (and_iff_left_of_imp fun member => absent node member).symm

theorem view_mkdirOne (sound : Sound db) (before : (db.tree volume).WellFormed)
    (valid : Components names)
    (done : db.mkdirOne volume (pathText names) mode now = .ok after) :
    after.view volume = (db.view volume).make names mode now := by
  unfold FileTree.make
  have still := mkdirOne_wellFormed sound before done
  obtain ⟨root, rfl⟩ | ⟨location, vacant, inserted⟩ := mkdirOne_ok done
  · rw [if_pos ((pathText_eq_root_iff valid).mp root)]
  · obtain ⟨zone, upper, rest, name, place, -⟩ := vacant.place before
    have same := pathText_injective valid place.components place.path_eq
    rw [if_neg (by rw [same]; simp), view_insertChild sound before still place vacant.free
      (fun _ => ⟨rfl, rfl, rfl⟩) inserted, ← same]
    rfl

theorem mkdirOne_allowed_iff (sound : Sound db) (before : (db.tree volume).WellFormed)
    (valid : Components names) (mode : Int) (now : Timestamp) :
    (∃ after, db.mkdirOne volume (pathText names) mode now = .ok after) ↔
      (db.view volume).CanMake names := by
  unfold FileTree.CanMake
  by_cases root : names = []
  · subst root
    exact iff_of_true ⟨db, rfl⟩ (Or.inl rfl)
  · rw [mkdirOne_exists_iff sound.keys before (canonicalPath_pathText valid)
      (pathText_ne_root valid root), or_iff_right root, vacant_iff before valid]

/-! ### The missing directories -/

theorem view_mkdirRound (sound : Sound db) (before : (db.tree volume).WellFormed)
    (valid : Components names) (inner : names ≠ [])
    (done : mkdirRound volume mode now (pathText names) db = .ok after) :
    after.view volume = if db.view volume names = none then
      Function.update (db.view volume) names (some (newObject .directory mode now))
    else db.view volume := by
  have free := view_eq_none_iff before valid
  unfold mkdirRound at done
  split at done
  · rename_i none
    rw [if_pos (free.mpr none), view_mkdirOne sound before valid done, FileTree.make, if_neg inner]
  · rename_i directory
    rw [directory] at free
    rw [if_neg (by simp [free]), Except.ok.inj done]
  · cases done

/-- The loop fills the gaps on its way. -/
theorem view_mkdirParents {front parts : List Text} (valid : Components (front ++ parts))
    (sound : Sound db) (before : (db.tree volume).WellFormed)
    (above : ∀ names, names <+: front → db.view volume names ≠ none)
    (done : mkdirParents volume mode now parts (render '/' front) db = .ok after) :
    after.view volume = (db.view volume).makeAll (front ++ parts) mode now := by
  induction parts generalizing front db with
  | nil =>
      obtain rfl := Except.ok.inj done
      funext names
      rw [FileTree.makeAll, List.append_nil]
      exact (if_neg fun missing => above names missing.1 missing.2).symm
  | cons part rest ih =>
      obtain ⟨later, canonical, -⟩ := components_step valid
      rw [mkdirParents_cons, bind_eq_ok, render_concat] at done
      obtain ⟨middle, round, remaining⟩ := done
      obtain ⟨-, middleSound, middleTree⟩ := mkdirRound_made sound before canonical round
      rw [← pathText_of_ne_nil (by simp)] at round
      have step := view_mkdirRound sound before later.left (by simp) round
      have here : middle.view volume (front ++ [part]) ≠ none := by
        rw [step]
        split
        · rw [Function.update_self]
          exact Option.some_ne_none _
        · assumption
      have elsewhere {names : List Text} (other : names ≠ front ++ [part]) :
          middle.view volume names = db.view volume names := by
        rw [step]
        split
        · rw [Function.update_of_ne other]
        · rfl
      rw [ih later middleSound middleTree ?_ remaining]
      · funext names
        rw [FileTree.makeAll, FileTree.makeAll, ← List.append_cons]
        by_cases same : names = front ++ [part]
        · rw [if_neg fun missing => here (same ▸ missing.2), same, step]
          by_cases free : db.view volume (front ++ [part]) = none
          · have onTheWay : front ++ [part] <+: front ++ part :: rest :=
              ⟨rest, (List.append_cons front part rest).symm⟩
            rw [if_pos free, Function.update_self, if_pos ⟨onTheWay, free⟩]
          · rw [if_neg free, if_neg fun missing => free missing.2]
        · rw [elsewhere same]
      · intro names inside
        by_cases same : names = front ++ [part]
        · rw [same]
          exact here
        · rw [elsewhere same]
          exact above names ((List.prefix_concat_iff.mp inside).resolve_left same)

theorem view_mkdir {parents : Bool} (sound : Sound db) (before : (db.tree volume).WellFormed)
    (valid : Components names)
    (done : db.mkdir volume (pathText names) parents mode now = .ok after) :
    after.view volume = if parents = true then (db.view volume).makeAll names mode now
      else (db.view volume).make names mode now := by
  cases parents with
  | true =>
      rw [mkdir_parents_eq valid, ← render_nil '/'] at done
      have all := view_mkdirParents (show Components ([] ++ names) from valid) sound before ?_ done
      · exact all
      · intro front root
        rw [List.prefix_nil.mp root]
        obtain ⟨object, found, -⟩ := view_root before
        rw [found]
        exact Option.some_ne_none object
  | false =>
      refine view_mkdirOne sound before valid ?_
      unfold Database.mkdir at done
      rw [assertPath_of_canonical (canonicalPath_pathText valid), ok_bind] at done
      split at done
      · rename_i root
        unfold Database.mkdirOne
        rw [assertPath_of_canonical (canonicalPath_pathText valid), ok_bind, if_pos root]
        exact done
      · exact done

theorem mkdir_allowed_iff {parents : Bool} (sound : Sound db)
    (before : (db.tree volume).WellFormed) (valid : Components names) (mode : Int)
    (now : Timestamp) :
    (∃ after, db.mkdir volume (pathText names) parents mode now = .ok after) ↔
      if parents = true then (db.view volume).CanMakeAll names else (db.view volume).CanMake names := by
  cases parents with
  | true =>
      have rooted : Components ([] ++ names) := valid
      have loop := mkdirParents_exists_iff rooted sound before (kindOf_root before) mode now
      rw [render_nil] at loop
      rw [mkdir_parents_eq valid, loop, if_pos rfl]
      constructor
      · intro clear front isPrefix object found
        have frontValid := valid.of_prefix isPrefix
        by_cases root : front = []
        · subst root
          obtain ⟨other, same, directory⟩ := view_root before
          rw [found] at same
          rwa [Option.some.inj same]
        · refine (Body.kind_eq_directory_iff _).mp (clear (pathText front) ?_ _ ?_)
          · exact (@mem_loopPaths_iff (pathText front) [] names).mpr ⟨front, root, isPrefix, rfl⟩
          · rw [kindOf_view before frontValid, found, Option.map_some]
      · intro clear path inLoop kind found
        obtain ⟨front, -, isPrefix, rfl⟩ := (@mem_loopPaths_iff path [] names).mp inLoop
        rw [List.nil_append, kindOf_view before (valid.of_prefix isPrefix)] at found
        obtain ⟨object, present, rfl⟩ := Option.map_eq_some_iff.mp found
        exact (Body.kind_eq_directory_iff _).mpr (clear front isPrefix object present)
  | false =>
      rw [if_neg (by decide), ← mkdirOne_allowed_iff sound before valid mode now]
      unfold Database.mkdir Database.mkdirOne
      rw [assertPath_of_canonical (canonicalPath_pathText valid), ok_bind, ok_bind]
      split
      · rfl
      · rename_i inner
        rw [if_neg (by decide), assertPath_of_canonical (canonicalPath_pathText valid), ok_bind,
          if_neg inner]

end Directories

/-! ### Times -/

theorem update_map_eq (tree : FileTree) (path : List Text) (change : Object → Object) :
    Function.update tree path ((tree path).map change) =
      fun names => (tree names).map fun object => if names = path then change object else object := by
  funext names
  by_cases here : names = path
  · subst here
    simp
  · rw [Function.update_of_ne here]
    simp [here]

section Times

variable {db after : Database} {volume : Uuid} {names : List Text} {now : Timestamp}
  {atimeSeconds atimeNanoseconds mtimeSeconds mtimeNanoseconds : Int} {rows : List Inode}

/-- The row that the call touches is that of a zone or that of an entry. -/
theorem setTimes_changes {targetPath : Text}
    (done : db.setTimes volume targetPath atimeSeconds atimeNanoseconds mtimeSeconds
      mtimeNanoseconds now = .ok (after, rows)) :
    let atTimes := fun metadata : Metadata => metadata.touched
      (timestampOf atimeSeconds atimeNanoseconds) (timestampOf mtimeSeconds mtimeNanoseconds) now
    FileTree.CanTouch atimeSeconds atimeNanoseconds mtimeSeconds mtimeNanoseconds ∧
    ∃ location, db.locateZone volume targetPath = some location ∧
      (location.relativePath = [] ∧ db.updateZones
          (fun zone => decide (zone.volumeId = volume ∧ zone.id = location.zoneId))
          (fun zone => { zone with metadata := atTimes zone.metadata }) = .ok after ∨
        location.relativePath ≠ [] ∧ db.updateEntries (atLocation volume location)
          (fun entry => { entry with metadata := atTimes entry.metadata }) = .ok after) := by
  unfold Database.setTimes at done
  obtain ⟨atime, accessOk, modifying⟩ := bind_eq_ok.mp done
  obtain ⟨mtime, modificationOk, checking⟩ := bind_eq_ok.mp modifying
  split at checking
  · cases checking
  · rename_i inRange
    rw [not_or, not_not, not_not] at inRange
    obtain ⟨cleanPath, accepted, checked⟩ := bind_eq_ok.mp checking
    obtain ⟨rfl, -⟩ := assertPath_eq_ok accepted
    obtain ⟨location, located, changed⟩ := bind_eq_ok.mp checked
    refine ⟨⟨⟨atime, accessOk⟩, ⟨mtime, modificationOk⟩, inRange⟩, location,
      strict_eq_ok.mp located, ?_⟩
    rw [← toTimestamp_eq_ok accessOk, ← toTimestamp_eq_ok modificationOk]
    split at changed
    · rename_i isZone
      obtain ⟨updated, updateOk, shown⟩ := bind_eq_ok.mp changed
      obtain ⟨found, -, same⟩ := bind_eq_ok.mp shown
      obtain ⟨rfl, -⟩ := Prod.mk.inj (Except.ok.inj same)
      exact Or.inl ⟨isZone, updateOk⟩
    · rename_i isEntry
      obtain ⟨updated, updateOk, shown⟩ := bind_eq_ok.mp changed
      obtain ⟨found, -, same⟩ := bind_eq_ok.mp shown
      obtain ⟨rfl, -⟩ := Prod.mk.inj (Except.ok.inj same)
      exact Or.inr ⟨isEntry, updateOk⟩

section Place

variable {zone : ZoneNode} {front rest : List Text} (before : (db.tree volume).WellFormed)
  (still : (after.tree volume).WellFormed)

include before still

/-- A change of the metadata of a zone shows at its path only. -/
theorem view_updateZone (change : Metadata → Metadata)
    (zoneAt : (db.tree volume).ZoneAt zone front) {touched : Object → Object}
    (shows : ∀ zone : ZoneNode, (nodeOfZone { zone with metadata := change zone.metadata }).object =
      touched (nodeOfZone zone).object)
    (updated : db.updateZones (fun other => decide (other.volumeId = volume ∧ other.id = zone.id))
      (fun other => { other with metadata := change other.metadata }) = .ok after) :
    after.view volume = Function.update (db.view volume) front
      ((db.view volume front).map touched) := by
  have contents : after.contentOf = db.contentOf := by
    rw [(updateZones_ok updated).1]
    rfl
  have tree := tree_updateZones
    (fun other => decide (other.volumeId = volume ∧ other.id = zone.id))
    (fun other => { other with metadata := change other.metadata })
    (fun _ => rfl) (fun _ => rfl) updated volume
  have mapped : after.tree volume = _ := tree.trans (congrArg (Tree.mk _) (List.map_id _).symm)
  rw [update_map_eq]
  refine view_mapped before still mapped ?_ (fun _ => ⟨rfl, rfl⟩) ?_ ?_
  · intro other
    unfold rewritten
    split <;> exact ⟨rfl, rfl⟩
  · intro other upper otherAt
    by_cases same : upper = front
    · obtain rfl := before.zoneAt_unique (same ▸ otherAt) zoneAt
      rw [if_pos same, rewritten_of_selected]
      · exact shows other
      · exact decide_eq_true ⟨(mem_tree_zones.mp otherAt.member).2, rfl⟩
    · have different : other.id ≠ zone.id := by
        intro sameId
        obtain rfl := before.zone_ids other otherAt.member zone zoneAt.member sameId
        exact same (otherAt.names_unique zoneAt)
      rw [if_neg same, rewritten_of_not_selected]
      exact decide_eq_false fun chosen => different chosen.2
  · intro owner entry upper inner found
    rw [contents, if_neg]
    · rfl
    · intro same
      exact before.not_zoneAt_of_entryAt found zoneAt same.symm

/-- A change of an entry at its place shows at its path only. -/
theorem view_updateEntry {location : Location} (valid : Components names)
    (located : (db.tree volume).Located names zone front rest) (inner : rest ≠ [])
    (place : location.zoneId = zone.id ∧ location.relativePath = relativeText rest)
    {changeEntry : ZoneEntry → ZoneEntry} {touched : Object → Object}
    (columns : ∀ entry, (changeEntry entry).volumeId = entry.volumeId ∧
      (changeEntry entry).zoneId = entry.zoneId ∧
      (changeEntry entry).relativePath = entry.relativePath)
    (shows : ∀ entry, (db.tree volume).EntryAt zone entry front rest →
      (nodeOfEntry db.contentOf zone.path (changeEntry entry)).object =
        touched (nodeOfEntry db.contentOf zone.path entry).object)
    (updated : db.updateEntries (atLocation volume location) changeEntry = .ok after) :
    after.view volume = Function.update (db.view volume) names
      ((db.view volume names).map touched) := by
  have contents : after.contentOf = db.contentOf := by
    rw [(updateEntries_ok updated).1]
    rfl
  have tree := tree_updateEntries (fun entry _ _ => (columns entry).1) updated volume
  have mapped : after.tree volume = _ := tree.trans
    (congrArg (fun zones => Tree.mk zones _) (List.map_id _).symm)
  rw [update_map_eq]
  refine view_mapped before still mapped (fun _ => ⟨rfl, rfl⟩) ?_ ?_ ?_
  · intro entry
    unfold rewritten
    split
    · exact (columns entry).2
    · exact ⟨rfl, rfl⟩
  · intro other upper otherAt
    rw [if_neg]
    · rfl
    · rintro rfl
      have shorter := (located.deepest other upper otherAt (List.prefix_refl upper)).length_le
      have longer := congrArg List.length located.names_eq
      rw [List.length_append] at longer
      have positive := List.length_pos_of_ne_nil inner
      omega
  · intro owner entry upper inside found
    have inVolume := (mem_tree_entries.mp found.member).2
    rw [contents]
    by_cases here : upper ++ inside = names
    · subst here
      obtain ⟨rfl, rfl, rfl⟩ := before.located_unique (before.located_of_entryAt found) located
      rw [if_pos rfl, rewritten_of_selected]
      · exact shows entry found
      · exact atLocation_iff.mpr ⟨inVolume, found.inZone.trans place.1.symm,
          found.path.trans place.2.symm⟩
    · rw [if_neg here, rewritten_of_not_selected]
      rw [Bool.eq_false_iff]
      intro chosen
      obtain ⟨-, inZone, path⟩ := atLocation_iff.mp chosen
      obtain rfl := before.zone_ids owner found.zoneAt.member zone located.zoneAt.member
        (found.inZone.symm.trans (inZone.trans place.1))
      obtain rfl := found.zoneAt.names_unique located.zoneAt
      apply here
      rw [located.names_eq, relativeText_injective found.valid (located.components valid)
        (found.path.symm.trans (path.trans place.2))]

end Place

theorem view_setTimes (before : (db.tree volume).WellFormed) (valid : Components names)
    (done : db.setTimes volume (pathText names) atimeSeconds atimeNanoseconds mtimeSeconds
      mtimeNanoseconds now = .ok (after, rows)) :
    after.view volume = (db.view volume).touch names (timestampOf atimeSeconds atimeNanoseconds)
      (timestampOf mtimeSeconds mtimeNanoseconds) := by
  have still := setTimes_wellFormed before done
  obtain ⟨zone, front, rest, found⟩ := before.located_exists valid
  obtain ⟨-, location, located, branch⟩ := setTimes_changes done
  rw [locateZone_of_located before valid found] at located
  obtain rfl := Option.some.inj located
  have top := relativeText_eq_nil_iff (found.components valid)
  rcases branch with ⟨isZone, updated⟩ | ⟨isEntry, updated⟩
  · have namesEq := found.names_eq
    rw [top.mp isZone, List.append_nil] at namesEq
    rw [namesEq]
    refine view_updateZone before still (fun metadata => metadata.touched
      (timestampOf atimeSeconds atimeNanoseconds) (timestampOf mtimeSeconds mtimeNanoseconds) now)
      found.zoneAt ?_ updated
    exact fun _ => rfl
  · refine view_updateEntry before still valid found (fun empty => isEntry (top.mpr empty))
      ⟨rfl, rfl⟩ ?_ ?_ updated
    · exact fun _ => ⟨rfl, rfl, rfl⟩
    · exact fun _ _ => rfl

theorem stat_exists (before : (db.tree volume).WellFormed) (valid : Components names) :
    ∃ rows, db.stat volume (pathText names) = .ok rows := by
  obtain ⟨zone, front, rest, found⟩ := before.located_exists valid
  unfold Database.stat
  rw [assertPath_of_canonical (canonicalPath_pathText valid), ok_bind,
    locateZone_of_located before valid found, strict, ok_bind]
  split <;> exact ⟨_, rfl⟩

theorem updateZones_metadata (keys : Keys db) (before : (db.tree volume).WellFormed)
    (zoneId : NodeId) (change : Metadata → Metadata) :
    ∃ after, db.updateZones (fun other => decide (other.volumeId = volume ∧ other.id = zoneId))
        (fun other => { other with metadata := change other.metadata }) = .ok after ∧
      (after.tree volume).WellFormed := by
  obtain ⟨after, updated⟩ := updateZones_of_same_keys db
    (fun other => decide (other.volumeId = volume ∧ other.id = zoneId))
    (fun other => { other with metadata := change other.metadata })
    keys.zones_distinct (fun _ _ _ _ => rfl)
  have tree := tree_updateZones (fun other => decide (other.volumeId = volume ∧ other.id = zoneId))
    (fun other => { other with metadata := change other.metadata })
    (fun _ => rfl) (fun _ => rfl) updated volume
  have kept := before.map
    (rewritten (fun other => decide (other.volumeId = volume ∧ other.id = zoneId))
      (fun other => { other with metadata := change other.metadata })) id ?_
    (fun entry _ => ⟨rfl, rfl, rfl, rfl, rfl⟩)
  · rw [List.map_id] at kept
    exact ⟨after, updated, tree ▸ kept⟩
  · intro zone _
    unfold rewritten
    split <;> exact ⟨rfl, rfl, rfl, rfl⟩

theorem updateEntries_metadata (keys : Keys db) (before : (db.tree volume).WellFormed)
    (location : Location) (change : Metadata → Metadata) :
    ∃ after, db.updateEntries (atLocation volume location)
        (fun entry => { entry with metadata := change entry.metadata }) = .ok after ∧
      (after.tree volume).WellFormed := by
  obtain ⟨after, updated⟩ := updateEntries_of_same_keys db (atLocation volume location)
    (fun entry => { entry with metadata := change entry.metadata })
    keys.entries_distinct (fun _ _ _ _ => rfl)
  refine ⟨after, updated, updateEntries_wellFormed before ?_ updated⟩
  exact fun _ _ _ => ⟨rfl, fun _ => ⟨rfl, rfl, rfl, rfl, rfl⟩⟩

theorem setTimes_allowed_iff (keys : Keys db) (before : (db.tree volume).WellFormed)
    (valid : Components names) (atimeSeconds mtimeSeconds : Int) (now : Timestamp) :
    (∃ result, db.setTimes volume (pathText names) atimeSeconds atimeNanoseconds mtimeSeconds
      mtimeNanoseconds now = .ok result) ↔
        FileTree.CanTouch atimeSeconds atimeNanoseconds mtimeSeconds mtimeNanoseconds := by
  constructor
  · rintro ⟨⟨after, rows⟩, done⟩
    exact (setTimes_changes done).1
  · rintro ⟨⟨atime, accessOk⟩, ⟨mtime, modificationOk⟩, access, modification⟩
    obtain ⟨zone, front, rest, found⟩ := before.located_exists valid
    have located := locateZone_of_located before valid found
    unfold Database.setTimes
    rw [accessOk, ok_bind, modificationOk, ok_bind, if_neg (by simp [access, modification]),
      assertPath_of_canonical (canonicalPath_pathText valid), ok_bind, located, strict, ok_bind]
    dsimp only
    split
    · obtain ⟨after, updated, still⟩ := updateZones_metadata keys before zone.id fun metadata =>
        metadata.touched atime mtime now
      obtain ⟨rows, stated⟩ := stat_exists still valid
      rw [updated, ok_bind, stated, ok_bind]
      exact ⟨_, rfl⟩
    · obtain ⟨after, updated, still⟩ := updateEntries_metadata keys before
        { zoneId := zone.id, zonePath := zone.path, relativePath := relativeText rest }
        fun metadata => metadata.touched atime mtime now
      obtain ⟨rows, stated⟩ := stat_exists still valid
      rw [updated, ok_bind, stated, ok_bind]
      exact ⟨_, rfl⟩

end Times

end PostgreOS
