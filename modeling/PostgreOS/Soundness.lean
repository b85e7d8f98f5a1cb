/-
Every operation keeps the keys, the counters and the content store.

A transaction may add objects and drop those that no entry refers to; an object that
was there before and that an entry still refers to keeps its blocks.
-/

import PostgreOS.Blockizing
import PostgreOS.Run
import PostgreOS.Tree

namespace PostgreOS

open Library.LineBlocks Library.LikePattern Library.Outcome Library.Table Library.Transition

/-- What a transaction that began in `base` has kept when it is in `db`. -/
structure Kept (base db : Database) : Prop where
  sound : Sound db
  nextUuid : base.nextUuid ≤ db.nextUuid
  references : ∀ entry ∈ db.zoneEntries, ∀ object < base.nextUuid,
    entry.contentObject = some object → ∃ old ∈ base.zoneEntries, old.contentObject = some object
  blocks : ∀ entry ∈ db.zoneEntries, ∀ object < base.nextUuid,
    entry.contentObject = some object → db.blockRows object = base.blockRows object

/-- An entry that refers to an object refers to one of `entries`' objects. -/
def SharesObject (base : Database) (entries : List ZoneEntry) (entry : ZoneEntry) : Prop :=
  ∀ object < base.nextUuid, entry.contentObject = some object →
    ∃ old ∈ entries, old.contentObject = some object

section Statements

variable {base db after : Database}

theorem Kept.refl (sound : Sound db) : Kept db db where
  sound := sound
  nextUuid := Nat.le_refl _
  references := fun entry member _ _ refers => ⟨entry, member, refers⟩
  blocks := fun _ _ _ _ _ => rfl

/-- Two databases with the same content store. -/
structure SameStore (db after : Database) : Prop where
  objects : after.contentObjects = db.contentObjects
  segments : after.contentSegments = db.contentSegments
  plain : after.contentBlocks = db.contentBlocks
  bulk : after.bulkContentBlocks = db.bulkContentBlocks
  tables : after.segmentTables = db.segmentTables
  staging : after.stagingSchemas = db.stagingSchemas
  nextUuid : after.nextUuid = db.nextUuid

theorem SameStore.trans {middle : Database} (first : SameStore db middle)
    (second : SameStore middle after) : SameStore db after where
  objects := second.objects.trans first.objects
  segments := second.segments.trans first.segments
  plain := second.plain.trans first.plain
  bulk := second.bulk.trans first.bulk
  tables := second.tables.trans first.tables
  staging := second.staging.trans first.staging
  nextUuid := second.nextUuid.trans first.nextUuid

theorem SameStore.blockRows (same : SameStore db after) (object : Uuid) :
    after.blockRows object = db.blockRows object := by
  unfold Database.blockRows Database.allContentBlocks
  rw [same.plain, same.bulk]

theorem SameStore.storeSound (same : SameStore db after) (sound : StoreSound db) :
    StoreSound after := by
  have blocks : ∀ object, ObjectBlocks after object ↔ ObjectBlocks db object := by
    intro object
    unfold ObjectBlocks
    rw [same.blockRows]
  constructor
  · rw [same.objects]
    exact sound.object_ids
  · rw [same.objects, same.nextUuid]
    exact sound.object_bound
  · rw [same.objects, same.segments]
    exact sound.object_segment
  · rw [same.objects]
    exact fun object member => (blocks object).mpr (sound.object_blocks object member)
  · rw [same.plain, same.objects]
    exact sound.block_object
  · rw [same.bulk, same.objects]
    exact sound.bulk_object
  · rw [same.segments]
    exact sound.segment_ids
  · rw [same.segments, same.nextUuid]
    exact sound.segment_bound
  · rw [same.segments]
    exact sound.segment_published
  · rw [same.segments, same.tables]
    exact sound.segment_tables
  · rw [same.staging, same.nextUuid]
    exact sound.staging_bound

/-- A statement on the zones or the entries leaves the store alone; it keeps what it has
to if its entries refer to no foreign objects. -/
theorem Kept.of_sameStore (kept : Kept base db) (same : SameStore db after) (keys : Keys after)
    (accounts : Accounts after)
    (entries : ∀ entry ∈ after.zoneEntries, Stored db.contentObjects entry ∧
      SharesObject base db.zoneEntries entry) :
    Kept base after where
  sound := ⟨keys, accounts, same.storeSound kept.sound.store,
    fun entry member => same.objects ▸ (entries entry member).1⟩
  nextUuid := same.nextUuid.symm ▸ kept.nextUuid
  references := by
    intro entry member object old refers
    obtain ⟨middle, middleMember, middleRefers⟩ := (entries entry member).2 object old refers
    exact kept.references middle middleMember object old middleRefers
  blocks := by
    intro entry member object old refers
    obtain ⟨middle, middleMember, middleRefers⟩ := (entries entry member).2 object old refers
    rw [← kept.blocks middle middleMember object old middleRefers]
    exact same.blockRows object

theorem Kept.entry (kept : Kept base db) {entry : ZoneEntry} (member : entry ∈ db.zoneEntries) :
    Stored db.contentObjects entry ∧ SharesObject base db.zoneEntries entry :=
  ⟨kept.sound.stored entry member, fun _ _ refers => ⟨entry, member, refers⟩⟩

theorem Kept.insertEntries {makers : List (NodeId → ZoneEntry)} (kept : Kept base db)
    (ids : ∀ make ∈ makers, ∀ serial, (make serial).id = serial)
    (inZone : ∀ make ∈ makers, ∀ serial, InStoredZone db.zoneNodes (make serial))
    (content : ∀ make ∈ makers, ∀ serial, Stored db.contentObjects (make serial) ∧
      SharesObject base db.zoneEntries (make serial))
    (inserted : db.insertEntries makers = .ok after) : Kept base after := by
  have keys := kept.sound.keys.insertEntries ids inZone inserted
  have accounts := kept.sound.accounts.insertEntries inserted
  obtain ⟨rfl, -⟩ := insertEntries_ok inserted
  refine kept.of_sameStore ⟨rfl, rfl, rfl, rfl, rfl, rfl, rfl⟩ keys accounts ?_
  intro entry member
  rcases List.mem_append.mp member with old | new
  · exact kept.entry old
  · obtain ⟨make, makeMember, serial, -, -, rfl⟩ := mem_numbered new
    exact content make makeMember serial

theorem Kept.deleteEntries (kept : Kept base db) (selected : ZoneEntry → Bool) :
    Kept base (db.deleteEntries selected) :=
  kept.of_sameStore ⟨rfl, rfl, rfl, rfl, rfl, rfl, rfl⟩ (kept.sound.keys.deleteEntries selected)
    (kept.sound.accounts.deleteEntries selected)
    fun _ member => kept.entry (List.mem_of_mem_filter member)

theorem Kept.updateEntries {selected : ZoneEntry → Bool} {change : ZoneEntry → ZoneEntry}
    (kept : Kept base db)
    (rows : ∀ entry ∈ db.zoneEntries, selected entry = true →
      (change entry).id = entry.id ∧ InStoredZone db.zoneNodes (change entry) ∧
      Stored db.contentObjects (change entry) ∧
      SharesObject base db.zoneEntries (change entry))
    (updated : db.updateEntries selected change = .ok after) : Kept base after := by
  have keys := kept.sound.keys.updateEntries (fun entry member chosen =>
    (rows entry member chosen).1) (fun entry member chosen => (rows entry member chosen).2.1)
    updated
  have accounts := kept.sound.accounts.updateEntries updated
  obtain ⟨rfl, -⟩ := updateEntries_ok updated
  refine kept.of_sameStore ⟨rfl, rfl, rfl, rfl, rfl, rfl, rfl⟩ keys accounts ?_
  intro changed member
  obtain ⟨entry, entryMember, rfl⟩ := List.mem_map.mp member
  cases chosen : selected entry with
  | false =>
      rw [rewritten_of_not_selected chosen]
      exact kept.entry entryMember
  | true =>
      rw [rewritten_of_selected chosen]
      exact (rows entry entryMember chosen).2.2

theorem Kept.insertZone {make : NodeId → ZoneNode} {id : NodeId} (kept : Kept base db)
    (ids : ∀ serial, (make serial).id = serial) (path : ∀ serial, ZonePath (make serial).path)
    (inserted : db.insertZone make = .ok (after, id)) : Kept base after := by
  have keys := kept.sound.keys.insertZone ids path inserted
  have accounts := kept.sound.accounts.insertZone (fun _ => kept.sound.keys.entry_zone_bound) ids
    inserted
  obtain ⟨rfl, -⟩ := insertZone_ok inserted
  exact kept.of_sameStore ⟨rfl, rfl, rfl, rfl, rfl, rfl, rfl⟩ keys accounts fun _ => kept.entry

theorem Kept.deleteZones {selected : Zone → Bool} (kept : Kept base db)
    (empty : ∀ zone ∈ db.zones, selected zone = true → ∀ entry ∈ db.zoneEntries,
      entry.zoneId ≠ zone.id)
    (root : ∀ zone ∈ db.zones, selected zone = true → zone.path ≠ ['/']) :
    Kept base (db.deleteZones selected) :=
  kept.of_sameStore ⟨rfl, rfl, rfl, rfl, rfl, rfl, rfl⟩ (kept.sound.keys.deleteZones empty root)
    (kept.sound.accounts.deleteZones selected) fun _ => kept.entry

theorem Kept.updateZones {selected : Zone → Bool} {change : Zone → Zone} (kept : Kept base db)
    (rows : ∀ zone ∈ db.zones, selected zone = true →
      (change zone).id = zone.id ∧ (change zone).volumeId = zone.volumeId ∧
        (change zone).entryCount = zone.entryCount ∧ (change zone).fileBytes = zone.fileBytes)
    (paths : ∀ zone ∈ db.zones, selected zone = true →
      ZonePath (change zone).path ∧ (zone.path = ['/'] → (change zone).path = ['/']))
    (updated : db.updateZones selected change = .ok after) : Kept base after := by
  have keys := kept.sound.keys.updateZones (fun zone member chosen => (rows zone member chosen).1)
    (fun zone member chosen => (rows zone member chosen).2.1) paths updated
  have accounts := kept.sound.accounts.updateZones rows updated
  obtain ⟨rfl, -⟩ := updateZones_ok updated
  exact kept.of_sameStore ⟨rfl, rfl, rfl, rfl, rfl, rfl, rfl⟩ keys accounts fun _ => kept.entry

theorem Kept.blockized {volume : Uuid} {zone : NodeId} {change : ZoneEntry → ZoneEntry}
    (kept : Kept base db) (blockized : Blockized db after volume zone change) :
    Kept base after := by
  have shares : ∀ entry ∈ after.zoneEntries, SharesObject base db.zoneEntries entry := by
    rw [blockized.zoneEntries]
    intro changed member object old refers
    obtain ⟨entry, entryMember, rfl⟩ := List.mem_map.mp member
    cases inline : inlineText volume zone entry with
    | false =>
        rw [blockized.kept entry entryMember inline] at refers
        exact ⟨entry, entryMember, refers⟩
    | true =>
        obtain ⟨fresh, bound, same⟩ := blockized.moved entry entryMember inline
        rw [same] at refers
        have same : fresh = object := Option.some.inj refers
        rw [same] at bound
        exact absurd (Nat.lt_of_lt_of_le old kept.nextUuid) (Nat.not_lt.mpr bound)
  refine
    { sound := blockized.sound
      nextUuid := Nat.le_trans kept.nextUuid blockized.nextUuid
      references := ?_
      blocks := ?_ }
  · intro entry member object old refers
    obtain ⟨middle, middleMember, middleRefers⟩ := shares entry member object old refers
    exact kept.references middle middleMember object old middleRefers
  · intro entry member object old refers
    obtain ⟨middle, middleMember, middleRefers⟩ := shares entry member object old refers
    rw [← kept.blocks middle middleMember object old middleRefers]
    exact blockized.blocks object (Nat.lt_of_lt_of_le old kept.nextUuid)

theorem Kept.reclaimed (kept : Kept base db) (reclaimed : Reclaimed db after) :
    Kept base after where
  sound := ⟨kept.sound.keys.congr reclaimed.tables, kept.sound.accounts.congr reclaimed.tables,
    reclaimed.store, reclaimed.stored⟩
  nextUuid := reclaimed.nextUuid.symm ▸ kept.nextUuid
  references := by
    rw [reclaimed.tables.zoneEntries]
    exact kept.references
  blocks := by
    rw [reclaimed.tables.zoneEntries]
    intro entry member object old refers
    rw [← kept.blocks entry member object old refers]
    exact reclaimed.blocks entry member object refers

theorem Kept.reclaim {volume : Uuid} (kept : Kept base db)
    (reclaimed : db.reclaimContentSegments volume = .ok after) : Kept base after :=
  kept.reclaimed (.of_reclaim kept.sound.store kept.sound.stored reclaimed)

end Statements

/-! ### Operations -/

theorem inStoredZone_of_located {db : Database} {volume : Uuid} {target : Text}
    {location : Location} (located : db.locateZone volume target = some location)
    {entry : ZoneEntry} (inZone : entry.zoneId = location.zoneId)
    (inVolume : entry.volumeId = volume) : InStoredZone db.zoneNodes entry := by
  obtain ⟨zone, member, -, -, rfl⟩ := locateZone_eq_some located
  obtain ⟨stored, zoneVolume⟩ := mem_tree_zones.mp member
  exact ⟨zone, stored, inZone.symm, zoneVolume.trans inVolume.symm⟩

theorem inStoredZone_of_parent {db : Database} {volume : Uuid} {path : Text}
    {parent : Location} (located : db.locateParent volume path = some parent)
    {entry : ZoneEntry} (inZone : entry.zoneId = parent.zoneId)
    (inVolume : entry.volumeId = volume) : InStoredZone db.zoneNodes entry := by
  obtain ⟨above, -, found⟩ := Option.bind_eq_some_iff.mp located
  exact inStoredZone_of_located found inZone inVolume

theorem located_of_zone_path {db : Database} {volume : Uuid} {target : Text} {location : Location}
    (keys : Keys db) (canonical : CanonicalPath target)
    (located : db.locateZone volume target = some location) {zone : ZoneNode}
    (stored : zone ∈ db.zoneNodes) (inVolume : zone.volumeId = volume)
    (path : zone.path = target) : zone.id = location.zoneId := by
  obtain ⟨names, valid, rfl⟩ := (canonicalPath_iff target).mp canonical
  obtain ⟨node, member, above, longest, rfl⟩ := locateZone_eq_some located
  obtain ⟨nodeStored, nodeVolume⟩ := mem_tree_zones.mp member
  have itself : zone.path ∈ ancestorPaths (pathText names) :=
    (mem_ancestorPaths_iff valid _).mpr ⟨names, List.prefix_refl names, path⟩
  have atLeast := longest zone (mem_tree_zones.mpr ⟨stored, inVolume⟩) itself
  obtain ⟨front, ⟨rest, rfl⟩, nodePath⟩ := (mem_ancestorPaths_iff valid _).mp above
  have deepest : rest = [] := by
    by_contra longer
    have shorter := pathText_length_lt front valid.right longer
    rw [path, nodePath] at atLeast
    omega
  have samePath : zone.path = node.path := by rw [path, nodePath, deepest, List.append_nil]
  rw [keys.zone_eq_of_path stored nodeStored (inVolume.trans nodeVolume.symm) samePath]

/-- A free path lies in the zone of its parent. -/
theorem zoneId_of_vacant {db : Database} {volume : Uuid} {path : Text} {parent location : Location}
    (keys : Keys db) (vacant : Vacant db volume path parent)
    (located : db.locateZone volume path = some location) : location.zoneId = parent.zoneId := by
  obtain ⟨names, valid, rfl⟩ := (canonicalPath_iff path).mp vacant.canonical
  obtain ⟨above, parentPath, parentLocated⟩ := Option.bind_eq_some_iff.mp vacant.located
  have free := vacant.free
  cases names using List.reverseRecOn with
  | nil => cases parentPath
  | append_singleton front name _ =>
      obtain rfl := Option.some.inj ((parentOf_pathText valid).symm.trans parentPath)
      obtain ⟨zone, member, zoneAbove, longest, rfl⟩ := locateZone_eq_some located
      obtain ⟨owner, ownerMember, ownerAbove, ownerLongest, rfl⟩ := locateZone_eq_some parentLocated
      obtain ⟨upper, ⟨rest, split⟩, zonePath⟩ := (mem_ancestorPaths_iff valid _).mp zoneAbove
      obtain ⟨ownerUpper, ownerPrefix, ownerPath⟩ :=
        (mem_ancestorPaths_iff valid.left _).mp ownerAbove
      -- The zone is not at the path itself, so its path is one of those above the parent.
      have zonePrefix : upper <+: front := by
        cases rest using List.reverseRecOn with
        | nil =>
            rw [List.append_nil] at split
            rw [Database.kindOf, located, zonePath, split] at free
            dsimp only [relativeIn] at free
            rw [if_pos rfl, if_pos rfl] at free
            cases free
        | append_singleton lower last _ =>
            rw [← List.append_assoc] at split
            exact ⟨lower, (List.append_inj' split rfl).1⟩
      have atMost := ownerLongest zone member
        ((mem_ancestorPaths_iff valid.left _).mpr ⟨upper, zonePrefix, zonePath⟩)
      have atLeast := longest owner ownerMember ((mem_ancestorPaths_iff valid _).mpr
        ⟨ownerUpper, ownerPrefix.trans (List.prefix_append front [name]), ownerPath⟩)
      have samePath : zone.path = owner.path := by
        rw [zonePath, ownerPath] at atMost atLeast ⊢
        rcases List.prefix_or_prefix_of_prefix zonePrefix ownerPrefix with ⟨more, rfl⟩ | ⟨more, rfl⟩
        · by_contra different
          have shorter : (pathText upper).length < (pathText (upper ++ more)).length :=
            pathText_length_lt upper (valid.left.of_prefix ownerPrefix).right
              (by rintro rfl; simp at different)
          omega
        · by_contra different
          have shorter : (pathText ownerUpper).length < (pathText (ownerUpper ++ more)).length :=
            pathText_length_lt ownerUpper (valid.left.of_prefix zonePrefix).right
              (by rintro rfl; simp at different)
          omega
      obtain ⟨stored, inVolume⟩ := mem_tree_zones.mp member
      obtain ⟨ownerStored, ownerVolume⟩ := mem_tree_zones.mp ownerMember
      rw [keys.zone_eq_of_path stored ownerStored (inVolume.trans ownerVolume.symm) samePath]

theorem sharesObject_of_none {base : Database} {entries : List ZoneEntry} {entry : ZoneEntry}
    (none : entry.contentObject = none) : SharesObject base entries entry := by
  intro object _ refers
  rw [none] at refers
  cases refers

theorem inline_fileDataOf (data : Bytes) : (fileDataOf data).Inline data.length := by
  unfold fileDataOf
  split
  · rename_i decoded found
    obtain ⟨encoded, noNul⟩ := (convertFrom_eq_some_iff data decoded).mp found
    refine ⟨?_, noNul⟩
    rw [← encoded]
    rfl
  · rfl

theorem not_root_of_likeBelow {root path : Text} (canonical : CanonicalPath root)
    (inner : root ≠ ['/']) (selected : likeBelow root path = true) : path ≠ ['/'] := by
  rintro rfl
  have deeper := count_lt_of_likeBelow selected
  obtain atRoot | ⟨symbol, rest, rfl, -⟩ := canonical.zonePath
  · exact inner atRoot
  · rw [List.count_cons_self] at deeper
    have one : List.count '/' ['/'] = 1 := rfl
    omega

section Operations

variable {base db after : Database} {volume : Uuid}

theorem createVolume_kept {volumeId id : Uuid} {volumeName : Text} {now : Timestamp}
    (kept : Kept base db) (done : db.createVolume volumeId volumeName now = .ok (after, id)) :
    Kept base after := by
  obtain ⟨fresh, inserted, zone, insertOk, rfl⟩ := createVolume_ok done
  have keys := kept.sound.keys
  have nodes := zoneNodes_insertZone insertOk
  have extended : Accounts { db with
      volumes := db.volumes ++ [{ id := volumeId, name := volumeName }] } := kept.sound.accounts
  have accounts := extended.insertZone (fun _ => keys.entry_zone_bound) (fun _ => rfl) insertOk
  obtain ⟨tables, shape, listed, oldTables⟩ := prepareContentVolume_eq inserted volumeId
  rw [shape]
  obtain ⟨rfl, -, -, distinct⟩ := insertZone_ok insertOk
  refine kept.of_sameStore ⟨rfl, rfl, rfl, rfl, rfl, rfl, rfl⟩ ?_ accounts fun _ => kept.entry
  have node {zone : ZoneNode} (member : zone ∈ db.zoneNodes ++ [rootZone volumeId now db.nextNode]) :
      zone ∈ db.zoneNodes ∨ zone = rootZone volumeId now db.nextNode := by
    rwa [List.mem_append, List.mem_singleton] at member
  refine
    { entry_ids := keys.entry_ids
      entry_bound := fun entry member => Nat.lt_succ_of_lt (keys.entry_bound entry member)
      zone_bound := ?_
      ids_apart := ?_
      zones_distinct := (distinct_storedZoneClash_iff _).mp distinct
      entries_distinct := keys.entries_distinct
      entry_zone := ?_
      zone_volume := ?_
      zone_path := ?_
      root := ?_
      volume_table := ?_ }
  · intro zone member
    rcases node (nodes ▸ member) with old | rfl
    · exact Nat.lt_succ_of_lt (keys.zone_bound zone old)
    · exact Nat.lt_succ_self _
  · intro entry member zone zoneMember
    rcases node (nodes ▸ zoneMember) with old | rfl
    · exact keys.ids_apart entry member zone old
    · exact Nat.ne_of_lt (keys.entry_bound entry member)
  · intro entry member
    exact nodes.symm ▸ (keys.entry_zone entry member).append _
  · intro zone member
    change zone.volumeId ∈ (db.volumes ++ [({ id := volumeId, name := volumeName } : Volume)]).map Volume.id
    rw [List.map_append, List.mem_append]
    rcases node (nodes ▸ member) with old | rfl
    · exact Or.inl (keys.zone_volume zone old)
    · exact Or.inr (List.mem_singleton_self _)
  · intro zone member
    rcases node (nodes ▸ member) with old | rfl
    · exact keys.zone_path zone old
    · exact Or.inl rfl
  · intro owner member
    rcases List.mem_append.mp member with old | new
    · obtain ⟨zone, zoneMember, found⟩ := keys.root owner old
      exact ⟨zone, nodes.symm ▸ List.mem_append_left _ zoneMember, found⟩
    · rw [List.mem_singleton.mp new]
      exact ⟨rootZone volumeId now db.nextNode,
        nodes.symm ▸ List.mem_append_right _ (List.mem_singleton_self _), rfl, rfl⟩
  · intro owner member
    rcases List.mem_append.mp member with old | new
    · exact oldTables _ (keys.volume_table owner old)
    · rw [List.mem_singleton.mp new]
      exact listed

theorem mkdirOne_kept {targetPath : Text} {mode : Int} {now : Timestamp} (kept : Kept base db)
    (done : db.mkdirOne volume targetPath mode now = .ok after) : Kept base after := by
  obtain ⟨-, rfl⟩ | ⟨location, vacant, inserted⟩ := mkdirOne_ok done
  · exact kept
  · refine kept.insertEntries ?_ ?_ ?_ inserted
    · intro make member serial
      rw [List.mem_singleton.mp member]
      rfl
    · intro make member serial
      rw [List.mem_singleton.mp member]
      exact inStoredZone_of_parent vacant.located rfl rfl
    · intro make member serial
      rw [List.mem_singleton.mp member]
      exact ⟨trivial, sharesObject_of_none rfl⟩

theorem mkdir_kept {targetPath : Text} {parents : Bool} {mode : Int} {now : Timestamp}
    (kept : Kept base db) (done : db.mkdir volume targetPath parents mode now = .ok after) :
    Kept base after :=
  mkdir_invariant (Kept base) (fun _ _ _ sofar made => mkdirOne_kept sofar made) kept done

theorem mkdirMany_kept {targetPaths : List Text} {parents : Bool} {now : Timestamp}
    (kept : Kept base db) (done : db.mkdirMany volume targetPaths parents now = .ok after) :
    Kept base after := by
  cases parents with
  | true =>
      exact foldlM_invariant (Kept base) (fun _ _ _ _ sofar made => mkdir_kept sofar made) kept done
  | false =>
      obtain ⟨-, inserted⟩ := mkdirMany_ok done
      have row {make : NodeId → ZoneEntry} (member : make ∈ db.newDirectories volume targetPaths now) :
          ∃ path location, db.locateParent volume path = some location ∧
            make = directoryEntry volume location (nameOf path) 493 now := by
        obtain ⟨path, -, found⟩ := List.mem_filterMap.mp member
        obtain ⟨location, located, rfl⟩ := Option.map_eq_some_iff.mp found
        exact ⟨path, location, located, rfl⟩
      refine kept.insertEntries ?_ ?_ ?_ inserted
      · intro make member serial
        obtain ⟨path, location, -, rfl⟩ := row member
        rfl
      · intro make member serial
        obtain ⟨path, location, located, rfl⟩ := row member
        exact inStoredZone_of_parent located rfl rfl
      · intro make member serial
        obtain ⟨path, location, -, rfl⟩ := row member
        exact ⟨trivial, sharesObject_of_none rfl⟩

theorem setTimes_kept {targetPath : Text}
    {atimeSeconds atimeNanoseconds mtimeSeconds mtimeNanoseconds : Int} {now : Timestamp}
    {rows : List Inode} (kept : Kept base db)
    (done : db.setTimes volume targetPath atimeSeconds atimeNanoseconds mtimeSeconds
      mtimeNanoseconds now = .ok (after, rows)) : Kept base after := by
  obtain ⟨location, atime, mtime, -, updated | updated⟩ := setTimes_ok done
  · refine kept.updateZones ?_ ?_ updated
    · intro zone _ _
      exact ⟨rfl, rfl, rfl, rfl⟩
    · intro zone member _
      exact ⟨kept.sound.keys.zone_path zone.toZoneNode (List.mem_map_of_mem member), id⟩
  · refine kept.updateEntries ?_ updated
    intro entry member _
    obtain ⟨stored, shares⟩ := kept.entry member
    exact ⟨rfl, kept.sound.keys.entry_zone entry member, stored, shares⟩

theorem writeFileInline_kept {targetPath : Text} {data : Bytes} {mode : Int} {now : Timestamp}
    {id : NodeId} (kept : Kept base db)
    (done : db.writeFileInline volume targetPath data mode now = .ok (after, id)) :
    Kept base after := by
  obtain ⟨-, -, parent, located, ⟨-, -, inserted⟩ | ⟨existing, -, -, -, updated⟩⟩ :=
    writeFileInline_ok done
  · refine kept.insertEntries ?_ ?_ ?_ inserted
    · intro make member serial
      rw [List.mem_singleton.mp member]
      rfl
    · intro make member serial
      rw [List.mem_singleton.mp member]
      exact inStoredZone_of_parent located rfl rfl
    · intro make member serial
      rw [List.mem_singleton.mp member]
      exact ⟨inline_fileDataOf data, sharesObject_of_none rfl⟩
  · refine kept.updateEntries ?_ updated
    intro entry member _
    exact ⟨rfl, kept.sound.keys.entry_zone entry member, inline_fileDataOf data,
      sharesObject_of_none rfl⟩

theorem writeFile_kept {targetPath : Text} {data : Bytes} {mode : Int} {now : Timestamp}
    {id : NodeId} (kept : Kept base db) (unmapped : db.contentMapping = none)
    (done : db.writeFile volume targetPath data mode now = .ok (after, id)) : Kept base after := by
  obtain ⟨written, location, blockized, writeOk, -, blockOk, reclaimOk⟩ := writeFile_ok done
  have sofar := writeFileInline_kept kept writeOk
  obtain ⟨found, change, foundOk, moved⟩ := blockizeZone_ok sofar.sound
    ((writeFileInline_contentMapping writeOk).trans unmapped) volume location.zoneId
  obtain rfl : found = blockized := Except.ok.inj (foundOk.symm.trans blockOk)
  exact (sofar.blockized moved).reclaim reclaimOk

theorem StagedEntry.stored (staged : StagedEntry) (objects : List ContentObject)
    (entry : ZoneEntry) (payload : entry.payload = staged.payload)
    (size : entry.size = staged.size) : Stored objects entry ∧ entry.contentObject = none := by
  unfold Stored ZoneEntry.contentObject
  rw [payload, size]
  unfold StagedEntry.payload StagedEntry.size
  cases staged.kind with
  | file => exact ⟨inline_fileDataOf staged.content, rfl⟩
  | directory => exact ⟨trivial, rfl⟩
  | symlink => exact ⟨trivial, rfl⟩

theorem applyImportInline_kept {destination : Text} {staging : List StagedEntry}
    {now : Timestamp} {count : Nat} (kept : Kept base db)
    (done : db.applyImportInline volume destination staging now = .ok (after, count)) :
    Kept base after := by
  obtain ⟨-, root, parent, -, vacant, ⟨-, inserted, zone, zoneOk, fillOk⟩ | ⟨-, insertOk⟩⟩ :=
    applyImportInline_ok done
  · have nodes := zoneNodes_insertZone zoneOk
    have sofar := kept.insertZone (fun _ => rfl) (fun _ => vacant.canonical.zonePath) zoneOk
    have zoneId : zone = db.nextNode := (insertZone_ok zoneOk).2.1
    refine sofar.insertEntries ?_ ?_ ?_ fillOk
    · intro make member serial
      obtain ⟨staged, -, rfl⟩ := List.mem_map.mp member
      rfl
    · intro make member serial
      obtain ⟨staged, -, rfl⟩ := List.mem_map.mp member
      rw [nodes]
      exact ⟨_, List.mem_append_right _ (List.mem_singleton_self _), zoneId.symm, rfl⟩
    · intro make member serial
      obtain ⟨staged, -, rfl⟩ := List.mem_map.mp member
      obtain ⟨stored, none⟩ := staged.stored inserted.contentObjects
        (importedEntry volume zone staged now serial) rfl rfl
      exact ⟨stored, sharesObject_of_none none⟩
  · refine kept.insertEntries ?_ ?_ ?_ insertOk
    · intro make member serial
      rw [List.mem_singleton.mp member]
      rfl
    · intro make member serial
      rw [List.mem_singleton.mp member]
      exact inStoredZone_of_parent vacant.located rfl rfl
    · intro make member serial
      rw [List.mem_singleton.mp member]
      obtain ⟨stored, none⟩ := root.stored db.contentObjects
        (importedRoot volume parent (nameOf destination) root now serial) rfl rfl
      exact ⟨stored, sharesObject_of_none none⟩

theorem importTree_kept {destination : Text} {entries : List ImportEntry} {now : Timestamp}
    {count : Nat} (kept : Kept base db)
    (done : db.importTree volume destination entries now = .ok (after, count)) :
    Kept base after := by
  obtain ⟨-, staging, imported, location, -, importOk, -, blockOk⟩ := importTree_ok done
  have sofar := applyImportInline_kept kept importOk
  obtain ⟨change, moved⟩ := blockizeZoneSegment_ok sofar.sound blockOk
  exact sofar.blockized moved

theorem copy_kept {sourcePath destinationPath : Text} {recursive : Bool} {now : Timestamp}
    {count : Nat} (kept : Kept base db)
    (done : db.copy volume sourcePath destinationPath recursive now = .ok (after, count)) :
    Kept base after := by
  obtain ⟨sourceLocation, parent, copyable, ⟨-, copied⟩ | ⟨-, copied⟩⟩ := copy_ok done
  · obtain ⟨-, -, source, inserted, zone, -, zoneOk, fillOk, -⟩ := copyZone_ok copied
    have nodes := zoneNodes_insertZone zoneOk
    have sofar := kept.insertZone (fun _ => rfl) (fun _ => copyable.vacant.canonical.zonePath) zoneOk
    obtain ⟨shape, zoneId, -⟩ := insertZone_ok zoneOk
    refine sofar.insertEntries ?_ ?_ ?_ fillOk
    · intro make member serial
      obtain ⟨source, -, rfl⟩ := List.mem_map.mp member
      rfl
    · intro make member serial
      obtain ⟨source, -, rfl⟩ := List.mem_map.mp member
      rw [nodes]
      exact ⟨_, List.mem_append_right _ (List.mem_singleton_self _), zoneId.symm, rfl⟩
    · intro make member serial
      obtain ⟨source, sourceMember, rfl⟩ := List.mem_map.mp member
      obtain ⟨inTable, chosen⟩ := List.mem_filter.mp sourceMember
      obtain ⟨stored, shares⟩ := kept.entry inTable
      rw [shape]
      refine ⟨?_, shares⟩
      rw [← (of_decide_eq_true chosen).1]
      exact stored
  · obtain ⟨-, insertOk, -⟩ := copyEntry_ok copied
    refine kept.insertEntries ?_ ?_ ?_ insertOk
    · intro make member serial
      obtain ⟨source, -, rfl⟩ := List.mem_map.mp member
      rfl
    · intro make member serial
      obtain ⟨source, -, rfl⟩ := List.mem_map.mp member
      exact inStoredZone_of_parent copyable.vacant.located rfl rfl
    · intro make member serial
      obtain ⟨source, sourceMember, rfl⟩ := List.mem_map.mp member
      obtain ⟨inTable, chosen⟩ := List.mem_filter.mp sourceMember
      obtain ⟨stored, shares⟩ := kept.entry inTable
      refine ⟨?_, shares⟩
      rw [← (of_decide_eq_true chosen).1]
      exact stored

theorem replaceDestination_kept {destination : Text} (kept : Kept base db)
    (done : db.replaceDestination volume destination = .ok after) : Kept base after := by
  obtain ⟨-, ⟨-, rfl⟩ | ⟨location, -, rfl⟩⟩ := replaceDestination_ok done
  · exact kept
  · exact kept.deleteEntries _

theorem Movable.destination_ne_root {replaced : Database} {source destination : Text}
    {sourceLocation parent : Location}
    (movable : Movable db replaced volume source destination sourceLocation parent) :
    destination ≠ ['/'] := by
  rintro rfl
  cases movable.parent

/-- The rows that a move rewrites keep their ids and stay in zones of their volume. -/
theorem Relocated.kept {replaced : Database} {source destination : Text}
    {sourceLocation parent : Location} {now : Timestamp}
    (movable : Movable db replaced volume source destination sourceLocation parent)
    (kept : Kept base replaced)
    (relocated : Relocated replaced after volume source destination sourceLocation parent now) :
    Kept base after := by
  obtain ⟨-, done⟩ | ⟨-, -, done⟩ := relocated
  · refine kept.updateZones ?_ ?_ done
    · intro zone _ _
      unfold movedZone
      dsimp only
      split
      · exact ⟨rfl, rfl, rfl, rfl⟩
      · exact ⟨rfl, rfl, rfl, rfl⟩
    · intro zone _ chosen
      have moved : (movedZone source destination sourceLocation.zoneId parent now zone).path =
          destination ++ substr zone.path (source.length + 1) := by
        unfold movedZone
        dsimp only
        split
        · rfl
        · rfl
      rw [moved]
      constructor
      · obtain root | ⟨symbol, rest, rfl, other⟩ := movable.canonical.zonePath
        · exact absurd root movable.destination_ne_root
        · exact Or.inr ⟨symbol, rest ++ substr zone.path (source.length + 1), rfl, other⟩
      · intro root
        obtain ⟨-, same | selected⟩ := of_decide_eq_true chosen
        · exact absurd (same.symm.trans root) movable.notRoot
        · exact absurd root (not_root_of_likeBelow movable.canonical_source movable.notRoot selected)
  · refine kept.updateEntries ?_ done
    intro entry member chosen
    obtain ⟨stored, shares⟩ := kept.entry member
    exact ⟨rfl, inStoredZone_of_parent movable.parent_located rfl (of_decide_eq_true chosen).1,
      stored, shares⟩

theorem move_kept {sourcePath destinationPath : Text} {now : Timestamp} {count : Nat}
    (kept : Kept base db)
    (done : db.move volume sourcePath destinationPath now = .ok (after, count)) :
    Kept base after := by
  obtain ⟨replaced, sourceLocation, parent, movable, relocated⟩ := move_ok done
  exact relocated.kept movable (replaceDestination_kept kept movable.replaces)

theorem moveCommand_kept {sourcePath destinationPath : Text} {now : Timestamp} {count : Int}
    (kept : Kept base db)
    (done : db.moveCommand volume sourcePath destinationPath now = .ok (after, count)) :
    Kept base after := by
  obtain ⟨replaced, sourceLocation, parent, movable, relocated⟩ := moveCommand_ok done
  exact relocated.kept movable (replaceDestination_kept kept movable.replaces)

theorem deleteZoneTrees_kept {selected : ZoneNode → Bool} (kept : Kept base db)
    (rows : ∀ zone ∈ db.zoneNodes, selected zone = true →
      zone.volumeId = volume ∧ zone.path ≠ ['/']) :
    Kept base (db.deleteZoneTrees volume selected).1 := by
  have node {zone : Zone} (member : zone ∈ (db.deleteEntries fun entry =>
      decide (entry.volumeId = volume ∧
        entry.zoneId ∈ (db.zoneNodes.filter selected).map ZoneNode.id)).zones) :
      zone.toZoneNode ∈ db.zoneNodes := by
    rw [← zoneNodes_deleteEntries]
    exact List.mem_map_of_mem member
  refine (kept.deleteEntries _).deleteZones ?_ ?_
  · intro zone member chosen entry entryMember inZone
    obtain ⟨stored, outside⟩ := List.mem_filter.mp entryMember
    obtain ⟨owner, ownerMember, ownerId, ownerVolume⟩ := kept.sound.keys.entry_zone entry stored
    obtain rfl := kept.sound.keys.zone_eq_of_id ownerMember (node member) (ownerId.trans inZone)
    have listed : entry.zoneId ∈ (db.zoneNodes.filter selected).map ZoneNode.id := by
      rw [← ownerId]
      exact List.mem_map_of_mem (List.mem_filter.mpr ⟨ownerMember, chosen⟩)
    have inVolume := ownerVolume.symm.trans (rows _ ownerMember chosen).1
    simp [inVolume, listed] at outside
  · exact fun zone member chosen => (rows _ (node member) chosen).2

theorem removeRows_kept {target : Text} {location : Location} {recursive : Bool}
    (kept : Kept base db) (removable : Removable db volume target recursive location) :
    Kept base (db.removeRows volume target location recursive).1 := by
  unfold Database.removeRows
  split
  · refine deleteZoneTrees_kept kept ?_
    intro zone _ chosen
    obtain ⟨inVolume, rfl | below⟩ := of_decide_eq_true chosen
    · exact ⟨inVolume, removable.notRoot⟩
    · exact ⟨inVolume, not_root_of_likeBelow removable.canonical removable.notRoot below⟩
  · unfold Database.removeEntryRows
    refine Kept.deleteEntries ?_ _
    split
    · refine deleteZoneTrees_kept kept ?_
      intro zone _ chosen
      obtain ⟨inVolume, below⟩ := of_decide_eq_true chosen
      exact ⟨inVolume, not_root_of_likeBelow removable.canonical removable.notRoot below⟩
    · exact kept

theorem remove_kept {targetPath : Text} {recursive : Bool} {count : Nat} (kept : Kept base db)
    (done : db.remove volume targetPath recursive = .ok (after, count)) : Kept base after := by
  obtain ⟨location, removable, reclaimed, -⟩ := remove_ok.mp done
  exact (removeRows_kept kept removable).reclaim reclaimed

theorem removeMany_kept {targetPaths : List Text} {recursive forceMissing : Bool} {count : Nat}
    (kept : Kept base db)
    (done : db.removeMany volume targetPaths recursive forceMissing = .ok (after, count)) :
    Kept base after := by
  refine removeMany_invariant (Kept base) ?_ ?_ kept done
  · intro state path next removed sofar removeOk
    exact remove_kept sofar removeOk
  · intro _ _ removing
    obtain ⟨-, -, -, reclaimed⟩ := removeBulk_ok.mp removing
    exact (kept.deleteEntries _).reclaim reclaimed

/-- The blocks of a text as the rows of a new object in a new segment. -/
def textRows (volume object segment : Uuid) (blocks : List (LineBlock Char)) : List ContentBlock :=
  blocks.map fun block =>
    { toLineBlock := block, objectId := object, volumeId := volume, segmentId := some segment }

/-- The database in which `import_text` writes its file. -/
def Database.withText (db : Database) (volume : Uuid) (blocks : List (LineBlock Char))
    (size : Nat) : Database :=
  { db with
    contentObjects := db.contentObjects ++
      [{ id := db.nextUuid, volumeId := volume, byteSize := size
         segmentId := some (db.nextUuid + 1) }]
    bulkContentBlocks := db.bulkContentBlocks ++
      textRows volume db.nextUuid (db.nextUuid + 1) blocks
    segmentTables := db.segmentTables ++ [{ segment := db.nextUuid + 1, parent := volume }]
    contentSegments := db.contentSegments ++ [publishedSegment volume (db.nextUuid + 1)]
    nextUuid := db.nextUuid + 2 }

theorem textRows_lines (volume object segment : Uuid) (blocks : List (LineBlock Char)) :
    ((textRows volume object segment blocks).filter fun block => block.objectId = object).map
      ContentBlock.toLineBlock = blocks := by
  have every : (textRows volume object segment blocks).filter
      (fun block => decide (block.objectId = object)) = textRows volume object segment blocks := by
    rw [List.filter_eq_self]
    intro block member
    obtain ⟨line, -, rfl⟩ := List.mem_map.mp member
    exact decide_eq_true rfl
  rw [every, textRows, List.map_map]
  exact List.map_id _

theorem withText_extension (sound : Sound db) {reader : Bytes} {blocks : List (LineBlock Char)}
    {size : Nat} (blocksOk : writeBlocks reader 0 0 1 = .ok (blocks, size)) :
    StoreExtension db (db.withText volume blocks size)
      [{ id := db.nextUuid, volumeId := volume, byteSize := size
         segmentId := some (db.nextUuid + 1) }] []
      (textRows volume db.nextUuid (db.nextUuid + 1) blocks)
      [publishedSegment volume (db.nextUuid + 1)] := by
  obtain ⟨content, -, -, chain, spelled, total⟩ := writeBlocks_chain reader 0 0 1 blocksOk
  refine
    { bound := Nat.le_add_right _ 2
      objects_eq := rfl
      plain_eq := (List.append_nil _).symm
      bulk_eq := rfl
      segments_eq := rfl
      tables_eq := rfl
      staging := fun schema member => Nat.lt_of_lt_of_le (sound.store.staging_bound schema member)
        (Nat.le_add_right _ 2)
      object_fresh := ?_
      object_ids := List.nodup_singleton _
      object_segment := ?_
      object_blocks := ?_
      plain_object := fun _ member => absurd member List.not_mem_nil
      bulk_object := ?_
      segment_fresh := ?_
      segment_ids := List.nodup_singleton _
      segment_published := ?_ }
  · intro other member
    rw [List.mem_singleton.mp member]
    exact ⟨Nat.le_refl _, Nat.lt_add_of_pos_right (by decide)⟩
  · intro other member segment inSegment
    rw [List.mem_singleton.mp member] at inSegment ⊢
    exact ⟨_, List.mem_singleton_self _, Option.some.inj inSegment, rfl⟩
  · intro other member
    rw [List.mem_singleton.mp member, List.nil_append, textRows_lines]
    refine ⟨content, ⟨chain, spelled, ?_⟩, ?_⟩
    · rw [octetLength_flatMap, spelled]
    · change octetLength content = size
      rw [total, Nat.zero_add]
  · intro block member
    obtain ⟨line, -, rfl⟩ := List.mem_map.mp member
    exact ⟨by simp, _, List.mem_singleton_self _, rfl, rfl⟩
  · intro segment member
    rw [List.mem_singleton.mp member]
    exact ⟨Nat.le_succ _, Nat.lt_succ_self _⟩
  · intro segment member
    rw [List.mem_singleton.mp member]
    rfl

theorem withText_kept (sound : Sound db) {reader : Bytes} {blocks : List (LineBlock Char)}
    {size : Nat} (blocksOk : writeBlocks reader 0 0 1 = .ok (blocks, size)) :
    SameTables db (db.withText volume blocks size) ∧ Kept db (db.withText volume blocks size) := by
  have extension : StoreExtension db (db.withText volume blocks size) _ _ _ _ :=
    withText_extension sound blocksOk
  have same : SameTables db (db.withText volume blocks size) := ⟨rfl, rfl, rfl, rfl, rfl⟩
  exact ⟨same,
    { sound := ⟨sound.keys.congr same, sound.accounts.congr same,
        extension.storeSound sound.store, fun entry member =>
          (sound.stored entry member).mono fun object old _ => List.mem_append_left _ old⟩
      nextUuid := extension.bound
      references := fun entry member _ _ refers => ⟨entry, member, refers⟩
      blocks := fun _ _ _ before _ => extension.blockRows_of_old before }⟩

theorem withText_published (sound : Sound db) {published : Database}
    {blocks : List (LineBlock Char)} (size : Nat)
    (shape : published = { db with
      contentObjects := db.contentObjects ++ [{ id := db.nextUuid, volumeId := volume, byteSize := 0
                                                segmentId := some (db.nextUuid + 1) }]
      bulkContentBlocks := db.bulkContentBlocks ++
        textRows volume db.nextUuid (db.nextUuid + 1) blocks
      segmentTables := db.segmentTables ++ [{ segment := db.nextUuid + 1, parent := volume }]
      contentSegments := db.contentSegments ++ [publishedSegment volume (db.nextUuid + 1)]
      nextUuid := db.nextUuid + 2 }) :
    { published with
      contentObjects := published.contentObjects.map fun stored =>
        if stored.id = db.nextUuid then { stored with byteSize := size } else stored } =
      db.withText volume blocks size := by
  have old : db.contentObjects.map (fun stored =>
      if stored.id = db.nextUuid then { stored with byteSize := size } else stored) =
        db.contentObjects := by
    conv => rhs; rw [← List.map_id db.contentObjects]
    apply List.map_congr_left
    intro stored member
    rw [if_neg (Nat.ne_of_lt (sound.store.object_bound stored member))]
    rfl
  rw [shape]
  simp only [Database.withText, List.map_append, old, List.map_cons, List.map_nil, if_true]

/-- `import_text` publishes an object with the blocks of the text, writes an empty file
and makes the file refer to the object. -/
theorem importText_stored {target : Text} {reader : Bytes} {now : Timestamp} {id : NodeId}
    (sound : Sound db) (done : db.importText volume target reader now = .ok (after, id)) :
    ∃ blocks size written, writeBlocks reader 0 0 1 = .ok (blocks, size) ∧
      (db.withText volume blocks size).writeFileInline volume target [] 420 now =
        .ok (written, id) ∧
      written.updateEntries (fun entry => decide (entry.volumeId = volume ∧ entry.id = id))
        (attached db.nextUuid size) = .ok after := by
  unfold Database.importText at done
  dsimp only at done
  obtain ⟨prepared, prepareOk, done⟩ := bind_eq_ok.mp done
  obtain ⟨⟨blocks, size⟩, blocksOk, done⟩ := bind_eq_ok.mp done
  obtain ⟨published, publishOk, done⟩ := bind_eq_ok.mp done
  obtain ⟨written, writeOk, updateOk⟩ := publishContent_ok done
  have prepareShape := prepareContentSegment_ok prepareOk
  have freshStaging : ∀ schema ∈ db.stagingSchemas, schema.1 ≠ db.nextUuid + 1 :=
    fun schema member => Nat.ne_of_lt (Nat.lt_succ_of_lt (sound.store.staging_bound schema member))
  have freshSegment : ∀ stored ∈ db.contentSegments, stored.id ≠ db.nextUuid + 1 :=
    fun stored member => Nat.ne_of_lt (Nat.lt_succ_of_lt (sound.store.segment_bound stored member))
  have publishShape := publishContentSegment_ok
    { db with nextUuid := db.nextUuid + 2 } _ freshStaging freshSegment (by
      rw [prepareShape]
      rfl) (by
      rw [prepareShape]
      rfl) publishOk
  rw [withText_published sound size (by
    rw [publishShape, prepareShape]
    rfl)] at writeOk
  exact ⟨blocks, size, written, blocksOk, writeOk, updateOk⟩

theorem importText_ok {target : Text} {reader : Bytes} {now : Timestamp} {id : NodeId}
    (sound : Sound db) (done : db.importText volume target reader now = .ok (after, id)) :
    ∃ stored written size, SameTables db stored ∧ Kept db stored ∧
      (∃ object ∈ stored.contentObjects, object.id = db.nextUuid ∧ object.volumeId = volume ∧
        object.byteSize = size) ∧
      stored.writeFileInline volume target [] 420 now = .ok (written, id) ∧
      written.updateEntries (fun entry => decide (entry.volumeId = volume ∧ entry.id = id))
        (attached db.nextUuid size) = .ok after := by
  obtain ⟨blocks, size, written, blocksOk, writeOk, updateOk⟩ := importText_stored sound done
  obtain ⟨same, kept⟩ := withText_kept sound blocksOk
  exact ⟨_, written, size, same, kept,
    ⟨_, List.mem_append_right _ (List.mem_singleton_self _), rfl, rfl, rfl⟩, writeOk, updateOk⟩

/-- What `write_file_inline` leaves in the row whose id it returns. -/
theorem writeFileInline_row {targetPath : Text} {data : Bytes} {mode : Int} {now : Timestamp}
    {id : NodeId} (sound : Sound db)
    (done : db.writeFileInline volume targetPath data mode now = .ok (after, id)) :
    ∀ entry ∈ after.zoneEntries, entry.id = id →
      entry.payload = .file (fileDataOf data) none ∧ entry.volumeId = volume := by
  obtain ⟨-, -, parent, -, ⟨-, rfl, inserted⟩ | ⟨existing, found, regular, rfl, updated⟩⟩ :=
    writeFileInline_ok done
  · rw [(insertEntries_ok inserted).1]
    intro entry member same
    rcases List.mem_append.mp member with old | new
    · exact absurd same (Nat.ne_of_lt (sound.keys.entry_bound entry old))
    · rw [List.mem_singleton.mp new]
      exact ⟨rfl, rfl⟩
  · rw [(updateEntries_ok updated).1]
    intro changed member same
    obtain ⟨entry, entryMember, rfl⟩ := List.mem_map.mp member
    obtain ⟨existingMember, inZone, path⟩ := mem_of_entryAt found
    obtain ⟨inTable, inVolume⟩ := mem_tree_entries.mp existingMember
    cases chosen : atLocation volume (parent.child (nameOf targetPath)) entry with
    | true =>
        rw [rewritten_of_selected chosen]
        exact ⟨rfl, (atLocation_iff.mp chosen).1⟩
    | false =>
        rw [rewritten_of_not_selected chosen] at same
        obtain rfl := sound.keys.entry_eq_of_id entryMember inTable same
        rw [atLocation_iff.mpr ⟨inVolume, inZone, path⟩] at chosen
        cases chosen

theorem importText_kept {target : Text} {reader : Bytes} {now : Timestamp} {id : NodeId}
    (sound : Sound db) (done : db.importText volume target reader now = .ok (after, id)) :
    Kept db after := by
  obtain ⟨stored, written, size, -, kept, ⟨object, objectMember, objectId, inVolume, bytes⟩,
    writeOk, updated⟩ := importText_ok sound done
  have sofar := writeFileInline_kept kept writeOk
  have objects : written.contentObjects = stored.contentObjects := by
    obtain ⟨-, -, parent, -, ⟨-, -, inserted⟩ | ⟨existing, -, -, -, updated⟩⟩ :=
      writeFileInline_ok writeOk
    · rw [(insertEntries_ok inserted).1]
    · rw [(updateEntries_ok updated).1]
  refine sofar.updateEntries ?_ updated
  intro entry member chosen
  obtain ⟨entryVolume, same⟩ := of_decide_eq_true chosen
  obtain ⟨payload, -⟩ := writeFileInline_row kept.sound writeOk entry member same
  have row : attached db.nextUuid size entry =
      { entry with payload := .file (.text []) (some db.nextUuid), size := size } := by
    unfold attached
    rw [payload]
    rfl
  rw [row]
  refine ⟨rfl, sofar.sound.keys.entry_zone entry member, ?_, ?_⟩
  · rw [objects]
    exact ⟨rfl, object, objectMember, objectId, inVolume.trans entryVolume.symm, bytes⟩
  · intro old before refers
    have same : db.nextUuid = old := Option.some.inj refers
    rw [same] at before
    exact absurd before (Nat.lt_irrefl _)

/-- Every public operation keeps what a transaction has to keep. -/
theorem run_kept {op : Op} (sound : Sound db) (unmapped : db.contentMapping = none)
    (done : op.run db = .ok after) : Kept db after := by
  have kept := Kept.refl sound
  cases op with
  | createVolume volumeId volumeName now =>
      obtain ⟨⟨last, id⟩, ran, rfl⟩ := map_eq_ok.mp done
      exact createVolume_kept kept ran
  | mkdir volume targetPath parents mode now => exact mkdir_kept kept done
  | mkdirMany volume targetPaths parents now => exact mkdirMany_kept kept done
  | writeFile volume targetPath data mode now =>
      obtain ⟨⟨last, id⟩, ran, rfl⟩ := map_eq_ok.mp done
      exact writeFile_kept kept unmapped ran
  | importTree volume destination entries now =>
      obtain ⟨⟨last, count⟩, ran, rfl⟩ := map_eq_ok.mp done
      exact importTree_kept kept ran
  | importText volume target reader now =>
      obtain ⟨⟨last, id⟩, ran, rfl⟩ := map_eq_ok.mp done
      exact importText_kept sound ran
  | copy volume sourcePath destinationPath recursive now =>
      obtain ⟨⟨last, count⟩, ran, rfl⟩ := map_eq_ok.mp done
      exact copy_kept kept ran
  | move volume sourcePath destinationPath now =>
      obtain ⟨⟨last, count⟩, ran, rfl⟩ := map_eq_ok.mp done
      exact move_kept kept ran
  | moveCommand volume sourcePath destinationPath now =>
      obtain ⟨⟨last, count⟩, ran, rfl⟩ := map_eq_ok.mp done
      exact moveCommand_kept kept ran
  | remove volume targetPath recursive =>
      obtain ⟨⟨last, count⟩, ran, rfl⟩ := map_eq_ok.mp done
      exact remove_kept kept ran
  | removeMany volume targetPaths recursive forceMissing =>
      obtain ⟨⟨last, count⟩, ran, rfl⟩ := map_eq_ok.mp done
      exact removeMany_kept kept ran
  | setTimes volume targetPath atimeSeconds atimeNanoseconds mtimeSeconds mtimeNanoseconds now =>
      obtain ⟨⟨last, rows⟩, ran, rfl⟩ := map_eq_ok.mp done
      exact setTimes_kept kept ran

end Operations

/-! ### Runs -/

/-- Between two transactions the facts hold and no temporary table is left. -/
structure Committed (db : Database) : Prop where
  sound : Sound db
  unmapped : db.contentMapping = none

theorem Kept.commit {base db : Database} (kept : Kept base db) : Kept base db.commit :=
  kept.of_sameStore ⟨rfl, rfl, rfl, rfl, rfl, rfl, rfl⟩
    (kept.sound.keys.congr ⟨rfl, rfl, rfl, rfl, rfl⟩)
    (kept.sound.accounts.congr ⟨rfl, rfl, rfl, rfl, rfl⟩) fun _ => kept.entry

theorem committed_empty : Committed Database.empty := by
  refine ⟨⟨?_, ?_, ?_, ?_⟩, rfl⟩
  · constructor <;> simp [Database.empty, Database.zoneNodes, Distinct]
  · intro zone member
    cases member
  · constructor <;> simp [Database.empty]
  · intro entry member
    cases member

theorem Committed.step {before after : Database} {op : Op} (committed : Committed before)
    (step : Step before op after) : Committed after ∧ Kept before after := by
  unfold Step transact at step
  split at step
  · rename_i last ran
    rw [step]
    have kept := (run_kept committed.sound committed.unmapped ran).commit
    exact ⟨⟨kept.sound, rfl⟩, kept⟩
  · rw [step]
    exact ⟨committed, .refl committed.sound⟩

theorem committed_of_reachable {db : Database} (reachable : ReachableDatabase db) :
    Committed db :=
  Reachable.invariant committed_empty (fun _ _ _ committed step => (committed.step step).1)
    reachable

end PostgreOS
