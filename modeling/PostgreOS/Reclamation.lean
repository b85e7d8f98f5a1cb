/-
What reclaiming leaves in the store.

Reclaiming drops the segments of a volume that no entry uses. Objects outside segments are
not looked at, so an overwritten or removed text file leaves its blocks in `content_blocks`
when no other entry refers to their object.
-/

import PostgreOS.RemoveSpec
import PostgreOS.SegmentLifecycle

namespace PostgreOS

open Library.Outcome Library.Table

/-- Every block of the volume outside segments belongs to an object that an entry uses. -/
def Database.PlainReclaimed (db : Database) (volume : Uuid) : Prop :=
  ∀ block ∈ db.contentBlocks, block.volumeId = volume →
    ∃ entry ∈ db.zoneEntries, entry.contentObject = some block.objectId

/-- Every segment of the volume has an object that an entry uses. -/
def Database.SegmentsReclaimed (db : Database) (volume : Uuid) : Prop :=
  ∀ stored ∈ db.contentSegments, stored.volumeId = volume →
    ∃ object ∈ db.contentObjects, object.segmentId = some stored.id ∧
      ∃ entry ∈ db.zoneEntries, entry.contentObject = some object.id

/-- The same when the entries that `dropped` selects are left out. -/
def Database.PlainKept (db : Database) (volume : Uuid) (dropped : ZoneEntry → Bool) : Prop :=
  ∀ block ∈ db.contentBlocks, block.volumeId = volume →
    ∃ entry ∈ db.zoneEntries, dropped entry = false ∧ entry.contentObject = some block.objectId

def Database.FullyReclaimed (db : Database) (volume : Uuid) : Prop :=
  db.PlainReclaimed volume ∧ db.SegmentsReclaimed volume

section Reclaiming

variable {db after : Database} {volume : Uuid}

theorem reclaimLoop_shape {segments : List Uuid}
    (reclaimed : segments.foldlM Database.reclaimSegment db = .ok after) :
    after.zoneEntries = db.zoneEntries ∧
      (∀ stored, stored ∈ after.contentSegments ↔
        stored ∈ db.contentSegments ∧ stored.id ∉ segments) ∧
      (∀ object, object ∈ after.contentObjects ↔ object ∈ db.contentObjects ∧
        ∀ segment ∈ segments, object.segmentId ≠ some segment) := by
  induction segments generalizing db with
  | nil =>
      cases reclaimed
      simp
  | cons segment rest ih =>
      rw [List.foldlM_cons, bind_eq_ok] at reclaimed
      obtain ⟨middle, stepped, later⟩ := reclaimed
      obtain ⟨entries, segments, objects⟩ := ih later
      obtain ⟨rfl, -⟩ := reclaimSegment_ok stepped
      refine ⟨entries, ?_, ?_⟩
      · intro stored
        rw [segments, List.mem_filter, decide_eq_true_eq, List.mem_cons, not_or, and_assoc]
      · intro object
        rw [objects, List.mem_filter, decide_eq_true_eq, List.forall_mem_cons, and_assoc]

theorem segmentsReclaimed_of_reclaim (store : StoreSound db)
    (reclaimed : db.reclaimContentSegments volume = .ok after) : after.SegmentsReclaimed volume := by
  obtain ⟨entries, segments, objects⟩ := reclaimLoop_shape reclaimed
  intro stored member inVolume
  obtain ⟨inTable, remains⟩ := (segments stored).mp member
  have used : ¬ ¬ (db.contentObjects.any fun object => object.segmentId = some stored.id ∧
      (db.zoneEntries.any fun entry =>
        entry.volumeId = volume ∧ entry.contentObject = some object.id)) := by
    intro idle
    exact remains (List.mem_map_of_mem (List.mem_filter.mpr ⟨inTable,
      decide_eq_true ⟨inVolume, store.segment_published stored inTable, idle⟩⟩))
  obtain ⟨object, objectMember, fits⟩ := List.any_eq_true.mp (not_not.mp used)
  obtain ⟨inSegment, referred⟩ := of_decide_eq_true fits
  obtain ⟨entry, entryMember, refers⟩ := List.any_eq_true.mp referred
  refine ⟨object, (objects object).mpr ⟨objectMember, ?_⟩, inSegment, entry, entries ▸ entryMember,
    (of_decide_eq_true refers).2⟩
  intro segment dropped same
  exact remains (Option.some.inj (inSegment.symm.trans same) ▸ dropped)

theorem contentBlocks_of_reclaim (sound : Sound db)
    (reclaimed : db.reclaimContentSegments volume = .ok after) :
    after.contentBlocks = db.contentBlocks := by
  have kept : Reclaimed db after ∧ after.contentBlocks = db.contentBlocks := by
    refine foldlM_invariant (fun state => Reclaimed db state ∧ state.contentBlocks = db.contentBlocks)
      ?_ ⟨.refl sound.store sound.stored, rfl⟩ reclaimed
    intro state segment next _ sofar stepped
    obtain ⟨kept, same⟩ := sofar
    refine ⟨kept.trans (.of_segment kept.store kept.stored stepped), ?_⟩
    rw [(reclaimSegment_ok stepped).1]
    refine Eq.trans ?_ same
    rw [List.filter_eq_self]
    intro block member
    refine decide_eq_true fun listed => ?_
    obtain ⟨object, objectMember, owner⟩ := List.mem_map.mp listed
    obtain ⟨inTable, inSegment⟩ := List.mem_filter.mp objectMember
    obtain ⟨-, plain, plainMember, plainOwner, alone⟩ := kept.store.block_object block member
    rw [kept.store.object_eq inTable plainMember (owner.trans plainOwner.symm), alone] at inSegment
    simp at inSegment
  exact kept.2

theorem fullyReclaimed_of_reclaim_iff (sound : Sound db)
    (reclaimed : db.reclaimContentSegments volume = .ok after) :
    after.FullyReclaimed volume ↔ db.PlainReclaimed volume := by
  have entries := (reclaimLoop_shape reclaimed).1
  unfold Database.FullyReclaimed Database.PlainReclaimed
  rw [contentBlocks_of_reclaim sound reclaimed, entries]
  exact and_iff_left (segmentsReclaimed_of_reclaim sound.store reclaimed)

/-- The blocks that a text is moved to belong to the object of its entry. -/
theorem contentBlocks_of_blockizeZone {zone : NodeId} (sound : Sound db)
    (done : db.blockizeZone volume zone = .ok after) :
    ∃ blocks, after.contentBlocks = db.contentBlocks ++ blocks ∧
      ∀ block ∈ blocks, ∃ entry ∈ after.zoneEntries, entry.contentObject = some block.objectId := by
  obtain ⟨created, createdOk, done⟩ := bind_eq_ok.mp done
  obtain ⟨blocks, blocksOk, detachOk⟩ := bind_eq_ok.mp done
  obtain ⟨shape, mapped⟩ := createContentMapping_ok createdOk
  have createdEntries : created.zoneEntries = db.zoneEntries := by rw [shape]
  have ids : (created.zoneEntries.map ZoneEntry.id).Nodup := by
    rw [createdEntries]
    exact sound.keys.entry_ids
  obtain ⟨detached, selected, change, detachedOk, updated, detaches⟩ := detachMapped_ok
    { created with
      contentObjects := created.contentObjects ++ created.mappedObjects volume zone none
      contentBlocks := created.contentBlocks ++ blocks } ids (by
      change Distinct entryClash created.zoneEntries
      rw [createdEntries]
      exact sound.keys.entries_distinct) mapped
  obtain rfl : detached = after := Except.ok.inj (detachedOk.symm.trans detachOk)
  rw [(updateEntries_ok updated).1]
  refine ⟨blocks, ?_, ?_⟩
  · change created.contentBlocks ++ blocks = _
    rw [shape]
  · intro block member
    obtain ⟨-, object, objectMember, owner⟩ := mem_mappedBlocks blocksOk member
    have listed : object ∈ created.mappedObjects volume zone none := objectMember
    rw [mappedObjects_eq ids mapped] at listed
    obtain ⟨pair, pairMember, rfl⟩ := List.mem_map.mp listed
    have pending := List.mem_map_of_mem (f := Prod.snd) pairMember
    rw [objectPairs_snd] at pending
    obtain ⟨inTable, inline⟩ := List.mem_filter.mp pending
    obtain ⟨other, otherMember, moved⟩ := detaches.moved pair.2 inTable inline
    have single : ((objectPairs db.nextUuid
        (created.zoneEntries.filter (inlineText volume zone))).map Prod.snd).Nodup := by
      rw [objectPairs_snd]
      exact (List.Nodup.of_map _ ids).filter _
    have same := List.inj_on_of_nodup_map single otherMember pairMember rfl
    refine ⟨rewritten selected change pair.2, List.mem_map_of_mem inTable, ?_⟩
    rw [moved, ← owner, ← same]
    rfl

end Reclaiming

/-! ### Writing and removing -/

section Calls

variable {db after : Database} {volume : Uuid}

/-- The row that a write to the path overwrites. -/
def Database.overwrittenEntry (db : Database) (volume : Uuid) (targetPath : Text) (entry : ZoneEntry) :
    Bool :=
  (db.locateParent volume targetPath).any fun parent =>
    atLocation volume (parent.child (nameOf targetPath)) entry

theorem overwrittenEntry_of_located {targetPath : Text} {parent : Location}
    (located : db.locateParent volume targetPath = some parent) :
    db.overwrittenEntry volume targetPath = atLocation volume (parent.child (nameOf targetPath)) := by
  funext entry
  unfold Database.overwrittenEntry
  rw [located]
  rfl

/-- The references that a write leaves are those of the rows that it does not overwrite. -/
theorem writeFileInline_references {targetPath : Text} {data : Bytes} {mode : Int} {now : Timestamp}
    {id : NodeId} (done : db.writeFileInline volume targetPath data mode now = .ok (after, id))
    (object : Uuid) :
    (∃ entry ∈ after.zoneEntries, entry.contentObject = some object) ↔
      ∃ entry ∈ db.zoneEntries, db.overwrittenEntry volume targetPath entry = false ∧
        entry.contentObject = some object := by
  obtain ⟨-, -, parent, located, ⟨vacant, -, inserted⟩ | ⟨existing, -, -, -, updated⟩⟩ :=
    writeFileInline_ok done
  · rw [(insertEntries_ok inserted).1]
    rw [overwrittenEntry_of_located located]
    have nobody := List.find?_eq_none.mp vacant
    constructor
    · rintro ⟨entry, member, refers⟩
      rcases List.mem_append.mp member with old | new
      · exact ⟨entry, old, by simpa using nobody entry old, refers⟩
      · rw [List.mem_singleton.mp new] at refers
        cases refers
    · rintro ⟨entry, member, -, refers⟩
      exact ⟨entry, List.mem_append_left _ member, refers⟩
  · rw [(updateEntries_ok updated).1]
    rw [overwrittenEntry_of_located located]
    constructor
    · rintro ⟨changed, member, refers⟩
      obtain ⟨entry, entryMember, rfl⟩ := List.mem_map.mp member
      cases chosen : atLocation volume (parent.child (nameOf targetPath)) entry with
      | true =>
          rw [rewritten_of_selected chosen] at refers
          cases refers
      | false =>
          rw [rewritten_of_not_selected chosen] at refers
          exact ⟨entry, entryMember, chosen, refers⟩
    · rintro ⟨entry, member, stays, refers⟩
      refine ⟨_, List.mem_map_of_mem member, ?_⟩
      rw [rewritten_of_not_selected stays]
      exact refers

theorem writeFile_fullyReclaimed_iff {targetPath : Text} {data : Bytes} {mode : Int}
    {now : Timestamp} {id : NodeId} (committed : Committed db)
    (done : db.writeFile volume targetPath data mode now = .ok (after, id)) :
    after.FullyReclaimed volume ↔ db.PlainKept volume (db.overwrittenEntry volume targetPath) := by
  obtain ⟨written, location, blockized, writeOk, -, blockOk, reclaimOk⟩ := writeFile_ok done
  have kept := writeFileInline_kept (.refl committed.sound) writeOk
  have unmapped := (writeFileInline_contentMapping writeOk).trans committed.unmapped
  obtain ⟨found, change, foundOk, moved⟩ := blockizeZone_ok kept.sound unmapped volume location.zoneId
  obtain rfl : found = blockized := Except.ok.inj (foundOk.symm.trans blockOk)
  obtain ⟨blocks, plain, used⟩ := contentBlocks_of_blockizeZone kept.sound blockOk
  have same := (sameCatalog_writeFileInline writeOk).toSameStore
  rw [fullyReclaimed_of_reclaim_iff moved.sound reclaimOk]
  unfold Database.PlainReclaimed Database.PlainKept
  rw [plain, same.plain, List.forall_mem_append, and_iff_left fun block member _ => used block member]
  refine forall₂_congr fun block member => imp_congr_right fun _ => ?_
  rw [← writeFileInline_references writeOk block.objectId, moved.zoneEntries]
  have old : block.objectId < written.nextUuid := by
    rw [same.nextUuid]
    exact committed.sound.store.block_bound (List.mem_append_left _ member)
  constructor
  · rintro ⟨changed, changedMember, refers⟩
    obtain ⟨entry, entryMember, rfl⟩ := List.mem_map.mp changedMember
    cases inline : inlineText volume location.zoneId entry with
    | false =>
        rw [moved.kept entry entryMember inline] at refers
        exact ⟨entry, entryMember, refers⟩
    | true =>
        obtain ⟨object, fresh, detached⟩ := moved.moved entry entryMember inline
        rw [detached] at refers
        have sameObject : object = block.objectId := Option.some.inj refers
        rw [sameObject] at fresh
        exact absurd old (Nat.not_lt_of_le fresh)
  · rintro ⟨entry, entryMember, refers⟩
    refine ⟨change entry, List.mem_map_of_mem entryMember, ?_⟩
    rw [moved.kept entry entryMember]
    · exact refers
    · cases inline : inlineText volume location.zoneId entry with
      | false => rfl
      | true =>
          obtain ⟨-, -, content, payload⟩ := inlineText_iff.mp inline
          rw [ZoneEntry.contentObject, payload] at refers
          cases refers

/-- The rows that `pgos.remove` deletes for a path. -/
def Database.removedByPath (db : Database) (volume : Uuid) (targetPath : Text) (recursive : Bool)
    (entry : ZoneEntry) : Bool :=
  (db.locateZone volume targetPath).any fun location =>
    db.removedEntry volume targetPath location recursive entry

/-- The tables after the deletes of `pgos.remove` for a path. -/
def Database.withoutRows (db : Database) (volume : Uuid) (targetPath : Text) (recursive : Bool) :
    Database :=
  match db.locateZone volume targetPath with
  | some location => (db.removeRows volume targetPath location recursive).1
  | none => db

theorem removedByPath_of_located {targetPath : Text} {recursive : Bool} {location : Location}
    (located : db.locateZone volume targetPath = some location) :
    db.removedByPath volume targetPath recursive =
      db.removedEntry volume targetPath location recursive := by
  funext entry
  unfold Database.removedByPath
  rw [located]
  rfl

theorem zoneEntries_removeRows (db : Database) (volume : Uuid) (target : Text) (location : Location)
    (recursive : Bool) :
    (db.removeRows volume target location recursive).1.zoneEntries =
      db.zoneEntries.filter fun entry => !db.removedEntry volume target location recursive entry := by
  unfold Database.removeRows Database.removedEntry Database.inRemovedZone
  by_cases isZone : location.relativePath = []
  · rw [if_pos isZone, removedZone_of_zone _ _ _ _ isZone]
    simp [isZone, Database.deleteZoneTrees, Database.deleteEntries, Database.deleteZones]
  · rw [if_neg isZone]
    unfold Database.removeEntryRows
    cases recursive with
    | true =>
        rw [removedZone_of_entry _ _ _ isZone]
        change List.filter _ (List.filter _ _) = _
        rw [List.filter_filter]
        apply List.filter_congr
        intro entry _
        rw [decide_eq_true isZone, Bool.true_and, Bool.not_or, Bool.and_comm]
    | false =>
        rw [removedZone_of_plain _ _ _ isZone]
        simp [isZone, Database.deleteEntries]

theorem plainKept_of_remove {targetPath : Text} {recursive : Bool} {count : Nat} (sound : Sound db)
    (done : db.remove volume targetPath recursive = .ok (after, count)) (dropped : ZoneEntry → Bool) :
    after.PlainKept volume dropped ↔ db.PlainKept volume fun entry =>
      db.removedByPath volume targetPath recursive entry || dropped entry := by
  obtain ⟨location, removable, reclaimed, -⟩ := remove_ok.mp done
  have kept := removeRows_kept (.refl sound) removable
  have entries := (reclaimLoop_shape reclaimed).1
  rw [zoneEntries_removeRows] at entries
  unfold Database.PlainKept
  rw [contentBlocks_of_reclaim kept.sound reclaimed,
    (sameStore_removeRows db volume targetPath location recursive).plain, entries,
    removedByPath_of_located removable.located]
  refine forall₂_congr fun block _ => imp_congr_right fun _ => ?_
  constructor
  · rintro ⟨entry, member, stays, refers⟩
    obtain ⟨inTable, left⟩ := List.mem_filter.mp member
    rw [Bool.not_eq_true'] at left
    exact ⟨entry, inTable, Bool.or_eq_false_iff.mpr ⟨left, stays⟩, refers⟩
  · rintro ⟨entry, member, stays, refers⟩
    rw [Bool.or_eq_false_iff] at stays
    exact ⟨entry, List.mem_filter.mpr ⟨member, by rw [stays.1]; rfl⟩, stays.2, refers⟩

theorem plainReclaimed_iff : db.PlainReclaimed volume ↔ db.PlainKept volume fun _ => false := by
  unfold Database.PlainReclaimed Database.PlainKept
  simp

theorem segmentsReclaimed_of_remove {targetPath : Text} {recursive : Bool} {count : Nat}
    (sound : Sound db) (done : db.remove volume targetPath recursive = .ok (after, count)) :
    after.SegmentsReclaimed volume := by
  obtain ⟨location, removable, reclaimed, -⟩ := remove_ok.mp done
  exact segmentsReclaimed_of_reclaim (removeRows_kept (.refl sound) removable).sound.store reclaimed

end Calls

section Several

variable {db after : Database} {volume : Uuid} {recursive forceMissing : Bool}

/-- The rows that the loop of `pgos.remove_many` deletes. -/
def removedByLoop (volume : Uuid) (recursive forceMissing : Bool) :
    List Text → Database → ZoneEntry → Bool
  | [], _, _ => false
  | targetPath :: rest, db, entry =>
      if forceMissing = true ∧ db.kindOf volume targetPath = none then
        removedByLoop volume recursive forceMissing rest db entry
      else
        db.removedByPath volume targetPath recursive entry ||
          removedByLoop volume recursive forceMissing rest
            (db.withoutRows volume targetPath recursive) entry

/-- The rows that `pgos.remove_many` deletes. -/
def Database.removedByMany (db : Database) (volume : Uuid) (targetPaths : List Text)
    (recursive forceMissing : Bool) (entry : ZoneEntry) : Bool :=
  match targetPaths with
  | [targetPath] => removedByLoop volume recursive forceMissing [targetPath] db entry
  | _ =>
      if targetPaths.all fun path => (db.zonesOf volume).all fun zone => zone.path ≠ path then
        db.bulkRow volume (targetPaths.filterMap (db.resolve volume)) recursive entry
      else removedByLoop volume recursive forceMissing targetPaths db entry

def SameRows (db after : Database) : Prop :=
  after.zones = db.zones ∧ after.zoneEntries = db.zoneEntries

theorem SameRows.zoneNodes (same : SameRows db after) : after.zoneNodes = db.zoneNodes :=
  congrArg (List.map Zone.toZoneNode) same.1

theorem SameRows.kindOf (same : SameRows db after) (volume : Uuid) (path : Text) :
    after.kindOf volume path = db.kindOf volume path := by
  unfold Database.kindOf Database.entryAt
  rw [locateZone_congr same.zoneNodes, same.2]

theorem SameRows.removedEntry (same : SameRows db after) (volume : Uuid) (path : Text)
    (location : Location) (recursive : Bool) :
    after.removedEntry volume path location recursive = db.removedEntry volume path location recursive := by
  unfold Database.removedEntry Database.inRemovedZone
  rw [same.zoneNodes]

theorem SameRows.removedByPath (same : SameRows db after) (volume : Uuid) (path : Text)
    (recursive : Bool) :
    after.removedByPath volume path recursive = db.removedByPath volume path recursive := by
  funext entry
  unfold Database.removedByPath
  rw [locateZone_congr same.zoneNodes]
  simp only [same.removedEntry]

theorem SameRows.deleteEntries (same : SameRows db after) (selected : ZoneEntry → Bool) :
    SameRows (db.deleteEntries selected) (after.deleteEntries selected) := by
  unfold SameRows Database.deleteEntries
  rw [same.1, same.2]
  exact ⟨rfl, rfl⟩

theorem SameRows.deleteZoneTrees (same : SameRows db after) (volume : Uuid)
    (selected : ZoneNode → Bool) :
    SameRows (db.deleteZoneTrees volume selected).1 (after.deleteZoneTrees volume selected).1 := by
  unfold SameRows Database.deleteZoneTrees Database.deleteZones Database.deleteEntries
  rw [same.zoneNodes, same.1, same.2]
  exact ⟨rfl, rfl⟩

theorem SameRows.withoutRows (same : SameRows db after) (volume : Uuid) (path : Text)
    (recursive : Bool) :
    SameRows (db.withoutRows volume path recursive) (after.withoutRows volume path recursive) := by
  unfold Database.withoutRows
  rw [locateZone_congr same.zoneNodes]
  split
  · unfold Database.removeRows
    split
    · exact same.deleteZoneTrees volume _
    · unfold Database.removeEntryRows
      cases recursive with
      | true => exact (same.deleteZoneTrees volume _).deleteEntries _
      | false => exact same.deleteEntries _
  · exact same

theorem SameRows.removedByLoop (same : SameRows db after) (targetPaths : List Text) :
    removedByLoop volume recursive forceMissing targetPaths after =
      PostgreOS.removedByLoop volume recursive forceMissing targetPaths db := by
  induction targetPaths generalizing db after with
  | nil => rfl
  | cons path rest ih =>
      funext entry
      unfold PostgreOS.removedByLoop
      rw [same.kindOf, same.removedByPath, ih same, ih (same.withoutRows volume path recursive)]

theorem sameRows_of_remove {targetPath : Text} {count : Nat} (sound : Sound db)
    (done : db.remove volume targetPath recursive = .ok (after, count)) :
    SameRows (db.withoutRows volume targetPath recursive) after := by
  obtain ⟨location, removable, reclaimed, -⟩ := remove_ok.mp done
  have kept := removeRows_kept (.refl sound) removable
  have tables := (Reclaimed.of_reclaim kept.sound.store kept.sound.stored reclaimed).tables
  unfold Database.withoutRows
  rw [removable.located]
  exact ⟨tables.zones, tables.zoneEntries⟩

theorem skips_eq_ok {targetPath : Text} {skipped : Bool}
    (checked : db.skips volume forceMissing targetPath = .ok skipped) :
    skipped = true ↔ forceMissing = true ∧ db.kindOf volume targetPath = none := by
  unfold Database.skips at checked
  cases forceMissing with
  | false =>
      obtain rfl := Except.ok.inj checked
      simp
  | true =>
      obtain ⟨clean, accepted, rfl⟩ := map_eq_ok.mp checked
      obtain ⟨rfl, -⟩ := assertPath_eq_ok accepted
      simp

/-- The loop keeps what no round deletes, and it reclaims unless it skips every path. -/
theorem removeLoop_reclaims {targetPaths : List Text} {count total : Nat} (sound : Sound db)
    (done : targetPaths.foldlM (removeNext volume recursive forceMissing) (db, count) =
      .ok (after, total)) :
    (after.PlainReclaimed volume ↔
      db.PlainKept volume (removedByLoop volume recursive forceMissing targetPaths db)) ∧
    (after.SegmentsReclaimed volume ∨ after = db ∧
      ∀ path ∈ targetPaths, forceMissing = true ∧ db.kindOf volume path = none) := by
  induction targetPaths generalizing db count with
  | nil =>
      obtain ⟨rfl, -⟩ := Prod.mk.inj (Except.ok.inj done)
      exact ⟨plainReclaimed_iff, Or.inr ⟨rfl, fun _ member => absurd member List.not_mem_nil⟩⟩
  | cons path rest ih =>
      rw [List.foldlM_cons, bind_eq_ok] at done
      obtain ⟨⟨middle, sofar⟩, stepped, later⟩ := done
      unfold removeNext at stepped
      obtain ⟨skipped, checked, stepped⟩ := bind_eq_ok.mp stepped
      have missing := skips_eq_ok checked
      cases skipped with
      | true =>
          obtain ⟨rfl, rfl⟩ := Prod.mk.inj (Except.ok.inj stepped)
          obtain ⟨plain, segments⟩ := ih sound later
          have absent := missing.mp rfl
          constructor
          · have same : removedByLoop volume recursive forceMissing (path :: rest) db =
                removedByLoop volume recursive forceMissing rest db := by
              funext entry
              rw [removedByLoop, if_pos absent]
            rw [same]
            exact plain
          · rw [List.forall_mem_cons]
            exact segments.imp_right fun ⟨same, others⟩ => ⟨same, absent, others⟩
      | false =>
          obtain ⟨⟨last, removed⟩, removeOk, same⟩ := bind_eq_ok.mp stepped
          obtain ⟨rfl, rfl⟩ := Prod.mk.inj (Except.ok.inj same)
          have kept := remove_kept (.refl sound) removeOk
          obtain ⟨plain, segments⟩ := ih kept.sound later
          constructor
          · have rows : removedByLoop volume recursive forceMissing (path :: rest) db = fun entry =>
                db.removedByPath volume path recursive entry ||
                  removedByLoop volume recursive forceMissing rest last entry := by
              funext entry
              rw [removedByLoop, if_neg fun absent => Bool.false_ne_true (missing.mpr absent),
                (sameRows_of_remove sound removeOk).removedByLoop]
            rw [rows, plain]
            exact plainKept_of_remove sound removeOk _
          · left
            rcases segments with reclaimed | ⟨rfl, -⟩
            · exact reclaimed
            · exact segmentsReclaimed_of_remove sound removeOk

theorem kindOf_of_zone_path (keys : Keys db) {target : Text} (canonical : CanonicalPath target)
    {zone : ZoneNode} (stored : zone ∈ db.zoneNodes) (inVolume : zone.volumeId = volume)
    (path : zone.path = target) : db.kindOf volume target = some .directory := by
  have itself : zone.path ∈ ancestorPaths target := by
    obtain ⟨names, valid, rfl⟩ := (canonicalPath_iff target).mp canonical
    exact (mem_ancestorPaths_iff valid _).mpr ⟨names, List.prefix_refl names, path⟩
  obtain ⟨location, located⟩ := locateZone_isSome (mem_tree_zones.mpr ⟨stored, inVolume⟩) itself
  have sameId := located_of_zone_path keys canonical located stored inVolume path
  obtain ⟨node, member, -, -, rfl⟩ := locateZone_eq_some located
  obtain rfl := keys.zone_eq_of_id stored (mem_tree_zones.mp member).1 sameId
  unfold Database.kindOf
  rw [located, path, relativeIn, if_pos rfl]
  rfl

theorem removedByMany_of_several {targetPaths : List Text}
    (several : ∀ path, targetPaths = [path] → False) :
    db.removedByMany volume targetPaths recursive forceMissing =
      if targetPaths.all fun path => (db.zonesOf volume).all fun zone => zone.path ≠ path then
        db.bulkRow volume (targetPaths.filterMap (db.resolve volume)) recursive
      else removedByLoop volume recursive forceMissing targetPaths db := by
  funext entry
  unfold Database.removedByMany
  split
  · exact (several _ rfl).elim
  · split
    · rfl
    · rfl

theorem plainReclaimed_deleteEntries_iff (selected : ZoneEntry → Bool) :
    (db.deleteEntries selected).PlainReclaimed volume ↔ db.PlainKept volume selected := by
  unfold Database.PlainReclaimed Database.PlainKept Database.deleteEntries
  simp only [List.mem_filter, Bool.not_eq_true', and_assoc]

theorem removeMany_fullyReclaimed_iff {targetPaths : List Text} {count : Nat} (sound : Sound db)
    (done : db.removeMany volume targetPaths recursive forceMissing = .ok (after, count)) :
    after.FullyReclaimed volume ↔
      db.PlainKept volume (db.removedByMany volume targetPaths recursive forceMissing) ∧
      ((∃ path, targetPaths = [path] ∧ forceMissing = true ∧ db.kindOf volume path = none) →
        db.SegmentsReclaimed volume) := by
  unfold Database.removeMany at done
  split at done
  · -- One path is a loop of one round.
    rename_i path
    obtain ⟨skipped, checked, done⟩ := bind_eq_ok.mp done
    have missing := skips_eq_ok checked
    have loop : ∃ total, [path].foldlM (removeNext volume recursive forceMissing) (db, 0) =
        .ok (after, total) := by
      rw [List.foldlM_cons, removeNext, checked, ok_bind]
      cases skipped with
      | true =>
          obtain ⟨rfl, rfl⟩ := Prod.mk.inj (Except.ok.inj done)
          exact ⟨0, rfl⟩
      | false =>
          rw [if_neg Bool.false_ne_true] at done ⊢
          rw [done]
          exact ⟨0 + count, rfl⟩
    obtain ⟨total, loopOk⟩ := loop
    obtain ⟨plain, segments⟩ := removeLoop_reclaims sound loopOk
    refine and_congr plain ?_
    by_cases skip : forceMissing = true ∧ db.kindOf volume path = none
    · rw [missing.mpr skip, if_pos rfl] at done
      have same := (Prod.mk.inj (Except.ok.inj done)).1
      rw [← same]
      exact ⟨fun segments _ => segments, fun idle => idle ⟨path, rfl, skip⟩⟩
    · refine iff_of_true ?_ ?_
      · rcases segments with reclaimed | ⟨-, absent⟩
        · exact reclaimed
        · exact absurd (absent path (List.mem_singleton_self path)) skip
      · rintro ⟨other, same, absent⟩
        obtain rfl := (List.cons.inj same).1
        exact absurd absent skip
  · rename_i several
    have notOne : ¬ ∃ path, targetPaths = [path] ∧ forceMissing = true ∧
        db.kindOf volume path = none := fun ⟨path, same, _⟩ => several path same
    rw [iff_true_intro fun idle => absurd idle notOne, and_true, removedByMany_of_several several]
    obtain ⟨cleanPaths, accepted, removing⟩ := bind_eq_ok.mp done
    obtain ⟨rfl, canonical⟩ := mapM_assertPath_eq_ok.mp accepted
    split at removing
    · rename_i noZone
      obtain ⟨-, -, -, reclaimed⟩ := removeBulk_ok.mp removing
      rw [if_pos noZone, fullyReclaimed_of_reclaim_iff ((Kept.refl sound).deleteEntries _).sound reclaimed]
      exact plainReclaimed_deleteEntries_iff _
    · rename_i someZone
      obtain ⟨plain, segments⟩ := removeLoop_reclaims sound removing
      rw [if_neg someZone, ← plain]
      refine and_iff_left ?_
      rcases segments with reclaimed | ⟨-, absent⟩
      · exact reclaimed
      · -- The zone that led to the loop is there, so its path is not skipped.
        simp only [List.all_eq_true, decide_eq_true_eq, not_forall, not_not] at someZone
        obtain ⟨path, pathMember, zone, zoneMember, samePath⟩ := someZone
        obtain ⟨inTable, inVolume⟩ := List.mem_filter.mp zoneMember
        have directory := kindOf_of_zone_path sound.keys (canonical path pathMember)
          (List.mem_map_of_mem inTable) (of_decide_eq_true inVolume) samePath
        rw [(absent path pathMember).2] at directory
        cases directory

end Several

/-! ### Calls -/

/-- The volume on which a call ends by reclaiming. -/
def Op.reclaimedVolume : Op → Option Uuid
  | .writeFile volume _ _ _ _ => some volume
  | .remove volume _ _ => some volume
  | .removeMany volume _ _ _ => some volume
  | _ => none

/-- The rows whose references a call drops. -/
def Op.dropped (db : Database) : Op → ZoneEntry → Bool
  | .writeFile volume targetPath _ _ _ => db.overwrittenEntry volume targetPath
  | .remove volume targetPath recursive => db.removedByPath volume targetPath recursive
  | .removeMany volume targetPaths recursive forceMissing =>
      db.removedByMany volume targetPaths recursive forceMissing
  | _ => fun _ => false

/-- The call returns before it comes to reclaiming: its one path is missing. -/
def Op.ReturnsEarly (db : Database) : Op → Prop
  | .removeMany volume targetPaths _ forceMissing =>
      ∃ path, targetPaths = [path] ∧ forceMissing = true ∧ db.kindOf volume path = none
  | _ => False

/-- A call that reclaims leaves nothing out of reach exactly if the rows whose references it
keeps use every block outside segments, and, when it returns early, the segments were in use. -/
theorem reclamation_complete_iff {db after : Database} (reachable : ReachableByCalls db) {op : Op}
    {volume : Uuid} (reclaims : op.reclaimedVolume = some volume) (done : op.run db = .ok after) :
    after.commit.FullyReclaimed volume ↔
      db.PlainKept volume (op.dropped db) ∧ (op.ReturnsEarly db → db.SegmentsReclaimed volume) := by
  obtain ⟨sound, unmapped, -⟩ := orderly_of_reachable reachable
  change after.FullyReclaimed volume ↔ _
  cases op with
  | writeFile written targetPath data mode now =>
      obtain rfl := Option.some.inj reclaims
      obtain ⟨⟨last, id⟩, ran, rfl⟩ := map_eq_ok.mp done
      have late : ¬ Op.ReturnsEarly db (.writeFile written targetPath data mode now) := fun early => early
      rw [iff_true_intro fun early => absurd early late, and_true]
      exact writeFile_fullyReclaimed_iff ⟨sound, unmapped⟩ ran
  | remove removed targetPath recursive =>
      obtain rfl := Option.some.inj reclaims
      obtain ⟨⟨last, count⟩, ran, rfl⟩ := map_eq_ok.mp done
      have late : ¬ Op.ReturnsEarly db (.remove removed targetPath recursive) := fun early => early
      rw [iff_true_intro fun early => absurd early late, and_true]
      have plain := plainKept_of_remove sound ran fun _ => false
      simp only [Bool.or_false] at plain
      rw [Database.FullyReclaimed, plainReclaimed_iff, plain]
      exact and_iff_left (segmentsReclaimed_of_remove sound ran)
  | removeMany removed targetPaths recursive forceMissing =>
      obtain rfl := Option.some.inj reclaims
      obtain ⟨⟨last, count⟩, ran, rfl⟩ := map_eq_ok.mp done
      exact removeMany_fullyReclaimed_iff sound ran
  | _ => cases reclaims

/-- A text file and its copy, which refers to the same object. -/
def sharedTextCalls : List Op :=
  [.createVolume 7 ['v'] 0, .writeFile 7 ['/', 'f'] [104, 105] 420 1,
    .copy 7 ['/', 'f'] ['/', 'g'] false 2]

theorem reclamation_complete_of_copy :
    ∃ after, (Op.remove 7 ['/', 'g'] false).run (Database.empty.calls sharedTextCalls) = .ok after ∧
      after.commit.FullyReclaimed 7 := by
  cases ran : (Op.remove 7 ['/', 'g'] false).run (Database.empty.calls sharedTextCalls) with
  | error failure =>
      have succeeds : ((Op.remove 7 ['/', 'g'] false).run
          (Database.empty.calls sharedTextCalls)).isOk = true := by decide +kernel
      rw [ran] at succeeds
      cases succeeds
  | ok after =>
      refine ⟨after, rfl, (reclamation_complete_iff (reachable_calls sharedTextCalls).byCalls rfl
        ran).mpr ⟨?_, fun early => absurd early id⟩⟩
      unfold Database.PlainKept
      decide +kernel

/-- Writing a text file twice leaves the blocks of the first text behind. -/
theorem reclamation_not_complete :
    ¬ ∀ db, ReachableByCalls db → ∀ (op : Op) (volume : Uuid) (after : Database),
      op.reclaimedVolume = some volume → op.run db = .ok after →
        after.commit.FullyReclaimed volume := by
  intro every
  let db := Database.empty.calls [.createVolume 7 ['v'] 0, .writeFile 7 ['/', 'f'] [104, 105] 420 1]
  have reached : ReachableByCalls db := (reachable_calls _).byCalls
  cases ran : (Op.writeFile 7 ['/', 'f'] [104, 111] 420 2).run db with
  | error failure =>
      have succeeds : ((Op.writeFile 7 ['/', 'f'] [104, 111] 420 2).run db).isOk = true := by
        decide +kernel
      rw [ran] at succeeds
      cases succeeds
  | ok after =>
      have plain : (transact db ((Op.writeFile 7 ['/', 'f'] [104, 111] 420 2).run db)).PlainReclaimed 7 := by
        rw [ran]
        exact (every db reached _ 7 after rfl ran).1
      revert plain
      unfold Database.PlainReclaimed
      decide +kernel

end PostgreOS
