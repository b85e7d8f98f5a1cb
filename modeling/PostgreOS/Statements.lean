/-
Transactions as sequences of statements.

A statement changes the zones or their entries in one of six ways, or leaves both tables
alone. The counters of the zones are exact after every statement of every transaction,
whatever the transaction does next and whether or not it commits.
-/

import PostgreOS.Soundness

namespace PostgreOS

open Library.Outcome Library.Table Library.Transition Relation

/-- A statement as `zones` and `zone_entries` see it. New rows take their ids from the
sequence, and rows of entries are put into zones that are there. -/
inductive Statement : Database → Database → Prop
  | insertEntries {db after : Database} {makers : List (NodeId → ZoneEntry)}
      (ids : ∀ make ∈ makers, ∀ serial, (make serial).id = serial)
      (inZone : ∀ make ∈ makers, ∀ serial, InStoredZone db.zoneNodes (make serial))
      (inserted : db.insertEntries makers = .ok after) : Statement db after
  | updateEntries {db after : Database} {selected : ZoneEntry → Bool}
      {change : ZoneEntry → ZoneEntry}
      (inZone : ∀ entry ∈ db.zoneEntries, selected entry = true →
        (change entry).zoneId = entry.zoneId ∨ InStoredZone db.zoneNodes (change entry))
      (updated : db.updateEntries selected change = .ok after) : Statement db after
  | deleteEntries {db : Database} (selected : ZoneEntry → Bool) :
      Statement db (db.deleteEntries selected)
  | insertZone {db after : Database} {make : NodeId → ZoneNode} {id : NodeId}
      (ids : ∀ serial, (make serial).id = serial)
      (inserted : db.insertZone make = .ok (after, id)) : Statement db after
  | updateZones {db after : Database} {selected : Zone → Bool} {change : Zone → Zone}
      (same : ∀ zone ∈ db.zones, selected zone = true →
        (change zone).id = zone.id ∧ (change zone).volumeId = zone.volumeId ∧
          (change zone).entryCount = zone.entryCount ∧ (change zone).fileBytes = zone.fileBytes)
      (updated : db.updateZones selected change = .ok after) : Statement db after
  | deleteZones {db : Database} (selected : Zone → Bool) : Statement db (db.deleteZones selected)
  | other {db after : Database} (zones : after.zones = db.zones)
      (zoneEntries : after.zoneEntries = db.zoneEntries) (nextNode : after.nextNode = db.nextNode) :
      Statement db after

/-- The databases between the statements of a transaction. -/
abbrev Statements : Database → Database → Prop :=
  ReflTransGen Statement

/-- The counters are exact, and the sequence has given out all zone ids. -/
structure Accounting (db : Database) : Prop where
  accounts : Accounts db
  zone_bound : ∀ zone ∈ db.zoneNodes, zone.id < db.nextNode
  entry_bound : ∀ entry ∈ db.zoneEntries, entry.zoneId < db.nextNode

theorem Sound.accounting {db : Database} (sound : Sound db) : Accounting db where
  accounts := sound.accounts
  zone_bound := sound.keys.zone_bound
  entry_bound := fun _ member => sound.keys.entry_zone_bound member

theorem Accounting.of_inStoredZone {db : Database} (accounting : Accounting db) {entry : ZoneEntry}
    (inZone : InStoredZone db.zoneNodes entry) : entry.zoneId < db.nextNode := by
  obtain ⟨zone, member, same, -⟩ := inZone
  rw [← same]
  exact accounting.zone_bound zone member

/-- What one statement keeps. -/
theorem Accounting.statement {db after : Database} (accounting : Accounting db)
    (statement : Statement db after) : Accounting after := by
  cases statement with
  | insertEntries ids inZone inserted =>
      have accounts := accounting.accounts.insertEntries inserted
      have nodes := zoneNodes_insertEntries inserted
      obtain ⟨rfl, -⟩ := insertEntries_ok inserted
      constructor
      · exact accounts
      · rw [nodes]
        intro zone member
        exact Nat.lt_add_right _ (accounting.zone_bound zone member)
      · intro entry member
        apply Nat.lt_add_right
        rcases List.mem_append.mp member with old | new
        · exact accounting.entry_bound entry old
        · obtain ⟨make, makeMember, serial, -, -, rfl⟩ := mem_numbered new
          exact accounting.of_inStoredZone (inZone make makeMember serial)
  | updateEntries inZone updated =>
      have accounts := accounting.accounts.updateEntries updated
      have nodes := zoneNodes_updateEntries updated
      obtain ⟨rfl, -⟩ := updateEntries_ok updated
      constructor
      · exact accounts
      · rw [nodes]
        exact accounting.zone_bound
      · intro changed member
        obtain ⟨entry, entryMember, rfl⟩ := List.mem_map.mp member
        have bound := accounting.entry_bound entry entryMember
        unfold rewritten
        split
        · rename_i chosen
          rcases inZone entry entryMember chosen with same | stored
          · rw [same]
            exact bound
          · exact accounting.of_inStoredZone stored
        · exact bound
  | deleteEntries selected =>
      constructor
      · exact accounting.accounts.deleteEntries selected
      · rw [zoneNodes_deleteEntries]
        exact accounting.zone_bound
      · intro entry member
        exact accounting.entry_bound entry (List.mem_of_mem_filter member)
  | @insertZone _ make id ids inserted =>
      have accounts := accounting.accounts.insertZone accounting.entry_bound ids inserted
      have nodes := zoneNodes_insertZone inserted
      obtain ⟨rfl, -⟩ := insertZone_ok inserted
      constructor
      · exact accounts
      · rw [nodes]
        intro zone member
        rcases List.mem_append.mp member with old | new
        · exact Nat.lt_succ_of_lt (accounting.zone_bound zone old)
        · rw [List.mem_singleton.mp new, ids]
          exact Nat.lt_succ_self _
      · intro entry member
        exact Nat.lt_succ_of_lt (accounting.entry_bound entry member)
  | updateZones same updated =>
      have accounts := accounting.accounts.updateZones same updated
      obtain ⟨rfl, -⟩ := updateZones_ok updated
      constructor
      · exact accounts
      · intro node member
        obtain ⟨changed, changedMember, rfl⟩ := List.mem_map.mp member
        obtain ⟨zone, zoneMember, rfl⟩ := List.mem_map.mp changedMember
        have bound := accounting.zone_bound zone.toZoneNode (List.mem_map_of_mem zoneMember)
        unfold rewritten
        split
        · rename_i chosen
          rw [(same zone zoneMember chosen).1]
          exact bound
        · exact bound
      · exact accounting.entry_bound
  | deleteZones selected =>
      constructor
      · exact accounting.accounts.deleteZones selected
      · intro node member
        obtain ⟨zone, zoneMember, rfl⟩ := List.mem_map.mp member
        exact accounting.zone_bound zone.toZoneNode
          (List.mem_map_of_mem (List.mem_of_mem_filter zoneMember))
      · exact accounting.entry_bound
  | other zones zoneEntries nextNode =>
      constructor
      · unfold Accounts
        rw [zones, zoneEntries]
        exact accounting.accounts
      · unfold Database.zoneNodes
        rw [zones, nextNode]
        exact accounting.zone_bound
      · rw [zoneEntries, nextNode]
        exact accounting.entry_bound

theorem Accounting.statements {db after : Database} (accounting : Accounting db)
    (statements : Statements db after) : Accounting after := by
  induction statements with
  | refl => exact accounting
  | tail _ last ih => exact ih.statement last

/-! ### Operations -/

theorem Statements.one {base db after : Database} (sofar : Statements base db)
    (statement : Statement db after) : Statements base after :=
  ReflTransGen.tail sofar statement

section Operations

variable {base db after : Database} {volume : Uuid} (sofar : Statements base db)

include sofar

theorem Statements.createVolume {volumeId id : Uuid} {volumeName : Text} {now : Timestamp}
    (done : db.createVolume volumeId volumeName now = .ok (after, id)) :
    Statements base after := by
  obtain ⟨-, inserted, zone, insertOk, rfl⟩ := createVolume_ok done
  obtain ⟨tables, shape, -⟩ := prepareContentVolume_eq inserted volumeId
  have named : Statements base
      { db with volumes := db.volumes ++ [{ id := volumeId, name := volumeName }] } :=
    sofar.one (.other rfl rfl rfl)
  rw [shape]
  exact (named.one (.insertZone (fun _ => rfl) insertOk)).one (.other rfl rfl rfl)

theorem Statements.insertOne {make : NodeId → ZoneEntry} (ids : ∀ serial, (make serial).id = serial)
    (inZone : ∀ serial, InStoredZone db.zoneNodes (make serial))
    (inserted : db.insertEntries [make] = .ok after) : Statements base after := by
  refine sofar.one (.insertEntries ?_ ?_ inserted)
  · intro other member
    rw [List.mem_singleton.mp member]
    exact ids
  · intro other member
    rw [List.mem_singleton.mp member]
    exact inZone

theorem Statements.mkdirOne {targetPath : Text} {mode : Int} {now : Timestamp}
    (done : db.mkdirOne volume targetPath mode now = .ok after) : Statements base after := by
  obtain ⟨-, rfl⟩ | ⟨location, vacant, inserted⟩ := mkdirOne_ok done
  · exact sofar
  · exact sofar.insertOne (fun _ => rfl)
      (fun _ => inStoredZone_of_parent vacant.located rfl rfl) inserted

theorem Statements.mkdir {targetPath : Text} {parents : Bool} {mode : Int} {now : Timestamp}
    (done : db.mkdir volume targetPath parents mode now = .ok after) : Statements base after :=
  mkdir_invariant (Statements base) (fun _ _ _ earlier made => Statements.mkdirOne earlier made)
    sofar done

theorem Statements.mkdirMany {targetPaths : List Text} {parents : Bool} {now : Timestamp}
    (done : db.mkdirMany volume targetPaths parents now = .ok after) : Statements base after := by
  cases parents with
  | true =>
      exact foldlM_invariant (Statements base) (fun _ _ _ _ earlier made => earlier.mkdir made)
        sofar done
  | false =>
      obtain ⟨-, inserted⟩ := mkdirMany_ok done
      refine sofar.one (.insertEntries ?_ ?_ inserted)
      · intro make member serial
        obtain ⟨path, -, found⟩ := List.mem_filterMap.mp member
        obtain ⟨location, -, rfl⟩ := Option.map_eq_some_iff.mp found
        rfl
      · intro make member serial
        obtain ⟨path, -, found⟩ := List.mem_filterMap.mp member
        obtain ⟨location, located, rfl⟩ := Option.map_eq_some_iff.mp found
        exact inStoredZone_of_parent located rfl rfl

theorem Statements.setTimes {targetPath : Text}
    {atimeSeconds atimeNanoseconds mtimeSeconds mtimeNanoseconds : Int} {now : Timestamp}
    {rows : List Inode}
    (done : db.setTimes volume targetPath atimeSeconds atimeNanoseconds mtimeSeconds
      mtimeNanoseconds now = .ok (after, rows)) : Statements base after := by
  obtain ⟨location, atime, mtime, -, updated | updated⟩ := setTimes_ok done
  · refine sofar.one (.updateZones ?_ updated)
    intro zone _ _
    exact ⟨rfl, rfl, rfl, rfl⟩
  · refine sofar.one (.updateEntries ?_ updated)
    intro entry _ _
    exact Or.inl rfl

theorem Statements.writeFileInline {targetPath : Text} {data : Bytes} {mode : Int}
    {now : Timestamp} {id : NodeId}
    (done : db.writeFileInline volume targetPath data mode now = .ok (after, id)) :
    Statements base after := by
  obtain ⟨-, -, parent, located, ⟨-, -, inserted⟩ | ⟨existing, -, -, -, updated⟩⟩ :=
    writeFileInline_ok done
  · exact sofar.insertOne (fun _ => rfl) (fun _ => inStoredZone_of_parent located rfl rfl) inserted
  · refine sofar.one (.updateEntries ?_ updated)
    intro entry _ _
    exact Or.inl rfl

theorem Statements.reclaim (done : db.reclaimContentSegments volume = .ok after) :
    Statements base after := by
  refine foldlM_invariant (Statements base) ?_ sofar done
  intro state segment next _ earlier reclaimed
  rw [(reclaimSegment_ok reclaimed).1]
  exact earlier.one (.other rfl rfl rfl)

theorem Statements.detachMapped {zone : NodeId} (done : db.detachMapped volume zone = .ok after) :
    Statements base after := by
  unfold Database.detachMapped at done
  refine sofar.one (.updateEntries ?_ done)
  intro entry _ _
  left
  split
  · unfold detachText
    split
    · rfl
    · rfl
  · rfl

theorem Statements.createContentMapping {zone : NodeId}
    (done : db.createContentMapping volume zone = .ok after) : Statements base after := by
  unfold Database.createContentMapping at done
  split at done
  · cases done
  · rw [← Except.ok.inj done]
    exact sofar.one (.other rfl rfl rfl)

theorem Statements.blockizeZone {zone : NodeId} (done : db.blockizeZone volume zone = .ok after) :
    Statements base after := by
  obtain ⟨mapped, mapOk, done⟩ := bind_eq_ok.mp done
  obtain ⟨blocks, -, detachOk⟩ := bind_eq_ok.mp done
  have stored : Statements base { mapped with
      contentObjects := mapped.contentObjects ++ mapped.mappedObjects volume zone none
      contentBlocks := mapped.contentBlocks ++ blocks } :=
    (sofar.createContentMapping mapOk).one (.other rfl rfl rfl)
  exact stored.detachMapped detachOk

theorem Statements.publishContentSegment {segment : Uuid}
    (done : db.publishContentSegment volume segment = .ok after) : Statements base after := by
  unfold Database.publishContentSegment at done
  dsimp only at done
  split at done
  · cases done
  · split at done
    · cases done
    · split at done
      · cases done
      · rw [← Except.ok.inj done]
        exact sofar.one (.other rfl rfl rfl)

theorem Statements.blockizeZoneSegment {zone : NodeId}
    (done : db.blockizeZoneSegment volume zone = .ok after) : Statements base after := by
  unfold Database.blockizeZoneSegment at done
  dsimp only at done
  obtain ⟨prepared, prepareOk, done⟩ := bind_eq_ok.mp done
  obtain ⟨mapped, mapOk, done⟩ := bind_eq_ok.mp done
  have segment : Statements base prepared := by
    rw [prepareContentSegment_ok prepareOk]
    exact sofar.one (.other rfl rfl rfl)
  have mapping := segment.createContentMapping mapOk
  split at done
  · rw [← Except.ok.inj done]
    exact mapping.one (.other rfl rfl rfl)
  · obtain ⟨blocks, -, done⟩ := bind_eq_ok.mp done
    obtain ⟨detached, detachOk, publishOk⟩ := bind_eq_ok.mp done
    have staged : Statements base (Database.stageBlocks { mapped with
        contentObjects := mapped.contentObjects ++
          mapped.mappedObjects volume zone (some db.nextUuid) } db.nextUuid blocks) :=
      mapping.one (.other rfl rfl rfl)
    exact (staged.detachMapped detachOk).publishContentSegment publishOk

theorem Statements.writeFile {targetPath : Text} {data : Bytes} {mode : Int} {now : Timestamp}
    {id : NodeId} (done : db.writeFile volume targetPath data mode now = .ok (after, id)) :
    Statements base after := by
  obtain ⟨written, location, blockized, writeOk, -, blockOk, reclaimOk⟩ := writeFile_ok done
  exact ((sofar.writeFileInline writeOk).blockizeZone blockOk).reclaim reclaimOk

theorem Statements.fillZone (volume : Uuid) {inserted : Database} {make : NodeId → ZoneNode} {zone : NodeId}
    {makers : List (NodeId → ZoneEntry)} (ids : ∀ serial, (make serial).id = serial)
    (inVolume : ∀ serial, (make serial).volumeId = volume)
    (zoneOk : db.insertZone make = .ok (inserted, zone))
    (rows : ∀ maker ∈ makers, ∀ serial,
      (maker serial).id = serial ∧ (maker serial).zoneId = zone ∧ (maker serial).volumeId = volume)
    (fillOk : inserted.insertEntries makers = .ok after) : Statements base after := by
  have nodes := zoneNodes_insertZone zoneOk
  have zoneId := (insertZone_ok zoneOk).2.1
  refine (sofar.one (.insertZone ids zoneOk)).one (.insertEntries ?_ ?_ fillOk)
  · intro maker member serial
    exact (rows maker member serial).1
  · intro maker member serial
    obtain ⟨-, inZone, sameVolume⟩ := rows maker member serial
    rw [nodes]
    refine ⟨make db.nextNode, List.mem_append_right _ (List.mem_singleton_self _), ?_, ?_⟩
    · rw [inZone, zoneId]
    · rw [inVolume, sameVolume]

theorem Statements.importTree {destination : Text} {entries : List ImportEntry} {now : Timestamp}
    {count : Nat} (done : db.importTree volume destination entries now = .ok (after, count)) :
    Statements base after := by
  obtain ⟨-, staging, imported, location, -, importOk, -, blockOk⟩ := importTree_ok done
  refine Statements.blockizeZoneSegment ?_ blockOk
  obtain ⟨-, root, parent, -, vacant, ⟨-, inserted, zone, zoneOk, fillOk⟩ | ⟨-, insertOk⟩⟩ :=
    applyImportInline_ok importOk
  · refine sofar.fillZone volume ?_ ?_ zoneOk ?_ fillOk
    · exact fun _ => rfl
    · exact fun _ => rfl
    intro make member serial
    obtain ⟨staged, -, rfl⟩ := List.mem_map.mp member
    exact ⟨rfl, rfl, rfl⟩
  · exact sofar.insertOne (fun _ => rfl) (fun _ => inStoredZone_of_parent vacant.located rfl rfl)
      insertOk

theorem Statements.importText {target : Text} {reader : Bytes} {now : Timestamp} {id : NodeId}
    (done : db.importText volume target reader now = .ok (after, id)) : Statements base after := by
  unfold Database.importText at done
  dsimp only at done
  obtain ⟨prepared, prepareOk, done⟩ := bind_eq_ok.mp done
  obtain ⟨⟨blocks, size⟩, -, done⟩ := bind_eq_ok.mp done
  obtain ⟨published, publishOk, done⟩ := bind_eq_ok.mp done
  obtain ⟨written, writeOk, updateOk⟩ := publishContent_ok done
  have segment : Statements base prepared := by
    rw [prepareContentSegment_ok prepareOk]
    exact sofar.one (.other rfl rfl rfl)
  have staged : Statements base published := by
    refine Statements.publishContentSegment ?_ publishOk
    exact segment.one (.other rfl rfl rfl)
  have writing : Statements base written := by
    refine Statements.writeFileInline ?_ writeOk
    exact staged.one (.other rfl rfl rfl)
  refine writing.one (.updateEntries ?_ updateOk)
  intro entry _ _
  left
  unfold attached
  split
  · rfl
  · rfl

theorem Statements.copy {sourcePath destinationPath : Text} {recursive : Bool} {now : Timestamp}
    {count : Nat}
    (done : db.copy volume sourcePath destinationPath recursive now = .ok (after, count)) :
    Statements base after := by
  obtain ⟨sourceLocation, parent, copyable, ⟨-, copied⟩ | ⟨-, copied⟩⟩ := copy_ok done
  · obtain ⟨-, -, source, inserted, zone, -, zoneOk, fillOk, -⟩ := copyZone_ok copied
    refine sofar.fillZone volume ?_ ?_ zoneOk ?_ fillOk
    · exact fun _ => rfl
    · exact fun _ => rfl
    intro make member serial
    obtain ⟨source, -, rfl⟩ := List.mem_map.mp member
    exact ⟨rfl, rfl, rfl⟩
  · obtain ⟨-, insertOk, -⟩ := copyEntry_ok copied
    refine sofar.one (.insertEntries ?_ ?_ insertOk)
    · intro make member serial
      obtain ⟨source, -, rfl⟩ := List.mem_map.mp member
      rfl
    · intro make member serial
      obtain ⟨source, -, rfl⟩ := List.mem_map.mp member
      exact inStoredZone_of_parent copyable.vacant.located rfl rfl

theorem Statements.relocate {replaced : Database} {source destination : Text}
    {sourceLocation parent : Location} {now : Timestamp}
    (movable : Movable db replaced volume source destination sourceLocation parent)
    (relocated : Relocated replaced after volume source destination sourceLocation parent now) :
    Statements base after := by
  have replacing : Statements base replaced := by
    obtain ⟨-, ⟨-, rfl⟩ | ⟨location, -, rfl⟩⟩ := replaceDestination_ok movable.replaces
    · exact sofar
    · exact sofar.one (.deleteEntries _)
  obtain ⟨-, updated⟩ | ⟨-, -, updated⟩ := relocated
  · refine replacing.one (.updateZones ?_ updated)
    intro zone _ _
    unfold movedZone
    dsimp only
    split
    · exact ⟨rfl, rfl, rfl, rfl⟩
    · exact ⟨rfl, rfl, rfl, rfl⟩
  · refine replacing.one (.updateEntries ?_ updated)
    intro entry _ chosen
    exact Or.inr (inStoredZone_of_parent movable.parent_located rfl (of_decide_eq_true chosen).1)

theorem Statements.move {sourcePath destinationPath : Text} {now : Timestamp} {count : Nat}
    (done : db.move volume sourcePath destinationPath now = .ok (after, count)) :
    Statements base after := by
  obtain ⟨replaced, sourceLocation, parent, movable, relocated⟩ := move_ok done
  exact sofar.relocate movable relocated

theorem Statements.moveCommand {sourcePath destinationPath : Text} {now : Timestamp} {count : Int}
    (done : db.moveCommand volume sourcePath destinationPath now = .ok (after, count)) :
    Statements base after := by
  obtain ⟨replaced, sourceLocation, parent, movable, relocated⟩ := moveCommand_ok done
  exact sofar.relocate movable relocated

theorem Statements.deleteZoneTrees (selected : ZoneNode → Bool) :
    Statements base (db.deleteZoneTrees volume selected).1 :=
  (sofar.one (.deleteEntries _)).one (.deleteZones _)

theorem Statements.remove {targetPath : Text} {recursive : Bool} {count : Nat}
    (done : db.remove volume targetPath recursive = .ok (after, count)) :
    Statements base after := by
  obtain ⟨location, -, reclaimed, -⟩ := remove_ok.mp done
  refine Statements.reclaim ?_ reclaimed
  unfold Database.removeRows
  split
  · exact sofar.deleteZoneTrees _
  · unfold Database.removeEntryRows
    refine Statements.one ?_ (.deleteEntries _)
    split
    · exact sofar.deleteZoneTrees _
    · exact sofar

theorem Statements.removeMany {targetPaths : List Text} {recursive forceMissing : Bool}
    {count : Nat}
    (done : db.removeMany volume targetPaths recursive forceMissing = .ok (after, count)) :
    Statements base after := by
  refine removeMany_invariant (Statements base) ?_ ?_ sofar done
  · intro state path next removed earlier removeOk
    exact Statements.remove earlier removeOk
  · intro _ _ removing
    obtain ⟨-, -, -, reclaimed⟩ := removeBulk_ok.mp removing
    exact (sofar.one (.deleteEntries _)).reclaim reclaimed

end Operations

/-- Every operation is a sequence of statements. -/
theorem run_statements {op : Op} {db after : Database} (done : op.run db = .ok after) :
    Statements db after := by
  have start : Statements db db := .refl
  cases op with
  | createVolume volumeId volumeName now =>
      obtain ⟨⟨last, id⟩, ran, rfl⟩ := map_eq_ok.mp done
      exact start.createVolume ran
  | mkdir volume targetPath parents mode now => exact start.mkdir done
  | mkdirMany volume targetPaths parents now => exact start.mkdirMany done
  | writeFile volume targetPath data mode now =>
      obtain ⟨⟨last, id⟩, ran, rfl⟩ := map_eq_ok.mp done
      exact start.writeFile ran
  | importTree volume destination entries now =>
      obtain ⟨⟨last, count⟩, ran, rfl⟩ := map_eq_ok.mp done
      exact start.importTree ran
  | importText volume target reader now =>
      obtain ⟨⟨last, id⟩, ran, rfl⟩ := map_eq_ok.mp done
      exact start.importText ran
  | copy volume sourcePath destinationPath recursive now =>
      obtain ⟨⟨last, count⟩, ran, rfl⟩ := map_eq_ok.mp done
      exact start.copy ran
  | move volume sourcePath destinationPath now =>
      obtain ⟨⟨last, count⟩, ran, rfl⟩ := map_eq_ok.mp done
      exact start.move ran
  | moveCommand volume sourcePath destinationPath now =>
      obtain ⟨⟨last, count⟩, ran, rfl⟩ := map_eq_ok.mp done
      exact start.moveCommand ran
  | remove volume targetPath recursive =>
      obtain ⟨⟨last, count⟩, ran, rfl⟩ := map_eq_ok.mp done
      exact start.remove ran
  | removeMany volume targetPaths recursive forceMissing =>
      obtain ⟨⟨last, count⟩, ran, rfl⟩ := map_eq_ok.mp done
      exact start.removeMany ran
  | setTimes volume targetPath atimeSeconds atimeNanoseconds mtimeSeconds mtimeNanoseconds now =>
      obtain ⟨⟨last, rows⟩, ran, rfl⟩ := map_eq_ok.mp done
      exact start.setTimes ran

/-- Whatever statements a transaction has executed by now, the counters are exact, and the
operations are made of such statements. -/
theorem zone_accounting {db : Database} (reachable : ReachableDatabase db) :
    (∀ state, Statements db state → ∀ zone ∈ state.zones,
      zone.entryCount = (state.zoneEntries.filter fun entry =>
        entry.volumeId = zone.volumeId ∧ entry.zoneId = zone.id).length ∧
      zone.fileBytes = total (fun entry => (entry.size : Int)) (state.zoneEntries.filter fun entry =>
        entry.volumeId = zone.volumeId ∧ entry.zoneId = zone.id ∧ entry.kind = .file)) ∧
    ∀ (op : Op) (after : Database), op.run db = .ok after → Statements db after := by
  constructor
  · intro state statements zone member
    have start := (committed_of_reachable reachable).sound.accounting
    obtain ⟨count, bytes⟩ := (start.statements statements).accounts zone member
    refine ⟨count, ?_⟩
    rw [bytes, fileBytesOf_eq_total, total_filter]
    apply total_congr
    intro entry _
    unfold bytesWeight
    simp only [decide_eq_true_eq]
  · intro op after ran
    exact run_statements ran

theorem zone_accounting_of_calls :
    ((Database.empty.calls [.createVolume 7 "v".toList 0,
        .writeFile 7 "/f".toList [1, 2, 3] 420 1, .move 7 "/f".toList "/g".toList 2]).zones.all
      fun zone => zone.entryCount = 1 ∧ zone.fileBytes = 3) = true := by
  rw [List.all_eq_true]
  intro zone member
  rw [decide_eq_true_eq]
  obtain ⟨count, bytes⟩ := (zone_accounting (reachable_calls _)).1 _ .refl zone member
  rw [count, bytes]
  revert zone
  decide +kernel

end PostgreOS
