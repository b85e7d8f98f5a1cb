/-
Several calls in one transaction.

A transaction keeps the mapping table of a write until it commits. All other calls neither read
nor touch that table, so a sequence of calls in one transaction does what the calls do in
transactions of their own, unless it writes twice.
-/

import PostgreOS.SegmentLifecycle

namespace PostgreOS

open Library.Outcome Library.Table

def Database.withMapping (db : Database) (mapping : Option (List (NodeId × Uuid))) : Database :=
  { db with contentMapping := mapping }

/-- A call of a function of the schema `pgos` with its arguments and its clock reading. -/
inductive ApiCall where
  | mkdir (volume : Uuid) (targetPath : Text) (parents : Bool) (mode : Int) (now : Timestamp)
  | writeFile (volume : Uuid) (targetPath : Text) (data : Bytes) (mode : Int) (now : Timestamp)
  | copy (volume : Uuid) (sourcePath destinationPath : Text) (recursive : Bool) (now : Timestamp)
  | move (volume : Uuid) (sourcePath destinationPath : Text) (now : Timestamp)
  | remove (volume : Uuid) (targetPath : Text) (recursive : Bool)
  | setTimes (volume : Uuid) (targetPath : Text)
      (atimeSeconds atimeNanoseconds mtimeSeconds mtimeNanoseconds : Int) (now : Timestamp)
  | readFile (volume : Uuid) (targetPath : Text)
  deriving DecidableEq, Repr

/-- What a call returns. -/
inductive Answer where
  | nothing
  | node (id : NodeId)
  | rows (count : Nat)
  | inodes (found : List Inode)
  | bytes (data : Bytes)
  deriving DecidableEq, Repr

/-- The database that a call leaves to its transaction, and its answer. -/
def ApiCall.run (db : Database) : ApiCall → Result (Database × Answer)
  | .mkdir volume targetPath parents mode now =>
      (fun after => (after, .nothing)) <$> db.mkdir volume targetPath parents mode now
  | .writeFile volume targetPath data mode now =>
      Prod.map (fun after => after) .node <$> db.writeFile volume targetPath data mode now
  | .copy volume sourcePath destinationPath recursive now =>
      Prod.map (fun after => after) .rows <$> db.copy volume sourcePath destinationPath recursive now
  | .move volume sourcePath destinationPath now =>
      Prod.map (fun after => after) .rows <$> db.move volume sourcePath destinationPath now
  | .remove volume targetPath recursive =>
      Prod.map (fun after => after) .rows <$> db.remove volume targetPath recursive
  | .setTimes volume targetPath atimeSeconds atimeNanoseconds mtimeSeconds mtimeNanoseconds now =>
      Prod.map (fun after => after) .inodes <$> db.setTimes volume targetPath atimeSeconds
        atimeNanoseconds mtimeSeconds mtimeNanoseconds now
  | .readFile volume targetPath => (fun data => (db, .bytes data)) <$> db.readFile volume targetPath

def ApiCall.isWrite : ApiCall → Bool
  | .writeFile .. => true
  | _ => false

/-- The calls one after the other, each in a transaction of its own. -/
def Database.runSeparately (db : Database) : List ApiCall → Result (Database × List Answer)
  | [] => .ok (db, [])
  | call :: rest => do
      let (after, answer) ← call.run db
      let (last, answers) ← after.commit.runSeparately rest
      .ok (last, answer :: answers)

/-- The calls one after the other, before the end of their transaction. -/
def Database.runTogether (db : Database) : List ApiCall → Result (Database × List Answer)
  | [] => .ok (db, [])
  | call :: rest => do
      let (after, answer) ← call.run db
      let (last, answers) ← after.runTogether rest
      .ok (last, answer :: answers)

/-! ### What does not read the mapping table -/

section Mapping

variable (db : Database) (mapping : Option (List (NodeId × Uuid))) (volume : Uuid)

@[simp] theorem locateZone_withMapping (path : Text) :
    (db.withMapping mapping).locateZone volume path = db.locateZone volume path := rfl

@[simp] theorem locateParent_withMapping (path : Text) :
    (db.withMapping mapping).locateParent volume path = db.locateParent volume path := rfl

@[simp] theorem entryAt_withMapping (location : Location) :
    (db.withMapping mapping).entryAt volume location = db.entryAt volume location := rfl

@[simp] theorem kindOf_withMapping (path : Text) :
    (db.withMapping mapping).kindOf volume path = db.kindOf volume path := rfl

@[simp] theorem kindOfParent_withMapping (path : Text) :
    (db.withMapping mapping).kindOfParent volume path = db.kindOfParent volume path := rfl

@[simp] theorem zonesLikeBelow_withMapping (root : Text) :
    (db.withMapping mapping).zonesLikeBelow volume root = db.zonesLikeBelow volume root := rfl

theorem insertEntries_withMapping (makers : List (NodeId → ZoneEntry)) :
    (db.withMapping mapping).insertEntries makers =
      (fun after => after.withMapping mapping) <$> db.insertEntries makers := by
  unfold Database.insertEntries
  dsimp only [Database.withMapping]
  cases insertRows entryClash (numbered db.nextNode makers) db.zoneEntries <;> rfl

theorem updateEntries_withMapping (selected : ZoneEntry → Bool) (change : ZoneEntry → ZoneEntry) :
    (db.withMapping mapping).updateEntries selected change =
      (fun after => after.withMapping mapping) <$> db.updateEntries selected change := by
  unfold Database.updateEntries
  dsimp only [Database.withMapping]
  cases updateRows entryClash selected change db.zoneEntries <;> rfl

theorem updateZones_withMapping (selected : Zone → Bool) (change : Zone → Zone) :
    (db.withMapping mapping).updateZones selected change =
      (fun after => after.withMapping mapping) <$> db.updateZones selected change := by
  unfold Database.updateZones
  dsimp only [Database.withMapping]
  cases updateRows storedZoneClash selected change db.zones <;> rfl

theorem insertZone_withMapping (make : NodeId → ZoneNode) :
    (db.withMapping mapping).insertZone make =
      Prod.map (fun after => after.withMapping mapping) (fun zone => zone) <$> db.insertZone make := by
  unfold Database.insertZone
  dsimp only [Database.withMapping]
  rw [map_ite]
  refine if_congr Iff.rfl rfl ?_
  cases insertRows storedZoneClash [_] db.zones <;> rfl

theorem mkdirOne_withMapping (targetPath : Text) (mode : Int) (now : Timestamp) :
    (db.withMapping mapping).mkdirOne volume targetPath mode now =
      (fun after => after.withMapping mapping) <$> db.mkdirOne volume targetPath mode now := by
  unfold Database.mkdirOne
  simp only [kindOf_withMapping, kindOfParent_withMapping, locateParent_withMapping,
    insertEntries_withMapping, map_bind, map_ite]
  rfl

theorem mkdirParents_withMapping (mode : Int) (now : Timestamp) (parts : List Text) (current : Text)
    (db : Database) :
    mkdirParents volume mode now parts current (db.withMapping mapping) =
      (fun after => after.withMapping mapping) <$> mkdirParents volume mode now parts current db := by
  induction parts generalizing current db with
  | nil => rfl
  | cons part rest ih =>
      unfold mkdirParents
      dsimp only
      rw [kindOf_withMapping]
      split
      · rw [mkdirOne_withMapping, bind_map_left, map_bind]
        exact bind_congr fun made => ih _ made
      · exact ih _ db
      · rfl

theorem mkdir_withMapping (targetPath : Text) (parents : Bool) (mode : Int) (now : Timestamp) :
    (db.withMapping mapping).mkdir volume targetPath parents mode now =
      (fun after => after.withMapping mapping) <$> db.mkdir volume targetPath parents mode now := by
  unfold Database.mkdir
  simp only [mkdirParents_withMapping, mkdirOne_withMapping, map_bind, map_ite]
  rfl

/-- The change of a state that a call leaves beside its result. -/
abbrev keepMapping {α : Type} (result : Database × α) : Database × α :=
  (result.1.withMapping mapping, result.2)

theorem copyZone_withMapping (source destination : Text) (sourceLocation parent : Location)
    (recursive : Bool) (now : Timestamp) :
    (db.withMapping mapping).copyZone volume source destination sourceLocation parent recursive now =
      keepMapping mapping <$> db.copyZone volume source destination sourceLocation parent recursive now := by
  unfold Database.copyZone
  simp only [zonesLikeBelow_withMapping, insertZone_withMapping, map_bind, map_ite, bind_map_left,
    Prod.map_fst, Prod.map_snd, insertEntries_withMapping]
  rfl

theorem copyEntry_withMapping (source destination : Text) (sourceLocation parent : Location)
    (recursive : Bool) (now : Timestamp) :
    (db.withMapping mapping).copyEntry volume source destination sourceLocation parent recursive now =
      keepMapping mapping <$> db.copyEntry volume source destination sourceLocation parent recursive now := by
  unfold Database.copyEntry
  rw [entryAt_withMapping]
  split
  · rfl
  · simp only [zonesLikeBelow_withMapping, insertEntries_withMapping, map_bind, map_ite, bind_map_left]
    rfl

theorem copy_withMapping (source destination : Text) (recursive : Bool) (now : Timestamp) :
    (db.withMapping mapping).copy volume source destination recursive now =
      keepMapping mapping <$> db.copy volume source destination recursive now := by
  unfold Database.copy
  simp only [kindOf_withMapping, kindOfParent_withMapping, locateZone_withMapping,
    locateParent_withMapping, copyZone_withMapping, copyEntry_withMapping, map_bind, map_ite]
  rfl

theorem replaceDestination_withMapping (destination : Text) :
    (db.withMapping mapping).replaceDestination volume destination =
      (fun after => after.withMapping mapping) <$> db.replaceDestination volume destination := by
  unfold Database.replaceDestination
  rw [kindOf_withMapping, locateZone_withMapping]
  split
  · rfl
  · rfl
  · rw [map_bind]
    rfl

theorem moveZone_withMapping (source destination : Text) (sourceLocation parent : Location)
    (now : Timestamp) :
    (db.withMapping mapping).moveZone volume source destination sourceLocation parent now =
      keepMapping mapping <$> db.moveZone volume source destination sourceLocation parent now := by
  unfold Database.moveZone
  simp only [updateZones_withMapping, map_bind, bind_map_left]
  rfl

theorem moveEntry_withMapping (source destination : Text) (sourceLocation parent : Location)
    (now : Timestamp) :
    (db.withMapping mapping).moveEntry volume source destination sourceLocation parent now =
      keepMapping mapping <$> db.moveEntry volume source destination sourceLocation parent now := by
  unfold Database.moveEntry
  simp only [zonesLikeBelow_withMapping, updateEntries_withMapping, map_bind, map_ite, bind_map_left]
  rfl

theorem move_withMapping (source destination : Text) (now : Timestamp) :
    (db.withMapping mapping).move volume source destination now =
      keepMapping mapping <$> db.move volume source destination now := by
  unfold Database.move
  simp only [kindOf_withMapping, kindOfParent_withMapping, replaceDestination_withMapping,
    locateZone_withMapping, locateParent_withMapping, moveZone_withMapping, moveEntry_withMapping,
    map_bind, bind_map_left, map_ite]
  rfl

theorem reclaimSegment_withMapping (segment : Uuid) :
    (db.withMapping mapping).reclaimSegment segment =
      (fun after => after.withMapping mapping) <$> db.reclaimSegment segment := by
  unfold Database.reclaimSegment
  simp only [map_ite]
  rfl

theorem reclaimContentSegments_withMapping :
    (db.withMapping mapping).reclaimContentSegments volume =
      (fun after => after.withMapping mapping) <$> db.reclaimContentSegments volume := by
  have loop (segments : List Uuid) (db : Database) :
      segments.foldlM Database.reclaimSegment (db.withMapping mapping) =
        (fun after => after.withMapping mapping) <$> segments.foldlM Database.reclaimSegment db := by
    induction segments generalizing db with
    | nil => rfl
    | cons segment rest ih =>
        rw [List.foldlM_cons, List.foldlM_cons, reclaimSegment_withMapping, bind_map_left, map_bind]
        exact bind_congr fun after => ih after
  exact loop (db.unusedSegments volume) db

theorem removeRows_withMapping (target : Text) (location : Location) (recursive : Bool) :
    (db.withMapping mapping).removeRows volume target location recursive =
      keepMapping mapping (db.removeRows volume target location recursive) := by
  unfold Database.removeRows
  split
  · rfl
  · unfold Database.removeEntryRows
    cases recursive <;> rfl

theorem remove_withMapping (target : Text) (recursive : Bool) :
    (db.withMapping mapping).remove volume target recursive =
      keepMapping mapping <$> db.remove volume target recursive := by
  unfold Database.remove
  simp only [kindOf_withMapping, locateZone_withMapping, removeRows_withMapping,
    reclaimContentSegments_withMapping, map_bind, bind_map_left, map_ite]
  rfl

theorem setTimes_withMapping (target : Text)
    (atimeSeconds atimeNanoseconds mtimeSeconds mtimeNanoseconds : Int) (now : Timestamp) :
    (db.withMapping mapping).setTimes volume target atimeSeconds atimeNanoseconds mtimeSeconds
        mtimeNanoseconds now =
      keepMapping mapping <$> db.setTimes volume target atimeSeconds atimeNanoseconds mtimeSeconds
        mtimeNanoseconds now := by
  unfold Database.setTimes
  simp only [locateZone_withMapping, updateZones_withMapping, updateEntries_withMapping, map_bind,
    bind_map_left, map_ite]
  rfl

theorem ApiCall.run_withMapping {call : ApiCall} (plain : call.isWrite = false) :
    call.run (db.withMapping mapping) = keepMapping mapping <$> call.run db := by
  cases call with
  | mkdir volume targetPath parents mode now =>
      rw [ApiCall.run, mkdir_withMapping, ApiCall.run, Functor.map_map, Functor.map_map]
  | writeFile volume targetPath data mode now => cases plain
  | copy volume sourcePath destinationPath recursive now =>
      rw [ApiCall.run, copy_withMapping, ApiCall.run, Functor.map_map, Functor.map_map]
      rfl
  | move volume sourcePath destinationPath now =>
      rw [ApiCall.run, move_withMapping, ApiCall.run, Functor.map_map, Functor.map_map]
      rfl
  | remove volume targetPath recursive =>
      rw [ApiCall.run, remove_withMapping, ApiCall.run, Functor.map_map, Functor.map_map]
      rfl
  | setTimes volume targetPath atimeSeconds atimeNanoseconds mtimeSeconds mtimeNanoseconds now =>
      rw [ApiCall.run, setTimes_withMapping, ApiCall.run, Functor.map_map, Functor.map_map]
      rfl
  | readFile volume targetPath =>
      rw [ApiCall.run, ApiCall.run, Functor.map_map]
      rfl

end Mapping

section Sequences

variable {db after : Database} {call : ApiCall} {answer : Answer}

theorem withMapping_contentMapping (db : Database) : db.withMapping db.contentMapping = db := rfl

theorem ApiCall.run_contentMapping (plain : call.isWrite = false)
    (done : call.run db = .ok (after, answer)) : after.contentMapping = db.contentMapping := by
  rw [← withMapping_contentMapping db, run_withMapping db _ plain] at done
  obtain ⟨result, -, same⟩ := map_eq_ok.mp done
  obtain ⟨rfl, -⟩ := Prod.mk.inj same
  rfl

theorem reclaimContentSegments_contentMapping {volume : Uuid}
    (done : db.reclaimContentSegments volume = .ok after) : after.contentMapping = db.contentMapping := by
  rw [← withMapping_contentMapping db, reclaimContentSegments_withMapping] at done
  obtain ⟨result, -, rfl⟩ := map_eq_ok.mp done
  rfl

theorem blockizeZone_contentMapping {volume : Uuid} {zone : NodeId}
    (done : db.blockizeZone volume zone = .ok after) :
    db.contentMapping = none ∧ after.contentMapping ≠ none := by
  unfold Database.blockizeZone at done
  obtain ⟨mapped, mapping, storing⟩ := bind_eq_ok.mp done
  obtain ⟨blocks, -, detaching⟩ := bind_eq_ok.mp storing
  unfold Database.createContentMapping at mapping
  split at mapping
  · cases mapping
  · rename_i unmapped
    rw [(updateEntries_ok detaching).1, ← Except.ok.inj mapping]
    exact ⟨Option.not_isSome_iff_eq_none.mp unmapped, Option.some_ne_none _⟩

theorem ApiCall.run_of_isWrite (write : call.isWrite = true)
    (done : call.run db = .ok (after, answer)) :
    db.contentMapping = none ∧ after.contentMapping ≠ none := by
  cases call with
  | writeFile volume targetPath data mode now =>
      obtain ⟨⟨last, id⟩, written, same⟩ := map_eq_ok.mp done
      obtain ⟨rfl, -⟩ := Prod.mk.inj same
      obtain ⟨inline, location, blockized, inlineOk, -, blockOk, reclaimOk⟩ := writeFile_ok written
      obtain ⟨unmapped, mapped⟩ := blockizeZone_contentMapping blockOk
      dsimp only
      rw [reclaimContentSegments_contentMapping reclaimOk, ← writeFileInline_contentMapping inlineOk]
      exact ⟨unmapped, mapped⟩
  | mkdir volume targetPath parents mode now => cases write
  | copy volume sourcePath destinationPath recursive now => cases write
  | move volume sourcePath destinationPath now => cases write
  | remove volume targetPath recursive => cases write
  | setTimes volume targetPath atimeSeconds atimeNanoseconds mtimeSeconds mtimeNanoseconds now =>
      cases write
  | readFile volume targetPath => cases write

theorem run_then_iff (rest : Database → Result (Database × List Answer)) {answers : List Answer} :
    (do let (middle, answer) ← call.run db
        let (last, others) ← rest middle
        .ok (last, answer :: others)) = .ok (after, answers) ↔
      ∃ middle answer others, call.run db = .ok (middle, answer) ∧
        rest middle = .ok (after, others) ∧ answers = answer :: others := by
  rw [bind_eq_ok]
  constructor
  · rintro ⟨⟨middle, answer⟩, ran, later⟩
    obtain ⟨⟨last, others⟩, ranLater, same⟩ := bind_eq_ok.mp later
    obtain ⟨rfl, rfl⟩ := Prod.mk.inj (Except.ok.inj same)
    exact ⟨middle, answer, others, ran, ranLater, rfl⟩
  · rintro ⟨middle, answer, others, ran, ranLater, rfl⟩
    exact ⟨(middle, answer), ran, bind_eq_ok.mpr ⟨(after, others), ranLater, rfl⟩⟩

theorem runSeparately_cons {rest : List ApiCall} {answers : List Answer} :
    db.runSeparately (call :: rest) = .ok (after, answers) ↔
      ∃ middle answer others, call.run db = .ok (middle, answer) ∧
        middle.commit.runSeparately rest = .ok (after, others) ∧ answers = answer :: others := by
  rw [Database.runSeparately]
  exact run_then_iff fun middle => middle.commit.runSeparately rest

theorem runTogether_cons {rest : List ApiCall} {answers : List Answer} :
    db.runTogether (call :: rest) = .ok (after, answers) ↔
      ∃ middle answer others, call.run db = .ok (middle, answer) ∧
        middle.runTogether rest = .ok (after, others) ∧ answers = answer :: others := by
  rw [Database.runTogether]
  exact run_then_iff fun middle => middle.runTogether rest

theorem runTogether_of_plain {calls : List ApiCall} {answers : List Answer}
    (plain : ∀ call ∈ calls, call.isWrite = false)
    (done : db.commit.runSeparately calls = .ok (after, answers)) :
    ∃ last, db.runTogether calls = .ok (last, answers) ∧ last.commit = after := by
  induction calls generalizing db answers with
  | nil =>
      obtain ⟨rfl, rfl⟩ := Prod.mk.inj (Except.ok.inj done)
      exact ⟨db, rfl, rfl⟩
  | cons call rest ih =>
      obtain ⟨middle, answer, others, ran, later, rfl⟩ := runSeparately_cons.mp done
      rw [show db.commit = db.withMapping none from rfl,
        ApiCall.run_withMapping db none (plain call List.mem_cons_self)] at ran
      obtain ⟨⟨found, shown⟩, ranHere, same⟩ := map_eq_ok.mp ran
      obtain ⟨rfl, rfl⟩ := Prod.mk.inj same
      have plainRest : ∀ call ∈ rest, call.isWrite = false :=
        fun other member => plain other (List.mem_cons_of_mem call member)
      have laterHere : found.commit.runSeparately rest = .ok (after, others) := later
      obtain ⟨last, ranLater, same⟩ := ih plainRest laterHere
      exact ⟨last, runTogether_cons.mpr ⟨found, shown, others, ranHere, ranLater, rfl⟩, same⟩

theorem plain_of_runTogether {calls : List ApiCall} {answers : List Answer}
    (mapped : db.contentMapping ≠ none) (done : db.runTogether calls = .ok (after, answers)) :
    ∀ call ∈ calls, call.isWrite = false := by
  induction calls generalizing db answers with
  | nil => exact fun call member => absurd member List.not_mem_nil
  | cons call rest ih =>
      obtain ⟨middle, answer, others, ran, later, rfl⟩ := runTogether_cons.mp done
      have plain : call.isWrite = false := by
        rw [← Bool.not_eq_true]
        intro write
        exact mapped (ApiCall.run_of_isWrite write ran).1
      refine List.forall_mem_cons.mpr ⟨plain, ih ?_ later⟩
      rwa [ApiCall.run_contentMapping plain ran]

def AtMostOneWrite (calls : List ApiCall) : Prop :=
  calls.countP ApiCall.isWrite ≤ 1

instance (calls : List ApiCall) : Decidable (AtMostOneWrite calls) :=
  inferInstanceAs (Decidable (_ ≤ _))

theorem atMostOneWrite_cons_of_plain {rest : List ApiCall} (plain : call.isWrite = false) :
    AtMostOneWrite (call :: rest) ↔ AtMostOneWrite rest := by
  rw [AtMostOneWrite, List.countP_cons_of_neg (by rw [plain]; exact Bool.false_ne_true), AtMostOneWrite]

theorem atMostOneWrite_cons_of_isWrite {rest : List ApiCall} (write : call.isWrite = true) :
    AtMostOneWrite (call :: rest) ↔ ∀ other ∈ rest, other.isWrite = false := by
  rw [AtMostOneWrite, List.countP_cons_of_pos write, Nat.succ_le_succ_iff, Nat.le_zero,
    List.countP_eq_zero]
  simp only [Bool.not_eq_true]

theorem atMostOneWrite_of_runTogether {calls : List ApiCall} {answers : List Answer}
    (done : db.runTogether calls = .ok (after, answers)) : AtMostOneWrite calls := by
  induction calls generalizing db answers with
  | nil => exact Nat.zero_le 1
  | cons call rest ih =>
      obtain ⟨middle, answer, others, ran, later, rfl⟩ := runTogether_cons.mp done
      cases write : call.isWrite with
      | false => exact (atMostOneWrite_cons_of_plain write).mpr (ih later)
      | true =>
          exact (atMostOneWrite_cons_of_isWrite write).mpr
            (plain_of_runTogether (ApiCall.run_of_isWrite write ran).2 later)

/-- Calls that succeed one by one do the same in one transaction if and only if at most one of
them is a write. -/
theorem runTogether_iff {calls : List ApiCall} {answers : List Answer}
    (idle : db.contentMapping = none) (done : db.runSeparately calls = .ok (after, answers)) :
    (∃ last, db.runTogether calls = .ok (last, answers) ∧ last.commit = after) ↔
      AtMostOneWrite calls := by
  refine ⟨fun ⟨last, together, _⟩ => atMostOneWrite_of_runTogether together, ?_⟩
  intro single
  induction calls generalizing db answers with
  | nil =>
      obtain ⟨rfl, rfl⟩ := Prod.mk.inj (Except.ok.inj done)
      exact ⟨db, rfl, by rw [Database.commit, ← idle]⟩
  | cons call rest ih =>
      obtain ⟨middle, answer, others, ran, later, rfl⟩ := runSeparately_cons.mp done
      have extend : ∀ last, middle.runTogether rest = .ok (last, others) →
          db.runTogether (call :: rest) = .ok (last, answer :: others) :=
        fun last ranLater => runTogether_cons.mpr ⟨middle, answer, others, ran, ranLater, rfl⟩
      cases write : call.isWrite with
      | false =>
          -- The table is still missing, so the end of the first transaction changes nothing.
          have stillIdle : middle.contentMapping = none :=
            (ApiCall.run_contentMapping write ran).trans idle
          have same : middle.commit = middle := by rw [Database.commit, ← stillIdle]
          rw [same] at later
          obtain ⟨last, ranLater, committed⟩ :=
            ih stillIdle later ((atMostOneWrite_cons_of_plain write).mp single)
          exact ⟨last, extend last ranLater, committed⟩
      | true =>
          obtain ⟨last, ranLater, committed⟩ :=
            runTogether_of_plain ((atMostOneWrite_cons_of_isWrite write).mp single) later
          exact ⟨last, extend last ranLater, committed⟩

end Sequences

/-- A directory, a file in it and its copy, which is read. -/
def singleWrite : List ApiCall :=
  [.mkdir 7 ['/', 'd'] false 493 1, .writeFile 7 ['/', 'd', '/', 'f'] [104, 105] 420 2,
    .copy 7 ['/', 'd', '/', 'f'] ['/', 'g'] false 3, .readFile 7 ['/', 'g']]

def doubleWrite : List ApiCall :=
  [.writeFile 7 ['/', 'f'] [104, 105] 420 1, .writeFile 7 ['/', 'f'] [104, 111] 420 2]

def emptyVolume : Database :=
  Database.empty.calls [.createVolume 7 ['v'] 0]

theorem runTogether_singleWrite :
    ∃ last, emptyVolume.runTogether singleWrite =
        .ok (last, [.nothing, .node 3, .rows 1, .bytes [104, 105]]) ∧
      (emptyVolume.runSeparately singleWrite).map Prod.fst = .ok last.commit := by
  have shown : Prod.snd <$> emptyVolume.runSeparately singleWrite =
      .ok [.nothing, .node 3, .rows 1, .bytes [104, 105]] := by decide +kernel
  obtain ⟨⟨after, answers⟩, done, rfl⟩ := map_eq_ok.mp shown
  obtain ⟨last, together, same⟩ := (runTogether_iff rfl done).mpr (by decide)
  refine ⟨last, together, ?_⟩
  rw [done, same]
  rfl

/-- The second write of a transaction fails. -/
theorem runTogether_doubleWrite :
    ¬ ∀ (db : Database) (calls : List ApiCall) (after : Database) (answers : List Answer),
      db.contentMapping = none → db.runSeparately calls = .ok (after, answers) →
        ∃ last, db.runTogether calls = .ok (last, answers) ∧ last.commit = after := by
  intro every
  have separately : (emptyVolume.runSeparately doubleWrite).isOk = true := by decide +kernel
  have together : (emptyVolume.runTogether doubleWrite).isOk = false := by decide +kernel
  cases done : emptyVolume.runSeparately doubleWrite with
  | error error =>
      rw [done] at separately
      cases separately
  | ok result =>
      obtain ⟨last, ran, -⟩ := every _ _ result.1 result.2 rfl done
      rw [ran] at together
      cases together

end PostgreOS
