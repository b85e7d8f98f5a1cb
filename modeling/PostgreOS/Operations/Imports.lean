/-
Importing a tree.

The entries are copied into a staging table of the transaction, whose constraints
check every row. A directory becomes a zone of its own; any other root becomes one
entry of the zone of its parent. The staging table and its context row are made by
the same call, so the checks that they exist and match always pass and are left out.
-/

import PostgreOS.Operations.Files

namespace PostgreOS

open Library.Outcome

/-- `ImportEntry`, with the code of its kind. -/
structure ImportEntry where
  relativePath : Text
  kind : Int
  content : Bytes
  mode : Int
  uid : Int
  gid : Int
  mtimeSeconds : Int
  mtimeNanoseconds : Int
  linkTarget : Text
  deriving DecidableEq, Repr

/-- A row of `pgos_import_staging`. -/
structure StagedEntry where
  relativePath : Text
  kind : Kind
  content : Bytes
  mode : Int
  uid : Int
  gid : Int
  mtimeSeconds : Int
  mtimeNanoseconds : Int
  linkTarget : Text
  deriving DecidableEq, Repr

def Kind.code : Kind → Int
  | .file => 1
  | .directory => 2
  | .symlink => 3

def Kind.ofCode (code : Int) : Option Kind :=
  if code = 1 then some .file
  else if code = 2 then some .directory
  else if code = 3 then some .symlink
  else none

def checkViolation {α : Type} : Result α :=
  raise "23514" "new row violates check constraint" []

/-- One row of the COPY into `pgos_import_staging`. -/
def stageEntry (entry : ImportEntry) : Result StagedEntry :=
  match Kind.ofCode entry.kind with
  | none => checkViolation
  | some kind =>
      if 0 ≤ entry.mtimeNanoseconds ∧ entry.mtimeNanoseconds ≤ 999999999 then .ok
        { relativePath := entry.relativePath
          kind := kind
          content := entry.content
          mode := entry.mode
          uid := entry.uid
          gid := entry.gid
          mtimeSeconds := entry.mtimeSeconds
          mtimeNanoseconds := entry.mtimeNanoseconds
          linkTarget := entry.linkTarget }
      else checkViolation

/-- The content columns of a staged row. -/
def StagedEntry.payload (staged : StagedEntry) : Payload :=
  match staged.kind with
  | .file => .file (fileDataOf staged.content) none
  | .directory => .directory
  | .symlink => .symlink staged.linkTarget

def StagedEntry.size (staged : StagedEntry) : Nat :=
  match staged.kind with
  | .file => staged.content.length
  | _ => 0

/-- The time of a staged row, which fails out of its range. -/
def StagedEntry.timestamp (staged : StagedEntry) : Result Timestamp :=
  toTimestamp staged.mtimeSeconds staged.mtimeNanoseconds

def StagedEntry.mtime (staged : StagedEntry) : Timestamp :=
  timestampOf staged.mtimeSeconds staged.mtimeNanoseconds

def StagedEntry.metadata (staged : StagedEntry) (now : Timestamp) : Metadata :=
  { mode := staged.mode
    uid := staged.uid
    gid := staged.gid
    atime := staged.mtime
    mtime := staged.mtime
    ctime := now
    generation := 1 }

/-- `pgos.prepare_import`. -/
def Database.prepareImport (db : Database) (volume : Uuid) (destinationPath : Text) :
    Result Text := do
  let cleanDestination ← assertPath destinationPath
  if cleanDestination = ['/'] then raise "22023" "cannot import over the volume root" []
  else if db.kindOfParent volume cleanDestination ≠ some .directory then
    raise "P0002" "destination parent does not exist: %" [cleanDestination]
  else if db.kindOf volume cleanDestination ≠ none then
    raise "23505" "destination exists: %" [cleanDestination]
  else .ok cleanDestination

/-- A staged row below the root of the import, in the zone of the import. -/
def importedEntry (volume : Uuid) (zone : NodeId) (staged : StagedEntry) (now : Timestamp)
    (id : NodeId) : ZoneEntry :=
  { id := id
    volumeId := volume
    zoneId := zone
    relativePath := staged.relativePath
    parentPath := relativeParent staged.relativePath
    name := relativeName staged.relativePath
    payload := staged.payload
    size := staged.size
    metadata := staged.metadata now }

/-- The root of an import that is not a directory. -/
def importedRoot (volume : Uuid) (parent : Location) (name : Text) (root : StagedEntry)
    (now : Timestamp) (id : NodeId) : ZoneEntry :=
  { id := id
    volumeId := volume
    zoneId := parent.zoneId
    relativePath := childRelative parent.relativePath name
    parentPath := parent.relativePath
    name := name
    payload := root.payload
    size := root.size
    metadata := root.metadata now }

/-- The zone of an import. -/
def importedZone (volume : Uuid) (parent : Location) (path : Text) (root : StagedEntry)
    (now : Timestamp) (id : NodeId) : ZoneNode :=
  { id := id
    volumeId := volume
    path := path
    parent := some (parent.zoneId, parent.relativePath)
    name := nameOf path
    metadata := root.metadata now }

/-- The rows below the root of a batch. -/
def importedRows (volume : Uuid) (zone : NodeId) (staging : List StagedEntry) (now : Timestamp) :
    List (NodeId → ZoneEntry) :=
  (staging.filter fun staged => staged.relativePath ≠ []).map fun staged =>
    importedEntry volume zone staged now

/-- The insertions of `pgos.apply_import_inline`, whose rows have the times of the batch. -/
def Database.insertBatch (db : Database) (volume : Uuid) (path : Text) (parent : Location)
    (root : StagedEntry) (staging : List StagedEntry) (now : Timestamp) :
    Result (Database × Nat) := do
  let _ ← root.timestamp
  if root.kind = .directory then
    let (db, newZoneId) ← db.insertZone (importedZone volume parent path root now)
    let _ ← (staging.filter fun staged => staged.relativePath ≠ []).mapM StagedEntry.timestamp
    let db ← db.insertEntries (importedRows volume newZoneId staging now)
    .ok (db, staging.length)
  else
    let db ← db.insertEntries [importedRoot volume parent (nameOf path) root now]
    .ok (db, staging.length)

/-- `pgos.apply_import_inline` on the rows of the batch. -/
def Database.applyImportInline (db : Database) (volume : Uuid) (destinationPath : Text)
    (staging : List StagedEntry) (now : Timestamp) : Result (Database × Nat) := do
  let cleanDestination ← assertPath destinationPath
  match staging.find? fun staged => staged.relativePath = [] with
  | none => raise "22023" "the import batch has no root entry" []
  | some rootEntry =>
      if staging.any fun staged => staged.relativePath ≠ [] ∧
          ¬ (matchesRelative staged.relativePath ∧ ¬ hasDotPart staged.relativePath) then
        raise "22023" "the import batch contains an invalid relative path" []
      else if staging.any fun child => child.relativePath ≠ [] ∧
          ¬ (staging.any fun parent =>
            parent.relativePath = relativeParent child.relativePath ∧
              parent.kind = .directory) then
        raise "22023" "the import batch contains a missing or non-directory parent" []
      else if db.kindOfParent volume cleanDestination ≠ some .directory ∨
          db.kindOf volume cleanDestination ≠ none then
        raise "23505" "the import destination is not available" []
      else
        let parentLocation ← strict (db.locateParent volume cleanDestination)
        db.insertBatch volume cleanDestination parentLocation rootEntry staging now

/-- The checks of `pgos.apply_import_inline` on the rows of the batch. -/
structure ValidBatch (staging : List StagedEntry) (root : StagedEntry) : Prop where
  root : staging.find? (fun staged => staged.relativePath = []) = some root
  canonical : ∀ staged ∈ staging, staged.relativePath ≠ [] → CanonicalRelative staged.relativePath
  parents : ∀ child ∈ staging, child.relativePath ≠ [] → ∃ parent ∈ staging,
    parent.relativePath = relativeParent child.relativePath ∧ parent.kind = .directory

theorem ValidBatch.root_eq {staging : List StagedEntry} {root : StagedEntry}
    (batch : ValidBatch staging root) (distinct : (staging.map StagedEntry.relativePath).Nodup)
    {staged : StagedEntry} (member : staged ∈ staging) (outer : staged.relativePath = []) :
    staged = root := by
  have rootPath := List.find?_some batch.root
  rw [decide_eq_true_eq] at rootPath
  exact List.inj_on_of_nodup_map distinct member (List.mem_of_find?_eq_some batch.root)
    (outer.trans rootPath.symm)

theorem ValidBatch.root_directory {staging : List StagedEntry} {root : StagedEntry}
    (batch : ValidBatch staging root) (distinct : (staging.map StagedEntry.relativePath).Nodup)
    {staged : StagedEntry} (member : staged ∈ staging) (inner : staged.relativePath ≠ []) :
    root.kind = .directory := by
  obtain ⟨names, valid, -, spelled⟩ :=
    (canonicalRelative_iff staged.relativePath).mp (batch.canonical staged member inner)
  induction names using List.reverseRecOn generalizing staged with
  | nil => exact absurd spelled inner
  | append_singleton front name ih =>
      obtain ⟨parent, parentMember, parentPath, directory⟩ := batch.parents staged member inner
      rw [spelled, relativeParent_relativeText valid] at parentPath
      by_cases outer : parent.relativePath = []
      · rw [← batch.root_eq distinct parentMember outer]
        exact directory
      · exact ih parentMember outer valid.left parentPath

section Batch

variable {db after : Database} {volume : Uuid} {path : Text} {parent : Location}
  {root : StagedEntry} {staging : List StagedEntry} {now : Timestamp} {count : Nat}

theorem insertBatch_ok
    (done : db.insertBatch volume path parent root staging now = .ok (after, count)) :
    count = staging.length ∧
      ((root.kind = .directory ∧ ∃ inserted zone,
          db.insertZone (importedZone volume parent path root now) = .ok (inserted, zone) ∧
          inserted.insertEntries (importedRows volume zone staging now) = .ok after) ∨
        (root.kind ≠ .directory ∧ db.insertEntries
          [importedRoot volume parent (nameOf path) root now] = .ok after)) := by
  unfold Database.insertBatch at done
  obtain ⟨time, -, inserting⟩ := bind_eq_ok.mp done
  split at inserting
  · rename_i directory
    obtain ⟨⟨inserted, zone⟩, zoneOk, timing⟩ := bind_eq_ok.mp inserting
    obtain ⟨times, -, filling⟩ := bind_eq_ok.mp timing
    obtain ⟨filled, fillOk, same⟩ := bind_eq_ok.mp filling
    obtain ⟨rfl, rfl⟩ := Prod.mk.inj (Except.ok.inj same)
    exact ⟨rfl, Or.inl ⟨directory, inserted, zone, zoneOk, fillOk⟩⟩
  · rename_i single
    obtain ⟨inserted, insertOk, same⟩ := bind_eq_ok.mp inserting
    obtain ⟨rfl, rfl⟩ := Prod.mk.inj (Except.ok.inj same)
    exact ⟨rfl, Or.inr ⟨single, insertOk⟩⟩

theorem insertBatch_timestamps (batch : ValidBatch staging root)
    (distinct : (staging.map StagedEntry.relativePath).Nodup)
    (done : db.insertBatch volume path parent root staging now = .ok (after, count)) :
    ∀ staged ∈ staging, ∃ time, staged.timestamp = .ok time := by
  unfold Database.insertBatch at done
  obtain ⟨rootTime, rootOk, inserting⟩ := bind_eq_ok.mp done
  intro staged member
  by_cases outer : staged.relativePath = []
  · rw [batch.root_eq distinct member outer]
    exact ⟨rootTime, rootOk⟩
  · rw [if_pos (batch.root_directory distinct member outer)] at inserting
    obtain ⟨zone, -, timing⟩ := bind_eq_ok.mp inserting
    obtain ⟨times, timesOk, -⟩ := bind_eq_ok.mp timing
    have inner : staged ∈ staging.filter fun staged => staged.relativePath ≠ [] :=
      List.mem_filter.mpr ⟨member, decide_eq_true outer⟩
    obtain ⟨time, -, timeOk⟩ := exists_right_of_forall₂ (mapM_eq_ok.mp timesOk) inner
    exact ⟨time, timeOk⟩

end Batch

theorem applyImportInline_cases {db after : Database} {volume : Uuid} {destinationPath : Text}
    {staging : List StagedEntry} {now : Timestamp} {count : Nat}
    (done : db.applyImportInline volume destinationPath staging now = .ok (after, count)) :
    ∃ root parent, ValidBatch staging root ∧ Vacant db volume destinationPath parent ∧
      db.insertBatch volume destinationPath parent root staging now = .ok (after, count) := by
  unfold Database.applyImportInline at done
  obtain ⟨cleanDestination, accepted, checked⟩ := bind_eq_ok.mp done
  obtain ⟨rfl, canonical⟩ := assertPath_eq_ok accepted
  split at checked
  · cases checked
  · rename_i root isRoot
    split at checked
    · cases checked
    · rename_i valid
      split at checked
      · cases checked
      · rename_i parents
        split at checked
        · cases checked
        · rename_i available
          rw [not_or, not_not, not_not] at available
          obtain ⟨parent, located, inserting⟩ := bind_eq_ok.mp checked
          have batch : ValidBatch staging root := by
            refine ⟨isRoot, ?_, ?_⟩
            · intro staged member inner
              by_contra bad
              refine valid (List.any_eq_true.mpr ⟨staged, member, decide_eq_true ⟨inner, ?_⟩⟩)
              rintro ⟨matching, noDots⟩
              exact bad ⟨matching, by simpa using noDots⟩
            · intro child member inner
              by_contra missing
              refine parents (List.any_eq_true.mpr ⟨child, member, decide_eq_true ⟨inner, ?_⟩⟩)
              intro found
              obtain ⟨directory, directoryMember, fits⟩ := List.any_eq_true.mp found
              exact missing ⟨directory, directoryMember, of_decide_eq_true fits⟩
          have vacant : Vacant db volume cleanDestination parent :=
            ⟨canonical, available.2, available.1, strict_eq_ok.mp located⟩
          exact ⟨root, parent, batch, vacant, inserting⟩

theorem applyImportInline_ok {db after : Database} {volume : Uuid} {destinationPath : Text}
    {staging : List StagedEntry} {now : Timestamp} {count : Nat}
    (done : db.applyImportInline volume destinationPath staging now = .ok (after, count)) :
    count = staging.length ∧ ∃ root parent, ValidBatch staging root ∧
      Vacant db volume destinationPath parent ∧
      ((root.kind = .directory ∧ ∃ inserted zone,
          db.insertZone (importedZone volume parent destinationPath root now) =
            .ok (inserted, zone) ∧
          inserted.insertEntries (importedRows volume zone staging now) = .ok after) ∨
        (root.kind ≠ .directory ∧ db.insertEntries
          [importedRoot volume parent (nameOf destinationPath) root now] = .ok after)) := by
  obtain ⟨root, parent, batch, vacant, inserting⟩ := applyImportInline_cases done
  obtain ⟨sameCount, inserted⟩ := insertBatch_ok inserting
  exact ⟨sameCount, root, parent, batch, vacant, inserted⟩

/-- `pgos.apply_import`. -/
def Database.applyImport (db : Database) (volume : Uuid) (destinationPath : Text)
    (staging : List StagedEntry) (now : Timestamp) : Result (Database × Nat) := do
  let (db, imported) ← db.applyImportInline volume destinationPath staging now
  let location ← strict (db.locateZone volume destinationPath)
  let db ← db.blockizeZoneSegment volume location.zoneId
  .ok (db, imported)

/-- `Database::import` on a destination that is already normalized. -/
def Database.importTree (db : Database) (volume : Uuid) (destination : Text)
    (entries : List ImportEntry) (now : Timestamp) : Result (Database × Nat) := do
  let cleanDestination ← db.prepareImport volume destination
  let staging ← entries.mapM stageEntry
  if ¬ (staging.map StagedEntry.relativePath).Nodup then uniqueViolation
  else db.applyImport volume cleanDestination staging now

/-- The checks of an import accept the destination and the batch with its root. -/
structure ImportAccepted (db : Database) (volume : Uuid) (destination : Text)
    (entries : List ImportEntry) (staging : List StagedEntry) (root : StagedEntry) : Prop where
  prepared : db.prepareImport volume destination = .ok destination
  staged : entries.mapM stageEntry = .ok staging
  distinct : (staging.map StagedEntry.relativePath).Nodup
  batch : ValidBatch staging root

theorem prepareImport_ok {db : Database} {volume : Uuid} {destination clean : Text}
    (prepared : db.prepareImport volume destination = .ok clean) :
    clean = destination ∧ destination ≠ ['/'] := by
  unfold Database.prepareImport at prepared
  obtain ⟨accepted, acceptedOk, ready⟩ := bind_eq_ok.mp prepared
  obtain ⟨rfl, -⟩ := assertPath_eq_ok acceptedOk
  split at ready
  · cases ready
  · rename_i notRoot
    split at ready
    · cases ready
    · split at ready
      · cases ready
      · exact ⟨(Except.ok.inj ready).symm, notRoot⟩

theorem importTree_accepted {db after : Database} {volume : Uuid} {destination : Text}
    {entries : List ImportEntry} {now : Timestamp} {count : Nat}
    (done : db.importTree volume destination entries now = .ok (after, count)) :
    ∃ staging root imported location, ImportAccepted db volume destination entries staging root ∧
      db.applyImportInline volume destination staging now = .ok (imported, count) ∧
      imported.locateZone volume destination = some location ∧
      imported.blockizeZoneSegment volume location.zoneId = .ok after := by
  unfold Database.importTree at done
  obtain ⟨cleanDestination, prepared, staged⟩ := bind_eq_ok.mp done
  obtain ⟨rfl, -⟩ := prepareImport_ok prepared
  obtain ⟨staging, stagedOk, checked⟩ := bind_eq_ok.mp staged
  split at checked
  · cases checked
  · rename_i distinct
    unfold Database.applyImport at checked
    obtain ⟨⟨imported, result⟩, importOk, locating⟩ := bind_eq_ok.mp checked
    obtain ⟨location, locateOk, moving⟩ := bind_eq_ok.mp locating
    obtain ⟨last, blockOk, same⟩ := bind_eq_ok.mp moving
    obtain ⟨rfl, rfl⟩ := Prod.mk.inj (Except.ok.inj same)
    obtain ⟨-, root, parent, batch, -⟩ := applyImportInline_ok importOk
    exact ⟨staging, root, imported, location, ⟨prepared, stagedOk, not_not.mp distinct, batch⟩,
      importOk, strict_eq_ok.mp locateOk, blockOk⟩

theorem importTree_ok {db after : Database} {volume : Uuid} {destination : Text}
    {entries : List ImportEntry} {now : Timestamp} {count : Nat}
    (done : db.importTree volume destination entries now = .ok (after, count)) :
    destination ≠ ['/'] ∧ ∃ staging imported location,
      (staging.map StagedEntry.relativePath).Nodup ∧
      db.applyImportInline volume destination staging now = .ok (imported, count) ∧
      imported.locateZone volume destination = some location ∧
      imported.blockizeZoneSegment volume location.zoneId = .ok after := by
  obtain ⟨staging, root, imported, location, accepted, importOk, located, blockOk⟩ :=
    importTree_accepted done
  exact ⟨(prepareImport_ok accepted.prepared).2, staging, imported, location, accepted.distinct,
    importOk, located, blockOk⟩

end PostgreOS
