/-
Volumes, directories and times.

Every operation is a function from the database to the changed database or the
error that aborts the transaction. The argument `now` is `clock_timestamp()`.
-/

import PostgreOS.Content
import PostgreOS.Library.Outcome
import PostgreOS.Library.Rounding

namespace PostgreOS

open Library.Outcome Library.Rounding

def newMetadata (mode : Int) (now : Timestamp) : Metadata :=
  { mode := mode, uid := 0, gid := 0, atime := now, mtime := now, ctime := now, generation := 1 }

/-- The `double precision` next to a number. -/
def doublePrecision (x : ℚ) : ℚ :=
  nearest 53 x

/-- `seconds::double precision + nanoseconds::double precision / 1000000000`. -/
def epochNumber (seconds nanoseconds : Int) : ℚ :=
  doublePrecision (doublePrecision seconds +
    doublePrecision (doublePrecision nanoseconds / 1000000000))

/-- The microseconds that `to_timestamp` makes of this number. It counts from the year 2000,
and both the difference and the product are doubles. -/
def timestampOf (seconds nanoseconds : Int) : Int :=
  roundEven (doublePrecision
      (doublePrecision (epochNumber seconds nanoseconds - 946684800) * 1000000)) +
    946684800000000

/-- `to_timestamp` of seconds and nanoseconds, which checks its range before and after. -/
def toTimestamp (seconds nanoseconds : Int) : Result Timestamp :=
  if epochNumber seconds nanoseconds < -210866803200 ∨
      9224318016000 ≤ epochNumber seconds nanoseconds then
    raise "22008" "timestamp out of range" []
  else if timestampOf seconds nanoseconds < -210866803200000000 ∨
      9224318016000000000 ≤ timestampOf seconds nanoseconds then
    raise "22008" "timestamp out of range" []
  else .ok (timestampOf seconds nanoseconds)

theorem toTimestamp_eq_ok {seconds nanoseconds : Int} {time : Timestamp}
    (done : toTimestamp seconds nanoseconds = .ok time) : time = timestampOf seconds nanoseconds := by
  unfold toTimestamp at done
  split at done
  · cases done
  · split at done
    · cases done
    · exact (Except.ok.inj done).symm

/-- The zone of a new volume. -/
def rootZone (volume : Uuid) (now : Timestamp) (id : NodeId) : ZoneNode :=
  { id := id
    volumeId := volume
    path := ['/']
    parent := none
    name := []
    metadata := newMetadata 493 now }

/-- `pgos.create_volume`. -/
def Database.createVolume (db : Database) (volumeId : Uuid) (volumeName : Text)
    (now : Timestamp) : Result (Database × Uuid) :=
  if db.volumes.any fun volume => volume.id = volumeId ∨ volume.name = volumeName then
    uniqueViolation
  else do
    let listed : Database :=
      { db with volumes := db.volumes ++ [{ id := volumeId, name := volumeName }] }
    let (db, _) ← listed.insertZone (rootZone volumeId now)
    .ok (db.prepareContentVolume volumeId, volumeId)

theorem createVolume_ok {db after : Database} {volumeId id : Uuid} {volumeName : Text}
    {now : Timestamp} (done : db.createVolume volumeId volumeName now = .ok (after, id)) :
    (∀ volume ∈ db.volumes, volume.id ≠ volumeId) ∧ ∃ inserted zone,
      Database.insertZone
        { db with volumes := db.volumes ++ [{ id := volumeId, name := volumeName }] }
        (rootZone volumeId now) = .ok (inserted, zone) ∧
      after = inserted.prepareContentVolume volumeId := by
  unfold Database.createVolume at done
  split at done
  · cases done
  · rename_i fresh
    obtain ⟨⟨inserted, zone⟩, insertOk, same⟩ := bind_eq_ok.mp done
    refine ⟨?_, inserted, zone, insertOk, (Prod.mk.inj (Except.ok.inj same)).1.symm⟩
    intro volume member taken
    apply fresh
    simp only [List.any_eq_true, decide_eq_true_eq]
    exact ⟨volume, member, Or.inl taken⟩

/-- The row of a new directory. -/
def directoryEntry (volume : Uuid) (parent : Location) (name : Text) (mode : Int)
    (now : Timestamp) (id : NodeId) : ZoneEntry :=
  { id := id
    volumeId := volume
    zoneId := parent.zoneId
    relativePath := childRelative parent.relativePath name
    parentPath := parent.relativePath
    name := name
    payload := .directory
    size := 0
    metadata := newMetadata mode now }

/-- `pgos.mkdir` of one path without `parents`. -/
def Database.mkdirOne (db : Database) (volume : Uuid) (targetPath : Text) (mode : Int)
    (now : Timestamp) : Result Database := do
  let cleanPath ← assertPath targetPath
  if cleanPath = ['/'] then .ok db
  else if db.kindOf volume cleanPath ≠ none then raise "23505" "path exists: %" [cleanPath]
  else if db.kindOfParent volume cleanPath ≠ some .directory then
    raise "P0002" "parent directory does not exist: %" [cleanPath]
  else
    let parentLocation ← strict (db.locateParent volume cleanPath)
    db.insertEntries [directoryEntry volume parentLocation (nameOf cleanPath) mode now]

theorem mkdirOne_ok {db after : Database} {volume : Uuid} {targetPath : Text} {mode : Int}
    {now : Timestamp} (done : db.mkdirOne volume targetPath mode now = .ok after) :
    targetPath = ['/'] ∧ after = db ∨ ∃ location, Vacant db volume targetPath location ∧
      db.insertEntries [directoryEntry volume location (nameOf targetPath) mode now] = .ok after := by
  unfold Database.mkdirOne at done
  obtain ⟨cleanPath, accepted, checked⟩ := bind_eq_ok.mp done
  obtain ⟨rfl, canonical⟩ := assertPath_eq_ok accepted
  split at checked
  · exact Or.inl ⟨‹_›, (Except.ok.inj checked).symm⟩
  · split at checked
    · cases checked
    · split at checked
      · cases checked
      · rename_i free parent
        obtain ⟨location, located, inserted⟩ := bind_eq_ok.mp checked
        exact Or.inr ⟨location, ⟨canonical, not_not.mp free, not_not.mp parent,
          strict_eq_ok.mp located⟩, inserted⟩

/-- The loop of `pgos.mkdir` with `parents`. -/
def mkdirParents (volume : Uuid) (mode : Int) (now : Timestamp) :
    List Text → Text → Database → Result Database
  | [], _, db => .ok db
  | part :: rest, current, db =>
      let currentPath := current ++ '/' :: part
      match db.kindOf volume currentPath with
      | none => do
          let db ← db.mkdirOne volume currentPath mode now
          mkdirParents volume mode now rest currentPath db
      | some .directory => mkdirParents volume mode now rest currentPath db
      | some _ => raise "42809" "not a directory: %" [currentPath]

theorem mkdirParents_invariant {volume : Uuid} {mode : Int} {now : Timestamp}
    (invariant : Database → Prop)
    (kept : ∀ db path after, invariant db → db.mkdirOne volume path mode now = .ok after →
      invariant after)
    {parts : List Text} {current : Text} {db after : Database} (atStart : invariant db)
    (done : mkdirParents volume mode now parts current db = .ok after) : invariant after := by
  induction parts generalizing current db with
  | nil =>
      cases done
      exact atStart
  | cons part rest ih =>
      unfold mkdirParents at done
      dsimp only at done
      split at done
      · obtain ⟨middle, made, later⟩ := bind_eq_ok.mp done
        exact ih (kept db _ middle atStart made) later
      · exact ih atStart done
      · cases done

/-- `pgos.mkdir`. -/
def Database.mkdir (db : Database) (volume : Uuid) (targetPath : Text) (parents : Bool)
    (mode : Int) (now : Timestamp) : Result Database := do
  let cleanPath ← assertPath targetPath
  if cleanPath = ['/'] then .ok db
  else if parents then
    mkdirParents volume mode now ((trimLeading '/' cleanPath).splitOn '/') [] db
  else db.mkdirOne volume cleanPath mode now

theorem mkdir_invariant {volume : Uuid} {mode : Int} {now : Timestamp}
    (invariant : Database → Prop)
    (kept : ∀ db path after, invariant db → db.mkdirOne volume path mode now = .ok after →
      invariant after)
    {targetPath : Text} {parents : Bool} {db after : Database} (atStart : invariant db)
    (done : db.mkdir volume targetPath parents mode now = .ok after) : invariant after := by
  unfold Database.mkdir at done
  obtain ⟨cleanPath, -, done⟩ := bind_eq_ok.mp done
  split at done
  · cases done
    exact atStart
  · split at done
    · exact mkdirParents_invariant invariant kept atStart done
    · exact kept db cleanPath after atStart done

/-- `pgos.mkdir_many`. -/
def Database.mkdirMany (db : Database) (volume : Uuid) (targetPaths : List Text)
    (parents : Bool) (now : Timestamp) : Result Database :=
  if parents then
    targetPaths.foldlM (fun db targetPath => db.mkdir volume targetPath true 493 now) db
  else do
    let cleanPaths ← targetPaths.mapM assertPath
    if cleanPaths.any fun path => db.kindOfParent volume path ≠ some .directory then
      raise "P0002" "a parent directory does not exist" []
    else
      db.insertEntries (cleanPaths.filterMap fun path =>
        (db.locateParent volume path).map fun location =>
          directoryEntry volume location (nameOf path) 493 now)

/-- The rows of `mkdir_many` without `parents`, in the order of the paths. -/
def Database.newDirectories (db : Database) (volume : Uuid) (targetPaths : List Text)
    (now : Timestamp) : List (NodeId → ZoneEntry) :=
  targetPaths.filterMap fun path =>
    (db.locateParent volume path).map fun location =>
      directoryEntry volume location (nameOf path) 493 now

theorem mkdirMany_ok {db after : Database} {volume : Uuid} {targetPaths : List Text}
    {now : Timestamp} (done : db.mkdirMany volume targetPaths false now = .ok after) :
    (∀ path ∈ targetPaths, CanonicalPath path ∧
      db.kindOfParent volume path = some .directory) ∧
    db.insertEntries (db.newDirectories volume targetPaths now) = .ok after := by
  unfold Database.mkdirMany at done
  rw [if_neg (by decide)] at done
  obtain ⟨cleanPaths, accepted, checked⟩ := bind_eq_ok.mp done
  obtain ⟨rfl, canonical⟩ := mapM_assertPath_eq_ok.mp accepted
  split at checked
  · cases checked
  · rename_i present
    refine ⟨fun path member => ⟨canonical path member, ?_⟩, checked⟩
    by_contra missing
    exact present (List.any_eq_true.mpr ⟨path, member, decide_eq_true missing⟩)

/-- The metadata after `pgos.set_times`. -/
def Metadata.touched (metadata : Metadata) (atime mtime now : Timestamp) : Metadata :=
  { metadata with
    atime := atime
    mtime := mtime
    ctime := now
    generation := metadata.generation + 1 }

/-- `pgos.set_times`. -/
def Database.setTimes (db : Database) (volume : Uuid) (targetPath : Text)
    (atimeSeconds atimeNanoseconds mtimeSeconds mtimeNanoseconds : Int) (now : Timestamp) :
    Result (Database × List Inode) := do
  let atime ← toTimestamp atimeSeconds atimeNanoseconds
  let mtime ← toTimestamp mtimeSeconds mtimeNanoseconds
  if ¬ (0 ≤ atimeNanoseconds ∧ atimeNanoseconds ≤ 999999999) ∨
      ¬ (0 ≤ mtimeNanoseconds ∧ mtimeNanoseconds ≤ 999999999) then
    raise "22003" "timestamp nanoseconds are outside the valid range" []
  else do
    let cleanPath ← assertPath targetPath
    let location ← strict (db.locateZone volume cleanPath)
    let db ←
      if location.relativePath = [] then
        db.updateZones (fun zone => decide (zone.volumeId = volume ∧ zone.id = location.zoneId))
          fun zone => { zone with metadata := zone.metadata.touched atime mtime now }
      else
        db.updateEntries (atLocation volume location)
          fun entry => { entry with metadata := entry.metadata.touched atime mtime now }
    let rows ← db.stat volume cleanPath
    .ok (db, rows)

theorem setTimes_ok {db after : Database} {volume : Uuid} {targetPath : Text}
    {atimeSeconds atimeNanoseconds mtimeSeconds mtimeNanoseconds : Int} {now : Timestamp}
    {rows : List Inode}
    (done : db.setTimes volume targetPath atimeSeconds atimeNanoseconds mtimeSeconds
      mtimeNanoseconds now = .ok (after, rows)) :
    ∃ location atime mtime, db.locateZone volume targetPath = some location ∧
      (db.updateZones
          (fun zone => decide (zone.volumeId = volume ∧ zone.id = location.zoneId))
          (fun zone => { zone with metadata := zone.metadata.touched atime mtime now }) = .ok after ∨
        db.updateEntries (atLocation volume location)
          (fun entry => { entry with metadata := entry.metadata.touched atime mtime now }) =
            .ok after) := by
  unfold Database.setTimes at done
  obtain ⟨atime, -, modifying⟩ := bind_eq_ok.mp done
  obtain ⟨mtime, -, checking⟩ := bind_eq_ok.mp modifying
  split at checking
  · cases checking
  · obtain ⟨cleanPath, accepted, checked⟩ := bind_eq_ok.mp checking
    obtain ⟨rfl, -⟩ := assertPath_eq_ok accepted
    obtain ⟨location, located, changed⟩ := bind_eq_ok.mp checked
    refine ⟨location, atime, mtime, strict_eq_ok.mp located, ?_⟩
    split at changed
    · obtain ⟨updated, updateOk, shown⟩ := bind_eq_ok.mp changed
      obtain ⟨found, -, same⟩ := bind_eq_ok.mp shown
      obtain ⟨rfl, -⟩ := Prod.mk.inj (Except.ok.inj same)
      exact Or.inl updateOk
    · obtain ⟨updated, updateOk, shown⟩ := bind_eq_ok.mp changed
      obtain ⟨found, -, same⟩ := bind_eq_ok.mp shown
      obtain ⟨rfl, -⟩ := Prod.mk.inj (Except.ok.inj same)
      exact Or.inr updateOk

end PostgreOS
