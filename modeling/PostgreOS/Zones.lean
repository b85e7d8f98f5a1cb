/-
Resolving paths and reading rows.

A path belongs to the zone with the longest path among its ancestors. Everything
below a zone that is not below a nested zone is stored as entries of the zone,
under paths relative to it; the zone itself is its own root directory.
-/

import Mathlib.Data.List.MinMax
import Mathlib.Data.List.Sort
import PostgreOS.Schema

namespace PostgreOS

/-- A row of `pgos_private.locate_zone`. -/
structure Location where
  zoneId : NodeId
  zonePath : Text
  relativePath : Text
  deriving DecidableEq, Repr

def Location.child (parent : Location) (name : Text) : Location :=
  { parent with relativePath := childRelative parent.relativePath name }

/-- The columns that `pgos.list` and `pgos.find_entries` return. -/
structure NodeRow where
  id : NodeId
  path : Text
  name : Text
  kind : Kind
  mode : Int
  uid : Int
  gid : Int
  size : Nat
  mtime : Timestamp
  generation : Nat
  deriving DecidableEq, Repr

/-- The columns that `pgos.stat` and `pgos.inode` return. -/
structure Inode extends NodeRow where
  atime : Timestamp
  ctime : Timestamp
  linkTarget : Option Text
  deriving DecidableEq, Repr

def zoneInode (zone : ZoneNode) : Inode :=
  { id := zone.id
    path := zone.path
    name := zone.name
    kind := .directory
    mode := zone.metadata.mode
    uid := zone.metadata.uid
    gid := zone.metadata.gid
    size := 0
    mtime := zone.metadata.mtime
    generation := zone.metadata.generation
    atime := zone.metadata.atime
    ctime := zone.metadata.ctime
    linkTarget := none }

def entryInode (zonePath : Text) (entry : ZoneEntry) : Inode :=
  { id := entry.id
    path := absolutePath zonePath entry.relativePath
    name := entry.name
    kind := entry.kind
    mode := entry.metadata.mode
    uid := entry.metadata.uid
    gid := entry.metadata.gid
    size := entry.size
    mtime := entry.metadata.mtime
    generation := entry.metadata.generation
    atime := entry.metadata.atime
    ctime := entry.metadata.ctime
    linkTarget := entry.linkTarget }

def Database.zonesOf (db : Database) (volume : Uuid) : List Zone :=
  db.zones.filter fun zone => zone.volumeId = volume

def Database.zoneNodesOf (db : Database) (volume : Uuid) : List ZoneNode :=
  db.zoneNodes.filter fun zone => zone.volumeId = volume

def Database.entriesOf (db : Database) (volume : Uuid) : List ZoneEntry :=
  db.zoneEntries.filter fun entry => entry.volumeId = volume

/-- `SELECT ... INTO STRICT` of at most one row. -/
def strict {α : Type} : Option α → Result α
  | some row => .ok row
  | none => raise "P0002" "query returned no rows" []

theorem strict_eq_ok {α : Type} {row : Option α} {result : α} :
    strict row = .ok result ↔ row = some result := by
  cases row with
  | none =>
      constructor
      · intro impossible
        cases impossible
      · intro impossible
        cases impossible
  | some found =>
      constructor
      · intro done
        rw [Except.ok.inj done]
      · rintro ⟨⟩
        rfl

/-- The part of `target` inside a zone that contains it. -/
def relativeIn (zonePath target : Text) : Text :=
  if zonePath = target then []
  else if zonePath = ['/'] then trimLeading '/' target
  else substr target (zonePath.length + 2)

/-- `pgos_private.locate_zone` of a path that `assert_path` accepts. -/
def Database.locateZone (db : Database) (volume : Uuid) (target : Text) : Option Location :=
  let joined := (ancestorPaths target).flatMap fun ancestor =>
    (db.zoneNodesOf volume).filter fun zone => zone.path = ancestor
  (joined.argmax fun zone => zone.path.length).map fun zone =>
    { zoneId := zone.id
      zonePath := zone.path
      relativePath := relativeIn zone.path target }

theorem locateZone_congr {db after : Database} (same : after.zoneNodes = db.zoneNodes)
    (volume : Uuid) (target : Text) :
    after.locateZone volume target = db.locateZone volume target := by
  unfold Database.locateZone Database.zoneNodesOf
  rw [same]

theorem locateZone_map {db after : Database} {volume : Uuid} {change : ZoneNode → ZoneNode}
    (same : after.zoneNodesOf volume = (db.zoneNodesOf volume).map change)
    (columns : ∀ zone, (change zone).id = zone.id ∧ (change zone).path = zone.path)
    (target : Text) : after.locateZone volume target = db.locateZone volume target := by
  have joined (ancestor : Text) :
      ((db.zoneNodesOf volume).map change).filter (fun zone => decide (zone.path = ancestor)) =
        ((db.zoneNodesOf volume).filter fun zone => decide (zone.path = ancestor)).map change := by
    rw [List.filter_map]
    congr 2
    funext zone
    simp [(columns zone).2]
  unfold Database.locateZone
  dsimp only
  rw [same]
  simp only [joined]
  rw [← List.map_flatMap, Library.Table.argmax_map, Option.map_map]
  simp only [fun zone => (columns zone).2]
  congr 1
  funext zone
  simp [columns zone]

def atLocation (volume : Uuid) (location : Location) (entry : ZoneEntry) : Bool :=
  decide (entry.volumeId = volume ∧ entry.zoneId = location.zoneId ∧
    entry.relativePath = location.relativePath)

theorem atLocation_iff {volume : Uuid} {location : Location} {entry : ZoneEntry} :
    atLocation volume location entry = true ↔ entry.volumeId = volume ∧
      entry.zoneId = location.zoneId ∧ entry.relativePath = location.relativePath :=
  decide_eq_true_iff

/-- The entry with the zone and the relative path of a location. -/
def Database.entryAt (db : Database) (volume : Uuid) (location : Location) : Option ZoneEntry :=
  db.zoneEntries.find? (atLocation volume location)

/-- `pgos_private.kind_of` of a path that `assert_path` accepts. -/
def Database.kindOf (db : Database) (volume : Uuid) (target : Text) : Option Kind :=
  match db.locateZone volume target with
  | none => none
  | some location =>
      if location.relativePath = [] then some .directory
      else (db.entryAt volume location).map ZoneEntry.kind

/-- `kind_of(target_volume, parent_of(path))`. -/
def Database.kindOfParent (db : Database) (volume : Uuid) (path : Text) : Option Kind :=
  (parentOf path).bind (db.kindOf volume)

theorem ne_root_of_parent {db : Database} {volume : Uuid} {path : Text} {kind : Kind}
    (parent : db.kindOfParent volume path = some kind) : path ≠ ['/'] := by
  rintro rfl
  cases parent

/-- `locate_zone(target_volume, parent_of(path))`. -/
def Database.locateParent (db : Database) (volume : Uuid) (path : Text) : Option Location :=
  (parentOf path).bind (db.locateZone volume)

theorem locateParent_congr {db after : Database} (same : after.zoneNodes = db.zoneNodes)
    (volume : Uuid) (path : Text) : after.locateParent volume path = db.locateParent volume path := by
  unfold Database.locateParent
  rw [funext (locateZone_congr same volume)]

/-- The directory of `location` may take a new child at `path`. -/
structure Vacant (db : Database) (volume : Uuid) (path : Text) (location : Location) : Prop where
  canonical : CanonicalPath path
  free : db.kindOf volume path = none
  parent : db.kindOfParent volume path = some .directory
  located : db.locateParent volume path = some location

/-- `pgos.list`, ordered by name. -/
def Database.list (db : Database) (volume : Uuid) (target : Text) : Result (List NodeRow) := do
  let target ← assertPath target
  let location ← strict (db.locateZone volume target)
  let directories := db.zoneEntries.filter fun entry =>
    entry.volumeId = volume ∧ entry.zoneId = location.zoneId ∧
      entry.relativePath = location.relativePath ∧ entry.kind = .directory
  if location.relativePath ≠ [] ∧ directories = [] then
    raise "42809" "not a directory: %" [target]
  else
    let children := db.zoneEntries.filter fun child =>
      child.volumeId = volume ∧ child.zoneId = location.zoneId ∧
        child.parentPath = location.relativePath
    let nested := db.zones.filter fun zone =>
      zone.volumeId = volume ∧ zone.parent = some (location.zoneId, location.relativePath)
    let listed := (children.map fun child => (entryInode location.zonePath child).toNodeRow) ++
      nested.map fun zone => (zoneInode zone.toZoneNode).toNodeRow
    .ok (listed.insertionSort fun first second => collateC first.name second.name)

/-- `pgos.stat`. -/
def Database.stat (db : Database) (volume : Uuid) (target : Text) : Result (List Inode) := do
  let target ← assertPath target
  let location ← strict (db.locateZone volume target)
  if location.relativePath = [] then
    .ok ((db.zones.filter fun zone => zone.id = location.zoneId).map fun zone =>
      zoneInode zone.toZoneNode)
  else
    .ok ((db.zoneEntries.filter (atLocation volume location)).map
      (entryInode location.zonePath))

/-- The rows that `pgos.inode` chooses from: the zones of a volume, and its
entries joined with their zones. -/
def Database.inodes (db : Database) (volume : Uuid) : List Inode :=
  (db.zonesOf volume).map (fun zone => zoneInode zone.toZoneNode) ++
    (db.entriesOf volume).flatMap fun entry =>
      (db.zones.filter fun zone => zone.id = entry.zoneId).map fun zone =>
        entryInode zone.path entry

/-- `pgos.inode`. -/
def Database.inode (db : Database) (volume : Uuid) (id : NodeId) : List Inode :=
  (db.inodes volume).filter fun node => node.id = id

end PostgreOS
