/-
Disk usage.

`disk_usage` adds the sizes of the regular files at or below a path. For the root of
a zone, `disk_usage_fast` adds the counters of the zones instead.
-/

import PostgreOS.Operations.Copy

namespace PostgreOS

open Library.Table

/-- The zones that `pgos.disk_usage` reads, with the relative path where each starts. -/
def Database.usedZones (db : Database) (volume : Uuid) (cleanPath : Text)
    (location : Location) : List (Zone × Text) :=
  (db.zones.filter fun zone =>
    zone.volumeId = volume ∧
      (zone.id = location.zoneId ∨ cleanPath = ['/'] ∨ zone.path = cleanPath ∨
        likeBelow cleanPath zone.path = true)).map fun zone =>
    (zone, if zone.id = location.zoneId then location.relativePath else [])

/-- The regular files of one of these zones. -/
def Database.usedFiles (db : Database) (volume : Uuid) (selected : Zone × Text) :
    List ZoneEntry :=
  db.zoneEntries.filter fun entry =>
    entry.volumeId = volume ∧ entry.zoneId = selected.1.id ∧ entry.kind = .file ∧
      (selected.2 = [] ∨ likeBelow selected.2 entry.relativePath = true)

/-- The sum at the end of `pgos.disk_usage`. -/
def Database.usedBytes (db : Database) (volume : Uuid) (cleanPath : Text) (location : Location) :
    Int :=
  total (fun entry => (entry.size : Int))
    ((db.usedZones volume cleanPath location).flatMap (db.usedFiles volume))

/-- `pgos.disk_usage`. -/
def Database.diskUsage (db : Database) (volume : Uuid) (targetPath : Text) : Result Int := do
  let cleanPath ← assertPath targetPath
  let location ← strict (db.locateZone volume cleanPath)
  if location.relativePath ≠ [] then
    match db.entryAt volume location with
    | none => raise "P0002" "path does not exist: %" [cleanPath]
    | some entry =>
        if entry.kind = .file then .ok (entry.size : Int)
        else .ok (db.usedBytes volume cleanPath location)
  else .ok (db.usedBytes volume cleanPath location)

/-- `pgos.disk_usage_fast`. -/
def Database.diskUsageFast (db : Database) (volume : Uuid) (targetPath : Text) : Result Int := do
  let cleanPath ← assertPath targetPath
  let location ← strict (db.locateZone volume cleanPath)
  if location.relativePath ≠ [] then db.diskUsage volume cleanPath
  else
    .ok (total Zone.fileBytes (db.zones.filter fun zone =>
      zone.volumeId = volume ∧
        (zone.path = cleanPath ∨ likeBelow cleanPath zone.path = true)))

end PostgreOS
