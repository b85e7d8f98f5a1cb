/-
Removing a volume.

The entries go first, then the segments that nothing uses any more, the partition of the
volume with everything in it, and at last the volume with the rows that refer to it.
-/

import PostgreOS.Run

namespace PostgreOS

open Library.Outcome Library.Transition

def Database.ownsSegment (db : Database) (volume segment : Uuid) : Bool :=
  db.contentSegments.any fun stored => stored.id = segment ∧ stored.volumeId = volume

/-- `DROP TABLE` of the partition of a volume, if it exists; its own partitions go with it. -/
def Database.dropVolumeTable (db : Database) (volume : Uuid) : Database :=
  if volume ∉ db.volumeTables then db
  else
    { db with
      volumeTables := db.volumeTables.filter (· ≠ volume)
      segmentTables := db.segmentTables.filter fun table => table.parent ≠ volume
      bulkContentBlocks := db.bulkContentBlocks.filter fun block => block.volumeId ≠ volume }

/-- The objects that `ON DELETE CASCADE` reaches from a volume, directly or by its segments. -/
def Database.ownsObject (db : Database) (volume : Uuid) (object : ContentObject) : Bool :=
  object.volumeId = volume ∨ object.segmentId.any (db.ownsSegment volume) = true

/-- `DELETE FROM volumes`. The delete of the objects fails while an entry refers to one. -/
def Database.deleteVolume (db : Database) (volume : Uuid) : Result Database :=
  let objects := (db.contentObjects.filter (db.ownsObject volume)).map ContentObject.id
  if db.zoneEntries.any fun entry => objects.any fun object => entry.contentObject = some object
    then foreignKeyViolation
  else .ok
    { db with
      volumes := db.volumes.filter fun stored => stored.id ≠ volume
      zones := db.zones.filter fun zone => zone.volumeId ≠ volume
      contentObjects := db.contentObjects.filter fun object => !db.ownsObject volume object
      contentBlocks := db.contentBlocks.filter fun block => block.objectId ∉ objects
      contentSegments := db.contentSegments.filter fun stored => stored.volumeId ≠ volume }

/-- `pgos.remove_volume`. -/
def Database.removeVolume (db : Database) (volume : Uuid) : Result Database := do
  let db ← (db.deleteEntries fun entry => entry.volumeId = volume).reclaimContentSegments volume
  (db.dropVolumeTable volume).deleteVolume volume

theorem removeVolume_ok {db after : Database} {volume : Uuid}
    (done : db.removeVolume volume = .ok after) :
    ∃ reclaimed,
      (db.deleteEntries fun entry => entry.volumeId = volume).reclaimContentSegments volume =
        .ok reclaimed ∧
      (reclaimed.dropVolumeTable volume).deleteVolume volume = .ok after :=
  bind_eq_ok.mp done

/-! ### Runs -/

/-- A call of a public function of the schema; the others name a volume that stays. -/
inductive Call where
  | operation (op : Op)
  | removeVolume (volume : Uuid)
  deriving DecidableEq, Repr

def Call.run (db : Database) : Call → Result Database
  | .operation op => op.run db
  | .removeVolume volume => db.removeVolume volume

def CallStep (before : Database) (call : Call) (after : Database) : Prop :=
  after = transact before (call.run before)

/-- The databases that runs of calls reach when volumes can also be removed. -/
def ReachableByCalls (db : Database) : Prop :=
  Reachable Database.empty CallStep db

theorem ReachableDatabase.byCalls {db : Database} (reachable : ReachableDatabase db) :
    ReachableByCalls db := by
  induction reachable with
  | start => exact .start
  | next op earlier moved ih => exact .next (Call.operation op) ih moved

end PostgreOS
