/-
Runs of the public operations.

Every call is a transaction of its own: a call that raises leaves the database as it
was, a call that returns is committed.
-/

import PostgreOS.Library.Transition
import PostgreOS.Operations.Remove

namespace PostgreOS

open Library.Transition

/-- A call of a public operation with its arguments and its clock reading. -/
inductive Op where
  | createVolume (volumeId : Uuid) (volumeName : Text) (now : Timestamp)
  | mkdir (volume : Uuid) (targetPath : Text) (parents : Bool) (mode : Int) (now : Timestamp)
  | mkdirMany (volume : Uuid) (targetPaths : List Text) (parents : Bool) (now : Timestamp)
  | writeFile (volume : Uuid) (targetPath : Text) (data : Bytes) (mode : Int) (now : Timestamp)
  | importTree (volume : Uuid) (destination : Text) (entries : List ImportEntry)
      (now : Timestamp)
  | importText (volume : Uuid) (target : Text) (reader : Bytes) (now : Timestamp)
  | copy (volume : Uuid) (sourcePath destinationPath : Text) (recursive : Bool)
      (now : Timestamp)
  | move (volume : Uuid) (sourcePath destinationPath : Text) (now : Timestamp)
  | moveCommand (volume : Uuid) (sourcePath destinationPath : Text) (now : Timestamp)
  | remove (volume : Uuid) (targetPath : Text) (recursive : Bool)
  | removeMany (volume : Uuid) (targetPaths : List Text) (recursive forceMissing : Bool)
  | setTimes (volume : Uuid) (targetPath : Text)
      (atimeSeconds atimeNanoseconds mtimeSeconds mtimeNanoseconds : Int) (now : Timestamp)
  deriving DecidableEq, Repr

/-- The database that a call leaves to its transaction. -/
def Op.run (db : Database) : Op → Result Database
  | .createVolume volumeId volumeName now =>
      Prod.fst <$> db.createVolume volumeId volumeName now
  | .mkdir volume targetPath parents mode now => db.mkdir volume targetPath parents mode now
  | .mkdirMany volume targetPaths parents now => db.mkdirMany volume targetPaths parents now
  | .writeFile volume targetPath data mode now =>
      Prod.fst <$> db.writeFile volume targetPath data mode now
  | .importTree volume destination entries now =>
      Prod.fst <$> db.importTree volume destination entries now
  | .importText volume target reader now => Prod.fst <$> db.importText volume target reader now
  | .copy volume sourcePath destinationPath recursive now =>
      Prod.fst <$> db.copy volume sourcePath destinationPath recursive now
  | .move volume sourcePath destinationPath now =>
      Prod.fst <$> db.move volume sourcePath destinationPath now
  | .moveCommand volume sourcePath destinationPath now =>
      Prod.fst <$> db.moveCommand volume sourcePath destinationPath now
  | .remove volume targetPath recursive => Prod.fst <$> db.remove volume targetPath recursive
  | .removeMany volume targetPaths recursive forceMissing =>
      Prod.fst <$> db.removeMany volume targetPaths recursive forceMissing
  | .setTimes volume targetPath atimeSeconds atimeNanoseconds mtimeSeconds mtimeNanoseconds now =>
      Prod.fst <$> db.setTimes volume targetPath atimeSeconds atimeNanoseconds mtimeSeconds
        mtimeNanoseconds now

/-- The database after the transaction of a call. -/
def transact (db : Database) (outcome : Result Database) : Database :=
  match outcome with
  | .ok after => after.commit
  | .error _ => db

def Step (before : Database) (op : Op) (after : Database) : Prop :=
  after = transact before (op.run before)

def ReachableDatabase (db : Database) : Prop :=
  Reachable Database.empty Step db

def Database.calls (db : Database) (ops : List Op) : Database :=
  ops.foldl (fun before op => transact before (op.run before)) db

theorem reachable_calls (ops : List Op) : ReachableDatabase (Database.empty.calls ops) := by
  induction ops using List.reverseRecOn with
  | nil => exact .start
  | append_singleton ops op ih =>
      refine .next op ih ?_
      unfold Step Database.calls
      rw [List.foldl_concat]

end PostgreOS
