/-
The FUSE adapter.

The adapter keeps a path for every inode number it has reported and for every open
file; everything else it asks the daemon for. A request is one transaction of the
daemon. The paths that the adapter sends are in normal form, so the daemon passes them
on unchanged.
-/

import Mathlib.Logic.Function.Basic
import PostgreOS.Library.Sessions
import PostgreOS.Ranges

namespace PostgreOS

open Library.Sessions

/-- An inode number of FUSE. -/
abbrev INodeNo := Nat

/-- `INodeNo::ROOT`. -/
def rootInode : INodeNo := 1

/-- A number from the counter of the adapter, which 2^64 openings do not exhaust. -/
abbrev FileHandle := Nat

inductive Errno where
  | noEntry
  | io
  | invalid
  | notImplemented
  deriving DecidableEq, Repr

/-- The state of `PostgreOsFilesystem` with the database behind its client. -/
structure Mount where
  database : Database
  inodePaths : INodeNo → Option Text
  openFiles : FileHandle → Option Text
  nextHandle : FileHandle

/-- `PostgreOsFilesystem::new`. -/
def Mount.new (database : Database) : Mount :=
  { database := database
    inodePaths := Function.update (fun _ => none) rootInode (some ['/'])
    openFiles := fun _ => none
    nextHandle := 1 }

abbrev Callback (α : Type) := Session Mount PgError α

/-- `get_result`: the first row of an answer. -/
def firstRow {α : Type} (rows : List α) : Result α :=
  match rows with
  | [] => raise "" "Record not found" []
  | row :: _ => .ok row

namespace Client

variable (volume : Uuid)

def stat (path : Text) : Callback Inode :=
  ask fun mount => do
    let rows ← mount.database.stat volume path
    firstRow rows

def inode (id : NodeId) : Callback Inode :=
  ask fun mount => firstRow (mount.database.inode volume id)

def list (path : Text) : Callback (List NodeRow) :=
  ask fun mount => mount.database.list volume path

def read (path : Text) : Callback Bytes :=
  ask fun mount => mount.database.readFile volume path

/-- `Database::read_range`, with the conversions of its arguments. -/
def readRange (path : Text) (offset length : Nat) : Callback Bytes :=
  ask fun mount =>
    if 2 ^ 63 ≤ offset ∨ 2 ^ 31 ≤ length then
      raise "" "out of range integral type conversion attempted" []
    else mount.database.readRange volume path offset length

/-- A request that changes the database, in a transaction of its own. -/
def commit {α : Type} (change : Database → Result (Database × α)) : Callback α :=
  perform fun mount => do
    let (after, value) ← change mount.database
    .ok (value, { mount with database := after.commit })

def write (path : Text) (data : Bytes) (now : Timestamp) : Callback NodeId :=
  commit fun db => db.writeFile volume path data 420 now

/-- `pgos.write_file_entry`. -/
def writeEntry (path : Text) (data : Bytes) (now : Timestamp) : Callback Inode := do
  let rows ← commit fun db => do
    let (after, _) ← db.writeFile volume path data 420 now
    let rows ← after.stat volume path
    .ok (after, rows)
  ask fun _ => firstRow rows

/-- `pgos.mkdir_entry`. -/
def mkdirEntry (path : Text) (parents : Bool) (now : Timestamp) : Callback Inode := do
  let rows ← commit fun db => do
    let after ← db.mkdir volume path parents 493 now
    let rows ← after.stat volume path
    .ok (after, rows)
  ask fun _ => firstRow rows

def setTimes (path : Text) (atime mtime : Int × Int) (now : Timestamp) : Callback Inode := do
  let rows ← commit fun db => db.setTimes volume path atime.1 atime.2 mtime.1 mtime.2 now
  ask fun _ => firstRow rows

def movePath (source destination : Text) (now : Timestamp) : Callback Int :=
  commit fun db => db.moveCommand volume source destination now

def remove (path : Text) (recursive : Bool) : Callback Nat :=
  commit fun db => db.remove volume path recursive

end Client

section Commit

variable {α : Type} {change : Database → Result (Database × α)} {mount : Mount}

theorem commit_of_ok {after : Database} {value : α}
    (done : change mount.database = .ok (after, value)) :
    Client.commit change mount = (.ok value, { mount with database := after.commit }) := by
  unfold Client.commit
  apply perform_of_ok
  rw [done]
  rfl

theorem commit_of_error {failure : PgError} (failed : change mount.database = .error failure) :
    Client.commit change mount = (.error failure, mount) := by
  unfold Client.commit
  apply perform_of_error
  rw [failed]
  rfl

end Commit

/-- `PostgreOsFilesystem::inode`: database ids are shifted past the root. -/
def inodeOf (path : Text) (id : NodeId) : INodeNo :=
  if path = ['/'] then rootInode else id + 2

def remember (entry : Inode) : Callback Unit :=
  modify fun mount =>
    { mount with
      inodePaths := Function.update mount.inodePaths (inodeOf entry.path entry.id) (some entry.path) }

section Callbacks

variable (volume : Uuid)

def entry (inode : INodeNo) : Callback Inode := do
  let entry ←
    (if inode = rootInode then Client.stat volume ['/'] else Client.inode volume (inode - 2) :
      Callback Inode)
  remember entry
  pure entry

def inodePath (inode : INodeNo) : Callback Text := do
  let cached ← ask fun mount => .ok (mount.inodePaths inode)
  match cached with
  | some path => pure path
  | none => do
      let entry ← entry volume inode
      pure entry.path

def openPath (handle : FileHandle) (inode : INodeNo) : Callback Text := do
  let opened ← ask fun mount => .ok (mount.openFiles handle)
  match opened with
  | some path => pure path
  | none => inodePath volume inode

def allocateHandle (path : Text) : Callback FileHandle := do
  let handle ← ask fun mount => .ok mount.nextHandle
  modify fun mount =>
    { mount with
      nextHandle := handle + 1
      openFiles := Function.update mount.openFiles handle (some path) }
  pure handle

/-- The path of a child, `format!("{parent}/{name}")`. -/
def joinName (parent name : Text) : Text :=
  if parent = ['/'] then '/' :: name else parent ++ '/' :: name

theorem parentOf_joinName {parent name : Text} (nonempty : parent ≠ []) (named : name ≠ [])
    (free : '/' ∉ name) : parentOf (joinName parent name) = some parent := by
  unfold joinName
  split
  · rename_i isRoot
    rw [isRoot]
    exact parentOf_root_child named free
  · exact parentOf_child nonempty free

/-- Names are those that `to_str` accepts. -/
def childPath (parent : INodeNo) (name : Text) : Callback Text :=
  if name = [] ∨ name = ['.'] ∨ name = ['.', '.'] ∨ '/' ∈ name then
    fail { errcode := "", message := "invalid directory entry name", arguments := [] }
  else do
    let parent ← inodePath volume parent
    pure (joinName parent name)

/-! ### Callbacks -/

def lookup (parent : INodeNo) (name : Text) : Session Mount Errno Inode :=
  reporting .noEntry do
    let path ← childPath volume parent name
    let entry ← Client.stat volume path
    remember entry
    pure entry

def getattr (inode : INodeNo) : Session Mount Errno Inode :=
  reporting .noEntry (entry volume inode)

/-- `open`; `truncate` is `flags.0 & O_TRUNC != 0`. -/
def openFile (inode : INodeNo) (truncate : Bool) (now : Timestamp) :
    Session Mount Errno FileHandle :=
  reporting .io do
    let entry ← entry volume inode
    if entry.kind ≠ .file then
      fail { errcode := "", message := "not a regular file", arguments := [] }
    else do
      let _ ← (if truncate then Client.write volume entry.path [] now else pure 0 : Callback NodeId)
      allocateHandle entry.path

def read (inode : INodeNo) (handle : FileHandle) (offset size : Nat) : Session Mount Errno Bytes :=
  reporting .io do
    let path ← openPath volume handle inode
    Client.readRange volume path offset size

/-- `resize` and `copy_from_slice`. -/
def splice (data : Bytes) (start : Nat) (input : Bytes) : Bytes :=
  let resized := data ++ List.replicate (start + input.length - data.length) 0
  resized.take start ++ input ++ resized.drop (start + input.length)

/-- The bytes of a write, whose length FUSE sends as a `u32`. -/
abbrev Input := { bytes : Bytes // bytes.length < 2 ^ 32 }

def write (inode : INodeNo) (offset : Nat) (input : Input) (now : Timestamp) :
    Session Mount Errno Nat :=
  reporting .io do
    let entry ← entry volume inode
    let data ← Client.read volume entry.path
    if 2 ^ 64 ≤ offset + input.val.length then
      fail { errcode := "", message := "write is too large", arguments := [] }
    else do
      let _ ← Client.write volume entry.path (splice data offset input.val) now
      pure input.val.length

def create (parent : INodeNo) (name : Text) (now : Timestamp) :
    Session Mount Errno (Inode × FileHandle) :=
  reporting .io do
    let path ← childPath volume parent name
    let entry ← Client.writeEntry volume path [] now
    remember entry
    let handle ← allocateHandle entry.path
    pure (entry, handle)

def mkdir (parent : INodeNo) (name : Text) (now : Timestamp) : Session Mount Errno Inode :=
  reporting .io do
    let path ← childPath volume parent name
    let entry ← Client.mkdirEntry volume path false now
    remember entry
    pure entry

/-- `unlink` and `rmdir`. -/
def removeChild (parent : INodeNo) (name : Text) : Session Mount Errno Unit :=
  reporting .io do
    let path ← childPath volume parent name
    let _ ← Client.remove volume path false
    pure ()

/-- `rename`; `flags` is whether any flag is set. -/
def rename (parent : INodeNo) (name : Text) (newParent : INodeNo) (newName : Text)
    (flags : Bool) (now : Timestamp) : Session Mount Errno Unit :=
  if flags then fail .invalid
  else
    reporting .io do
      let source ← childPath volume parent name
      let destination ← childPath volume newParent newName
      let _ ← Client.movePath volume source destination now
      pure ()

/-- Nanoseconds since the Unix epoch. -/
abbrev SystemTime := Int

inductive TimeOrNow where
  | specificTime (value : SystemTime)
  | now

/-- `system_time` of the columns of a timestamp: its seconds, rounded down, and the
remaining microseconds. -/
def systemTime (time : Timestamp) : SystemTime :=
  let seconds := time / 1000000
  let nanoseconds := time % 1000000
  if 0 ≤ seconds then seconds * 1000000000 + nanoseconds
  else -(-seconds * 1000000000 + nanoseconds)

/-- `timestamp`: seconds and nanoseconds. -/
def timestamp (value : SystemTime) : Callback (Int × Int) :=
  if value < 0 then
    fail
      { errcode := ""
        message := "timestamps before the Unix epoch are not supported"
        arguments := [] }
  else pure (value / 1000000000, value % 1000000000)

def chosenTime (requested : Option TimeOrNow) (clock : SystemTime) (existing : Timestamp) :
    SystemTime :=
  match requested with
  | some (.specificTime value) => value
  | some .now => clock
  | none => systemTime existing

/-- `setattr`; `unsupported` is whether another field than the two times is set. -/
def setattr (inode : INodeNo) (unsupported : Bool) (atime mtime : Option TimeOrNow)
    (clock : SystemTime) (now : Timestamp) : Session Mount Errno Inode :=
  if unsupported then fail .notImplemented
  else
    reporting .io do
      let row ← entry volume inode
      let access ← timestamp (chosenTime atime clock row.atime)
      let modification ← timestamp (chosenTime mtime clock row.mtime)
      let changed ← Client.setTimes volume row.path access modification now
      remember changed
      pure changed

/-- `rsplit_once('/')`, the part before the slash. -/
def beforeLastSlash (path : Text) : Option Text :=
  if '/' ∈ path then some (left path ((path.length : Int) - strpos path.reverse '/')) else none

/-- `parent_inode` asks for the directory above and falls back to the root. -/
def Database.parentNumber (db : Database) (directory : Inode) : INodeNo :=
  match beforeLastSlash directory.path with
  | none => rootInode
  | some front =>
      match db.stat volume (if front = [] then ['/'] else front) >>= firstRow with
      | .ok row => inodeOf row.path row.id
      | .error _ => rootInode

def parentInode (directory : Inode) : Callback INodeNo :=
  ask fun mount => .ok (mount.database.parentNumber volume directory)

/-- An entry of a reply, with the offset at which the next call goes on. -/
structure DirEntry where
  inode : INodeNo
  offset : Nat
  kind : Kind
  name : Text
  deriving DecidableEq, Repr

/-- The offset of an entry is one more than its position. -/
def numberedEntries (entries : List (INodeNo × Kind × Text)) : List DirEntry :=
  entries.zipIdx.map fun ((inode, kind, name), index) =>
    { inode := inode
      offset := index + 1
      kind := kind
      name := name }

/-- `readdir`; `capacity` is the number of entries for which the reply has room. -/
def readdir (inode : INodeNo) (offset capacity : Nat) : Session Mount Errno (List DirEntry) :=
  reporting .io do
    let directory ← entry volume inode
    let parent ← parentInode volume directory
    let rows ← Client.list volume directory.path
    let entries : List (INodeNo × Kind × Text) :=
      (inode, .directory, ['.']) :: (parent, .directory, ['.', '.']) ::
        rows.map fun row => (inodeOf row.path row.id, row.kind, row.name)
    pure (((numberedEntries entries).drop offset).take capacity)

def release (handle : FileHandle) : Session Mount Errno Unit :=
  modify fun mount => { mount with openFiles := Function.update mount.openFiles handle none }

end Callbacks

/-! ### Runs of callbacks -/

inductive FuseCall where
  | lookup (parent : INodeNo) (name : Text)
  | getattr (inode : INodeNo)
  | setattr (inode : INodeNo) (unsupported : Bool) (atime mtime : Option TimeOrNow)
      (clock : SystemTime) (now : Timestamp)
  | openFile (inode : INodeNo) (truncate : Bool) (now : Timestamp)
  | read (inode : INodeNo) (handle : FileHandle) (offset size : Nat)
  | write (inode : INodeNo) (offset : Nat) (input : Input) (now : Timestamp)
  | create (parent : INodeNo) (name : Text) (now : Timestamp)
  | mkdir (parent : INodeNo) (name : Text) (now : Timestamp)
  | unlink (parent : INodeNo) (name : Text)
  | rmdir (parent : INodeNo) (name : Text)
  | rename (parent : INodeNo) (name : Text) (newParent : INodeNo) (newName : Text) (flags : Bool)
      (now : Timestamp)
  | readdir (inode : INodeNo) (offset capacity : Nat)
  | release (handle : FileHandle)

/-- The adapter after a callback; `flush` and `fsync` do nothing. -/
def FuseCall.run (volume : Uuid) (call : FuseCall) (mount : Mount) : Mount :=
  match call with
  | .lookup parent name => (PostgreOS.lookup volume parent name mount).2
  | .getattr inode => (PostgreOS.getattr volume inode mount).2
  | .setattr inode unsupported atime mtime clock now =>
      (PostgreOS.setattr volume inode unsupported atime mtime clock now mount).2
  | .openFile inode truncate now => (PostgreOS.openFile volume inode truncate now mount).2
  | .read inode handle offset size => (PostgreOS.read volume inode handle offset size mount).2
  | .write inode offset input now => (PostgreOS.write volume inode offset input now mount).2
  | .create parent name now => (PostgreOS.create volume parent name now mount).2
  | .mkdir parent name now => (PostgreOS.mkdir volume parent name now mount).2
  | .unlink parent name => (removeChild volume parent name mount).2
  | .rmdir parent name => (removeChild volume parent name mount).2
  | .rename parent name newParent newName flags now =>
      (PostgreOS.rename volume parent name newParent newName flags now mount).2
  | .readdir inode offset capacity => (PostgreOS.readdir volume inode offset capacity mount).2
  | .release handle => (PostgreOS.release handle mount).2

def FuseStep (volume : Uuid) (before : Mount) (call : FuseCall) (after : Mount) : Prop :=
  after = call.run volume before

/-- What the daemon answers to `entry`. -/
def Database.entryOf (db : Database) (volume : Uuid) (inode : INodeNo) : Result Inode :=
  if inode = rootInode then db.stat volume ['/'] >>= firstRow
  else firstRow (db.inode volume (inode - 2))

def Mount.remembering (mount : Mount) (entry : Inode) : Mount :=
  { mount with
    inodePaths := Function.update mount.inodePaths (inodeOf entry.path entry.id) (some entry.path) }

theorem entry_eq (volume : Uuid) (inode : INodeNo) (mount : Mount) :
    entry volume inode mount =
      match mount.database.entryOf volume inode with
      | .ok row => (.ok row, mount.remembering row)
      | .error failure => (.error failure, mount) := by
  have asked : (if inode = rootInode then Client.stat volume ['/']
      else Client.inode volume (inode - 2)) mount =
        (mount.database.entryOf volume inode, mount) := by
    unfold Database.entryOf
    split
    · rfl
    · rfl
  unfold entry
  cases answer : mount.database.entryOf volume inode with
  | ok row =>
      rw [answer] at asked
      rw [bind_of_ok asked]
      rfl
  | error failure =>
      rw [answer] at asked
      rw [bind_of_error asked]

end PostgreOS
