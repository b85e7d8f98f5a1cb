/-
Trees of files.

What the operations on a volume are for. A tree of files leads from lists of names to files,
directories and symbolic links, with their modes, owners and times; zones, rows, blocks and
segments do not occur in it. Each operation has a condition and an effect.
-/

import PostgreOS.Library.NameTree
import PostgreOS.Operations.Imports

namespace PostgreOS

/-- What a name can stand for. -/
inductive Body where
  | file (content : Bytes)
  | directory
  | symlink (target : Text)
  deriving DecidableEq, Repr

structure Object where
  body : Body
  mode : Int
  uid : Int
  gid : Int
  atime : Timestamp
  mtime : Timestamp
  deriving DecidableEq, Repr

abbrev FileTree := Library.NameTree Text Object

def newObject (body : Body) (mode : Int) (now : Timestamp) : Object :=
  { body := body, mode := mode, uid := 0, gid := 0, atime := now, mtime := now }

/-- Only the bytes and the time of the change are new when a file is overwritten. -/
def Object.rewritten (data : Bytes) (now : Timestamp) (object : Object) : Object :=
  { object with body := .file data, mtime := now }

def Object.touched (atime mtime : Timestamp) (object : Object) : Object :=
  { object with atime := atime, mtime := mtime }

def Object.Holds (object : Object) : Prop :=
  object.body = .directory

namespace FileTree

variable (tree : FileTree)

def Directory (path : List Text) : Prop :=
  ∃ object, tree path = some object ∧ object.body = .directory

/-- The path is not the root, and its parent is a directory. -/
def InDirectory (path : List Text) : Prop :=
  ∃ parent name, path = parent ++ [name] ∧ tree.Directory parent

def Vacant (path : List Text) : Prop :=
  tree path = none ∧ tree.InDirectory path

def CanMake (path : List Text) : Prop :=
  path = [] ∨ tree.Vacant path

def make (path : List Text) (mode : Int) (now : Timestamp) : FileTree :=
  if path = [] then tree else Function.update tree path (some (newObject .directory mode now))

/-- What there is on the way to the path is a directory. -/
def CanMakeAll (path : List Text) : Prop :=
  ∀ front, front <+: path → ∀ object, tree front = some object → object.body = .directory

/-- The missing directories on the way to the path, and the path itself. -/
def makeAll (path : List Text) (mode : Int) (now : Timestamp) : FileTree :=
  fun names => if names <+: path ∧ tree names = none then some (newObject .directory mode now)
    else tree names

def CanWrite (path : List Text) : Prop :=
  tree.InDirectory path ∧ ∀ object, tree path = some object → ∃ content, object.body = .file content

def write (path : List Text) (data : Bytes) (mode : Int) (now : Timestamp) : FileTree :=
  Function.update tree path (some (match tree path with
    | none => newObject (.file data) mode now
    | some object => object.rewritten data now))

/-- What an entry of a batch asks for. -/
def importedObject (entry : ImportEntry) : Object :=
  { body :=
      if entry.kind = Kind.file.code then .file entry.content
      else if entry.kind = Kind.directory.code then .directory
      else .symlink entry.linkTarget
    mode := entry.mode
    uid := entry.uid
    gid := entry.gid
    atime := timestampOf entry.mtimeSeconds entry.mtimeNanoseconds
    mtime := timestampOf entry.mtimeSeconds entry.mtimeNanoseconds }

def ofBatch (entries : List ImportEntry) : FileTree := fun names =>
  (entries.find? fun entry => entry.relativePath = relativeText names ∧ Components names).map
    importedObject

/-- An entry that the staging table accepts. -/
structure Stageable (entry : ImportEntry) : Prop where
  kind : entry.kind = Kind.file.code ∨ entry.kind = Kind.directory.code ∨
    entry.kind = Kind.symlink.code
  time : 0 ≤ entry.mtimeNanoseconds ∧ entry.mtimeNanoseconds ≤ 999999999

def InTime (seconds nanoseconds : Int) : Prop :=
  ∃ time, toTimestamp seconds nanoseconds = .ok time

/-- A batch that spells a tree: a root, no path twice, and a directory above every other path. -/
structure Batch (entries : List ImportEntry) : Prop where
  stageable : ∀ entry ∈ entries, Stageable entry
  distinct : (entries.map ImportEntry.relativePath).Nodup
  root : ∃ entry ∈ entries, entry.relativePath = []
  canonical : ∀ entry ∈ entries, entry.relativePath ≠ [] → CanonicalRelative entry.relativePath
  parents : ∀ entry ∈ entries, entry.relativePath ≠ [] → ∃ parent ∈ entries,
    parent.relativePath = relativeParent entry.relativePath ∧ parent.kind = Kind.directory.code

def CanImport (path : List Text) (entries : List ImportEntry) : Prop :=
  tree.Vacant path ∧ Batch entries ∧
    ∀ entry ∈ entries, InTime entry.mtimeSeconds entry.mtimeNanoseconds

def importBatch (path : List Text) (entries : List ImportEntry) : FileTree :=
  tree.graft path (ofBatch entries)

/-! ### Subtrees -/

/-- Something other than the root, and not a directory unless the call is recursive, to a
vacant path outside it. -/
def CanCopy (source destination : List Text) (recursive : Bool) : Prop :=
  source ≠ [] ∧ ¬ source <+: destination ∧ tree.Vacant destination ∧
    ∃ object, tree source = some object ∧ (object.body = .directory → recursive = true)

/-- Something other than the root, to a path outside it that is in a directory and is none. -/
def CanMove (source destination : List Text) : Prop :=
  source ≠ [] ∧ ¬ source <+: destination ∧ tree source ≠ none ∧ tree.InDirectory destination ∧
    ¬ tree.Directory destination

/-- Something other than the root, and no directory with anything in it unless the call is
recursive. -/
def CanRemove (path : List Text) (recursive : Bool) : Prop :=
  path ≠ [] ∧ tree path ≠ none ∧
    (tree.Directory path → recursive = true ∨ ∀ name, tree (path ++ [name]) = none)

/-- The times are asked of the call only; where nothing is, nothing is changed. -/
def CanTouch (atimeSeconds atimeNanoseconds mtimeSeconds mtimeNanoseconds : Int) : Prop :=
  InTime atimeSeconds atimeNanoseconds ∧ InTime mtimeSeconds mtimeNanoseconds ∧
    (0 ≤ atimeNanoseconds ∧ atimeNanoseconds ≤ 999999999) ∧
      0 ≤ mtimeNanoseconds ∧ mtimeNanoseconds ≤ 999999999

def touch (path : List Text) (atime mtime : Timestamp) : FileTree :=
  Function.update tree path ((tree path).map (Object.touched atime mtime))

end FileTree

end PostgreOS
