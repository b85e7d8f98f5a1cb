/-
Searching paths.

`find_paths` returns rows; the two output functions return one text with a line for
each path. Both output functions have a shortcut that reads a single zone.
-/

import PostgreOS.Operations.Copy

namespace PostgreOS

open Library.LikePattern

/-- The `LIKE` pattern of a shell pattern. -/
def namePatternText (pattern : Text) : Text :=
  replaceChar '?' ['_'] (replaceChar '*' ['%'] (replaceChar '_' ['\\', '_']
    (replaceChar '%' ['\\', '%'] (replaceChar '\\' ['\\', '\\'] pattern))))

/-- `name_pattern IS NULL OR name LIKE ...`. -/
def nameMatches (namePattern : Option Text) (name : Text) : Bool :=
  match namePattern with
  | none => true
  | some pattern => like (namePatternText pattern) name

/-- `kind_filter IS NULL OR kind = kind_filter`. -/
def kindMatches (kindFilter : Option Int) (kind : Kind) : Bool :=
  match kindFilter with
  | none => true
  | some code => kind.code = code

/-- `selected_zones`: a zone and the relative path at which its entries start. -/
def Database.selectedZones (db : Database) (volume : Uuid) (cleanPath : Text)
    (location : Location) : List (Zone × Text) :=
  (db.zones.filter fun zone =>
    zone.volumeId = volume ∧
      (zone.id = location.zoneId ∨ cleanPath = ['/'] ∨ zone.path = cleanPath ∨
        likeBelow cleanPath zone.path = true)).map fun zone =>
    (zone, if zone.id = location.zoneId then location.relativePath else [])

/-- `relative_root = '' OR relative_path = relative_root OR relative_path LIKE ...`. -/
def inRelativeRoot (relativeRoot : Text) (entry : ZoneEntry) : Bool :=
  relativeRoot == [] || entry.relativePath == relativeRoot ||
    likeBelow relativeRoot entry.relativePath

/-- A row of `found`. -/
structure FoundPath where
  path : Text
  name : Text
  kind : Kind
  deriving DecidableEq, Repr

/-- The entries of a selected zone, with their absolute paths. -/
def Database.foundEntries (db : Database) (volume : Uuid) (selected : Zone × Text) :
    List FoundPath :=
  (db.zoneEntries.filter fun entry =>
    entry.volumeId = volume ∧ entry.zoneId = selected.1.id ∧
      inRelativeRoot selected.2 entry = true).map fun entry =>
    { path := absolutePath selected.1.path entry.relativePath
      name := entry.name
      kind := entry.kind }

/-- The rows of `found`; joining `zones` by its key gives back the selected zone. -/
def Database.found (db : Database) (volume : Uuid) (cleanPath : Text) (location : Location) :
    List FoundPath :=
  let selected := db.selectedZones volume cleanPath location
  ((selected.filter fun zone =>
    cleanPath = ['/'] ∨ zone.1.path = cleanPath ∨ likeBelow cleanPath zone.1.path = true).map
      fun zone => { path := zone.1.path, name := zone.1.name, kind := .directory }) ++
    selected.flatMap (db.foundEntries volume)

/-- The paths of the found rows with the wanted kind and name. -/
def Database.foundPaths (db : Database) (volume : Uuid) (cleanPath : Text) (location : Location)
    (namePattern : Option Text) (kindFilter : Option Int) : List Text :=
  ((db.found volume cleanPath location).filter fun row =>
    kindMatches kindFilter row.kind && nameMatches namePattern row.name).map FoundPath.path

/-- `pgos.find_paths`. -/
def Database.findPaths (db : Database) (volume : Uuid) (targetPath : Text)
    (namePattern : Option Text) (kindFilter : Option Int) : Result (List Text) := do
  let cleanPath ← assertPath targetPath
  let location ← strict (db.locateZone volume cleanPath)
  .ok ((db.foundPaths volume cleanPath location namePattern kindFilter).insertionSort
    fun first second => collateC first second)

/-- The rows of `found` with all columns, as `pgos.find_entries` returns them. -/
def Database.foundRows (db : Database) (volume : Uuid) (cleanPath : Text) (location : Location) :
    List NodeRow :=
  let selected := db.selectedZones volume cleanPath location
  ((selected.filter fun zone =>
    cleanPath = ['/'] ∨ zone.1.path = cleanPath ∨ likeBelow cleanPath zone.1.path = true).map
      fun zone => (zoneInode zone.1.toZoneNode).toNodeRow) ++
    selected.flatMap fun zone =>
      (db.zoneEntries.filter fun entry =>
        entry.volumeId = volume ∧ entry.zoneId = zone.1.id ∧
          inRelativeRoot zone.2 entry = true).map fun entry =>
        (entryInode zone.1.path entry).toNodeRow

/-- `pgos.find_entries`. -/
def Database.findEntries (db : Database) (volume : Uuid) (targetPath : Text)
    (namePattern : Option Text) (kindFilter : Option Int) : Result (List NodeRow) := do
  let cleanPath ← assertPath targetPath
  let location ← strict (db.locateZone volume cleanPath)
  .ok (((db.foundRows volume cleanPath location).filter fun row =>
    kindMatches kindFilter row.kind && nameMatches namePattern row.name).insertionSort
      fun first second => collateC first.path second.path)

/-- `pgos.walk`. -/
def Database.walk (db : Database) (volume : Uuid) (targetPath : Text) : Result (List NodeRow) :=
  db.findEntries volume targetPath none none

/-- `convert_to(COALESCE(string_agg(prefix || path, '\n') || '\n', ''), 'UTF8')`. -/
def pathLines (pathPrefix : Text) (paths : List Text) : Bytes :=
  convertTo (if paths = [] then []
    else ['\n'].intercalate (paths.map (pathPrefix ++ ·)) ++ ['\n'])

/-- The condition under which both output functions read one zone only. -/
def Database.singleZoneSearch (db : Database) (volume : Uuid) (cleanPath : Text)
    (kindFilter : Option Int) : Bool :=
  (kindFilter == some 1 || kindFilter == some 3) &&
    (db.zonesLikeBelow volume cleanPath).isEmpty

/-- The matching entries of the located zone. -/
def Database.singleZoneEntries (db : Database) (volume : Uuid) (location : Location)
    (namePattern : Option Text) (kindFilter : Option Int) : List ZoneEntry :=
  db.zoneEntries.filter fun entry =>
    entry.volumeId = volume ∧ entry.zoneId = location.zoneId ∧
      some entry.kind.code = kindFilter ∧ inRelativeRoot location.relativePath entry = true ∧
      nameMatches namePattern entry.name = true

/-- `pgos.find_output`. -/
def Database.findOutput (db : Database) (volume : Uuid) (targetPath : Text)
    (namePattern : Option Text) (kindFilter : Option Int) (pathPrefix : Text) : Result Bytes := do
  let cleanPath ← assertPath targetPath
  let location ← strict (db.locateZone volume cleanPath)
  if db.singleZoneSearch volume cleanPath kindFilter then
    let ordered := (db.singleZoneEntries volume location namePattern kindFilter).insertionSort
      fun first second => collateC first.relativePath second.relativePath
    .ok (pathLines pathPrefix (ordered.map fun entry =>
      absolutePath location.zonePath entry.relativePath))
  else
    .ok (pathLines pathPrefix
      ((db.foundPaths volume cleanPath location namePattern kindFilter).insertionSort
        fun first second => collateC first second))

/-- `pgos.find_command_output`; its shortcut leaves the order to the storage. -/
def Database.findCommandOutput (db : Database) (volume : Uuid) (targetPath : Text)
    (namePattern : Option Text) (kindFilter : Option Int) (pathPrefix : Text) : Result Bytes := do
  let cleanPath ← assertPath targetPath
  let location ← strict (db.locateZone volume cleanPath)
  if db.singleZoneSearch volume cleanPath kindFilter then
    .ok (pathLines pathPrefix ((db.singleZoneEntries volume location namePattern kindFilter).map
      fun entry => absolutePath location.zonePath entry.relativePath))
  else db.findOutput volume cleanPath namePattern kindFilter pathPrefix

/-! ### The clients -/

/-- The loop of `normalize` over the parts of a path; the stack is reversed. -/
def normalizeParts : List Text → List Text → Option (List Text)
  | stack, [] => some stack.reverse
  | stack, part :: rest =>
      if part = [] ∨ part = ['.'] then normalizeParts stack rest
      else if part = ['.', '.'] then
        match stack with
        | [] => none
        | _ :: lower => normalizeParts lower rest
      else normalizeParts (part :: stack) rest

/-- `normalize` of `core::path`. -/
def normalize (path : Text) : Result Text :=
  if path.head? ≠ some '/' then raise "" "path must be absolute" []
  else if '\x00' ∈ path then raise "" "path contains a NUL byte" []
  else
    match normalizeParts [] (path.splitOn '/') with
    | none => raise "" "path escapes the volume root" []
    | some [] => .ok ['/']
    | some parts => .ok ('/' :: ['/'].intercalate parts)

/-- How the command line tool reaches the database. -/
inductive FileClient where
  | daemon
  | direct
  deriving DecidableEq, Repr

/-- `FileClient::find_output`; the daemon calls `Database::find_output`. The transport is left
out: the output is what the daemon makes, and one over 64 MiB would not arrive in one frame. -/
def FileClient.findOutput (client : FileClient) (db : Database) (volume : Uuid) (root : Text)
    (namePattern : Option Text) (kind : Option Int) (pathPrefix : Text) : Result Bytes := do
  let target ← normalize root
  match client with
  | .daemon => db.findCommandOutput volume target namePattern kind pathPrefix
  | .direct => do
      let paths ← db.findPaths volume target namePattern kind
      .ok (paths.flatMap fun path => convertTo (pathPrefix ++ path ++ ['\n']))

end PostgreOS
