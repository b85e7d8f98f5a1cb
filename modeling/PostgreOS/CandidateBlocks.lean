/-
The rows of a recursive search.

`candidate_blocks` asks for the blocks of the files below a path in the order of the paths:
with a query of its own for one literal and one zone, and with `pgos.search_candidate_blocks`
otherwise. The first compares the paths, the second takes the path as a pattern.
-/

import Mathlib.Data.Prod.Lex
import PostgreOS.CandidateText
import PostgreOS.GrepOutput
import PostgreOS.Library.Ordering
import PostgreOS.SubtreeQueries

namespace PostgreOS

open Library.LikePattern Library.LineBlocks Library.Lines Library.Ordering Library.Outcome

/-- A row of a search over files. -/
structure PathBlockRow extends TextRow where
  path : Text
  deriving DecidableEq, Repr

/-- A row with the columns that it is ordered by. -/
structure Candidate extends PathBlockRow where
  ordinal : Nat
  number : Nat
  deriving DecidableEq, Repr

/-- `ORDER BY path COLLATE "C", ordinal, number`. -/
def inPathOrder (first second : Candidate) : Bool :=
  if first.path ≠ second.path then collateC first.path second.path
  else if first.ordinal ≠ second.ordinal then decide (first.ordinal ≤ second.ordinal)
  else decide (first.number ≤ second.number)

def orderCandidates (candidates : List Candidate) : List PathBlockRow :=
  (candidates.insertionSort fun first second => inPathOrder first second).map
    Candidate.toPathBlockRow

/-- A block of a file as a row. -/
def blockCandidate (path : Text) (block : ContentBlock) : Candidate :=
  { path := path
    firstLine := block.firstLine
    body := block.body
    ordinal := block.ordinal
    number := 0 }

/-- The wanted lines of a block of a file in rows of their own. -/
def lineCandidates (wanted : Text → Bool) (path : Text) (block : ContentBlock) : List Candidate :=
  (((stringToTable block.body).zipIdx 1).filter fun line => wanted line.1).map fun line =>
    { path := path
      firstLine := block.firstLine + line.2 - 1
      body := line.1 ++ ['\n']
      ordinal := block.ordinal
      number := line.2 }

/-- `cardinality(file_suffixes) = 0 OR EXISTS (SELECT 1 FROM unnest(file_suffixes) suffix
WHERE right(name, length(suffix)) = suffix)`. -/
def hasSuffix (fileSuffixes : List Text) (name : Text) : Bool :=
  fileSuffixes.isEmpty || fileSuffixes.any fun suffix => right name suffix.length == suffix

/-- The regular files of a zone that a search takes. -/
def Database.eligibleIn (db : Database) (volume : Uuid) (fileSuffixes : List Text) (zone : NodeId)
    (inside : ZoneEntry → Bool) : List ZoneEntry :=
  db.zoneEntries.filter fun entry =>
    entry.volumeId = volume ∧ entry.zoneId = zone ∧ entry.kind = .file ∧
      hasSuffix fileSuffixes entry.name = true ∧ inside entry = true

def Database.entryBlocks (db : Database) (volume : Uuid) (entry : ZoneEntry) : List ContentBlock :=
  db.allContentBlocks.filter fun block =>
    entry.contentObject = some block.objectId ∧ block.volumeId = volume

/-! ### `pgos.search_candidate_blocks` -/

/-- `eligible_objects`: the files of the located zone, and those of the zones that the path
selects. -/
def Database.eligibleObjects (db : Database) (volume : Uuid) (cleanPath : Text)
    (location : Location) (fileSuffixes : List Text) : List (Text × ZoneEntry) :=
  (db.eligibleIn volume fileSuffixes location.zoneId (inRelativeRoot location.relativePath)).map
      (fun entry => (absolutePath location.zonePath entry.relativePath, entry)) ++
    (db.zones.filter fun zone =>
      zone.volumeId = volume ∧ zone.id ≠ location.zoneId ∧
        (cleanPath = ['/'] ∨ zone.path = cleanPath ∨ likeBelow cleanPath zone.path = true)).flatMap
      fun zone => (db.eligibleIn volume fileSuffixes zone.id fun _ => true).map fun entry =>
        (absolutePath zone.path entry.relativePath, entry)

/-- The rows for one needle: its lines in the blocks that have it. -/
def Database.needleLines (db : Database) (volume : Uuid) (needle : Text) (file : Text × ZoneEntry) :
    List Candidate :=
  ((db.entryBlocks volume file.2).filter fun block => like needle block.body).flatMap
    (lineCandidates (like needle) file.1)

/-- The rows of `matching_content_blocks`, joined with a file. -/
def Database.matchingBlocks (db : Database) (volume : Uuid) (needles : Option (List Text))
    (file : Text × ZoneEntry) : List Candidate :=
  ((db.entryBlocks volume file.2).filter fun block => wantedBy needles block.body).map
    (blockCandidate file.1)

/-- `pgos.search_candidate_blocks`. -/
def Database.searchCandidateBlocks (db : Database) (volume : Uuid) (targetPath : Text)
    (needles : Option (List Text)) (fileSuffixes : List Text) : Result (List PathBlockRow) := do
  let cleanPath ← assertPath targetPath
  let location ← strict (db.locateZone volume cleanPath)
  let files := db.eligibleObjects volume cleanPath location fileSuffixes
  let candidates :=
    match needles with
    | some [needle] => files.flatMap (db.needleLines volume needle)
    | _ => files.flatMap (db.matchingBlocks volume needles)
  .ok (orderCandidates candidates)

/-- `SearchScopeRow`. -/
structure SearchScope extends Location where
  hasDescendants : Bool
  segmentIds : List Uuid
  deriving DecidableEq, Repr

/-- `relative_root = '' OR relative_path = relative_root OR starts_with(relative_path,
relative_root || '/')`. -/
def startsInRoot (relativeRoot : Text) (entry : ZoneEntry) : Bool :=
  relativeRoot == [] || entry.relativePath == relativeRoot ||
    (relativeRoot ++ ['/']).isPrefixOf entry.relativePath

/-- Another zone lies at the path or below it. -/
def Database.hasDescendants (db : Database) (volume : Uuid) (target : Text) (zone : NodeId) : Bool :=
  db.zones.any fun other =>
    other.volumeId = volume ∧ other.id ≠ zone ∧
      (target = ['/'] ∨ other.path = target ∨ (target ++ ['/']).isPrefixOf other.path = true)

/-- The segments of the objects of the files of a location. -/
def Database.scopeSegments (db : Database) (volume : Uuid) (location : Location) : List Uuid :=
  ((db.zoneEntries.filter fun entry =>
    entry.volumeId = volume ∧ entry.zoneId = location.zoneId ∧
      startsInRoot location.relativePath entry = true).flatMap fun entry =>
    (db.contentObjects.filter fun object =>
      entry.contentObject = some object.id ∧ object.volumeId = entry.volumeId).filterMap
        ContentObject.segmentId).dedup

/-- The first query of `candidate_blocks`. -/
def Database.searchScope (db : Database) (volume : Uuid) (target : Text) : Result SearchScope :=
  match db.locateZone volume target with
  | none => raise "" "Record not found" []
  | some location => .ok
      { toLocation := location
        hasDescendants := db.hasDescendants volume target location.zoneId
        segmentIds := db.scopeSegments volume location }

/-- `CASE WHEN zone_path = '/' THEN '/' || relative_path ELSE zone_path || '/' || relative_path END`. -/
def joinedPath (zonePath relativePath : Text) : Text :=
  if zonePath = ['/'] then '/' :: relativePath else zonePath ++ '/' :: relativePath

/-- The blocks of a file that contain the literal, from `content_blocks` or from a segment of the
scope. -/
def Database.literalBlocks (db : Database) (volume : Uuid) (scope : SearchScope) (literal : Text)
    (file : Text × ZoneEntry) : List Candidate :=
  ((db.entryBlocks volume file.2).filter fun block =>
    (block.segmentId = none ∨ ∃ segment ∈ scope.segmentIds, block.segmentId = some segment) ∧
      literal <:+: block.body).map (blockCandidate file.1)

/-- The second query of `candidate_blocks`. -/
def Database.literalCandidates (db : Database) (volume : Uuid) (scope : SearchScope)
    (literal : Text) (fileSuffixes : List Text) : List PathBlockRow :=
  let files := (db.eligibleIn volume fileSuffixes scope.zoneId
    (startsInRoot scope.relativePath)).map fun entry =>
      (joinedPath scope.zonePath entry.relativePath, entry)
  orderCandidates (files.flatMap (db.literalBlocks volume scope literal))

/-- The call of `pgos.search_candidate_blocks`. -/
def Database.searchedBlocks (db : Database) (volume : Uuid) (target : Text)
    (literals : Option (List Text)) (fileSuffixes : List Text) : Result (List PathBlockRow) := do
  let needles := literalPatterns literals
  bindTexts (needles.getD [] ++ fileSuffixes)
  db.searchCandidateBlocks volume target needles fileSuffixes

/-- `Database::candidate_blocks`. -/
def Database.candidateBlocks (db : Database) (volume : Uuid) (target : Text)
    (literals : Option (List Text)) (fileSuffixes : List Text) : Result (List PathBlockRow) := do
  let target ← normalize target
  match literals with
  | some [literal] => do
      let scope ← db.searchScope volume target
      if scope.hasDescendants then db.searchedBlocks volume target literals fileSuffixes
      else do
        bindTexts (literal :: fileSuffixes)
        .ok (db.literalCandidates volume scope literal fileSuffixes)
  | _ => db.searchedBlocks volume target literals fileSuffixes

def Candidate.key (row : Candidate) : Text ×ₗ (Nat ×ₗ Nat) :=
  toLex (row.path, toLex (row.ordinal, row.number))

theorem Candidate.key_le_iff {first second : Candidate} :
    first.key ≤ second.key ↔ first.path < second.path ∨ first.path = second.path ∧
      (first.ordinal < second.ordinal ∨ first.ordinal = second.ordinal ∧
        first.number ≤ second.number) := by
  unfold Candidate.key
  rw [Prod.Lex.toLex_le_toLex, Prod.Lex.toLex_le_toLex]

theorem Candidate.key_lt_iff {first second : Candidate} :
    first.key < second.key ↔ first.path < second.path ∨ first.path = second.path ∧
      (first.ordinal < second.ordinal ∨ first.ordinal = second.ordinal ∧
        first.number < second.number) := by
  unfold Candidate.key
  rw [Prod.Lex.toLex_lt_toLex, Prod.Lex.toLex_lt_toLex]

theorem inPathOrder_iff (first second : Candidate) :
    inPathOrder first second = true ↔ first.key ≤ second.key := by
  rw [Candidate.key_le_iff]
  unfold inPathOrder collateC
  by_cases path : first.path = second.path
  · rw [if_neg (not_not.mpr path)]
    by_cases ordinal : first.ordinal = second.ordinal
    · simp [path, ordinal]
    · simp [path, ordinal, lt_iff_le_and_ne]
  · simp [path, lt_iff_le_and_ne]

/-! ### The rows of a file -/

/-- Rows in order that print the matching lines of a file. -/
structure PrintsFile (matching : Text → Bool) (path content : Text) (rows : List Candidate) :
    Prop where
  paths : ∀ row ∈ rows, row.path = path
  ordered : rows.Pairwise fun first second => first.key < second.key
  printed : ∀ lineNumber linePrefix,
    (rows.flatMap fun row => grepText matching lineNumber linePrefix row.firstLine row.body) =
      grepText matching lineNumber linePrefix 1 content
  found : (rows.any fun row => hasMatch matching row.body) = hasMatch matching content

section File

variable {matching keep wanted : Text → Bool} {path content : Text} {lineNumber : Bool}
  {linePrefix : Bytes}

theorem grepText_eq_nil {text : Text} (absent : hasMatch matching text = false) (firstLine : Nat) :
    grepText matching lineNumber linePrefix firstLine text = [] := by
  unfold grepText printLines
  rw [List.flatMap_eq_nil_iff]
  intro entry member
  obtain ⟨stored, found⟩ := List.mem_filter.mp member
  have some_ : hasMatch matching text = true :=
    List.any_eq_true.mpr ⟨entry.1, List.fst_mem_of_mem_zipIdx stored, found⟩
  rw [absent] at some_
  cases some_

theorem flatMap_filter_of_nil {α β : Type} {keep : α → Bool} {output : α → List β} {rows : List α}
    (nothing : ∀ row ∈ rows, keep row = false → output row = []) :
    (rows.filter keep).flatMap output = rows.flatMap output := by
  induction rows with
  | nil => rfl
  | cons row rest ih =>
      rw [List.forall_mem_cons] at nothing
      rw [List.filter_cons, List.flatMap_cons]
      split
      · rw [List.flatMap_cons, ih nothing.2]
      · rename_i dropped
        rw [ih nothing.2, nothing.1 (Bool.eq_false_iff.mpr dropped), List.nil_append]

theorem absent_of_dropped {body : Text} {kept : Bool} (wide : hasMatch matching body = true → kept = true)
    (dropped : kept = false) : hasMatch matching body = false := by
  apply Bool.eq_false_iff.mpr
  intro found
  rw [wide found] at dropped
  cases dropped

theorem any_filter_hasMatch {α : Type} {body : α → Text} {keep : α → Bool} {rows : List α}
    (wide : ∀ row ∈ rows, hasMatch matching (body row) = true → keep row = true) :
    ((rows.filter keep).any fun row => hasMatch matching (body row)) =
      rows.any fun row => hasMatch matching (body row) := by
  rw [Bool.eq_iff_iff, List.any_eq_true, List.any_eq_true]
  constructor
  · rintro ⟨row, member, found⟩
    exact ⟨row, List.mem_of_mem_filter member, found⟩
  · rintro ⟨row, member, found⟩
    exact ⟨row, List.mem_filter.mpr ⟨member, wide row member found⟩, found⟩

theorem pairwise_ordinal {blocks : List ContentBlock}
    (blocksOf : BlocksOf content (blocks.map ContentBlock.toLineBlock)) :
    blocks.Pairwise fun first second => first.ordinal < second.ordinal := by
  have ordinals := ChainFrom.ordinals blocksOf.1
  rw [List.map_map, List.length_map] at ordinals
  have increasing : (blocks.map fun block => block.ordinal).Pairwise (· < ·) := by
    have same : blocks.map (fun block => block.ordinal) = List.range' 0 blocks.length := ordinals
    rw [same]
    exact List.pairwise_lt_range'
  exact List.pairwise_map.mp increasing

theorem linesFrom_of_blocksOf {blocks : List ContentBlock}
    (blocksOf : BlocksOf content (blocks.map ContentBlock.toLineBlock)) :
    LinesFrom 1 (blocks.map textRow) ∧ (blocks.map textRow).flatMap TextRow.body = content := by
  refine ⟨linesFrom_of_chain blocksOf.1, ?_⟩
  rw [← blocksOf.2.1, text, List.flatMap_map, List.flatMap_map]
  rfl

theorem grepText_blocksOf {blocks : List ContentBlock}
    (blocksOf : BlocksOf content (blocks.map ContentBlock.toLineBlock)) :
    (blocks.flatMap fun block =>
        grepText matching lineNumber linePrefix block.firstLine block.body) =
      grepText matching lineNumber linePrefix 1 content := by
  obtain ⟨aligned, whole⟩ := linesFrom_of_blocksOf blocksOf
  obtain ⟨printed, -⟩ := @grepText_blocks matching lineNumber linePrefix _ 1 aligned
  rwa [whole, List.flatMap_map] at printed

theorem hasMatch_blocksOf {blocks : List ContentBlock}
    (blocksOf : BlocksOf content (blocks.map ContentBlock.toLineBlock)) :
    (blocks.any fun block => hasMatch matching block.body) = hasMatch matching content := by
  obtain ⟨aligned, whole⟩ := linesFrom_of_blocksOf blocksOf
  obtain ⟨-, found⟩ := @grepText_blocks matching false [] _ 1 aligned
  rwa [whole, List.any_map] at found

theorem printsFile_blocks {blocks : List ContentBlock} {keep : ContentBlock → Bool}
    (blocksOf : BlocksOf content (blocks.map ContentBlock.toLineBlock))
    (wide : ∀ block ∈ blocks, hasMatch matching block.body = true → keep block = true)
    (path : Text) :
    PrintsFile matching path content ((blocks.filter keep).map (blockCandidate path)) := by
  refine ⟨?_, ?_, ?_, ?_⟩
  · intro row member
    obtain ⟨block, -, rfl⟩ := List.mem_map.mp member
    rfl
  · refine List.pairwise_map.mpr (((pairwise_ordinal blocksOf).filter keep).imp ?_)
    intro first second less
    exact Candidate.key_lt_iff.mpr (Or.inr ⟨rfl, Or.inl less⟩)
  · intro lineNumber linePrefix
    rw [List.flatMap_map, ← grepText_blocksOf blocksOf]
    exact flatMap_filter_of_nil fun block member dropped =>
      grepText_eq_nil (absent_of_dropped (wide block member) dropped) block.firstLine
  · rw [List.any_map, ← hasMatch_blocksOf blocksOf]
    exact any_filter_hasMatch wide

theorem grepText_line {line : Text} (closed : '\n' ∉ line) (number : Nat) :
    grepText matching lineNumber linePrefix number (line ++ ['\n']) =
      if matching line then printLine lineNumber linePrefix number line else [] := by
  have single : linesOf '\n' (line ++ ['\n']) = [line ++ ['\n']] := linesOf_append_cons closed []
  have bare : lineText '\n' (line ++ ['\n']) = line := lineText_of_notMem closed []
  rw [grepText, single, List.zipIdx_singleton, printLines, List.filter_cons, bare]
  split
  · rw [List.filter_nil, List.flatMap_singleton, bare]
  · rfl

theorem hasMatch_line {line : Text} (closed : '\n' ∉ line) :
    hasMatch matching (line ++ ['\n']) = matching line := by
  have single : linesOf '\n' (line ++ ['\n']) = [line ++ ['\n']] := linesOf_append_cons closed []
  have bare : lineText '\n' (line ++ ['\n']) = line := lineText_of_notMem closed []
  rw [hasMatch, single, List.any_cons, List.any_nil, Bool.or_false, bare]

theorem printLines_cons (entry : Text × Nat) (rest : List (Text × Nat)) :
    printLines matching lineNumber linePrefix (entry :: rest) =
      (if matching (lineText '\n' entry.1) then
        printLine lineNumber linePrefix entry.2 (lineText '\n' entry.1) else []) ++
        printLines matching lineNumber linePrefix rest := by
  rw [printLines, List.filter_cons]
  split
  · rw [List.flatMap_cons]
    rfl
  · rfl

theorem flatMap_grepText_lines (firstLine first : Nat) (lines : List Text) :
    (((lines.map (lineText '\n')).zipIdx (first + 1)).flatMap fun line =>
        grepText matching lineNumber linePrefix (firstLine + line.2 - 1) (line.1 ++ ['\n'])) =
      printLines matching lineNumber linePrefix (lines.zipIdx (firstLine + first)) := by
  induction lines generalizing first with
  | nil => rfl
  | cons line rest ih =>
      have number : firstLine + (first + 1) - 1 = firstLine + first := by omega
      rw [List.map_cons, List.zipIdx_cons, List.flatMap_cons, List.zipIdx_cons, printLines_cons,
        ih (first + 1), Nat.add_assoc firstLine first 1]
      dsimp only
      rw [number, grepText_line lineText_closed]

theorem lineCandidates_eq (proper : wanted [] = false) (path : Text) (block : ContentBlock) :
    lineCandidates wanted path block =
      (((lineTexts '\n' block.body).zipIdx 1).filter fun line => wanted line.1).map fun line =>
        { path := path
          firstLine := block.firstLine + line.2 - 1
          body := line.1 ++ ['\n']
          ordinal := block.ordinal
          number := line.2 } := by
  unfold lineCandidates stringToTable
  split
  · rename_i empty
    rw [empty]
    rfl
  · rw [filter_zipIdx_splitOn proper]

section Lines

variable (wide : ∀ line, matching line = true → wanted line = true) (proper : wanted [] = false)

include wide proper

theorem lineCandidates_printed (path : Text) (block : ContentBlock) :
    ((lineCandidates wanted path block).flatMap fun row =>
        grepText matching lineNumber linePrefix row.firstLine row.body) =
      grepText matching lineNumber linePrefix block.firstLine block.body := by
  rw [lineCandidates_eq proper, List.flatMap_map, grepText, ← Nat.add_zero block.firstLine,
    ← flatMap_grepText_lines]
  apply flatMap_filter_of_nil
  intro line member dropped
  have closed : '\n' ∉ line.1 := notMem_of_mem_lineTexts (List.fst_mem_of_mem_zipIdx member)
  refine grepText_eq_nil (absent_of_dropped ?_ dropped) _
  rw [hasMatch_line closed]
  exact wide line.1

theorem lineCandidates_found (path : Text) (block : ContentBlock) :
    ((lineCandidates wanted path block).any fun row => hasMatch matching row.body) =
      hasMatch matching block.body := by
  have wideRow (line : Text × Nat) (member : line ∈ (lineTexts '\n' block.body).zipIdx 1)
      (found : hasMatch matching (line.1 ++ ['\n']) = true) : wanted line.1 = true := by
    rw [hasMatch_line (notMem_of_mem_lineTexts (List.fst_mem_of_mem_zipIdx member))] at found
    exact wide line.1 found
  have texts := List.zipIdx_map_fst 1 (lineTexts '\n' block.body)
  rw [lineCandidates_eq proper, List.any_map]
  refine (any_filter_hasMatch wideRow).trans ?_
  calc (((lineTexts '\n' block.body).zipIdx 1).any fun line => hasMatch matching (line.1 ++ ['\n']))
      = (lineTexts '\n' block.body).any fun line => hasMatch matching (line ++ ['\n']) := by
        conv_rhs => rw [← texts, List.any_map]
        rfl
    _ = hasMatch matching block.body := by
        rw [lineTexts, List.any_map, hasMatch]
        simp only [Function.comp_def, hasMatch_line lineText_closed]

end Lines

theorem pairwise_lineCandidates (proper : wanted [] = false) (path : Text) (block : ContentBlock) :
    (lineCandidates wanted path block).Pairwise fun first second => first.key < second.key := by
  rw [lineCandidates_eq proper]
  have numbers : ((lineTexts '\n' block.body).zipIdx 1).Pairwise fun first second =>
      first.2 < second.2 := by
    have increasing : (((lineTexts '\n' block.body).zipIdx 1).map Prod.snd).Pairwise (· < ·) := by
      rw [List.zipIdx_map_snd]
      exact List.pairwise_lt_range'
    exact List.pairwise_map.mp increasing
  refine List.pairwise_map.mpr ((numbers.filter _).imp ?_)
  intro first second less
  exact Candidate.key_lt_iff.mpr (Or.inr ⟨rfl, Or.inr ⟨rfl, less⟩⟩)

/-- The wanted lines of the blocks of a file as rows. -/
theorem printsFile_lines {blocks : List ContentBlock}
    (blocksOf : BlocksOf content (blocks.map ContentBlock.toLineBlock))
    (wide : ∀ line, matching line = true → wanted line = true) (proper : wanted [] = false)
    (spreads : ∀ line body, line <:+: body → wanted line = true → wanted body = true)
    (path : Text) :
    PrintsFile matching path content ((blocks.filter fun block => wanted block.body).flatMap
      (lineCandidates wanted path)) := by
  have wideBlock (block : ContentBlock) (found : hasMatch matching block.body = true) :
      wanted block.body = true := by
    obtain ⟨whole, inBody, matched⟩ := List.any_eq_true.mp found
    exact spreads _ _ (infix_of_mem_lineTexts (List.mem_map_of_mem inBody)) (wide _ matched)
  have placed {block : ContentBlock} {row : Candidate}
      (member : row ∈ lineCandidates wanted path block) :
      row.path = path ∧ row.ordinal = block.ordinal := by
    obtain ⟨line, -, rfl⟩ := List.mem_map.mp member
    exact ⟨rfl, rfl⟩
  refine ⟨?_, ?_, ?_, ?_⟩
  · intro row member
    obtain ⟨block, -, inBlock⟩ := List.mem_flatMap.mp member
    exact (placed inBlock).1
  · refine pairwise_groups (fun block _ => pairwise_lineCandidates proper path block) ?_
    refine ((pairwise_ordinal blocksOf).filter _).imp ?_
    intro before after less first inFirst second inSecond
    obtain ⟨firstPath, firstOrdinal⟩ := placed inFirst
    obtain ⟨secondPath, secondOrdinal⟩ := placed inSecond
    rw [Candidate.key_lt_iff, firstPath, secondPath, firstOrdinal, secondOrdinal]
    exact Or.inr ⟨rfl, Or.inl less⟩
  · intro lineNumber linePrefix
    rw [List.flatMap_assoc, ← grepText_blocksOf blocksOf]
    simp only [lineCandidates_printed wide proper]
    exact flatMap_filter_of_nil fun block _ dropped =>
      grepText_eq_nil (absent_of_dropped (wideBlock block) dropped) block.firstLine
  · rw [List.any_flatMap, ← hasMatch_blocksOf blocksOf]
    simp only [lineCandidates_found wide proper]
    exact any_filter_hasMatch fun block _ => wideBlock block

end File

def printRow (matching : Text → Bool) (lineNumber : Bool) (pathPrefix : Text) (row : PathBlockRow) :
    Bytes :=
  grepText matching lineNumber (linePrefixOf pathPrefix row.path) row.firstLine row.body

section Files

variable {matching : Text → Bool} {files : List (Text × ZoneEntry)}
  {rows : Text × ZoneEntry → List Candidate} {entries : List ZoneEntry}
  {pathOf textOf : ZoneEntry → Text}

/-- The rows with a matching line come file by file. -/
theorem filter_orderCandidates
    (hits : (files.filter fun file => (rows file).any fun row => hasMatch matching row.body).Perm
      (entries.map fun entry => (pathOf entry, entry)))
    (prints : ∀ entry ∈ entries, PrintsFile matching (pathOf entry) (textOf entry)
      (rows (pathOf entry, entry)))
    (increasing : entries.Pairwise fun first second => pathOf first < pathOf second) :
    ((files.flatMap rows).insertionSort fun first second => inPathOrder first second).filter
        (fun row => hasMatch matching row.body) =
      entries.flatMap fun entry => (rows (pathOf entry, entry)).filter fun row =>
        hasMatch matching row.body := by
  apply filter_insertionSort inPathOrder_iff
  · have kept : (files.flatMap rows).filter (fun row => hasMatch matching row.body) =
        (files.filter fun file => (rows file).any fun row => hasMatch matching row.body).flatMap
          fun file => (rows file).filter fun row => hasMatch matching row.body := by
      rw [List.filter_flatMap]
      refine (flatMap_filter_of_nil ?_).symm
      intro file _ dropped
      rw [List.filter_eq_nil_iff]
      exact List.any_eq_false.mp dropped
    rw [kept]
    refine (hits.flatMap_right _).trans (List.Perm.of_eq ?_)
    rw [List.flatMap_map]
  · refine pairwise_groups (fun entry member => (prints entry member).ordered.filter _) ?_
    refine increasing.imp_of_mem ?_
    intro before after beforeMember afterMember less first inFirst second inSecond
    have firstPath := (prints before beforeMember).paths first (List.mem_of_mem_filter inFirst)
    have secondPath := (prints after afterMember).paths second (List.mem_of_mem_filter inSecond)
    rw [Candidate.key_lt_iff, firstPath, secondPath]
    exact Or.inl less

/-- The ordered rows print the matching lines of the files in the order of their paths. -/
theorem orderCandidates_printed
    (hits : (files.filter fun file => (rows file).any fun row => hasMatch matching row.body).Perm
      (entries.map fun entry => (pathOf entry, entry)))
    (prints : ∀ entry ∈ entries, PrintsFile matching (pathOf entry) (textOf entry)
      (rows (pathOf entry, entry)))
    (increasing : entries.Pairwise fun first second => pathOf first < pathOf second)
    (lineNumber : Bool) (pathPrefix : Text) :
    ((orderCandidates (files.flatMap rows)).flatMap (printRow matching lineNumber pathPrefix)) =
      (entries.flatMap fun entry => grepText matching lineNumber
        (linePrefixOf pathPrefix (pathOf entry)) 1 (textOf entry)) ∧
    ((orderCandidates (files.flatMap rows)).any fun row => hasMatch matching row.body) =
      entries.any fun entry => hasMatch matching (textOf entry) := by
  have kept := filter_orderCandidates hits prints increasing
  have silent {row : Candidate} (absent : hasMatch matching row.body = false) :
      printRow matching lineNumber pathPrefix row.toPathBlockRow = [] :=
    grepText_eq_nil absent row.firstLine
  unfold orderCandidates
  rw [List.flatMap_map, List.any_map]
  constructor
  · rw [← flatMap_filter_of_nil fun row _ => silent, kept, List.flatMap_assoc]
    apply List.flatMap_congr
    intro entry member
    have file := prints entry member
    rw [flatMap_filter_of_nil fun row _ => silent,
      ← file.printed lineNumber (linePrefixOf pathPrefix (pathOf entry))]
    apply List.flatMap_congr
    intro row inFile
    rw [printRow, file.paths row inFile]
  · have found : (((files.flatMap rows).insertionSort fun first second =>
        inPathOrder first second).any fun row => hasMatch matching row.body) =
        (entries.flatMap fun entry => (rows (pathOf entry, entry)).filter fun row =>
          hasMatch matching row.body).any fun row => hasMatch matching row.body := by
      rw [← kept]
      exact (any_filter_hasMatch fun row _ found => found).symm
    have each (entry : ZoneEntry) (member : entry ∈ entries) :
        (((rows (pathOf entry, entry)).filter fun row => hasMatch matching row.body).any fun row =>
          hasMatch matching row.body) = hasMatch matching (textOf entry) :=
      (any_filter_hasMatch fun row _ found => found).trans (prints entry member).found
    refine found.trans ?_
    rw [List.any_flatMap, Bool.eq_iff_iff, List.any_eq_true, List.any_eq_true]
    constructor
    · rintro ⟨entry, member, inFile⟩
      exact ⟨entry, member, (each entry member).symm.trans inFile⟩
    · rintro ⟨entry, member, inFile⟩
      exact ⟨entry, member, (each entry member).trans inFile⟩

end Files
end PostgreOS
