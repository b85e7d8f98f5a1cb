/-
The search of a file, block by block.

`BlockMatcher` searches one block at a time and adds the number of the block's first line
to the numbers that the searcher reports. The outputs of the blocks of a text, one after the
other, are the output of the whole text, so `grep_file` prints the matching lines of the
file with their numbers. The searcher itself is third-party code and a parameter.
-/

import PostgreOS.CandidateLines
import PostgreOS.FileReads
import PostgreOS.Library.LikePattern

namespace PostgreOS

open Library.LineBlocks Library.Lines Library.LikePattern Library.Outcome

/-- `SinkMatch`: a matching line with its terminator, and its number if lines are counted. -/
structure SinkMatch where
  line : Text
  lineNumber : Option Nat
  deriving DecidableEq, Repr

/-- `Searcher::search_slice` for a compiled pattern: what it reports to its sink. -/
abbrev Searcher : Type := Text → List SinkMatch

/-- Every line whose text matches is reported in its order. -/
def ReportsLines (matching : Text → Bool) (lineNumber : Bool) (searcher : Searcher) : Prop :=
  ∀ slice, searcher slice =
    (((linesOf '\n' slice).zipIdx 1).filter fun entry => matching (lineText '\n' entry.1)).map
      fun entry => { line := entry.1, lineNumber := if lineNumber then some entry.2 else none }

/-- How a pattern is compiled, for searches with line numbers and without. -/
abbrev GrepEngine : Type := Text → Result (Bool → Searcher)

/-- The engine decides line by line which lines of a slice match the pattern. -/
def SearchesLines (matching : Text → Text → Bool) (engine : GrepEngine) : Prop :=
  ∀ pattern search, engine pattern = .ok search →
    ∀ lineNumber, ReportsLines (matching pattern) lineNumber (search lineNumber)

structure BlockMatcher where
  searcher : Searcher
  lineNumber : Bool

/-- `BlockMatcher::new`. -/
def BlockMatcher.new (engine : GrepEngine) (pattern : Text) (lineNumber : Bool) :
    Result BlockMatcher := do
  let search ← engine pattern
  .ok { searcher := search lineNumber, lineNumber := lineNumber }

structure BlockOutput where
  output : Bytes
  firstLine : Int
  lineNumber : Bool
  found : Bool
  linePrefix : Bytes
  deriving DecidableEq, Repr

/-- `u64::try_from` of an `i64`. -/
def u64TryFrom (value : Int) : Option Nat :=
  if 0 ≤ value then some value.toNat else none

/-- `number.to_string()`. -/
def decimal (number : Nat) : Bytes :=
  convertTo (Nat.toDigits 10 number)

def colonByte : UInt8 := 58

/-- `Sink::matched`. -/
def BlockOutput.matched (sink : BlockOutput) (hit : SinkMatch) : BlockOutput :=
  let output := sink.output ++ sink.linePrefix
  let number := (u64TryFrom sink.firstLine).getD 1 + hit.lineNumber.getD 1 - 1
  let output := if sink.lineNumber then output ++ decimal number ++ [colonByte] else output
  let output := output ++ convertTo hit.line
  let output :=
    if (convertTo hit.line).getLast? = some newlineByte then output else output ++ [newlineByte]
  { sink with found := true, output := output }

/-- `BlockMatcher::search_prefixed`. -/
def BlockMatcher.searchPrefixed (matcher : BlockMatcher) (firstLine : Int) (text : Text)
    (linePrefix : Bytes) : Bytes × Bool :=
  let sink : BlockOutput :=
    { output := [], firstLine := firstLine, lineNumber := matcher.lineNumber, found := false,
      linePrefix := linePrefix }
  let sink := (matcher.searcher text).foldl BlockOutput.matched sink
  (sink.output, sink.found)

/-- `BlockMatcher::search`. -/
def BlockMatcher.search (matcher : BlockMatcher) (firstLine : Int) (text : Text) : Bytes × Bool :=
  matcher.searchPrefixed firstLine text []

/-! ### The printed lines -/

/-- A line as it is printed, with its number if lines are counted. -/
def printLine (lineNumber : Bool) (linePrefix : Bytes) (number : Nat) (line : Text) : Bytes :=
  linePrefix ++ (if lineNumber then decimal number ++ [colonByte] else []) ++
    convertTo (line ++ ['\n'])

/-- The matching lines among numbered lines, printed in their order. -/
def printLines (matching : Text → Bool) (lineNumber : Bool) (linePrefix : Bytes)
    (entries : List (Text × Nat)) : Bytes :=
  (entries.filter fun entry => matching (lineText '\n' entry.1)).flatMap fun entry =>
    printLine lineNumber linePrefix entry.2 (lineText '\n' entry.1)

/-- The matching lines of a text whose first line has a number. -/
def grepText (matching : Text → Bool) (lineNumber : Bool) (linePrefix : Bytes) (firstLine : Nat)
    (text : Text) : Bytes :=
  printLines matching lineNumber linePrefix ((linesOf '\n' text).zipIdx firstLine)

def hasMatch (matching : Text → Bool) (text : Text) : Bool :=
  (linesOf '\n' text).any fun line => matching (lineText '\n' line)

section Search

variable {matching : Text → Bool} {lineNumber : Bool} {linePrefix : Bytes}

theorem getLast_convertTo_iff {line : Text} :
    (convertTo line).getLast? = some newlineByte ↔ EndsLine '\n' line := by
  constructor
  · intro last
    obtain ⟨before, ends⟩ := List.getLast?_eq_some_iff.mp last
    exact endsLine_of_bytes ends
  · rintro ⟨front, rfl⟩
    rw [convertTo_append, convertTo_newline]
    exact List.getLast?_concat

theorem convertTo_terminated {line body : Text} (member : line ∈ linesOf '\n' body)
    (output : Bytes) :
    (if (convertTo line).getLast? = some newlineByte then output ++ convertTo line
      else output ++ convertTo line ++ [newlineByte]) =
      output ++ convertTo (lineText '\n' line ++ ['\n']) := by
  rcases line_of_mem_linesOf member with closed | bare
  · rw [if_pos (getLast_convertTo_iff.mpr ⟨_, closed⟩), ← closed]
  · rw [if_neg (getLast_convertTo_iff.not.mpr (not_endsLine_of_bare bare)), ← bare,
      convertTo_append, convertTo_newline, List.append_assoc]

theorem matched_eq (sink : BlockOutput) {line body : Text} (member : line ∈ linesOf '\n' body)
    (first number : Nat) (firstLine : sink.firstLine = first) :
    sink.matched { line := line,
                   lineNumber := if sink.lineNumber then some (number + 1) else none } =
      { sink with
        found := true,
        output := sink.output ++
          printLine sink.lineNumber sink.linePrefix (first + number) (lineText '\n' line) } := by
  unfold BlockOutput.matched printLine
  have start : u64TryFrom sink.firstLine = some first := by
    rw [firstLine, u64TryFrom, if_pos (Int.natCast_nonneg first), Int.toNat_natCast]
  dsimp only
  rw [convertTo_terminated member, start]
  cases sink.lineNumber with
  | false => simp
  | true => simp

/-- The sink prints the reported lines, numbered from the first line of the slice. -/
theorem foldl_matched {body : Text} (entries : List (Text × Nat))
    (lines : ∀ entry ∈ entries, entry.1 ∈ linesOf '\n' body) (sink : BlockOutput) (first : Nat)
    (firstLine : sink.firstLine = first) :
    ((entries.filter fun entry => matching (lineText '\n' entry.1)).map fun entry =>
        ({ line := entry.1,
           lineNumber := if sink.lineNumber then some (entry.2 + 1) else none } : SinkMatch)).foldl
      BlockOutput.matched sink =
      { sink with
        found := sink.found || entries.any fun entry => matching (lineText '\n' entry.1),
        output := sink.output ++ printLines matching sink.lineNumber sink.linePrefix
          (entries.map fun entry => (entry.1, first + entry.2)) } := by
  induction entries generalizing sink with
  | nil => simp [printLines]
  | cons entry rest ih =>
      obtain ⟨here, later⟩ := List.forall_mem_cons.mp lines
      rw [List.map_cons, printLines]
      by_cases matched : matching (lineText '\n' entry.1) = true
      · rw [List.filter_cons, List.filter_cons, if_pos matched, if_pos matched, List.map_cons,
          List.foldl_cons, matched_eq sink here first entry.2 firstLine, List.flatMap_cons,
          List.any_cons, matched, Bool.true_or, Bool.or_true, ← List.append_assoc]
        refine (ih later { sink with
          found := true,
          output := sink.output ++ printLine sink.lineNumber sink.linePrefix (first + entry.2)
            (lineText '\n' entry.1) } firstLine).trans ?_
        rw [Bool.true_or]
        rfl
      · rw [List.filter_cons, List.filter_cons, if_neg matched, if_neg matched, List.any_cons,
          Bool.eq_false_iff.mpr matched, Bool.false_or]
        exact ih later sink firstLine

theorem searchPrefixed_eq {matcher : BlockMatcher}
    (reports : ReportsLines matching matcher.lineNumber matcher.searcher) (first : Nat)
    (text : Text) (linePrefix : Bytes) :
    matcher.searchPrefixed first text linePrefix =
      (grepText matching matcher.lineNumber linePrefix first text, hasMatch matching text) := by
  have lines : ∀ entry ∈ (linesOf '\n' text).zipIdx 0, entry.1 ∈ linesOf '\n' text :=
    fun entry member => List.fst_mem_of_mem_zipIdx member
  have reported : matcher.searcher text =
      (((linesOf '\n' text).zipIdx 0).filter fun entry => matching (lineText '\n' entry.1)).map
        fun entry => { line := entry.1,
                       lineNumber := if matcher.lineNumber then some (entry.2 + 1) else none } := by
    rw [reports text, List.zipIdx_succ, List.filter_map, List.map_map]
    rfl
  have numbered : ((linesOf '\n' text).zipIdx 0).map (fun entry => (entry.1, first + entry.2)) =
      (linesOf '\n' text).zipIdx first :=
    List.zipIdx_eq_map_add.symm
  have any : (((linesOf '\n' text).zipIdx 0).any fun entry => matching (lineText '\n' entry.1)) =
      hasMatch matching text := by
    have texts := List.zipIdx_map_fst 0 (linesOf '\n' text)
    rw [hasMatch, ← texts, List.any_map, texts]
    rfl
  unfold BlockMatcher.searchPrefixed
  dsimp only
  rw [reported, foldl_matched _ lines _ first rfl]
  dsimp only
  rw [numbered, any, List.nil_append, Bool.false_or, grepText]

theorem searchPrefixed_search {matching : Text → Text → Bool} {engine : GrepEngine}
    (lines : SearchesLines matching engine) {pattern : Text} {search : Bool → Searcher}
    (built : engine pattern = .ok search) (lineNumber : Bool) (first : Nat) (text : Text)
    (linePrefix : Bytes) :
    BlockMatcher.searchPrefixed { searcher := search lineNumber, lineNumber := lineNumber } first
        text linePrefix =
      (grepText (matching pattern) lineNumber linePrefix first text,
        hasMatch (matching pattern) text) :=
  searchPrefixed_eq (lines pattern search built lineNumber) first text linePrefix

/-! ### Blocks -/

/-- Blocks of a text from a line on: they carry the numbers of their first lines, and only the
last one may end inside a line. -/
def LinesFrom : Nat → List TextRow → Prop
  | _, [] => True
  | firstLine, row :: rest =>
      row.firstLine = firstLine ∧ (rest ≠ [] → EndsLine '\n' row.body) ∧
        LinesFrom (firstLine + row.body.count '\n') rest

theorem grepText_append {front : Text} (ends : EndsLine '\n' front) (rest : Text)
    (firstLine : Nat) :
    grepText matching lineNumber linePrefix firstLine (front ++ rest) =
      grepText matching lineNumber linePrefix firstLine front ++
        grepText matching lineNumber linePrefix (firstLine + front.count '\n') rest := by
  unfold grepText
  rw [zipIdx_linesOf_append ends, printLines, List.filter_append, List.flatMap_append]
  rfl

theorem hasMatch_append {front : Text} (ends : EndsLine '\n' front) (rest : Text) :
    hasMatch matching (front ++ rest) = (hasMatch matching front || hasMatch matching rest) := by
  unfold hasMatch
  rw [linesOf_append ends, List.any_append]

theorem grepText_blocks {blocks : List TextRow} {firstLine : Nat}
    (aligned : LinesFrom firstLine blocks) :
    (blocks.flatMap fun block =>
        grepText matching lineNumber linePrefix block.firstLine block.body) =
      grepText matching lineNumber linePrefix firstLine (blocks.flatMap TextRow.body) ∧
    (blocks.any fun block => hasMatch matching block.body) =
      hasMatch matching (blocks.flatMap TextRow.body) := by
  induction blocks generalizing firstLine with
  | nil => exact ⟨rfl, rfl⟩
  | cons block rest ih =>
      obtain ⟨rfl, ends, later⟩ := aligned
      obtain ⟨printed, found⟩ := ih later
      rw [List.flatMap_cons, List.flatMap_cons, List.any_cons, printed, found]
      by_cases last : rest = []
      · subst last
        rw [List.flatMap_nil, List.append_nil]
        exact ⟨List.append_nil _, Bool.or_false _⟩
      · exact ⟨(grepText_append (ends last) _ _).symm, (hasMatch_append (ends last) _).symm⟩

end Search

/-- `body LIKE ANY(needles)`. -/
def likeAny (needles : List Text) (body : Text) : Bool :=
  needles.any fun needle => like needle body

/-- `needles IS NULL OR body LIKE ANY(needles)`. -/
def wantedBy (needles : Option (List Text)) (body : Text) : Bool :=
  needles.all fun patterns => likeAny patterns body

/-- `pgos.search_file_blocks`. -/
def Database.searchFileBlocks (db : Database) (volume : Uuid) (target : Text)
    (needles : Option (List Text)) : Result (List TextRow) := do
  let file ← db.fileContent volume target
  match file.1 with
  | some object =>
      .ok (((db.objectBlocks object).filter fun block => wantedBy needles block.body).map fun block =>
        { firstLine := block.firstLine, body := block.body })
  | none => .ok (if wantedBy needles file.2 then [{ firstLine := 1, body := file.2 }] else [])

def textRow (block : ContentBlock) : TextRow :=
  { firstLine := block.firstLine, body := block.body }

theorem linesFrom_of_chain {size : Text → Nat} {ordinal offset firstLine : Nat}
    {blocks : List ContentBlock}
    (chain : ChainFrom '\n' size ordinal offset firstLine (blocks.map ContentBlock.toLineBlock)) :
    LinesFrom firstLine (blocks.map textRow) := by
  induction blocks generalizing ordinal offset firstLine with
  | nil => trivial
  | cons block rest ih =>
      obtain ⟨-, -, first, ends, later⟩ := chain
      refine ⟨first, ?_, ih later⟩
      intro more
      apply ends
      intro last
      exact more (List.map_eq_nil_iff.mpr (List.map_eq_nil_iff.mp last))

theorem Orderly.searchFileBlocks_all {db : Database} (orderly : Orderly db) {volume : Uuid}
    {path content : Text} (at_ : db.TextAt volume path content) :
    ∃ rows, db.searchFileBlocks volume path none = .ok rows ∧ LinesFrom 1 rows ∧
      rows.flatMap TextRow.body = content := by
  obtain ⟨⟨reference, inlineText⟩, read, stored⟩ := orderly.fileContent_cases at_
  unfold Database.searchFileBlocks
  rw [read, ok_bind]
  dsimp only
  rcases stored with ⟨rfl, rfl⟩ | ⟨object, rfl, blocksOf, -⟩
  · refine ⟨_, rfl, ⟨rfl, fun more => absurd rfl more, trivial⟩, ?_⟩
    exact List.append_nil _
  · refine ⟨(db.objectBlocks object).map textRow, ?_, linesFrom_of_chain blocksOf.1, ?_⟩
    · simp only [wantedBy, Option.all_none, List.filter_true]
      rfl
    · rw [List.flatMap_map]
      have whole := blocksOf.2.1
      rw [text, List.flatMap_map] at whole
      exact whole

/-- `slice::chunks`. -/
def chunks (size : Nat) (data : Bytes) : List Bytes :=
  if data = [] ∨ size = 0 then []
  else data.take size :: chunks size (data.drop size)
  termination_by data.length
  decreasing_by
    have some : 0 < data.length := List.length_pos_of_ne_nil (by tauto)
    rw [List.length_drop]
    omega

theorem flatten_chunks {size : Nat} (positive : 0 < size) (data : Bytes) :
    (chunks size data).flatten = data := by
  induction data using chunks.induct size with
  | case1 data ended =>
      rw [chunks, if_pos ended]
      rcases ended with rfl | zero
      · rfl
      · omega
  | case2 data more ih =>
      rw [chunks, if_neg more, List.flatten_cons, ih, List.take_append_drop]

theorem flatten_frames {size : Nat} (positive : 0 < size) {α : Type} (items : List α)
    (output : α → Bytes) :
    (items.flatMap fun item => chunks size (output item)).flatten = items.flatMap output := by
  induction items with
  | nil => rfl
  | cons item rest ih =>
      rw [List.flatMap_cons, List.flatten_append, flatten_chunks positive, ih, List.flatMap_cons]

/-- `Database::grep_file`: the frames of the output, and if a line matched. -/
def Database.grepFile (db : Database) (engine : GrepEngine) (volume : Uuid) (target pattern : Text)
    (lineNumber : Bool) : Result (List Bytes × Bool) := do
  let matcher ← BlockMatcher.new engine pattern lineNumber
  let target ← normalize target
  let blocks ← db.searchFileBlocks volume target none
  let results := blocks.map fun block => matcher.search block.firstLine block.body
  .ok (results.flatMap fun result => chunks (64 * 1024) result.1, results.any Prod.snd)

/-- Searching the blocks of a text in their order is searching the text, so `grep_file` prints
each matching line of a file with its number. -/
theorem blockSearch_exact {matching : Text → Text → Bool} {engine : GrepEngine}
    (lines : SearchesLines matching engine) {pattern : Text} {lineNumber : Bool}
    {matcher : BlockMatcher} (compiled : BlockMatcher.new engine pattern lineNumber = .ok matcher) :
    (∀ (linePrefix : Bytes) (blocks : List TextRow), LinesFrom 1 blocks →
      (blocks.flatMap fun block =>
          (matcher.searchPrefixed block.firstLine block.body linePrefix).1) =
        (matcher.searchPrefixed 1 (blocks.flatMap TextRow.body) linePrefix).1 ∧
      (blocks.any fun block =>
          (matcher.searchPrefixed block.firstLine block.body linePrefix).2) =
        (matcher.searchPrefixed 1 (blocks.flatMap TextRow.body) linePrefix).2) ∧
    ∀ db, Orderly db → ∀ volume target path content, normalize target = .ok path →
      db.TextAt volume path content →
        ∃ frames, db.grepFile engine volume target pattern lineNumber =
            .ok (frames, hasMatch (matching pattern) content) ∧
          frames.flatten = grepText (matching pattern) lineNumber [] 1 content := by
  obtain ⟨search, built, same⟩ := bind_eq_ok.mp compiled
  cases same
  have searched := searchPrefixed_search lines built lineNumber
  constructor
  · intro linePrefix blocks aligned
    obtain ⟨printed, found⟩ :=
      @grepText_blocks (matching pattern) lineNumber linePrefix blocks 1 aligned
    have whole := searched 1 (blocks.flatMap TextRow.body) linePrefix
    rw [Int.natCast_one] at whole
    simp only [searched, whole]
    exact ⟨printed, found⟩
  · intro db orderly volume target path content normalized at_
    obtain ⟨rows, read, aligned, rfl⟩ := orderly.searchFileBlocks_all at_
    obtain ⟨printed, found⟩ := @grepText_blocks (matching pattern) lineNumber [] rows 1 aligned
    unfold Database.grepFile
    rw [compiled, ok_bind, normalized, ok_bind, read, ok_bind, ← found, ← printed]
    simp only [BlockMatcher.search, searched, List.flatMap_map, List.any_map]
    exact ⟨_, rfl, flatten_frames (by decide) rows _⟩

def literalEngine : GrepEngine := fun pattern => .ok fun lineNumber slice =>
  (((linesOf '\n' slice).zipIdx 1).filter fun entry => decide (pattern <:+: lineText '\n' entry.1)).map
    fun entry => { line := entry.1, lineNumber := if lineNumber then some entry.2 else none }

theorem searchesLines_literalEngine :
    SearchesLines (fun pattern line => decide (pattern <:+: line)) literalEngine := by
  intro pattern search built lineNumber slice
  rw [← Except.ok.inj built]

def cutRows : List TextRow :=
  [{ firstLine := 1, body := "one\nhé\n".toList }, { firstLine := 3, body := "two\nh".toList }]

/-- The lines of a cut text, and the first line of a file in blocks. -/
theorem blockSearch_exact_accent :
    (∀ matcher, BlockMatcher.new literalEngine ['h'] true = .ok matcher →
      (cutRows.flatMap fun block => (matcher.searchPrefixed block.firstLine block.body []).1) =
        convertTo "2:hé\n4:h\n".toList) ∧
    ∃ frames, (Database.empty.calls accentCalls).grepFile literalEngine 7 ['/', 'a'] ['h'] true =
      .ok (frames, true) ∧ frames.flatten = [49, 58, 104, 195, 169, 10] := by
  have text : (Database.empty.calls accentCalls).TextAt 7 ['/', 'a'] ['h', 'é', '\n'] :=
    textAt_iff.mpr ⟨rfl, by decide +kernel⟩
  constructor
  · rintro matcher compiled
    have aligned : LinesFrom 1 cutRows :=
      ⟨rfl, fun _ => ⟨"one\nhé".toList, by decide⟩, by decide, fun more => absurd rfl more, trivial⟩
    rw [((blockSearch_exact searchesLines_literalEngine compiled).1 [] cutRows aligned).1]
    cases Except.ok.inj compiled
    decide +kernel
  · obtain ⟨frames, printed, output⟩ :=
      (@blockSearch_exact _ literalEngine searchesLines_literalEngine ['h'] true _ rfl).2 _
        (orderly_of_reachable (reachable_calls accentCalls).byCalls) 7 ['/', 'a'] ['/', 'a'] _
        (by decide +kernel) text
    have found : hasMatch (fun line => decide (['h'] <:+: line)) ['h', 'é', '\n'] = true := by
      decide +kernel
    rw [found] at printed
    exact ⟨frames, printed, output.trans (by decide +kernel)⟩

end PostgreOS
