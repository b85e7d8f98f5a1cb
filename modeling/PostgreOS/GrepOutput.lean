/-
The two ways of printing matching lines.

`literal_output` splits a text into lines and looks for the needle in each;
`regex_output` prints the lines that the searcher reports for a regular expression. For an
escaped needle they print the same.
-/

import PostgreOS.BlockSearch

namespace PostgreOS

open Library.LineBlocks Library.Lines Library.Outcome

/-- `path_prefix`, the path and a colon. -/
def linePrefixOf (pathPrefix path : Text) : Bytes :=
  convertTo pathPrefix ++ convertTo path ++ [colonByte]

/-- `strip_suffix` of a newline, or the line itself. -/
def stripNewline (line : Bytes) : Bytes :=
  if line.getLast? = some newlineByte then line.dropLast else line

/-- A numbered line of `literal_output`. -/
def literalLine (needle linePrefix : Bytes) (lineNumber : Bool) (state : Bytes × Bool)
    (entry : Bytes × Nat) : Bytes × Bool :=
  let line := stripNewline entry.1
  if needle <:+: line then
    let output := state.1 ++ linePrefix
    let output :=
      if lineNumber then output ++ decimal (entry.2 + 1) ++ [colonByte] else output
    (output ++ line ++ [newlineByte], true)
  else state

/-- `literal_output`. -/
def literalOutput (files : List (Text × Text)) (pattern : Text) (lineNumber : Bool)
    (pathPrefix : Text) : Bytes × Bool :=
  files.foldl
    (fun state file => (linesOf newlineByte (convertTo file.2)).zipIdx.foldl
      (literalLine (convertTo pattern) (linePrefixOf pathPrefix file.1) lineNumber) state)
    ([], false)

/-- The sink `UTF8` and its closure. -/
def matchedLine (linePrefix : Bytes) (lineNumber : Bool) (state : Bytes × Bool) (hit : SinkMatch) :
    Result (Bytes × Bool) :=
  match hit.lineNumber with
  | none => raise "" "line numbers not enabled" []
  | some number =>
      let output := state.1 ++ linePrefix
      let output := if lineNumber then output ++ decimal number ++ [colonByte] else output
      let output := output ++ convertTo hit.line
      let output := if hit.line.getLast? = some '\n' then output else output ++ [newlineByte]
      .ok (output, true)

/-- `regex_output`; its searcher counts lines. -/
def regexOutput (engine : GrepEngine) (files : List (Text × Text)) (pattern : Text)
    (lineNumber : Bool) (pathPrefix : Text) : Result (Bytes × Bool) := do
  let search ← engine pattern
  files.foldlM
    (fun state file =>
      (search true file.2).foldlM (matchedLine (linePrefixOf pathPrefix file.1) lineNumber) state)
    ([], false)

theorem linesOf_convertTo (text : Text) :
    linesOf newlineByte (convertTo text) = (linesOf '\n' text).map convertTo := by
  induction text with
  | nil => rfl
  | cons symbol rest ih =>
      by_cases same : symbol = '\n'
      · rw [same, ← List.singleton_append, convertTo_append, convertTo_newline, List.singleton_append,
          List.singleton_append, linesOf_newline, linesOf_newline, List.map_cons, ih, convertTo_newline]
      · have some : String.utf8EncodeChar symbol ≠ [] := String.utf8EncodeChar_ne_nil
        rw [convertTo_cons, linesOf_append_free (newlineByte_notMem_utf8EncodeChar same) some, ih]
        cases lines : linesOf '\n' rest with
        | nil =>
            rw [linesOf, if_neg same, lines]
            simp [convertTo_cons]
        | cons line later =>
            rw [linesOf_cons same lines, List.map_cons, List.map_cons, convertTo_cons]

theorem stripNewline_convertTo {line body : Text} (member : line ∈ linesOf '\n' body) :
    stripNewline (convertTo line) = convertTo (lineText '\n' line) := by
  unfold stripNewline
  rcases line_of_mem_linesOf member with closed | bare
  · rw [if_pos (getLast_convertTo_iff.mpr ⟨_, closed⟩)]
    generalize lineText '\n' line = text at closed ⊢
    rw [closed, convertTo_append, convertTo_newline, List.dropLast_concat]
  · rw [if_neg (getLast_convertTo_iff.not.mpr (not_endsLine_of_bare bare)), ← bare]

theorem terminated_line {line body : Text} (member : line ∈ linesOf '\n' body) (output : Bytes) :
    (if line.getLast? = some '\n' then output ++ convertTo line
      else output ++ convertTo line ++ [newlineByte]) =
      output ++ convertTo (lineText '\n' line ++ ['\n']) := by
  have same : line.getLast? = some '\n' ↔ (convertTo line).getLast? = some newlineByte :=
    List.getLast?_eq_some_iff.trans getLast_convertTo_iff.symm
  simp only [same]
  exact convertTo_terminated member output

section Printed

variable {lineNumber : Bool} {linePrefix : Bytes} {matching : Text → Bool}

def printed (lineNumber : Bool) (linePrefix : Bytes) (state : Bytes × Bool) (entry : Text × Nat) :
    Bytes × Bool :=
  (state.1 ++ printLine lineNumber linePrefix entry.2 (lineText '\n' entry.1), true)

theorem matchedLine_eq (state : Bytes × Bool) {line body : Text} (member : line ∈ linesOf '\n' body)
    (number : Nat) :
    matchedLine linePrefix lineNumber state { line := line, lineNumber := some number } =
      .ok (printed lineNumber linePrefix state (line, number)) := by
  unfold matchedLine printed printLine
  dsimp only
  rw [terminated_line member]
  cases lineNumber with
  | false => simp
  | true => simp

theorem literalLine_eq (needle : Bytes) (state : Bytes × Bool) {line body : Text}
    (member : line ∈ linesOf '\n' body) (index : Nat) :
    literalLine needle linePrefix lineNumber state (convertTo line, index) =
      if needle <:+: convertTo (lineText '\n' line) then
        printed lineNumber linePrefix state (line, index + 1)
      else state := by
  unfold literalLine printed printLine
  dsimp only
  rw [stripNewline_convertTo member]
  split
  · cases lineNumber with
    | false => simp
    | true => simp
  · rfl

theorem foldlM_matchedLine {body : Text} {entries : List (Text × Nat)}
    (lines : ∀ entry ∈ entries, entry.1 ∈ linesOf '\n' body) (state : Bytes × Bool) :
    (entries.map fun entry => ({ line := entry.1, lineNumber := some entry.2 } : SinkMatch)).foldlM
        (matchedLine linePrefix lineNumber) state =
      .ok (entries.foldl (printed lineNumber linePrefix) state) := by
  induction entries generalizing state with
  | nil => rfl
  | cons entry rest ih =>
      obtain ⟨here, later⟩ := List.forall_mem_cons.mp lines
      rw [List.map_cons, List.foldlM_cons, matchedLine_eq state here, ok_bind, ih later]
      rfl

theorem foldl_literalLine (needle : Bytes) {body : Text} {entries : List (Text × Nat)}
    (lines : ∀ entry ∈ entries, entry.1 ∈ linesOf '\n' body) (state : Bytes × Bool) :
    (entries.map fun entry => (convertTo entry.1, entry.2)).foldl
        (literalLine needle linePrefix lineNumber) state =
      ((entries.map fun entry => (entry.1, entry.2 + 1)).filter fun entry =>
        decide (needle <:+: convertTo (lineText '\n' entry.1))).foldl
          (printed lineNumber linePrefix) state := by
  induction entries generalizing state with
  | nil => rfl
  | cons entry rest ih =>
      obtain ⟨here, later⟩ := List.forall_mem_cons.mp lines
      rw [List.map_cons, List.map_cons, List.foldl_cons, literalLine_eq needle state here, ih later]
      by_cases found : needle <:+: convertTo (lineText '\n' entry.1)
      · rw [if_pos found, List.filter_cons, if_pos (decide_eq_true found)]
        rfl
      · rw [if_neg found, List.filter_cons, if_neg (by simpa using found)]

theorem literal_file (needle : Bytes) (text : Text) (state : Bytes × Bool) :
    (linesOf newlineByte (convertTo text)).zipIdx.foldl
        (literalLine needle linePrefix lineNumber) state =
      (((linesOf '\n' text).zipIdx 1).filter fun entry =>
        decide (needle <:+: convertTo (lineText '\n' entry.1))).foldl
          (printed lineNumber linePrefix) state := by
  have lines : ∀ entry ∈ (linesOf '\n' text).zipIdx, entry.1 ∈ linesOf '\n' text :=
    fun entry member => List.fst_mem_of_mem_zipIdx member
  rw [linesOf_convertTo, List.zipIdx_map, List.zipIdx_succ]
  exact foldl_literalLine needle lines state

theorem regex_file {searcher : Searcher} (reports : ReportsLines matching true searcher)
    (text : Text) (state : Bytes × Bool) :
    (searcher text).foldlM (matchedLine linePrefix lineNumber) state =
      .ok ((((linesOf '\n' text).zipIdx 1).filter fun entry =>
        matching (lineText '\n' entry.1)).foldl (printed lineNumber linePrefix) state) := by
  rw [reports text]
  apply foldlM_matchedLine
  intro entry member
  exact List.fst_mem_of_mem_zipIdx (List.mem_of_mem_filter member)

end Printed

/-! ### Escaped needles -/

/-- An escaped needle compiles, and matches the lines in which the needle occurs. -/
structure Escapes (matching : Text → Text → Bool) (engine : GrepEngine) (escape : Text → Text) :
    Prop where
  compiles : ∀ needle, '\n' ∉ needle → ∃ search, engine (escape needle) = .ok search
  matches_iff : ∀ needle line, '\n' ∉ needle → '\n' ∉ line →
    (matching (escape needle) line = true ↔ convertTo needle <:+: convertTo line)

/-- Searching for a needle by hand or as an escaped regular expression prints the same lines
and finds as much. -/
theorem regexOutput_escape {matching : Text → Text → Bool} {engine : GrepEngine}
    {escape : Text → Text} (searches : SearchesLines matching engine)
    (escapes : Escapes matching engine escape) (files : List (Text × Text)) {pattern : Text}
    (free : '\n' ∉ pattern) (lineNumber : Bool) (pathPrefix : Text) :
    regexOutput engine files (escape pattern) lineNumber pathPrefix =
      .ok (literalOutput files pattern lineNumber pathPrefix) := by
  obtain ⟨search, compiled⟩ := escapes.compiles pattern free
  have reports := searches (escape pattern) search compiled true
  unfold regexOutput literalOutput
  rw [compiled, ok_bind]
  have sameLines (text : Text) :
      ((linesOf '\n' text).zipIdx 1).filter (fun entry =>
          matching (escape pattern) (lineText '\n' entry.1)) =
        ((linesOf '\n' text).zipIdx 1).filter fun entry =>
          decide (convertTo pattern <:+: convertTo (lineText '\n' entry.1)) := by
    apply List.filter_congr
    intro entry _
    rw [Bool.eq_iff_iff, decide_eq_true_iff]
    exact escapes.matches_iff pattern _ free lineText_closed
  generalize ([], false) = state
  induction files generalizing state with
  | nil => rfl
  | cons file rest ih =>
      rw [List.foldlM_cons, List.foldl_cons, regex_file reports, sameLines, ok_bind, literal_file]
      exact ih _

/-- An engine for needles without special characters, on the bytes of the lines. -/
def needleEngine : GrepEngine := fun pattern => .ok fun lineNumber slice =>
  (((linesOf '\n' slice).zipIdx 1).filter fun entry =>
    decide (convertTo pattern <:+: convertTo (lineText '\n' entry.1))).map
      fun entry => { line := entry.1, lineNumber := if lineNumber then some entry.2 else none }

/-- A carriage return, an empty line and a line without a terminator. -/
theorem regexOutput_escape_of_returns :
    regexOutput needleEngine [(['/', 'a'], ['m', '\r', '\n', '\n', 'x', 'm'])] ['m'] true [] =
      .ok (convertTo "/a:1:m\r\n/a:3:xm\n".toList, true) := by
  have searches : SearchesLines
      (fun pattern line => decide (convertTo pattern <:+: convertTo line)) needleEngine := by
    intro pattern search built lineNumber slice
    rw [← Except.ok.inj built]
  have escapes : Escapes (fun pattern line => decide (convertTo pattern <:+: convertTo line))
      needleEngine id :=
    ⟨fun _ _ => ⟨_, rfl⟩, fun _ _ _ _ => decide_eq_true_iff⟩
  have free : '\n' ∉ ['m'] := by decide
  refine (regexOutput_escape searches escapes [(['/', 'a'], ['m', '\r', '\n', '\n', 'x', 'm'])] free
    true []).trans ?_
  decide +kernel

end PostgreOS
