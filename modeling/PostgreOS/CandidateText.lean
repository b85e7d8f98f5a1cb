/-
The candidate lines for required literals.

`candidate_text` asks the database for the lines of a file that contain one of the literals,
with one of three queries, and filters the rows again. What it sends are these lines, except
that the query for one short literal does not look at files that are stored inline.
-/

import PostgreOS.BlockSearch

namespace PostgreOS

open Library.LineBlocks Library.Lines Library.LikePattern Library.Outcome

/-- The wanted lines of a block in one row, each followed by a line feed. -/
def lineHits (wanted : Text → Bool) (block : TextRow) : Option TextRow :=
  let lines := (stringToTable block.body).filter wanted
  if lines = [] then none
  else some { block with body := lines.flatMap fun line => line ++ ['\n'] }

def lineRows (wanted : Text → Bool) (block : TextRow) : List TextRow :=
  (((stringToTable block.body).zipIdx 1).filter fun entry => wanted entry.1).map fun entry =>
    { firstLine := block.firstLine + entry.2 - 1, body := entry.1 ++ ['\n'] }

/-- The query of `candidate_word_text` for one short literal. The object of a file that is
stored inline is NULL, which equals no object. -/
def Database.candidateShortText (db : Database) (volume : Uuid) (target needle : Text) :
    Result (List TextRow) := do
  let file ← db.fileContent volume target
  match file.1 with
  | some _ =>
      .ok (((db.fileBlocks volume file).filter fun block => like needle block.body).filterMap
        (lineHits (like needle)))
  | none => .ok []

/-- `pgos.candidate_file_literal_text`. -/
def Database.candidateFileLiteralText (db : Database) (volume : Uuid) (target needle : Text) :
    Result (List TextRow) := do
  let file ← db.fileContent volume target
  .ok (((db.fileBlocks volume file).filter fun block => like needle block.body).filterMap
    (lineHits (like needle)))

/-- `pgos.candidate_indexed_lines`; it does not use its expression and its word. -/
def Database.candidateIndexedLines (db : Database) (volume : Uuid) (target : Text)
    (needles : Option (List Text)) (minimumAsciiLetters : Option Nat) : Result (List TextRow) := do
  let file ← db.fileContent volume target
  let blocks := db.fileBlocks volume file
  match needles, minimumAsciiLetters with
  | some [needle], _ =>
      .ok ((blocks.filter fun block => like needle block.body).flatMap (lineRows (like needle)))
  | none, some minimum =>
      if blocks ≠ [] ∧ 255 < minimum then
        raise "2201B" "invalid regular expression: invalid repetition count(s)" []
      else
        .ok ((blocks.filter fun block => matchesLetters minimum block.body).flatMap
          (lineRows (matchesLetters minimum)))
  | _, _ => .ok (blocks.filter fun block => wantedBy needles block.body)

/-- `format!("%{}%", ...)` with the special characters of `LIKE` escaped. -/
def literalPattern (value : Text) : Text :=
  '%' :: (replaceChar '_' ['\\', '_'] (replaceChar '%' ['\\', '%']
    (replaceChar '\\' ['\\', '\\'] value)) ++ ['%'])

/-- `literal_patterns`. -/
def literalPatterns (literals : Option (List Text)) : Option (List Text) :=
  literals.map fun values => values.map literalPattern

/-- Texts as parameters of a query; PostgreSQL has no NUL in a text. -/
def bindTexts (values : List Text) : Result Unit :=
  if ∃ value ∈ values, '\x00' ∈ value then
    raise "22021" "invalid byte sequence for encoding \"UTF8\": 0x00" []
  else .ok ()

/-- `BlockMatcher::literals`, with `regex::escape`. -/
def BlockMatcher.literals (engine : GrepEngine) (escape : Text → Text) (literals : List Text) :
    Result BlockMatcher :=
  BlockMatcher.new engine (['|'].intercalate (literals.map escape)) false

/-- `stream_candidate_rows`: the frames of the rows, filtered by the literals if there are any. -/
def streamCandidateRows (engine : GrepEngine) (escape : Text → Text) (rows : List TextRow)
    (literals : Option (List Text)) : Result (List Bytes) :=
  match literals.filter fun values => values ≠ [] with
  | some values => do
      let matcher ← BlockMatcher.literals engine escape values
      .ok (rows.flatMap fun row => chunks (64 * 1024) (matcher.search row.firstLine row.body).1)
  | none => .ok (rows.flatMap fun row => chunks (64 * 1024) (convertTo row.body))

/-- `i32::try_from` of a `u32`. -/
def i32TryFrom (value : Nat) : Result Nat :=
  if value < 2 ^ 31 then .ok value
  else raise "" "out of range integral type conversion attempted" []

/-- The rows that `candidate_word_text` asks for. The required word is a parameter of the last
query, which does not use it. -/
def Database.candidateRows (db : Database) (volume : Uuid) (target : Text)
    (literals : Option (List Text)) (requiredWord : Option Text)
    (minimumAsciiLetters : Option Nat) : Result (List TextRow) :=
  match literals, literalPatterns literals, minimumAsciiLetters with
  | some (literal :: _), some [needle], _ => do
      bindTexts [needle]
      if octetLength literal ≤ 3 then db.candidateShortText volume target needle
      else db.candidateFileLiteralText volume target needle
  | _, none, some minimum => do
      let minimum ← i32TryFrom minimum
      db.candidateFileAsciiText volume target minimum
  | _, needles, minimum => do
      let minimum ← minimum.mapM i32TryFrom
      bindTexts (needles.getD [] ++ requiredWord.toList)
      db.candidateIndexedLines volume target needles minimum

/-- `Database::candidate_word_text`. -/
def Database.candidateWordText (db : Database) (engine : GrepEngine) (escape : Text → Text)
    (volume : Uuid) (target : Text) (literals : Option (List Text))
    (requiredWord : Option Text) (minimumAsciiLetters : Option Nat) : Result (List Bytes) := do
  let target ← normalize target
  let rows ← db.candidateRows volume target literals requiredWord minimumAsciiLetters
  streamCandidateRows engine escape rows literals

/-- `Database::candidate_text`. -/
def Database.candidateText (db : Database) (engine : GrepEngine) (escape : Text → Text)
    (volume : Uuid) (target : Text) (literals : Option (List Text)) : Result (List Bytes) :=
  db.candidateWordText engine escape volume target literals none none

def containsAny (literals : List Text) (line : Text) : Bool :=
  literals.any fun literal => decide (literal <:+: line)

/-- The compiled alternation of the escaped literals finds the lines that contain one. -/
def FindsLiterals (engine : GrepEngine) (escape : Text → Text) (literals : List Text) : Prop :=
  ∃ search, engine (['|'].intercalate (literals.map escape)) = .ok search ∧
    ReportsLines (containsAny literals) false (search false)

theorem literalPattern_eq (value : Text) :
    literalPattern value = '%' :: (escapeLike value ++ ['%']) := by
  have escaped : replaceChar '_' ['\\', '_'] (replaceChar '%' ['\\', '%']
      (replaceChar '\\' ['\\', '\\'] value)) = escapeLike value := by
    induction value with
    | nil => rfl
    | cons symbol rest ih =>
        rw [replaceChar_cons, replaceChar_append, replaceChar_append, ih, escapeLike, escapeLike,
          List.flatMap_cons]
        congr 1
        by_cases backslash : symbol = '\\'
        · rw [backslash]
          rfl
        · by_cases percent : symbol = '%'
          · rw [percent]
            rfl
          · by_cases underscore : symbol = '_'
            · rw [underscore]
              rfl
            · simp [replaceChar, special, backslash, percent, underscore]
  rw [literalPattern, escaped]

theorem like_literalPattern (literal text : Text) :
    like (literalPattern literal) text = true ↔ literal <:+: text := by
  rw [literalPattern_eq]
  exact like_contains literal text

theorem like_literalPattern_eq (literal : Text) :
    like (literalPattern literal) = fun text => decide (literal <:+: text) := by
  funext text
  exact Bool.eq_iff_iff.mpr ((like_literalPattern literal text).trans decide_eq_true_iff.symm)

theorem wantedBy_literalPatterns (literals : List Text) :
    wantedBy (literalPatterns (some literals)) = containsAny literals := by
  funext text
  unfold wantedBy literalPatterns likeAny containsAny
  rw [Option.map_some, Option.all_some, List.any_map]
  congr 1
  funext literal
  exact congrFun (like_literalPattern_eq literal) text

theorem containsAny_nil {literals : List Text} (nonempty : ∀ literal ∈ literals, literal ≠ []) :
    containsAny literals [] = false := by
  apply Bool.eq_false_iff.mpr
  intro found
  obtain ⟨literal, member, inside⟩ := List.any_eq_true.mp found
  exact nonempty literal member (List.infix_nil.mp (of_decide_eq_true inside))

theorem containsAny_of_infix {literals : List Text} {line text : Text} (inside : line <:+: text)
    (found : containsAny literals line = true) : containsAny literals text = true := by
  obtain ⟨literal, member, within⟩ := List.any_eq_true.mp found
  exact List.any_eq_true.mpr ⟨literal, member,
    decide_eq_true ((of_decide_eq_true within).trans inside)⟩

def keptLines (literals : List Text) (text : Text) : List Text :=
  (lineTexts '\n' text).filter (containsAny literals)

section Kept

variable {literals : List Text}

theorem grepText_eq_keptLines (firstLine : Nat) (text : Text) :
    grepText (containsAny literals) false [] firstLine text =
      convertTo ((keptLines literals text).flatMap fun line => line ++ ['\n']) := by
  rw [grepText, keptLines, lineTexts]
  induction linesOf '\n' text generalizing firstLine with
  | nil => rfl
  | cons line rest ih =>
      rw [List.zipIdx_cons, List.map_cons, List.filter_cons, printLines, List.filter_cons]
      cases found : containsAny literals (lineText '\n' line) with
      | true =>
          rw [if_pos rfl, if_pos rfl, List.flatMap_cons, List.flatMap_cons, convertTo_append,
            ← ih (firstLine + 1)]
          rfl
      | false =>
          rw [if_neg Bool.false_ne_true, if_neg Bool.false_ne_true, ← ih (firstLine + 1)]
          rfl

theorem keptLines_eq_nil {text : Text} (absent : containsAny literals text = false) :
    keptLines literals text = [] := by
  rw [keptLines, List.filter_eq_nil_iff]
  intro line member found
  have inText := containsAny_of_infix (infix_of_mem_lineTexts member) found
  rw [absent] at inText
  cases inText

theorem keptLines_append {front : Text} (ends : EndsLine '\n' front) (rest : Text) :
    keptLines literals (front ++ rest) = keptLines literals front ++ keptLines literals rest := by
  rw [keptLines, lineTexts_append ends, List.filter_append]
  rfl

theorem keptLines_blocks {blocks : List TextRow} {firstLine : Nat}
    (aligned : LinesFrom firstLine blocks) :
    (blocks.flatMap fun block => keptLines literals block.body) =
      keptLines literals (blocks.flatMap TextRow.body) := by
  induction blocks generalizing firstLine with
  | nil => rfl
  | cons block rest ih =>
      obtain ⟨-, ends, later⟩ := aligned
      rw [List.flatMap_cons, List.flatMap_cons, ih later]
      by_cases last : rest = []
      · subst last
        rw [List.flatMap_nil, List.append_nil]
        exact List.append_nil _
      · exact (keptLines_append (ends last) _).symm

theorem flatMap_filter_keptLines (blocks : List TextRow) :
    (blocks.filter fun block => containsAny literals block.body).flatMap
        (fun block => keptLines literals block.body) =
      blocks.flatMap fun block => keptLines literals block.body := by
  induction blocks with
  | nil => rfl
  | cons block rest ih =>
      rw [List.filter_cons, List.flatMap_cons]
      cases found : containsAny literals block.body with
      | true => rw [if_pos rfl, List.flatMap_cons, ih]
      | false => rw [if_neg Bool.false_ne_true, ih, keptLines_eq_nil found, List.nil_append]

theorem filter_stringToTable (nonempty : ∀ literal ∈ literals, literal ≠ []) (text : Text) :
    (stringToTable text).filter (containsAny literals) = keptLines literals text := by
  unfold stringToTable
  split
  · rename_i empty
    rw [empty]
    rfl
  · exact filter_splitOn (containsAny_nil nonempty) text

theorem keptLines_keptLines (text : Text) :
    keptLines literals ((keptLines literals text).flatMap fun line => line ++ ['\n']) =
      keptLines literals text := by
  have closed : ∀ line ∈ keptLines literals text, '\n' ∉ line := fun line member =>
    notMem_of_mem_lineTexts (List.mem_filter.mp member).1
  rw [keptLines, lineTexts_of_terminated closed, List.filter_eq_self]
  exact fun line member => (List.mem_filter.mp member).2

theorem flatMap_lineHits (nonempty : ∀ literal ∈ literals, literal ≠ []) (blocks : List TextRow) :
    (blocks.filterMap (lineHits (containsAny literals))).flatMap
        (fun row => keptLines literals row.body) =
      blocks.flatMap fun block => keptLines literals block.body := by
  induction blocks with
  | nil => rfl
  | cons block rest ih =>
      rw [List.filterMap_cons, List.flatMap_cons, lineHits, filter_stringToTable nonempty]
      by_cases empty : keptLines literals block.body = []
      · rw [if_pos empty, empty, List.nil_append]
        exact ih
      · rw [if_neg empty]
        dsimp only
        rw [List.flatMap_cons, ih, keptLines_keptLines]

end Kept

/-! ### What is sent -/

def Database.StoredInline (db : Database) (volume : Uuid) (path : Text) : Prop :=
  ∃ entry, (db.locateZone volume path).bind (db.entryAt volume) = some entry ∧
    entry.contentObject = none

/-- The lines with a literal are sent, each once with a line feed, in the order of the file. -/
def Database.SendsLines (db : Database) (engine : GrepEngine) (escape : Text → Text) (volume : Uuid)
    (target : Text) (literals : List Text) (content : Text) : Prop :=
  ∃ frames, db.candidateText engine escape volume target (some literals) = .ok frames ∧
    frames.flatten =
      convertTo (((lineTexts '\n' content).filter (containsAny literals)).flatMap
        fun line => line ++ ['\n'])

section Sent

variable {db : Database} {volume : Uuid} {path content : Text}

theorem fileContent_reference (canonical : CanonicalPath path) {file : Option Uuid × Text}
    (read : db.fileContent volume path = .ok file) :
    ∃ entry, (db.locateZone volume path).bind (db.entryAt volume) = some entry ∧
      entry.contentObject = file.1 := by
  unfold Database.fileContent at read
  rw [assertPath_of_canonical canonical, ok_bind] at read
  split at read
  · cases read
  · rename_i entry found
    split at read
    · cases read
      exact ⟨entry, found, rfl⟩
    · cases read

theorem Orderly.fileBlocks_aligned (orderly : Orderly db) (at_ : db.TextAt volume path content) :
    ∃ file, db.fileContent volume path = .ok file ∧
      (file.1 = none ↔ db.StoredInline volume path) ∧ LinesFrom 1 (db.fileBlocks volume file) ∧
      (db.fileBlocks volume file).flatMap TextRow.body = content := by
  obtain ⟨⟨reference, inlineText⟩, read, stored⟩ := orderly.fileContent_cases at_
  refine ⟨_, read, ?_, ?_⟩
  · obtain ⟨entry, found, same⟩ := fileContent_reference at_.1 read
    dsimp only at same ⊢
    rw [← same]
    constructor
    · exact fun nothing => ⟨entry, found, nothing⟩
    · rintro ⟨other, foundOther, nothing⟩
      rwa [Option.some.inj (found.symm.trans foundOther)]
  · rcases stored with ⟨rfl, rfl⟩ | ⟨object, rfl, blocksOf, inVolume⟩
    · exact ⟨⟨rfl, fun more => absurd rfl more, trivial⟩, List.append_nil _⟩
    · have all : (db.objectBlocks object).filter (fun block => decide (block.volumeId = volume)) =
          db.objectBlocks object :=
        List.filter_eq_self.mpr fun block member => decide_eq_true (inVolume block member)
      unfold Database.fileBlocks
      dsimp only
      rw [all]
      refine ⟨linesFrom_of_chain blocksOf.1, ?_⟩
      have whole := blocksOf.2.1
      rw [text, List.flatMap_map] at whole
      rw [List.flatMap_map]
      exact whole

theorem streamCandidateRows_eq {engine : GrepEngine} {escape : Text → Text} {literals : List Text}
    (some_ : literals ≠ []) (finds : FindsLiterals engine escape literals) (rows : List TextRow) :
    ∃ frames, streamCandidateRows engine escape rows (some literals) = .ok frames ∧
      frames.flatten = convertTo ((rows.flatMap fun row => keptLines literals row.body).flatMap
        fun line => line ++ ['\n']) := by
  obtain ⟨search, compiled, reports⟩ := finds
  have matcher : BlockMatcher.literals engine escape literals =
      .ok { searcher := search false, lineNumber := false } := by
    rw [BlockMatcher.literals, BlockMatcher.new, compiled, ok_bind]
  have searched (row : TextRow) :
      (BlockMatcher.search { searcher := search false, lineNumber := false } row.firstLine
        row.body).1 = convertTo ((keptLines literals row.body).flatMap fun line => line ++ ['\n']) := by
    rw [BlockMatcher.search, searchPrefixed_eq reports, grepText_eq_keptLines]
  unfold streamCandidateRows
  rw [Option.filter_some, if_pos (decide_eq_true some_)]
  dsimp only
  rw [matcher, ok_bind]
  refine ⟨_, rfl, ?_⟩
  rw [flatten_frames (by decide)]
  simp only [searched]
  induction rows with
  | nil => rfl
  | cons row rest ih =>
      rw [List.flatMap_cons, List.flatMap_cons, List.flatMap_append, convertTo_append, ih]

theorem like_literalPattern_single (literal : Text) :
    like (literalPattern literal) = containsAny [literal] := by
  rw [like_literalPattern_eq]
  funext text
  exact (Bool.or_false _).symm

theorem candidateFileLiteralText_rows (orderly : Orderly db) (at_ : db.TextAt volume path content)
    {literal : Text} (nonempty : literal ≠ []) :
    ∃ rows, db.candidateFileLiteralText volume path (literalPattern literal) = .ok rows ∧
      (rows.flatMap fun row => keptLines [literal] row.body) = keptLines [literal] content := by
  obtain ⟨file, read, -, aligned, whole⟩ := orderly.fileBlocks_aligned at_
  unfold Database.candidateFileLiteralText
  rw [read, ok_bind, like_literalPattern_single]
  refine ⟨_, rfl, ?_⟩
  rw [flatMap_lineHits (List.forall_mem_singleton.mpr nonempty), flatMap_filter_keptLines,
    keptLines_blocks aligned, whole]

theorem candidateShortText_rows (orderly : Orderly db) (at_ : db.TextAt volume path content)
    {literal : Text} (nonempty : literal ≠ []) :
    ∃ rows, db.candidateShortText volume path (literalPattern literal) = .ok rows ∧
      (db.StoredInline volume path → rows = []) ∧
      (¬ db.StoredInline volume path →
        (rows.flatMap fun row => keptLines [literal] row.body) = keptLines [literal] content) := by
  obtain ⟨⟨reference, inlineText⟩, read, inline, aligned, whole⟩ := orderly.fileBlocks_aligned at_
  unfold Database.candidateShortText
  rw [read, ok_bind, like_literalPattern_single]
  dsimp only at inline ⊢
  cases reference with
  | none => exact ⟨[], rfl, fun _ => rfl, fun blocks => absurd (inline.mp rfl) blocks⟩
  | some object =>
      refine ⟨_, rfl, fun stored => absurd (inline.mpr stored) (Option.some_ne_none object),
        fun _ => ?_⟩
      rw [flatMap_lineHits (List.forall_mem_singleton.mpr nonempty), flatMap_filter_keptLines,
        keptLines_blocks aligned, whole]

theorem candidateIndexedLines_rows (orderly : Orderly db) (at_ : db.TextAt volume path content)
    (first second : Text) (others : List Text) :
    ∃ rows, db.candidateIndexedLines volume path (literalPatterns (some (first :: second :: others)))
        none = .ok rows ∧
      (rows.flatMap fun row => keptLines (first :: second :: others) row.body) =
        keptLines (first :: second :: others) content := by
  obtain ⟨file, read, -, aligned, whole⟩ := orderly.fileBlocks_aligned at_
  have kept := wantedBy_literalPatterns (first :: second :: others)
  unfold Database.candidateIndexedLines
  rw [read, ok_bind]
  refine ⟨(db.fileBlocks volume file).filter fun block =>
    wantedBy (literalPatterns (some (first :: second :: others))) block.body, rfl, ?_⟩
  rw [kept, flatMap_filter_keptLines, keptLines_blocks aligned, whole]

theorem nul_mem_literalPattern {literal : Text} :
    '\x00' ∈ literalPattern literal ↔ '\x00' ∈ literal := by
  have escaped (symbol : Char) :
      '\x00' ∈ (if special symbol then ['\\', symbol] else [symbol]) ↔ symbol = '\x00' := by
    split
    · simp [eq_comm]
    · simp [eq_comm]
  rw [literalPattern_eq, escapeLike, List.mem_cons, List.mem_append, List.mem_singleton,
    List.mem_flatMap]
  simp only [escaped, exists_eq_right]
  constructor
  · rintro (percent | member | percent)
    · cases percent
    · exact member
    · cases percent
  · exact fun member => Or.inr (Or.inl member)

theorem bindTexts_of_clean {values : List Text} (clean : ∀ value ∈ values, '\x00' ∉ value) :
    bindTexts values = .ok () := by
  unfold bindTexts
  rw [if_neg]
  rintro ⟨value, member, nul⟩
  exact clean value member nul

theorem bindTexts_ok {literals : List Text} (clean : ∀ literal ∈ literals, '\x00' ∉ literal) :
    bindTexts (literals.map literalPattern) = .ok () := by
  apply bindTexts_of_clean
  intro value member
  obtain ⟨literal, inLiterals, rfl⟩ := List.mem_map.mp member
  exact fun nul => clean literal inLiterals (nul_mem_literalPattern.mp nul)

theorem bindTexts_error {literals : List Text}
    (nul : ¬ ∀ literal ∈ literals, '\x00' ∉ literal) :
    bindTexts (literals.map literalPattern) =
      raise "22021" "invalid byte sequence for encoding \"UTF8\": 0x00" [] := by
  push Not at nul
  obtain ⟨literal, member, inLiteral⟩ := nul
  unfold bindTexts
  rw [if_pos]
  exact ⟨literalPattern literal, List.mem_map_of_mem member,
    nul_mem_literalPattern.mpr inLiteral⟩

/-! ### The three strategies -/

theorem candidateRows_single (literal : Text) :
    db.candidateRows volume path (some [literal]) none none =
      (do
        bindTexts ([literal].map literalPattern)
        if octetLength literal ≤ 3 then
          db.candidateShortText volume path (literalPattern literal)
        else db.candidateFileLiteralText volume path (literalPattern literal)) := rfl

theorem candidateRows_several (first second : Text) (others : List Text) :
    db.candidateRows volume path (some (first :: second :: others)) none none =
      (do
        bindTexts ((first :: second :: others).map literalPattern ++ [])
        db.candidateIndexedLines volume path
          (literalPatterns (some (first :: second :: others))) none) := rfl

/-- The rows of the three strategies keep the lines with a literal, unless a short literal is
looked for in a file that is stored inline. -/
theorem candidateRows_kept (orderly : Orderly db) (at_ : db.TextAt volume path content)
    {literals : List Text} (some_ : literals ≠ [])
    (nonempty : ∀ literal ∈ literals, literal ≠ [])
    (clean : ∀ literal ∈ literals, '\x00' ∉ literal) :
    ∃ rows, db.candidateRows volume path (some literals) none none = .ok rows ∧
      ((∃ literal, literals = [literal] ∧ octetLength literal ≤ 3) ∧
          db.StoredInline volume path → rows = []) ∧
      (¬ ((∃ literal, literals = [literal] ∧ octetLength literal ≤ 3) ∧
          db.StoredInline volume path) →
        (rows.flatMap fun row => keptLines literals row.body) = keptLines literals content) := by
  have bound := bindTexts_ok clean
  cases literals with
  | nil => exact absurd rfl some_
  | cons first rest =>
      cases rest with
      | nil =>
          have proper := nonempty first List.mem_cons_self
          rw [candidateRows_single, bound, ok_bind]
          by_cases short : octetLength first ≤ 3
          · rw [if_pos short]
            obtain ⟨rows, found, nothing, kept⟩ := candidateShortText_rows orderly at_ proper
            exact ⟨rows, found, fun inline => nothing inline.2,
              fun exact_ => kept fun inline => exact_ ⟨⟨first, rfl, short⟩, inline⟩⟩
          · rw [if_neg short]
            obtain ⟨rows, found, kept⟩ := candidateFileLiteralText_rows orderly at_ proper
            refine ⟨rows, found, ?_, fun _ => kept⟩
            rintro ⟨⟨other, same, shortOther⟩, -⟩
            cases same
            exact absurd shortOther short
      | cons second others =>
          rw [candidateRows_several, List.append_nil, bound, ok_bind]
          obtain ⟨rows, found, kept⟩ := candidateIndexedLines_rows orderly at_ first second others
          refine ⟨rows, found, ?_, fun _ => kept⟩
          rintro ⟨⟨other, same, -⟩, -⟩
          cases same

theorem candidateRows_nul {literals : List Text}
    (nul : ¬ ∀ literal ∈ literals, '\x00' ∉ literal) :
    db.candidateRows volume path (some literals) none none =
      raise "22021" "invalid byte sequence for encoding \"UTF8\": 0x00" [] := by
  have refused := bindTexts_error nul
  cases literals with
  | nil => exact absurd (fun _ member => absurd member List.not_mem_nil) nul
  | cons first rest =>
      cases rest with
      | nil =>
          rw [candidateRows_single, refused]
          rfl
      | cons second others =>
          rw [candidateRows_several, List.append_nil, refused]
          rfl

theorem keptLines_single_eq_nil {literal text : Text} :
    keptLines [literal] text = [] ↔ ¬ ∃ line ∈ lineTexts '\n' text, literal <:+: line := by
  rw [keptLines, List.filter_eq_nil_iff]
  unfold containsAny
  simp only [List.any_cons, List.any_nil, Bool.or_false, decide_eq_true_eq, not_exists, not_and]

end Sent

/-- `candidate_text` sends the lines with a literal exactly when PostgreSQL takes the literals and
no short literal is looked for in an inline file that has it in a line. -/
theorem sendsLines_iff {db : Database} (orderly : Orderly db) {volume : Uuid}
    {target path content : Text} (normalized : normalize target = .ok path)
    (at_ : db.TextAt volume path content) {literals : List Text} (some_ : literals ≠ [])
    (proper : ∀ literal ∈ literals, literal ≠ [] ∧ '\n' ∉ literal) {engine : GrepEngine}
    {escape : Text → Text} (finds : FindsLiterals engine escape literals) :
    db.SendsLines engine escape volume target literals content ↔
      (∀ literal ∈ literals, '\x00' ∉ literal) ∧
        ¬ (db.StoredInline volume path ∧ ∃ literal, literals = [literal] ∧
          octetLength literal ≤ 3 ∧ ∃ line ∈ lineTexts '\n' content, literal <:+: line) := by
  unfold Database.SendsLines Database.candidateText Database.candidateWordText
  rw [normalized, ok_bind]
  by_cases clean : ∀ literal ∈ literals, '\x00' ∉ literal
  · obtain ⟨rows, found, nothing, kept⟩ := candidateRows_kept orderly at_ some_
      (fun literal member => (proper literal member).1) clean
    obtain ⟨frames, sent, output⟩ := streamCandidateRows_eq some_ finds rows
    rw [found, ok_bind, sent, and_iff_right clean]
    by_cases missed : (∃ literal, literals = [literal] ∧ octetLength literal ≤ 3) ∧
        db.StoredInline volume path
    · obtain ⟨⟨literal, rfl, short⟩, inline⟩ := missed
      rw [nothing ⟨⟨literal, rfl, short⟩, inline⟩] at output
      have lines := @keptLines_single_eq_nil literal content
      constructor
      · rintro ⟨others, same, exact_⟩ ⟨-, other, again, -, line⟩
        cases again
        cases same
        refine lines.mp ?_ line
        have empty := convertTo_injective (exact_.symm.trans output)
        rw [List.flatMap_nil, List.flatMap_nil, List.flatMap_eq_nil_iff] at empty
        apply List.eq_nil_iff_forall_not_mem.mpr
        intro kept member
        exact List.append_ne_nil_of_right_ne_nil kept (List.cons_ne_nil '\n' []) (empty kept member)
      · intro absent
        have none_ : keptLines [literal] content = [] :=
          lines.mpr fun line => absent ⟨inline, literal, rfl, short, line⟩
        refine ⟨frames, rfl, output.trans ?_⟩
        rw [keptLines] at none_
        rw [none_]
        rfl
    · constructor
      · rintro - ⟨inline, literal, single, short, -⟩
        exact missed ⟨⟨literal, single, short⟩, inline⟩
      · intro
        exact ⟨frames, rfl, by rw [output, kept missed]; rfl⟩
  · rw [candidateRows_nul clean]
    constructor
    · rintro ⟨frames, sent, -⟩
      cases sent
    · exact fun proper => absurd proper.1 clean

theorem findsLiterals_single (literal : Text) : FindsLiterals literalEngine id [literal] := by
  have joined : ['|'].intercalate ([literal].map id) = literal := List.intercalate_singleton
  unfold FindsLiterals
  rw [joined]
  refine ⟨_, rfl, ?_⟩
  intro slice
  simp only [containsAny, List.any_cons, List.any_nil, Bool.or_false]

/-- A short literal in a file in blocks. -/
theorem sendsLines_accent :
    (Database.empty.calls accentCalls).SendsLines literalEngine id 7 ['/', 'a'] [['h']]
      ['h', 'é', '\n'] := by
  have text : (Database.empty.calls accentCalls).TextAt 7 ['/', 'a'] ['h', 'é', '\n'] :=
    textAt_iff.mpr ⟨rfl, by decide +kernel⟩
  refine (sendsLines_iff (orderly_of_reachable (reachable_calls accentCalls).byCalls)
    (by decide +kernel) text (by decide) (by decide) (findsLiterals_single ['h'])).mpr
    ⟨by decide, ?_⟩
  rintro ⟨⟨entry, found, inline⟩, -⟩
  have inBlocks : ∃ entry, ((Database.empty.calls accentCalls).locateZone 7 ['/', 'a']).bind
      ((Database.empty.calls accentCalls).entryAt 7) = some entry ∧ entry.contentObject ≠ none := by
    decide +kernel
  obtain ⟨other, same, object⟩ := inBlocks
  rw [found] at same
  cases same
  exact object inline

theorem Orderly.writeFileInline {db after : Database} {volume : Uuid} {targetPath : Text}
    {data : Bytes} {mode : Int} {now : Timestamp} {id : NodeId} (orderly : Orderly db)
    (done : db.writeFileInline volume targetPath data mode now = .ok (after, id)) :
    Orderly after :=
  ⟨(writeFileInline_kept (.refl orderly.sound) done).sound,
    (writeFileInline_contentMapping done).trans orderly.unmapped,
    (sameCatalog_writeFileInline done).kept.catalog orderly.catalog⟩

def inlineDatabase : Database :=
  (((Database.empty.calls [.createVolume 7 ['v'] 0]).writeFileInline 7 ['/', 'f'] [104, 105, 10] 420
    1).toOption.map Prod.fst).getD Database.empty

theorem orderly_inlineDatabase : Orderly inlineDatabase := by
  have before := orderly_of_reachable (reachable_calls [.createVolume 7 ['v'] 0]).byCalls
  unfold inlineDatabase
  cases wrote : (Database.empty.calls [.createVolume 7 ['v'] 0]).writeFileInline 7 ['/', 'f']
      [104, 105, 10] 420 1 with
  | error failure => exact orderly_empty
  | ok result => exact before.writeFileInline wrote

/-- A short literal in a file that was written inline is not found. -/
theorem sendsLines_not_inline :
    ¬ ∀ (db : Database) (volume : Uuid) (target path content : Text) (literals : List Text)
        (engine : GrepEngine) (escape : Text → Text), Orderly db → normalize target = .ok path →
      db.TextAt volume path content → literals ≠ [] →
      (∀ literal ∈ literals, literal ≠ [] ∧ '\n' ∉ literal) → FindsLiterals engine escape literals →
        db.SendsLines engine escape volume target literals content := by
  intro every
  have text : inlineDatabase.TextAt 7 ['/', 'f'] ['h', 'i', '\n'] :=
    textAt_iff.mpr ⟨rfl, by decide +kernel⟩
  obtain ⟨frames, sent, output⟩ := every inlineDatabase 7 ['/', 'f'] ['/', 'f'] _ [['h']]
    literalEngine id orderly_inlineDatabase (by decide +kernel) text (by decide) (by decide)
    (findsLiterals_single ['h'])
  have nothing : (inlineDatabase.candidateText literalEngine id 7 ['/', 'f'] (some [['h']])).toOption =
      some [] := by
    decide +kernel
  rw [sent] at nothing
  obtain rfl := Option.some.inj nothing
  revert output
  decide +kernel

end PostgreOS
