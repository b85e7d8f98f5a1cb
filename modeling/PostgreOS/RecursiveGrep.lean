/-
Recursive searches.

`grep_regex_output` searches the rows of `candidate_blocks` one by one. It prints the matching
lines of the text files below its root if the query takes the files that lie there, and if
their content is in blocks: no query looks at a text that is stored inline.
-/

import PostgreOS.RequiredLiterals
import PostgreOS.SearchedFiles

namespace PostgreOS

open Library.LikePattern Library.LineBlocks Library.Lines Library.Ordering Library.Outcome Library.Spans Library.Table

/-- `grep_regex_output`: the frames of the output, and if a line matched. -/
def Database.grepRegexOutput {Look : Type} (db : Database) (calls : RegexCalls Look)
    (engine : GrepEngine) (volume : Uuid) (root pattern : Text) (lineNumber : Bool)
    (pathPrefix : Text) (fileSuffixes : List Text) : Result (List Bytes × Bool) := do
  let literals := requiredLiterals calls pattern
  let matcher ← BlockMatcher.new engine pattern lineNumber
  let rows ← db.candidateBlocks volume root literals fileSuffixes
  let results := rows.map fun row =>
    matcher.searchPrefixed row.firstLine row.body (linePrefixOf pathPrefix row.path)
  .ok (results.flatMap fun result => chunks (64 * 1024) result.1, results.any Prod.snd)

/-- The search prints every matching line of these files with its path and number, and no more. -/
def Database.SendsMatches {Look : Type} (db : Database) (calls : RegexCalls Look)
    (engine : GrepEngine) (matching : Text → Bool) (volume : Uuid) (root path pattern : Text)
    (lineNumber : Bool) (pathPrefix : Text) (fileSuffixes : List Text) : Prop :=
  ∃ frames,
    db.grepRegexOutput calls engine volume root pattern lineNumber pathPrefix fileSuffixes =
      .ok (frames, (db.searchedFiles volume path fileSuffixes).any fun file =>
        hasMatch matching file.content) ∧
    frames.flatten = (db.searchedFiles volume path fileSuffixes).flatMap fun file =>
      grepText matching lineNumber (linePrefixOf pathPrefix file.path) 1 file.content

/-- What the search relies on. -/
structure Database.Searchable (db : Database) (matching : Text → Bool) (volume : Uuid) (path : Text)
    (literals : Option (List Text)) (fileSuffixes : List Text) : Prop where
  literal_texts : ∀ values ∈ literals, ∀ literal ∈ values, '\x00' ∉ literal
  suffix_texts : ∀ suffix ∈ fileSuffixes, '\x00' ∉ suffix
  shown : ∀ entry file, db.Hit matching volume fileSuffixes entry file → Within path file.path →
    db.Shown volume file.path entry ∧ entry.contentObject ≠ none
  selects : db.SearchesZone volume path literals ∨
    ∀ entry file, db.Hit matching volume fileSuffixes entry file → db.PatternExact volume path entry

theorem searchable_of_plain {db : Database} {volume : Uuid} (state : WellFormedVolume db volume)
    {matching : Text → Bool} {path : Text} (plain : Plain path) {literals : Option (List Text)}
    {fileSuffixes : List Text}
    (literalTexts : ∀ values ∈ literals, ∀ literal ∈ values, '\x00' ∉ literal)
    (suffixTexts : ∀ suffix ∈ fileSuffixes, '\x00' ∉ suffix)
    (inBlocks : ∀ entry file, db.Hit matching volume fileSuffixes entry file →
      Within path file.path → entry.contentObject ≠ none) :
    db.Searchable matching volume path literals fileSuffixes where
  literal_texts := literalTexts
  suffix_texts := suffixTexts
  shown entry file hit below :=
    ⟨shown_of_wellFormed state.committed.sound.keys state.tree hit.1 hit.2.1,
      inBlocks entry file hit below⟩
  selects := Or.inr fun entry _ _ => patternExact_of_plain plain entry

/-- The rows of the files print what is in blocks, and nothing of other files. -/
def ReadsBlocks (db : Database) (matching : Text → Bool) (files : List (Text × ZoneEntry))
    (rows : Text × ZoneEntry → List Candidate) : Prop :=
  ∀ file ∈ files, (file.2.contentObject = none → rows file = []) ∧
    ∀ object, file.2.contentObject = some object →
      PrintsFile matching file.1 (db.objectText object) (rows file)

section Reading

variable {db : Database} {matching : Text → Bool} {volume : Uuid} {entry : ZoneEntry}
  {files : List (Text × ZoneEntry)}

theorem entryBlocks_of_none (inline : entry.contentObject = none) :
    db.entryBlocks volume entry = [] := by
  unfold Database.entryBlocks
  rw [List.filter_eq_nil_iff]
  intro block _
  simp [inline]

/-- The blocks of the object of an entry, and where they are stored. -/
theorem Orderly.entryBlocks_of_object (orderly : Orderly db)
    (member : entry ∈ (db.tree volume).entries) {object : Uuid}
    (refers : entry.contentObject = some object) :
    BlocksOf (db.objectText object) ((db.entryBlocks volume entry).map ContentBlock.toLineBlock) ∧
    db.textOf entry = some (db.objectText object) ∧
    ∃ owner ∈ db.contentObjects, owner.id = object ∧ owner.volumeId = volume ∧
      ∀ block ∈ db.entryBlocks volume entry, block.segmentId = owner.segmentId := by
  obtain ⟨stored, inVolume⟩ := mem_tree_entries.mp member
  obtain ⟨payload, owner, ownerMember, rfl, ownerVolume, -⟩ :=
    (orderly.sound.stored entry stored).object refers
  obtain ⟨content, blocksOf, -⟩ := orderly.sound.store.object_blocks owner ownerMember
  have same : db.entryBlocks volume entry = db.blockRows owner.id := by
    unfold Database.entryBlocks Database.blockRows
    apply List.filter_congr
    intro block blockMember
    rw [decide_eq_decide, refers, Option.some.injEq]
    constructor
    · rintro ⟨same, -⟩
      exact same.symm
    · intro ofObject
      refine ⟨ofObject.symm, ?_⟩
      rw [orderly.block_volume ownerMember (List.mem_filter.mpr ⟨blockMember, decide_eq_true ofObject⟩),
        ownerVolume, inVolume]
  refine ⟨?_, ?_, owner, ownerMember, rfl, ownerVolume.trans inVolume, ?_⟩
  · rw [same, objectText_eq blocksOf]
    exact blocksOf
  · rw [Database.textOf, refers, ZoneEntry.textContent, payload]
    rfl
  · intro block blockMember
    rw [same] at blockMember
    obtain ⟨inStore, ofObject⟩ := List.mem_filter.mp blockMember
    rw [decide_eq_true_eq] at ofObject
    have store := orderly.sound.store
    rcases List.mem_append.mp inStore with plain | bulk
    · obtain ⟨none_, other, otherMember, otherId, otherSegment⟩ := store.block_object block plain
      obtain rfl := store.object_eq otherMember ownerMember (otherId.trans ofObject)
      rw [none_, otherSegment]
    · obtain ⟨-, other, otherMember, otherId, otherSegment⟩ := store.bulk_object block bulk
      obtain rfl := store.object_eq otherMember ownerMember (otherId.trans ofObject)
      exact otherSegment.symm

theorem readsBlocks_of_blocks (orderly : Orderly db)
    (members : ∀ file ∈ files, file.2 ∈ (db.tree volume).entries)
    {rows : Text × ZoneEntry → List Candidate}
    (rows_nil : ∀ file, db.entryBlocks volume file.2 = [] → rows file = [])
    (prints : ∀ file ∈ files, ∀ object, file.2.contentObject = some object →
      BlocksOf (db.objectText object) ((db.entryBlocks volume file.2).map ContentBlock.toLineBlock) →
        PrintsFile matching file.1 (db.objectText object) (rows file)) :
    ReadsBlocks db matching files rows := by
  intro file member
  constructor
  · intro inline
    exact rows_nil file (entryBlocks_of_none inline)
  · intro object refers
    obtain ⟨blocksOf, -⟩ := orderly.entryBlocks_of_object (members file member) refers
    exact prints file member object refers blocksOf

theorem containsAny_of_hasMatch {values : List Text}
    (covers : ∀ line, matching line = true → containsAny values line = true) {body : Text}
    (found : hasMatch matching body = true) : containsAny values body = true := by
  obtain ⟨whole, inBody, matched⟩ := List.any_eq_true.mp found
  exact containsAny_of_infix (infix_of_mem_lineTexts (List.mem_map_of_mem inBody))
    (covers _ matched)

theorem readsBlocks_literal (orderly : Orderly db) {literal : Text} {location : Location}
    {descendants : Bool}
    (covers : ∀ line, matching line = true → containsAny [literal] line = true)
    (inScope : ∀ file ∈ files, file.2 ∈ (db.tree volume).entries ∧
      file.2.zoneId = location.zoneId ∧ startsInRoot location.relativePath file.2 = true) :
    ReadsBlocks db matching files (db.literalBlocks volume
      { toLocation := location, hasDescendants := descendants,
        segmentIds := db.scopeSegments volume location } literal) := by
  refine readsBlocks_of_blocks orderly (fun file member => (inScope file member).1) ?_ ?_
  · intro file noBlocks
    rw [Database.literalBlocks, noBlocks]
    rfl
  · intro file member object refers blocksOf
    obtain ⟨inTree, inZone, starts⟩ := inScope file member
    obtain ⟨-, -, owner, ownerMember, ownerId, ownerVolume, segments⟩ :=
      orderly.entryBlocks_of_object inTree refers
    refine printsFile_blocks blocksOf ?_ file.1
    intro block blockMember found
    rw [decide_eq_true_eq]
    constructor
    · rw [segments block blockMember]
      cases inSegment : owner.segmentId with
      | none => exact Or.inl rfl
      | some segment =>
          refine Or.inr ⟨segment, ?_, rfl⟩
          obtain ⟨stored, inVolume⟩ := mem_tree_entries.mp inTree
          refine List.mem_dedup.mpr (List.mem_flatMap.mpr ⟨file.2, List.mem_filter.mpr ⟨stored,
            decide_eq_true ⟨inVolume, inZone, starts⟩⟩, List.mem_filterMap.mpr ⟨owner, ?_, inSegment⟩⟩)
          exact List.mem_filter.mpr ⟨ownerMember, decide_eq_true
            ⟨by rw [refers, ownerId], ownerVolume.trans inVolume.symm⟩⟩
    · simpa [containsAny] using containsAny_of_hasMatch covers found

theorem readsBlocks_lines (orderly : Orderly db) {literal : Text} (nonempty : literal ≠ [])
    (covers : ∀ line, matching line = true → containsAny [literal] line = true)
    (members : ∀ file ∈ files, file.2 ∈ (db.tree volume).entries) :
    ReadsBlocks db matching files (db.needleLines volume (literalPattern literal)) := by
  refine readsBlocks_of_blocks orderly members ?_ ?_
  · intro file noBlocks
    rw [Database.needleLines, noBlocks]
    rfl
  · intro file member object refers blocksOf
    rw [Database.needleLines, like_literalPattern_single]
    exact printsFile_lines blocksOf covers
      (containsAny_nil fun other single => List.mem_singleton.mp single ▸ nonempty)
      (fun _ _ => containsAny_of_infix) file.1

theorem readsBlocks_matching (orderly : Orderly db) {literals : Option (List Text)}
    (covers : ∀ values ∈ literals, ∀ line, matching line = true → containsAny values line = true)
    (members : ∀ file ∈ files, file.2 ∈ (db.tree volume).entries) :
    ReadsBlocks db matching files (db.matchingBlocks volume (literalPatterns literals)) := by
  refine readsBlocks_of_blocks orderly members ?_ ?_
  · intro file noBlocks
    rw [Database.matchingBlocks, noBlocks]
    rfl
  · intro file member object refers blocksOf
    refine printsFile_blocks blocksOf ?_ file.1
    intro block _ found
    cases literals with
    | none => rfl
    | some values =>
        rw [wantedBy_literalPatterns]
        exact containsAny_of_hasMatch (covers values rfl) found

end Reading

section Literals

variable {Look : Type} {calls : RegexCalls Look} {looks : Look → Text → Text → Prop}
  {matching : Text → Bool} {pattern : Text}

/-- A matching line has a match of the parsed pattern in it. -/
def MatchesParsed (calls : RegexCalls Look) (looks : Look → Text → Text → Prop)
    (matching : Text → Bool) (pattern : Text) : Prop :=
  ∀ hir, calls.parse pattern = some hir → ∀ line, matching line = true →
    (hir.Matches looks).FoundIn line

theorem containsAny_of_matching
    (sequences : ∀ hir, calls.parse pattern = some hir → calls.SequencesCover looks hir)
    (parsed : MatchesParsed calls looks matching pattern) {values : List Text}
    (required : requiredLiterals calls pattern = some values) {line : Text}
    (matched : matching line = true) : containsAny values line = true := by
  obtain ⟨hir, isParsed, -⟩ := Option.bind_eq_some_iff.mp required
  obtain ⟨before, text, after, rfl, found⟩ := parsed hir isParsed line matched
  obtain ⟨literal, member, inside⟩ :=
    requiredLiterals_covers looks (sequences hir isParsed) isParsed required before text after found
  refine List.any_eq_true.mpr ⟨literal, member, decide_eq_true ?_⟩
  exact (convertTo_infix_iff.mp inside).trans (List.infix_append before text after)

theorem requiredLiterals_nonempty {values : List Text}
    (required : requiredLiterals calls pattern = some values) : ∀ literal ∈ values, literal ≠ [] := by
  rintro literal member rfl
  exact absurd (requiredLiterals_long required [] member) (by decide)

end Literals

theorem filter_filterMap_eq_map {α β : Type} (read : α → Option β) (keep : β → Bool) (default : β)
    (rows : List α) :
    (rows.filterMap read).filter keep =
      (rows.filter fun row => (read row).any keep).map fun row => (read row).getD default := by
  induction rows with
  | nil => rfl
  | cons row rest ih =>
      rw [List.filter_cons]
      cases result : read row with
      | none =>
          rw [List.filterMap_cons_none result, ih]
          simp
      | some value =>
          rw [List.filterMap_cons_some result, List.filter_cons, ih]
          by_cases kept : keep value = true
          · simp [kept, result]
          · simp [kept]

def Database.fileOf (db : Database) (volume : Uuid) (entry : ZoneEntry) : TextFile :=
  (db.textFile volume entry).getD { path := [], name := [], content := [] }

/-- The entries of the hits at or below a path, in the order of their paths. -/
def Database.hitEntries (db : Database) (matching : Text → Bool) (volume : Uuid) (path : Text)
    (fileSuffixes : List Text) : List ZoneEntry :=
  ((db.tree volume).entries.filter fun entry => (db.textFile volume entry).any fun file =>
    decide (Within path file.path ∧ EndsWithOne fileSuffixes file.name) &&
      hasMatch matching file.content).insertionSort
        fun first second => (db.fileOf volume first).path ≤ (db.fileOf volume second).path

section Hits

variable {db : Database} {matching : Text → Bool} {volume : Uuid} {path : Text}
  {fileSuffixes : List Text} {entry : ZoneEntry} {file : TextFile}

theorem fileOf_eq (read : db.textFile volume entry = some file) : db.fileOf volume entry = file := by
  rw [Database.fileOf, read, Option.getD_some]

theorem mem_hitEntries : entry ∈ db.hitEntries matching volume path fileSuffixes ↔
    db.Hit matching volume fileSuffixes entry (db.fileOf volume entry) ∧
      Within path (db.fileOf volume entry).path := by
  unfold Database.hitEntries
  rw [List.mem_insertionSort, List.mem_filter, Option.any_eq_true_iff_get]
  constructor
  · rintro ⟨member, some_, kept⟩
    have read : db.textFile volume entry = some ((db.textFile volume entry).get some_) :=
      (Option.some_get some_).symm
    rw [Bool.and_eq_true, decide_eq_true_eq] at kept
    rw [fileOf_eq read]
    exact ⟨⟨member, read, kept.1.2, kept.2⟩, kept.1.1⟩
  · rintro ⟨⟨member, read, ends, found⟩, below⟩
    refine ⟨member, Option.isSome_of_mem read, ?_⟩
    rw [Option.get_of_mem _ read, Bool.and_eq_true, decide_eq_true_eq]
    exact ⟨⟨below, ends⟩, found⟩

theorem pairwise_hitEntries (keys : Keys db)
    (shown : ∀ entry file, db.Hit matching volume fileSuffixes entry file →
      Within path file.path → db.Shown volume file.path entry) :
    (db.hitEntries matching volume path fileSuffixes).Pairwise fun first second =>
      (db.fileOf volume first).path < (db.fileOf volume second).path := by
  have ordered : (db.hitEntries matching volume path fileSuffixes).Pairwise fun first second =>
      (db.fileOf volume first).path ≤ (db.fileOf volume second).path :=
    ordered_insertionSort (fun _ _ => Iff.rfl) _
  have nodup : (db.hitEntries matching volume path fileSuffixes).Nodup := by
    refine (List.perm_insertionSort _ _).nodup_iff.mpr ?_
    exact (keys.entry_ids.of_map.filter _).filter _
  refine (ordered.and nodup).imp_of_mem ?_
  rintro first second firstMember secondMember ⟨atMost, apart⟩
  obtain ⟨firstHit, firstBelow⟩ := mem_hitEntries.mp firstMember
  obtain ⟨secondHit, secondBelow⟩ := mem_hitEntries.mp secondMember
  refine lt_of_le_of_ne atMost fun same => apart ?_
  exact Database.Shown.unique keys firstHit.1 secondHit.1 (shown first _ firstHit firstBelow)
    (same ▸ shown second _ secondHit secondBelow)

theorem filter_searchedFiles
    (increasing : (db.hitEntries matching volume path fileSuffixes).Pairwise fun first second =>
      (db.fileOf volume first).path < (db.fileOf volume second).path) :
    (db.searchedFiles volume path fileSuffixes).filter (fun file => hasMatch matching file.content) =
      (db.hitEntries matching volume path fileSuffixes).map (db.fileOf volume) := by
  unfold Database.searchedFiles
  refine @filter_insertionSort _ _ _ TextFile.path _ _ (fun first second => decide_eq_true_iff) _ _ _
    ?_ ?_
  · rw [List.filter_filter]
    refine (List.Perm.of_eq (filter_filterMap_eq_map _ _ ⟨[], [], []⟩ _)).trans ?_
    refine List.Perm.map _ ?_
    unfold Database.hitEntries
    refine List.Perm.trans (List.Perm.of_eq ?_) (List.perm_insertionSort _ _).symm
    apply List.filter_congr
    intro entry _
    congr 1
    funext file
    exact Bool.and_comm _ _
  · exact List.pairwise_map.mpr increasing

end Hits

/-! ### What the rows print -/

section Output

variable {db : Database} {matching : Text → Bool} {volume : Uuid} {path : Text}
  {fileSuffixes : List Text} {files : List (Text × ZoneEntry)}
  {rows : Text × ZoneEntry → List Candidate}

theorem textFile_of_textOf (keys : Keys db) {entry : ZoneEntry}
    (member : entry ∈ (db.tree volume).entries) {content : Text}
    (isText : db.textOf entry = some content) :
    ∃ file, db.textFile volume entry = some file ∧ file.name = entry.name ∧
      file.content = content := by
  obtain ⟨stored, inVolume⟩ := mem_tree_entries.mp member
  obtain ⟨zone, zoneMember, inZone, sameVolume⟩ := keys.entry_zone entry stored
  have inTree : zone ∈ (db.tree volume).zones :=
    mem_tree_zones.mpr ⟨zoneMember, sameVolume.trans inVolume⟩
  have found : ((db.tree volume).zones.find? fun zone => zone.id = entry.zoneId).isSome = true :=
    List.find?_isSome.mpr ⟨zone, inTree, decide_eq_true inZone⟩
  obtain ⟨first, first_⟩ := Option.isSome_iff_exists.mp found
  refine ⟨{ path := absolutePath first.path entry.relativePath, name := entry.name,
            content := content }, ?_, rfl, rfl⟩
  rw [Database.textFile, first_, Option.bind_some, isText, Option.map_some]

theorem Database.Hit.objectText (orderly : Orderly db) {entry : ZoneEntry} {file : TextFile}
    (hit : db.Hit matching volume fileSuffixes entry file) {object : Uuid}
    (refers : entry.contentObject = some object) : db.objectText object = file.content := by
  obtain ⟨zone, member, inZone⟩ := exists_zone_of_textFile hit.2.1
  obtain ⟨-, -, isText⟩ := textFile_eq_some orderly.sound.keys hit.2.1 member inZone
  obtain ⟨-, stored, -⟩ := orderly.entryBlocks_of_object hit.1 refers
  exact Option.some.inj (stored.symm.trans isText)

/-- The files that print something are the hits. -/
theorem perm_hitEntries (orderly : Orderly db)
    (takes : TakesHits db matching volume path fileSuffixes files)
    (reads : ReadsBlocks db matching files rows)
    (shown : ∀ entry file, db.Hit matching volume fileSuffixes entry file → Within path file.path →
      db.Shown volume file.path entry ∧ entry.contentObject ≠ none) :
    (files.filter fun file => (rows file).any fun row => hasMatch matching row.body).Perm
      ((db.hitEntries matching volume path fileSuffixes).map fun entry =>
        ((db.fileOf volume entry).path, entry)) := by
  have increasing := pairwise_hitEntries orderly.sound.keys fun entry file hit below =>
    (shown entry file hit below).1
  have distinct : ((db.hitEntries matching volume path fileSuffixes).map fun entry =>
      ((db.fileOf volume entry).path, entry)).Nodup := by
    refine List.pairwise_map.mpr (increasing.imp ?_)
    intro first second less same
    exact absurd (Prod.mk.inj same).1 less.ne
  refine (List.perm_ext_iff_of_nodup (takes.nodup.of_map.filter _) distinct).mpr ?_
  rintro ⟨given, entry⟩
  rw [List.mem_filter, List.mem_map]
  constructor
  · rintro ⟨member, printed⟩
    obtain ⟨inTree, ends⟩ := takes.wanted _ member
    obtain ⟨inline, inBlocks⟩ := reads _ member
    cases refers : entry.contentObject with
    | none =>
        rw [inline refers] at printed
        cases printed
    | some object =>
        have found := (inBlocks object refers).found
        obtain ⟨-, isText, -⟩ := orderly.entryBlocks_of_object inTree refers
        obtain ⟨file, read, content⟩ := textFile_of_textOf orderly.sound.keys inTree isText
        have hit : db.Hit matching volume fileSuffixes entry file := by
          refine ⟨inTree, read, ?_, ?_⟩
          · rw [content.1]
            exact ends
          · rw [content.2, ← found]
            exact printed
        have below := (takes.taken entry file hit).mp (List.mem_map_of_mem member)
        refine ⟨entry, mem_hitEntries.mpr ?_, ?_⟩
        · rw [fileOf_eq read]
          exact ⟨hit, below⟩
        · rw [fileOf_eq read, takes.path given entry file hit member]
  · rintro ⟨other, member, same⟩
    obtain ⟨rfl, rfl⟩ := Prod.mk.inj same
    obtain ⟨hit, below⟩ := mem_hitEntries.mp member
    obtain ⟨⟨given, found⟩, taken, rfl⟩ := List.mem_map.mp ((takes.taken _ _ hit).mpr below)
    have path := takes.path given found _ hit taken
    obtain ⟨object, refers⟩ := Option.ne_none_iff_exists'.mp (shown found _ hit below).2
    have printed := ((reads _ taken).2 object refers).found
    rw [hit.objectText orderly refers, hit.2.2.2, path] at printed
    exact ⟨path ▸ taken, printed⟩

/-- The rows print the matching lines of the searched files. -/
theorem orderCandidates_searched (orderly : Orderly db)
    (takes : TakesHits db matching volume path fileSuffixes files)
    (reads : ReadsBlocks db matching files rows)
    (shown : ∀ entry file, db.Hit matching volume fileSuffixes entry file → Within path file.path →
      db.Shown volume file.path entry ∧ entry.contentObject ≠ none)
    (lineNumber : Bool) (pathPrefix : Text) :
    ((orderCandidates (files.flatMap rows)).flatMap (printRow matching lineNumber pathPrefix)) =
      ((db.searchedFiles volume path fileSuffixes).flatMap fun file => grepText matching lineNumber
        (linePrefixOf pathPrefix file.path) 1 file.content) ∧
    ((orderCandidates (files.flatMap rows)).any fun row => hasMatch matching row.body) =
      (db.searchedFiles volume path fileSuffixes).any fun file => hasMatch matching file.content := by
  have hits := perm_hitEntries orderly takes reads shown
  have increasing := pairwise_hitEntries orderly.sound.keys fun entry file hit below =>
    (shown entry file hit below).1
  have prints : ∀ entry ∈ db.hitEntries matching volume path fileSuffixes,
      PrintsFile matching (db.fileOf volume entry).path (db.fileOf volume entry).content
        (rows ((db.fileOf volume entry).path, entry)) := by
    intro entry member
    obtain ⟨hit, below⟩ := mem_hitEntries.mp member
    obtain ⟨object, refers⟩ := Option.ne_none_iff_exists'.mp (shown entry _ hit below).2
    have taken : ((db.fileOf volume entry).path, entry) ∈ files :=
      List.mem_of_mem_filter (hits.mem_iff.mpr (List.mem_map_of_mem member))
    rw [← hit.objectText orderly refers]
    exact (reads _ taken).2 object refers
  have searched := filter_searchedFiles increasing
  obtain ⟨printed, found⟩ := orderCandidates_printed hits prints increasing lineNumber pathPrefix
  constructor
  · refine printed.trans (Eq.trans ?_ (@flatMap_filter_of_nil _ _ (fun file : TextFile =>
      hasMatch matching file.content) _ _ fun file _ absent => grepText_eq_nil absent 1))
    rw [searched, List.flatMap_map]
  · refine found.trans (Eq.trans ?_ (@any_filter_hasMatch matching TextFile TextFile.content
      (fun file => hasMatch matching file.content) _ fun file _ found => found))
    rw [searched, List.any_map]
    rfl

end Output

/-! ### The three queries -/

section Queries

variable {db : Database} {matching : Text → Bool} {volume : Uuid} {names : List Text}
  {fileSuffixes : List Text} {location : Location} {literals : Option (List Text)}

theorem bindTexts_patterns (literalTexts : ∀ values ∈ literals, ∀ literal ∈ values, '\x00' ∉ literal)
    (suffixTexts : ∀ suffix ∈ fileSuffixes, '\x00' ∉ suffix) :
    bindTexts ((literalPatterns literals).getD [] ++ fileSuffixes) = .ok () := by
  apply bindTexts_of_clean
  intro value member
  rcases List.mem_append.mp member with pattern | suffix
  · cases literals with
    | none => exact absurd pattern List.not_mem_nil
    | some values =>
        obtain ⟨literal, inValues, rfl⟩ := List.mem_map.mp pattern
        exact fun nul => literalTexts values rfl literal inValues (nul_mem_literalPattern.mp nul)
  · exact suffixTexts value suffix

/-- The rows of `pgos.search_candidate_blocks` for the files of a path. -/
theorem searchedBlocks_reads (orderly : Orderly db) (valid : Components names)
    (located : db.locateZone volume (pathText names) = some location)
    (literalTexts : ∀ values ∈ literals, ∀ literal ∈ values, '\x00' ∉ literal)
    (suffixTexts : ∀ suffix ∈ fileSuffixes, '\x00' ∉ suffix)
    (covers : ∀ values ∈ literals, ∀ line, matching line = true → containsAny values line = true)
    (nonempty : ∀ values ∈ literals, ∀ literal ∈ values, literal ≠ [])
    (members : ∀ file ∈ db.eligibleObjects volume (pathText names) location fileSuffixes,
      file.2 ∈ (db.tree volume).entries) :
    ∃ rows, db.searchedBlocks volume (pathText names) literals fileSuffixes =
        .ok (orderCandidates ((db.eligibleObjects volume (pathText names) location
          fileSuffixes).flatMap rows)) ∧
      ReadsBlocks db matching (db.eligibleObjects volume (pathText names) location fileSuffixes)
        rows := by
  unfold Database.searchedBlocks Database.searchCandidateBlocks
  dsimp only
  rw [bindTexts_patterns literalTexts suffixTexts, ok_bind,
    assertPath_of_canonical (canonicalPath_pathText valid), ok_bind, located]
  dsimp only [strict]
  rw [ok_bind]
  by_cases single : ∃ literal, literals = some [literal]
  · obtain ⟨literal, rfl⟩ := single
    exact ⟨_, rfl, readsBlocks_lines orderly (nonempty _ rfl literal (List.mem_singleton_self _))
      (covers _ rfl) members⟩
  · refine ⟨db.matchingBlocks volume (literalPatterns literals), ?_,
      readsBlocks_matching orderly covers members⟩
    cases literals with
    | none => rfl
    | some values =>
        cases values with
        | nil => rfl
        | cons first rest =>
            cases rest with
            | nil => exact absurd ⟨first, rfl⟩ single
            | cons second rest => rfl

/-- Each query takes the hits and reads their blocks. -/
theorem candidateBlocks_reads (orderly : Orderly db) (valid : Components names)
    (located : db.locateZone volume (pathText names) = some location) {root : Text}
    (normalized : normalize root = .ok (pathText names))
    (searchable : db.Searchable matching volume (pathText names) literals fileSuffixes)
    (covers : ∀ values ∈ literals, ∀ line, matching line = true → containsAny values line = true)
    (nonempty : ∀ values ∈ literals, ∀ literal ∈ values, literal ≠ []) :
    ∃ files rows, db.candidateBlocks volume root literals fileSuffixes =
        .ok (orderCandidates (files.flatMap rows)) ∧
      TakesHits db matching volume (pathText names) fileSuffixes files ∧
      ReadsBlocks db matching files rows := by
  have keys := orderly.sound.keys
  have shown : ∀ entry file, db.Hit matching volume fileSuffixes entry file →
      Within (pathText names) file.path → db.Shown volume file.path entry :=
    fun entry file hit below => (searchable.shown entry file hit below).1
  have searched (several : ¬ db.SearchesZone volume (pathText names) literals) :
      ∃ files rows, db.searchedBlocks volume (pathText names) literals fileSuffixes =
          .ok (orderCandidates (files.flatMap rows)) ∧
        TakesHits db matching volume (pathText names) fileSuffixes files ∧
        ReadsBlocks db matching files rows := by
    have takes := takesHits_objects keys valid located (searchable.selects.resolve_left several) shown
    obtain ⟨rows, found, reads⟩ := searchedBlocks_reads orderly valid located
      searchable.literal_texts searchable.suffix_texts covers nonempty fun file member =>
        (takes.wanted file member).1
    exact ⟨_, rows, found, takes, reads⟩
  unfold Database.candidateBlocks
  rw [normalized, ok_bind]
  split
  · rename_i literal
    have scope : db.searchScope volume (pathText names) = .ok
        { toLocation := location
          hasDescendants := db.hasDescendants volume (pathText names) location.zoneId
          segmentIds := db.scopeSegments volume location } := by
      rw [Database.searchScope, located]
    rw [scope, ok_bind]
    dsimp only
    cases descendants : db.hasDescendants volume (pathText names) location.zoneId with
    | true =>
        rw [if_pos rfl]
        apply searched
        rintro ⟨-, single⟩
        rw [single location located] at descendants
        cases descendants
    | false =>
        have takes := takesHits_zone keys valid located descendants shown
        rw [if_neg Bool.false_ne_true, bindTexts_of_clean, ok_bind]
        · refine ⟨_, _, rfl, takes, readsBlocks_literal orderly (covers _ rfl) ?_⟩
          intro file member
          obtain ⟨entry, taken, rfl⟩ := List.mem_map.mp member
          obtain ⟨inTree, inZone, -, -, starts⟩ := mem_eligibleIn.mp taken
          exact ⟨inTree, inZone, starts⟩
        · exact List.forall_mem_cons.mpr ⟨searchable.literal_texts _ rfl literal
            (List.mem_singleton_self _), searchable.suffix_texts⟩
  · rename_i other
    apply searched
    rintro ⟨⟨values, isSome, one⟩, -⟩
    obtain ⟨literal, rfl⟩ := List.length_eq_one_iff.mp one
    exact other literal isSome

end Queries

theorem exists_location {db : Database} (keys : Keys db) {volume : Uuid}
    (known : volume ∈ db.volumes.map Volume.id) {names : List Text} (valid : Components names) :
    ∃ location, db.locateZone volume (pathText names) = some location := by
  obtain ⟨stored, member, rfl⟩ := List.mem_map.mp known
  obtain ⟨zone, zoneMember, inVolume, path⟩ := keys.root stored member
  exact locateZone_isSome (mem_tree_zones.mpr ⟨zoneMember, inVolume⟩)
    ((mem_ancestorPaths_iff valid _).mpr ⟨[], List.nil_prefix, path⟩)

/-- A recursive search prints the matching lines of all text files below its root, where the
files with such lines are found at their paths, are stored in blocks and are selected by the
patterns of the root, if the query evaluates any. -/
theorem grepRegexOutput_sendsMatches {Look : Type} {calls : RegexCalls Look}
    {looks : Look → Text → Text → Prop} {matching : Text → Text → Bool} {engine : GrepEngine}
    (lines : SearchesLines matching engine) {pattern : Text} {search : Bool → Searcher}
    (compiled : engine pattern = .ok search)
    (sequences : ∀ hir, calls.parse pattern = some hir → calls.SequencesCover looks hir)
    (parsed : MatchesParsed calls looks (matching pattern) pattern) {db : Database}
    (orderly : Orderly db) {volume : Uuid} (known : volume ∈ db.volumes.map Volume.id)
    {root path : Text} (normalized : normalize root = .ok path) {fileSuffixes : List Text}
    (searchable : db.Searchable (matching pattern) volume path (requiredLiterals calls pattern)
      fileSuffixes) (lineNumber : Bool) (pathPrefix : Text) :
    db.SendsMatches calls engine (matching pattern) volume root path pattern lineNumber pathPrefix
      fileSuffixes := by
  obtain ⟨-, -, names, found, rfl⟩ := normalize_eq_ok_iff.mp normalized
  have valid := components_of_resolved found
  obtain ⟨location, located⟩ := exists_location orderly.sound.keys known valid
  have covers : ∀ values ∈ requiredLiterals calls pattern, ∀ line, matching pattern line = true →
      containsAny values line = true :=
    fun values required line matched => containsAny_of_matching sequences parsed required matched
  obtain ⟨files, rows, queried, takes, reads⟩ := candidateBlocks_reads orderly valid located normalized
    searchable covers fun values required => requiredLiterals_nonempty required
  obtain ⟨printed, matched⟩ := orderCandidates_searched orderly takes reads searchable.shown lineNumber
    pathPrefix
  have searched := searchPrefixed_search lines compiled lineNumber
  unfold Database.SendsMatches Database.grepRegexOutput
  rw [BlockMatcher.new, compiled, ok_bind, ok_bind, queried, ok_bind, ← printed, ← matched]
  simp only [searched, List.flatMap_map, List.any_map]
  exact ⟨_, rfl, flatten_frames (by decide) _ _⟩

/-- What the regex libraries answer for patterns without special characters. -/
def plainCalls : RegexCalls Empty where
  parse pattern := some (.literal (convertTo pattern))
  extract
    | _, .literal bytes => some [bytes]
    | _, _ => none
  minimumLen _ := none
  escape pattern := pattern

section Plain

variable (looks : Empty → Text → Text → Prop)

theorem plainCalls_sequences (hir : Hir Empty) : plainCalls.SequencesCover looks hir := by
  intro kind found extracted before text after matched
  cases hir with
  | literal bytes =>
      dsimp only [plainCalls] at extracted
      obtain rfl := Option.some.inj extracted
      rw [Hir.Matches] at matched
      exact ⟨bytes, List.mem_singleton_self _, by rw [matched]⟩
  | _ => cases extracted

theorem plainCalls_parsed (pattern : Text) :
    MatchesParsed plainCalls looks (fun line => decide (pattern <:+: line)) pattern := by
  intro hir parsed line matched
  obtain ⟨before, after, whole⟩ := of_decide_eq_true matched
  obtain rfl := Option.some.inj parsed
  refine ⟨before, pattern, after, whole.symm, ?_⟩
  rw [Hir.Matches]

end Plain

/-- Two directories with a file each; the name of one matches the name of the other. -/
def twinCalls : List Op :=
  [.createVolume 7 ['v'] 0, .mkdir 7 "/a_".toList false 493 1, .mkdir 7 "/ab".toList false 493 2,
    .writeFile 7 "/a_/c".toList (convertTo "one\nhello\n".toList) 420 3,
    .writeFile 7 "/ab/c".toList (convertTo "hello\n".toList) 420 4]

theorem shown_of_ids {db : Database} {volume : Uuid} {path : Text} {entry : ZoneEntry}
    (ids : (db.stat volume path).toOption.map (fun inodes => inodes.map fun inode => inode.id) =
      some [entry.id]) : db.Shown volume path entry := by
  obtain ⟨inodes, stated, same⟩ := Option.map_eq_some_iff.mp ids
  obtain ⟨inode, rfl, id⟩ := List.map_eq_singleton_iff.mp same
  cases result : db.stat volume path with
  | error failure =>
      rw [result] at stated
      cases stated
  | ok rows =>
      rw [result] at stated
      cases stated
      exact ⟨inode, result, id⟩

/-- With one literal and no zone below the root, the pattern is not evaluated; without a literal,
it selects what lies below a root without special characters. -/
theorem grepRegexOutput_sendsMatches_twin :
    (∃ frames, (Database.empty.calls twinCalls).grepRegexOutput plainCalls literalEngine 7
        "/a_".toList "hello".toList true [] [] = .ok (frames, true) ∧
      frames.flatten = convertTo "/a_/c:2:hello\n".toList) ∧
    ∃ frames, (Database.empty.calls twinCalls).grepRegexOutput plainCalls literalEngine 7
        "/ab".toList ['h'] true [] [] = .ok (frames, true) ∧
      frames.flatten = convertTo "/ab/c:1:hello\n".toList := by
  have orderly : Orderly (Database.empty.calls twinCalls) :=
    orderly_of_reachable (reachable_calls twinCalls).byCalls
  have known : 7 ∈ (Database.empty.calls twinCalls).volumes.map Volume.id := by decide +kernel
  have sequences (pattern : Text) (hir : Hir Empty) (_ : plainCalls.parse pattern = some hir) :
      plainCalls.SequencesCover (fun assertion _ _ => assertion.elim) hir :=
    plainCalls_sequences _ hir
  have stored : ∀ entry ∈ ((Database.empty.calls twinCalls).tree 7).entries,
      ∀ file ∈ (Database.empty.calls twinCalls).textFile 7 entry,
        ((Database.empty.calls twinCalls).stat 7 file.path).toOption.map
            (fun inodes => inodes.map fun inode => inode.id) = some [entry.id] ∧
          entry.contentObject ≠ none := by
    decide +kernel
  constructor
  · have searchable : (Database.empty.calls twinCalls).Searchable
        (fun line => decide ("hello".toList <:+: line)) 7 "/a_".toList
        (requiredLiterals plainCalls "hello".toList) [] := by
      refine ⟨by decide +kernel, by decide, ?_,
        Or.inl (by unfold Database.SearchesZone; decide +kernel)⟩
      intro entry file hit below
      obtain ⟨shown, inBlocks⟩ := stored entry hit.1 file hit.2.1
      exact ⟨shown_of_ids shown, inBlocks⟩
    have searched : (Database.empty.calls twinCalls).searchedFiles 7 "/a_".toList [] =
        [{ path := "/a_/c".toList, name := ['c'], content := "one\nhello\n".toList }] := by
      decide +kernel
    have normalized : normalize "/a_".toList = .ok "/a_".toList := by decide +kernel
    obtain ⟨frames, sent, output⟩ := grepRegexOutput_sendsMatches searchesLines_literalEngine rfl
      (sequences _) (plainCalls_parsed _ "hello".toList) orderly known normalized searchable true []
    have found : hasMatch (fun line => decide ("hello".toList <:+: line))
        "one\nhello\n".toList = true := by
      decide +kernel
    rw [searched] at sent output
    refine ⟨frames, sent.trans ?_, output.trans (by decide +kernel)⟩
    rw [List.any_cons, found, Bool.true_or]
  · have state : WellFormedVolume (Database.empty.calls twinCalls) 7 :=
      wellFormed_calls (by decide +kernel)
    have searchable : (Database.empty.calls twinCalls).Searchable
        (fun line => decide (['h'] <:+: line)) 7 "/ab".toList (requiredLiterals plainCalls ['h'])
        [] :=
      searchable_of_plain state (by decide +kernel) (by decide +kernel) (by simp)
        fun entry file hit _ => (stored entry hit.1 file hit.2.1).2
    have searched : (Database.empty.calls twinCalls).searchedFiles 7 "/ab".toList [] =
        [{ path := "/ab/c".toList, name := ['c'], content := "hello\n".toList }] := by
      decide +kernel
    have normalized : normalize "/ab".toList = .ok "/ab".toList := by decide +kernel
    obtain ⟨frames, sent, output⟩ := grepRegexOutput_sendsMatches searchesLines_literalEngine rfl
      (sequences _) (plainCalls_parsed _ ['h']) orderly known normalized searchable true []
    have found : hasMatch (fun line => decide (['h'] <:+: line)) "hello\n".toList = true := by
      decide +kernel
    rw [searched] at sent output
    refine ⟨frames, sent.trans ?_, output.trans (by decide +kernel)⟩
    rw [List.any_cons, found, Bool.true_or]

/-- Without a literal the pattern of the root selects the files of the other directory as well. -/
theorem grepRegexOutput_not_complete :
    ¬ ∀ (calls : RegexCalls Empty) (looks : Empty → Text → Text → Prop)
        (matching : Text → Text → Bool) (engine : GrepEngine) (search : Bool → Searcher)
        (db : Database) (volume : Uuid) (root path pattern : Text) (lineNumber : Bool)
        (pathPrefix : Text) (fileSuffixes : List Text), SearchesLines matching engine →
      engine pattern = .ok search →
      (∀ hir, calls.parse pattern = some hir → calls.SequencesCover looks hir) →
      MatchesParsed calls looks (matching pattern) pattern → ReachableByCalls db →
      volume ∈ db.volumes.map Volume.id → normalize root = .ok path →
        db.SendsMatches calls engine (matching pattern) volume root path pattern lineNumber
          pathPrefix fileSuffixes := by
  intro every
  obtain ⟨frames, sent, output⟩ := every plainCalls (fun assertion _ _ => assertion.elim)
    (fun pattern line => decide (pattern <:+: line)) literalEngine _ (Database.empty.calls twinCalls) 7
    "/a_".toList "/a_".toList ['h'] true [] [] searchesLines_literalEngine rfl
    (fun hir _ => plainCalls_sequences _ hir) (plainCalls_parsed _ ['h'])
    (reachable_calls twinCalls).byCalls (by decide +kernel) (by decide +kernel)
  have printed : ((Database.empty.calls twinCalls).grepRegexOutput plainCalls literalEngine 7
      "/a_".toList ['h'] true [] []).toOption.map (fun result => result.1.flatten) =
        some (convertTo "/a_/c:2:hello\n/ab/c:1:hello\n".toList) := by
    decide +kernel
  rw [sent] at printed
  have bytes : frames.flatten = convertTo "/a_/c:2:hello\n/ab/c:1:hello\n".toList :=
    Option.some.inj printed
  rw [bytes] at output
  revert output
  decide +kernel

end PostgreOS
