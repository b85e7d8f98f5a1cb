/-
Reading files whole, in a batch and in ranges.

`Database::read` asks for one file. `read_many` and `cat` resolve the parents of all
paths first, each parent once, and join the paths back to them. The root has no parent,
so it is joined with nothing.
-/

import Mathlib.Data.List.Dedup
import PostgreOS.Normalizing
import PostgreOS.Places
import PostgreOS.Ranges

namespace PostgreOS

open Library.Outcome Library.Table

/-- `Database::read`. -/
def Database.read (db : Database) (volume : Uuid) (target : Text) : Result Bytes := do
  let target ← normalize target
  db.readFile volume target

/-- `requested JOIN locations`: each path with the location of its parent, where every
parent is located once. -/
def Database.requested (db : Database) (volume : Uuid) (paths : List Text) :
    List (Text × Location) :=
  let parents := (paths.map parentOf).dedup
  let locations := parents.filterMap fun parent =>
    (parent.bind (db.locateZone volume)).map fun location => (parent, location)
  paths.flatMap fun path =>
    (locations.filter fun row => row.1 = parentOf path).map fun row => (path, row.2)

/-- The content columns of an entry of kind file. -/
def ZoneEntry.fileColumns (entry : ZoneEntry) : Option (FileData × Option Uuid) :=
  match entry.payload with
  | .file data object => some (data, object)
  | _ => none

def Database.requestedFile (db : Database) (volume : Uuid) (row : Text × Location) :
    Option (FileData × Option Uuid) :=
  (db.entryAt volume (row.2.child (nameOf row.1))).bind ZoneEntry.fileColumns

/-- The row of `read_files` for a joined path. -/
def Database.readRow (db : Database) (volume : Uuid) (row : Text × Location) :
    Result (Text × Option Bytes) :=
  match db.requestedFile volume row with
  | none => .ok (row.1, none)
  | some (data, object) => (fun bytes => (row.1, some bytes)) <$> db.entryBytes data object

/-- The columns `path` and `data` of `pgos.read_files`. -/
def Database.readFiles (db : Database) (volume : Uuid) (targetPaths : List Text) :
    Result (List (Text × Option Bytes)) := do
  let cleanPaths ← targetPaths.mapM assertPath
  (db.requested volume cleanPaths).mapM (db.readRow volume)

/-- `row.data.with_context(..)`. -/
def expectData (row : Text × Option Bytes) : Result Bytes :=
  match row.2 with
  | some data => .ok data
  | none => raise "" "path % is not a regular file" [row.1]

/-- `Database::read_many`. -/
def Database.readMany (db : Database) (volume : Uuid) (targets : List Text) :
    Result (List Bytes) := do
  let targets ← targets.mapM normalize
  let rows ← db.readFiles volume targets
  rows.mapM expectData

/-- The data of a file in `cat_command_files`. -/
def Database.catData (db : Database) (data : FileData) : Option Uuid → Result Bytes
  | some object => db.entryBytes data (some object)
  | none => .ok data.bytes

/-- `pgos.cat_command_files`; locating a parent asserts its path. -/
def Database.catCommandFiles (db : Database) (volume : Uuid) (targetPaths : List Text) :
    Result Bytes :=
  if targetPaths.length = 0 then .ok []
  else do
    let _ ← (targetPaths.filterMap parentOf).dedup.mapM assertPath
    let files ← ((db.requested volume targetPaths).filterMap (db.requestedFile volume)).mapM
      fun file => db.catData file.1 file.2
    if files.length ≠ targetPaths.length then
      raise "P0002" "a path does not exist or is not a regular file" []
    else .ok files.flatten

/-- `Database::cat`. -/
def Database.cat (db : Database) (volume : Uuid) (targets : List Text) : Result Bytes := do
  let targets ← targets.mapM normalize
  db.catCommandFiles volume targets

/-- `Database::read_range`; the conversions are to `i64` and `i32`. -/
def Database.clientReadRange (db : Database) (volume : Uuid) (target : Text)
    (offset length : Nat) : Result Bytes := do
  let target ← normalize target
  if 2 ^ 63 ≤ offset ∨ 2 ^ 31 ≤ length then
    raise "" "out of range integral type conversion attempted" []
  else db.readRange volume target offset length

theorem canonicalPath_of_mapM {targets paths : List Text}
    (normal : targets.mapM normalize = .ok paths) : ∀ path ∈ paths, CanonicalPath path := by
  intro path member
  obtain ⟨target, -, same⟩ := exists_left_of_forall₂ _ (mapM_eq_ok.mp normal) member
  exact canonicalPath_of_normalize same

/-! ### Ranges -/

/-- A range of a file is the range of its bytes, cut off at its end. -/
theorem readRange_exact {db : Database} {volume : Uuid} {path : Text} {entry : ZoneEntry}
    {bytes : Bytes} (store : StoreSound db) (stored : Stored db.contentObjects entry)
    (canonical : CanonicalPath path)
    (found : (db.locateZone volume path).bind (db.entryAt volume) = some entry)
    (content : db.contentOf entry = some bytes) (start : Nat) {count : Nat}
    (limit : count ≤ 16777216) :
    bytes.length = entry.size ∧
      db.readRange volume path start count =
        .ok ((bytes.take (min (start + count) entry.size)).drop start) ∧
      (entry.size ≤ start → db.readRange volume path start count = .ok []) ∧
      ∀ target, normalize target = .ok path → start < 2 ^ 63 →
        db.clientReadRange volume target start count =
          .ok ((bytes.take (min (start + count) entry.size)).drop start) := by
  obtain ⟨-, size⟩ := bytewise_of_contentOf store stored content
  have range : (bytes.drop start).take count =
      (bytes.take (min (start + count) entry.size)).drop start := by
    rw [List.drop_take, List.take_eq_take_iff, List.length_drop, size]
    omega
  have read : db.readRange volume path start count = .ok ((bytes.drop start).take count) :=
    readRange_of_found store stored canonical found content limit
  rw [range] at read
  refine ⟨size, read, ?_, ?_⟩
  · intro past
    rw [read, List.drop_eq_nil_of_le]
    rw [List.length_take]
    omega
  · intro target normal small
    unfold Database.clientReadRange
    rw [normal, ok_bind, if_neg (by omega)]
    exact read

def accentCalls : List Op :=
  [.createVolume 7 ['v'] 0, .writeFile 7 ['/', 'a'] [104, 195, 169, 10] 420 1,
    .copy 7 ['/', 'a'] ['/', 'b'] false 2]

theorem readRange_exact_accent :
    (Database.empty.calls accentCalls).readRange 7 ['/', 'a'] 1 1 = .ok [195] := by
  have state : WellFormedVolume (Database.empty.calls accentCalls) 7 :=
    wellFormed_calls (by decide +kernel)
  have sound := state.committed.sound
  have found : ∃ entry, ((Database.empty.calls accentCalls).locateZone 7 ['/', 'a']).bind
      ((Database.empty.calls accentCalls).entryAt 7) = some entry ∧ entry.size = 4 ∧
      entry.contentObject ≠ none ∧
      (Database.empty.calls accentCalls).contentOf entry = some [104, 195, 169, 10] := by
    decide +kernel
  obtain ⟨entry, found, size, -, content⟩ := found
  obtain ⟨location, -, here⟩ := Option.bind_eq_some_iff.mp found
  have member := (mem_tree_entries.mp (mem_of_entryAt here).1).1
  have canonical : CanonicalPath ['/', 'a'] := rfl
  have limit : 1 ≤ 16777216 := by decide
  have range := readRange_exact sound.store (sound.stored entry member) canonical found content 1
    limit
  rw [size] at range
  exact range.2.1

/-! ### Single reads and batches -/

section Reads

variable {db : Database} {volume : Uuid}

def Database.fileAt (db : Database) (volume : Uuid) (path : Text) :
    Option (FileData × Option Uuid) :=
  ((db.locateZone volume path).bind (db.entryAt volume)).bind ZoneEntry.fileColumns

/-- A regular file that `read_file` returns whole. -/
def Database.Readable (db : Database) (volume : Uuid) (path : Text) : Prop :=
  ∃ entry, (db.locateZone volume path).bind (db.entryAt volume) = some entry ∧
    entry.kind = .file ∧ ¬ entry.Oversized

theorem catData_eq (data : FileData) (object : Option Uuid) :
    db.catData data object = db.entryBytes data object := by
  cases object with
  | none => rfl
  | some object => rfl

/-- What a requested path is joined with is the file at the path; the root is joined with
nothing, and nothing is stored at it. -/
theorem requestedFile_eq (wellFormed : (db.tree volume).WellFormed) {path : Text}
    (canonical : CanonicalPath path) :
    ((db.locateParent volume path).bind fun location =>
      db.requestedFile volume (path, location)) = db.fileAt volume path := by
  unfold Database.fileAt
  by_cases root : path = ['/']
  · subst root
    obtain ⟨zone, front, rest, located⟩ := wellFormed.located_exists components_nil
    obtain ⟨rfl, rfl⟩ := List.append_eq_nil_iff.mp located.names_eq.symm
    rw [← pathText_nil, locateZone_of_located wellFormed components_nil located, Option.bind_some,
      entryAt_zone wellFormed relativeText_nil]
    rfl
  · obtain ⟨location, located⟩ := locateParent_isSome wellFormed canonical root
    rw [← entryAt_child_of_parent wellFormed canonical located, located]
    rfl

theorem fileAt_root (wellFormed : (db.tree volume).WellFormed) : db.fileAt volume ['/'] = none := by
  have root : CanonicalPath ['/'] := rfl
  rw [← requestedFile_eq wellFormed root]
  rfl

theorem requested_eq (db : Database) (volume : Uuid) (paths : List Text) :
    db.requested volume paths = paths.filterMap fun path =>
      (db.locateParent volume path).map fun location => (path, location) := by
  unfold Database.requested
  rw [List.filterMap_eq_flatMap_toList]
  apply List.flatMap_congr
  intro path member
  rw [join_distinct (fun parent : Option Text => parent.bind (db.locateZone volume))
    (List.nodup_dedup _) (List.mem_dedup.mpr (List.mem_map_of_mem member))]
  unfold Database.locateParent
  cases (parentOf path).bind (db.locateZone volume) with
  | none => rfl
  | some location => rfl

theorem refused_iff {File : Type} {error : PgError} {bytes : Bytes} {property : File → Prop} :
    (.error error : Result Bytes) = .ok bytes ↔ ∃ file, none = some file ∧ property file := by
  constructor
  · intro done
    cases done
  · rintro ⟨file, missing, -⟩
    cases missing

/-- `read_file` gives the bytes of the file at a path. -/
theorem readFile_eq_ok_iff (wellFormed : (db.tree volume).WellFormed) {path : Text}
    (canonical : CanonicalPath path) {bytes : Bytes} :
    db.readFile volume path = .ok bytes ↔
      ∃ file, db.fileAt volume path = some file ∧ db.entryBytes file.1 file.2 = .ok bytes := by
  unfold Database.readFile Database.fileAt
  rw [assertPath_of_canonical canonical, ok_bind]
  cases located : db.locateZone volume path with
  | none =>
      exact refused_iff
  | some location =>
      rw [Option.bind_some, strict, ok_bind]
      by_cases root : location.relativePath = []
      · rw [if_pos root, entryAt_zone wellFormed root]
        exact refused_iff
      · rw [if_neg root]
        cases found : db.entryAt volume location with
        | none =>
            exact refused_iff
        | some entry =>
            rw [Option.map_some, Option.bind_some, ZoneEntry.fileColumns]
            cases entry.payload with
            | file data object =>
                constructor
                · intro done
                  exact ⟨(data, object), rfl, done⟩
                · rintro ⟨file, same, done⟩
                  obtain rfl := Option.some.inj same
                  exact done
            | directory =>
                exact refused_iff
            | symlink target =>
                exact refused_iff

theorem readRow_eq_ok_iff {row : Text × Location} {bytes : Bytes} :
    (∃ read, db.readRow volume row = .ok read ∧ expectData read = .ok bytes) ↔
      ∃ file, db.requestedFile volume row = some file ∧
        db.entryBytes file.1 file.2 = .ok bytes := by
  unfold Database.readRow
  cases joined : db.requestedFile volume row with
  | none =>
      constructor
      · rintro ⟨read, done, data⟩
        obtain rfl := Except.ok.inj done
        cases data
      · rintro ⟨file, impossible, -⟩
        cases impossible
  | some file =>
      constructor
      · rintro ⟨read, done, data⟩
        obtain ⟨found, loaded, rfl⟩ := map_eq_ok.mp done
        obtain rfl := Except.ok.inj data
        exact ⟨file, rfl, loaded⟩
      · rintro ⟨other, same, loaded⟩
        obtain rfl := Option.some.inj same
        exact ⟨_, map_eq_ok.mpr ⟨bytes, loaded, rfl⟩, rfl⟩

theorem readMany_eq_ok_iff (wellFormed : (db.tree volume).WellFormed) {targets : List Text}
    {results : List Bytes} :
    db.readMany volume targets = .ok results ↔
      ∃ paths, targets.mapM normalize = .ok paths ∧
        List.Forall₂ (fun path bytes => db.readFile volume path = .ok bytes)
          (paths.filter fun path => path ≠ ['/']) results := by
  unfold Database.readMany
  rw [bind_eq_ok]
  refine exists_congr fun paths => and_congr_right fun normal => ?_
  have canonical := canonicalPath_of_mapM normal
  unfold Database.readFiles
  rw [mapM_assertPath_eq_ok.mpr ⟨rfl, canonical⟩, ok_bind, bind_eq_ok, mapM_mapM_eq_ok,
    requested_eq]
  apply forall₂_filterMap_iff
  · intro path _ root
    obtain rfl : path = ['/'] := by simpa using root
    rfl
  · intro path member below
    obtain ⟨location, located⟩ :=
      locateParent_isSome wellFormed (canonical path member) (of_decide_eq_true below)
    refine ⟨(path, location), by rw [located]; rfl, fun bytes => ?_⟩
    rw [readRow_eq_ok_iff, readFile_eq_ok_iff wellFormed (canonical path member),
      ← requestedFile_eq wellFormed (canonical path member), located, Option.bind_some]

/-- `cat_command_files` counts the files that it joins. -/
theorem catCommandFiles_eq_ok_iff (wellFormed : (db.tree volume).WellFormed) {paths : List Text}
    (canonical : ∀ path ∈ paths, CanonicalPath path) {whole : Bytes} :
    db.catCommandFiles volume paths = .ok whole ↔
      ∃ results, List.Forall₂ (fun path bytes => db.readFile volume path = .ok bytes) paths results ∧
        whole = results.flatten := by
  have joined : (db.requested volume paths).filterMap (db.requestedFile volume) =
      paths.filterMap (db.fileAt volume) := by
    rw [requested_eq, List.filterMap_filterMap]
    apply List.filterMap_congr
    intro path member
    rw [Option.bind_map, ← requestedFile_eq wellFormed (canonical path member)]
    rfl
  have each (present : ∀ path ∈ paths, (db.fileAt volume path).isSome) (results : List Bytes) :
      List.Forall₂ (fun file bytes => db.catData file.1 file.2 = .ok bytes)
          (paths.filterMap (db.fileAt volume)) results ↔
        List.Forall₂ (fun path bytes => db.readFile volume path = .ok bytes) paths results := by
    conv_rhs => rw [← List.filter_true paths]
    apply forall₂_filterMap_iff
    · intro path _ impossible
      cases impossible
    · intro path member _
      obtain ⟨file, found⟩ := Option.isSome_iff_exists.mp (present path member)
      refine ⟨file, found, fun bytes => ?_⟩
      rw [catData_eq, readFile_eq_ok_iff wellFormed (canonical path member), found]
      constructor
      · exact fun loaded => ⟨file, rfl, loaded⟩
      · rintro ⟨other, same, loaded⟩
        obtain rfl := Option.some.inj same
        exact loaded
  have parents : (paths.filterMap parentOf).dedup.mapM assertPath =
      .ok (paths.filterMap parentOf).dedup := by
    refine mapM_assertPath_eq_ok.mpr ⟨rfl, fun parent member => ?_⟩
    obtain ⟨path, pathMember, above⟩ := List.mem_filterMap.mp (List.mem_dedup.mp member)
    exact canonicalPath_of_parentOf (canonical path pathMember) above
  unfold Database.catCommandFiles
  by_cases empty : paths.length = 0
  · obtain rfl := List.length_eq_zero_iff.mp empty
    rw [if_pos List.length_nil]
    constructor
    · intro done
      exact ⟨[], .nil, (Except.ok.inj done).symm⟩
    · rintro ⟨results, none, rfl⟩
      cases none
      rfl
  · rw [if_neg empty, parents, ok_bind, bind_eq_ok, joined]
    simp only [mapM_eq_ok]
    constructor
    · rintro ⟨files, loaded, counted⟩
      split at counted
      · cases counted
      · rename_i all
        rw [not_not, ← loaded.length_eq, List.filterMap_length_eq_length] at all
        exact ⟨files, (each all files).mp loaded, (Except.ok.inj counted).symm⟩
    · rintro ⟨results, reads, rfl⟩
      have present : ∀ path ∈ paths, (db.fileAt volume path).isSome := by
        intro path member
        obtain ⟨bytes, -, read⟩ := exists_right_of_forall₂ reads member
        obtain ⟨file, found, -⟩ :=
          (readFile_eq_ok_iff wellFormed (canonical path member)).mp read
        rw [found]
        rfl
      refine ⟨results, (each present results).mpr reads, ?_⟩
      rw [if_neg (not_not.mpr reads.length_eq.symm)]

theorem forall₂_read_iff {targets : List Text} {results : List Bytes} :
    List.Forall₂ (fun target bytes => db.read volume target = .ok bytes) targets results ↔
      ∃ paths, targets.mapM normalize = .ok paths ∧
        List.Forall₂ (fun path bytes => db.readFile volume path = .ok bytes) paths results := by
  unfold Database.read
  simp only [bind_eq_ok, ← mapM_mapM_eq_ok, ← mapM_eq_ok]

theorem cat_eq_ok_iff (wellFormed : (db.tree volume).WellFormed) {targets : List Text}
    {whole : Bytes} :
    db.cat volume targets = .ok whole ↔
      ∃ results, List.Forall₂ (fun target bytes => db.read volume target = .ok bytes) targets
        results ∧ whole = results.flatten := by
  unfold Database.cat
  simp only [bind_eq_ok, forall₂_read_iff]
  constructor
  · rintro ⟨paths, normal, done⟩
    obtain ⟨results, reads, rfl⟩ :=
      (catCommandFiles_eq_ok_iff wellFormed (canonicalPath_of_mapM normal)).mp done
    exact ⟨results, ⟨paths, normal, reads⟩, rfl⟩
  · rintro ⟨results, ⟨paths, normal, reads⟩, rfl⟩
    exact ⟨paths, normal, (catCommandFiles_eq_ok_iff wellFormed (canonicalPath_of_mapM normal)).mpr
      ⟨results, reads, rfl⟩⟩

theorem readFile_succeeds_iff (sound : Sound db) (wellFormed : (db.tree volume).WellFormed)
    {path : Text} (canonical : CanonicalPath path) :
    (∃ bytes, db.readFile volume path = .ok bytes) ↔ db.Readable volume path := by
  simp only [readFile_eq_ok_iff wellFormed canonical]
  unfold Database.fileAt Database.Readable
  cases found : (db.locateZone volume path).bind (db.entryAt volume) with
  | none => simp
  | some entry =>
      obtain ⟨location, -, here⟩ := Option.bind_eq_some_iff.mp found
      have member := (mem_tree_entries.mp (mem_of_entryAt here).1).1
      rw [Option.bind_some, ZoneEntry.fileColumns]
      simp only [Option.some.injEq, exists_eq_left']
      cases payload : entry.payload with
      | directory => simp [ZoneEntry.kind, Payload.kind, payload]
      | symlink target => simp [ZoneEntry.kind, Payload.kind, payload]
      | file data object =>
          have regular : entry.kind = .file := by rw [ZoneEntry.kind, payload, Payload.kind]
          obtain ⟨bytes, content⟩ : ∃ bytes, db.contentOf entry = some bytes :=
            contentOf_of_file regular
          simp only [Option.some.injEq, exists_eq_left', regular, true_and]
          rw [entryBytes_eq sound member payload content]
          by_cases large : entry.Oversized
          · rw [if_pos large]
            exact iff_of_false (by rintro ⟨other, impossible⟩; cases impossible) (not_not.mpr large)
          · rw [if_neg large]
            exact iff_of_true ⟨bytes, rfl⟩ large

/-- The batch reads return what the single reads return. -/
structure ReadsAgree (db : Database) (volume : Uuid) (targets : List Text) : Prop where
  many : ∀ results, db.readMany volume targets = .ok results ↔
    List.Forall₂ (fun target bytes => db.read volume target = .ok bytes) targets results
  cat : ∀ whole, db.cat volume targets = .ok whole ↔
    ∃ results, List.Forall₂ (fun target bytes => db.read volume target = .ok bytes) targets
      results ∧ whole = results.flatten

/-- They do so exactly when the root is not in the list or another path fails. -/
theorem readsAgree_iff (state : WellFormedVolume db volume) (targets : List Text) :
    ReadsAgree db volume targets ↔
      (∀ target ∈ targets, normalize target ≠ .ok ['/']) ∨
        ∃ target ∈ targets, ∀ path, normalize target = .ok path →
          path ≠ ['/'] ∧ ¬ db.Readable volume path := by
  have wellFormed := state.tree
  have sound := state.committed.sound
  have rootFails (bytes : Bytes) : db.readFile volume ['/'] ≠ .ok bytes := by
    intro read
    have root : CanonicalPath ['/'] := rfl
    obtain ⟨file, found, -⟩ := (readFile_eq_ok_iff wellFormed root).mp read
    rw [fileAt_root wellFormed] at found
    cases found
  constructor
  · intro agree
    by_contra neither
    push Not at neither
    obtain ⟨⟨target, member, root⟩, others⟩ := neither
    obtain ⟨paths, normal, each⟩ := exists_mapM targets normalize
      (fun _ path => path ≠ ['/'] → db.Readable volume path) others
    have canonical := canonicalPath_of_mapM normal
    obtain ⟨results, reads, -⟩ := exists_mapM (paths.filter fun path => path ≠ ['/'])
      (db.readFile volume) (fun _ _ => True) (by
        intro path kept
        obtain ⟨inPaths, below⟩ := List.mem_filter.mp kept
        obtain ⟨target, -, readable⟩ := exists_left_of_forall₂ _ each inPaths
        obtain ⟨bytes, read⟩ := (readFile_succeeds_iff sound wellFormed (canonical path inPaths)).mpr
          (readable (of_decide_eq_true below))
        exact ⟨bytes, read, trivial⟩)
    -- The batch reads the other paths, and the single read of the root fails.
    have batch := (readMany_eq_ok_iff wellFormed).mpr ⟨paths, normal, mapM_eq_ok.mp reads⟩
    obtain ⟨bytes, -, read⟩ := exists_right_of_forall₂ ((agree.many results).mp batch) member
    unfold Database.read at read
    rw [root, ok_bind] at read
    exact rootFails bytes read
  · intro condition
    refine ⟨fun results => ?_, fun whole => cat_eq_ok_iff wellFormed⟩
    rw [readMany_eq_ok_iff wellFormed, forall₂_read_iff]
    refine exists_congr fun paths => and_congr_right fun normal => ?_
    have each := mapM_eq_ok.mp normal
    rcases condition with noRoot | ⟨target, member, fails⟩
    · rw [List.filter_eq_self.mpr]
      intro path inPaths
      obtain ⟨target, member, same⟩ := exists_left_of_forall₂ _ each inPaths
      refine decide_eq_true fun root => ?_
      rw [root] at same
      exact noRoot target member same
    · obtain ⟨path, inPaths, same⟩ := exists_right_of_forall₂ each member
      obtain ⟨below, unreadable⟩ := fails path same
      have unread (bytes : Bytes) : db.readFile volume path ≠ .ok bytes := fun read =>
        unreadable ((readFile_succeeds_iff sound wellFormed
          (canonicalPath_of_normalize same)).mp ⟨bytes, read⟩)
      constructor
      · intro reads
        obtain ⟨bytes, -, read⟩ := exists_right_of_forall₂ reads
          (List.mem_filter.mpr ⟨inPaths, decide_eq_true below⟩)
        exact absurd read (unread bytes)
      · intro reads
        obtain ⟨bytes, -, read⟩ := exists_right_of_forall₂ reads inPaths
        exact absurd read (unread bytes)

end Reads

/-- A list with the root and a missing file fails either way; two files are read either way. -/
theorem readsAgree_of_missing :
    ReadsAgree (Database.empty.calls accentCalls) 7 [['/'], ['/', 'c'], ['/', 'a']] ∧
      (Database.empty.calls accentCalls).readMany 7 [['/', 'a'], ['/', 'b']] =
        .ok [[104, 195, 169, 10], [104, 195, 169, 10]] := by
  have state : WellFormedVolume (Database.empty.calls accentCalls) 7 :=
    wellFormed_calls (by decide +kernel)
  constructor
  · refine (readsAgree_iff state _).mpr (Or.inr ⟨['/', 'c'], by decide, ?_⟩)
    intro path normal
    have same : normalize ['/', 'c'] = .ok ['/', 'c'] := by decide +kernel
    obtain rfl := Except.ok.inj (same.symm.trans normal)
    have nothing : ((Database.empty.calls accentCalls).locateZone 7 ['/', 'c']).bind
        ((Database.empty.calls accentCalls).entryAt 7) = none := by decide +kernel
    refine ⟨by decide, ?_⟩
    rintro ⟨entry, found, -⟩
    rw [nothing] at found
    cases found
  · have agree : ReadsAgree (Database.empty.calls accentCalls) 7 [['/', 'a'], ['/', 'b']] :=
      (readsAgree_iff state _).mpr (Or.inl (by decide +kernel))
    refine (agree.many _).mpr (.cons ?_ (.cons ?_ .nil))
    · decide +kernel
    · decide +kernel

/-- `read_many(['/'])` returns no result instead of failing. -/
theorem reads_not_agree :
    ¬ ∀ (db : Database) (volume : Uuid) (targets : List Text), WellFormedVolume db volume →
      ReadsAgree db volume targets := by
  intro every
  have agree := every (Database.empty.calls accentCalls) 7 [['/']]
    (wellFormed_calls (by decide +kernel))
  have batch : (Database.empty.calls accentCalls).readMany 7 [['/']] = .ok [] := by decide +kernel
  have single := (agree.many []).mp batch
  cases single

end PostgreOS
