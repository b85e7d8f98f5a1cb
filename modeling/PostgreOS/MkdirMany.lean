/-
`pgos.mkdir_many` against calls of `pgos.mkdir`.

Without `parents` all directories are made by one insert. It checks the parents before
the statement and leaves it to the unique indexes of the entries to find what exists.
-/

import PostgreOS.MkdirSpec

namespace PostgreOS

open Library.Outcome Library.Table

/-- `pgos.mkdir` of each path in the order of the list, in one transaction. -/
def Database.mkdirEach (db : Database) (volume : Uuid) (targetPaths : List Text)
    (now : Timestamp) : Result Database :=
  targetPaths.foldlM (fun db targetPath => db.mkdir volume targetPath false 493 now) db

/-- The paths differ, have directories as parents, and no entry is at one of them. -/
def Database.CreatableTogether (db : Database) (volume : Uuid) (paths : List Text) : Prop :=
  paths.Nodup ∧ ∀ path ∈ paths, db.kindOfParent volume path = some .directory ∧
    (db.locateZone volume path).bind (db.entryAt volume) = none

/-- Each path is the root, or nothing is at it and its parent is a directory or comes before
it. -/
def Database.CreatableInOrder (db : Database) (volume : Uuid) : List Text → List Text → Prop
  | _, [] => True
  | earlier, path :: rest =>
      (path = ['/'] ∨ path ∉ earlier ∧ db.kindOf volume path = none ∧
        ∃ parent, parentOf path = some parent ∧
          (parent ∈ earlier ∨ db.kindOf volume parent = some .directory)) ∧
      db.CreatableInOrder volume (earlier ++ [path]) rest

/-- Both succeed or both fail, and what they leave is the same. -/
structure MkdirAgrees (db : Database) (volume : Uuid) (paths : List Text) (now : Timestamp) :
    Prop where
  succeeds : (∃ after, db.mkdirMany volume paths false now = .ok after) ↔
    ∃ after, db.mkdirEach volume paths now = .ok after
  same : ∀ after other, db.mkdirMany volume paths false now = .ok after →
    db.mkdirEach volume paths now = .ok other → after = other

section MkdirMany

variable {db after : Database} {volume : Uuid} {paths : List Text} {now : Timestamp}

theorem insertEntries_exists_iff {makers : List (NodeId → ZoneEntry)} :
    (∃ after, db.insertEntries makers = .ok after) ↔
      Distinct entryClash (db.zoneEntries ++ numbered db.nextNode makers) :=
  ⟨fun ⟨_, inserted⟩ => (insertEntries_ok inserted).2,
    fun distinct => ⟨_, insertEntries_of_distinct distinct⟩⟩

/-- New directories clash when they have the same path. -/
theorem entryClash_directories_iff (wellFormed : (db.tree volume).WellFormed)
    {first second : Text} {firstLocation secondLocation : Location} {firstZone secondZone : ZoneNode}
    {firstUpper firstRest secondUpper secondRest : List Text} {firstName secondName : Text}
    (firstPlace : (db.tree volume).Place first firstLocation firstZone firstUpper firstRest firstName)
    (secondPlace : (db.tree volume).Place second secondLocation secondZone secondUpper secondRest
      secondName)
    (firstLocated : db.locateParent volume first = some firstLocation)
    (secondLocated : db.locateParent volume second = some secondLocation) (now : Timestamp)
    {serial later : NodeId} (different : serial ≠ later) :
    entryClash (directoryEntry volume firstLocation (nameOf first) 493 now serial)
        (directoryEntry volume secondLocation (nameOf second) 493 now later) = true ↔
      first = second := by
  have firstIn := congrArg Location.zoneId firstPlace.location_eq
  have secondIn := congrArg Location.zoneId secondPlace.location_eq
  have firstInside := congrArg Location.relativePath firstPlace.location_eq
  have secondInside := congrArg Location.relativePath secondPlace.location_eq
  have firstChild := congrArg Location.relativePath firstPlace.child_eq
  have secondChild := congrArg Location.relativePath secondPlace.child_eq
  unfold entryClash
  rw [decide_eq_true_iff]
  constructor
  · rintro ⟨-, inZone, same⟩
    have zone_eq : firstZone = secondZone :=
      wellFormed.zone_ids _ firstPlace.zoneAt.member _ secondPlace.zoneAt.member
        (firstIn.symm.trans (inZone.trans secondIn))
    have upper_eq : firstUpper = secondUpper :=
      firstPlace.zoneAt.names_unique (zone_eq ▸ secondPlace.zoneAt)
    have inner_eq : firstRest ++ [firstName] = secondRest ++ [secondName] := by
      rcases same with sameId | sameChild | ⟨sameParent, sameName⟩
      · exact absurd sameId different
      · exact relativeText_injective firstPlace.valid secondPlace.valid
          (firstChild.symm.trans (sameChild.trans secondChild))
      · have rest_eq := relativeText_injective firstPlace.valid.left secondPlace.valid.left
          (firstInside.symm.trans (sameParent.trans secondInside))
        have name_eq : firstName = secondName :=
          firstPlace.nameOf_eq.symm.trans (sameName.trans secondPlace.nameOf_eq)
        rw [rest_eq, name_eq]
    rw [firstPlace.path_eq, secondPlace.path_eq, upper_eq, inner_eq]
  · rintro rfl
    obtain rfl := Option.some.inj (firstLocated.symm.trans secondLocated)
    exact ⟨rfl, rfl, Or.inr (Or.inl rfl)⟩

theorem mem_newDirectories {make : NodeId → ZoneEntry}
    (member : make ∈ db.newDirectories volume paths now) :
    ∃ path ∈ paths, ∃ location, db.locateParent volume path = some location ∧
      make = directoryEntry volume location (nameOf path) 493 now := by
  obtain ⟨path, pathMember, found⟩ := List.mem_filterMap.mp member
  obtain ⟨location, located, rfl⟩ := Option.map_eq_some_iff.mp found
  exact ⟨path, pathMember, location, located, rfl⟩

section Batch

variable (wellFormed : (db.tree volume).WellFormed) (canonical : ∀ path ∈ paths, CanonicalPath path)
  (parents : ∀ path ∈ paths, db.kindOfParent volume path = some .directory)

include wellFormed canonical parents

theorem place_of_mem {path : Text} (member : path ∈ paths) :
    ∃ location zone upper rest name, db.locateParent volume path = some location ∧
      (db.tree volume).Place path location zone upper rest name := by
  have below := ne_root_of_parent (parents path member)
  obtain ⟨location, located⟩ := locateParent_isSome wellFormed (canonical path member) below
  obtain ⟨zone, upper, rest, name, place⟩ :=
    place_of_parent wellFormed (canonical path member) (parents path member) located
  exact ⟨location, zone, upper, rest, name, located, place⟩

theorem distinct_newDirectories_iff (next : NodeId) :
    Distinct entryClash (numbered next (db.newDirectories volume paths now)) ↔ paths.Nodup := by
  have serials : ∀ first ∈ db.newDirectories volume paths now,
      ∀ second ∈ db.newDirectories volume paths now, ∀ serial later, serial < later →
        (entryClash (first serial) (second later) = false ↔
          entryClash (first 0) (second 1) = false) := by
    intro first hFirst second hSecond serial later above
    obtain ⟨path, -, location, -, rfl⟩ := mem_newDirectories hFirst
    obtain ⟨other, -, otherLocation, -, rfl⟩ := mem_newDirectories hSecond
    have apart : serial ≠ later := Nat.ne_of_lt above
    simp [entryClash, directoryEntry, apart]
  unfold Distinct
  rw [pairwise_numbered serials, Database.newDirectories, List.pairwise_filterMap, List.Nodup]
  apply List.Pairwise.iff_of_mem
  intro first second hFirst hSecond
  obtain ⟨firstLocation, _, _, _, _, firstLocated, firstPlace⟩ :=
    place_of_mem wellFormed canonical parents hFirst
  obtain ⟨secondLocation, _, _, _, _, secondLocated, secondPlace⟩ :=
    place_of_mem wellFormed canonical parents hSecond
  have clash := entryClash_directories_iff wellFormed firstPlace secondPlace firstLocated
    secondLocated now (by decide : 0 ≠ 1)
  rw [firstLocated, secondLocated, Ne, ← clash, Bool.not_eq_true]
  simp

/-- The new rows keep out of the way of the old ones if no entry has one of the paths. -/
theorem newDirectories_fresh_iff (keys : Keys db) :
    (∀ old ∈ db.zoneEntries, ∀ row ∈ numbered db.nextNode (db.newDirectories volume paths now),
      entryClash old row = false) ↔
    ∀ path ∈ paths, (db.locateZone volume path).bind (db.entryAt volume) = none := by
  constructor
  · intro fresh path member
    obtain ⟨location, zone, upper, rest, name, located, place⟩ :=
      place_of_mem wellFormed canonical parents member
    rw [← entryAt_child_of_parent wellFormed (canonical path member) located,
      Option.eq_none_iff_forall_ne_some]
    intro old found
    have stored := List.mem_of_find?_eq_some found
    have make : directoryEntry volume location (nameOf path) 493 now ∈
        db.newDirectories volume paths now :=
      List.mem_filterMap.mpr ⟨path, member, by rw [located]; rfl⟩
    obtain ⟨serial, above, row⟩ := exists_mem_numbered db.nextNode make
    have clash : entryClash old (directoryEntry volume location (nameOf path) 493 now serial) = true :=
      (entryClash_place_iff keys wellFormed place above rfl rfl rfl rfl rfl stored).mpr
        (List.find?_some found)
    rw [fresh old stored _ row] at clash
    cases clash
  · intro free old stored row rowMember
    obtain ⟨make, makeMember, serial, above, -, rfl⟩ := mem_numbered rowMember
    obtain ⟨path, member, location, located, rfl⟩ := mem_newDirectories makeMember
    obtain ⟨zone, upper, rest, name, place⟩ :=
      place_of_parent wellFormed (canonical path member) (parents path member) located
    have absent := free path member
    rw [← entryAt_child_of_parent wellFormed (canonical path member) located] at absent
    rw [Bool.eq_false_iff]
    intro clash
    exact List.find?_eq_none.mp absent old stored
      ((entryClash_place_iff keys wellFormed place above rfl rfl rfl rfl rfl stored).mp clash)

end Batch

theorem insertDirectories_exists_iff (keys : Keys db) (wellFormed : (db.tree volume).WellFormed)
    (canonical : ∀ path ∈ paths, CanonicalPath path)
    (parents : ∀ path ∈ paths, db.kindOfParent volume path = some .directory) (now : Timestamp) :
    (∃ after, db.insertEntries (db.newDirectories volume paths now) = .ok after) ↔
      paths.Nodup ∧ ∀ path ∈ paths, (db.locateZone volume path).bind (db.entryAt volume) = none := by
  rw [insertEntries_exists_iff, ← distinct_newDirectories_iff wellFormed canonical parents db.nextNode,
    ← newDirectories_fresh_iff wellFormed canonical parents keys]
  unfold Distinct
  rw [List.pairwise_append]
  exact and_iff_right keys.entries_distinct

theorem mkdirMany_exists_iff (keys : Keys db) (wellFormed : (db.tree volume).WellFormed)
    (canonical : ∀ path ∈ paths, CanonicalPath path) :
    (∃ after, db.mkdirMany volume paths false now = .ok after) ↔
      db.CreatableTogether volume paths := by
  constructor
  · rintro ⟨after, done⟩
    obtain ⟨present, inserted⟩ := mkdirMany_ok done
    have parents := fun path member => (present path member).2
    obtain ⟨nodup, free⟩ :=
      (insertDirectories_exists_iff keys wellFormed canonical parents now).mp ⟨after, inserted⟩
    exact ⟨nodup, fun path member => ⟨parents path member, free path member⟩⟩
  · rintro ⟨nodup, each⟩
    have parents := fun path member => (each path member).1
    obtain ⟨after, inserted⟩ :=
      (insertDirectories_exists_iff keys wellFormed canonical parents now).mpr
        ⟨nodup, fun path member => (each path member).2⟩
    refine ⟨after, ?_⟩
    unfold Database.mkdirMany
    rw [if_neg (by decide), mapM_assertPath_eq_ok.mpr ⟨rfl, canonical⟩, ok_bind, if_neg]
    · exact inserted
    · intro missing
      obtain ⟨path, member, notDirectory⟩ := List.any_eq_true.mp missing
      exact of_decide_eq_true notDirectory (parents path member)

/-! ### One call after the other -/

theorem mkdir_single_eq (db : Database) (volume : Uuid) (path : Text) (mode : Int) (now : Timestamp) :
    db.mkdir volume path false mode now = db.mkdirOne volume path mode now := by
  unfold Database.mkdir
  cases accepted : assertPath path with
  | error error =>
      unfold Database.mkdirOne
      rw [accepted]
      rfl
  | ok cleanPath =>
      obtain ⟨rfl, -⟩ := assertPath_eq_ok accepted
      rw [ok_bind]
      split
      · rename_i root
        unfold Database.mkdirOne
        rw [accepted, ok_bind, if_pos root]
      · rfl

theorem mkdirEach_cons (db : Database) (volume : Uuid) (path : Text) (rest : List Text)
    (now : Timestamp) :
    db.mkdirEach volume (path :: rest) now =
      db.mkdirOne volume path 493 now >>= fun middle => middle.mkdirEach volume rest now := by
  unfold Database.mkdirEach
  rw [List.foldlM_cons, mkdir_single_eq]

theorem insertEntries_nil (keys : Keys db) : db.insertEntries [] = .ok db := by
  rw [insertEntries_of_distinct]
  · have counters : zoneEntriesAfterInsert [] db.zones = db.zones := by
      apply List.map_id''
      intro zone
      change { zone with
        entryCount := zone.entryCount - 0 + 0
        fileBytes := zone.fileBytes - 0 + 0 } = zone
      simp
    rw [numbered, List.append_nil, counters]
    rfl
  · rw [numbered, List.append_nil]
    exact keys.entries_distinct

theorem mkdirEach_ok (sound : Sound db) (done : db.mkdirEach volume paths now = .ok after) :
    db.insertEntries (db.newDirectories volume paths now) = .ok after := by
  induction paths generalizing db with
  | nil =>
      obtain rfl := Except.ok.inj done
      exact insertEntries_nil sound.keys
  | cons path rest ih =>
      rw [mkdirEach_cons, bind_eq_ok] at done
      obtain ⟨middle, made, remaining⟩ := done
      have later := ih (mkdirOne_kept (.refl sound) made).sound remaining
      obtain ⟨rfl, rfl⟩ | ⟨location, vacant, inserted⟩ := mkdirOne_ok made
      · exact later
      · have rows : db.newDirectories volume (path :: rest) now =
            [directoryEntry volume location (nameOf path) 493 now] ++
              db.newDirectories volume rest now := by
          unfold Database.newDirectories
          rw [List.filterMap_cons, vacant.located]
          rfl
        have same : middle.newDirectories volume rest now = db.newDirectories volume rest now := by
          unfold Database.newDirectories
          simp only [locateParent_congr (zoneNodes_insertEntries inserted)]
        rw [rows, insertEntries_append, inserted, ok_bind, ← same]
        exact later

theorem mkdirOne_after_iff {current : Database} {earlier : List Text} {path : Text}
    (sound : Sound current) (wellFormed : (current.tree volume).WellFormed)
    (made : MadeDirectories db current volume earlier) (canonical : CanonicalPath path) :
    (∃ middle, current.mkdirOne volume path 493 now = .ok middle) ↔
      path = ['/'] ∨ path ∉ earlier ∧ db.kindOf volume path = none ∧
        ∃ parent, parentOf path = some parent ∧
          (parent ∈ earlier ∨ db.kindOf volume parent = some .directory) := by
  by_cases root : path = ['/']
  · refine iff_of_true ⟨current, ?_⟩ (Or.inl root)
    unfold Database.mkdirOne
    rw [assertPath_of_canonical canonical, ok_bind, if_pos root]
  · rw [mkdirOne_exists_iff sound.keys wellFormed canonical root, or_iff_right root, ← and_assoc]
    refine and_congr ?_ ?_
    · rw [made.kinds path canonical]
      by_cases old : path ∈ earlier
      · simp [old]
      · simp [old]
    · unfold Database.kindOfParent
      rw [Option.bind_eq_some_iff]
      refine exists_congr fun parent => and_congr_right fun above => ?_
      rw [made.kinds parent (canonicalPath_of_parentOf canonical above)]
      by_cases old : parent ∈ earlier
      · simp [old]
      · simp [old]

theorem mkdirEach_exists_iff {current : Database} {earlier : List Text} (sound : Sound current)
    (wellFormed : (current.tree volume).WellFormed)
    (made : MadeDirectories db current volume earlier)
    (canonical : ∀ path ∈ paths, CanonicalPath path) :
    (∃ after, current.mkdirEach volume paths now = .ok after) ↔
      db.CreatableInOrder volume earlier paths := by
  induction paths generalizing current earlier with
  | nil => exact iff_of_true ⟨current, rfl⟩ trivial
  | cons path rest ih =>
      rw [List.forall_mem_cons] at canonical
      have next {middle : Database} (step : current.mkdirOne volume path 493 now = .ok middle) :
          (∃ after, middle.mkdirEach volume rest now = .ok after) ↔
            db.CreatableInOrder volume (earlier ++ [path]) rest := by
        have still := mkdirOne_wellFormed sound wellFormed step
        exact ih (mkdirOne_kept (.refl sound) step).sound still
          (made.trans still (mkdirOne_made sound wellFormed canonical.1 step)) canonical.2
      simp only [mkdirEach_cons, bind_eq_ok]
      rw [Database.CreatableInOrder, ← mkdirOne_after_iff sound wellFormed made canonical.1]
      constructor
      · rintro ⟨after, middle, step, remaining⟩
        exact ⟨⟨middle, step⟩, (next step).mp ⟨after, remaining⟩⟩
      · rintro ⟨⟨middle, step⟩, others⟩
        obtain ⟨after, remaining⟩ := (next step).mpr others
        exact ⟨after, middle, step, remaining⟩

/-! ### Comparison -/

theorem CreatableInOrder.free {earlier : List Text} (creatable : db.CreatableInOrder volume earlier paths)
    (below : ∀ path ∈ paths, path ≠ ['/']) :
    paths.Nodup ∧ ∀ path ∈ paths, path ∉ earlier ∧ db.kindOf volume path = none := by
  induction paths generalizing earlier with
  | nil => exact ⟨.nil, fun _ member => absurd member List.not_mem_nil⟩
  | cons path rest ih =>
      rw [List.forall_mem_cons] at below
      obtain ⟨first, others⟩ := creatable
      obtain ⟨new, free, -⟩ := first.resolve_left below.1
      obtain ⟨nodup, each⟩ := ih others below.2
      refine ⟨List.nodup_cons.mpr ⟨fun member => ?_, nodup⟩, List.forall_mem_cons.mpr ⟨⟨new, free⟩, ?_⟩⟩
      · exact (each path member).1 (List.mem_append_right _ (List.mem_singleton_self path))
      · intro other member
        obtain ⟨otherNew, otherFree⟩ := each other member
        exact ⟨fun old => otherNew (List.mem_append_left _ old), otherFree⟩

theorem creatableInOrder_of_free {earlier : List Text} (nodup : paths.Nodup)
    (new : ∀ path ∈ paths, path ∉ earlier)
    (parents : ∀ path ∈ paths, db.kindOfParent volume path = some .directory)
    (free : ∀ path ∈ paths, db.kindOf volume path = none) :
    db.CreatableInOrder volume earlier paths := by
  induction paths generalizing earlier with
  | nil => trivial
  | cons path rest ih =>
      rw [List.nodup_cons] at nodup
      rw [List.forall_mem_cons] at new parents free
      obtain ⟨parent, above, directory⟩ := Option.bind_eq_some_iff.mp parents.1
      refine ⟨Or.inr ⟨new.1, free.1, parent, above, Or.inr directory⟩, ?_⟩
      refine ih nodup.2 (fun other member old => ?_) parents.2 free.2
      rcases List.mem_append.mp old with before | same
      · exact new.2 other member before
      · rw [List.mem_singleton.mp same] at member
        exact nodup.1 member

theorem entryAt_of_kindOf_none {path : Text} (free : db.kindOf volume path = none) :
    (db.locateZone volume path).bind (db.entryAt volume) = none := by
  unfold Database.kindOf at free
  cases located : db.locateZone volume path with
  | none => rfl
  | some location =>
      rw [located] at free
      dsimp only at free
      split at free
      · cases free
      · rw [Option.bind_some]
        exact Option.map_eq_none_iff.mp free

/-- The batch agrees with the calls unless the calls make something that the batch rejects,
the root or a child of a path of the list, or the batch makes an entry at the path of a
zone. -/
theorem mkdirMany_agrees_iff (state : WellFormedVolume db volume)
    (canonical : ∀ path ∈ paths, CanonicalPath path) (now : Timestamp) :
    MkdirAgrees db volume paths now ↔
      ¬ (db.CreatableInOrder volume [] paths ∧
        ∃ path ∈ paths, db.kindOfParent volume path ≠ some .directory) ∧
      ¬ (db.CreatableTogether volume paths ∧ ∃ path ∈ paths, db.kindOf volume path ≠ none) := by
  have wellFormed := state.tree
  have sound := state.committed.sound
  have batch : (∃ after, db.mkdirMany volume paths false now = .ok after) ↔
      db.CreatableTogether volume paths := mkdirMany_exists_iff sound.keys wellFormed canonical
  have each : (∃ after, db.mkdirEach volume paths now = .ok after) ↔
      db.CreatableInOrder volume [] paths :=
    mkdirEach_exists_iff sound wellFormed (.refl db volume) canonical
  have free (inOrder : db.CreatableInOrder volume [] paths)
      (parents : ∀ path ∈ paths, db.kindOfParent volume path = some .directory) :=
    CreatableInOrder.free inOrder fun path member => ne_root_of_parent (parents path member)
  constructor
  · intro agree
    have same := agree.succeeds
    rw [batch, each] at same
    constructor
    · rintro ⟨inOrder, path, member, orphan⟩
      exact orphan ((same.mpr inOrder).2 path member).1
    · rintro ⟨together, path, member, taken⟩
      exact taken ((free (same.mp together) fun other found => (together.2 other found).1).2 path
        member).2
  · rintro ⟨notRejected, notZone⟩
    push Not at notRejected notZone
    constructor
    · rw [batch, each]
      constructor
      · intro together
        exact creatableInOrder_of_free together.1 (fun _ _ => List.not_mem_nil)
          (fun path member => (together.2 path member).1) (notZone together)
      · intro inOrder
        obtain ⟨nodup, unused⟩ := free inOrder (notRejected inOrder)
        exact ⟨nodup, fun path member => ⟨notRejected inOrder path member,
          entryAt_of_kindOf_none (unused path member).2⟩⟩
    · intro after other batchOk eachOk
      exact Except.ok.inj ((mkdirMany_ok batchOk).2.symm.trans (mkdirEach_ok sound eachOk))

end MkdirMany

/-- Two new directories, which both make, and a taken path besides, at which both fail. -/
theorem mkdirMany_agrees_taken :
    (∃ after,
      (Database.empty.calls wildcardCalls).mkdirMany 7 [['/', 'x'], ['/', 'y']] false 4 = .ok after ∧
      (Database.empty.calls wildcardCalls).mkdirEach 7 [['/', 'x'], ['/', 'y']] 4 = .ok after) ∧
    MkdirAgrees (Database.empty.calls wildcardCalls) 7 [['/', 'x'], ['/', 'y'], ['/', 'a', '_']] 4 := by
  have state : WellFormedVolume (Database.empty.calls wildcardCalls) 7 :=
    wellFormed_calls (by decide +kernel)
  constructor
  · have agree : MkdirAgrees (Database.empty.calls wildcardCalls) 7 [['/', 'x'], ['/', 'y']] 4 :=
      (mkdirMany_agrees_iff state (by decide) 4).mpr
        ⟨fun orphaned => absurd orphaned.2 (by decide +kernel),
          fun taken => absurd taken.2 (by decide +kernel)⟩
    cases batch : (Database.empty.calls wildcardCalls).mkdirMany 7 [['/', 'x'], ['/', 'y']] false 4 with
    | error failure =>
        have made : ((Database.empty.calls wildcardCalls).mkdirMany 7 [['/', 'x'], ['/', 'y']] false
            4).isOk = true := by decide +kernel
        rw [batch] at made
        cases made
    | ok after =>
        obtain ⟨other, each⟩ := agree.succeeds.mp ⟨after, batch⟩
        obtain rfl := agree.same after other batch each
        exact ⟨after, rfl, each⟩
  · refine (mkdirMany_agrees_iff state (by decide) 4).mpr ⟨?_, ?_⟩
    · rintro ⟨-, orphans⟩
      revert orphans
      decide +kernel
    · rintro ⟨⟨-, each⟩, -⟩
      have taken := (each ['/', 'a', '_'] (by decide)).2
      revert taken
      decide +kernel

/-- `mkdir_many` of a directory and a child of it fails where the calls succeed. -/
theorem mkdirMany_not_agrees :
    ¬ ∀ (db : Database) (volume : Uuid) (paths : List Text) (now : Timestamp),
      WellFormedVolume db volume → paths ≠ [] → (∀ path ∈ paths, CanonicalPath path) →
        MkdirAgrees db volume paths now := by
  intro every
  have agree := every (Database.empty.calls wildcardCalls) 7 [['/', 'x'], ['/', 'x', '/', 'y']] 4
    (wellFormed_calls (by decide +kernel)) (by decide) (by decide)
  have made : ∃ after, (Database.empty.calls wildcardCalls).mkdirEach 7
      [['/', 'x'], ['/', 'x', '/', 'y']] 4 = .ok after := by
    cases done : (Database.empty.calls wildcardCalls).mkdirEach 7
        [['/', 'x'], ['/', 'x', '/', 'y']] 4 with
    | error failure =>
      have runs : ((Database.empty.calls wildcardCalls).mkdirEach 7
          [['/', 'x'], ['/', 'x', '/', 'y']] 4).toOption.isSome := by decide +kernel
      rw [done] at runs
      cases runs
    | ok after => exact ⟨after, rfl⟩
  obtain ⟨after, batch⟩ := agree.succeeds.mpr made
  have fails : ((Database.empty.calls wildcardCalls).mkdirMany 7
      [['/', 'x'], ['/', 'x', '/', 'y']] false 4).toOption = none := by decide +kernel
  rw [batch] at fails
  cases fails

end PostgreOS
