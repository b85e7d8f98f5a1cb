/-
The three searches.

With no zone below the root of the search the output functions read one zone. Below `/`
the test for nested zones finds none, so what the other zones hold is left out there.
-/

import PostgreOS.Find
import PostgreOS.UsageSpec

namespace PostgreOS

open Library.Outcome Library.Table

def printedLines (pathPrefix : Text) (paths : List Text) : Bytes :=
  paths.flatMap fun path => convertTo (pathPrefix ++ path ++ ['\n'])

/-- The searches fail alike, or each returns the same paths in some order. -/
def Database.SearchesAgree (db : Database) (volume : Uuid) (path : Text)
    (namePattern : Option Text) (kindFilter : Option Int) (pathPrefix : Text) : Prop :=
  (∃ failure, db.findPaths volume path namePattern kindFilter = .error failure ∧
    db.findOutput volume path namePattern kindFilter pathPrefix = .error failure ∧
    db.findCommandOutput volume path namePattern kindFilter pathPrefix = .error failure) ∨
  ∃ paths ordered stored, db.findPaths volume path namePattern kindFilter = .ok paths ∧
    db.findOutput volume path namePattern kindFilter pathPrefix =
      .ok (printedLines pathPrefix ordered) ∧
    db.findCommandOutput volume path namePattern kindFilter pathPrefix =
      .ok (printedLines pathPrefix stored) ∧
    ordered.Perm paths ∧ stored.Perm paths

/-- Both clients fail alike, or print the same lines in some order. -/
def Database.ClientsAgree (db : Database) (volume : Uuid) (root : Text)
    (namePattern : Option Text) (kindFilter : Option Int) (pathPrefix : Text) : Prop :=
  (∃ failure,
    FileClient.daemon.findOutput db volume root namePattern kindFilter pathPrefix = .error failure ∧
    FileClient.direct.findOutput db volume root namePattern kindFilter pathPrefix = .error failure) ∨
  ∃ stored paths,
    FileClient.daemon.findOutput db volume root namePattern kindFilter pathPrefix =
      .ok (printedLines pathPrefix stored) ∧
    FileClient.direct.findOutput db volume root namePattern kindFilter pathPrefix =
      .ok (printedLines pathPrefix paths) ∧
    stored.Perm paths

/-- A search for files or for links from `/` that an entry outside the root zone satisfies. -/
def Database.SkipsZones (db : Database) (volume : Uuid) (path : Text)
    (namePattern : Option Text) (kindFilter : Option Int) : Prop :=
  path = ['/'] ∧ (kindFilter = some 1 ∨ kindFilter = some 3) ∧
    ∃ zone ∈ db.zoneNodes, zone.path ≠ ['/'] ∧ ∃ entry ∈ db.zoneEntries,
      entry.volumeId = volume ∧ entry.zoneId = zone.id ∧
        kindMatches kindFilter entry.kind = true ∧ nameMatches namePattern entry.name = true

instance (db : Database) (volume : Uuid) (path : Text) (namePattern : Option Text)
    (kindFilter : Option Int) : Decidable (db.SkipsZones volume path namePattern kindFilter) :=
  inferInstanceAs (Decidable (_ ∧ _ ∧ ∃ zone ∈ db.zoneNodes, _ ∧ ∃ entry ∈ db.zoneEntries, _))

theorem intercalate_newline (paths : List Text) (nonempty : paths ≠ []) :
    ['\n'].intercalate paths ++ ['\n'] = paths.flatMap (· ++ ['\n']) := by
  induction paths with
  | nil => exact absurd rfl nonempty
  | cons path rest ih =>
      cases rest with
      | nil => simp
      | cons next more =>
          rw [List.flatMap_cons, ← ih (List.cons_ne_nil _ _)]
          simp

theorem pathLines_eq (pathPrefix : Text) (paths : List Text) :
    pathLines pathPrefix paths = printedLines pathPrefix paths := by
  unfold pathLines printedLines
  split
  · rename_i empty
    rw [empty]
    rfl
  · rename_i nonempty
    rw [intercalate_newline _ (by simpa using nonempty), List.flatMap_map]
    clear nonempty
    induction paths with
    | nil => rfl
    | cons path rest ih => rw [List.flatMap_cons, List.flatMap_cons, convertTo_append, ih]

theorem printedLines_append (pathPrefix : Text) (first second : List Text) :
    printedLines pathPrefix (first ++ second) =
      printedLines pathPrefix first ++ printedLines pathPrefix second :=
  List.flatMap_append

theorem printedLines_eq_nil {pathPrefix : Text} {paths : List Text}
    (empty : printedLines pathPrefix paths = []) : paths = [] := by
  cases paths with
  | nil => rfl
  | cons path rest =>
      unfold printedLines at empty
      rw [List.flatMap_cons, convertTo_append] at empty
      have noLine := (List.append_eq_nil_iff.mp (List.append_eq_nil_iff.mp empty).1).2
      exact absurd noLine (by decide)

theorem printedLines_of_perm {pathPrefix : Text} {part missed whole : List Text}
    (same : printedLines pathPrefix part = printedLines pathPrefix whole)
    (perm : whole.Perm (part ++ missed)) : missed = [] := by
  have lengths := (List.Perm.flatMap_right
    (fun path => convertTo (pathPrefix ++ path ++ ['\n'])) perm).length_eq
  change (printedLines pathPrefix whole).length =
    (printedLines pathPrefix (part ++ missed)).length at lengths
  rw [← same, printedLines_append, List.length_append] at lengths
  have none : (printedLines pathPrefix missed).length = 0 := by omega
  exact printedLines_eq_nil (List.eq_nil_of_length_eq_zero none)

/-! ### One zone and all zones -/

/-- What a search returns of one selected zone. -/
def Database.wantedPaths (db : Database) (volume : Uuid) (namePattern : Option Text)
    (kindFilter : Option Int) (selected : Zone × Text) : List Text :=
  ((db.foundEntries volume selected).filter fun row =>
    kindMatches kindFilter row.kind && nameMatches namePattern row.name).map FoundPath.path

/-- What a search returns of the zones other than the located one. -/
def Database.nestedPaths (db : Database) (volume : Uuid) (cleanPath : Text) (location : Location)
    (namePattern : Option Text) (kindFilter : Option Int) : List Text :=
  ((db.selectedZones volume cleanPath location).filter fun selected =>
    selected.1.id ≠ location.zoneId).flatMap (db.wantedPaths volume namePattern kindFilter)

section Search

variable {db : Database} {volume : Uuid} {cleanPath : Text} {location : Location}
  {namePattern : Option Text} {kindFilter : Option Int}

theorem foundPaths_eq (files : kindFilter = some 1 ∨ kindFilter = some 3) :
    db.foundPaths volume cleanPath location namePattern kindFilter =
      (db.selectedZones volume cleanPath location).flatMap
        (db.wantedPaths volume namePattern kindFilter) := by
  have noDirectory : kindMatches kindFilter .directory = false := by
    rcases files with rfl | rfl <;> rfl
  unfold Database.foundPaths Database.found
  dsimp only
  rw [List.filter_append, List.filter_flatMap, List.map_append, List.map_flatMap]
  have noZones {rows : List FoundPath} (zones : ∀ row ∈ rows, row.kind = .directory) :
      rows.filter (fun row => kindMatches kindFilter row.kind && nameMatches namePattern row.name) =
        [] := by
    rw [List.filter_eq_nil_iff]
    intro row member
    simp [zones row member, noDirectory]
  rw [noZones, List.map_nil, List.nil_append]
  · rfl
  · intro row member
    obtain ⟨zone, -, rfl⟩ := List.mem_map.mp member
    rfl

theorem singleZonePaths_eq (files : kindFilter = some 1 ∨ kindFilter = some 3) {zone : Zone}
    (sameId : zone.id = location.zoneId) (samePath : zone.path = location.zonePath) :
    ((db.singleZoneEntries volume location namePattern kindFilter).map fun entry =>
      absolutePath location.zonePath entry.relativePath) =
        db.wantedPaths volume namePattern kindFilter (zone, location.relativePath) := by
  have wanted (kind : Kind) : kindMatches kindFilter kind = decide (some kind.code = kindFilter) := by
    rcases files with rfl | rfl <;> simp [kindMatches]
  unfold Database.wantedPaths Database.foundEntries Database.singleZoneEntries
  rw [List.filter_map, List.map_map, List.filter_filter, ← samePath, ← sameId]
  congr 1
  apply List.filter_congr
  intro entry _
  simp only [Function.comp, wanted]
  rw [Bool.eq_iff_iff]
  simp only [Bool.and_eq_true, decide_eq_true_eq]
  constructor
  · intro ⟨inVolume, inZone, kind, inside, name⟩
    exact ⟨⟨kind, name⟩, inVolume, inZone, inside⟩
  · intro ⟨⟨kind, name⟩, inVolume, inZone, inside⟩
    exact ⟨inVolume, inZone, kind, inside, name⟩

theorem zone_of_located (located : db.locateZone volume cleanPath = some location) :
    ∃ zone ∈ db.zones, zone.volumeId = volume ∧ zone.id = location.zoneId ∧
      zone.path = location.zonePath := by
  obtain ⟨node, member, -, -, rfl⟩ := locateZone_eq_some located
  obtain ⟨stored, inVolume⟩ := mem_tree_zones.mp member
  obtain ⟨zone, zoneMember, rfl⟩ := List.mem_map.mp stored
  exact ⟨zone, zoneMember, inVolume, rfl, rfl⟩

theorem selectedZones_located (keys : Keys db) {zone : Zone} (member : zone ∈ db.zones)
    (inVolume : zone.volumeId = volume) (sameId : zone.id = location.zoneId) :
    (db.selectedZones volume cleanPath location).filter
      (fun selected => selected.1.id = location.zoneId) = [(zone, location.relativePath)] := by
  unfold Database.selectedZones
  rw [List.filter_map, List.filter_filter]
  have alone : (db.zones.filter fun other =>
      ((fun selected : Zone × Text => decide (selected.1.id = location.zoneId)) ∘ fun zone =>
          (zone, if zone.id = location.zoneId then location.relativePath else [])) other &&
        decide (other.volumeId = volume ∧ (other.id = location.zoneId ∨ cleanPath = ['/'] ∨
          other.path = cleanPath ∨ likeBelow cleanPath other.path = true))) = [zone] := by
    apply filter_eq_singleton keys.zone_ids member
    · simp [sameId, inVolume]
    · intro other _ same
      simp only [Function.comp, Bool.and_eq_true, decide_eq_true_eq] at same
      exact same.1.trans sameId.symm
  rw [alone, List.map_singleton, if_pos sameId]

variable (namePattern) in
theorem foundPaths_perm (keys : Keys db) (files : kindFilter = some 1 ∨ kindFilter = some 3)
    (located : db.locateZone volume cleanPath = some location) :
    (db.foundPaths volume cleanPath location namePattern kindFilter).Perm
      (((db.singleZoneEntries volume location namePattern kindFilter).map fun entry =>
        absolutePath location.zonePath entry.relativePath) ++
          db.nestedPaths volume cleanPath location namePattern kindFilter) := by
  obtain ⟨zone, member, inVolume, sameId, samePath⟩ := zone_of_located located
  rw [foundPaths_eq files, singleZonePaths_eq files sameId samePath]
  have parts := List.filter_append_perm (fun selected : Zone × Text =>
    decide (selected.1.id = location.zoneId)) (db.selectedZones volume cleanPath location)
  have found := List.Perm.flatMap_right (db.wantedPaths volume namePattern kindFilter) parts
  rw [List.flatMap_append, selectedZones_located keys member inVolume sameId,
    List.flatMap_singleton] at found
  unfold Database.nestedPaths
  refine found.symm.trans (List.Perm.of_eq ?_)
  congr 2
  apply List.filter_congr
  intro selected _
  simp

theorem mem_wantedPaths {selected : Zone × Text} {path : Text} :
    path ∈ db.wantedPaths volume namePattern kindFilter selected ↔ ∃ entry ∈ db.zoneEntries,
      (entry.volumeId = volume ∧ entry.zoneId = selected.1.id ∧
        inRelativeRoot selected.2 entry = true) ∧
      (kindMatches kindFilter entry.kind = true ∧ nameMatches namePattern entry.name = true) ∧
      absolutePath selected.1.path entry.relativePath = path := by
  unfold Database.wantedPaths Database.foundEntries
  rw [List.filter_map, List.map_map, List.filter_filter, List.mem_map]
  simp only [List.mem_filter, Function.comp, Bool.and_eq_true, decide_eq_true_eq]
  constructor
  · intro ⟨entry, ⟨member, matching, inside⟩, same⟩
    exact ⟨entry, member, inside, matching, same⟩
  · intro ⟨entry, member, inside, matching, same⟩
    exact ⟨entry, ⟨member, matching, inside⟩, same⟩

/-- The test for nested zones overlooks them at `/` only. -/
theorem nestedPaths_eq_nil_iff (keys : Keys db) (canonical : CanonicalPath cleanPath)
    (files : kindFilter = some 1 ∨ kindFilter = some 3)
    (noZones : db.zonesLikeBelow volume cleanPath = [])
    (located : db.locateZone volume cleanPath = some location) :
    db.nestedPaths volume cleanPath location namePattern kindFilter = [] ↔
      ¬ db.SkipsZones volume cleanPath namePattern kindFilter := by
  have here {zone : Zone} (member : zone ∈ db.zones) (inVolume : zone.volumeId = volume)
      (path : zone.path = cleanPath) : zone.id = location.zoneId :=
    located_of_zone_path keys canonical located (List.mem_map_of_mem member) inVolume path
  unfold Database.nestedPaths
  rw [List.flatMap_eq_nil_iff]
  constructor
  · rintro nothing ⟨rfl, -, node, stored, inner, entry, member, inVolume, inZone, matching⟩
    obtain ⟨zone, zoneMember, rfl⟩ := List.mem_map.mp stored
    obtain ⟨owner, ownerMember, sameId, sameVolume⟩ := keys.entry_zone entry member
    rw [keys.zone_eq_of_id ownerMember stored (sameId.trans inZone)] at sameVolume
    obtain ⟨root, rootMember, rootVolume, rootId, rootPath⟩ :=
      zone_of_locatedAtRoot canonical located (locatedAtRoot_of_root located)
    have other : zone.id ≠ location.zoneId := by
      intro same
      exact inner (by rw [keys.zone_eq_of_id stored rootMember (same.trans rootId.symm), rootPath])
    have chosen : (zone, []) ∈ (db.selectedZones volume ['/'] location).filter fun selected =>
        selected.1.id ≠ location.zoneId := by
      refine List.mem_filter.mpr ⟨List.mem_map.mpr ⟨zone, List.mem_filter.mpr ⟨zoneMember, ?_⟩, ?_⟩, ?_⟩
      · simp [sameVolume.trans inVolume]
      · rw [if_neg other]
      · simpa using other
    have found : absolutePath zone.path entry.relativePath ∈
        db.wantedPaths volume namePattern kindFilter (zone, []) :=
      mem_wantedPaths.mpr ⟨entry, member, ⟨inVolume, inZone, rfl⟩, matching, rfl⟩
    rw [nothing _ chosen] at found
    cases found
  · intro complete selected chosen
    obtain ⟨picked, other⟩ := List.mem_filter.mp chosen
    obtain ⟨zone, zoneChosen, rfl⟩ := List.mem_map.mp picked
    obtain ⟨zoneMember, scope⟩ := List.mem_filter.mp zoneChosen
    simp only [decide_eq_true_eq] at scope other
    have inVolume := scope.1
    have notHere : zone.path ≠ cleanPath := fun path => other (here zoneMember inVolume path)
    have notBelow : likeBelow cleanPath zone.path ≠ true := by
      intro below
      exact List.filter_eq_nil_iff.mp noZones zone zoneMember (by simp [inVolume, below])
    have root : cleanPath = ['/'] := by
      rcases scope.2 with same | root | path | below
      · exact absurd same other
      · exact root
      · exact absurd path notHere
      · exact absurd below notBelow
    rw [List.eq_nil_iff_forall_not_mem]
    intro path found
    obtain ⟨entry, member, ⟨entryVolume, inZone, -⟩, matching, -⟩ := mem_wantedPaths.mp found
    exact complete ⟨root, files, zone.toZoneNode, List.mem_map_of_mem zoneMember, root ▸ notHere,
      entry, member, entryVolume, inZone, matching⟩

theorem singleZoneSearch_iff : db.singleZoneSearch volume cleanPath kindFilter = true ↔
    (kindFilter = some 1 ∨ kindFilter = some 3) ∧ db.zonesLikeBelow volume cleanPath = [] := by
  unfold Database.singleZoneSearch
  simp

theorem singleZoneSearch_of_skipsZones (keys : Keys db)
    (skips : db.SkipsZones volume cleanPath namePattern kindFilter) :
    db.singleZoneSearch volume cleanPath kindFilter = true := by
  obtain ⟨rfl, files, -⟩ := skips
  refine singleZoneSearch_iff.mpr ⟨files, List.filter_eq_nil_iff.mpr ?_⟩
  intro zone member
  simp [likeBelow_root_eq_false (keys.zone_path _ (List.mem_map_of_mem member))]

/-! ### The functions on a located path -/

variable {pathPrefix : Text}

variable (namePattern kindFilter) in
theorem findPaths_of_located (canonical : CanonicalPath cleanPath)
    (located : db.locateZone volume cleanPath = some location) :
    db.findPaths volume cleanPath namePattern kindFilter =
      .ok ((db.foundPaths volume cleanPath location namePattern kindFilter).insertionSort
        fun first second => collateC first second) := by
  unfold Database.findPaths
  rw [assertPath_of_canonical canonical, ok_bind, strict_eq_ok.mpr located, ok_bind]

variable (namePattern kindFilter pathPrefix) in
theorem findOutput_of_located (canonical : CanonicalPath cleanPath)
    (located : db.locateZone volume cleanPath = some location) :
    ∃ ordered, db.findOutput volume cleanPath namePattern kindFilter pathPrefix =
        .ok (printedLines pathPrefix ordered) ∧
      ordered.Perm (if db.singleZoneSearch volume cleanPath kindFilter then
        (db.singleZoneEntries volume location namePattern kindFilter).map fun entry =>
          absolutePath location.zonePath entry.relativePath
        else db.foundPaths volume cleanPath location namePattern kindFilter) := by
  unfold Database.findOutput
  rw [assertPath_of_canonical canonical, ok_bind, strict_eq_ok.mpr located, ok_bind]
  split
  · exact ⟨_, congrArg Except.ok (pathLines_eq pathPrefix _),
      (List.perm_insertionSort _ _).map _⟩
  · exact ⟨_, congrArg Except.ok (pathLines_eq pathPrefix _), List.perm_insertionSort _ _⟩

variable (namePattern kindFilter pathPrefix) in
theorem findCommandOutput_of_located (canonical : CanonicalPath cleanPath)
    (located : db.locateZone volume cleanPath = some location) :
    ∃ stored, db.findCommandOutput volume cleanPath namePattern kindFilter pathPrefix =
        .ok (printedLines pathPrefix stored) ∧
      stored.Perm (if db.singleZoneSearch volume cleanPath kindFilter then
        (db.singleZoneEntries volume location namePattern kindFilter).map fun entry =>
          absolutePath location.zonePath entry.relativePath
        else db.foundPaths volume cleanPath location namePattern kindFilter) := by
  unfold Database.findCommandOutput
  rw [assertPath_of_canonical canonical, ok_bind, strict_eq_ok.mpr located, ok_bind]
  split
  · exact ⟨_, congrArg Except.ok (pathLines_eq pathPrefix _), .refl _⟩
  · rename_i full
    obtain ⟨ordered, done, perm⟩ := findOutput_of_located namePattern kindFilter pathPrefix
      canonical located
    rw [if_neg full] at perm
    exact ⟨ordered, done, perm⟩

theorem searches_fail (absent : ¬ ∃ location, CanonicalPath cleanPath ∧
    db.locateZone volume cleanPath = some location) :
    ∃ failure, db.findPaths volume cleanPath namePattern kindFilter = .error failure ∧
      db.findOutput volume cleanPath namePattern kindFilter pathPrefix = .error failure ∧
      db.findCommandOutput volume cleanPath namePattern kindFilter pathPrefix = .error failure := by
  unfold Database.findPaths Database.findOutput Database.findCommandOutput
  cases accepted : assertPath cleanPath with
  | error failure => exact ⟨failure, rfl, rfl, rfl⟩
  | ok clean =>
      obtain ⟨rfl, canonical⟩ := assertPath_eq_ok accepted
      cases located : db.locateZone volume clean with
      | some location => exact absurd ⟨location, canonical, located⟩ absent
      | none =>
          simp only [ok_bind, located]
          exact ⟨_, rfl, rfl, rfl⟩

theorem shortcut_perm (keys : Keys db) (canonical : CanonicalPath cleanPath)
    (located : db.locateZone volume cleanPath = some location)
    (complete : ¬ db.SkipsZones volume cleanPath namePattern kindFilter) :
    (if db.singleZoneSearch volume cleanPath kindFilter then
        (db.singleZoneEntries volume location namePattern kindFilter).map fun entry =>
          absolutePath location.zonePath entry.relativePath
        else db.foundPaths volume cleanPath location namePattern kindFilter).Perm
      (db.foundPaths volume cleanPath location namePattern kindFilter) := by
  split
  · rename_i short
    obtain ⟨files, noZones⟩ := singleZoneSearch_iff.mp short
    have all := foundPaths_perm namePattern keys files located
    rw [(nestedPaths_eq_nil_iff keys canonical files noZones located).mpr complete,
      List.append_nil] at all
    exact all.symm
  · exact .refl _

end Search

section Clients

variable {db : Database} {volume : Uuid} {path root : Text} {namePattern : Option Text}
  {kindFilter : Option Int} {pathPrefix : Text}

theorem clientsAgree_of_searchesAgree
    (agree : db.SearchesAgree volume path namePattern kindFilter pathPrefix)
    (normal : ∀ target, normalize root = .ok target → target = path) :
    db.ClientsAgree volume root namePattern kindFilter pathPrefix := by
  unfold Database.ClientsAgree FileClient.findOutput
  cases normalized : normalize root with
  | error failure => exact Or.inl ⟨failure, rfl, rfl⟩
  | ok target =>
      obtain rfl := normal target normalized
      simp only [ok_bind]
      rcases agree with ⟨failure, paths, -, command⟩ |
        ⟨paths, ordered, stored, found, -, command, -, perm⟩
      · rw [paths, command]
        exact Or.inl ⟨failure, rfl, rfl⟩
      · rw [found, command]
        exact Or.inr ⟨stored, paths, rfl, rfl, perm⟩

end Clients

/-- The searches return the same paths unless the shortcut is taken at `/` although another
zone holds something that is searched for. -/
theorem find_agree_iff {db : Database} (reachable : ReachableDatabase db) (volume : Uuid)
    (path : Text) (namePattern : Option Text) (kindFilter : Option Int) (pathPrefix : Text) :
    (db.SearchesAgree volume path namePattern kindFilter pathPrefix ∧
      ∀ root, (∀ target, normalize root = .ok target → target = path) →
        db.ClientsAgree volume root namePattern kindFilter pathPrefix) ↔
      ¬ db.SkipsZones volume path namePattern kindFilter := by
  have keys := (committed_of_reachable reachable).sound.keys
  have clients : (db.SearchesAgree volume path namePattern kindFilter pathPrefix ∧
      ∀ root, (∀ target, normalize root = .ok target → target = path) →
        db.ClientsAgree volume root namePattern kindFilter pathPrefix) ↔
      db.SearchesAgree volume path namePattern kindFilter pathPrefix :=
    and_iff_left_of_imp fun agree _ normal => clientsAgree_of_searchesAgree agree normal
  rw [clients]
  by_cases present : ∃ location, CanonicalPath path ∧ db.locateZone volume path = some location
  · obtain ⟨location, canonical, located⟩ := present
    have paths := findPaths_of_located namePattern kindFilter canonical located
    obtain ⟨ordered, output, orderedPerm⟩ := findOutput_of_located namePattern kindFilter pathPrefix
      canonical located
    obtain ⟨stored, command, storedPerm⟩ := findCommandOutput_of_located namePattern kindFilter
      pathPrefix canonical located
    constructor
    · rintro (⟨failure, failed, -⟩ | ⟨found, -, printed, foundSome, -, printedSome, -, perm⟩) skips
      · rw [paths] at failed
        cases failed
      · obtain rfl := Except.ok.inj (paths.symm.trans foundSome)
        have lines := Except.ok.inj (command.symm.trans printedSome)
        have short := singleZoneSearch_of_skipsZones keys skips
        obtain ⟨files, noZones⟩ := singleZoneSearch_iff.mp short
        rw [if_pos short] at storedPerm
        have whole := (perm.trans (List.perm_insertionSort _ _)).trans
          (foundPaths_perm namePattern keys files located)
        have missed := printedLines_of_perm lines
          (whole.trans (storedPerm.symm.append_right _))
        exact (nestedPaths_eq_nil_iff keys canonical files noZones located).mp missed skips
    · intro complete
      have same := shortcut_perm keys canonical located complete
      have sorted := List.perm_insertionSort (fun first second => collateC first second = true)
        (db.foundPaths volume path location namePattern kindFilter)
      exact Or.inr ⟨_, ordered, stored, paths, output, command,
        (orderedPerm.trans same).trans sorted.symm, (storedPerm.trans same).trans sorted.symm⟩
  · refine iff_of_true (Or.inl (searches_fail present)) ?_
    rintro ⟨rfl, -, -, -, -, entry, member, inVolume, -⟩
    obtain ⟨location, located⟩ := locateZone_root_of_entry keys member inVolume
    exact present ⟨location, by decide, located⟩

/-- Directories are found in all zones. -/
theorem find_agree_of_zone :
    (Database.empty.calls fileZoneCalls).SearchesAgree 7 ['/'] none (some 2) ['.'] :=
  ((find_agree_iff (reachable_calls fileZoneCalls) 7 ['/'] none (some 2) ['.']).mpr
    (by decide)).1

/-- A search for files from `/` leaves out the imported file. -/
theorem find_not_agree :
    ¬ ∀ (db : Database) (volume : Uuid) (path : Text) (namePattern : Option Text)
        (kindFilter : Option Int) (pathPrefix : Text), ReachableDatabase db →
      db.SearchesAgree volume path namePattern kindFilter pathPrefix := by
  intro every
  have agree := every (Database.empty.calls fileZoneCalls) 7 ['/'] none (some 1) [] (reachable_calls _)
  have found : (Database.empty.calls fileZoneCalls).findPaths 7 ['/'] none (some 1) =
      .ok [['/', 'z', '/', 'f']] := by
    decide +kernel
  have printed : (Database.empty.calls fileZoneCalls).findCommandOutput 7 ['/'] none (some 1) [] =
      .ok [] := by
    decide +kernel
  rcases agree with ⟨failure, failed, -⟩ | ⟨paths, -, stored, foundSome, -, printedSome, -, perm⟩
  · rw [found] at failed
    cases failed
  · obtain rfl := Except.ok.inj (found.symm.trans foundSome)
    have none := printedLines_eq_nil (Except.ok.inj (printedSome.symm.trans printed))
    rw [none] at perm
    exact absurd perm.length_eq (by decide)

end PostgreOS
