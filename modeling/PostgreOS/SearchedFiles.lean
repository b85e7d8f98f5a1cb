/-
The files of a recursive search.

The text files at or below a path are the entries of the zone of the path from the path on and
those of the zones below it. The query for a single zone compares the paths, and the other one
matches them as patterns; both take the right files where the patterns are exact and every file
is at the place to which its path leads.
-/

import PostgreOS.CandidateBlocks
import PostgreOS.PathAlgebra

namespace PostgreOS

open Library.LikePattern Library.LineBlocks Library.Ordering Library.Outcome Library.Table

/-- A text file with its content. -/
structure TextFile where
  path : Text
  name : Text
  content : Text
  deriving DecidableEq, Repr

def Database.textOf (db : Database) (entry : ZoneEntry) : Option Text :=
  entry.textContent.map fun inlineText => (entry.contentObject.map db.objectText).getD inlineText

def Database.textFile (db : Database) (volume : Uuid) (entry : ZoneEntry) : Option TextFile :=
  ((db.tree volume).zones.find? fun zone => zone.id = entry.zoneId).bind fun zone =>
    (db.textOf entry).map fun content =>
      { path := absolutePath zone.path entry.relativePath, name := entry.name, content := content }

/-- The name ends with one of the suffixes, if there are any. -/
def EndsWithOne (fileSuffixes : List Text) (name : Text) : Prop :=
  fileSuffixes = [] ∨ ∃ suffix ∈ fileSuffixes, suffix <:+ name

instance (fileSuffixes : List Text) (name : Text) : Decidable (EndsWithOne fileSuffixes name) :=
  inferInstanceAs (Decidable (_ ∨ ∃ suffix ∈ fileSuffixes, _))

/-- The text files at or below a path whose names are wanted, in the order of their paths. -/
def Database.searchedFiles (db : Database) (volume : Uuid) (path : Text)
    (fileSuffixes : List Text) : List TextFile :=
  (((db.tree volume).entries.filterMap (db.textFile volume)).filter fun file =>
    Within path file.path ∧ EndsWithOne fileSuffixes file.name).insertionSort
      fun first second => collateC first.path second.path

/-- The first query of `candidate_blocks` is followed by the one for a single zone. -/
def Database.SearchesZone (db : Database) (volume : Uuid) (path : Text)
    (literals : Option (List Text)) : Prop :=
  (∃ values ∈ literals, values.length = 1) ∧
    ∀ location ∈ db.locateZone volume path, db.hasDescendants volume path location.zoneId = false

/-- The pattern that selects an entry, or its zone, compares the paths. -/
def Database.PatternExact (db : Database) (volume : Uuid) (path : Text) (entry : ZoneEntry) : Prop :=
  ∀ location ∈ db.locateZone volume path,
    if entry.zoneId = location.zoneId then
      likeBelow location.relativePath entry.relativePath = true ↔
        Below location.relativePath entry.relativePath
    else ∀ zone ∈ (db.tree volume).zones, zone.id = entry.zoneId →
      (likeBelow path zone.path = true ↔ Below path zone.path)

/-- A text file of the volume that has a wanted name and a matching line. -/
def Database.Hit (db : Database) (matching : Text → Bool) (volume : Uuid)
    (fileSuffixes : List Text) (entry : ZoneEntry) (file : TextFile) : Prop :=
  entry ∈ (db.tree volume).entries ∧ db.textFile volume entry = some file ∧
    EndsWithOne fileSuffixes file.name ∧ hasMatch matching file.content = true

/-- `stat` of the path of an entry returns the entry. -/
def Database.Shown (db : Database) (volume : Uuid) (path : Text) (entry : ZoneEntry) : Prop :=
  ∃ inode, db.stat volume path = .ok [inode] ∧ inode.id = entry.id

section Places

variable {db : Database} {volume : Uuid}

/-- What lies below a path is in the zone of the path, or in a zone below the path. -/
theorem located_below (keys : Keys db) {root names : List Text} (hNames : Components names)
    (isPrefix : root <+: names) {above below : Location}
    (locatedRoot : db.locateZone volume (pathText root) = some above)
    (located : db.locateZone volume (pathText names) = some below) :
    (below.zoneId = above.zoneId ∧ ∃ inner rest, Components inner ∧ Components rest ∧
        above.relativePath = relativeText inner ∧ below.relativePath = relativeText rest ∧
        inner <+: rest) ∨
      below.zoneId ≠ above.zoneId ∧ ∃ zone ∈ (db.tree volume).zones, zone.id = below.zoneId ∧
        Within (pathText root) zone.path := by
  have hRoot := hNames.of_prefix isPrefix
  obtain ⟨upper, upperMember, front, inner, rfl, upperPath, rfl, upperLongest⟩ :=
    locateZone_components hRoot locatedRoot
  obtain ⟨zone, member, lower, rest, rfl, path, rfl, longest⟩ := locateZone_components hNames located
  have deeper : front <+: lower :=
    longest upper upperMember front ((List.prefix_append front inner).trans isPrefix) upperPath
  by_cases same : zone.id = upper.id
  · left
    obtain rfl := keys.zone_eq_of_id (mem_tree_zones.mp member).1 (mem_tree_zones.mp upperMember).1 same
    obtain rfl := pathText_injective hNames.left hRoot.left (path.symm.trans upperPath)
    exact ⟨rfl, inner, rest, hRoot.right, hNames.right, rfl, rfl,
      (List.prefix_append_right_inj lower).mp isPrefix⟩
  · right
    refine ⟨same, zone, member, rfl, ?_⟩
    rw [path, within_pathText_iff hRoot hNames.left]
    rcases List.prefix_or_prefix_of_prefix isPrefix (List.prefix_append lower rest) with
      below | above
    · exact below
    · -- The zone would contain the root and lie deeper than the zone of the root.
      have shallower := upperLongest zone member lower above path
      obtain rfl := deeper.eq_of_length_le shallower.length_le
      exact absurd (congrArg ZoneNode.id (keys.zone_eq_of_path (mem_tree_zones.mp member).1
        (mem_tree_zones.mp upperMember).1 ((mem_tree_zones.mp member).2.trans
          (mem_tree_zones.mp upperMember).2.symm) (path.trans upperPath.symm))) same

theorem within_absolutePath {root zonePath : Text} (canonical : CanonicalPath root)
    (inside : Within root zonePath) (relative : Text) :
    Within root (absolutePath zonePath relative) := by
  rcases inside with top | below
  · exact Or.inl top
  · unfold absolutePath
    split
    · exact Or.inr below
    · split
      · rename_i top
        subst top
        rcases below with same | ⟨rest, whole⟩
        · exact Or.inl same.symm
        · have length := congrArg List.length whole
          rw [List.length_append, List.length_append] at length
          have none_ : root = [] := List.eq_nil_of_length_eq_zero (by simp at length; omega)
          rw [none_] at canonical
          exact absurd canonical (by decide)
      · have slash : zonePath ++ '/' :: relative = (zonePath ++ ['/']) ++ relative := by
          rw [List.append_assoc]
          rfl
        rw [slash]
        exact Or.inr (Or.inr ((atOrBelow_iff.mp below).trans (List.prefix_append _ _)))

theorem atOrBelow_in_zone {zonePath root relative : Text} (nonempty : root ≠ [])
    (inside : AtOrBelow root relative) :
    AtOrBelow (absolutePath zonePath root) (absolutePath zonePath relative) := by
  obtain ⟨suffix, begins, rfl⟩ := inside.suffix
  rw [absolutePath_append nonempty]
  exact atOrBelow_append_iff.mpr begins

theorem within_of_inside {front inner : List Text} (valid : Components (front ++ inner))
    {relative : Text} (inside : relativeText inner = [] ∨ AtOrBelow (relativeText inner) relative) :
    Within (pathText (front ++ inner)) (absolutePath (pathText front) relative) := by
  by_cases top : inner = []
  · subst top
    rw [List.append_nil] at valid ⊢
    exact within_absolutePath (canonicalPath_pathText valid) (Or.inr (Or.inl rfl)) relative
  · have nonempty := relativeText_ne_nil valid.right top
    rw [← absolutePath_texts valid.left valid.right]
    exact Or.inr (atOrBelow_in_zone nonempty (inside.resolve_left nonempty))

theorem startsInRoot_iff {relativeRoot : Text} {entry : ZoneEntry} :
    startsInRoot relativeRoot entry = true ↔
      relativeRoot = [] ∨ AtOrBelow relativeRoot entry.relativePath := by
  simp [startsInRoot, AtOrBelow, Below, or_assoc]

theorem inRelativeRoot_iff {relativeRoot : Text} {entry : ZoneEntry} :
    inRelativeRoot relativeRoot entry = true ↔
      relativeRoot = [] ∨ entry.relativePath = relativeRoot ∨
        likeBelow relativeRoot entry.relativePath = true := by
  simp [inRelativeRoot, or_assoc]

theorem hasSuffix_iff {fileSuffixes : List Text} {name : Text} :
    hasSuffix fileSuffixes name = true ↔ EndsWithOne fileSuffixes name := by
  have ends (suffix : Text) : right name suffix.length = suffix ↔ suffix <:+ name := by
    rw [right, if_pos (Int.natCast_nonneg _), Int.toNat_natCast, List.suffix_iff_eq_drop]
    exact eq_comm
  simp [hasSuffix, EndsWithOne, ends]

end Places

/-! ### Text files -/

section TextFiles

variable {db : Database} {volume : Uuid} {entry : ZoneEntry} {file : TextFile}

theorem textFile_eq_some (keys : Keys db) (read : db.textFile volume entry = some file)
    {zone : ZoneNode} (member : zone ∈ (db.tree volume).zones) (inZone : zone.id = entry.zoneId) :
    file.path = absolutePath zone.path entry.relativePath ∧ file.name = entry.name ∧
      db.textOf entry = some file.content := by
  obtain ⟨other, found, text⟩ := Option.bind_eq_some_iff.mp read
  obtain ⟨content, isText, rfl⟩ := Option.map_eq_some_iff.mp text
  have sameZone : other.id = entry.zoneId := by simpa using List.find?_some found
  obtain rfl := keys.zone_eq_of_id (mem_tree_zones.mp member).1
    (mem_tree_zones.mp (List.mem_of_find?_eq_some found)).1 (inZone.trans sameZone.symm)
  exact ⟨rfl, rfl, isText⟩

theorem exists_zone_of_textFile (read : db.textFile volume entry = some file) :
    ∃ zone ∈ (db.tree volume).zones, zone.id = entry.zoneId := by
  obtain ⟨zone, found, -⟩ := Option.bind_eq_some_iff.mp read
  exact ⟨zone, List.mem_of_find?_eq_some found, by simpa using List.find?_some found⟩

theorem kind_of_textOf {content : Text} (isText : db.textOf entry = some content) :
    entry.kind = .file := by
  obtain ⟨inlineText, text, -⟩ := Option.map_eq_some_iff.mp isText
  unfold ZoneEntry.textContent at text
  rw [ZoneEntry.kind]
  split at text
  · rename_i payload
    rw [payload]
    rfl
  · cases text

/-- A row that `stat` shows is at the place to which its path leads. -/
theorem Database.Shown.located (keys : Keys db) (member : entry ∈ (db.tree volume).entries) {path : Text}
    (shown : db.Shown volume path entry) :
    ∃ location, CanonicalPath path ∧ db.locateZone volume path = some location ∧
      location.zoneId = entry.zoneId ∧ location.relativePath = entry.relativePath ∧
      entry.relativePath ≠ [] := by
  obtain ⟨inode, stated, same⟩ := shown
  obtain ⟨cleanPath, accepted, locating⟩ := bind_eq_ok.mp stated
  obtain ⟨rfl, canonical⟩ := assertPath_eq_ok accepted
  obtain ⟨location, found, listed⟩ := bind_eq_ok.mp locating
  refine ⟨location, canonical, strict_eq_ok.mp found, ?_⟩
  split at listed
  · have inRows : inode ∈ (db.zones.filter fun zone => zone.id = location.zoneId).map fun zone =>
        zoneInode zone.toZoneNode := by
      rw [Except.ok.inj listed]
      exact List.mem_singleton_self inode
    obtain ⟨zone, zoneMember, rfl⟩ := List.mem_map.mp inRows
    exact absurd same.symm (keys.ids_apart entry (mem_tree_entries.mp member).1 zone.toZoneNode
      (List.mem_map_of_mem (List.mem_of_mem_filter zoneMember)))
  · rename_i nonempty
    have inRows : inode ∈ (db.zoneEntries.filter (atLocation volume location)).map
        (entryInode location.zonePath) := by
      rw [Except.ok.inj listed]
      exact List.mem_singleton_self inode
    obtain ⟨other, otherMember, rfl⟩ := List.mem_map.mp inRows
    obtain ⟨stored, here⟩ := List.mem_filter.mp otherMember
    obtain rfl := keys.entry_eq_of_id stored (mem_tree_entries.mp member).1 same
    obtain ⟨-, inZone, relative⟩ := atLocation_iff.mp here
    exact ⟨inZone.symm, relative.symm, relative ▸ nonempty⟩

theorem Database.Shown.unique (keys : Keys db) {first second : ZoneEntry}
    (firstMember : first ∈ (db.tree volume).entries) (secondMember : second ∈ (db.tree volume).entries)
    {path : Text} (firstShown : db.Shown volume path first) (secondShown : db.Shown volume path second) :
    first = second := by
  obtain ⟨inode, stated, same⟩ := firstShown
  obtain ⟨other, again, sameOther⟩ := secondShown
  rw [stated] at again
  obtain rfl := (List.cons.inj (Except.ok.inj again)).1
  exact keys.entry_eq_of_id (mem_tree_entries.mp firstMember).1 (mem_tree_entries.mp secondMember).1
    (same.symm.trans sameOther)

theorem shown_of_wellFormed (keys : Keys db) (wellFormed : (db.tree volume).WellFormed)
    (member : entry ∈ (db.tree volume).entries) (read : db.textFile volume entry = some file) :
    db.Shown volume file.path entry := by
  obtain ⟨zone, front, rest, found⟩ := wellFormed.entryAt_of_mem member
  obtain ⟨path, -⟩ := textFile_eq_some keys read found.zoneAt.member found.inZone.symm
  refine ⟨entryInode zone.path entry, ?_, rfl⟩
  rw [path, found.zoneAt.path, found.path, absolutePath_texts found.zoneAt.valid found.valid,
    ← found.zoneAt.path]
  exact stat_of_entryAt keys wellFormed found

theorem patternExact_of_plain {path : Text} (plain : Plain path) (entry : ZoneEntry) :
    db.PatternExact volume path entry := by
  intro location located
  obtain ⟨zone, -, -, -, rfl⟩ := locateZone_eq_some located
  have inside : (relativeIn zone.path path).Sublist path := by
    unfold relativeIn
    split
    · exact List.nil_sublist path
    · split
      · exact List.dropWhile_sublist _
      · exact List.drop_sublist _ path
  dsimp only
  split
  · exact likeBelow_of_plain (fun symbol member => plain symbol (inside.subset member)) _
  · exact fun zone _ _ => likeBelow_of_plain plain zone.path

end TextFiles

/-! ### The files of a query -/

/-- Of the hits, a query takes those at or below the path, each with its path. -/
structure TakesHits (db : Database) (matching : Text → Bool) (volume : Uuid) (path : Text)
    (fileSuffixes : List Text) (files : List (Text × ZoneEntry)) : Prop where
  nodup : (files.map Prod.snd).Nodup
  wanted : ∀ file ∈ files, file.2 ∈ (db.tree volume).entries ∧
    EndsWithOne fileSuffixes file.2.name
  taken : ∀ entry file, db.Hit matching volume fileSuffixes entry file →
    (entry ∈ files.map Prod.snd ↔ Within path file.path)
  path : ∀ given entry file, db.Hit matching volume fileSuffixes entry file →
    (given, entry) ∈ files → given = file.path

section Selection

variable {db : Database} {matching : Text → Bool} {volume : Uuid} {names : List Text}
  {fileSuffixes : List Text} {location : Location} {entry : ZoneEntry} {file : TextFile}

theorem mem_eligibleIn {zone : NodeId} {inside : ZoneEntry → Bool} :
    entry ∈ db.eligibleIn volume fileSuffixes zone inside ↔
      entry ∈ (db.tree volume).entries ∧ entry.zoneId = zone ∧ entry.kind = .file ∧
        EndsWithOne fileSuffixes entry.name ∧ inside entry = true := by
  unfold Database.eligibleIn
  rw [List.mem_filter, decide_eq_true_eq, mem_tree_entries, hasSuffix_iff, and_assoc]

theorem Database.Hit.eligible (keys : Keys db) (hit : db.Hit matching volume fileSuffixes entry file) :
    entry.kind = .file ∧ EndsWithOne fileSuffixes entry.name := by
  obtain ⟨-, read, ends, -⟩ := hit
  obtain ⟨zone, member, inZone⟩ := exists_zone_of_textFile read
  obtain ⟨-, name, isText⟩ := textFile_eq_some keys read member inZone
  exact ⟨kind_of_textOf isText, name ▸ ends⟩

theorem within_of_located (keys : Keys db) (valid : Components names)
    (located : db.locateZone volume (pathText names) = some location)
    (read : db.textFile volume entry = some file) (inZone : entry.zoneId = location.zoneId)
    (inside : location.relativePath = [] ∨ AtOrBelow location.relativePath entry.relativePath) :
    file.path = absolutePath location.zonePath entry.relativePath ∧
      Within (pathText names) file.path := by
  obtain ⟨zone, member, front, rest, rfl, path, rfl, -⟩ := locateZone_components valid located
  obtain ⟨here, -⟩ := textFile_eq_some keys read member inZone.symm
  refine ⟨here, ?_⟩
  rw [here, path]
  exact within_of_inside valid inside

theorem place_of_within (keys : Keys db) (valid : Components names)
    (located : db.locateZone volume (pathText names) = some location)
    (member : entry ∈ (db.tree volume).entries) {path : Text} (shown : db.Shown volume path entry)
    (below : Within (pathText names) path) :
    (entry.zoneId = location.zoneId ∧
        (location.relativePath = [] ∨ AtOrBelow location.relativePath entry.relativePath)) ∨
      entry.zoneId ≠ location.zoneId ∧ ∃ zone ∈ (db.tree volume).zones, zone.id = entry.zoneId ∧
        Within (pathText names) zone.path := by
  obtain ⟨place, canonical, found, inZone, relative, -⟩ := shown.located keys member
  obtain ⟨lower, lowerValid, rfl⟩ := (canonicalPath_iff path).mp canonical
  rw [within_pathText_iff valid lowerValid] at below
  rw [← inZone, ← relative]
  obtain ⟨same, inner, rest, innerValid, restValid, above, here, isPrefix⟩ | other :=
    located_below keys lowerValid below located found
  · refine Or.inl ⟨same, ?_⟩
    rw [above, here]
    by_cases top : inner = []
    · exact Or.inl (by rw [top, relativeText_nil])
    · exact Or.inr ((atOrBelow_relativeText_iff innerValid restValid top).mpr isPrefix)
  · exact Or.inr other

theorem hasDescendants_of_zone {zone : ZoneNode} (member : zone ∈ (db.tree volume).zones)
    {path : Text} {located : NodeId} (other : zone.id ≠ located) (inside : Within path zone.path) :
    db.hasDescendants volume path located = true := by
  obtain ⟨stored, inVolume⟩ := mem_tree_zones.mp member
  obtain ⟨row, rowMember, rfl⟩ := List.mem_map.mp stored
  refine List.any_eq_true.mpr ⟨row, rowMember, decide_eq_true ⟨inVolume, other, ?_⟩⟩
  rw [List.isPrefixOf_iff_prefix]
  exact inside

/-- The query of a single zone. -/
theorem takesHits_zone (keys : Keys db) (valid : Components names)
    (located : db.locateZone volume (pathText names) = some location)
    (single : db.hasDescendants volume (pathText names) location.zoneId = false)
    (shown : ∀ entry file, db.Hit matching volume fileSuffixes entry file →
      Within (pathText names) file.path → db.Shown volume file.path entry) :
    TakesHits db matching volume (pathText names) fileSuffixes
      ((db.eligibleIn volume fileSuffixes location.zoneId
        (startsInRoot location.relativePath)).map fun entry =>
          (joinedPath location.zonePath entry.relativePath, entry)) := by
  have entries : (((db.eligibleIn volume fileSuffixes location.zoneId
      (startsInRoot location.relativePath)).map fun entry =>
        (joinedPath location.zonePath entry.relativePath, entry)).map Prod.snd) =
      db.eligibleIn volume fileSuffixes location.zoneId (startsInRoot location.relativePath) := by
    rw [List.map_map]
    exact List.map_id _
  have inside {entry : ZoneEntry} {file : TextFile}
      (hit : db.Hit matching volume fileSuffixes entry file)
      (taken : entry ∈ db.eligibleIn volume fileSuffixes location.zoneId
        (startsInRoot location.relativePath)) :
      file.path = absolutePath location.zonePath entry.relativePath ∧
        Within (pathText names) file.path := by
    obtain ⟨-, inZone, -, -, starts⟩ := mem_eligibleIn.mp taken
    exact within_of_located keys valid located hit.2.1 inZone (startsInRoot_iff.mp starts)
  refine ⟨?_, ?_, ?_, ?_⟩
  · rw [entries]
    exact keys.entry_ids.of_map.filter _
  · intro file member
    obtain ⟨entry, taken, rfl⟩ := List.mem_map.mp member
    obtain ⟨inTree, -, -, ends, -⟩ := mem_eligibleIn.mp taken
    exact ⟨inTree, ends⟩
  · intro entry file hit
    rw [entries]
    refine ⟨fun taken => (inside hit taken).2, fun below => ?_⟩
    obtain ⟨regular, ends⟩ := hit.eligible keys
    obtain ⟨inZone, here⟩ | ⟨other, zone, member, inZone, above⟩ :=
      place_of_within keys valid located hit.1 (shown entry file hit below) below
    · exact mem_eligibleIn.mpr ⟨hit.1, inZone, regular, ends, startsInRoot_iff.mpr here⟩
    · rw [hasDescendants_of_zone member (inZone.trans_ne other) above] at single
      cases single
  · intro given entry file hit member
    obtain ⟨other, taken, same⟩ := List.mem_map.mp member
    obtain ⟨rfl, rfl⟩ := Prod.mk.inj same
    obtain ⟨path, below⟩ := inside hit taken
    obtain ⟨-, -, -, -, -, nonempty⟩ := (shown other file hit below).located keys hit.1
    rw [path, joinedPath, absolutePath, if_neg nonempty]

theorem mem_eligibleObjects {path given : Text} :
    (given, entry) ∈ db.eligibleObjects volume path location fileSuffixes ↔
      (entry ∈ db.eligibleIn volume fileSuffixes location.zoneId
          (inRelativeRoot location.relativePath) ∧
        given = absolutePath location.zonePath entry.relativePath) ∨
      ∃ zone ∈ (db.tree volume).zones, (zone.id ≠ location.zoneId ∧ pickedZone path zone) ∧
        entry ∈ db.eligibleIn volume fileSuffixes zone.id (fun _ => true) ∧
          given = absolutePath zone.path entry.relativePath := by
  unfold Database.eligibleObjects
  rw [List.mem_append, List.mem_map, List.mem_flatMap]
  refine or_congr ?_ ?_
  · constructor
    · rintro ⟨other, member, same⟩
      obtain ⟨rfl, rfl⟩ := Prod.mk.inj same
      exact ⟨member, rfl⟩
    · rintro ⟨member, rfl⟩
      exact ⟨entry, member, rfl⟩
  · constructor
    · rintro ⟨zone, selected, inZone⟩
      obtain ⟨stored, chosen⟩ := List.mem_filter.mp selected
      obtain ⟨inVolume, other, picked⟩ := of_decide_eq_true chosen
      obtain ⟨found, member, same⟩ := List.mem_map.mp inZone
      obtain ⟨rfl, rfl⟩ := Prod.mk.inj same
      exact ⟨zone.toZoneNode, mem_tree_zones.mpr ⟨List.mem_map_of_mem stored, inVolume⟩,
        ⟨other, picked⟩, member, rfl⟩
    · rintro ⟨node, inTree, ⟨other, picked⟩, member, rfl⟩
      obtain ⟨stored, inVolume⟩ := mem_tree_zones.mp inTree
      obtain ⟨zone, zoneMember, rfl⟩ := List.mem_map.mp stored
      exact ⟨zone, List.mem_filter.mpr ⟨zoneMember, decide_eq_true ⟨inVolume, other, picked⟩⟩,
        List.mem_map.mpr ⟨entry, member, rfl⟩⟩

/-- No file comes twice. -/
theorem nodup_eligibleObjects (keys : Keys db) (path : Text) :
    ((db.eligibleObjects volume path location fileSuffixes).map Prod.snd).Nodup := by
  have entries (zone : NodeId) (zonePath : Text) (inside : ZoneEntry → Bool) :
      ((db.eligibleIn volume fileSuffixes zone inside).map fun entry =>
        (absolutePath zonePath entry.relativePath, entry)).map Prod.snd =
        db.eligibleIn volume fileSuffixes zone inside := by
    rw [List.map_map]
    exact List.map_id _
  have nodup (zone : NodeId) (inside : ZoneEntry → Bool) :
      (db.eligibleIn volume fileSuffixes zone inside).Nodup :=
    keys.entry_ids.of_map.filter _
  unfold Database.eligibleObjects
  rw [List.map_append, List.map_flatMap, entries]
  simp only [entries]
  refine List.nodup_append.mpr ⟨nodup _ _, List.nodup_flatMap.mpr ⟨fun zone _ => nodup _ _, ?_⟩, ?_⟩
  · have zones : ((db.zones.filter fun zone => zone.volumeId = volume ∧
        zone.id ≠ location.zoneId ∧ (path = ['/'] ∨ zone.path = path ∨
          likeBelow path zone.path = true)).map fun zone => zone.toZoneNode.id).Nodup :=
      keys.zone_ids.sublist (List.filter_sublist.map _)
    refine (List.pairwise_map.mp zones).imp ?_
    intro first second apart
    change List.Disjoint _ _
    rw [List.disjoint_left]
    intro entry inFirst inSecond
    exact apart ((mem_eligibleIn.mp inFirst).2.1.symm.trans (mem_eligibleIn.mp inSecond).2.1)
  · rintro first inLocated second inZones rfl
    obtain ⟨zone, selected, inZone⟩ := List.mem_flatMap.mp inZones
    obtain ⟨-, other, -⟩ := of_decide_eq_true (List.mem_filter.mp selected).2
    exact other ((mem_eligibleIn.mp inZone).2.1.symm.trans (mem_eligibleIn.mp inLocated).2.1)

theorem inRelativeRoot_iff_of_exact {relativeRoot : Text}
    (exactly : likeBelow relativeRoot entry.relativePath = true ↔
      Below relativeRoot entry.relativePath) :
    inRelativeRoot relativeRoot entry = true ↔
      relativeRoot = [] ∨ AtOrBelow relativeRoot entry.relativePath := by
  rw [inRelativeRoot_iff, exactly]
  rfl

/-- The query of `search_candidate_blocks`. -/
theorem takesHits_objects (keys : Keys db) (valid : Components names)
    (located : db.locateZone volume (pathText names) = some location)
    (exactly : ∀ entry file, db.Hit matching volume fileSuffixes entry file →
      db.PatternExact volume (pathText names) entry)
    (shown : ∀ entry file, db.Hit matching volume fileSuffixes entry file →
      Within (pathText names) file.path → db.Shown volume file.path entry) :
    TakesHits db matching volume (pathText names) fileSuffixes
      (db.eligibleObjects volume (pathText names) location fileSuffixes) := by
  have relative {entry : ZoneEntry} {file : TextFile}
      (hit : db.Hit matching volume fileSuffixes entry file) (inZone : entry.zoneId = location.zoneId) :
      inRelativeRoot location.relativePath entry = true ↔
        location.relativePath = [] ∨ AtOrBelow location.relativePath entry.relativePath := by
    have here := exactly entry file hit location located
    rw [if_pos inZone] at here
    exact inRelativeRoot_iff_of_exact here
  have picked {entry : ZoneEntry} {file : TextFile}
      (hit : db.Hit matching volume fileSuffixes entry file) (other : entry.zoneId ≠ location.zoneId)
      {zone : ZoneNode} (member : zone ∈ (db.tree volume).zones) (inZone : zone.id = entry.zoneId) :
      pickedZone (pathText names) zone ↔ Within (pathText names) zone.path := by
    have here := exactly entry file hit location located
    rw [if_neg other] at here
    unfold pickedZone
    rw [here zone member inZone]
    rfl
  have inside {given : Text} {entry : ZoneEntry} {file : TextFile}
      (hit : db.Hit matching volume fileSuffixes entry file)
      (taken : (given, entry) ∈ db.eligibleObjects volume (pathText names) location fileSuffixes) :
      given = file.path ∧ Within (pathText names) file.path := by
    obtain ⟨member, rfl⟩ | ⟨zone, member, ⟨other, chosen⟩, inFiles, rfl⟩ :=
      mem_eligibleObjects.mp taken
    · obtain ⟨-, inZone, -, -, starts⟩ := mem_eligibleIn.mp member
      obtain ⟨path, below⟩ := within_of_located keys valid located hit.2.1 inZone
        ((relative hit inZone).mp starts)
      exact ⟨path.symm, below⟩
    · have inZone := (mem_eligibleIn.mp inFiles).2.1
      obtain ⟨path, -⟩ := textFile_eq_some keys hit.2.1 member inZone.symm
      rw [path]
      exact ⟨rfl, within_absolutePath (canonicalPath_pathText valid)
        ((picked hit (inZone.trans_ne other) member inZone.symm).mp chosen) _⟩
  refine ⟨nodup_eligibleObjects keys _, ?_, ?_, fun given entry file hit taken => (inside hit taken).1⟩
  · rintro ⟨given, entry⟩ taken
    obtain ⟨member, -⟩ | ⟨zone, -, -, member, -⟩ := mem_eligibleObjects.mp taken
    · obtain ⟨inTree, -, -, ends, -⟩ := mem_eligibleIn.mp member
      exact ⟨inTree, ends⟩
    · obtain ⟨inTree, -, -, ends, -⟩ := mem_eligibleIn.mp member
      exact ⟨inTree, ends⟩
  · intro entry file hit
    constructor
    · intro member
      obtain ⟨⟨given, found⟩, taken, rfl⟩ := List.mem_map.mp member
      exact (inside hit taken).2
    · intro below
      obtain ⟨regular, ends⟩ := hit.eligible keys
      obtain ⟨inZone, here⟩ | ⟨other, zone, member, inZone, above⟩ :=
        place_of_within keys valid located hit.1 (shown entry file hit below) below
      · have taken := mem_eligibleIn.mpr ⟨hit.1, inZone, regular, ends, (relative hit inZone).mpr here⟩
        exact List.mem_map_of_mem (mem_eligibleObjects.mpr (Or.inl ⟨taken, rfl⟩))
      · have taken : entry ∈ db.eligibleIn volume fileSuffixes zone.id (fun _ => true) :=
          mem_eligibleIn.mpr ⟨hit.1, inZone.symm, regular, ends, rfl⟩
        exact List.mem_map_of_mem (mem_eligibleObjects.mpr (Or.inr ⟨zone, member,
          ⟨inZone.trans_ne other, (picked hit other member inZone).mpr above⟩, taken, rfl⟩))

end Selection

end PostgreOS
