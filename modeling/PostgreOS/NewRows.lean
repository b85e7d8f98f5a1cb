/-
Rows that find room.

The constraints of the two tables refuse no row at a vacant path: a zone can be made there,
and a new zone can be filled with rows that differ in their relative paths.
-/

import PostgreOS.MkdirMany

namespace PostgreOS

open Library.Outcome Library.Table

section Rows

variable {db : Database} {volume : Uuid}

theorem volume_known (keys : Keys db) (wellFormed : (db.tree volume).WellFormed) :
    volume ∈ db.volumes.map Volume.id := by
  obtain ⟨root, member, -⟩ := wellFormed.root
  obtain ⟨inTable, rfl⟩ := mem_tree_zones.mp member
  exact keys.zone_volume root inTable

theorem zone_path_of_place (wellFormed : (db.tree volume).WellFormed) {path : Text}
    {location : Location} {zone other : ZoneNode} {upper rest : List Text} {name : Text}
    (place : (db.tree volume).Place path location zone upper rest name)
    (member : other ∈ (db.tree volume).zones)
    (points : other.parent = some (location.zoneId, location.relativePath))
    (named : other.name = nameOf path) : other.path = path := by
  have inner : other.path ≠ ['/'] := by
    intro root
    rw [wellFormed.root_parent other member root] at points
    cases points
  obtain ⟨parent, parentMember, relative, hangs, -, spelled, -⟩ :=
    wellFormed.zone_parent other member inner
  rw [hangs, Option.some.injEq, Prod.mk.injEq, place.location_eq] at points
  obtain ⟨same, rfl⟩ := points
  obtain rfl := wellFormed.zone_ids parent parentMember zone place.zoneAt.member same
  have above := place.zoneAt.valid.append place.valid.left
  rw [spelled, named, place.nameOf_eq, place.zoneAt.path,
    absolutePath_texts place.zoneAt.valid place.valid.left,
    absolutePath_name above (place.valid name (by simp)), place.path_eq, List.append_assoc]

theorem relativePath_eq {first second : Text} (hFirst : CanonicalRelative first)
    (hSecond : CanonicalRelative second) (parent : relativeParent first = relativeParent second)
    (name : relativeName first = relativeName second) : first = second := by
  obtain ⟨names, valid, nonempty, rfl⟩ := (canonicalRelative_iff first).mp hFirst
  obtain ⟨others, otherValid, otherNonempty, rfl⟩ := (canonicalRelative_iff second).mp hSecond
  obtain ⟨front, last, rfl⟩ := (List.eq_nil_or_concat' names).resolve_left nonempty
  obtain ⟨otherFront, otherLast, rfl⟩ := (List.eq_nil_or_concat' others).resolve_left otherNonempty
  rw [relativeParent_relativeText valid, relativeParent_relativeText otherValid] at parent
  rw [relativeName_relativeText valid, relativeName_relativeText otherValid] at name
  rw [relativeText_injective valid.left otherValid.left parent, name]

/-- A zone can be made at a vacant path. -/
theorem insertZone_vacant (keys : Keys db) (wellFormed : (db.tree volume).WellFormed)
    {path : Text} {location : Location} (vacant : Vacant db volume path location)
    {make : NodeId → ZoneNode}
    (columns : ∀ serial, (make serial).id = serial ∧ (make serial).volumeId = volume ∧
      (make serial).path = path ∧
      (make serial).parent = some (location.zoneId, location.relativePath) ∧
      (make serial).name = nameOf path) :
    ∃ after, db.insertZone make = .ok (after, db.nextNode) := by
  obtain ⟨zone, upper, rest, name, place, free⟩ := vacant.place wellFormed
  obtain ⟨id, inVolume, spelled, points, named⟩ := columns db.nextNode
  have apart (other : ZoneNode) (member : other ∈ db.zoneNodes) (same : other.volumeId = volume) :
      other.path ≠ path := by
    intro here
    exact free .directory (.zone ⟨mem_tree_zones.mpr ⟨member, same⟩, place.components,
      here.trans place.path_eq⟩)
  have distinct : Distinct zoneClash (db.zoneNodes ++ [make db.nextNode]) := by
    refine List.pairwise_append.mpr ⟨keys.zones_distinct, List.pairwise_singleton _ _, ?_⟩
    intro old member new newMember
    rw [List.mem_singleton.mp newMember]
    refine decide_eq_false ?_
    rw [id, inVolume, spelled, named]
    rintro (sameId | ⟨sameVolume, samePath | ⟨-, sameParent, sameName⟩⟩)
    · exact absurd sameId (Nat.ne_of_lt (keys.zone_bound old member))
    · exact apart old member sameVolume samePath
    · exact apart old member sameVolume (zone_path_of_place wellFormed place
        (mem_tree_zones.mpr ⟨member, sameVolume⟩) (sameParent.trans points) sameName)
  have stored : Distinct storedZoneClash (db.zones ++
      [{ toZoneNode := make db.nextNode, entryCount := 0, fileBytes := 0 }]) := by
    rw [distinct_storedZoneClash_iff, List.map_append]
    exact distinct
  unfold Database.insertZone
  dsimp only
  rw [if_neg (not_not.mpr (inVolume ▸ volume_known keys wellFormed)),
    (insertRows_eq_some_iff _ _ _ _).mpr ⟨rfl, stored⟩]
  exact ⟨_, by rw [id]⟩

/-! ### Rows that share a key -/

namespace Tree

variable {tree : Tree} {parent : ZoneNode} {upper rest : List Text} {name : Text}

/-- A row whose parent and name are those of its relative path. -/
structure Spelled (entry : ZoneEntry) : Prop where
  canonical : CanonicalRelative entry.relativePath
  parentPath : entry.parentPath = relativeParent entry.relativePath
  name : entry.name = relativeName entry.relativePath

theorem WellFormed.spelled (wellFormed : tree.WellFormed) {entry : ZoneEntry}
    (member : entry ∈ tree.entries) : Spelled entry :=
  ⟨wellFormed.entry_canonical entry member, wellFormed.entry_parent_path entry member,
    wellFormed.entry_name entry member⟩

theorem Arriving.spelled {added : List ZoneEntry} {row : ZoneEntry}
    (valid : Components (rest ++ [name])) (arriving : Arriving parent rest name added row) :
    Spelled row := by
  obtain ⟨-, parentPath, named, extra, extraValid, path, -⟩ := arriving
  refine ⟨?_, parentPath, named⟩
  rw [path]
  exact canonicalRelative_relativeText (valid.append extraValid) (by simp)

theorem Spelled.clash_iff {first second : ZoneEntry} (hFirst : Spelled first)
    (hSecond : Spelled second) : entryClash first second = true ↔
      first.volumeId = second.volumeId ∧ first.zoneId = second.zoneId ∧
        (first.id = second.id ∨ first.relativePath = second.relativePath) := by
  unfold entryClash
  rw [decide_eq_true_eq, hFirst.parentPath, hFirst.name, hSecond.parentPath, hSecond.name]
  refine and_congr_right fun _ => and_congr_right fun _ => or_congr_right ?_
  constructor
  · rintro (path | ⟨parent, name⟩)
    · exact path
    · exact relativePath_eq hFirst.canonical hSecond.canonical parent name
  · exact Or.inl

end Tree

/-- Rows with different relative paths that no row of their zone has can be inserted. -/
theorem insertSpelled_exists (keys : Keys db) {zoneId : NodeId}
    {makers : List (NodeId → ZoneEntry)}
    (columns : ∀ row ∈ makers, ∀ serial, (row serial).id = serial ∧
      (row serial).volumeId = volume ∧ (row serial).zoneId = zoneId ∧
      (row serial).relativePath = (row 0).relativePath ∧ Tree.Spelled (row serial))
    (paths : (makers.map fun row => (row 0).relativePath).Nodup)
    (apart : ∀ entry ∈ db.zoneEntries, entry.volumeId = volume → entry.zoneId = zoneId →
      Tree.Spelled entry ∧ ∀ row ∈ makers, entry.relativePath ≠ (row 0).relativePath) :
    ∃ after, db.insertEntries makers = .ok after := by
  refine insertEntries_exists_iff.mpr (List.pairwise_append.mpr ⟨keys.entries_distinct, ?_, ?_⟩)
  · rw [List.Nodup, List.pairwise_map] at paths
    refine (pairwise_numbered ?_ db.nextNode).mpr paths
    intro first hFirst second hSecond serial later before
    obtain ⟨id, inVolume, inZone, path, spelled⟩ := columns first hFirst serial
    obtain ⟨otherId, otherVolume, otherZone, otherPath, otherSpelled⟩ :=
      columns second hSecond later
    rw [← Bool.not_eq_true, spelled.clash_iff otherSpelled, id, inVolume, inZone, path, otherId,
      otherVolume, otherZone, otherPath, Ne, not_iff_not]
    constructor
    · intro shared
      exact shared.2.2.resolve_left (Nat.ne_of_lt before)
    · exact fun same => ⟨rfl, rfl, Or.inr same⟩
  · intro old oldMember new newMember
    obtain ⟨make, makeMember, serial, later, -, rfl⟩ := mem_numbered newMember
    obtain ⟨id, inVolume, inZone, path, spelled⟩ := columns make makeMember serial
    rw [Bool.eq_false_iff]
    intro clash
    obtain ⟨sameVolume, sameZone, -⟩ := of_decide_eq_true clash
    obtain ⟨oldSpelled, free⟩ :=
      apart old oldMember (sameVolume.trans inVolume) (sameZone.trans inZone)
    rcases ((oldSpelled.clash_iff spelled).mp clash).2.2 with sameId | samePath
    · have bound := keys.entry_bound old oldMember
      rw [sameId, id] at bound
      exact Nat.not_lt.mpr later bound
    · exact free make makeMember (samePath.trans path)

theorem fillZone_exists (keys : Keys db) {zoneId : NodeId}
    (empty : ∀ entry ∈ db.zoneEntries, entry.zoneId ≠ zoneId) {makers : List (NodeId → ZoneEntry)}
    (columns : ∀ row ∈ makers, ∀ serial, (row serial).id = serial ∧
      (row serial).volumeId = volume ∧ (row serial).zoneId = zoneId ∧
      (row serial).relativePath = (row 0).relativePath ∧ Tree.Spelled (row serial))
    (paths : (makers.map fun row => (row 0).relativePath).Nodup) :
    ∃ after, db.insertEntries makers = .ok after :=
  insertSpelled_exists keys columns paths fun entry member _ inZone =>
    absurd inZone (empty entry member)

namespace Tree

variable {tree : Tree} {parent : ZoneNode} {upper rest : List Text} {name : Text}

theorem WellFormed.arriving_path_ne (wellFormed : tree.WellFormed) {added : List ZoneEntry}
    {row other : ZoneEntry} (parentAt : tree.ZoneAt parent upper)
    (valid : Components (rest ++ [name])) (free : ∀ kind, ¬ tree.Has (upper ++ (rest ++ [name])) kind)
    (arriving : Arriving parent rest name added row) (member : other ∈ tree.entries)
    (inZone : row.zoneId = other.zoneId) : row.relativePath ≠ other.relativePath := by
  obtain ⟨rowZone, -, -, extra, extraValid, path, -⟩ := arriving
  intro same
  refine wellFormed.free_below free extra other.kind ?_
  rw [List.append_assoc]
  exact .entry ⟨parentAt, member, inZone.symm.trans rowZone, valid.append extraValid, by simp,
    same.symm.trans path⟩

theorem WellFormed.zone_eq_of_clash (wellFormed : tree.WellFormed) {first second : ZoneNode}
    (hFirst : first ∈ tree.zones) (hSecond : second ∈ tree.zones)
    (clash : zoneClash first second = true) : first = second := by
  rcases of_decide_eq_true clash with id | ⟨-, path | ⟨present, points, named⟩⟩
  · exact wellFormed.zone_ids first hFirst second hSecond id
  · exact wellFormed.zone_paths first hFirst second hSecond path
  · have inner {zone : ZoneNode} (member : zone ∈ tree.zones) (hangs : zone.parent ≠ none) :
        zone.path ≠ ['/'] :=
      fun root => hangs (wellFormed.root_parent zone member root)
    obtain ⟨above, aboveMember, relative, hangs, -, spelled, -⟩ :=
      wellFormed.zone_parent first hFirst (inner hFirst present)
    obtain ⟨other, otherMember, otherRelative, otherHangs, -, otherSpelled, -⟩ :=
      wellFormed.zone_parent second hSecond (inner hSecond (points ▸ present))
    rw [points, otherHangs, Option.some.injEq, Prod.mk.injEq] at hangs
    obtain ⟨sameId, rfl⟩ := hangs
    obtain rfl := wellFormed.zone_ids other otherMember above aboveMember sameId
    refine wellFormed.zone_paths first hFirst second hSecond ?_
    rw [spelled, otherSpelled, named]

end Tree

end Rows

end PostgreOS
