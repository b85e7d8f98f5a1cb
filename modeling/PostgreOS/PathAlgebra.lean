/-
How the path functions fit together.

`locate_zone` splits a path into the path of a zone and a relative path, and the callers split
both again with `parent_of`, `name_of`, `relative_parent` and `relative_name`. Whatever the
zones are, the parts join to the path, and a node and its parent are in one zone unless the node
is the root of a zone.
-/

import PostgreOS.SubtreeQueries

namespace PostgreOS

open Library.Outcome Library.Segments

theorem exists_prefix_of_within {names : List Text} (valid : Components names) {upper : Text}
    (nonempty : upper ≠ []) (above : Within upper (pathText names)) :
    ∃ front, front <+: names ∧ upper = pathText front := by
  rcases above with rfl | rfl | below
  · exact ⟨[], List.nil_prefix, rfl⟩
  · exact ⟨names, List.prefix_rfl, rfl⟩
  · unfold Below at below
    by_cases top : names = []
    · subst top
      have shorter := below.length_le
      rw [List.length_append] at shorter
      have none_ : upper = [] := List.eq_nil_of_length_eq_zero (by simpa using shorter)
      exact absurd none_ nonempty
    · rw [pathText_of_ne_nil top] at below
      obtain ⟨front, isPrefix, rfl⟩ := exists_prefix_of_boundary '/' valid.segments below
      have some_ : front ≠ [] := by
        rintro rfl
        exact nonempty rfl
      exact ⟨front, isPrefix, (pathText_of_ne_nil some_).symm⟩

theorem within_pathText_iff {root names : List Text} (hRoot : Components root)
    (hNames : Components names) : Within (pathText root) (pathText names) ↔ root <+: names := by
  unfold Within
  by_cases top : root = []
  · subst top
    exact iff_of_true (Or.inl pathText_nil) List.nil_prefix
  · rw [or_iff_right (pathText_ne_root hRoot top)]
    exact atOrBelow_pathText_iff hRoot hNames top

theorem length_pathText_le {front names : List Text} (valid : Components names)
    (isPrefix : front <+: names) :
    pathText front = pathText names ∨ (pathText front).length < (pathText names).length := by
  obtain ⟨rest, rfl⟩ := isPrefix
  by_cases same : rest = []
  · exact Or.inl (by rw [same, List.append_nil])
  · exact Or.inr (pathText_length_lt front valid.right same)

/-! ### The zone of a path -/

section Locating

variable {db : Database} {volume : Uuid} {names : List Text}

theorem locateZone_components (valid : Components names) {location : Location}
    (located : db.locateZone volume (pathText names) = some location) :
    ∃ zone ∈ db.zoneNodesOf volume, ∃ front rest, names = front ++ rest ∧
      zone.path = pathText front ∧
      location = { zoneId := zone.id, zonePath := zone.path, relativePath := relativeText rest } ∧
      ∀ other ∈ db.zoneNodesOf volume, ∀ upper, upper <+: names → other.path = pathText upper →
        upper <+: front := by
  obtain ⟨zone, member, above, longest, rfl⟩ := locateZone_eq_some located
  obtain ⟨front, ⟨rest, rfl⟩, path⟩ := (mem_ancestorPaths_iff valid _).mp above
  refine ⟨zone, member, front, rest, rfl, path, ?_, ?_⟩
  · rw [path, relativeIn_texts valid.left valid.right]
  · intro other otherMember upper isPrefix otherPath
    have atMost := longest other otherMember
      ((mem_ancestorPaths_iff valid _).mpr ⟨upper, isPrefix, otherPath⟩)
    rw [path, otherPath] at atMost
    rcases List.prefix_or_prefix_of_prefix isPrefix (List.prefix_append front rest) with
      shorter | ⟨more, rfl⟩
    · exact shorter
    · by_cases none_ : more = []
      · rw [none_, List.append_nil]
      · have longer := pathText_length_lt front (valid.of_prefix isPrefix).right none_
        omega

theorem locateZone_concat {name : Text} (valid : Components (names ++ [name]))
    (absent : ∀ zone ∈ db.zoneNodesOf volume, zone.path ≠ pathText (names ++ [name])) :
    (db.locateZone volume (pathText names)).map (fun location =>
        (location.zoneId, location.zonePath)) =
      (db.locateZone volume (pathText (names ++ [name]))).map fun location =>
        (location.zoneId, location.zonePath) := by
  have none_ : ((db.zoneNodesOf volume).filter fun zone =>
      decide (zone.path = pathText (names ++ [name]))) = [] := by
    rw [List.filter_eq_nil_iff]
    intro zone member same
    exact absent zone member (of_decide_eq_true same)
  unfold Database.locateZone
  dsimp only
  rw [ancestorPaths_concat valid, List.flatMap_append, List.flatMap_singleton, none_,
    List.append_nil, Option.map_map, Option.map_map]
  rfl

/-- The row of `locate_zone` for a path: its zone has the longest path of those at or above the
path, and the two columns with paths join to it. -/
structure Database.LocatesIn (db : Database) (volume : Uuid) (path : Text) (location : Location) :
    Prop where
  joined : absolutePath location.zonePath location.relativePath = path
  zone : ∃ zone ∈ db.zoneNodesOf volume, zone.id = location.zoneId ∧ zone.path = location.zonePath
  above : Within location.zonePath path
  longest : ∀ other ∈ db.zoneNodesOf volume, Within other.path path →
    other.path = location.zonePath ∨ other.path.length < location.zonePath.length

theorem locatesIn_of_locateZone (valid : Components names) {location : Location}
    (located : db.locateZone volume (pathText names) = some location) :
    db.LocatesIn volume (pathText names) location := by
  obtain ⟨zone, member, front, rest, rfl, path, rfl, longest⟩ := locateZone_components valid located
  refine ⟨?_, ⟨zone, member, rfl, rfl⟩, ?_, ?_⟩
  · rw [path]
    exact absolutePath_texts valid.left valid.right
  · rw [path]
    exact (within_pathText_iff valid.left valid).mpr (List.prefix_append front rest)
  · intro other otherMember otherAbove
    rw [path]
    by_cases empty : other.path = []
    · right
      rw [empty]
      exact List.length_pos_of_mem (slash_mem_pathText front)
    · obtain ⟨upper, isPrefix, otherPath⟩ := exists_prefix_of_within valid empty otherAbove
      rw [otherPath]
      exact length_pathText_le valid.left (longest other otherMember upper isPrefix otherPath)

/-- Inside a zone the parent of a path is located in the same zone. -/
theorem locateZone_parent {name : Text} (valid : Components (names ++ [name])) {location : Location}
    (located : db.locateZone volume (pathText (names ++ [name])) = some location)
    (inside : location.relativePath ≠ []) :
    db.locateZone volume (pathText names) =
        some { location with relativePath := relativeParent location.relativePath } ∧
      location.relativePath = childRelative (relativeParent location.relativePath) name ∧
      relativeName location.relativePath = name := by
  obtain ⟨zone, -, front, rest, split, path, rfl, longest⟩ := locateZone_components valid located
  rcases List.eq_nil_or_concat' rest with rfl | ⟨inner, last, rfl⟩
  · exact absurd relativeText_nil inside
  · rw [← List.append_assoc] at split
    obtain ⟨rfl, same⟩ := List.append_inj' split rfl
    obtain rfl := (List.cons.inj same).1
    have innerValid : Components (inner ++ [name]) := by
      rw [List.append_assoc] at valid
      exact valid.right
    have absent : ∀ other ∈ db.zoneNodesOf volume,
        other.path ≠ pathText (front ++ inner ++ [name]) := by
      intro other member here
      have shorter := (longest other member _ List.prefix_rfl here).length_le
      simp only [List.length_append, List.length_singleton] at shorter
      omega
    have sameZone := locateZone_concat valid absent
    rw [located, Option.map_some] at sameZone
    obtain ⟨above, locatedAbove, columns⟩ := Option.map_eq_some_iff.mp sameZone
    obtain ⟨other, -, otherFront, otherRest, otherSplit, otherPath, rfl, -⟩ :=
      locateZone_components valid.left locatedAbove
    obtain ⟨sameId, samePath⟩ := Prod.mk.inj columns
    -- Both zones have the path of the same components.
    obtain rfl := pathText_injective (valid.left.of_prefix ⟨otherRest, otherSplit.symm⟩)
      valid.left.left (otherPath.symm.trans (samePath.trans path))
    obtain rfl := List.append_cancel_left otherSplit
    dsimp only at sameId samePath ⊢
    rw [relativeParent_relativeText innerValid, relativeName_relativeText innerValid,
      childRelative_texts innerValid.left]
    refine ⟨?_, rfl, rfl⟩
    rw [locatedAbove, sameId, samePath]

/-- `locate_zone` splits every accepted path at the longest zone at or above it. Inside a zone
the parent is in the same zone, and its relative path and the name are those of the relative
path. The parent and the name join to the path. -/
theorem locateZone_fits {path : Text}
    (root : ∃ zone ∈ db.zoneNodesOf volume, zone.path = ['/'])
    (accepted : assertPath path = .ok path) :
    (∃ location, db.locateZone volume path = some location ∧ db.LocatesIn volume path location ∧
      (location.relativePath ≠ [] → ∃ parent, parentOf path = some parent ∧
        db.locateZone volume parent =
          some { location with relativePath := relativeParent location.relativePath } ∧
        location.relativePath =
          childRelative (relativeParent location.relativePath) (nameOf path) ∧
        nameOf path = relativeName location.relativePath)) ∧
    (path ≠ ['/'] → ∃ parent, parentOf path = some parent ∧
      absolutePath parent (nameOf path) = path) := by
  obtain ⟨-, canonical⟩ := assertPath_eq_ok accepted
  obtain ⟨names, valid, rfl⟩ := (canonicalPath_iff path).mp canonical
  obtain ⟨zone, member, zonePath⟩ := root
  have above : zone.path ∈ ancestorPaths (pathText names) :=
    (mem_ancestorPaths_iff valid _).mpr ⟨[], List.nil_prefix, zonePath⟩
  obtain ⟨location, located⟩ := locateZone_isSome member above
  have locates := locatesIn_of_locateZone valid located
  rcases List.eq_nil_or_concat' names with rfl | ⟨front, name, rfl⟩
  · refine ⟨⟨location, located, locates, fun inside => ?_⟩, fun other => absurd pathText_nil other⟩
    obtain ⟨zone, -, front, rest, split, -, rfl, -⟩ := locateZone_components valid located
    obtain ⟨rfl, rfl⟩ := List.append_eq_nil_iff.mp split.symm
    exact absurd relativeText_nil inside
  · have parent := parentOf_pathText valid
    have name_ := nameOf_pathText valid
    refine ⟨⟨location, located, locates, fun inside => ⟨pathText front, parent, ?_⟩⟩, fun _ =>
      ⟨pathText front, parent, ?_⟩⟩
    · obtain ⟨inParent, joined, last⟩ := locateZone_parent valid located inside
      rw [name_]
      exact ⟨inParent, joined, last.symm⟩
    · rw [name_]
      exact absolutePath_name valid.left (valid name (by simp))

end Locating

/-- A path two levels below a nested zone, with a name of two bytes. -/
theorem locateZone_fits_nested :
    ∃ location, (Database.empty.calls fileZoneCalls).locateZone 7 "/z/é/b".toList = some location ∧
      location.zonePath = "/z".toList ∧
      (Database.empty.calls fileZoneCalls).locateZone 7 "/z/é".toList =
        some { location with relativePath := "é".toList } ∧
      absolutePath "/z/é".toList (nameOf "/z/é/b".toList) = "/z/é/b".toList := by
  obtain ⟨⟨location, located, -, inside⟩, joins⟩ :=
    @locateZone_fits (Database.empty.calls fileZoneCalls) 7 "/z/é/b".toList (by decide +kernel)
      (by decide +kernel)
  have columns : ((Database.empty.calls fileZoneCalls).locateZone 7 "/z/é/b".toList).map
      (fun location => (location.zonePath, location.relativePath)) =
      some ("/z".toList, "é/b".toList) := by
    decide +kernel
  have above : parentOf "/z/é/b".toList = some "/z/é".toList := by decide +kernel
  rw [located] at columns
  obtain ⟨zonePath, relative⟩ := Prod.mk.inj (Option.some.inj columns)
  refine ⟨location, located, zonePath, ?_, ?_⟩
  · obtain ⟨parent, isParent, inParent, -⟩ := inside (by rw [relative]; decide +kernel)
    obtain rfl := Option.some.inj (above.symm.trans isParent)
    rw [inParent, relative]
    congr 1
  · obtain ⟨parent, isParent, joined⟩ := joins (by decide +kernel)
    obtain rfl := Option.some.inj (above.symm.trans isParent)
    exact joined

end PostgreOS
