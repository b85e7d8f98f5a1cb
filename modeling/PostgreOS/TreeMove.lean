/-
Subtrees that arrive at a new place.

Rows hung in below a free path keep the tree well formed when each of them lies in a
directory that arrives with it. A zone that is renamed takes along the zones below it
and all of their entries.
-/

import PostgreOS.TreeChange

namespace PostgreOS.Tree

variable {tree : Tree}

theorem WellFormed.free_below (wellFormed : tree.WellFormed) {names : List Text}
    (free : ∀ kind, ¬ tree.Has names kind) (extra : List Text) (kind : Kind) :
    ¬ tree.Has (names ++ extra) kind := by
  intro has
  by_cases here : extra = []
  · rw [here, List.append_nil] at has
    exact free kind has
  · exact free _ (wellFormed.has_above has here)

/-- Rows that arrive below the free path `upper ++ rest ++ [name]`, where `rest` is a
directory of the zone `parent`. -/
structure Arriving (parent : ZoneNode) (rest : List Text) (name : Text) (added : List ZoneEntry)
    (entry : ZoneEntry) : Prop where
  inZone : entry.zoneId = parent.id
  parent_path : entry.parentPath = relativeParent entry.relativePath
  name_path : entry.name = relativeName entry.relativePath
  path : ∃ extra, Components extra ∧ entry.relativePath = relativeText (rest ++ [name] ++ extra) ∧
    (extra = [] ∨ ∃ before last, extra = before ++ [last] ∧ ∃ above ∈ added,
      above.zoneId = parent.id ∧ above.relativePath = relativeText (rest ++ [name] ++ before) ∧
        above.kind = .directory)

/-- A row that is rebased from below `inner` in its zone to below the free path arrives
with the directory that holds it. -/
theorem WellFormed.arriving_of_rebased (wellFormed : tree.WellFormed) {zone parent : ZoneNode}
    {front inner extra rest : List Text} {name : Text} {added : List ZoneEntry}
    {entry row : ZoneEntry} (found : tree.EntryAt zone entry front (inner ++ extra))
    (nonempty : inner ≠ []) (valid : Components (rest ++ [name]))
    (inZone : row.zoneId = parent.id)
    (parentPath : row.parentPath = relativeParent row.relativePath)
    (path : row.relativePath = relativeText (rest ++ [name] ++ extra))
    (named : row.name = if entry.relativePath = relativeText inner then name else entry.name)
    (above : ∀ before last directory, extra = before ++ [last] →
      tree.EntryAt zone directory front (inner ++ before) → directory.kind = .directory →
        ∃ arrived ∈ added, arrived.zoneId = parent.id ∧
          arrived.relativePath = relativeText (rest ++ [name] ++ before) ∧
          arrived.kind = .directory) :
    Arriving parent rest name added row := by
  have extraValid := found.valid.right
  refine ⟨inZone, parentPath, ?_, extra, extraValid, path, ?_⟩
  · rw [path, named]
    rcases List.eq_nil_or_concat' extra with rfl | ⟨before, last, rfl⟩
    · rw [if_pos (by rw [found.path, List.append_nil]), List.append_nil,
        relativeName_relativeText valid]
    · rw [if_neg, ← List.append_assoc, relativeName_relativeText]
      · rw [← List.append_assoc] at found
        exact wellFormed.name_eq found
      · rw [List.append_assoc]
        exact valid.append extraValid
      · rw [found.path]
        intro same
        have names := relativeText_injective found.valid found.valid.left same
        simp at names
  · rcases List.eq_nil_or_concat' extra with rfl | ⟨before, last, rfl⟩
    · exact Or.inl rfl
    · rw [← List.append_assoc] at found
      obtain ⟨directory, directoryAt, kind⟩ :=
        wellFormed.ancestor found (by simp [nonempty]) (by simp)
      exact Or.inr ⟨before, last, rfl, above before last directory rfl directoryAt kind⟩

theorem WellFormed.insertBelow (wellFormed : tree.WellFormed) {parent : ZoneNode}
    {upper rest : List Text} {name : Text} (added : List ZoneEntry)
    (parentAt : tree.ZoneAt parent upper) (valid : Components (rest ++ [name]))
    (inside : tree.DirectoryIn parent.id (relativeText rest))
    (free : ∀ kind, ¬ tree.Has (upper ++ (rest ++ [name])) kind)
    (unique : ∀ first ∈ tree.entries ++ added, ∀ second ∈ tree.entries ++ added,
      first.zoneId = second.zoneId → first.relativePath = second.relativePath → first = second)
    (arriving : ∀ entry ∈ added, Arriving parent rest name added entry) :
    WellFormed { tree with entries := tree.entries ++ added } := by
  apply wellFormed.insertEntries unique
  · intro entry member
    obtain ⟨inZone, parentPath, namePath, extra, extraValid, path, -⟩ := arriving entry member
    have relativeValid : Components (rest ++ [name] ++ extra) := valid.append extraValid
    refine ⟨?_, parentPath, namePath, ⟨parent, parentAt.member, inZone.symm⟩, ?_⟩
    · rw [path]
      exact canonicalRelative_relativeText relativeValid (by simp)
    · intro owner ownerMember ownerId other otherMember same
      have ownerEq := wellFormed.zone_ids owner ownerMember parent parentAt.member
        (ownerId.trans inZone)
      rw [ownerEq, parentAt.path, path, absolutePath_texts parentAt.valid relativeValid,
        ← List.append_assoc] at same
      exact wellFormed.free_below free extra .directory (.zone ⟨otherMember, by
        rw [List.append_assoc]
        exact parentAt.valid.append relativeValid, same.symm⟩)
  · intro entry member
    obtain ⟨inZone, parentPath, -, extra, extraValid, path, above⟩ := arriving entry member
    rcases above with rfl | ⟨before, last, rfl, directory, arrived, itsZone, itsPath, kind⟩
    · rw [inZone, parentPath, path, List.append_nil, relativeParent_relativeText valid]
      exact inside.append added
    · have relativeValid : Components (rest ++ [name] ++ before ++ [last]) := by
        rw [List.append_assoc]
        exact valid.append extraValid
      rw [← List.append_assoc] at path
      rw [inZone, parentPath, path, relativeParent_relativeText relativeValid]
      exact Or.inr ⟨directory, List.mem_append_right _ arrived, itsZone, itsPath, kind⟩

/-- Rows that fill a zone below which no other zone lies. -/
theorem WellFormed.fillZone (wellFormed : tree.WellFormed) {zone : ZoneNode} {front : List Text}
    {added : List ZoneEntry} (zoneAt : tree.ZoneAt zone front)
    (alone : ∀ other names, tree.ZoneAt other names → front <+: names → names = front)
    (unique : ∀ first ∈ tree.entries ++ added, ∀ second ∈ tree.entries ++ added,
      first.zoneId = second.zoneId → first.relativePath = second.relativePath → first = second)
    (inZone : ∀ entry ∈ added, entry.zoneId = zone.id)
    (canonical : ∀ entry ∈ added, CanonicalRelative entry.relativePath)
    (parentPath : ∀ entry ∈ added, entry.parentPath = relativeParent entry.relativePath)
    (named : ∀ entry ∈ added, entry.name = relativeName entry.relativePath)
    (parent : ∀ entry ∈ added, entry.parentPath = [] ∨ ∃ above ∈ added,
      above.relativePath = entry.parentPath ∧ above.kind = .directory) :
    WellFormed { tree with entries := tree.entries ++ added } := by
  apply wellFormed.insertEntries unique
  · intro entry member
    refine ⟨canonical entry member, parentPath entry member, named entry member,
      ⟨zone, zoneAt.member, (inZone entry member).symm⟩, ?_⟩
    intro owner ownerMember ownerId other otherMember same
    have ownerEq := wellFormed.zone_ids owner ownerMember zone zoneAt.member
      (ownerId.trans (inZone entry member))
    obtain ⟨rest, valid, nonempty, path⟩ := (canonicalRelative_iff _).mp (canonical entry member)
    rw [ownerEq, zoneAt.path, path, absolutePath_texts zoneAt.valid valid] at same
    have stays := alone other (front ++ rest)
      ⟨otherMember, zoneAt.valid.append valid, same.symm⟩ (List.prefix_append front rest)
    exact nonempty (List.append_right_eq_self.mp stays)
  · intro entry member
    rcases parent entry member with empty | ⟨above, arrived, path, kind⟩
    · exact Or.inl empty
    · exact Or.inr ⟨above, List.mem_append_right _ arrived,
        (inZone above arrived).trans (inZone entry member).symm, path, kind⟩

/-! ### Renaming a zone -/

/-- The names of what was at `names`, once everything at `source` has gone to `target`. -/
def renamedNames (source target names : List Text) : List Text :=
  if source <+: names then target ++ names.drop source.length else names

theorem renamedNames_append (source target extra : List Text) :
    renamedNames source target (source ++ extra) = target ++ extra := by
  rw [renamedNames, if_pos (List.prefix_append source extra), List.drop_left]

theorem renamedNames_outside {source names : List Text} (target : List Text)
    (outside : ¬ source <+: names) : renamedNames source target names = names :=
  if_neg outside

theorem renamedNames_below {source front : List Text} (target extra : List Text)
    (above : source <+: front ++ extra → source <+: front) :
    renamedNames source target (front ++ extra) = renamedNames source target front ++ extra := by
  by_cases moves : source <+: front
  · obtain ⟨inner, rfl⟩ := moves
    rw [List.append_assoc, renamedNames_append, renamedNames_append, List.append_assoc]
  · rw [renamedNames_outside target moves,
      renamedNames_outside target fun isPrefix => moves (above isPrefix)]

theorem renamedNames_components {source target names : List Text} (targetValid : Components target)
    (valid : Components names) : Components (renamedNames source target names) := by
  by_cases moves : source <+: names
  · obtain ⟨extra, rfl⟩ := moves
    rw [renamedNames_append]
    exact targetValid.append valid.right
  · rwa [renamedNames_outside target moves]

/-- Two files never get one path: nothing was at the destination. -/
theorem WellFormed.renamedNames_injective (wellFormed : tree.WellFormed)
    {source target names others : List Text} {kind other : Kind}
    (free : ∀ kind, ¬ tree.Has target kind) (has : tree.Has names kind)
    (otherHas : tree.Has others other)
    (same : renamedNames source target names = renamedNames source target others) :
    names = others := by
  by_cases moves : source <+: names <;> by_cases otherMoves : source <+: others
  · obtain ⟨extra, rfl⟩ := moves
    obtain ⟨otherExtra, rfl⟩ := otherMoves
    rw [renamedNames_append, renamedNames_append] at same
    rw [List.append_cancel_left same]
  · obtain ⟨extra, rfl⟩ := moves
    rw [renamedNames_append, renamedNames_outside target otherMoves] at same
    exact absurd (same ▸ otherHas) (wellFormed.free_below free extra other)
  · obtain ⟨otherExtra, rfl⟩ := otherMoves
    rw [renamedNames_append, renamedNames_outside target moves] at same
    exact absurd (same ▸ has) (wellFormed.free_below free otherExtra kind)
  · rwa [renamedNames_outside target moves, renamedNames_outside target otherMoves] at same

/-- The rows of `zones` after the zone at `source` and everything below it got the path
`upper ++ (rest ++ [name])`, a path in the zone `parent`. -/
structure Renaming (tree : Tree) (source : List Text) (parent : ZoneNode) (upper rest : List Text)
    (name : Text) (change : ZoneNode → ZoneNode) : Prop where
  ids : ∀ zone ∈ tree.zones, (change zone).id = zone.id
  kept : ∀ zone names, tree.ZoneAt zone names → ¬ source <+: names → change zone = zone
  path : ∀ zone extra, tree.ZoneAt zone (source ++ extra) →
    (change zone).path = pathText (upper ++ (rest ++ [name]) ++ extra)
  root : ∀ zone, tree.ZoneAt zone source →
    (change zone).parent = some (parent.id, relativeText rest) ∧ (change zone).name = name
  inner : ∀ zone extra, tree.ZoneAt zone (source ++ extra) → extra ≠ [] →
    (change zone).parent = zone.parent ∧ (change zone).name = zone.name

section Rename

variable {source : List Text} {moved parent : ZoneNode} {upper rest : List Text} {name : Text}
  {change : ZoneNode → ZoneNode}

theorem Renaming.unchanged (renamed : Renaming tree source parent upper rest name change)
    (parentAt : tree.ZoneAt parent upper) (outside : ¬ source <+: upper ++ (rest ++ [name])) :
    change parent = parent :=
  renamed.kept parent upper parentAt fun isPrefix =>
    outside (isPrefix.trans (List.prefix_append upper (rest ++ [name])))

theorem Renaming.path_eq (renamed : Renaming tree source parent upper rest name change)
    {zone : ZoneNode} {names : List Text} (zoneAt : tree.ZoneAt zone names) :
    (change zone).path = pathText (renamedNames source (upper ++ (rest ++ [name])) names) := by
  by_cases moves : source <+: names
  · obtain ⟨extra, rfl⟩ := moves
    rw [renamedNames_append, renamed.path zone extra zoneAt]
  · rw [renamedNames_outside _ moves, renamed.kept zone names zoneAt moves, zoneAt.path]

theorem Renaming.hangs_alike (renamed : Renaming tree source parent upper rest name change)
    {zone : ZoneNode} {names : List Text} (zoneAt : tree.ZoneAt zone names) (other : names ≠ source) :
    (change zone).parent = zone.parent ∧ (change zone).name = zone.name := by
  by_cases moves : source <+: names
  · obtain ⟨extra, rfl⟩ := moves
    exact renamed.inner zone extra zoneAt fun empty => other (by rw [empty, List.append_nil])
  · rw [renamed.kept zone names zoneAt moves]
    exact ⟨rfl, rfl⟩

/-- The zone above a moved zone moves too, unless it holds the root of the move. -/
theorem WellFormed.above_moves (wellFormed : tree.WellFormed) (movedAt : tree.ZoneAt moved source)
    {above : ZoneNode} {front inner : List Text} (aboveAt : tree.ZoneAt above front)
    (valid : Components inner) (holds : tree.DirectoryIn above.id (relativeText inner))
    (isPrefix : source <+: front ++ inner) : source <+: front := by
  by_cases empty : inner = []
  · rwa [empty, List.append_nil] at isPrefix
  · rcases holds with noPath | ⟨directory, member, inZone, path, -⟩
    · exact absurd noPath (relativeText_ne_nil valid empty)
    · exact wellFormed.zone_prefix ⟨aboveAt, member, inZone, valid, empty, path⟩ movedAt isPrefix

section Renamed

variable (wellFormed : tree.WellFormed) (movedAt : tree.ZoneAt moved source)
  (target : Components (upper ++ (rest ++ [name])))
  (renamed : Renaming tree source parent upper rest name change)

include wellFormed movedAt target renamed

theorem Renaming.entry_path {zone : ZoneNode} {entry : ZoneEntry} {front relative : List Text}
    (found : tree.EntryAt zone entry front relative) :
    absolutePath (change zone).path entry.relativePath =
      pathText (renamedNames source (upper ++ (rest ++ [name])) (front ++ relative)) := by
  rw [renamed.path_eq found.zoneAt, found.path,
    absolutePath_texts (renamedNames_components target found.zoneAt.valid) found.valid,
    renamedNames_below _ relative (wellFormed.zone_prefix found movedAt)]

/-- The other zones hang where they hung. -/
theorem Renaming.hangs {zone : ZoneNode} {names : List Text} (zoneAt : tree.ZoneAt zone names)
    (nonempty : names ≠ []) (other : names ≠ source) :
    ∃ above ∈ tree.zones.map change,
      HangsIn { tree with zones := tree.zones.map change } (change zone) above := by
  obtain ⟨above, front, relative, aboveAt, relativeValid, points, whole, holds⟩ :=
    wellFormed.zone_hangs zoneAt nonempty
  obtain ⟨samePoints, sameName⟩ := renamed.hangs_alike zoneAt other
  have named : Component zone.name := zoneAt.valid zone.name (by simp [whole])
  have goes : renamedNames source (upper ++ (rest ++ [name])) names =
      renamedNames source (upper ++ (rest ++ [name])) front ++ (relative ++ [zone.name]) := by
    rw [whole, List.append_assoc]
    refine renamedNames_below _ _ fun isPrefix => ?_
    rw [← List.append_assoc, ← whole] at isPrefix
    rw [whole] at isPrefix other
    rcases List.prefix_concat_iff.mp isPrefix with itself | inside
    · exact absurd itself.symm other
    · exact wellFormed.above_moves movedAt aboveAt relativeValid holds inside
  have aboveValid : Components (renamedNames source (upper ++ (rest ++ [name])) front) :=
    renamedNames_components target aboveAt.valid
  refine ⟨change above, List.mem_map_of_mem aboveAt.member, relativeText relative, ?_, ?_, ?_, ?_⟩
  · rw [samePoints, renamed.ids above aboveAt.member, points]
  · rw [sameName]
    exact named
  · rw [renamed.path_eq zoneAt, renamed.path_eq aboveAt, goes, sameName,
      absolutePath_texts aboveValid relativeValid,
      absolutePath_name (aboveValid.append relativeValid) named, List.append_assoc]
  · rw [renamed.ids above aboveAt.member]
    exact holds

omit wellFormed movedAt in
theorem Renaming.root_hangs {zone : ZoneNode} (zoneAt : tree.ZoneAt zone source)
    (parentAt : tree.ZoneAt parent upper)
    (inside : tree.DirectoryIn parent.id (relativeText rest))
    (outside : ¬ source <+: upper ++ (rest ++ [name])) :
    ∃ above ∈ tree.zones.map change,
      HangsIn { tree with zones := tree.zones.map change } (change zone) above := by
  obtain ⟨points, named⟩ := renamed.root zone zoneAt
  have last : Component name := target name (by simp)
  have restValid : Components rest := target.right.left
  refine ⟨parent, List.mem_map.mpr ⟨parent, parentAt.member, renamed.unchanged parentAt outside⟩,
    relativeText rest, points, ?_, ?_, inside⟩
  · rwa [named]
  · have path := renamed.path zone [] (by rwa [List.append_nil])
    rw [path, named, parentAt.path, absolutePath_texts parentAt.valid restValid,
      absolutePath_name (parentAt.valid.append restValid) last, List.append_nil, List.append_assoc]

end Renamed

theorem WellFormed.renameZone (wellFormed : tree.WellFormed) (movedAt : tree.ZoneAt moved source)
    (inner : source ≠ []) (parentAt : tree.ZoneAt parent upper)
    (valid : Components (rest ++ [name]))
    (inside : tree.DirectoryIn parent.id (relativeText rest))
    (outside : ¬ source <+: upper ++ (rest ++ [name]))
    (free : ∀ kind, ¬ tree.Has (upper ++ (rest ++ [name])) kind)
    (renamed : Renaming tree source parent upper rest name change) :
    WellFormed { tree with zones := tree.zones.map change } := by
  have target : Components (upper ++ (rest ++ [name])) := parentAt.valid.append valid
  have rootStays : renamedNames source (upper ++ (rest ++ [name])) [] = [] :=
    renamedNames_outside _ fun isPrefix => inner (List.prefix_nil.mp isPrefix)
  constructor
  · intro first hFirst second hSecond same
    obtain ⟨zone, member, rfl⟩ := List.mem_map.mp hFirst
    obtain ⟨other, otherMember, rfl⟩ := List.mem_map.mp hSecond
    rw [renamed.ids zone member, renamed.ids other otherMember] at same
    rw [wellFormed.zone_ids zone member other otherMember same]
  · intro first hFirst second hSecond same
    obtain ⟨zone, member, rfl⟩ := List.mem_map.mp hFirst
    obtain ⟨other, otherMember, rfl⟩ := List.mem_map.mp hSecond
    obtain ⟨names, zoneAt⟩ := wellFormed.zoneAt_of_mem member
    obtain ⟨otherNames, otherAt⟩ := wellFormed.zoneAt_of_mem otherMember
    rw [renamed.path_eq zoneAt, renamed.path_eq otherAt] at same
    have one := pathText_injective (renamedNames_components target zoneAt.valid)
      (renamedNames_components target otherAt.valid) same
    obtain rfl := wellFormed.renamedNames_injective free (.zone zoneAt) (.zone otherAt) one
    rw [wellFormed.zoneAt_unique zoneAt otherAt]
  · intro changed hChanged
    obtain ⟨zone, member, rfl⟩ := List.mem_map.mp hChanged
    obtain ⟨names, zoneAt⟩ := wellFormed.zoneAt_of_mem member
    rw [renamed.path_eq zoneAt]
    exact canonicalPath_pathText (renamedNames_components target zoneAt.valid)
  · obtain ⟨root, member, path⟩ := wellFormed.root
    refine ⟨change root, List.mem_map_of_mem member, ?_⟩
    rw [renamed.path_eq ⟨member, components_nil, path⟩, rootStays, pathText_nil]
  · intro changed hChanged path
    obtain ⟨zone, member, rfl⟩ := List.mem_map.mp hChanged
    obtain ⟨root, rootMember, rootPath⟩ := wellFormed.root
    have rootAt : tree.ZoneAt root [] := ⟨rootMember, components_nil, rootPath⟩
    obtain ⟨names, zoneAt⟩ := wellFormed.zoneAt_of_mem member
    rw [renamed.path_eq zoneAt] at path
    have empty := (pathText_eq_root_iff (renamedNames_components target zoneAt.valid)).mp path
    obtain rfl := wellFormed.renamedNames_injective free (.zone zoneAt) (.zone rootAt)
      (empty.trans rootStays.symm)
    rw [(renamed.hangs_alike zoneAt inner.symm).1]
    exact wellFormed.root_parent zone member zoneAt.path
  · intro changed hChanged notRoot
    obtain ⟨zone, member, rfl⟩ := List.mem_map.mp hChanged
    obtain ⟨names, zoneAt⟩ := wellFormed.zoneAt_of_mem member
    by_cases itself : names = source
    · subst itself
      exact renamed.root_hangs target zoneAt parentAt inside outside
    · refine renamed.hangs wellFormed movedAt target zoneAt ?_ itself
      rintro rfl
      exact notRoot (by rw [renamed.path_eq zoneAt, rootStays, pathText_nil])
  · exact wellFormed.entry_paths
  · exact wellFormed.entry_canonical
  · exact wellFormed.entry_parent_path
  · exact wellFormed.entry_name
  · intro entry member
    obtain ⟨zone, zoneMember, inZone⟩ := wellFormed.entry_zone entry member
    exact ⟨change zone, List.mem_map_of_mem zoneMember, (renamed.ids zone zoneMember).trans inZone⟩
  · exact wellFormed.entry_parent
  · intro entry member changedZone hZone inZone changedOther hOther same
    obtain ⟨zone, zoneMember, rfl⟩ := List.mem_map.mp hZone
    obtain ⟨other, otherMember, rfl⟩ := List.mem_map.mp hOther
    rw [renamed.ids zone zoneMember] at inZone
    obtain ⟨front, zoneAt⟩ := wellFormed.zoneAt_of_mem zoneMember
    obtain ⟨names, otherAt⟩ := wellFormed.zoneAt_of_mem otherMember
    obtain ⟨relative, relativeValid, nonempty, path⟩ :=
      (canonicalRelative_iff _).mp (wellFormed.entry_canonical entry member)
    have found : tree.EntryAt zone entry front relative :=
      ⟨zoneAt, member, inZone.symm, relativeValid, nonempty, path⟩
    rw [renamed.entry_path wellFormed movedAt target found, renamed.path_eq otherAt] at same
    have one := pathText_injective (renamedNames_components target found.components)
      (renamedNames_components target otherAt.valid) same
    have taken := wellFormed.renamedNames_injective free (.entry found) (.zone otherAt) one
    exact wellFormed.not_zoneAt_of_entryAt found otherAt taken.symm

end Rename

end PostgreOS.Tree
