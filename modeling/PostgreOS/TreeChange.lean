/-
Changes of a tree that keep it well formed.

Rows may be rewritten outside their keys, new rows may hang below directories, and
rows may be deleted when nothing that stays hangs below them. Moving a subtree is
deleting it and hanging its rows in elsewhere, except that the root of a zone takes
its zone along.
-/

import PostgreOS.Tree

namespace PostgreOS.Tree

variable {tree : Tree}

def SameZoneKeys (first second : ZoneNode) : Prop :=
  first.id = second.id ∧ first.path = second.path ∧ first.parent = second.parent ∧
    first.name = second.name

def SameEntryKeys (first second : ZoneEntry) : Prop :=
  first.zoneId = second.zoneId ∧ first.relativePath = second.relativePath ∧
    first.parentPath = second.parentPath ∧ first.name = second.name ∧ first.kind = second.kind

theorem directoryIn_map {zone : NodeId} {relative : Text} (changeZone : ZoneNode → ZoneNode)
    (changeEntry : ZoneEntry → ZoneEntry)
    (sameEntries : ∀ entry ∈ tree.entries, SameEntryKeys (changeEntry entry) entry)
    (inside : tree.DirectoryIn zone relative) :
    DirectoryIn { zones := tree.zones.map changeZone, entries := tree.entries.map changeEntry }
      zone relative := by
  rcases inside with empty | ⟨entry, member, inZone, path, kind⟩
  · exact Or.inl empty
  · obtain ⟨sameZone, samePath, -, -, sameKind⟩ := sameEntries entry member
    exact Or.inr ⟨changeEntry entry, List.mem_map_of_mem member, sameZone.trans inZone,
      samePath.trans path, sameKind.trans kind⟩

theorem WellFormed.map (wellFormed : tree.WellFormed) (changeZone : ZoneNode → ZoneNode)
    (changeEntry : ZoneEntry → ZoneEntry)
    (sameZones : ∀ zone ∈ tree.zones, SameZoneKeys (changeZone zone) zone)
    (sameEntries : ∀ entry ∈ tree.entries, SameEntryKeys (changeEntry entry) entry) :
    WellFormed
      { zones := tree.zones.map changeZone, entries := tree.entries.map changeEntry } where
  zone_ids := by
    intro first hFirst second hSecond same
    obtain ⟨zone, member, rfl⟩ := List.mem_map.mp hFirst
    obtain ⟨other, otherMember, rfl⟩ := List.mem_map.mp hSecond
    rw [(sameZones zone member).1, (sameZones other otherMember).1] at same
    rw [wellFormed.zone_ids zone member other otherMember same]
  zone_paths := by
    intro first hFirst second hSecond same
    obtain ⟨zone, member, rfl⟩ := List.mem_map.mp hFirst
    obtain ⟨other, otherMember, rfl⟩ := List.mem_map.mp hSecond
    rw [(sameZones zone member).2.1, (sameZones other otherMember).2.1] at same
    rw [wellFormed.zone_paths zone member other otherMember same]
  zone_canonical := by
    intro changed hChanged
    obtain ⟨zone, member, rfl⟩ := List.mem_map.mp hChanged
    rw [(sameZones zone member).2.1]
    exact wellFormed.zone_canonical zone member
  root := by
    obtain ⟨zone, member, path⟩ := wellFormed.root
    exact ⟨changeZone zone, List.mem_map_of_mem member, (sameZones zone member).2.1.trans path⟩
  root_parent := by
    intro changed hChanged path
    obtain ⟨zone, member, rfl⟩ := List.mem_map.mp hChanged
    obtain ⟨-, samePath, sameParent, -⟩ := sameZones zone member
    rw [sameParent]
    exact wellFormed.root_parent zone member (samePath.symm.trans path)
  zone_parent := by
    intro changed hChanged inner
    obtain ⟨zone, member, rfl⟩ := List.mem_map.mp hChanged
    obtain ⟨-, samePath, sameParent, sameName⟩ := sameZones zone member
    rw [samePath] at inner
    obtain ⟨parent, parentMember, relative, points, named, path, inside⟩ :=
      wellFormed.zone_parent zone member inner
    obtain ⟨parentId, parentPath, -, -⟩ := sameZones parent parentMember
    refine ⟨changeZone parent, List.mem_map_of_mem parentMember, relative, ?_, ?_, ?_, ?_⟩
    · rw [sameParent, parentId, points]
    · rw [sameName]
      exact named
    · rw [samePath, parentPath, sameName, path]
    · rw [parentId]
      exact directoryIn_map changeZone changeEntry sameEntries inside
  entry_paths := by
    intro first hFirst second hSecond sameZone samePath
    obtain ⟨entry, member, rfl⟩ := List.mem_map.mp hFirst
    obtain ⟨other, otherMember, rfl⟩ := List.mem_map.mp hSecond
    rw [(sameEntries entry member).1, (sameEntries other otherMember).1] at sameZone
    rw [(sameEntries entry member).2.1, (sameEntries other otherMember).2.1] at samePath
    rw [wellFormed.entry_paths entry member other otherMember sameZone samePath]
  entry_canonical := by
    intro changed hChanged
    obtain ⟨entry, member, rfl⟩ := List.mem_map.mp hChanged
    rw [(sameEntries entry member).2.1]
    exact wellFormed.entry_canonical entry member
  entry_parent_path := by
    intro changed hChanged
    obtain ⟨entry, member, rfl⟩ := List.mem_map.mp hChanged
    rw [(sameEntries entry member).2.1, (sameEntries entry member).2.2.1]
    exact wellFormed.entry_parent_path entry member
  entry_name := by
    intro changed hChanged
    obtain ⟨entry, member, rfl⟩ := List.mem_map.mp hChanged
    rw [(sameEntries entry member).2.1, (sameEntries entry member).2.2.2.1]
    exact wellFormed.entry_name entry member
  entry_zone := by
    intro changed hChanged
    obtain ⟨entry, member, rfl⟩ := List.mem_map.mp hChanged
    obtain ⟨zone, zoneMember, inZone⟩ := wellFormed.entry_zone entry member
    refine ⟨changeZone zone, List.mem_map_of_mem zoneMember, ?_⟩
    rw [(sameZones zone zoneMember).1, (sameEntries entry member).1, inZone]
  entry_parent := by
    intro changed hChanged
    obtain ⟨entry, member, rfl⟩ := List.mem_map.mp hChanged
    rw [(sameEntries entry member).1, (sameEntries entry member).2.2.1]
    exact directoryIn_map changeZone changeEntry sameEntries (wellFormed.entry_parent entry member)
  apart := by
    intro changed hChanged changedZone hZone inZone changedOther hOther
    obtain ⟨entry, member, rfl⟩ := List.mem_map.mp hChanged
    obtain ⟨zone, zoneMember, rfl⟩ := List.mem_map.mp hZone
    obtain ⟨other, otherMember, rfl⟩ := List.mem_map.mp hOther
    rw [(sameZones zone zoneMember).1, (sameEntries entry member).1] at inZone
    rw [(sameZones zone zoneMember).2.1, (sameEntries entry member).2.1,
      (sameZones other otherMember).2.1]
    exact wellFormed.apart entry member zone zoneMember inZone other otherMember

theorem WellFormed.of_mem_iff (wellFormed : tree.WellFormed) {other : Tree}
    (zones : ∀ zone, zone ∈ other.zones ↔ zone ∈ tree.zones)
    (entries : ∀ entry, entry ∈ other.entries ↔ entry ∈ tree.entries) : other.WellFormed := by
  have inside (zone : NodeId) (relative : Text) :
      other.DirectoryIn zone relative ↔ tree.DirectoryIn zone relative := by
    unfold DirectoryIn
    simp only [entries]
  constructor
  · simpa only [zones] using wellFormed.zone_ids
  · simpa only [zones] using wellFormed.zone_paths
  · simpa only [zones] using wellFormed.zone_canonical
  · simpa only [zones] using wellFormed.root
  · simpa only [zones] using wellFormed.root_parent
  · simpa only [zones, HangsIn, inside] using wellFormed.zone_parent
  · simpa only [entries] using wellFormed.entry_paths
  · simpa only [entries] using wellFormed.entry_canonical
  · simpa only [entries] using wellFormed.entry_parent_path
  · simpa only [entries] using wellFormed.entry_name
  · simpa only [zones, entries] using wellFormed.entry_zone
  · simpa only [entries, inside] using wellFormed.entry_parent
  · simpa only [zones, entries] using wellFormed.apart

/-! ### New rows -/

/-- What a new entry has to satisfy with respect to the zones. -/
structure EntryFits (tree : Tree) (entry : ZoneEntry) : Prop where
  canonical : CanonicalRelative entry.relativePath
  parent_path : entry.parentPath = relativeParent entry.relativePath
  name : entry.name = relativeName entry.relativePath
  zone : ∃ zone ∈ tree.zones, zone.id = entry.zoneId
  apart : ∀ zone ∈ tree.zones, zone.id = entry.zoneId → ∀ other ∈ tree.zones,
    absolutePath zone.path entry.relativePath ≠ other.path

theorem WellFormed.entryFits (wellFormed : tree.WellFormed) {zone : ZoneNode} {front rest : List Text}
    {name : Text} {entry : ZoneEntry} (zoneAt : tree.ZoneAt zone front)
    (valid : Components (rest ++ [name])) (inZone : entry.zoneId = zone.id)
    (path : entry.relativePath = relativeText (rest ++ [name]))
    (parentPath : entry.parentPath = relativeText rest) (named : entry.name = name)
    (free : ∀ other, ¬ tree.ZoneAt other (front ++ (rest ++ [name]))) : tree.EntryFits entry where
  canonical := by
    rw [path]
    exact canonicalRelative_relativeText valid (by simp)
  parent_path := by rw [path, parentPath, relativeParent_relativeText valid]
  name := by rw [path, named, relativeName_relativeText valid]
  zone := ⟨zone, zoneAt.member, inZone.symm⟩
  apart := by
    intro owner ownerMember ownerId other otherMember same
    have ownerEq := wellFormed.zone_ids owner ownerMember zone zoneAt.member (ownerId.trans inZone)
    rw [ownerEq, zoneAt.path, path, absolutePath_texts zoneAt.valid valid] at same
    exact free other ⟨otherMember, zoneAt.valid.append valid, same.symm⟩

theorem DirectoryIn.append {zone : NodeId} {relative : Text} (added : List ZoneEntry)
    (inside : tree.DirectoryIn zone relative) :
    DirectoryIn { tree with entries := tree.entries ++ added } zone relative := by
  rcases inside with empty | ⟨entry, member, found⟩
  · exact Or.inl empty
  · exact Or.inr ⟨entry, List.mem_append_left added member, found⟩

theorem WellFormed.insertEntries (wellFormed : tree.WellFormed) {added : List ZoneEntry}
    (unique : ∀ first ∈ tree.entries ++ added, ∀ second ∈ tree.entries ++ added,
      first.zoneId = second.zoneId → first.relativePath = second.relativePath → first = second)
    (fits : ∀ entry ∈ added, tree.EntryFits entry)
    (parent : ∀ entry ∈ added,
      DirectoryIn { tree with entries := tree.entries ++ added } entry.zoneId entry.parentPath) :
    WellFormed { tree with entries := tree.entries ++ added } where
  zone_ids := wellFormed.zone_ids
  zone_paths := wellFormed.zone_paths
  zone_canonical := wellFormed.zone_canonical
  root := wellFormed.root
  root_parent := wellFormed.root_parent
  zone_parent := by
    intro zone member inner
    obtain ⟨above, aboveMember, relative, points, named, path, inside⟩ :=
      wellFormed.zone_parent zone member inner
    exact ⟨above, aboveMember, relative, points, named, path, inside.append added⟩
  entry_paths := unique
  entry_canonical := by
    intro entry member
    rcases List.mem_append.mp member with old | new
    · exact wellFormed.entry_canonical entry old
    · exact (fits entry new).canonical
  entry_parent_path := by
    intro entry member
    rcases List.mem_append.mp member with old | new
    · exact wellFormed.entry_parent_path entry old
    · exact (fits entry new).parent_path
  entry_name := by
    intro entry member
    rcases List.mem_append.mp member with old | new
    · exact wellFormed.entry_name entry old
    · exact (fits entry new).name
  entry_zone := by
    intro entry member
    rcases List.mem_append.mp member with old | new
    · exact wellFormed.entry_zone entry old
    · exact (fits entry new).zone
  entry_parent := by
    intro entry member
    rcases List.mem_append.mp member with old | new
    · exact (wellFormed.entry_parent entry old).append added
    · exact parent entry new
  apart := by
    intro entry member
    rcases List.mem_append.mp member with old | new
    · exact wellFormed.apart entry old
    · exact (fits entry new).apart

theorem WellFormed.insertZone (wellFormed : tree.WellFormed) {zone parent : ZoneNode}
    {upper rest : List Text} {name : Text} (freshId : ∀ other ∈ tree.zones, other.id ≠ zone.id)
    (unowned : ∀ entry ∈ tree.entries, entry.zoneId ≠ zone.id)
    (parentAt : tree.ZoneAt parent upper) (valid : Components (rest ++ [name]))
    (path : zone.path = pathText (upper ++ rest ++ [name]))
    (points : zone.parent = some (parent.id, relativeText rest)) (named : zone.name = name)
    (inside : tree.DirectoryIn parent.id (relativeText rest))
    (free : ∀ kind, ¬ tree.Has (upper ++ rest ++ [name]) kind) :
    WellFormed { tree with zones := tree.zones ++ [zone] } := by
  have whole : Components (upper ++ rest ++ [name]) := by
    rw [List.append_assoc]
    exact parentAt.valid.append valid
  have inner : zone.path ≠ ['/'] := by
    rw [path]
    exact pathText_ne_root whole (by simp)
  have newPath : ∀ other ∈ tree.zones, other.path ≠ zone.path := by
    intro other member same
    exact free _ (.zone ⟨member, whole, same.trans path⟩)
  constructor
  · intro first hFirst second hSecond same
    rcases List.mem_append.mp hFirst with old | new <;> rcases List.mem_append.mp hSecond with other | fresh
    · exact wellFormed.zone_ids first old second other same
    · rw [List.mem_singleton.mp fresh] at same
      exact absurd same (freshId first old)
    · rw [List.mem_singleton.mp new] at same
      exact absurd same.symm (freshId second other)
    · rw [List.mem_singleton.mp new, List.mem_singleton.mp fresh]
  · intro first hFirst second hSecond same
    rcases List.mem_append.mp hFirst with old | new <;> rcases List.mem_append.mp hSecond with other | fresh
    · exact wellFormed.zone_paths first old second other same
    · rw [List.mem_singleton.mp fresh] at same
      exact absurd same (newPath first old)
    · rw [List.mem_singleton.mp new] at same
      exact absurd same.symm (newPath second other)
    · rw [List.mem_singleton.mp new, List.mem_singleton.mp fresh]
  · intro other member
    rcases List.mem_append.mp member with old | new
    · exact wellFormed.zone_canonical other old
    · rw [List.mem_singleton.mp new, path]
      exact canonicalPath_pathText whole
  · obtain ⟨root, member, rootPath⟩ := wellFormed.root
    exact ⟨root, List.mem_append_left _ member, rootPath⟩
  · intro other member rootPath
    rcases List.mem_append.mp member with old | new
    · exact wellFormed.root_parent other old rootPath
    · rw [List.mem_singleton.mp new] at rootPath
      exact absurd rootPath inner
  · intro other member notRoot
    rcases List.mem_append.mp member with old | new
    · obtain ⟨above, aboveMember, hangs⟩ := wellFormed.zone_parent other old notRoot
      exact ⟨above, List.mem_append_left _ aboveMember, hangs⟩
    · obtain rfl := List.mem_singleton.mp new
      refine ⟨parent, List.mem_append_left _ parentAt.member, relativeText rest, points, ?_, ?_, inside⟩
      · rw [named]
        exact valid name (by simp)
      · rw [named, parentAt.path, absolutePath_texts parentAt.valid valid.left,
          absolutePath_name (parentAt.valid.append valid.left) (valid name (by simp)), path]
  · exact wellFormed.entry_paths
  · exact wellFormed.entry_canonical
  · exact wellFormed.entry_parent_path
  · exact wellFormed.entry_name
  · intro entry member
    obtain ⟨owner, ownerMember, inZone⟩ := wellFormed.entry_zone entry member
    exact ⟨owner, List.mem_append_left _ ownerMember, inZone⟩
  · exact wellFormed.entry_parent
  · intro entry member owner ownerMember inZone other otherMember
    rcases List.mem_append.mp ownerMember with old | new
    · rcases List.mem_append.mp otherMember with known | fresh
      · exact wellFormed.apart entry member owner old inZone other known
      · rw [List.mem_singleton.mp fresh, path]
        intro same
        obtain ⟨ownerFront, ownerAt⟩ := wellFormed.zoneAt_of_mem old
        obtain ⟨inner, innerValid, nonempty, innerPath⟩ :=
          (canonicalRelative_iff _).mp (wellFormed.entry_canonical entry member)
        have found : tree.EntryAt owner entry ownerFront inner :=
          ⟨ownerAt, member, inZone.symm, innerValid, nonempty, innerPath⟩
        rw [found.absolutePath_eq] at same
        refine free entry.kind ?_
        rw [← pathText_injective found.components whole same]
        exact .entry found
    · rw [List.mem_singleton.mp new] at inZone
      exact absurd inZone.symm (unowned entry member)

/-! ### Deleted rows -/

/-- Rows may go if no row that stays hangs below one of them. -/
theorem WellFormed.delete (wellFormed : tree.WellFormed) (keepZone : ZoneNode → Bool)
    (keepEntry : ZoneEntry → Bool)
    (root : ∀ zone ∈ tree.zones, zone.path = ['/'] → keepZone zone = true)
    (zones : ∀ zone ∈ tree.zones, ∀ parent ∈ tree.zones, ∀ relative, keepZone zone = true →
      zone.parent = some (parent.id, relative) → keepZone parent = true ∧
        ∀ entry ∈ tree.entries, entry.zoneId = parent.id → entry.relativePath = relative →
          keepEntry entry = true)
    (entries : ∀ entry ∈ tree.entries, keepEntry entry = true →
      (∀ zone ∈ tree.zones, zone.id = entry.zoneId → keepZone zone = true) ∧
        ∀ above ∈ tree.entries, above.zoneId = entry.zoneId →
          above.relativePath = entry.parentPath → keepEntry above = true) :
    WellFormed
      { zones := tree.zones.filter keepZone, entries := tree.entries.filter keepEntry } where
  zone_ids := fun first hFirst second hSecond =>
    wellFormed.zone_ids first (List.mem_of_mem_filter hFirst) second (List.mem_of_mem_filter hSecond)
  zone_paths := fun first hFirst second hSecond =>
    wellFormed.zone_paths first (List.mem_of_mem_filter hFirst) second
      (List.mem_of_mem_filter hSecond)
  zone_canonical := fun zone member =>
    wellFormed.zone_canonical zone (List.mem_of_mem_filter member)
  root := by
    obtain ⟨zone, member, path⟩ := wellFormed.root
    exact ⟨zone, List.mem_filter.mpr ⟨member, root zone member path⟩, path⟩
  root_parent := fun zone member => wellFormed.root_parent zone (List.mem_of_mem_filter member)
  zone_parent := by
    intro zone member inner
    obtain ⟨old, kept⟩ := List.mem_filter.mp member
    obtain ⟨parent, parentMember, relative, points, named, path, inside⟩ :=
      wellFormed.zone_parent zone old inner
    obtain ⟨parentKept, inParent⟩ := zones zone old parent parentMember relative kept points
    refine ⟨parent, List.mem_filter.mpr ⟨parentMember, parentKept⟩, relative, points, named, path, ?_⟩
    rcases inside with empty | ⟨entry, entryMember, inZone, entryPath, kind⟩
    · exact Or.inl empty
    · exact Or.inr ⟨entry, List.mem_filter.mpr ⟨entryMember,
        inParent entry entryMember inZone entryPath⟩, inZone, entryPath, kind⟩
  entry_paths := fun first hFirst second hSecond =>
    wellFormed.entry_paths first (List.mem_of_mem_filter hFirst) second
      (List.mem_of_mem_filter hSecond)
  entry_canonical := fun entry member =>
    wellFormed.entry_canonical entry (List.mem_of_mem_filter member)
  entry_parent_path := fun entry member =>
    wellFormed.entry_parent_path entry (List.mem_of_mem_filter member)
  entry_name := fun entry member => wellFormed.entry_name entry (List.mem_of_mem_filter member)
  entry_zone := by
    intro entry member
    obtain ⟨old, kept⟩ := List.mem_filter.mp member
    obtain ⟨zone, zoneMember, inZone⟩ := wellFormed.entry_zone entry old
    exact ⟨zone, List.mem_filter.mpr ⟨zoneMember, (entries entry old kept).1 zone zoneMember inZone⟩,
      inZone⟩
  entry_parent := by
    intro entry member
    obtain ⟨old, kept⟩ := List.mem_filter.mp member
    rcases wellFormed.entry_parent entry old with empty | ⟨above, aboveMember, inZone, path, kind⟩
    · exact Or.inl empty
    · exact Or.inr ⟨above, List.mem_filter.mpr ⟨aboveMember,
        (entries entry old kept).2 above aboveMember inZone path⟩, inZone, path, kind⟩
  apart := fun entry member zone zoneMember inZone other otherMember =>
    wellFormed.apart entry (List.mem_of_mem_filter member) zone (List.mem_of_mem_filter zoneMember)
      inZone other (List.mem_of_mem_filter otherMember)

end PostgreOS.Tree
