/-
The file tree of one volume.

A tree is the zones and the entries of a volume. Seen from outside it is a set of
absolute paths with kinds, each below a directory. Well-formedness is what makes the
two tables one tree: every row hangs below a directory and no path is named twice.
-/

import PostgreOS.Zones

namespace PostgreOS

structure Tree where
  zones : List ZoneNode
  entries : List ZoneEntry
  deriving DecidableEq

/-- The zones and entries of a volume; the counters are not part of the tree. -/
def Database.tree (db : Database) (volume : Uuid) : Tree :=
  { zones := db.zoneNodesOf volume
    entries := db.entriesOf volume }

namespace Tree

/-- `relative` is the root of the zone or a directory entry of it. -/
def DirectoryIn (tree : Tree) (zone : NodeId) (relative : Text) : Prop :=
  relative = [] ∨ ∃ entry ∈ tree.entries,
    entry.zoneId = zone ∧ entry.relativePath = relative ∧ entry.kind = .directory

instance (tree : Tree) (zone : NodeId) (relative : Text) :
    Decidable (tree.DirectoryIn zone relative) :=
  inferInstanceAs (Decidable (_ ∨ ∃ entry ∈ tree.entries, _))

/-- The path of a zone is the path of a directory of another zone and its own name. -/
def HangsIn (tree : Tree) (zone parent : ZoneNode) : Prop :=
  ∃ relative, zone.parent = some (parent.id, relative) ∧ Component zone.name ∧
    zone.path = absolutePath (absolutePath parent.path relative) zone.name ∧
    tree.DirectoryIn parent.id relative

instance (tree : Tree) (zone parent : ZoneNode) : Decidable (tree.HangsIn zone parent) :=
  match points : zone.parent with
  | none => isFalse (by
      rintro ⟨relative, same, -⟩
      rw [points] at same
      cases same)
  | some (id, relative) =>
      decidable_of_iff (id = parent.id ∧ Component zone.name ∧
        zone.path = absolutePath (absolutePath parent.path relative) zone.name ∧
        tree.DirectoryIn parent.id relative) (by
          unfold HangsIn
          rw [points]
          constructor
          · rintro ⟨rfl, hangs⟩
            exact ⟨relative, rfl, hangs⟩
          · rintro ⟨other, same, hangs⟩
            obtain ⟨rfl, rfl⟩ := Prod.mk.inj (Option.some.inj same)
            exact ⟨rfl, hangs⟩)

structure WellFormed (tree : Tree) : Prop where
  zone_ids : ∀ first ∈ tree.zones, ∀ second ∈ tree.zones, first.id = second.id → first = second
  zone_paths : ∀ first ∈ tree.zones, ∀ second ∈ tree.zones,
    first.path = second.path → first = second
  zone_canonical : ∀ zone ∈ tree.zones, CanonicalPath zone.path
  root : ∃ zone ∈ tree.zones, zone.path = ['/']
  root_parent : ∀ zone ∈ tree.zones, zone.path = ['/'] → zone.parent = none
  zone_parent : ∀ zone ∈ tree.zones, zone.path ≠ ['/'] →
    ∃ parent ∈ tree.zones, tree.HangsIn zone parent
  entry_paths : ∀ first ∈ tree.entries, ∀ second ∈ tree.entries,
    first.zoneId = second.zoneId → first.relativePath = second.relativePath → first = second
  entry_canonical : ∀ entry ∈ tree.entries, CanonicalRelative entry.relativePath
  entry_parent_path : ∀ entry ∈ tree.entries, entry.parentPath = relativeParent entry.relativePath
  entry_name : ∀ entry ∈ tree.entries, entry.name = relativeName entry.relativePath
  entry_zone : ∀ entry ∈ tree.entries, ∃ zone ∈ tree.zones, zone.id = entry.zoneId
  entry_parent : ∀ entry ∈ tree.entries, tree.DirectoryIn entry.zoneId entry.parentPath
  apart : ∀ entry ∈ tree.entries, ∀ zone ∈ tree.zones, zone.id = entry.zoneId →
    ∀ other ∈ tree.zones, absolutePath zone.path entry.relativePath ≠ other.path

instance (tree : Tree) : Decidable tree.WellFormed :=
  decidable_of_iff
    ((∀ first ∈ tree.zones, ∀ second ∈ tree.zones, first.id = second.id → first = second) ∧
      (∀ first ∈ tree.zones, ∀ second ∈ tree.zones, first.path = second.path → first = second) ∧
      (∀ zone ∈ tree.zones, CanonicalPath zone.path) ∧
      (∃ zone ∈ tree.zones, zone.path = ['/']) ∧
      (∀ zone ∈ tree.zones, zone.path = ['/'] → zone.parent = none) ∧
      (∀ zone ∈ tree.zones, zone.path ≠ ['/'] → ∃ parent ∈ tree.zones, tree.HangsIn zone parent) ∧
      (∀ first ∈ tree.entries, ∀ second ∈ tree.entries, first.zoneId = second.zoneId →
        first.relativePath = second.relativePath → first = second) ∧
      (∀ entry ∈ tree.entries, CanonicalRelative entry.relativePath) ∧
      (∀ entry ∈ tree.entries, entry.parentPath = relativeParent entry.relativePath) ∧
      (∀ entry ∈ tree.entries, entry.name = relativeName entry.relativePath) ∧
      (∀ entry ∈ tree.entries, ∃ zone ∈ tree.zones, zone.id = entry.zoneId) ∧
      (∀ entry ∈ tree.entries, tree.DirectoryIn entry.zoneId entry.parentPath) ∧
      ∀ entry ∈ tree.entries, ∀ zone ∈ tree.zones, zone.id = entry.zoneId →
        ∀ other ∈ tree.zones, absolutePath zone.path entry.relativePath ≠ other.path)
    ⟨fun ⟨ids, paths, canonical, root, rootParent, parent, entryPaths, entryCanonical, parentPath,
        name, entryZone, entryParent, apart⟩ =>
      ⟨ids, paths, canonical, root, rootParent, parent, entryPaths, entryCanonical, parentPath,
        name, entryZone, entryParent, apart⟩,
      fun ⟨ids, paths, canonical, root, rootParent, parent, entryPaths, entryCanonical, parentPath,
        name, entryZone, entryParent, apart⟩ =>
      ⟨ids, paths, canonical, root, rootParent, parent, entryPaths, entryCanonical, parentPath,
        name, entryZone, entryParent, apart⟩⟩

/-! ### Rows by components -/

structure ZoneAt (tree : Tree) (zone : ZoneNode) (front : List Text) : Prop where
  member : zone ∈ tree.zones
  valid : Components front
  path : zone.path = pathText front

structure EntryAt (tree : Tree) (zone : ZoneNode) (entry : ZoneEntry) (front rest : List Text) :
    Prop where
  zoneAt : tree.ZoneAt zone front
  member : entry ∈ tree.entries
  inZone : entry.zoneId = zone.id
  valid : Components rest
  nonempty : rest ≠ []
  path : entry.relativePath = relativeText rest

/-- A node of this kind is at the path with these components. -/
inductive Has (tree : Tree) : List Text → Kind → Prop
  | zone {zone : ZoneNode} {front : List Text} (found : tree.ZoneAt zone front) :
      Has tree front .directory
  | entry {zone : ZoneNode} {entry : ZoneEntry} {front rest : List Text}
      (found : tree.EntryAt zone entry front rest) : Has tree (front ++ rest) entry.kind

/-- `zone` is the deepest zone at or above the path `names`, which is `rest` inside it. -/
structure Located (tree : Tree) (names : List Text) (zone : ZoneNode) (front rest : List Text) :
    Prop where
  zoneAt : tree.ZoneAt zone front
  names_eq : names = front ++ rest
  deepest : ∀ other ys, tree.ZoneAt other ys → ys <+: names → ys <+: front

variable {tree : Tree}

theorem EntryAt.components {zone : ZoneNode} {entry : ZoneEntry} {front rest : List Text}
    (found : tree.EntryAt zone entry front rest) : Components (front ++ rest) :=
  found.zoneAt.valid.append found.valid

theorem EntryAt.absolutePath_eq {zone : ZoneNode} {entry : ZoneEntry} {front rest : List Text}
    (found : tree.EntryAt zone entry front rest) :
    absolutePath zone.path entry.relativePath = pathText (front ++ rest) := by
  rw [found.zoneAt.path, found.path]
  exact absolutePath_texts found.zoneAt.valid found.valid

theorem Located.components {names : List Text} {zone : ZoneNode} {front rest : List Text}
    (located : tree.Located names zone front rest) (valid : Components names) :
    Components rest := by
  rw [located.names_eq] at valid
  exact valid.right

theorem Has.components {names : List Text} {kind : Kind} (has : tree.Has names kind) :
    Components names := by
  cases has with
  | zone found => exact found.valid
  | entry found => exact found.components

theorem ZoneAt.has_of_directoryIn {zone : ZoneNode} {front rest : List Text}
    (zoneAt : tree.ZoneAt zone front) (valid : Components rest)
    (inside : tree.DirectoryIn zone.id (relativeText rest)) :
    tree.Has (front ++ rest) .directory := by
  by_cases empty : rest = []
  · subst empty
    rw [List.append_nil]
    exact .zone zoneAt
  · rcases inside with noPath | ⟨directory, member, inZone, path, kind⟩
    · exact absurd noPath (relativeText_ne_nil valid empty)
    · rw [← kind]
      exact .entry ⟨zoneAt, member, inZone, valid, empty, path⟩

namespace WellFormed

variable (wellFormed : tree.WellFormed)

include wellFormed

theorem zoneAt_of_mem {zone : ZoneNode} (member : zone ∈ tree.zones) :
    ∃ front, tree.ZoneAt zone front := by
  obtain ⟨front, valid, path⟩ := (canonicalPath_iff _).mp (wellFormed.zone_canonical zone member)
  exact ⟨front, member, valid, path⟩

theorem rest_ne_nil {entry : ZoneEntry} (member : entry ∈ tree.entries) {rest : List Text}
    (path : entry.relativePath = relativeText rest) : rest ≠ [] := by
  rintro rfl
  obtain ⟨parts, valid, nonempty, same⟩ :=
    (canonicalRelative_iff _).mp (wellFormed.entry_canonical entry member)
  rw [path] at same
  exact relativeText_ne_nil valid nonempty same.symm

theorem entryAt_of_mem {entry : ZoneEntry} (member : entry ∈ tree.entries) :
    ∃ zone front rest, tree.EntryAt zone entry front rest := by
  obtain ⟨zone, zoneMember, inZone⟩ := wellFormed.entry_zone entry member
  obtain ⟨front, zoneAt⟩ := wellFormed.zoneAt_of_mem zoneMember
  obtain ⟨rest, valid, nonempty, path⟩ :=
    (canonicalRelative_iff _).mp (wellFormed.entry_canonical entry member)
  exact ⟨zone, front, rest, zoneAt, member, inZone.symm, valid, nonempty, path⟩

theorem zoneAt_unique {first second : ZoneNode} {front : List Text}
    (hFirst : tree.ZoneAt first front) (hSecond : tree.ZoneAt second front) : first = second :=
  wellFormed.zone_paths first hFirst.member second hSecond.member
    (hFirst.path.trans hSecond.path.symm)

theorem parentPath_eq {zone : ZoneNode} {entry : ZoneEntry} {front rest : List Text} {name : Text}
    (found : tree.EntryAt zone entry front (rest ++ [name])) :
    entry.parentPath = relativeText rest := by
  rw [wellFormed.entry_parent_path entry found.member, found.path]
  exact relativeParent_relativeText found.valid

theorem name_eq {zone : ZoneNode} {entry : ZoneEntry} {front rest : List Text} {name : Text}
    (found : tree.EntryAt zone entry front (rest ++ [name])) : entry.name = name := by
  rw [wellFormed.entry_name entry found.member, found.path]
  exact relativeName_relativeText found.valid

theorem ancestor {zone : ZoneNode} {entry : ZoneEntry} {front upper lower : List Text}
    (found : tree.EntryAt zone entry front (upper ++ lower)) (hUpper : upper ≠ [])
    (hLower : lower ≠ []) :
    ∃ directory, tree.EntryAt zone directory front upper ∧ directory.kind = .directory := by
  -- The induction peels components off the end of the path, one parent at a time.
  induction lower using List.reverseRecOn generalizing entry with
  | nil => exact absurd rfl hLower
  | append_singleton lower name ih =>
      rw [← List.append_assoc] at found
      have valid : Components (upper ++ lower) := found.valid.left
      have parent := wellFormed.entry_parent entry found.member
      rw [wellFormed.parentPath_eq found] at parent
      have nonempty : upper ++ lower ≠ [] := by simp [hUpper]
      rcases parent with empty | ⟨directory, member, inZone, path, kind⟩
      · exact absurd empty (relativeText_ne_nil valid nonempty)
      · have above : tree.EntryAt zone directory front (upper ++ lower) :=
          ⟨found.zoneAt, member, inZone.trans found.inZone, valid, nonempty, path⟩
        by_cases last : lower = []
        · subst last
          rw [List.append_nil] at above
          exact ⟨directory, above, kind⟩
        · exact ih above last

theorem zone_prefix {zone other : ZoneNode} {entry : ZoneEntry} {front rest names : List Text}
    (found : tree.EntryAt zone entry front rest) (hOther : tree.ZoneAt other names)
    (isPrefix : names <+: front ++ rest) : names <+: front := by
  rcases List.prefix_or_prefix_of_prefix isPrefix (List.prefix_append front rest) with
    above | ⟨upper, rfl⟩
  · exact above
  · obtain ⟨lower, rfl⟩ := (List.prefix_append_right_inj front).mp isPrefix
    by_cases noUpper : upper = []
    · rw [noUpper, List.append_nil]
    · exfalso
      have taken : ∃ blocking, tree.EntryAt zone blocking front upper := by
        by_cases noLower : lower = []
        · rw [noLower, List.append_nil] at found
          exact ⟨entry, found⟩
        · obtain ⟨directory, above, -⟩ := wellFormed.ancestor found noUpper noLower
          exact ⟨directory, above⟩
      obtain ⟨blocking, above⟩ := taken
      refine wellFormed.apart blocking above.member zone above.zoneAt.member above.inZone.symm
        other hOther.member ?_
      rw [above.absolutePath_eq, hOther.path]

theorem entryAt_unique {firstZone secondZone : ZoneNode} {first second : ZoneEntry}
    {front rest otherFront otherRest : List Text}
    (hFirst : tree.EntryAt firstZone first front rest)
    (hSecond : tree.EntryAt secondZone second otherFront otherRest)
    (same : front ++ rest = otherFront ++ otherRest) :
    firstZone = secondZone ∧ first = second ∧ front = otherFront ∧ rest = otherRest := by
  have right : otherFront <+: front :=
    wellFormed.zone_prefix hFirst hSecond.zoneAt (same ▸ List.prefix_append otherFront otherRest)
  have left : front <+: otherFront :=
    wellFormed.zone_prefix hSecond hFirst.zoneAt (same ▸ List.prefix_append front rest)
  obtain rfl := left.eq_of_length_le right.length_le
  obtain rfl := List.append_cancel_left same
  obtain rfl := wellFormed.zoneAt_unique hFirst.zoneAt hSecond.zoneAt
  refine ⟨rfl, ?_, rfl, rfl⟩
  exact wellFormed.entry_paths first hFirst.member second hSecond.member
    (hFirst.inZone.trans hSecond.inZone.symm) (hFirst.path.trans hSecond.path.symm)

theorem not_zoneAt_of_entryAt {zone other : ZoneNode} {entry : ZoneEntry}
    {front rest names : List Text} (found : tree.EntryAt zone entry front rest)
    (hOther : tree.ZoneAt other names) : names ≠ front ++ rest := by
  rintro rfl
  refine wellFormed.apart entry found.member zone found.zoneAt.member found.inZone.symm
    other hOther.member ?_
  rw [found.absolutePath_eq, hOther.path]

theorem has_unique {names : List Text} {first second : Kind} (hFirst : tree.Has names first)
    (hSecond : tree.Has names second) : first = second := by
  generalize same : names = others at hSecond
  cases hFirst with
  | zone found =>
      cases hSecond with
      | zone other => rfl
      | entry other => exact absurd same (wellFormed.not_zoneAt_of_entryAt other found)
  | entry found =>
      cases hSecond with
      | zone other => exact absurd same.symm (wellFormed.not_zoneAt_of_entryAt found other)
      | entry other => rw [(wellFormed.entryAt_unique found other same).2.1]

theorem zone_hangs {zone : ZoneNode} {front : List Text} (zoneAt : tree.ZoneAt zone front)
    (inner : front ≠ []) :
    ∃ parent upper rest, tree.ZoneAt parent upper ∧ Components rest ∧
      zone.parent = some (parent.id, relativeText rest) ∧
      front = upper ++ rest ++ [zone.name] ∧ tree.DirectoryIn parent.id (relativeText rest) := by
  have notRoot : zone.path ≠ ['/'] := by
    rw [zoneAt.path]
    exact pathText_ne_root zoneAt.valid inner
  obtain ⟨parent, member, relative, points, named, path, inside⟩ :=
    wellFormed.zone_parent zone zoneAt.member notRoot
  obtain ⟨upper, parentAt⟩ := wellFormed.zoneAt_of_mem member
  have relativeNames : ∃ rest, Components rest ∧ relative = relativeText rest := by
    rcases inside with rfl | ⟨directory, directoryMember, -, rfl, -⟩
    · exact ⟨[], components_nil, rfl⟩
    · obtain ⟨rest, valid, -, same⟩ :=
        (canonicalRelative_iff _).mp (wellFormed.entry_canonical directory directoryMember)
      exact ⟨rest, valid, same⟩
  obtain ⟨rest, valid, rfl⟩ := relativeNames
  refine ⟨parent, upper, rest, parentAt, valid, points, ?_, inside⟩
  have whole : Components (upper ++ rest ++ [zone.name]) :=
    (parentAt.valid.append valid).append (components_singleton named)
  rw [parentAt.path, absolutePath_texts parentAt.valid valid,
    absolutePath_name (parentAt.valid.append valid) named, zoneAt.path] at path
  exact pathText_injective zoneAt.valid whole path

theorem has_parent {front : List Text} {name : Text} {kind : Kind}
    (has : tree.Has (front ++ [name]) kind) : tree.Has front .directory := by
  generalize whole : front ++ [name] = names at has
  cases has with
  | zone found =>
      obtain ⟨parent, upper, rest, parentAt, valid, -, same, inside⟩ :=
        wellFormed.zone_hangs found (by rw [← whole]; simp)
      rw [← whole] at same
      obtain ⟨rfl, -⟩ := List.append_inj' same rfl
      exact parentAt.has_of_directoryIn valid inside
  | @entry zone entry upper rest found =>
      have shape : ∃ before, rest = before ++ [name] := by
        rcases List.eq_nil_or_concat rest with empty | ⟨before, last, rfl⟩
        · exact absurd empty found.nonempty
        · rw [List.concat_eq_append, ← List.append_assoc] at whole
          obtain ⟨-, same⟩ := List.append_inj' whole rfl
          rw [List.concat_eq_append]
          exact ⟨before, by rw [same]⟩
      obtain ⟨before, rfl⟩ := shape
      rw [← List.append_assoc] at whole
      obtain ⟨rfl, -⟩ := List.append_inj' whole rfl
      have parent := wellFormed.entry_parent entry found.member
      rw [wellFormed.parentPath_eq found, found.inZone] at parent
      exact found.zoneAt.has_of_directoryIn found.valid.left parent

theorem has_above {upper lower : List Text} {kind : Kind} (has : tree.Has (upper ++ lower) kind)
    (below : lower ≠ []) : tree.Has upper .directory := by
  induction lower using List.reverseRecOn generalizing kind with
  | nil => exact absurd rfl below
  | append_singleton lower name ih =>
      rw [← List.append_assoc] at has
      have parent := wellFormed.has_parent has
      by_cases last : lower = []
      · subst last
        rwa [List.append_nil] at parent
      · exact ih parent last

theorem located_unique {names : List Text} {first second : ZoneNode}
    {front rest otherFront otherRest : List Text} (hFirst : tree.Located names first front rest)
    (hSecond : tree.Located names second otherFront otherRest) :
    first = second ∧ front = otherFront ∧ rest = otherRest := by
  have right : otherFront <+: front := hFirst.deepest second otherFront hSecond.zoneAt
    (hSecond.names_eq ▸ List.prefix_append otherFront otherRest)
  have left : front <+: otherFront := hSecond.deepest first front hFirst.zoneAt
    (hFirst.names_eq ▸ List.prefix_append front rest)
  obtain rfl := left.eq_of_length_le right.length_le
  obtain rfl := List.append_cancel_left (hFirst.names_eq.symm.trans hSecond.names_eq)
  exact ⟨wellFormed.zoneAt_unique hFirst.zoneAt hSecond.zoneAt, rfl, rfl⟩

theorem located_of_entryAt {zone : ZoneNode} {entry : ZoneEntry} {front rest : List Text}
    (found : tree.EntryAt zone entry front rest) :
    tree.Located (front ++ rest) zone front rest :=
  ⟨found.zoneAt, rfl, fun _ _ hOther isPrefix => wellFormed.zone_prefix found hOther isPrefix⟩

omit wellFormed in
theorem located_of_zoneAt {zone : ZoneNode} {front : List Text} (found : tree.ZoneAt zone front) :
    tree.Located front zone front [] :=
  ⟨found, (List.append_nil front).symm, fun _ _ _ isPrefix => isPrefix⟩

theorem has_iff_of_located {names : List Text} {zone : ZoneNode} {front rest : List Text}
    (located : tree.Located names zone front rest) {kind : Kind} :
    tree.Has names kind ↔ rest = [] ∧ kind = .directory ∨
      ∃ entry, tree.EntryAt zone entry front rest ∧ entry.kind = kind := by
  obtain rfl := located.names_eq
  constructor
  · intro has
    generalize whole : front ++ rest = names at has
    cases has with
    | zone found =>
        have above := located.deepest _ _ found (by rw [whole])
        rw [← whole] at above
        have lengths := above.length_le
        rw [List.length_append] at lengths
        exact Or.inl ⟨List.eq_nil_of_length_eq_zero (by omega), rfl⟩
    | @entry owner entry upper lower found =>
        have entryLocated := wellFormed.located_of_entryAt found
        rw [← whole] at entryLocated
        obtain ⟨rfl, rfl, rfl⟩ := wellFormed.located_unique located entryLocated
        exact Or.inr ⟨entry, found, rfl⟩
  · rintro (⟨rfl, rfl⟩ | ⟨entry, found, rfl⟩)
    · rw [List.append_nil]
      exact .zone located.zoneAt
    · exact .entry found

theorem directoryIn_of_has {names : List Text} {zone : ZoneNode} {front rest : List Text}
    (located : tree.Located names zone front rest) (has : tree.Has names .directory) :
    tree.DirectoryIn zone.id (relativeText rest) := by
  rcases (wellFormed.has_iff_of_located located).mp has with ⟨rfl, -⟩ | ⟨entry, found, kind⟩
  · exact Or.inl relativeText_nil
  · exact Or.inr ⟨entry, found.member, found.inZone, found.path, kind⟩

theorem located_exists {names : List Text} (valid : Components names) :
    ∃ zone front rest, tree.Located names zone front rest := by
  induction names using List.reverseRecOn with
  | nil =>
      obtain ⟨zone, member, path⟩ := wellFormed.root
      exact ⟨zone, [], [], ⟨member, components_nil, path⟩, rfl,
        fun _ _ _ isPrefix => isPrefix⟩
  | append_singleton names name ih =>
      by_cases named : ∃ zone, tree.ZoneAt zone (names ++ [name])
      · obtain ⟨zone, zoneAt⟩ := named
        exact ⟨zone, _, [], located_of_zoneAt zoneAt⟩
      · obtain ⟨zone, front, rest, located⟩ := ih valid.left
        refine ⟨zone, front, rest ++ [name], located.zoneAt, ?_, ?_⟩
        · rw [located.names_eq, List.append_assoc]
        · intro other ys hOther isPrefix
          rcases List.prefix_concat_iff.mp isPrefix with rfl | above
          · exact absurd ⟨other, hOther⟩ named
          · exact located.deepest other ys hOther above

end WellFormed

end Tree

/-! ### The functions on rows -/

theorem mem_tree_zones {db : Database} {volume : Uuid} {zone : ZoneNode} :
    zone ∈ (db.tree volume).zones ↔ zone ∈ db.zoneNodes ∧ zone.volumeId = volume := by
  simp only [Database.tree, Database.zoneNodesOf, List.mem_filter, decide_eq_true_eq]

theorem mem_tree_entries {db : Database} {volume : Uuid} {entry : ZoneEntry} :
    entry ∈ (db.tree volume).entries ↔ entry ∈ db.zoneEntries ∧ entry.volumeId = volume := by
  simp only [Database.tree, Database.entriesOf, List.mem_filter, decide_eq_true_eq]

theorem relativeIn_texts {front rest : List Text} (hFront : Components front)
    (hRest : Components rest) :
    relativeIn (pathText front) (pathText (front ++ rest)) = relativeText rest := by
  have whole := hFront.append hRest
  unfold relativeIn
  by_cases empty : rest = []
  · subst empty
    rw [List.append_nil, if_pos rfl]
    rfl
  · have different : pathText front ≠ pathText (front ++ rest) := by
      intro same
      have lengths := congrArg List.length (pathText_injective hFront whole same)
      rw [List.length_append] at lengths
      exact empty (List.eq_nil_of_length_eq_zero (by omega))
    rw [if_neg different]
    by_cases root : front = []
    · subst root
      rw [if_pos pathText_nil]
      exact trimLeading_pathText whole
    · rw [if_neg (pathText_ne_root hFront root), pathText_of_ne_nil root,
        pathText_of_ne_nil (by simp [root]), Library.Segments.render_append,
        render_eq_cons_relativeText empty]
      unfold substr
      rw [Nat.add_sub_cancel_right (n := _) (m := 1)]
      simp

/-- What `locate_zone` returns: a zone of the volume at an ancestor of the path, and no
ancestor zone has a longer path. -/
theorem locateZone_eq_some {db : Database} {volume : Uuid} {target : Text} {location : Location}
    (located : db.locateZone volume target = some location) :
    ∃ zone ∈ db.zoneNodesOf volume, zone.path ∈ ancestorPaths target ∧
      (∀ other ∈ db.zoneNodesOf volume, other.path ∈ ancestorPaths target →
        other.path.length ≤ zone.path.length) ∧
      location = { zoneId := zone.id
                   zonePath := zone.path
                   relativePath := relativeIn zone.path target } := by
  unfold Database.locateZone at located
  dsimp only at located
  obtain ⟨zone, chosen, same⟩ := Option.map_eq_some_iff.mp located
  have joined (other : ZoneNode) :
      other ∈ (ancestorPaths target).flatMap (fun ancestor =>
        (db.zoneNodesOf volume).filter fun zone => zone.path = ancestor) ↔
      other ∈ db.zoneNodesOf volume ∧ other.path ∈ ancestorPaths target := by
    simp only [List.mem_flatMap, List.mem_filter, decide_eq_true_eq]
    constructor
    · rintro ⟨ancestor, member, found, rfl⟩
      exact ⟨found, member⟩
    · rintro ⟨found, member⟩
      exact ⟨other.path, member, found, rfl⟩
  obtain ⟨member, above⟩ := (joined zone).mp (List.argmax_mem chosen)
  refine ⟨zone, member, above, ?_, same.symm⟩
  intro other otherMember otherAbove
  exact List.le_of_mem_argmax (f := fun zone : ZoneNode => zone.path.length)
    ((joined other).mpr ⟨otherMember, otherAbove⟩) chosen

theorem locateZone_isSome {db : Database} {volume : Uuid} {target : Text} {zone : ZoneNode}
    (member : zone ∈ db.zoneNodesOf volume) (above : zone.path ∈ ancestorPaths target) :
    ∃ location, db.locateZone volume target = some location := by
  unfold Database.locateZone
  dsimp only
  have nonempty : (ancestorPaths target).flatMap (fun ancestor =>
      (db.zoneNodesOf volume).filter fun zone => zone.path = ancestor) ≠ [] := by
    apply List.ne_nil_of_mem (a := zone)
    simp only [List.mem_flatMap, List.mem_filter, decide_eq_true_eq]
    exact ⟨zone.path, above, member, rfl⟩
  cases chosen : ((ancestorPaths target).flatMap (fun ancestor =>
      (db.zoneNodesOf volume).filter fun zone => zone.path = ancestor)).argmax
        (fun zone => zone.path.length) with
  | none => exact absurd (List.argmax_eq_none.mp chosen) nonempty
  | some zone => exact ⟨_, rfl⟩

theorem pathText_length_lt (front : List Text) {rest : List Text} (hRest : Components rest)
    (longer : rest ≠ []) :
    (pathText front).length < (pathText (front ++ rest)).length := by
  have some_char := List.length_pos_of_ne_nil (relativeText_ne_nil hRest longer)
  rw [pathText_of_ne_nil (by simp [longer] : front ++ rest ≠ []),
    Library.Segments.render_append, render_eq_cons_relativeText longer, List.length_append,
    List.length_cons]
  by_cases root : front = []
  · subst root
    simpa using some_char
  · rw [pathText_of_ne_nil root]
    omega

section Locating

variable {db : Database} {volume : Uuid}

/-- `locate_zone` finds the deepest zone at or above a path, where no two zones have one path. -/
theorem locateZone_of_deepest
    (zonePaths : ∀ first ∈ (db.tree volume).zones, ∀ second ∈ (db.tree volume).zones,
      first.path = second.path → first = second)
    {names : List Text} (valid : Components names) {zone : ZoneNode} {front rest : List Text}
    (located : (db.tree volume).Located names zone front rest) :
    db.locateZone volume (pathText names) =
      some { zoneId := zone.id, zonePath := zone.path, relativePath := relativeText rest } := by
  have above : zone.path ∈ ancestorPaths (pathText names) :=
    (mem_ancestorPaths_iff valid _).mpr
      ⟨front, located.names_eq ▸ List.prefix_append front rest, located.zoneAt.path⟩
  obtain ⟨location, found⟩ := locateZone_isSome located.zoneAt.member above
  obtain ⟨chosen, chosenMember, chosenAbove, longest, rfl⟩ := locateZone_eq_some found
  obtain ⟨ys, isPrefix, chosenPath⟩ := (mem_ancestorPaths_iff valid _).mp chosenAbove
  have chosenAt : (db.tree volume).ZoneAt chosen ys :=
    ⟨chosenMember, valid.of_prefix isPrefix, chosenPath⟩
  -- The chosen zone is at or above the deepest one, and its path is at least as long.
  obtain ⟨extra, rfl⟩ := located.deepest _ ys chosenAt isPrefix
  have same : extra = [] := by
    by_contra longer
    have shorter := pathText_length_lt ys located.zoneAt.valid.right longer
    have atLeast := longest zone located.zoneAt.member above
    rw [located.zoneAt.path, chosenPath] at atLeast
    omega
  subst same
  have zoneAt := located.zoneAt
  rw [List.append_nil] at zoneAt
  have rows := zonePaths chosen chosenAt.member zone zoneAt.member
    (chosenAt.path.trans zoneAt.path.symm)
  rw [found]
  have relative : relativeIn chosen.path (pathText names) = relativeText rest := by
    rw [chosenPath, located.names_eq, List.append_nil]
    exact relativeIn_texts chosenAt.valid (located.components valid)
  rw [relative]
  rw [rows]

theorem locateZone_of_located (wellFormed : (db.tree volume).WellFormed) {names : List Text}
    (valid : Components names) {zone : ZoneNode} {front rest : List Text}
    (located : (db.tree volume).Located names zone front rest) :
    db.locateZone volume (pathText names) =
      some { zoneId := zone.id, zonePath := zone.path, relativePath := relativeText rest } :=
  locateZone_of_deepest wellFormed.zone_paths valid located

theorem entryAt_of_unique
    (entryPaths : ∀ first ∈ (db.tree volume).entries, ∀ second ∈ (db.tree volume).entries,
      first.zoneId = second.zoneId → first.relativePath = second.relativePath → first = second)
    {zone : ZoneNode} {entry : ZoneEntry} {front rest : List Text}
    (found : (db.tree volume).EntryAt zone entry front rest) (zonePath : Text) :
    db.entryAt volume
      { zoneId := zone.id, zonePath := zonePath, relativePath := relativeText rest } =
        some entry := by
  obtain ⟨member, inVolume⟩ := mem_tree_entries.mp found.member
  unfold Database.entryAt
  cases first : db.zoneEntries.find? (atLocation volume
      { zoneId := zone.id, zonePath := zonePath, relativePath := relativeText rest }) with
  | none =>
      have missing := List.find?_eq_none.mp first entry member
      exact absurd (atLocation_iff.mpr ⟨inVolume, found.inZone, found.path⟩) missing
  | some other =>
      have matching := atLocation_iff.mp (List.find?_some first)
      have otherMember := mem_tree_entries.mpr ⟨List.mem_of_find?_eq_some first, matching.1⟩
      rw [entryPaths other otherMember entry found.member
        (matching.2.1.trans found.inZone.symm) (matching.2.2.trans found.path.symm)]

theorem entryAt_eq_some (wellFormed : (db.tree volume).WellFormed) {zone : ZoneNode}
    {entry : ZoneEntry} {front rest : List Text}
    (found : (db.tree volume).EntryAt zone entry front rest) (zonePath : Text) :
    db.entryAt volume
      { zoneId := zone.id, zonePath := zonePath, relativePath := relativeText rest } =
        some entry :=
  entryAt_of_unique wellFormed.entry_paths found zonePath

theorem mem_of_entryAt {location : Location} {entry : ZoneEntry}
    (found : db.entryAt volume location = some entry) :
    entry ∈ (db.tree volume).entries ∧ entry.zoneId = location.zoneId ∧
      entry.relativePath = location.relativePath := by
  have matching := atLocation_iff.mp (List.find?_some found)
  exact ⟨mem_tree_entries.mpr ⟨List.mem_of_find?_eq_some found, matching.1⟩, matching.2⟩

/-- `kind_of` reads the tree. -/
theorem kindOf_eq_some_iff (wellFormed : (db.tree volume).WellFormed) {names : List Text}
    (valid : Components names) (kind : Kind) :
    db.kindOf volume (pathText names) = some kind ↔ (db.tree volume).Has names kind := by
  obtain ⟨zone, front, rest, located⟩ := wellFormed.located_exists valid
  unfold Database.kindOf
  rw [locateZone_of_located wellFormed valid located]
  simp only
  have restValid := located.components valid
  by_cases empty : rest = []
  · subst empty
    have names := located.names_eq
    rw [List.append_nil] at names
    rw [if_pos relativeText_nil, names]
    constructor
    · intro same
      rw [← Option.some.inj same]
      exact .zone located.zoneAt
    · intro has
      rw [wellFormed.has_unique has (.zone located.zoneAt)]
  · rw [if_neg (relativeText_ne_nil restValid empty)]
    constructor
    · intro same
      obtain ⟨entry, found, rfl⟩ := Option.map_eq_some_iff.mp same
      obtain ⟨member, inZone, path⟩ := mem_of_entryAt found
      exact (wellFormed.has_iff_of_located located).mpr
        (Or.inr ⟨entry, ⟨located.zoneAt, member, inZone, restValid, empty, path⟩, rfl⟩)
    · intro has
      rcases (wellFormed.has_iff_of_located located).mp has with ⟨none, -⟩ | ⟨entry, found, kind⟩
      · exact absurd none empty
      · rw [entryAt_eq_some wellFormed found]
        exact congrArg some kind

theorem kindOf_eq_none_iff (wellFormed : (db.tree volume).WellFormed) {names : List Text}
    (valid : Components names) :
    db.kindOf volume (pathText names) = none ↔ ∀ kind, ¬ (db.tree volume).Has names kind := by
  rw [Option.eq_none_iff_forall_ne_some]
  exact forall_congr' fun kind => not_congr (kindOf_eq_some_iff wellFormed valid kind)

end Locating

end PostgreOS
