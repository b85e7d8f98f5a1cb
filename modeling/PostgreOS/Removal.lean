/-
Removing a subtree.

Without everything at or below a path the rest of a tree stays well formed. Where its
patterns are exact, `pgos.remove` leaves exactly the tree without the subtree.
-/

import PostgreOS.TreeInsertions

namespace PostgreOS

open Library.Outcome Library.Table

namespace Tree

def EntryBelow (tree : Tree) (path : Text) (entry : ZoneEntry) : Prop :=
  ∃ zone ∈ tree.zones, zone.id = entry.zoneId ∧
    AtOrBelow path (absolutePath zone.path entry.relativePath)

instance (tree : Tree) (path : Text) (entry : ZoneEntry) : Decidable (tree.EntryBelow path entry) :=
  inferInstanceAs (Decidable (∃ zone ∈ tree.zones, _))

def without (tree : Tree) (path : Text) : Tree :=
  { zones := tree.zones.filter fun zone => ¬ AtOrBelow path zone.path
    entries := tree.entries.filter fun entry => ¬ tree.EntryBelow path entry }

variable {tree : Tree}

theorem EntryAt.entryBelow_iff (wellFormed : tree.WellFormed) {names : List Text} {owner : ZoneNode}
    {upper rest : List Text} {entry : ZoneEntry} (found : tree.EntryAt owner entry upper rest)
    (valid : Components names) (inner : names ≠ []) :
    tree.EntryBelow (pathText names) entry ↔ names <+: upper ++ rest := by
  rw [← found.atOrBelow_iff valid inner]
  constructor
  · rintro ⟨zone, member, inZone, below⟩
    rwa [← wellFormed.zone_ids zone member owner found.zoneAt.member (inZone.trans found.inZone)]
  · intro below
    exact ⟨owner, found.zoneAt.member, found.inZone.symm, below⟩

theorem WellFormed.located_of_directoryIn (wellFormed : tree.WellFormed) {parent : ZoneNode}
    {upper rest : List Text} (parentAt : tree.ZoneAt parent upper) (valid : Components rest)
    (inside : tree.DirectoryIn parent.id (relativeText rest)) :
    tree.Located (upper ++ rest) parent upper rest := by
  by_cases empty : rest = []
  · rw [empty, List.append_nil]
    exact located_of_zoneAt parentAt
  · rcases inside with top | ⟨directory, member, inZone, path, -⟩
    · exact absurd top (relativeText_ne_nil valid empty)
    · exact wellFormed.located_of_entryAt ⟨parentAt, member, inZone, valid, empty, path⟩

theorem WellFormed.without (wellFormed : tree.WellFormed) {names : List Text}
    (valid : Components names) (inner : names ≠ []) : (tree.without (pathText names)).WellFormed := by
  have zoneKept {zone : ZoneNode} {front : List Text} (zoneAt : tree.ZoneAt zone front) :
      decide (¬ AtOrBelow (pathText names) zone.path) = true ↔ ¬ names <+: front := by
    rw [decide_eq_true_eq, zoneAt.atOrBelow_iff valid inner]
  have entryKept {owner : ZoneNode} {entry : ZoneEntry} {upper rest : List Text}
      (found : tree.EntryAt owner entry upper rest) :
      decide (¬ tree.EntryBelow (pathText names) entry) = true ↔ ¬ names <+: upper ++ rest := by
    rw [decide_eq_true_eq, found.entryBelow_iff wellFormed valid inner]
  apply wellFormed.delete
  · intro zone member root
    rw [zoneKept ⟨member, components_nil, root⟩]
    exact fun isPrefix => inner (List.prefix_nil.mp isPrefix)
  · intro zone member parent parentMember relative kept points
    obtain ⟨front, zoneAt⟩ := wellFormed.zoneAt_of_mem member
    rw [zoneKept zoneAt] at kept
    have nonempty : front ≠ [] := by
      rintro rfl
      rw [wellFormed.root_parent zone member zoneAt.path] at points
      cases points
    obtain ⟨above, upper, rest, aboveAt, restValid, itsParent, rfl, inside⟩ :=
      wellFormed.zone_hangs zoneAt nonempty
    rw [itsParent] at points
    obtain ⟨sameId, rfl⟩ := Prod.mk.inj (Option.some.inj points)
    obtain rfl := wellFormed.zone_ids above aboveAt.member parent parentMember sameId
    constructor
    · rw [zoneKept aboveAt]
      intro isPrefix
      apply kept
      rw [List.append_assoc]
      exact isPrefix.trans (List.prefix_append upper _)
    · intro entry entryMember inZone path
      have found : tree.EntryAt above entry upper rest :=
        ⟨aboveAt, entryMember, inZone, restValid, wellFormed.rest_ne_nil entryMember path, path⟩
      rw [entryKept found]
      exact fun isPrefix => kept (isPrefix.trans (List.prefix_append _ _))
  · intro entry member kept
    obtain ⟨owner, upper, rest, found⟩ := wellFormed.entryAt_of_mem member
    rw [entryKept found] at kept
    constructor
    · intro zone zoneMember inZone
      obtain rfl := wellFormed.zone_ids zone zoneMember owner found.zoneAt.member
        (inZone.trans found.inZone)
      rw [zoneKept found.zoneAt]
      exact fun isPrefix => kept (isPrefix.trans (List.prefix_append upper rest))
    · intro above aboveMember sameZone path
      obtain ⟨before, last, rfl⟩ := (List.eq_nil_or_concat' rest).resolve_left found.nonempty
      rw [wellFormed.parentPath_eq found] at path
      have aboveAt : tree.EntryAt owner above upper before :=
        ⟨found.zoneAt, aboveMember, sameZone.trans found.inZone, found.valid.left,
          wellFormed.rest_ne_nil aboveMember path, path⟩
      rw [entryKept aboveAt]
      intro isPrefix
      apply kept
      rw [← List.append_assoc]
      exact isPrefix.trans (List.prefix_append _ _)

section Without

variable {names : List Text} (wellFormed : tree.WellFormed) (valid : Components names)
  (inner : names ≠ [])

include valid inner in
theorem zoneAt_without_iff {zone : ZoneNode} {front : List Text} :
    (tree.without (pathText names)).ZoneAt zone front ↔
      tree.ZoneAt zone front ∧ ¬ names <+: front := by
  constructor
  · rintro ⟨member, frontValid, path⟩
    obtain ⟨inTree, outside⟩ := List.mem_filter.mp member
    have zoneAt : tree.ZoneAt zone front := ⟨inTree, frontValid, path⟩
    rw [decide_eq_true_eq, zoneAt.atOrBelow_iff valid inner] at outside
    exact ⟨zoneAt, outside⟩
  · rintro ⟨zoneAt, outside⟩
    refine ⟨List.mem_filter.mpr ⟨zoneAt.member, ?_⟩, zoneAt.valid, zoneAt.path⟩
    rwa [decide_eq_true_eq, zoneAt.atOrBelow_iff valid inner]

include wellFormed valid inner in
theorem entryAt_without_iff {zone : ZoneNode} {entry : ZoneEntry} {front rest : List Text} :
    (tree.without (pathText names)).EntryAt zone entry front rest ↔
      tree.EntryAt zone entry front rest ∧ ¬ names <+: front ++ rest := by
  constructor
  · rintro ⟨zoneAt, member, inZone, restValid, nonempty, path⟩
    obtain ⟨inTree, outside⟩ := List.mem_filter.mp member
    have found : tree.EntryAt zone entry front rest :=
      ⟨((zoneAt_without_iff valid inner).mp zoneAt).1, inTree, inZone, restValid, nonempty, path⟩
    rw [decide_eq_true_eq, found.entryBelow_iff wellFormed valid inner] at outside
    exact ⟨found, outside⟩
  · rintro ⟨found, outside⟩
    refine ⟨(zoneAt_without_iff valid inner).mpr ⟨found.zoneAt, fun above => outside
      (above.trans (List.prefix_append front rest))⟩, List.mem_filter.mpr ⟨found.member, ?_⟩,
      found.inZone, found.valid, found.nonempty, found.path⟩
    rwa [decide_eq_true_eq, found.entryBelow_iff wellFormed valid inner]

include wellFormed valid inner in
theorem has_without_iff {others : List Text} {kind : Kind} :
    (tree.without (pathText names)).Has others kind ↔ tree.Has others kind ∧ ¬ names <+: others := by
  constructor
  · intro has
    cases has with
    | zone found =>
        obtain ⟨zoneAt, outside⟩ := (zoneAt_without_iff valid inner).mp found
        exact ⟨.zone zoneAt, outside⟩
    | entry found =>
        obtain ⟨entryAt, outside⟩ := (entryAt_without_iff wellFormed valid inner).mp found
        exact ⟨.entry entryAt, outside⟩
  · rintro ⟨has, outside⟩
    cases has with
    | zone found => exact .zone ((zoneAt_without_iff valid inner).mpr ⟨found, outside⟩)
    | entry found => exact .entry ((entryAt_without_iff wellFormed valid inner).mpr ⟨found, outside⟩)

end Without

theorem mem_nodes_without {tree : Tree} (wellFormed : tree.WellFormed) {names : List Text}
    (valid : Components names) (inner : names ≠ []) {content : ZoneEntry → Option Bytes}
    {node : Node} :
    node ∈ (tree.without (pathText names)).nodes content ↔
      node ∈ tree.nodes content ∧ ¬ AtOrBelow (pathText names) node.path := by
  rw [mem_nodes, mem_nodes]
  constructor
  · rintro (⟨zone, member, rfl⟩ | ⟨entry, member, zone, zoneMember, inZone, rfl⟩)
    · obtain ⟨inTree, outside⟩ := List.mem_filter.mp member
      exact ⟨Or.inl ⟨zone, inTree, rfl⟩, of_decide_eq_true outside⟩
    · obtain ⟨inTree, outside⟩ := List.mem_filter.mp member
      have zoneInTree := List.mem_of_mem_filter zoneMember
      refine ⟨Or.inr ⟨entry, inTree, zone, zoneInTree, inZone, rfl⟩, ?_⟩
      exact fun below => of_decide_eq_true outside ⟨zone, zoneInTree, inZone, below⟩
  · rintro ⟨⟨zone, member, rfl⟩ | ⟨entry, member, zone, zoneMember, inZone, rfl⟩, outside⟩
    · exact Or.inl ⟨zone, List.mem_filter.mpr ⟨member, decide_eq_true outside⟩, rfl⟩
    · obtain ⟨owner, upper, rest, found⟩ := wellFormed.entryAt_of_mem member
      obtain rfl := wellFormed.zone_ids zone zoneMember owner found.zoneAt.member
        (inZone.trans found.inZone)
      change ¬ AtOrBelow _ (absolutePath zone.path entry.relativePath) at outside
      rw [found.atOrBelow_iff valid inner] at outside
      refine Or.inr ⟨entry, List.mem_filter.mpr ⟨member, decide_eq_true ?_⟩, zone,
        List.mem_filter.mpr ⟨zoneMember, decide_eq_true ?_⟩, inZone, rfl⟩
      · rwa [found.entryBelow_iff wellFormed valid inner]
      · rw [found.zoneAt.atOrBelow_iff valid inner]
        exact fun isPrefix => outside (isPrefix.trans (List.prefix_append upper rest))

end Tree

section Listing

variable {db : Database} {volume : Uuid}

/-- The rows that `pgos.list` sorts. -/
def Database.childRows (db : Database) (volume : Uuid) (location : Location) : List NodeRow :=
  let children := db.zoneEntries.filter fun child =>
    child.volumeId = volume ∧ child.zoneId = location.zoneId ∧
      child.parentPath = location.relativePath
  let nested := db.zones.filter fun zone =>
    zone.volumeId = volume ∧ zone.parent = some (location.zoneId, location.relativePath)
  (children.map fun child => (entryInode location.zonePath child).toNodeRow) ++
    nested.map fun zone => (zoneInode zone.toZoneNode).toNodeRow

/-- The row describes a child of the directory. -/
inductive ChildRow (tree : Tree) (names : List Text) : NodeRow → Prop
  | zone {zone : ZoneNode} {name : Text} (found : tree.ZoneAt zone (names ++ [name])) :
      ChildRow tree names (zoneInode zone).toNodeRow
  | entry {zone : ZoneNode} {entry : ZoneEntry} {front rest : List Text} {name : Text}
      (found : tree.EntryAt zone entry front (rest ++ [name])) (here : names = front ++ rest) :
      ChildRow tree names (entryInode zone.path entry).toNodeRow

/-- The rows that `pgos.list` shows of a directory are its children. -/
theorem list_of_directory (wellFormed : (db.tree volume).WellFormed) {names : List Text}
    (valid : Components names) (directory : (db.tree volume).Has names .directory) :
    ∃ location, db.locateZone volume (pathText names) = some location ∧
      db.list volume (pathText names) = .ok ((db.childRows volume location).insertionSort
        fun first second => collateC first.name second.name) ∧
      ∀ row, row ∈ db.childRows volume location ↔ ChildRow (db.tree volume) names row := by
  obtain ⟨zone, front, rest, located⟩ := wellFormed.located_exists valid
  have restValid := located.components valid
  have inside := wellFormed.directoryIn_of_has located directory
  have isDirectory : ¬ (relativeText rest ≠ [] ∧ (db.zoneEntries.filter fun entry =>
      decide (entry.volumeId = volume ∧ entry.zoneId = zone.id ∧
        entry.relativePath = relativeText rest ∧ entry.kind = .directory)) = []) := by
    rintro ⟨nonempty, none⟩
    rcases inside with top | ⟨entry, member, inZone, path, kind⟩
    · exact nonempty top
    · obtain ⟨inTable, inVolume⟩ := mem_tree_entries.mp member
      exact List.filter_eq_nil_iff.mp none entry inTable
        (decide_eq_true ⟨inVolume, inZone, path, kind⟩)
  refine ⟨_, locateZone_of_located wellFormed valid located, ?_, ?_⟩
  · unfold Database.list
    rw [assertPath_of_canonical (canonicalPath_pathText valid), ok_bind,
      locateZone_of_located wellFormed valid located, strict, ok_bind]
    dsimp only
    rw [if_neg isDirectory]
    rfl
  · intro row
    unfold Database.childRows
    dsimp only
    rw [List.mem_append, List.mem_map, List.mem_map]
    constructor
    · rintro (⟨entry, member, rfl⟩ | ⟨nested, member, rfl⟩)
      · obtain ⟨inTable, chosen⟩ := List.mem_filter.mp member
        obtain ⟨inVolume, inZone, parent⟩ := of_decide_eq_true chosen
        obtain ⟨owner, upper, inner, found⟩ :=
          wellFormed.entryAt_of_mem (mem_tree_entries.mpr ⟨inTable, inVolume⟩)
        obtain rfl := wellFormed.zone_ids owner found.zoneAt.member zone located.zoneAt.member
          (found.inZone.symm.trans inZone)
        obtain rfl := found.zoneAt.names_unique located.zoneAt
        obtain ⟨before, last, rfl⟩ := (List.eq_nil_or_concat' inner).resolve_left found.nonempty
        rw [wellFormed.parentPath_eq found] at parent
        obtain rfl := relativeText_injective found.valid.left restValid parent
        exact .entry found located.names_eq
      · obtain ⟨inTable, chosen⟩ := List.mem_filter.mp member
        obtain ⟨inVolume, points⟩ := of_decide_eq_true chosen
        have inTree : nested.toZoneNode ∈ (db.tree volume).zones :=
          mem_tree_zones.mpr ⟨List.mem_map_of_mem inTable, inVolume⟩
        obtain ⟨upper, zoneAt⟩ := wellFormed.zoneAt_of_mem inTree
        have nonempty : upper ≠ [] := by
          rintro rfl
          rw [wellFormed.root_parent nested.toZoneNode inTree zoneAt.path] at points
          cases points
        obtain ⟨parent, above, inner, parentAt, innerValid, itsParent, whole, -⟩ :=
          wellFormed.zone_hangs zoneAt nonempty
        rw [itsParent] at points
        obtain ⟨sameId, sameRelative⟩ := Prod.mk.inj (Option.some.inj points)
        obtain rfl := wellFormed.zone_ids parent parentAt.member zone located.zoneAt.member sameId
        obtain rfl := parentAt.names_unique located.zoneAt
        obtain rfl := relativeText_injective innerValid restValid sameRelative
        rw [whole, ← located.names_eq] at zoneAt
        exact .zone zoneAt
    · intro child
      cases child with
      | @zone nested name found =>
          right
          obtain ⟨parent, upper, inner, parentAt, innerValid, points, path, holds⟩ :=
            wellFormed.zone_hangs found (by simp)
          obtain ⟨rfl, -⟩ := List.append_inj' path rfl
          obtain ⟨rfl, rfl, rfl⟩ := wellFormed.located_unique located
            (wellFormed.located_of_directoryIn parentAt innerValid holds)
          obtain ⟨inTable, inVolume⟩ := mem_tree_zones.mp found.member
          obtain ⟨stored, storedMember, rfl⟩ := List.mem_map.mp inTable
          exact ⟨stored, List.mem_filter.mpr ⟨storedMember, decide_eq_true ⟨inVolume, points⟩⟩, rfl⟩
      | @entry owner entry upper inner name found here =>
          left
          subst here
          have parent := wellFormed.parentPath_eq found
          have holds := wellFormed.entry_parent entry found.member
          rw [parent, found.inZone] at holds
          obtain ⟨rfl, rfl, rfl⟩ := wellFormed.located_unique located
            (wellFormed.located_of_directoryIn found.zoneAt found.valid.left holds)
          obtain ⟨inTable, inVolume⟩ := mem_tree_entries.mp found.member
          exact ⟨entry, List.mem_filter.mpr ⟨inTable,
            decide_eq_true ⟨inVolume, found.inZone, parent⟩⟩, rfl⟩

/-- A child is a node below the directory, and every such node is one. -/
theorem exists_childRow_iff {tree : Tree} (wellFormed : tree.WellFormed) {names : List Text}
    {name : Text} :
    (∃ row, ChildRow tree names row ∧ row.name = name) ↔ ∃ kind, tree.Has (names ++ [name]) kind := by
  have nameOfZone {zone : ZoneNode} {name : Text} (found : tree.ZoneAt zone (names ++ [name])) :
      zone.name = name := by
    obtain ⟨parent, upper, rest, -, -, -, whole, -⟩ := wellFormed.zone_hangs found (by simp)
    exact (List.cons.inj (List.append_inj' whole rfl).2).1.symm
  constructor
  · rintro ⟨row, child, named⟩
    cases child with
    | @zone zone last found =>
        obtain rfl : last = name := (nameOfZone found).symm.trans named
        exact ⟨.directory, .zone found⟩
    | @entry owner entry front rest last found here =>
        obtain rfl : last = name := (wellFormed.name_eq found).symm.trans named
        refine ⟨entry.kind, ?_⟩
        rw [here, List.append_assoc]
        exact .entry found
  · rintro ⟨kind, has⟩
    generalize whole : names ++ [name] = child at has
    cases has with
    | zone found =>
        subst whole
        exact ⟨_, .zone found, nameOfZone found⟩
    | @entry owner entry front rest found =>
        obtain ⟨before, last, rfl⟩ := (List.eq_nil_or_concat' rest).resolve_left found.nonempty
        rw [← List.append_assoc] at whole
        obtain ⟨here, same⟩ := List.append_inj' whole rfl
        obtain rfl := (List.cons.inj same).1
        exact ⟨_, .entry found here, wellFormed.name_eq found⟩

theorem list_eq_ok_nil_iff (wellFormed : (db.tree volume).WellFormed) {names : List Text}
    (valid : Components names) (directory : (db.tree volume).Has names .directory) :
    db.list volume (pathText names) = .ok [] ↔
      ∀ name kind, ¬ (db.tree volume).Has (names ++ [name]) kind := by
  obtain ⟨location, -, listed, rows⟩ := list_of_directory wellFormed valid directory
  rw [listed, Except.ok.injEq, ← List.length_eq_zero_iff, List.length_insertionSort,
    List.length_eq_zero_iff, List.eq_nil_iff_forall_not_mem]
  constructor
  · intro none name kind has
    obtain ⟨row, child, -⟩ := (exists_childRow_iff wellFormed).mpr ⟨kind, has⟩
    exact none row ((rows row).mpr child)
  · intro none row member
    obtain ⟨kind, has⟩ := (exists_childRow_iff wellFormed).mp ⟨row, (rows row).mp member, rfl⟩
    exact none row.name kind has

theorem nothing_below_of_no_child {tree : Tree} (wellFormed : tree.WellFormed) {names : List Text}
    (none : ∀ name kind, ¬ tree.Has (names ++ [name]) kind) {extra : List Text} {kind : Kind}
    (has : tree.Has (names ++ extra) kind) : extra = [] := by
  cases extra with
  | nil => rfl
  | cons name rest =>
      rw [← List.singleton_append, ← List.append_assoc] at has
      by_cases last : rest = []
      · rw [last, List.append_nil] at has
        exact absurd has (none name kind)
      · exact absurd (wellFormed.has_above has last) (none name .directory)

theorem Removable.nothing_below (wellFormed : (db.tree volume).WellFormed) {names : List Text}
    {recursive : Bool} {location : Location} (valid : Components names)
    (removable : Removable db volume (pathText names) recursive location)
    (plain : recursive = false) {extra : List Text} {kind : Kind}
    (has : (db.tree volume).Has (names ++ extra) kind) : extra = [] := by
  obtain ⟨own, present⟩ := Option.ne_none_iff_exists'.mp removable.present
  have target := (kindOf_eq_some_iff wellFormed valid own).mp present
  by_cases directory : own = .directory
  · subst directory
    have empty := removable.empty
    unfold Database.blockingRows at empty
    rw [if_pos ⟨present, by simp [plain]⟩] at empty
    exact nothing_below_of_no_child wellFormed
      ((list_eq_ok_nil_iff wellFormed valid target).mp empty) has
  · by_contra below
    exact directory (wellFormed.has_unique target (wellFormed.has_above has below))

end Listing

/-! ### The rows that `pgos.remove` deletes -/

/-- The zones that a call deletes. -/
def removedZone (volume : Uuid) (target : Text) (location : Location) (recursive : Bool)
    (zone : ZoneNode) : Bool :=
  if location.relativePath = [] then zoneRow volume target zone
  else recursive && nestedZoneRow volume target zone

/-- The entry lies in one of the zones that a call deletes. -/
def Database.inRemovedZone (db : Database) (volume : Uuid) (target : Text) (location : Location)
    (recursive : Bool) (entry : ZoneEntry) : Bool :=
  decide (entry.volumeId = volume ∧ entry.zoneId ∈
    (db.zoneNodes.filter (removedZone volume target location recursive)).map ZoneNode.id)

/-- The entries that a call deletes. -/
def Database.removedEntry (db : Database) (volume : Uuid) (target : Text) (location : Location)
    (recursive : Bool) (entry : ZoneEntry) : Bool :=
  db.inRemovedZone volume target location recursive entry ||
    (decide (location.relativePath ≠ []) &&
      subtreeRow volume location.zoneId location.relativePath recursive entry)

section RemovedRows

variable (db : Database) (volume : Uuid) (target : Text) (location : Location) (recursive : Bool)

theorem removedZone_volume {zone : ZoneNode}
    (removed : removedZone volume target location recursive zone = true) :
    zone.volumeId = volume := by
  unfold removedZone at removed
  split at removed
  · exact (of_decide_eq_true removed).1
  · rw [Bool.and_eq_true] at removed
    exact (of_decide_eq_true removed.2).1

theorem removedEntry_volume {entry : ZoneEntry}
    (removed : db.removedEntry volume target location recursive entry = true) :
    entry.volumeId = volume := by
  unfold Database.removedEntry at removed
  rw [Bool.or_eq_true, Bool.and_eq_true] at removed
  rcases removed with inZone | ⟨-, selected⟩
  · exact (of_decide_eq_true inZone).1
  · exact (of_decide_eq_true selected).1

theorem tree_deleteZoneTrees (selected : ZoneNode → Bool) (view : Uuid) :
    (db.deleteZoneTrees volume selected).1.tree view =
      { zones := (db.tree view).zones.filter fun zone => !selected zone
        entries := (db.tree view).entries.filter fun entry =>
          !decide (entry.volumeId = volume ∧
            entry.zoneId ∈ (db.zoneNodes.filter selected).map ZoneNode.id) } := by
  unfold Database.deleteZoneTrees
  rw [tree_deleteZones, tree_deleteEntries]

theorem removedZone_of_zone (isZone : location.relativePath = []) :
    removedZone volume target location recursive = zoneRow volume target := by
  funext zone
  rw [removedZone, if_pos isZone]

theorem removedZone_of_entry (isEntry : location.relativePath ≠ []) :
    removedZone volume target location true = nestedZoneRow volume target := by
  funext zone
  rw [removedZone, if_neg isEntry, Bool.true_and]

theorem removedZone_of_plain (isEntry : location.relativePath ≠ []) :
    removedZone volume target location false = fun _ => false := by
  funext zone
  rw [removedZone, if_neg isEntry, Bool.false_and]

theorem tree_removeRows (view : Uuid) :
    (db.removeRows volume target location recursive).1.tree view =
      { zones := (db.tree view).zones.filter fun zone =>
          !removedZone volume target location recursive zone
        entries := (db.tree view).entries.filter fun entry =>
          !db.removedEntry volume target location recursive entry } := by
  unfold Database.removeRows Database.removedEntry Database.inRemovedZone
  by_cases isZone : location.relativePath = []
  · rw [if_pos isZone, removedZone_of_zone _ _ _ _ isZone, tree_deleteZoneTrees]
    simp [isZone]
  · rw [if_neg isZone]
    unfold Database.removeEntryRows
    cases recursive with
    | true =>
        rw [removedZone_of_entry _ _ _ isZone]
        change Database.tree (Database.deleteEntries
          (db.deleteZoneTrees volume (nestedZoneRow volume target)).1 _) view = _
        rw [tree_deleteEntries, tree_deleteZoneTrees]
        dsimp only
        rw [List.filter_filter]
        congr 1
        apply List.filter_congr
        intro entry _
        rw [decide_eq_true isZone, Bool.true_and, Bool.not_or, Bool.and_comm]
    | false =>
        rw [removedZone_of_plain _ _ _ isZone]
        change Database.tree (Database.deleteEntries db _) view = _
        rw [tree_deleteEntries]
        simp [isZone]

theorem removeRows_count :
    (db.removeRows volume target location recursive).2 =
      (db.zoneEntries.filter (db.removedEntry volume target location recursive)).length +
        (db.zoneNodes.filter (removedZone volume target location recursive)).length := by
  have split : db.removedEntry volume target location recursive = fun entry =>
      db.inRemovedZone volume target location recursive entry ||
        (decide (location.relativePath ≠ []) &&
          subtreeRow volume location.zoneId location.relativePath recursive entry) := rfl
  rw [split, length_filter_or]
  unfold Database.removeRows Database.inRemovedZone
  by_cases isZone : location.relativePath = []
  · rw [if_pos isZone, removedZone_of_zone _ _ _ _ isZone]
    simp [isZone, Database.deleteZoneTrees]
  · rw [if_neg isZone]
    unfold Database.removeEntryRows
    cases recursive with
    | true =>
        rw [removedZone_of_entry _ _ _ isZone]
        simp [isZone, Database.deleteZoneTrees, Database.deleteZones, Database.deleteEntries]
        omega
    | false =>
        rw [removedZone_of_plain _ _ _ isZone]
        simp [isZone]

end RemovedRows

/-! ### Exact removals -/

/-- The patterns that a call evaluates are exact. -/
def RemoveExact (db : Database) (volume : Uuid) (target : Text) (recursive : Bool)
    (location : Location) : Prop :=
  (location.relativePath = [] ∨ recursive = true → (db.tree volume).ZonesExact target) ∧
    (location.relativePath ≠ [] → recursive = true → (db.tree volume).EntriesExact location)

instance (db : Database) (volume : Uuid) (target : Text) (recursive : Bool)
    (location : Location) : Decidable (RemoveExact db volume target recursive location) :=
  inferInstanceAs (Decidable (_ ∧ _))

section Exact

variable {db : Database} {volume : Uuid} {names : List Text} {recursive : Bool}
  {zone : ZoneNode} {front inner : List Text}

/-- The location of a path that is not the root. -/
structure Target (db : Database) (volume : Uuid) (names : List Text) (zone : ZoneNode)
    (front inner : List Text) (location : Location) : Prop where
  wellFormed : (db.tree volume).WellFormed
  valid : Components names
  nonempty : names ≠ []
  located : (db.tree volume).Located names zone front inner
  location_eq : location =
    { zoneId := zone.id, zonePath := zone.path, relativePath := relativeText inner }

theorem Removable.target {target : Text} {location : Location}
    (removable : Removable db volume target recursive location)
    (wellFormed : (db.tree volume).WellFormed) :
    ∃ names zone front inner, target = pathText names ∧
      Target db volume names zone front inner location := by
  obtain ⟨names, zone, front, inner, valid, rfl, located, same⟩ :=
    located_of_locateZone wellFormed removable.canonical removable.located
  have nonempty : names ≠ [] := by
    rintro rfl
    exact removable.notRoot rfl
  exact ⟨names, zone, front, inner, rfl, wellFormed, valid, nonempty, located, same⟩

variable {location : Location} (at_ : Target db volume names zone front inner location)

include at_

theorem Target.relativePath_eq_nil_iff : location.relativePath = [] ↔ inner = [] := by
  rw [at_.location_eq]
  exact relativeText_eq_nil_iff (at_.located.components at_.valid)

theorem Target.not_zoneAt (isEntry : inner ≠ []) (other : ZoneNode) :
    ¬ (db.tree volume).ZoneAt other names := by
  intro found
  have above := at_.located.deepest other names found (List.prefix_refl names)
  have lengths := above.length_le
  have whole := congrArg List.length at_.located.names_eq
  rw [List.length_append] at whole
  have positive := List.length_pos_of_ne_nil isEntry
  omega

theorem Target.removedZone_iff (removable : Removable db volume (pathText names) recursive location)
    (exactly : RemoveExact db volume (pathText names) recursive location) {other : ZoneNode}
    {upper : List Text} (zoneAt : (db.tree volume).ZoneAt other upper) :
    removedZone volume (pathText names) location recursive other = true ↔ names <+: upper := by
  have inVolume := (mem_tree_zones.mp zoneAt.member).2
  have atOrBelow := zoneAt.atOrBelow_iff at_.valid at_.nonempty
  by_cases isZone : location.relativePath = []
  · rw [removedZone_of_zone _ _ _ _ isZone, ← atOrBelow]
    unfold zoneRow AtOrBelow
    rw [decide_eq_true_eq, exactly.1 (Or.inl isZone) other zoneAt.member]
    exact and_iff_right inVolume
  · have isEntry : inner ≠ [] := fun empty => isZone (at_.relativePath_eq_nil_iff.mpr empty)
    cases deep : recursive with
    | true =>
        rw [removedZone_of_entry _ _ _ isZone, ← atOrBelow]
        unfold nestedZoneRow AtOrBelow
        rw [decide_eq_true_eq, exactly.1 (Or.inr deep) other zoneAt.member]
        constructor
        · rintro ⟨-, below⟩
          exact Or.inr below
        · rintro (here | below)
          · have same := pathText_injective zoneAt.valid at_.valid (zoneAt.path.symm.trans here)
            exact absurd (same ▸ zoneAt) (at_.not_zoneAt isEntry other)
          · exact ⟨inVolume, below⟩
    | false =>
        rw [removedZone_of_plain _ _ _ isZone]
        constructor
        · intro impossible
          cases impossible
        · rintro ⟨extra, rfl⟩
          have here := removable.nothing_below at_.wellFormed at_.valid deep (.zone zoneAt)
          rw [here, List.append_nil] at zoneAt
          exact absurd zoneAt (at_.not_zoneAt isEntry other)

theorem Target.removedEntry_iff (keys : Keys db)
    (removable : Removable db volume (pathText names) recursive location)
    (exactly : RemoveExact db volume (pathText names) recursive location) {owner : ZoneNode}
    {entry : ZoneEntry} {upper rest : List Text}
    (found : (db.tree volume).EntryAt owner entry upper rest) :
    db.removedEntry volume (pathText names) location recursive entry = true ↔
      names <+: upper ++ rest := by
  have inVolume := (mem_tree_entries.mp found.member).2
  have zoneGone : db.inRemovedZone volume (pathText names) location recursive entry = true ↔
      names <+: upper := by
    unfold Database.inRemovedZone
    rw [decide_eq_true_eq, ← at_.removedZone_iff removable exactly found.zoneAt]
    constructor
    · rintro ⟨-, listed⟩
      obtain ⟨removed, removedMember, same⟩ := List.mem_map.mp listed
      obtain ⟨inTable, chosen⟩ := List.mem_filter.mp removedMember
      rwa [keys.zone_eq_of_id (mem_tree_zones.mp found.zoneAt.member).1 inTable
        (found.inZone.symm.trans same.symm)]
    · intro removed
      refine ⟨inVolume, List.mem_map.mpr ⟨owner, List.mem_filter.mpr
        ⟨(mem_tree_zones.mp found.zoneAt.member).1, removed⟩, found.inZone.symm⟩⟩
  have innerValid := at_.located.components at_.valid
  rw [at_.wellFormed.prefix_entry_iff at_.located found]
  unfold Database.removedEntry
  rw [Bool.or_eq_true, zoneGone, Bool.and_eq_true, decide_eq_true_eq]
  by_cases isZone : location.relativePath = []
  · have empty := at_.relativePath_eq_nil_iff.mp isZone
    constructor
    · rintro (above | ⟨isEntry, -⟩)
      · exact Or.inl above
      · exact absurd isZone isEntry
    · rintro (above | ⟨rfl, -⟩)
      · exact Or.inl above
      · left
        rw [at_.located.names_eq, empty, List.append_nil,
          at_.located.zoneAt.names_unique found.zoneAt]
  · have isEntry : inner ≠ [] := fun empty => isZone (at_.relativePath_eq_nil_iff.mpr empty)
    rw [subtreeRow_iff at_.wellFormed _ _ at_.located.zoneAt.member (by rw [at_.location_eq]) innerValid
      isEntry (by rw [at_.location_eq]) (exactly.2 isZone) found]
    apply or_congr_right
    constructor
    · rintro ⟨-, rfl, rfl | ⟨-, below⟩⟩
      · exact ⟨rfl, List.prefix_refl rest⟩
      · exact ⟨rfl, below⟩
    · rintro ⟨rfl, extra, rfl⟩
      refine ⟨isZone, rfl, ?_⟩
      cases deep : recursive with
      | true => exact Or.inr ⟨rfl, List.prefix_append inner extra⟩
      | false =>
          left
          have has : (db.tree volume).Has (names ++ extra) entry.kind := by
            rw [at_.located.names_eq, List.append_assoc,
              at_.located.zoneAt.names_unique found.zoneAt]
            exact .entry found
          rw [removable.nothing_below at_.wellFormed at_.valid deep has, List.append_nil]

theorem Target.tree_removeRows (keys : Keys db)
    (removable : Removable db volume (pathText names) recursive location)
    (exactly : RemoveExact db volume (pathText names) recursive location) :
    (db.removeRows volume (pathText names) location recursive).1.tree volume =
      (db.tree volume).without (pathText names) := by
  rw [PostgreOS.tree_removeRows]
  unfold Tree.without
  congr 1
  · apply List.filter_congr
    intro other member
    obtain ⟨upper, zoneAt⟩ := at_.wellFormed.zoneAt_of_mem member
    have same : removedZone volume (pathText names) location recursive other =
        decide (AtOrBelow (pathText names) other.path) := by
      rw [Bool.eq_iff_iff, decide_eq_true_eq, at_.removedZone_iff removable exactly zoneAt,
        zoneAt.atOrBelow_iff at_.valid at_.nonempty]
    rw [same, decide_not]
  · apply List.filter_congr
    intro entry member
    obtain ⟨owner, upper, rest, found⟩ := at_.wellFormed.entryAt_of_mem member
    have same : db.removedEntry volume (pathText names) location recursive entry =
        decide ((db.tree volume).EntryBelow (pathText names) entry) := by
      rw [Bool.eq_iff_iff, decide_eq_true_eq, at_.removedEntry_iff keys removable exactly found,
        found.entryBelow_iff at_.wellFormed at_.valid at_.nonempty]
    rw [same, decide_not]

/-- A call that is not recursive may delete zones elsewhere, but each with all that is
below it. -/
theorem Target.removeRows_wellFormed (keys : Keys db)
    (removable : Removable db volume (pathText names) false location)
    (top : location.relativePath = []) :
    ((db.removeRows volume (pathText names) location false).1.tree volume).WellFormed := by
  have wellFormed := at_.wellFormed
  -- An entry goes with its zone.
  have owned {entry : ZoneEntry} {owner : ZoneNode} (entryMember : entry ∈ (db.tree volume).entries)
      (member : owner ∈ (db.tree volume).zones) (inZone : owner.id = entry.zoneId) :
      db.removedEntry volume (pathText names) location false entry =
        removedZone volume (pathText names) location false owner := by
    unfold Database.removedEntry Database.inRemovedZone
    rw [Bool.eq_iff_iff, decide_eq_false (not_not.mpr top), Bool.false_and, Bool.or_false,
      decide_eq_true_eq]
    constructor
    · rintro ⟨-, listed⟩
      obtain ⟨removed, removedMember, same⟩ := List.mem_map.mp listed
      obtain ⟨inTable, chosen⟩ := List.mem_filter.mp removedMember
      rwa [keys.zone_eq_of_id (mem_tree_zones.mp member).1 inTable (inZone.trans same.symm)]
    · intro chosen
      exact ⟨(mem_tree_entries.mp entryMember).2, List.mem_map.mpr
        ⟨owner, List.mem_filter.mpr ⟨(mem_tree_zones.mp member).1, chosen⟩, inZone⟩⟩
  -- A nested zone goes with its parent.
  have nested {zone parent : ZoneNode} {relative : Text} (member : zone ∈ (db.tree volume).zones)
      (parentMember : parent ∈ (db.tree volume).zones)
      (points : zone.parent = some (parent.id, relative))
      (removed : removedZone volume (pathText names) location false parent = true) :
      removedZone volume (pathText names) location false zone = true := by
    obtain ⟨whole, zoneAt⟩ := wellFormed.zoneAt_of_mem member
    have inner : whole ≠ [] := by
      rintro rfl
      rw [wellFormed.root_parent zone member zoneAt.path] at points
      cases points
    obtain ⟨above, upper, rest, aboveAt, restValid, itsParent, path, inside⟩ :=
      wellFormed.zone_hangs zoneAt inner
    rw [itsParent] at points
    obtain rfl := wellFormed.zone_ids above aboveAt.member parent parentMember
      (Prod.mk.inj (Option.some.inj points)).1
    rw [removedZone_of_zone _ _ _ _ top] at removed ⊢
    obtain ⟨-, here | below⟩ := of_decide_eq_true removed
    · rw [aboveAt.path] at here
      obtain rfl := pathText_injective aboveAt.valid at_.valid here
      rw [path, List.append_assoc] at zoneAt
      have nothing := removable.nothing_below wellFormed at_.valid rfl (.zone zoneAt)
      simp at nothing
    · refine decide_eq_true ⟨(mem_tree_zones.mp member).2, Or.inr ?_⟩
      have aboveInner : upper ≠ [] := by
        rintro rfl
        have deeper := count_lt_of_likeBelow below
        rw [aboveAt.path, pathText_nil] at deeper
        have slash := List.count_pos_iff.mpr (slash_mem_pathText names)
        simp at deeper
        omega
      rw [zoneAt.path, path, List.append_assoc,
        pathText_append aboveInner, ← aboveAt.path]
      exact likeBelow_append below _
  rw [PostgreOS.tree_removeRows]
  apply wellFormed.delete
  · intro root member isRoot
    rw [removedZone_of_zone _ _ _ _ top, zoneRow, isRoot, Bool.not_eq_true', decide_eq_false_iff_not]
    rintro ⟨-, same | below⟩
    · exact removable.notRoot same.symm
    · have deeper := count_lt_of_likeBelow below
      have slash := List.count_pos_iff.mpr (slash_mem_pathText names)
      simp at deeper
      omega
  · intro zone member parent parentMember relative stays points
    have parentStays : (!removedZone volume (pathText names) location false parent) = true := by
      rw [Bool.not_eq_true', Bool.eq_false_iff] at stays ⊢
      exact fun removed => stays (nested member parentMember points removed)
    refine ⟨parentStays, ?_⟩
    intro entry entryMember inZone _
    rw [owned entryMember parentMember inZone.symm]
    exact parentStays
  · intro entry member stays
    constructor
    · intro owner ownerMember inZone
      rwa [← owned member ownerMember inZone]
    · intro above aboveMember sameZone _
      obtain ⟨owner, ownerMember, inZone⟩ := wellFormed.entry_zone entry member
      rw [owned aboveMember ownerMember (inZone.trans sameZone.symm), ← owned member ownerMember inZone]
      exact stays

end Exact

theorem tree_removeRows_other (db : Database) {volume view : Uuid} (target : Text)
    (location : Location) (recursive : Bool) (other : view ≠ volume) :
    (db.removeRows volume target location recursive).1.tree view = db.tree view := by
  rw [PostgreOS.tree_removeRows]
  have zones : ((db.tree view).zones.filter fun zone =>
      !removedZone volume target location recursive zone) = (db.tree view).zones := by
    rw [List.filter_eq_self]
    intro zone member
    rw [Bool.not_eq_true', Bool.eq_false_iff]
    intro removed
    exact other ((mem_tree_zones.mp member).2.symm.trans (removedZone_volume _ _ _ _ removed))
  have entries : ((db.tree view).entries.filter fun entry =>
      !db.removedEntry volume target location recursive entry) = (db.tree view).entries := by
    rw [List.filter_eq_self]
    intro entry member
    rw [Bool.not_eq_true', Bool.eq_false_iff]
    intro removed
    exact other ((mem_tree_entries.mp member).2.symm.trans (removedEntry_volume _ _ _ _ _ removed))
  rw [zones, entries]

theorem remove_wellFormed {db after : Database} {volume view : Uuid} {target : Text}
    {recursive : Bool} {count : Nat} (sound : Sound db) (wellFormed : (db.tree view).WellFormed)
    (exactly : ∀ location, db.locateZone volume target = some location →
      RemoveExact db volume target recursive location)
    (done : db.remove volume target recursive = .ok (after, count)) :
    (after.tree view).WellFormed := by
  obtain ⟨location, removable, reclaimed, -⟩ := remove_ok.mp done
  have kept := removeRows_kept (.refl sound) removable
  refine Reclaimed.wellFormed (.of_reclaim kept.sound.store kept.sound.stored reclaimed) ?_
  by_cases same : view = volume
  · subst same
    obtain ⟨names, zone, front, inner, rfl, at_⟩ := removable.target wellFormed
    rw [at_.tree_removeRows sound.keys removable (exactly location removable.located)]
    exact wellFormed.without at_.valid at_.nonempty
  · rw [tree_removeRows_other db target location recursive same]
    exact wellFormed

theorem remove_plain_wellFormed {db after : Database} {volume view : Uuid} {target : Text}
    {count : Nat} (sound : Sound db) (wellFormed : (db.tree view).WellFormed)
    (done : db.remove volume target false = .ok (after, count)) :
    (after.tree view).WellFormed := by
  obtain ⟨location, removable, reclaimed, -⟩ := remove_ok.mp done
  by_cases zone : view = volume ∧ location.relativePath = []
  · obtain ⟨rfl, top⟩ := zone
    have kept := removeRows_kept (.refl sound) removable
    refine Reclaimed.wellFormed (.of_reclaim kept.sound.store kept.sound.stored reclaimed) ?_
    obtain ⟨names, zone, front, inner, rfl, at_⟩ := removable.target wellFormed
    exact at_.removeRows_wellFormed sound.keys removable top
  · by_cases same : view = volume
    · subst same
      refine remove_wellFormed sound wellFormed ?_ done
      intro other located
      obtain rfl := Option.some.inj (removable.located.symm.trans located)
      refine ⟨?_, ?_⟩
      · rintro (top | deep)
        · exact absurd ⟨rfl, top⟩ zone
        · cases deep
      · intro _ deep
        cases deep
    · have kept := removeRows_kept (.refl sound) removable
      refine Reclaimed.wellFormed (.of_reclaim kept.sound.store kept.sound.stored reclaimed) ?_
      rw [tree_removeRows_other db target location false same]
      exact wellFormed

end PostgreOS
