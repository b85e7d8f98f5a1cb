/-
The views of the namespace.

`pgos.stat` resolves a path, `pgos.list` follows the stored parent columns and
`pgos.inode` rebuilds the path from the zone. On a tree they show the same rows.
-/

import PostgreOS.ReadBack
import PostgreOS.Removal

namespace PostgreOS

open Library.Outcome Library.Table

/-- `inode` is what the tables show at the path with these components. -/
inductive Tree.InodeAt (tree : Tree) : List Text → Inode → Prop
  | zone {zone : ZoneNode} {front : List Text} (found : tree.ZoneAt zone front) :
      InodeAt tree front (zoneInode zone)
  | entry {zone : ZoneNode} {entry : ZoneEntry} {front rest : List Text}
      (found : tree.EntryAt zone entry front rest) :
      InodeAt tree (front ++ rest) (entryInode zone.path entry)

namespace Tree.InodeAt

variable {tree : Tree} {names : List Text} {inode : Inode}

theorem components (shown : tree.InodeAt names inode) : Components names := by
  cases shown with
  | zone found => exact found.valid
  | entry found => exact found.components

theorem path_eq (shown : tree.InodeAt names inode) : inode.path = pathText names := by
  cases shown with
  | zone found => exact found.path
  | entry found => exact found.absolutePath_eq

theorem has (shown : tree.InodeAt names inode) : tree.Has names inode.kind := by
  cases shown with
  | zone found => exact .zone found
  | entry found => exact .entry found

theorem exists_of_has {kind : Kind} (has : tree.Has names kind) :
    ∃ inode, tree.InodeAt names inode ∧ inode.kind = kind := by
  cases has with
  | zone found => exact ⟨_, .zone found, rfl⟩
  | entry found => exact ⟨_, .entry found, rfl⟩

end Tree.InodeAt

section Views

variable {db : Database} {volume : Uuid}

theorem stat_of_zoneAt (keys : Keys db) (wellFormed : (db.tree volume).WellFormed)
    {zone : ZoneNode} {front : List Text} (found : (db.tree volume).ZoneAt zone front) :
    db.stat volume (pathText front) = .ok [zoneInode zone] := by
  have located := locateZone_of_located wellFormed found.valid (Tree.WellFormed.located_of_zoneAt found)
  obtain ⟨row, member, rfl⟩ := List.mem_map.mp (mem_tree_zones.mp found.member).1
  unfold Database.stat
  rw [assertPath_of_canonical (canonicalPath_pathText found.valid), ok_bind, located, strict, ok_bind]
  dsimp only
  rw [if_pos relativeText_nil]
  have only : (db.zones.filter fun zone => decide (zone.id = row.id)) = [row] := by
    apply filter_eq_singleton keys.zone_ids member
    · exact decide_eq_true rfl
    · intro other _ same
      exact of_decide_eq_true same
  rw [only]
  rfl

theorem stat_of_inodeAt (keys : Keys db) (wellFormed : (db.tree volume).WellFormed)
    {names : List Text} {inode : Inode} (shown : (db.tree volume).InodeAt names inode) :
    db.stat volume (pathText names) = .ok [inode] := by
  cases shown with
  | zone found => exact stat_of_zoneAt keys wellFormed found
  | entry found => exact stat_of_entryAt keys wellFormed found

theorem stat_of_free (wellFormed : (db.tree volume).WellFormed) {names : List Text}
    (valid : Components names) (free : ∀ kind, ¬ (db.tree volume).Has names kind) :
    db.stat volume (pathText names) = .ok [] := by
  obtain ⟨zone, front, rest, located⟩ := wellFormed.located_exists valid
  have inner : rest ≠ [] := by
    rintro rfl
    exact free .directory ((wellFormed.has_iff_of_located located).mpr (Or.inl ⟨rfl, rfl⟩))
  have restValid := located.components valid
  unfold Database.stat
  rw [assertPath_of_canonical (canonicalPath_pathText valid), ok_bind,
    locateZone_of_located wellFormed valid located, strict, ok_bind]
  dsimp only
  rw [if_neg (relativeText_ne_nil restValid inner)]
  have none : db.zoneEntries.filter (atLocation volume
      { zoneId := zone.id, zonePath := zone.path, relativePath := relativeText rest }) = [] := by
    rw [List.filter_eq_nil_iff]
    intro entry member chosen
    obtain ⟨inVolume, inZone, path⟩ := atLocation_iff.mp chosen
    exact free entry.kind ((wellFormed.has_iff_of_located located).mpr (Or.inr ⟨entry,
      ⟨located.zoneAt, mem_tree_entries.mpr ⟨member, inVolume⟩, inZone, restValid, inner, path⟩, rfl⟩))
  rw [none]
  rfl

theorem stat_cases (keys : Keys db) (wellFormed : (db.tree volume).WellFormed) {names : List Text}
    (valid : Components names) :
    (∃ inode, (db.tree volume).InodeAt names inode ∧
        db.stat volume (pathText names) = .ok [inode]) ∨
      (∀ kind, ¬ (db.tree volume).Has names kind) ∧ db.stat volume (pathText names) = .ok [] := by
  by_cases present : ∃ kind, (db.tree volume).Has names kind
  · obtain ⟨kind, has⟩ := present
    obtain ⟨inode, shown, -⟩ := Tree.InodeAt.exists_of_has has
    exact Or.inl ⟨inode, shown, stat_of_inodeAt keys wellFormed shown⟩
  · have free := not_exists.mp present
    exact Or.inr ⟨free, stat_of_free wellFormed valid free⟩

theorem stat_eq_singleton_iff (keys : Keys db) (wellFormed : (db.tree volume).WellFormed)
    {names : List Text} (valid : Components names) {inode : Inode} :
    db.stat volume (pathText names) = .ok [inode] ↔ (db.tree volume).InodeAt names inode := by
  constructor
  · intro stated
    rcases stat_cases keys wellFormed valid with ⟨other, shown, same⟩ | ⟨-, none⟩
    · rw [same] at stated
      rwa [← (List.cons.inj (Except.ok.inj stated)).1]
    · rw [none] at stated
      cases stated
  · exact stat_of_inodeAt keys wellFormed

/-! ### `pgos.list` -/

theorem childRows_ids (keys : Keys db) (location : Location) :
    ((db.childRows volume location).map NodeRow.id).Nodup := by
  unfold Database.childRows
  dsimp only
  rw [List.map_append, List.map_map, List.map_map]
  apply List.nodup_append.mpr
  refine ⟨?_, ?_, ?_⟩
  · exact keys.entry_ids.sublist (List.filter_sublist.map ZoneEntry.id)
  · exact keys.zone_ids.sublist (List.filter_sublist.map _)
  · intro first firstMember second secondMember same
    obtain ⟨entry, entryMember, rfl⟩ := List.mem_map.mp firstMember
    obtain ⟨zone, zoneMember, rfl⟩ := List.mem_map.mp secondMember
    exact keys.ids_apart entry (List.mem_of_mem_filter entryMember) zone.toZoneNode
      (List.mem_map_of_mem (List.mem_of_mem_filter zoneMember)) same

theorem childRow_iff {tree : Tree} {names : List Text} {row : NodeRow} :
    ChildRow tree names row ↔
      ∃ name inode, tree.InodeAt (names ++ [name]) inode ∧ inode.toNodeRow = row := by
  constructor
  · intro child
    cases child with
    | zone found => exact ⟨_, _, .zone found, rfl⟩
    | @entry owner entry front rest name found here =>
        refine ⟨name, entryInode owner.path entry, ?_, rfl⟩
        rw [here, List.append_assoc]
        exact .entry found
  · rintro ⟨name, inode, shown, rfl⟩
    generalize whole : names ++ [name] = child at shown
    cases shown with
    | zone found =>
        subst whole
        exact .zone found
    | @entry owner entry front rest found =>
        obtain ⟨before, last, rfl⟩ := (List.eq_nil_or_concat' rest).resolve_left found.nonempty
        rw [← List.append_assoc] at whole
        exact .entry found (List.append_inj' whole rfl).1

theorem directory_of_list (wellFormed : (db.tree volume).WellFormed) {names : List Text}
    (valid : Components names) {rows : List NodeRow}
    (listed : db.list volume (pathText names) = .ok rows) :
    (db.tree volume).Has names .directory := by
  obtain ⟨zone, front, rest, located⟩ := wellFormed.located_exists valid
  have restValid := located.components valid
  unfold Database.list at listed
  rw [assertPath_of_canonical (canonicalPath_pathText valid), ok_bind,
    locateZone_of_located wellFormed valid located, strict, ok_bind] at listed
  dsimp only at listed
  split at listed
  · cases listed
  · rename_i accepted
    rw [wellFormed.has_iff_of_located located]
    by_cases top : rest = []
    · exact Or.inl ⟨top, rfl⟩
    · right
      obtain ⟨entry, member⟩ := List.exists_mem_of_ne_nil _
        fun none => accepted ⟨relativeText_ne_nil restValid top, none⟩
      obtain ⟨inTable, chosen⟩ := List.mem_filter.mp member
      obtain ⟨inVolume, inZone, path, kind⟩ := of_decide_eq_true chosen
      exact ⟨entry, ⟨located.zoneAt, mem_tree_entries.mpr ⟨inTable, inVolume⟩, inZone, restValid,
        top, path⟩, kind⟩

theorem pairwise_collateC (rows : List NodeRow) :
    (rows.insertionSort fun first second => collateC first.name second.name).Pairwise
      fun first second => collateC first.name second.name = true := by
  have total : Std.Total fun first second : NodeRow =>
      collateC first.name second.name = true := by
    constructor
    intro first second
    unfold collateC
    simp only [decide_eq_true_eq]
    exact le_total first.name second.name
  have transitive : IsTrans NodeRow fun first second => collateC first.name second.name = true := by
    constructor
    intro first second third
    unfold collateC
    simp only [decide_eq_true_eq]
    exact le_trans
  exact List.pairwise_insertionSort _ rows

theorem inode_of_inodeAt (keys : Keys db) {names : List Text} {inode : Inode}
    (shown : (db.tree volume).InodeAt names inode) : db.inode volume inode.id = [inode] := by
  cases shown with
  | zone found => exact inode_of_node keys (Tree.nodeOfZone_mem found.member)
  | entry found =>
      exact inode_of_node keys
        (Tree.nodeOfEntry_mem found.member found.zoneAt.member found.inZone.symm)

/-- The ids in use are the ids of the rows of the volume. -/
def Database.UsesId (db : Database) (volume : Uuid) (id : NodeId) : Prop :=
  (∃ zone ∈ db.zones, zone.volumeId = volume ∧ zone.id = id) ∨
    ∃ entry ∈ db.zoneEntries, entry.volumeId = volume ∧ entry.id = id

instance (db : Database) (volume : Uuid) (id : NodeId) : Decidable (db.UsesId volume id) :=
  inferInstanceAs (Decidable ((∃ zone ∈ db.zones, _) ∨ ∃ entry ∈ db.zoneEntries, _))

theorem inodeAt_of_usesId (wellFormed : (db.tree volume).WellFormed) {id : NodeId}
    (used : db.UsesId volume id) :
    ∃ names inode, (db.tree volume).InodeAt names inode ∧ inode.id = id := by
  rcases used with ⟨zone, member, inVolume, rfl⟩ | ⟨entry, member, inVolume, rfl⟩
  · obtain ⟨front, found⟩ := wellFormed.zoneAt_of_mem
      (mem_tree_zones.mpr ⟨List.mem_map_of_mem member, inVolume⟩)
    exact ⟨front, _, .zone found, rfl⟩
  · obtain ⟨zone, front, rest, found⟩ := wellFormed.entryAt_of_mem
      (mem_tree_entries.mpr ⟨member, inVolume⟩)
    exact ⟨front ++ rest, _, .entry found, rfl⟩

end Views

/-- `stat` returns at most one row; `list` returns the children that `stat` knows, once
each and by name; `inode` returns the row of its id, which `stat` returns for its path. -/
theorem views_agree {db : Database} {volume : Uuid} (state : WellFormedVolume db volume) :
    (∀ path, CanonicalPath path → ∃ rows, db.stat volume path = .ok rows ∧ rows.length ≤ 1) ∧
    (∀ directory, CanonicalPath directory →
      ((∃ rows, db.list volume directory = .ok rows) ↔
        ∃ inode, db.stat volume directory = .ok [inode] ∧ inode.kind = .directory) ∧
      ∀ rows, db.list volume directory = .ok rows →
        rows.Nodup ∧
        rows.Pairwise (fun first second => collateC first.name second.name = true) ∧
        ∀ row, row ∈ rows ↔ CanonicalPath row.path ∧ parentOf row.path = some directory ∧
          ∃ inode, db.stat volume row.path = .ok [inode] ∧ inode.toNodeRow = row) ∧
    ∀ id, db.UsesId volume id → ∃ inode, db.inode volume id = [inode] ∧ inode.id = id ∧
      db.stat volume inode.path = .ok [inode] := by
  have wellFormed := state.tree
  have keys := state.committed.sound.keys
  refine ⟨?_, ?_, ?_⟩
  · intro path canonical
    obtain ⟨names, valid, rfl⟩ := (canonicalPath_iff path).mp canonical
    rcases stat_cases keys wellFormed valid with ⟨inode, -, same⟩ | ⟨-, same⟩
    · exact ⟨[inode], same, Nat.le_refl 1⟩
    · exact ⟨[], same, Nat.zero_le 1⟩
  · intro directory canonical
    obtain ⟨names, valid, rfl⟩ := (canonicalPath_iff directory).mp canonical
    constructor
    · constructor
      · rintro ⟨rows, listed⟩
        obtain ⟨inode, shown, kind⟩ :=
          Tree.InodeAt.exists_of_has (directory_of_list wellFormed valid listed)
        exact ⟨inode, stat_of_inodeAt keys wellFormed shown, kind⟩
      · rintro ⟨inode, stated, kind⟩
        have has := ((stat_eq_singleton_iff keys wellFormed valid).mp stated).has
        rw [kind] at has
        obtain ⟨location, -, listed, -⟩ := list_of_directory wellFormed valid has
        exact ⟨_, listed⟩
    · intro rows listed
      obtain ⟨location, -, expected, children⟩ :=
        list_of_directory wellFormed valid (directory_of_list wellFormed valid listed)
      obtain rfl := Except.ok.inj (listed.symm.trans expected)
      refine ⟨?_, pairwise_collateC _, ?_⟩
      · exact (List.perm_insertionSort _ _).nodup_iff.mpr (childRows_ids keys location).of_map
      · intro row
        rw [List.mem_insertionSort, children, childRow_iff]
        constructor
        · rintro ⟨name, inode, shown, rfl⟩
          have path : inode.toNodeRow.path = pathText (names ++ [name]) := shown.path_eq
          rw [path]
          exact ⟨canonicalPath_pathText shown.components, parentOf_pathText shown.components,
            inode, stat_of_inodeAt keys wellFormed shown, rfl⟩
        · rintro ⟨accepted, parent, inode, stated, rfl⟩
          obtain ⟨child, childValid, path⟩ := (canonicalPath_iff _).mp accepted
          rw [path] at parent stated
          rcases List.eq_nil_or_concat' child with rfl | ⟨front, name, rfl⟩
          · cases parent
          · rw [parentOf_pathText childValid] at parent
            obtain rfl := pathText_injective childValid.left valid (Option.some.inj parent)
            exact ⟨name, inode, (stat_eq_singleton_iff keys wellFormed childValid).mp stated, rfl⟩
  · intro id used
    obtain ⟨names, inode, shown, rfl⟩ := inodeAt_of_usesId wellFormed used
    refine ⟨inode, inode_of_inodeAt keys shown, rfl, ?_⟩
    rw [shown.path_eq]
    exact stat_of_inodeAt keys wellFormed shown

/-- A volume with a nested zone. -/
theorem views_agree_of_zone : ∃ inode, (Database.empty.calls zoneCalls).inode 7 2 = [inode] ∧
    inode.id = 2 ∧ (Database.empty.calls zoneCalls).stat 7 inode.path = .ok [inode] :=
  (views_agree (wellFormed_calls (by decide +kernel))).2.2 2 (by decide +kernel)

end PostgreOS
