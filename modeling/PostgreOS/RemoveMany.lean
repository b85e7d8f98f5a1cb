/-
Several removals in one call, compared with the same removals one after the other.

The bulk statement of `remove_many` finds and checks all rows in the state before the call and
deletes the named entries only. One after the other the removals see what the earlier ones have
left, and a recursive one takes with it what its patterns select.
-/

import PostgreOS.Sweeping

namespace PostgreOS

open Library.Outcome Library.Sweeps Library.Table

/-- The paths are different, and each is the path of an entry. -/
def Tree.NamesEntries (tree : Tree) (paths : List Text) : Prop :=
  paths.Nodup ∧ ∀ path ∈ paths, ∃ entry, tree.EntryOn path entry

/-- When the bulk statement of `remove_many` does what the removals do one after the other. -/
def BulkAgrees (db : Database) (volume : Uuid) (wellFormed : (db.tree volume).WellFormed)
    (paths : List Text) : Bool → Bool → Prop
  -- Nothing is below the entries, or both calls fail.
  | false, false => (db.tree volume).NamesEntries paths →
      (∀ path ∈ paths, ∀ row, ¬ (db.tree volume).RowBelow path row) ∨
        (∃ path ∈ paths, ∃ row, (db.tree volume).RowBelow path row ∧ row.isRight = true) ∧
          ∃ front path back row, paths = front ++ path :: back ∧
            (db.tree volume).RowBelow path row ∧ ¬ (db.tree volume).Listed front row
  | false, true => ∀ path ∈ paths, ∀ row, ¬ (db.tree volume).RowBelow path row
  -- The patterns of a path select entries that are listed, and no zone.
  | true, false => (db.tree volume).NamesEntries paths →
      ∀ front path back, paths = front ++ path :: back →
        ∀ row ∈ db.sweptRows volume true path, (db.tree volume).Listed (front ++ [path]) row
  | true, true => ∀ front path back, paths = front ++ path :: back →
      (db.removals volume wellFormed true).Standing front path →
        ∀ row ∈ db.sweptRows volume true path, (db.tree volume).Listed paths row

section Agreement

variable {db : Database} {volume : Uuid} {recursive force : Bool} {paths : List Text}
  (wellFormed : (db.tree volume).WellFormed) (canonical : ∀ path ∈ paths, CanonicalPath path)
  (noZone : ∀ path ∈ paths, ∀ zone ∈ (db.tree volume).zones, zone.path ≠ path)

theorem complete_iff : (db.removals volume wellFormed recursive).Complete paths ↔
    (db.tree volume).NamesEntries paths := by
  refine and_congr_right fun _ => forall₂_congr fun path _ => ?_
  constructor
  · rintro ⟨row, entry, -, on⟩
    exact ⟨entry, on⟩
  · rintro ⟨entry, on⟩
    exact ⟨.inr entry, entry, rfl, on⟩

theorem held_plain {path : Text} : (db.removals volume wellFormed false).held path = ∅ ↔
    ∀ row, ¬ (db.tree volume).RowBelow path row := by
  rw [Set.eq_empty_iff_forall_notMem]
  exact forall_congr' fun row => not_congr (and_iff_right rfl)

theorem held_recursive (path : Text) : (db.removals volume wellFormed true).held path = ∅ := by
  rw [Set.eq_empty_iff_forall_notMem]
  rintro row ⟨plain, -⟩
  cases plain

include canonical noZone

/-- Without `recursive` a removal takes the entry only. -/
theorem swept_plain {path : Text} (member : path ∈ paths) {row : NodeTableRow}
    (swept : row ∈ db.sweptRows volume false path) :
    (db.removals volume wellFormed false).named path row := by
  obtain ⟨inTree, location, located, removed⟩ := swept
  obtain ⟨names, zone, front, inner, valid, rfl, found, rfl⟩ :=
    located_of_locateZone wellFormed (canonical path member) located
  have nonempty : inner ≠ [] := by
    rintro rfl
    have whole := found.names_eq
    rw [List.append_nil] at whole
    exact noZone _ member zone found.zoneAt.member (whole ▸ found.zoneAt.path)
  have isEntry := relativeText_ne_nil (found.components valid) nonempty
  cases row with
  | inl other =>
      change removedZone volume _ _ false other = true at removed
      rw [removedZone_of_plain volume _ _ isEntry] at removed
      cases removed
  | inr entry =>
      change db.removedEntry volume _ _ false entry = true at removed
      unfold Database.removedEntry Database.inRemovedZone subtreeRow at removed
      rw [removedZone_of_plain volume _ _ isEntry] at removed
      simp only [Bool.or_eq_true, Bool.and_eq_true, decide_eq_true_eq, List.filter_false,
        List.map_nil, List.not_mem_nil, and_false, false_or, Bool.false_eq_true, false_and,
        or_false] at removed
      obtain ⟨-, -, inZone, relative⟩ := removed
      refine ⟨entry, rfl, zone, front, inner, by rw [found.names_eq], found.zoneAt, inTree, inZone,
        found.components valid, nonempty, relative⟩

theorem sweeps_plain {fewer : List Text} (subset : fewer ⊆ paths) :
    (db.removals volume wellFormed false).sweeps fewer =
      (db.removals volume wellFormed false).listed fewer := by
  apply Set.Subset.antisymm _ Sweeper.listed_subset_sweeps
  rintro row ⟨path, member, swept⟩
  exact ⟨path, member, swept_plain wellFormed canonical noZone (subset member) swept⟩

theorem bulkAgrees_plain_strict :
    (db.removals volume wellFormed false).bulk false paths =
        (db.removals volume wellFormed false).run false paths ↔
      BulkAgrees db volume wellFormed paths false false := by
  rw [Sweeper.bulk_eq_run_strict, complete_iff]
  refine forall_congr' fun complete => or_congr ?_ (and_congr ?_ ?_)
  · constructor
    · intro bare path member
      obtain ⟨front, back, split⟩ := List.append_of_mem member
      exact (held_plain wellFormed).mp (bare front path back split).1
    · intro nothing front path back split
      have member : path ∈ paths := by
        rw [split]
        simp
      refine ⟨(held_plain wellFormed).mpr (nothing path member), ?_⟩
      intro row swept
      exact ⟨path, by simp, swept_plain wellFormed canonical noZone member swept⟩
  · refine exists_congr fun path => and_congr_right fun _ => ?_
    rw [← Set.nonempty_iff_ne_empty]
    exact exists_congr fun row => and_iff_right rfl
  · refine exists_congr fun front => exists_congr fun path => exists_congr fun back => ?_
    rw [exists_and_left]
    refine and_congr_right fun split => ?_
    have subset : front ⊆ paths := by
      rw [split]
      exact List.subset_append_left _ _
    rw [sweeps_plain wellFormed canonical noZone subset, Set.not_subset]
    constructor
    · rintro (gone | ⟨row, ⟨-, below⟩, notListed⟩)
      · obtain ⟨entry, on⟩ := complete.2 path (by rw [split]; simp)
        obtain ⟨other, earlier, named⟩ := gone (.inr entry) ⟨entry, rfl, on⟩
        rw [← (db.removals volume wellFormed false).name_unique ⟨entry, rfl, on⟩ named] at earlier
        exact absurd earlier (fresh_of_nodup complete.1 split)
      · exact ⟨row, below, notListed⟩
    · rintro ⟨row, below, notListed⟩
      exact Or.inr ⟨row, ⟨rfl, below⟩, notListed⟩

theorem bulkAgrees_plain_forced :
    (db.removals volume wellFormed false).bulk true paths =
        (db.removals volume wellFormed false).run true paths ↔
      BulkAgrees db volume wellFormed paths false true := by
  rw [Sweeper.bulk_eq_run_forced]
  constructor
  · rintro ⟨-, each⟩ path member row below
    obtain ⟨front, back, split, fresh⟩ := List.eq_append_cons_of_mem member
    have subset : front ⊆ paths := by
      rw [split]
      exact List.subset_append_left _ _
    have standing : (db.removals volume wellFormed false).Standing front path := by
      obtain ⟨entry, on, -⟩ := id below
      refine ⟨.inr entry, fun gone => fresh ?_, entry, rfl, on⟩
      have swept := Sweeper.gone_subset_sweeps gone
      rw [sweeps_plain wellFormed canonical noZone subset] at swept
      obtain ⟨other, earlier, named⟩ := swept
      rwa [← (db.removals volume wellFormed false).name_unique ⟨entry, rfl, on⟩ named] at earlier
    exact (held_plain wellFormed).mp (each front path back split standing).1 row below
  · intro nothing
    have free : ∀ path ∈ paths, (db.removals volume wellFormed false).held path = ∅ :=
      fun path member => (held_plain wellFormed).mpr (nothing path member)
    refine ⟨fun path member => Sweeper.seen_of_held (free path member), ?_⟩
    intro front path back split _
    have member : path ∈ paths := by
      rw [split]
      simp
    refine ⟨free path member, ?_⟩
    intro row swept
    exact ⟨path, member, swept_plain wellFormed canonical noZone member swept⟩

theorem bulkAgrees_iff :
    (db.removals volume wellFormed recursive).bulk force paths =
        (db.removals volume wellFormed recursive).run force paths ↔
      BulkAgrees db volume wellFormed paths recursive force := by
  have unseen (path : Text) : (db.removals volume wellFormed true).seen path = ∅ :=
    Sweeper.seen_of_held (held_recursive wellFormed path)
  cases recursive with
  | false =>
      cases force with
      | false => exact bulkAgrees_plain_strict wellFormed canonical noZone
      | true => exact bulkAgrees_plain_forced wellFormed canonical noZone
  | true =>
      cases force with
      | false =>
          rw [Sweeper.bulk_eq_run_strict, complete_iff]
          refine forall_congr' fun complete => ?_
          rw [or_iff_left]
          · exact forall_congr' fun front => forall_congr' fun path => forall₂_congr fun back split =>
              and_iff_right (held_recursive wellFormed path)
          · rintro ⟨⟨path, -, sees⟩, -⟩
            exact sees (unseen path)
      | true =>
          rw [Sweeper.bulk_eq_run_forced, and_iff_right fun path _ => unseen path]
          exact forall_congr' fun front => forall_congr' fun path => forall_congr' fun back =>
            forall₂_congr fun split _ => and_iff_right (held_recursive wellFormed path)

end Agreement

/-! ### The calls -/

/-- The removals one after the other; with `force` a missing path is passed over. -/
def Database.removeEach (db : Database) (volume : Uuid) (targetPaths : List Text)
    (recursive force : Bool) : Result (Database × Nat) :=
  targetPaths.foldlM (removeNext volume recursive force) (db, 0)

/-- The call succeeds where the removals one after the other do, and leaves the same nodes. -/
def RemovalsAgree (db : Database) (volume : Uuid) (targetPaths : List Text)
    (recursive force : Bool) : Prop :=
  ((∃ last, db.removeMany volume targetPaths recursive force = .ok last) ↔
      ∃ last, db.removeEach volume targetPaths recursive force = .ok last) ∧
    ∀ many each, db.removeMany volume targetPaths recursive force = .ok many →
      db.removeEach volume targetPaths recursive force = .ok each →
        ∀ node, node ∈ many.1.nodes volume ↔ node ∈ each.1.nodes volume

section Calls

variable {db : Database} {volume : Uuid} {recursive force : Bool} {paths : List Text}

theorem Leftover.refl (sound : Sound db) : Leftover db db volume :=
  ⟨sound, .refl _, fun _ _ _ member _ => member, fun _ _ => rfl⟩

theorem Leftover.nodes_eq {state : Database} (left : Leftover db state volume) :
    state.nodes volume = (state.tree volume).nodes db.contentOf :=
  Tree.nodes_congr left.content

/-- The same nodes are left if and only if the same rows are. -/
theorem Leftover.same_iff {first second : Database} (keys : Keys db)
    (hFirst : Leftover db first volume) (hSecond : Leftover db second volume) :
    (∀ node, node ∈ first.nodes volume ↔ node ∈ second.nodes volume) ↔
      (first.tree volume).rows = (second.tree volume).rows := by
  rw [hFirst.nodes_eq, hSecond.nodes_eq]
  constructor
  · -- The node of a row is there exactly where the row is.
    have fewer {left right : Database} (hLeft : Leftover db left volume)
        (hRight : Leftover db right volume)
        (within : ∀ node, node ∈ (left.tree volume).nodes db.contentOf →
          node ∈ (right.tree volume).nodes db.contentOf) :
        (left.tree volume).rows ⊆ (right.tree volume).rows := by
      rintro (zone | entry) member
      · exact ((keys.identified volume).nodeOfZone_mem_iff db.contentOf hRight.fewer.zones
          hRight.fewer.entries (hLeft.fewer.zones member)).mp
            (within _ (Tree.nodeOfZone_mem member))
      · have inTree := hLeft.fewer.entries member
        obtain ⟨zone, zoneMember, inZone⟩ := (keys.identified volume).entry_zone entry inTree
        have stays := hLeft.zones_stay entry member zone zoneMember inZone
        exact (((keys.identified volume).nodeOfEntry_mem_iff db.contentOf hRight.fewer.zones
          hRight.fewer.entries inTree zoneMember inZone).mp
            (within _ (Tree.nodeOfEntry_mem member stays inZone))).1
    intro same
    exact Set.Subset.antisymm (fewer hFirst hSecond fun node => (same node).mp)
      (fewer hSecond hFirst fun node => (same node).mpr)
  · intro same node
    have zones (zone : ZoneNode) : zone ∈ (first.tree volume).zones ↔ zone ∈ (second.tree volume).zones :=
      Set.ext_iff.mp same (.inl zone)
    have entries (entry : ZoneEntry) :
        entry ∈ (first.tree volume).entries ↔ entry ∈ (second.tree volume).entries :=
      Set.ext_iff.mp same (.inr entry)
    rw [Tree.mem_nodes, Tree.mem_nodes]
    simp only [zones, entries]

theorem agree_iff_of_leaves (keys : Keys db) {many each : Result (Database × Nat)}
    {hMany hEach : Option (Set NodeTableRow)} (first : Leaves db volume many hMany)
    (second : Leaves db volume each hEach) :
    (((∃ last, many = .ok last) ↔ ∃ last, each = .ok last) ∧
      ∀ last other, many = .ok last → each = .ok other →
        ∀ node, node ∈ last.1.nodes volume ↔ node ∈ other.1.nodes volume) ↔ hMany = hEach := by
  cases hMany with
  | none =>
      obtain ⟨failure, rfl⟩ := first
      cases hEach with
      | none =>
          obtain ⟨other, rfl⟩ := second
          simp
      | some rows =>
          obtain ⟨next, rfl, -⟩ := second
          simp
  | some left =>
      obtain ⟨last, rfl, leftover, rfl⟩ := first
      cases hEach with
      | none =>
          obtain ⟨failure, rfl⟩ := second
          simp
      | some rows =>
          obtain ⟨other, rfl, otherLeft, rfl⟩ := second
          rw [Option.some.injEq, ← leftover.same_iff keys otherLeft]
          simp

theorem removalsAgree_of_eq (same : db.removeMany volume paths recursive force =
    db.removeEach volume paths recursive force) : RemovalsAgree db volume paths recursive force := by
  unfold RemovalsAgree
  rw [same]
  refine ⟨Iff.rfl, ?_⟩
  intro many each ran again node
  rw [Except.ok.inj (ran.symm.trans again)]

theorem removeMany_single (path : Text) :
    db.removeMany volume [path] recursive force = db.removeEach volume [path] recursive force := by
  unfold Database.removeMany Database.removeEach
  rw [List.foldlM_cons]
  unfold removeNext
  dsimp only
  cases db.skips volume force path with
  | error failure => rfl
  | ok skipped =>
      rw [ok_bind, ok_bind]
      cases skipped with
      | true => rfl
      | false =>
          rw [if_neg Bool.false_ne_true, if_neg Bool.false_ne_true]
          cases db.remove volume path recursive with
          | error failure => rfl
          | ok next =>
              rw [ok_bind]
              simp only [Nat.zero_add]
              rfl

theorem removeMany_several (several : paths.length ≠ 1)
    (canonical : ∀ path ∈ paths, CanonicalPath path) :
    db.removeMany volume paths recursive force =
      if db.noZoneListed volume paths = true then db.removeBulk volume paths recursive force
      else db.removeEach volume paths recursive force := by
  unfold Database.removeMany
  split
  · exact absurd rfl several
  · rw [mapM_assertPath_eq_ok.mpr ⟨rfl, canonical⟩, ok_bind]
    rfl

theorem noZoneListed_iff : db.noZoneListed volume paths = true ↔
    ∀ path ∈ paths, ∀ zone ∈ (db.tree volume).zones, zone.path ≠ path := by
  have nodes : (db.tree volume).zones = (db.zonesOf volume).map Zone.toZoneNode :=
    (zonesOf_map_toZoneNode db volume).symm
  unfold Database.noZoneListed
  rw [List.all_eq_true, nodes]
  refine forall₂_congr fun path _ => ?_
  rw [List.all_eq_true, List.forall_mem_map]
  exact forall₂_congr fun zone _ => decide_eq_true_iff

/-- `remove_many` agrees with its removals one after the other, unless it uses the bulk
statement where its condition fails. -/
theorem removeMany_agrees_iff (state : WellFormedVolume db volume)
    (canonical : ∀ path ∈ paths, CanonicalPath path) :
    RemovalsAgree db volume paths recursive force ↔
      (paths.length ≠ 1 → db.noZoneListed volume paths = true →
        BulkAgrees db volume state.tree paths recursive force) := by
  have sound := state.committed.sound
  by_cases single : paths.length = 1
  · obtain ⟨path, rfl⟩ := List.length_eq_one_iff.mp single
    exact iff_of_true (removalsAgree_of_eq (removeMany_single path)) fun several => absurd single several
  · have calls : db.removeMany volume paths recursive force =
        if db.noZoneListed volume paths = true then db.removeBulk volume paths recursive force
        else db.removeEach volume paths recursive force := removeMany_several single canonical
    by_cases free : db.noZoneListed volume paths = true
    · rw [if_pos free] at calls
      have noZone := noZoneListed_iff.mp free
      have inner : ∀ path ∈ paths, path ≠ ['/'] := by
        rintro path member rfl
        obtain ⟨zone, zoneMember, root⟩ := state.tree.root
        exact noZone _ member zone zoneMember root
      have bulk : Leaves db volume (db.removeBulk volume paths recursive force)
          ((db.removals volume state.tree recursive).bulk force paths) :=
        removeBulk_leaves state.tree sound canonical inner
      have loop : Leaves db volume (db.removeEach volume paths recursive force)
          ((db.removals volume state.tree recursive).run force paths) :=
        removeLoop_leaves state.tree canonical noZone (.refl sound)
      unfold RemovalsAgree
      rw [calls, agree_iff_of_leaves sound.keys bulk loop, bulkAgrees_iff state.tree canonical noZone]
      exact ⟨fun agree _ _ => agree, fun agree => agree single free⟩
    · rw [if_neg free] at calls
      exact iff_of_true (removalsAgree_of_eq calls) fun _ listed => absurd listed free

theorem rowBelow_free_iff (wellFormed : (db.tree volume).WellFormed) {path : Text}
    (canonical : CanonicalPath path) :
    (∀ row, ¬ (db.tree volume).RowBelow path row) ↔
      ∀ entry ∈ (db.locateZone volume path).bind (db.entryAt volume),
        (∀ zone ∈ (db.tree volume).zones, zone.parent ≠ some (entry.zoneId, entry.relativePath)) ∧
          ∀ child ∈ (db.tree volume).entries, child.zoneId = entry.zoneId →
            child.parentPath ≠ entry.relativePath := by
  constructor
  · intro none entry found
    have on := (entryOn_iff_located wellFormed canonical).mpr found
    constructor
    · exact fun zone member points => none (.inl zone) ⟨entry, on, member, points⟩
    · exact fun child member inZone parent => none (.inr child) ⟨entry, on, member, inZone, parent⟩
  · rintro every row ⟨entry, on, below⟩
    obtain ⟨zones, children⟩ := every entry ((entryOn_iff_located wellFormed canonical).mp on)
    cases row with
    | inl zone => exact zones zone below.1 below.2
    | inr child => exact children child below.1 below.2.1 below.2.2

end Calls

def filledCalls : List Op :=
  [.createVolume 7 ['v'] 0, .mkdir 7 ['/', 'a'] false 493 1,
    .mkdir 7 ['/', 'a', '/', 'b'] false 493 2, .mkdir 7 ['/', 'c'] false 493 3]

/-- The empty directory and a missing one. -/
theorem removeMany_agrees_of_empty :
    RemovalsAgree (Database.empty.calls filledCalls) 7 [['/', 'c'], ['/', 'd']] false true := by
  have state : WellFormedVolume (Database.empty.calls filledCalls) 7 :=
    wellFormed_calls (by decide +kernel)
  have canonical : ∀ path ∈ [['/', 'c'], ['/', 'd']], CanonicalPath path := by decide
  have free : ∀ path ∈ [['/', 'c'], ['/', 'd']],
      ∀ entry ∈ ((Database.empty.calls filledCalls).locateZone 7 path).bind
          ((Database.empty.calls filledCalls).entryAt 7),
        (∀ zone ∈ ((Database.empty.calls filledCalls).tree 7).zones,
          zone.parent ≠ some (entry.zoneId, entry.relativePath)) ∧
        ∀ child ∈ ((Database.empty.calls filledCalls).tree 7).entries,
          child.zoneId = entry.zoneId → child.parentPath ≠ entry.relativePath := by
    decide +kernel
  refine (removeMany_agrees_iff state canonical).mpr fun _ _ => ?_
  intro path member
  exact (rowBelow_free_iff state.tree (canonical path member)).mpr (free path member)

/-- The bulk statement leaves the child of a directory that it removes. -/
theorem removeMany_leaves_child :
    ¬ ∀ (db : Database) (volume : Uuid) (paths : List Text) (recursive force : Bool),
      WellFormedVolume db volume → paths ≠ [] → (∀ path ∈ paths, CanonicalPath path) →
        RemovalsAgree db volume paths recursive force := by
  intro every
  obtain ⟨-, same⟩ := every (Database.empty.calls filledCalls) 7 [['/', 'a'], ['/', 'c']] true false
    (wellFormed_calls (by decide +kernel)) (by decide) (by decide)
  have many : (Database.empty.calls filledCalls).removeMany 7 [['/', 'a'], ['/', 'c']] true false =
      .ok (Database.empty.calls (filledCalls ++ [.removeMany 7 [['/', 'a'], ['/', 'c']] true false]),
        2) := by decide +kernel
  have each : (Database.empty.calls filledCalls).removeEach 7 [['/', 'a'], ['/', 'c']] true false =
      .ok (Database.empty.calls (filledCalls ++ [.remove 7 ['/', 'a'] true, .remove 7 ['/', 'c'] true]),
        3) := by decide +kernel
  have stays : ∃ node ∈ (Database.empty.calls
        (filledCalls ++ [.removeMany 7 [['/', 'a'], ['/', 'c']] true false])).nodes 7,
      node ∉ (Database.empty.calls
        (filledCalls ++ [.remove 7 ['/', 'a'] true, .remove 7 ['/', 'c'] true])).nodes 7 := by
    decide +kernel
  obtain ⟨node, member, gone⟩ := stays
  exact gone ((same _ _ many each node).mp member)

end PostgreOS
