/-
Removals as sweeps.

A removal takes the entry at its path and what its patterns select; without `recursive` the rows
directly below the entry keep it. The loop of `remove_many` and its bulk statement leave the
rows that the rules for sweeps leave.
-/

import PostgreOS.BulkRemoval
import PostgreOS.Library.Sweeps
import PostgreOS.Places
import PostgreOS.RemoveSpec

namespace PostgreOS

open Library.Outcome Library.Sweeps Library.Table

namespace Tree

def EntryOn (tree : Tree) (path : Text) (entry : ZoneEntry) : Prop :=
  ∃ zone front rest, path = pathText (front ++ rest) ∧ tree.EntryAt zone entry front rest

def ChildOf (tree : Tree) (entry child : ZoneEntry) : Prop :=
  child ∈ tree.entries ∧ child.zoneId = entry.zoneId ∧ child.parentPath = entry.relativePath

def ZoneBelow (tree : Tree) (entry : ZoneEntry) (zone : ZoneNode) : Prop :=
  zone ∈ tree.zones ∧ zone.parent = some (entry.zoneId, entry.relativePath)

variable {tree : Tree} {path : Text}

theorem EntryOn.member {entry : ZoneEntry} (on : tree.EntryOn path entry) : entry ∈ tree.entries := by
  obtain ⟨zone, front, rest, -, found⟩ := on
  exact found.member

theorem WellFormed.entryOn_unique (wellFormed : tree.WellFormed) {other : Text}
    {first second : ZoneEntry} (hFirst : tree.EntryOn path first)
    (hSecond : tree.EntryOn other second) : path = other ↔ first = second := by
  obtain ⟨zone, front, rest, rfl, found⟩ := hFirst
  obtain ⟨otherZone, otherFront, otherRest, rfl, otherFound⟩ := hSecond
  constructor
  · intro same
    have names := pathText_injective found.components otherFound.components same
    exact (wellFormed.entryAt_unique found otherFound names).2.1
  · rintro rfl
    have zones := wellFormed.zone_ids zone found.zoneAt.member otherZone otherFound.zoneAt.member
      (found.inZone.symm.trans otherFound.inZone)
    subst zones
    rw [found.zoneAt.names_unique otherFound.zoneAt,
      relativeText_injective found.valid otherFound.valid (found.path.symm.trans otherFound.path)]

end Tree

section Located

variable {db state : Database} {volume : Uuid} {path : Text}

theorem Tree.Fewer.located_of_entryAt (fewer : (state.tree volume).Fewer (db.tree volume))
    (wellFormed : (db.tree volume).WellFormed) {zone : ZoneNode} {entry : ZoneEntry}
    {front rest : List Text} (found : (db.tree volume).EntryAt zone entry front rest)
    (stays : entry ∈ (state.tree volume).entries) (zoneStays : zone ∈ (state.tree volume).zones) :
    state.locateZone volume (pathText (front ++ rest)) = some
        { zoneId := zone.id, zonePath := zone.path, relativePath := relativeText rest } ∧
      state.entryAt volume
        { zoneId := zone.id, zonePath := zone.path, relativePath := relativeText rest } =
          some entry := by
  have zoneAt : (state.tree volume).ZoneAt zone front :=
    ⟨zoneStays, found.zoneAt.valid, found.zoneAt.path⟩
  have here : (state.tree volume).EntryAt zone entry front rest :=
    ⟨zoneAt, stays, found.inZone, found.valid, found.nonempty, found.path⟩
  constructor
  · refine locateZone_of_deepest (fun first hFirst second hSecond => wellFormed.zone_paths first
      (fewer.zones hFirst) second (fewer.zones hSecond)) found.components ⟨zoneAt, rfl, ?_⟩
    intro other names otherAt isPrefix
    exact wellFormed.zone_prefix found (fewer.zoneAt otherAt) isPrefix
  · exact entryAt_of_unique (fun first hFirst second hSecond => wellFormed.entry_paths first
      (fewer.entries hFirst) second (fewer.entries hSecond)) here zone.path

theorem Tree.Fewer.entryOn_of_kindOf (fewer : (state.tree volume).Fewer (db.tree volume))
    (canonical : CanonicalPath path) (noZone : ∀ zone ∈ (db.tree volume).zones, zone.path ≠ path)
    {kind : Kind} (present : state.kindOf volume path = some kind) :
    ∃ entry ∈ (state.tree volume).entries, (db.tree volume).EntryOn path entry := by
  obtain ⟨names, valid, rfl⟩ := (canonicalPath_iff path).mp canonical
  unfold Database.kindOf at present
  split at present
  · cases present
  · rename_i location located
    obtain ⟨zone, member, above, -, rfl⟩ := locateZone_eq_some located
    obtain ⟨front, ⟨rest, rfl⟩, zonePath⟩ := (mem_ancestorPaths_iff valid _).mp above
    have zoneAt : (db.tree volume).ZoneAt zone front :=
      ⟨fewer.zones member, valid.left, zonePath⟩
    have nonempty : rest ≠ [] := by
      rintro rfl
      rw [List.append_nil] at noZone
      exact noZone zone zoneAt.member zonePath
    have relative : relativeIn zone.path (pathText (front ++ rest)) = relativeText rest := by
      rw [zonePath]
      exact relativeIn_texts valid.left valid.right
    dsimp only at present
    rw [relative, if_neg (relativeText_ne_nil valid.right nonempty)] at present
    obtain ⟨entry, found, -⟩ := Option.map_eq_some_iff.mp present
    obtain ⟨stays, inZone, relativePath⟩ := mem_of_entryAt found
    exact ⟨entry, stays, zone, front, rest, rfl, zoneAt, fewer.entries stays, inZone, valid.right,
      nonempty, relativePath⟩

end Located

/-- A row of the two tables of nodes. -/
abbrev NodeTableRow := ZoneNode ⊕ ZoneEntry

def Tree.rows (tree : Tree) : Set NodeTableRow :=
  {row | row.elim (· ∈ tree.zones) (· ∈ tree.entries)}

def Tree.RowBelow (tree : Tree) (path : Text) (row : NodeTableRow) : Prop :=
  ∃ entry, tree.EntryOn path entry ∧ row.elim (tree.ZoneBelow entry) (tree.ChildOf entry)

def Tree.Listed (tree : Tree) (paths : List Text) (row : NodeTableRow) : Prop :=
  ∃ path ∈ paths, ∃ entry, row = .inr entry ∧ tree.EntryOn path entry

/-- The rows that `pgos.remove` deletes for a path. -/
def Database.sweptRows (db : Database) (volume : Uuid) (recursive : Bool) (path : Text) :
    Set NodeTableRow :=
  {row | row ∈ (db.tree volume).rows ∧ ∃ location, db.locateZone volume path = some location ∧
    row.elim (fun zone => removedZone volume path location recursive zone = true)
      (fun entry => db.removedEntry volume path location recursive entry = true)}

section Sweeping

variable {db state : Database} {volume : Uuid} {recursive : Bool} {path : Text}

theorem locateZone_of_entryOn (wellFormed : (db.tree volume).WellFormed) {entry : ZoneEntry}
    (on : (db.tree volume).EntryOn path entry) :
    ∃ location, db.locateZone volume path = some location ∧ location.relativePath ≠ [] ∧
      entry.volumeId = volume ∧ entry.zoneId = location.zoneId ∧
      entry.relativePath = location.relativePath := by
  obtain ⟨zone, front, rest, rfl, found⟩ := on
  obtain ⟨located, -⟩ := (Tree.Fewer.refl (db.tree volume)).located_of_entryAt wellFormed found
    found.member found.zoneAt.member
  exact ⟨_, located, relativeText_ne_nil found.valid found.nonempty,
    (mem_tree_entries.mp found.member).2, found.inZone, found.path⟩

theorem entryOn_swept (wellFormed : (db.tree volume).WellFormed) {entry : ZoneEntry}
    (on : (db.tree volume).EntryOn path entry) : .inr entry ∈ db.sweptRows volume recursive path := by
  obtain ⟨location, located, isEntry, inVolume, inZone, relative⟩ :=
    locateZone_of_entryOn wellFormed on
  refine ⟨on.member, location, located, ?_⟩
  change db.removedEntry volume path location recursive entry = true
  unfold Database.removedEntry subtreeRow
  rw [decide_eq_true isEntry, Bool.true_and, Bool.or_eq_true]
  exact Or.inr (decide_eq_true ⟨inVolume, inZone, Or.inl relative⟩)

/-- The removals of a well-formed volume. Only without `recursive` do rows directly below keep an
entry; the bulk statement looks for entries among them. -/
def Database.removals (db : Database) (volume : Uuid) (wellFormed : (db.tree volume).WellFormed)
    (recursive : Bool) : Sweeper Text NodeTableRow where
  all := (db.tree volume).rows
  named path row := ∃ entry, row = .inr entry ∧ (db.tree volume).EntryOn path entry
  swept := db.sweptRows volume recursive
  held path := {row | recursive = false ∧ (db.tree volume).RowBelow path row}
  seen path := {row | recursive = false ∧ (db.tree volume).RowBelow path row ∧ row.isRight = true}
  named_all := by
    rintro path row ⟨entry, rfl, on⟩
    exact on.member
  swept_all := by
    intro path row swept
    exact swept.1
  held_all := by
    rintro path (zone | child) ⟨-, entry, -, below⟩
    · exact below.1
    · exact below.1
  row_unique := by
    rintro path _ _ ⟨first, rfl, hFirst⟩ ⟨second, rfl, hSecond⟩
    rw [(wellFormed.entryOn_unique hFirst hSecond).mp rfl]
  name_unique := by
    rintro first second _ ⟨entry, rfl, hFirst⟩ ⟨other, same, hSecond⟩
    exact (wellFormed.entryOn_unique hFirst hSecond).mpr (Sum.inr.inj same)
  self := by
    rintro path _ ⟨entry, rfl, on⟩
    exact entryOn_swept wellFormed on
  held_named := by
    rintro path row ⟨-, entry, on, -⟩
    exact ⟨.inr entry, entry, rfl, on⟩
  seen_held := by
    rintro path row ⟨plain, below, -⟩
    exact ⟨plain, below⟩
  held_seen := by
    rintro path other row ⟨plain, below⟩ ⟨child, rfl, -⟩
    exact ⟨plain, below, rfl⟩

end Sweeping

/-! ### One removal after the other -/

/-- A state that removals of the volume lead to: fewer rows, and no entry without its zone. -/
structure Leftover (db state : Database) (volume : Uuid) : Prop where
  sound : Sound state
  fewer : (state.tree volume).Fewer (db.tree volume)
  zones_stay : ∀ entry ∈ (state.tree volume).entries, ∀ zone ∈ (db.tree volume).zones,
    zone.id = entry.zoneId → zone ∈ (state.tree volume).zones
  content : ∀ entry ∈ (state.tree volume).entries, state.contentOf entry = db.contentOf entry

section Steps

variable {db state : Database} {volume : Uuid} {recursive force : Bool} {path : Text}
  (wellFormed : (db.tree volume).WellFormed)

include wellFormed

/-- Nothing is below an entry that is no directory. -/
theorem nothing_below_file {entry : ZoneEntry} (on : (db.tree volume).EntryOn path entry)
    (file : entry.kind ≠ .directory) (row : NodeTableRow) :
    ¬ row.elim ((db.tree volume).ZoneBelow entry) ((db.tree volume).ChildOf entry) := by
  obtain ⟨zone, front, rest, -, found⟩ := on
  have notTop : entry.relativePath ≠ [] := by
    rw [found.path]
    exact relativeText_ne_nil found.valid found.nonempty
  have noDirectory : ¬ (db.tree volume).DirectoryIn entry.zoneId entry.relativePath := by
    rintro (top | ⟨directory, member, inZone, relative, kind⟩)
    · exact notTop top
    · rw [wellFormed.entry_paths directory member entry found.member inZone relative] at kind
      exact file kind
  cases row with
  | inl below =>
      rintro ⟨member, points⟩
      have inner : below.path ≠ ['/'] := by
        intro root
        rw [wellFormed.root_parent below member root] at points
        cases points
      obtain ⟨parent, -, relative, itsParent, -, -, inside⟩ :=
        wellFormed.zone_parent below member inner
      obtain ⟨sameZone, rfl⟩ := Prod.mk.inj (Option.some.inj (itsParent.symm.trans points))
      rw [sameZone] at inside
      exact noDirectory inside
  | inr child =>
      rintro ⟨member, inZone, parent⟩
      have inside := wellFormed.entry_parent child member
      rw [inZone, parent] at inside
      exact noDirectory inside

theorem Leftover.kindOf_entryOn (left : Leftover db state volume) {entry : ZoneEntry}
    (on : (db.tree volume).EntryOn path entry) (stays : entry ∈ (state.tree volume).entries) :
    state.kindOf volume path = some entry.kind := by
  obtain ⟨zone, front, rest, rfl, found⟩ := on
  obtain ⟨located, there⟩ := left.fewer.located_of_entryAt wellFormed found stays
    (left.zones_stay entry stays zone found.zoneAt.member found.inZone.symm)
  unfold Database.kindOf
  rw [located]
  dsimp only
  rw [if_neg (relativeText_ne_nil found.valid found.nonempty), there]
  rfl

/-- What keeps `pgos.remove` from removing an entry are the rows directly below it. -/
theorem blocking_iff (left : Leftover db state volume) {entry : ZoneEntry}
    (on : (db.tree volume).EntryOn path entry) (stays : entry ∈ (state.tree volume).entries) :
    state.blockingRows volume path recursive = .ok [] ↔
      ∀ row ∈ (db.removals volume wellFormed recursive).held path, row ∉ (state.tree volume).rows := by
  have only {row : NodeTableRow} : row ∈ (db.removals volume wellFormed recursive).held path ↔
      recursive = false ∧
        row.elim ((db.tree volume).ZoneBelow entry) ((db.tree volume).ChildOf entry) := by
    constructor
    · rintro ⟨plain, other, otherOn, below⟩
      rw [(wellFormed.entryOn_unique otherOn on).mp rfl] at below
      exact ⟨plain, below⟩
    · rintro ⟨plain, below⟩
      exact ⟨plain, entry, on, below⟩
  have kind := left.kindOf_entryOn wellFormed on stays
  have whole := on
  obtain ⟨zone, front, rest, rfl, found⟩ := whole
  obtain ⟨located, -⟩ := left.fewer.located_of_entryAt wellFormed found stays
    (left.zones_stay entry stays zone found.zoneAt.member found.inZone.symm)
  have inVolume := (mem_tree_entries.mp found.member).2
  unfold Database.blockingRows
  rw [kind]
  by_cases listing : some entry.kind = some Kind.directory ∧ ¬ recursive = true
  · obtain ⟨directory, plain⟩ := listing
    have directories : (state.zoneEntries.filter fun other => decide (other.volumeId = volume ∧
        other.zoneId = zone.id ∧ other.relativePath = relativeText rest ∧
          other.kind = .directory)) ≠ [] :=
      List.ne_nil_of_mem (List.mem_filter.mpr ⟨(mem_tree_entries.mp stays).1,
        decide_eq_true ⟨inVolume, found.inZone, found.path, Option.some.inj directory⟩⟩)
    rw [if_pos ⟨directory, plain⟩]
    unfold Database.list
    rw [assertPath_of_canonical (canonicalPath_pathText found.components), ok_bind, located, strict,
      ok_bind]
    dsimp only
    rw [if_neg fun both => directories both.2, Except.ok.injEq, ← List.length_eq_zero_iff,
      List.length_insertionSort, List.length_eq_zero_iff, List.append_eq_nil_iff,
      List.map_eq_nil_iff, List.map_eq_nil_iff, List.filter_eq_nil_iff, List.filter_eq_nil_iff]
    constructor
    · rintro ⟨noChild, noZone⟩ row held remains
      obtain ⟨-, below⟩ := only.mp held
      cases row with
      | inl nested =>
          obtain ⟨stored, storedMember, rfl⟩ := List.mem_map.mp (mem_tree_zones.mp remains).1
          apply noZone stored storedMember
          rw [← found.inZone, ← found.path]
          exact decide_eq_true ⟨(mem_tree_zones.mp remains).2, below.2⟩
      | inr child =>
          apply noChild child (mem_tree_entries.mp remains).1
          rw [← found.inZone, ← found.path]
          exact decide_eq_true ⟨(mem_tree_entries.mp remains).2, below.2⟩
    · intro apart
      have plainFalse : recursive = false := Bool.eq_false_iff.mpr plain
      constructor
      · intro child member chosen
        rw [← found.inZone, ← found.path] at chosen
        obtain ⟨childVolume, below⟩ := of_decide_eq_true chosen
        have remains : child ∈ (state.tree volume).entries := mem_tree_entries.mpr ⟨member, childVolume⟩
        exact apart (.inr child) (only.mpr ⟨plainFalse, left.fewer.entries remains, below⟩) remains
      · intro nested member chosen
        rw [← found.inZone, ← found.path] at chosen
        obtain ⟨nestedVolume, below⟩ := of_decide_eq_true chosen
        have remains : nested.toZoneNode ∈ (state.tree volume).zones :=
          mem_tree_zones.mpr ⟨List.mem_map_of_mem member, nestedVolume⟩
        exact apart (.inl nested.toZoneNode)
          (only.mpr ⟨plainFalse, left.fewer.zones remains, below⟩) remains
  · rw [if_neg listing]
    refine iff_of_true rfl ?_
    intro row held
    obtain ⟨plain, below⟩ := only.mp held
    have file : entry.kind ≠ .directory := by
      intro directory
      exact listing ⟨congrArg some directory, by simp [plain]⟩
    exact absurd below (nothing_below_file wellFormed on file row)

omit wellFormed in
theorem removedEntry_iff (left : Leftover db state volume) {location : Location}
    {entry : ZoneEntry} (stays : entry ∈ (state.tree volume).entries) :
    state.removedEntry volume path location recursive entry = true ↔
      db.removedEntry volume path location recursive entry = true := by
  have same : state.inRemovedZone volume path location recursive entry = true ↔
      db.inRemovedZone volume path location recursive entry = true := by
    unfold Database.inRemovedZone
    rw [decide_eq_true_eq, decide_eq_true_eq]
    refine and_congr_right fun inVolume => ?_
    constructor
    · intro listed
      obtain ⟨zone, chosen, sameId⟩ := List.mem_map.mp listed
      obtain ⟨member, removed⟩ := List.mem_filter.mp chosen
      have inTree := left.fewer.zones
        (mem_tree_zones.mpr ⟨member, removedZone_volume _ _ _ _ removed⟩)
      exact List.mem_map.mpr
        ⟨zone, List.mem_filter.mpr ⟨(mem_tree_zones.mp inTree).1, removed⟩, sameId⟩
    · intro listed
      obtain ⟨zone, chosen, sameId⟩ := List.mem_map.mp listed
      obtain ⟨member, removed⟩ := List.mem_filter.mp chosen
      have inTree := left.zones_stay entry stays zone
        (mem_tree_zones.mpr ⟨member, removedZone_volume _ _ _ _ removed⟩) sameId
      exact List.mem_map.mpr
        ⟨zone, List.mem_filter.mpr ⟨(mem_tree_zones.mp inTree).1, removed⟩, sameId⟩
  unfold Database.removedEntry
  rw [Bool.or_eq_true, Bool.or_eq_true, same]

/-- The removal of an entry without rows in its way. -/
theorem remove_of_entryOn (left : Leftover db state volume)
    {entry : ZoneEntry} (on : (db.tree volume).EntryOn path entry)
    (stays : entry ∈ (state.tree volume).entries)
    (free : state.blockingRows volume path recursive = .ok []) :
    ∃ after count, state.remove volume path recursive = .ok (after, count) ∧
      Leftover db after volume ∧
      (after.tree volume).rows = (state.tree volume).rows \ db.sweptRows volume recursive path := by
  have present : state.kindOf volume path ≠ none := by
    rw [left.kindOf_entryOn wellFormed on stays]
    exact Option.some_ne_none _
  obtain ⟨zone, front, rest, rfl, found⟩ := on
  obtain ⟨stillLocated, -⟩ := left.fewer.located_of_entryAt wellFormed found stays
    (left.zones_stay entry stays zone found.zoneAt.member found.inZone.symm)
  obtain ⟨located, -⟩ := (Tree.Fewer.refl (db.tree volume)).located_of_entryAt wellFormed found
    found.member found.zoneAt.member
  have removable : Removable state volume (pathText (front ++ rest)) recursive
      { zoneId := zone.id, zonePath := zone.path, relativePath := relativeText rest } :=
    ⟨canonicalPath_pathText found.components,
      pathText_ne_root found.components (List.append_ne_nil_of_right_ne_nil front found.nonempty),
      present, stillLocated, free⟩
  have kept := removeRows_kept (.refl left.sound) removable
  obtain ⟨after, reclaimed⟩ := reclaimContentSegments_ok kept.sound.store kept.sound.stored volume
  have done := remove_ok.mpr ⟨_, removable, reclaimed, rfl⟩
  have tree : after.tree volume = _ :=
    ((Reclaimed.of_reclaim kept.sound.store kept.sound.stored reclaimed).tables.tree volume).trans
      (tree_removeRows state volume _ _ recursive volume)
  have reclaiming := Reclaimed.of_reclaim kept.sound.store kept.sound.stored reclaimed
  refine ⟨after, _, done, ⟨(remove_kept (.refl left.sound) done).sound,
    (fewer_of_remove left.sound volume done).trans left.fewer, ?_, ?_⟩, ?_⟩
  · intro other remains owner ownerMember inOwner
    rw [tree] at remains ⊢
    obtain ⟨otherStays, notRemoved⟩ := List.mem_filter.mp remains
    have ownerStays := left.zones_stay other otherStays owner ownerMember inOwner
    refine List.mem_filter.mpr ⟨ownerStays, ?_⟩
    -- The entries of a zone go with it.
    rw [Bool.not_eq_true', Bool.eq_false_iff] at notRemoved ⊢
    intro removed
    apply notRemoved
    unfold Database.removedEntry
    rw [Bool.or_eq_true]
    exact Or.inl (decide_eq_true ⟨(mem_tree_entries.mp otherStays).2, List.mem_map.mpr
      ⟨owner, List.mem_filter.mpr ⟨(mem_tree_zones.mp ownerStays).1, removed⟩, inOwner⟩⟩)
  · intro other remains
    have stored := remains
    rw [tree] at remains
    rw [reclaiming.tables.tree volume] at stored
    rw [reclaiming.contentOf (mem_tree_entries.mp stored).1,
      (sameStore_removeRows state volume _ _ recursive).contentOf]
    exact left.content other (List.mem_of_mem_filter remains)
  · ext row
    rw [tree]
    cases row with
    | inl other =>
        change other ∈ List.filter _ _ ↔ other ∈ (state.tree volume).zones ∧ _
        rw [List.mem_filter, Bool.not_eq_true', Bool.eq_false_iff]
        refine and_congr_right fun remains => not_congr ?_
        constructor
        · exact fun removed => ⟨left.fewer.zones remains, _, located, removed⟩
        · rintro ⟨-, here, hereLocated, removed⟩
          rwa [Option.some.inj (hereLocated.symm.trans located)] at removed
    | inr other =>
        change other ∈ List.filter _ _ ↔ other ∈ (state.tree volume).entries ∧ _
        rw [List.mem_filter, Bool.not_eq_true', Bool.eq_false_iff]
        refine and_congr_right fun remains => not_congr ?_
        rw [removedEntry_iff left remains]
        constructor
        · exact fun removed => ⟨left.fewer.entries remains, _, located, removed⟩
        · rintro ⟨-, here, hereLocated, removed⟩
          rwa [Option.some.inj (hereLocated.symm.trans located)] at removed

end Steps

/-- The call fails where no rows are left, and otherwise leaves these rows. -/
def Leaves (db : Database) (volume : Uuid) (outcome : Result (Database × Nat)) :
    Option (Set NodeTableRow) → Prop
  | none => ∃ failure, outcome = .error failure
  | some rest => ∃ next, outcome = .ok next ∧ Leftover db next.1 volume ∧
      (next.1.tree volume).rows = rest

section Loop

variable {db : Database} {volume : Uuid} {recursive force : Bool}
  (wellFormed : (db.tree volume).WellFormed)

theorem remove_error_of_blocked {state : Database} {path : Text}
    (blocked : state.blockingRows volume path recursive ≠ .ok []) :
    ∃ failure, state.remove volume path recursive = .error failure := by
  cases done : state.remove volume path recursive with
  | error failure => exact ⟨failure, rfl⟩
  | ok next =>
      obtain ⟨location, removable, -⟩ := remove_ok.mp done
      exact absurd removable.empty blocked

theorem remove_error_of_missing {state : Database} {path : Text}
    (missing : state.kindOf volume path = none) :
    ∃ failure, state.remove volume path recursive = .error failure := by
  cases done : state.remove volume path recursive with
  | error failure => exact ⟨failure, rfl⟩
  | ok next =>
      obtain ⟨location, removable, -⟩ := remove_ok.mp done
      exact absurd missing removable.present

/-- One path of the loop takes the step of its name. -/
theorem removeNext_leaves {state : Database × Nat} {path : Text} (canonical : CanonicalPath path)
    (noZone : ∀ zone ∈ (db.tree volume).zones, zone.path ≠ path)
    (left : Leftover db state.1 volume) :
    Leaves db volume (removeNext volume recursive force state path)
      ((db.removals volume wellFormed recursive).step force (state.1.tree volume).rows path) := by
  have skips : state.1.skips volume force path =
      .ok (force && decide (state.1.kindOf volume path = none)) := by
    unfold Database.skips
    cases force with
    | false => rfl
    | true =>
        rw [if_pos rfl, assertPath_of_canonical canonical]
        rfl
  unfold removeNext Sweeper.step
  rw [skips, ok_bind]
  by_cases present : ∃ row ∈ (state.1.tree volume).rows,
      (db.removals volume wellFormed recursive).named path row
  · obtain ⟨_, stays, entry, rfl, on⟩ := id present
    rw [if_pos present]
    have there := left.kindOf_entryOn wellFormed on stays
    rw [if_neg (by simp [there])]
    by_cases free : ∀ row ∈ (db.removals volume wellFormed recursive).held path,
        row ∉ (state.1.tree volume).rows
    · rw [if_pos free]
      obtain ⟨after, count, done, leftover, rows⟩ := remove_of_entryOn wellFormed left on stays
        ((blocking_iff wellFormed left on stays).mpr free)
      rw [done, ok_bind]
      exact ⟨_, rfl, leftover, rows⟩
    · rw [if_neg free]
      obtain ⟨failure, failed⟩ := remove_error_of_blocked
        (mt (blocking_iff wellFormed left on stays).mp free)
      rw [failed]
      exact ⟨failure, rfl⟩
  · rw [if_neg present]
    have missing : state.1.kindOf volume path = none := by
      by_contra there
      obtain ⟨kind, kindOf⟩ := Option.ne_none_iff_exists'.mp there
      obtain ⟨entry, stays, on⟩ := left.fewer.entryOn_of_kindOf canonical noZone kindOf
      exact present ⟨.inr entry, stays, entry, rfl, on⟩
    cases force with
    | true =>
        rw [if_pos (by simp [missing]), if_pos rfl]
        exact ⟨state, rfl, left, rfl⟩
    | false =>
        rw [if_neg (by simp), if_neg Bool.false_ne_true]
        obtain ⟨failure, failed⟩ := remove_error_of_missing missing
        rw [failed]
        exact ⟨failure, rfl⟩

theorem removeLoop_leaves {paths : List Text} (canonical : ∀ path ∈ paths, CanonicalPath path)
    (noZone : ∀ path ∈ paths, ∀ zone ∈ (db.tree volume).zones, zone.path ≠ path)
    {state : Database × Nat} (left : Leftover db state.1 volume) :
    Leaves db volume (paths.foldlM (removeNext volume recursive force) state)
      (paths.foldlM ((db.removals volume wellFormed recursive).step force)
        (state.1.tree volume).rows) := by
  induction paths generalizing state with
  | nil => exact ⟨state, rfl, left, rfl⟩
  | cons path rest ih =>
      rw [List.forall_mem_cons] at canonical noZone
      have stepped : Leaves db volume (removeNext volume recursive force state path)
          ((db.removals volume wellFormed recursive).step force (state.1.tree volume).rows path) :=
        removeNext_leaves wellFormed canonical.1 noZone.1 left
      rw [List.foldlM_cons, List.foldlM_cons]
      cases taken : (db.removals volume wellFormed recursive).step force
          (state.1.tree volume).rows path with
      | none =>
          rw [taken] at stepped
          obtain ⟨failure, failed⟩ := stepped
          rw [failed]
          exact ⟨failure, rfl⟩
      | some rows =>
          rw [taken] at stepped
          obtain ⟨next, done, leftover, rfl⟩ := stepped
          rw [done, ok_bind]
          exact ih canonical.2 noZone.2 leftover

end Loop

/-! ### The bulk statement -/

section Bulk

variable {db : Database} {volume : Uuid} {recursive force : Bool} {path : Text}
  (wellFormed : (db.tree volume).WellFormed)

include wellFormed

theorem entryAt_iff {location : Location} {entry : ZoneEntry} :
    db.entryAt volume location = some entry ↔ entry ∈ (db.tree volume).entries ∧
      entry.zoneId = location.zoneId ∧ entry.relativePath = location.relativePath := by
  constructor
  · exact mem_of_entryAt
  · rintro ⟨member, inZone, relative⟩
    obtain ⟨zone, front, rest, found⟩ := wellFormed.entryAt_of_mem member
    obtain ⟨id, zonePath, path⟩ := location
    obtain rfl : entry.zoneId = id := inZone
    obtain rfl : entry.relativePath = path := relative
    rw [found.inZone, found.path]
    exact entryAt_eq_some wellFormed found zonePath

theorem entryOn_iff_located (canonical : CanonicalPath path) {entry : ZoneEntry} :
    (db.tree volume).EntryOn path entry ↔
      (db.locateZone volume path).bind (db.entryAt volume) = some entry := by
  constructor
  · rintro ⟨zone, front, rest, rfl, found⟩
    obtain ⟨located, there⟩ := (Tree.Fewer.refl (db.tree volume)).located_of_entryAt wellFormed found
      found.member found.zoneAt.member
    rw [located, Option.bind_some, there]
  · intro there
    obtain ⟨location, located, here⟩ := Option.bind_eq_some_iff.mp there
    obtain ⟨member, inZone, relative⟩ := mem_of_entryAt here
    obtain ⟨names, zone, front, inner, valid, rfl, found, rfl⟩ :=
      located_of_locateZone wellFormed canonical located
    exact ⟨zone, front, inner, by rw [found.names_eq], found.zoneAt, member, inZone,
      found.components valid, wellFormed.rest_ne_nil member relative, relative⟩

theorem resolve_iff (canonical : CanonicalPath path) (inner : path ≠ ['/']) {entry : ZoneEntry} :
    (∃ location, db.resolve volume path = some location ∧ entry ∈ (db.tree volume).entries ∧
      entry.zoneId = location.zoneId ∧ entry.relativePath = location.relativePath) ↔
        (db.tree volume).EntryOn path entry := by
  obtain ⟨parent, located⟩ := locateParent_isSome wellFormed canonical inner
  have resolved : db.resolve volume path = some (parent.child (nameOf path)) := by
    unfold Database.resolve
    rw [located]
    rfl
  rw [entryOn_iff_located wellFormed canonical, ← entryAt_child_of_parent wellFormed canonical located,
    entryAt_iff wellFormed, resolved]
  simp

/-- The bulk statement selects the chosen rows. -/
theorem bulkRow_iff_chosen {paths : List Text} (canonical : ∀ path ∈ paths, CanonicalPath path)
    (inner : ∀ path ∈ paths, path ≠ ['/']) {entry : ZoneEntry} (member : entry ∈ db.zoneEntries) :
    db.bulkRow volume (paths.filterMap (db.resolve volume)) recursive entry = true ↔
      .inr entry ∈ (db.removals volume wellFormed recursive).chosen paths := by
  have children {path : Text} (on : (db.tree volume).EntryOn path entry) :
      (recursive = true ∨ entry.kind ≠ .directory ∨
        (db.zoneEntries.filter fun child => decide (child.volumeId = volume ∧
          child.zoneId = entry.zoneId ∧ child.parentPath = entry.relativePath)) = []) ↔
        (db.removals volume wellFormed recursive).seen path = ∅ := by
    rw [Set.eq_empty_iff_forall_notMem]
    constructor
    · rintro either row ⟨plain, ⟨other, otherOn, below⟩, isEntry⟩
      rw [(wellFormed.entryOn_unique otherOn on).mp rfl] at below
      cases row with
      | inl zone => cases isEntry
      | inr child =>
          rcases either with deep | file | none
          · rw [plain] at deep
            cases deep
          · exact nothing_below_file wellFormed on file (.inr child) below
          · obtain ⟨inTable, inVolume⟩ := mem_tree_entries.mp below.1
            exact List.filter_eq_nil_iff.mp none child inTable
              (decide_eq_true ⟨inVolume, below.2⟩)
    · intro nothing
      rw [or_iff_not_imp_left]
      intro plain
      right
      rw [List.filter_eq_nil_iff]
      intro child inTable chosen
      obtain ⟨inVolume, below⟩ := of_decide_eq_true chosen
      exact nothing (.inr child) ⟨Bool.eq_false_iff.mpr plain,
        ⟨entry, on, mem_tree_entries.mpr ⟨inTable, inVolume⟩, below⟩, rfl⟩
  unfold Database.bulkRow
  rw [decide_eq_true_eq, List.any_eq_true]
  constructor
  · rintro ⟨inVolume, ⟨location, resolved, here⟩, free⟩
    obtain ⟨path, listed, resolves⟩ := List.mem_filterMap.mp resolved
    have on := (resolve_iff wellFormed (canonical path listed) (inner path listed)).mp
      ⟨location, resolves, mem_tree_entries.mpr ⟨member, inVolume⟩, of_decide_eq_true here⟩
    exact ⟨path, listed, ⟨entry, rfl, on⟩, (children on).mp free⟩
  · rintro ⟨path, listed, ⟨other, same, on⟩, free⟩
    obtain rfl := Sum.inr.inj same
    obtain ⟨location, resolves, inTree, here⟩ :=
      (resolve_iff wellFormed (canonical path listed) (inner path listed)).mpr on
    exact ⟨(mem_tree_entries.mp inTree).2,
      ⟨location, List.mem_filterMap.mpr ⟨path, listed, resolves⟩, decide_eq_true here⟩,
      (children on).mpr free⟩

/-- The bulk statement removes the names at once. -/
theorem removeBulk_leaves (sound : Sound db) {paths : List Text}
    (canonical : ∀ path ∈ paths, CanonicalPath path) (inner : ∀ path ∈ paths, path ≠ ['/']) :
    Leaves db volume (db.removeBulk volume paths recursive force)
      ((db.removals volume wellFormed recursive).bulk force paths) := by
  have selects {entry : ZoneEntry} (member : entry ∈ db.zoneEntries) :
      db.bulkRow volume (paths.filterMap (db.resolve volume)) recursive entry = true ↔
        .inr entry ∈ (db.removals volume wellFormed recursive).chosen paths :=
    bulkRow_iff_chosen wellFormed canonical inner member
  have distinct : ((db.zoneEntries.filter (db.bulkRow volume (paths.filterMap (db.resolve volume))
      recursive)).map (Sum.inr : ZoneEntry → NodeTableRow)).Nodup :=
    ((sound.keys.entry_ids.of_map _).filter _).map Sum.inr_injective
  have same (row : NodeTableRow) : row ∈ (db.zoneEntries.filter (db.bulkRow volume
      (paths.filterMap (db.resolve volume)) recursive)).map (Sum.inr : ZoneEntry → NodeTableRow) ↔
        row ∈ (db.removals volume wellFormed recursive).chosen paths := by
    rw [List.mem_map]
    constructor
    · rintro ⟨entry, member, rfl⟩
      obtain ⟨inTable, selected⟩ := List.mem_filter.mp member
      exact (selects inTable).mp selected
    · intro taken
      obtain ⟨path, listed, ⟨entry, rfl, on⟩, free⟩ := id taken
      have inTable := (mem_tree_entries.mp on.member).1
      exact ⟨entry, List.mem_filter.mpr ⟨inTable, (selects inTable).mpr taken⟩, rfl⟩
  have count := Sweeper.length_chosen_iff distinct same
  rw [List.length_map] at count
  unfold Sweeper.bulk
  by_cases passes : force = true ∨ (db.removals volume wellFormed recursive).Complete paths ∧
      ∀ path ∈ paths, (db.removals volume wellFormed recursive).seen path = ∅
  · rw [if_pos passes]
    have kept := Kept.deleteEntries (.refl sound)
      (db.bulkRow volume (paths.filterMap (db.resolve volume)) recursive)
    obtain ⟨after, reclaimed⟩ := reclaimContentSegments_ok kept.sound.store kept.sound.stored volume
    have done := removeBulk_ok.mpr
      ⟨canonical, rfl, passes.imp_right count.mpr, reclaimed⟩
    have reclaiming := Reclaimed.of_reclaim kept.sound.store kept.sound.stored reclaimed
    have tree : after.tree volume = { db.tree volume with
        entries := (db.tree volume).entries.filter fun entry =>
          !db.bulkRow volume (paths.filterMap (db.resolve volume)) recursive entry } :=
      tree_removeBulk sound done
    have stays {entry : ZoneEntry} : entry ∈ (after.tree volume).entries ↔
        entry ∈ (db.tree volume).entries ∧
          .inr entry ∉ (db.removals volume wellFormed recursive).chosen paths := by
      rw [tree]
      change entry ∈ List.filter _ _ ↔ _
      rw [List.mem_filter, Bool.not_eq_true', Bool.eq_false_iff]
      exact and_congr_right fun inTree => not_congr (selects (mem_tree_entries.mp inTree).1)
    refine ⟨_, done, ⟨(kept.reclaim reclaimed).sound, ?_, ?_, ?_⟩, ?_⟩
    · refine ⟨?_, fun entry remains => (stays.mp remains).1⟩
      rw [tree]
      exact List.Subset.refl _
    · intro entry remains zone member inZone
      rw [tree]
      exact member
    · intro entry remains
      rw [reclaiming.tables.tree volume] at remains
      exact reclaiming.contentOf (mem_tree_entries.mp remains).1
    · ext row
      cases row with
      | inl zone =>
          change zone ∈ (after.tree volume).zones ↔ zone ∈ (db.tree volume).zones ∧ _
          rw [tree]
          refine (and_iff_left ?_).symm
          rintro ⟨path, -, ⟨entry, same, -⟩, -⟩
          cases same
      | inr entry => exact stays
  · rw [if_neg passes]
    cases done : db.removeBulk volume paths recursive force with
    | error failure => exact ⟨failure, rfl⟩
    | ok next =>
        obtain ⟨-, same, complete, -⟩ := removeBulk_ok.mp done
        rw [same] at complete
        exact absurd (complete.imp_right count.mp) passes

end Bulk

end PostgreOS
