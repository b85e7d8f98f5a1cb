/-
What a move does to the tree.

The replaced file goes first. Then the rows that the patterns select get their new
places; where the patterns are exact these are the rows at and below the source, and the
tree stays well formed.
-/

import PostgreOS.Removal

namespace PostgreOS

open Library.Outcome Library.Table

namespace Tree

variable {tree : Tree} {names : List Text}

theorem WellFormed.nothing_below_of_not_directory (wellFormed : tree.WellFormed)
    (notDirectory : ¬ tree.Has names .directory) {extra : List Text} {kind : Kind}
    (has : tree.Has (names ++ extra) kind) : extra = [] := by
  by_contra below
  exact notDirectory (wellFormed.has_above has below)

theorem without_of_not_directory (wellFormed : tree.WellFormed) (valid : Components names)
    (inner : names ≠ []) (notDirectory : ¬ tree.Has names .directory) :
    tree.without (pathText names) =
      { tree with
        entries := tree.entries.filter fun entry =>
          decide (¬ tree.EntryBelow (pathText names) entry) } := by
  unfold Tree.without
  congr 1
  rw [List.filter_eq_self]
  intro zone member
  obtain ⟨front, zoneAt⟩ := wellFormed.zoneAt_of_mem member
  rw [decide_eq_true_eq, zoneAt.atOrBelow_iff valid inner]
  rintro ⟨extra, rfl⟩
  have here := wellFormed.nothing_below_of_not_directory notDirectory (.zone zoneAt)
  rw [here, List.append_nil] at zoneAt
  exact notDirectory (.zone zoneAt)

end Tree

section Replacing

variable {db replaced : Database} {volume : Uuid} {names : List Text}

/-- The delete of a move leaves the tree without its destination. -/
theorem tree_replaceDestination (wellFormed : (db.tree volume).WellFormed)
    (valid : Components names) (inner : names ≠ [])
    (done : db.replaceDestination volume (pathText names) = .ok replaced) :
    ¬ (db.tree volume).Has names .directory ∧
      replaced.tree volume = (db.tree volume).without (pathText names) := by
  obtain ⟨other, replaces⟩ := replaceDestination_ok done
  have notDirectory : ¬ (db.tree volume).Has names .directory :=
    fun has => other ((kindOf_eq_some_iff wellFormed valid .directory).mpr has)
  refine ⟨notDirectory, ?_⟩
  rw [Tree.without_of_not_directory wellFormed valid inner notDirectory]
  obtain ⟨free, same⟩ | ⟨location, located, same⟩ := replaces
  · have absent := (kindOf_eq_none_iff wellFormed valid).mp free
    have all : ((db.tree volume).entries.filter fun entry =>
        decide (¬ (db.tree volume).EntryBelow (pathText names) entry)) =
          (db.tree volume).entries := by
      rw [List.filter_eq_self]
      intro entry member
      obtain ⟨owner, upper, rest, found⟩ := wellFormed.entryAt_of_mem member
      rw [decide_eq_true_eq, found.entryBelow_iff wellFormed valid inner]
      rintro ⟨extra, whole⟩
      refine wellFormed.free_below absent extra entry.kind ?_
      rw [whole]
      exact .entry found
    rw [same, all]
  · obtain ⟨zone, front, rest, found⟩ := wellFormed.located_exists valid
    rw [locateZone_of_located wellFormed valid found] at located
    obtain rfl := Option.some.inj located
    have restValid := found.components valid
    rw [same, tree_deleteEntries]
    dsimp only
    congr 1
    apply List.filter_congr
    intro entry member
    obtain ⟨owner, upper, within, entryAt⟩ := wellFormed.entryAt_of_mem member
    rw [decide_not]
    congr 1
    rw [Bool.eq_iff_iff, atLocation_iff, decide_eq_true_eq,
      entryAt.entryBelow_iff wellFormed valid inner]
    constructor
    · rintro ⟨-, inZone, path⟩
      obtain rfl := wellFormed.zone_ids owner entryAt.zoneAt.member zone found.zoneAt.member
        (entryAt.inZone.symm.trans inZone)
      obtain rfl := entryAt.zoneAt.names_unique found.zoneAt
      rw [entryAt.path] at path
      rw [relativeText_injective entryAt.valid restValid path, ← found.names_eq]
    · rintro ⟨extra, whole⟩
      have has : (db.tree volume).Has (names ++ extra) entry.kind := by
        rw [whole]
        exact .entry entryAt
      rw [wellFormed.nothing_below_of_not_directory notDirectory has, List.append_nil] at whole
      have entryLocated := wellFormed.located_of_entryAt entryAt
      rw [← whole] at entryLocated
      obtain ⟨rfl, rfl, rfl⟩ := wellFormed.located_unique found entryLocated
      exact ⟨(mem_tree_entries.mp member).2, entryAt.inZone, entryAt.path⟩

theorem tree_replaceDestination_other {view : Uuid} {destination : Text} (other : view ≠ volume)
    (done : db.replaceDestination volume destination = .ok replaced) :
    replaced.tree view = db.tree view := by
  obtain ⟨-, ⟨-, rfl⟩ | ⟨location, -, rfl⟩⟩ := replaceDestination_ok done
  · rfl
  · rw [tree_deleteEntries]
    have all : ((db.tree view).entries.filter fun entry => !atLocation volume location entry) =
        (db.tree view).entries := by
      rw [List.filter_eq_self]
      intro entry member
      rw [Bool.not_eq_true', Bool.eq_false_iff]
      intro here
      exact other ((mem_tree_entries.mp member).2.symm.trans (atLocation_iff.mp here).1)
    rw [all]

theorem sameStore_replaceDestination {destination : Text}
    (done : db.replaceDestination volume destination = .ok replaced) : SameStore db replaced := by
  obtain ⟨-, ⟨-, rfl⟩ | ⟨location, -, rfl⟩⟩ := replaceDestination_ok done
  · exact ⟨rfl, rfl, rfl, rfl, rfl, rfl, rfl⟩
  · exact ⟨rfl, rfl, rfl, rfl, rfl, rfl, rfl⟩

theorem zoneNodes_replaceDestination {destination : Text}
    (done : db.replaceDestination volume destination = .ok replaced) :
    replaced.zoneNodes = db.zoneNodes := by
  obtain ⟨-, ⟨-, rfl⟩ | ⟨location, -, rfl⟩⟩ := replaceDestination_ok done
  · rfl
  · exact zoneNodes_deleteEntries db _

end Replacing

/-- A move from `names` to the child `name` of the directory `rest` of `parent`. -/
structure Relocating (db replaced : Database) (volume : Uuid) (names : List Text)
    (zone : ZoneNode) (front inner : List Text) (sourceLocation : Location) (destination : Text)
    (destinationParent : Location) (parent : ZoneNode) (upper rest : List Text) (name : Text) :
    Prop where
  source : Target db volume names zone front inner sourceLocation
  place : (db.tree volume).Place destination destinationParent parent upper rest name
  present : ∃ kind, (db.tree volume).Has names kind
  notDirectory : ¬ (db.tree volume).Has (upper ++ (rest ++ [name])) .directory
  outside : ¬ names <+: upper ++ (rest ++ [name])
  replaced_tree : replaced.tree volume = (db.tree volume).without destination

section Relocating

variable {db replaced after : Database} {volume view : Uuid} {names : List Text} {zone : ZoneNode}
  {front inner : List Text} {source destination : Text} {sourceLocation destinationParent : Location}
  {parent : ZoneNode} {upper rest : List Text} {name : Text} {now : Timestamp}

theorem Movable.relocating
    (movable : Movable db replaced volume source destination sourceLocation destinationParent)
    (wellFormed : (db.tree volume).WellFormed) (notBelow : ¬ Below source destination) :
    ∃ names zone front inner parent upper rest name, source = pathText names ∧
      Relocating db replaced volume names zone front inner sourceLocation destination
        destinationParent parent upper rest name := by
  have sourceLocated := movable.located
  rw [locateZone_replaceDestination movable.replaces] at sourceLocated
  have parentLocated := movable.parent_located
  rw [locateParent_congr (zoneNodes_replaceDestination movable.replaces)] at parentLocated
  obtain ⟨names, zone, front, inner, valid, rfl, located, same⟩ :=
    located_of_locateZone wellFormed movable.canonical_source sourceLocated
  obtain ⟨parent, upper, rest, name, place⟩ :=
    place_of_parent wellFormed movable.canonical movable.parent parentLocated
  have nonempty : names ≠ [] := by
    rintro rfl
    exact movable.notRoot rfl
  have replaces := movable.replaces
  rw [place.path_eq] at replaces
  obtain ⟨notDirectory, replacedTree⟩ :=
    tree_replaceDestination wellFormed place.components (by simp) replaces
  obtain ⟨kind, present⟩ := Option.ne_none_iff_exists'.mp movable.present
  refine ⟨names, zone, front, inner, parent, upper, rest, name, rfl,
    ⟨wellFormed, valid, nonempty, located, same⟩, place,
    ⟨kind, (kindOf_eq_some_iff wellFormed valid kind).mp present⟩, notDirectory, ?_, ?_⟩
  · rw [← atOrBelow_pathText_iff valid place.components nonempty, ← place.path_eq]
    rintro (here | below)
    · exact movable.apart here
    · exact notBelow below
  · rw [replacedTree, place.path_eq]

variable (moving : Relocating db replaced volume names zone front inner sourceLocation destination
  destinationParent parent upper rest name)

include moving

theorem Relocating.notAbove : ¬ upper ++ (rest ++ [name]) <+: names := by
  rintro ⟨extra, whole⟩
  obtain ⟨kind, has⟩ := moving.present
  rw [← whole] at has
  have here := moving.source.wellFormed.nothing_below_of_not_directory moving.notDirectory has
  rw [here, List.append_nil] at whole
  exact moving.outside (whole ▸ List.prefix_refl _)

theorem Relocating.wellFormed : (replaced.tree volume).WellFormed := by
  rw [moving.replaced_tree, moving.place.path_eq]
  exact moving.source.wellFormed.without moving.place.components (by simp)

theorem Relocating.has_iff {others : List Text} {kind : Kind} :
    (replaced.tree volume).Has others kind ↔
      (db.tree volume).Has others kind ∧ ¬ upper ++ (rest ++ [name]) <+: others := by
  rw [moving.replaced_tree, moving.place.path_eq]
  exact Tree.has_without_iff moving.source.wellFormed moving.place.components (by simp)

theorem Relocating.zones : (replaced.tree volume).zones = (db.tree volume).zones := by
  rw [moving.replaced_tree, moving.place.path_eq, Tree.without_of_not_directory
    moving.source.wellFormed moving.place.components (by simp) moving.notDirectory]

theorem Relocating.zoneAt_iff {other : ZoneNode} {names : List Text} :
    (replaced.tree volume).ZoneAt other names ↔ (db.tree volume).ZoneAt other names := by
  constructor
  · rintro ⟨member, valid, path⟩
    exact ⟨moving.zones ▸ member, valid, path⟩
  · rintro ⟨member, valid, path⟩
    exact ⟨moving.zones ▸ member, valid, path⟩

theorem Relocating.entryAt_iff {owner : ZoneNode} {entry : ZoneEntry} {above within : List Text} :
    (replaced.tree volume).EntryAt owner entry above within ↔
      (db.tree volume).EntryAt owner entry above within ∧
        ¬ upper ++ (rest ++ [name]) <+: above ++ within := by
  rw [moving.replaced_tree, moving.place.path_eq]
  exact Tree.entryAt_without_iff moving.source.wellFormed moving.place.components (by simp)

theorem Relocating.located : (replaced.tree volume).Located names zone front inner where
  zoneAt := moving.zoneAt_iff.mpr moving.source.located.zoneAt
  names_eq := moving.source.located.names_eq
  deepest := fun other others found isPrefix =>
    moving.source.located.deepest other others (moving.zoneAt_iff.mp found) isPrefix

theorem Relocating.free (kind : Kind) : ¬ (replaced.tree volume).Has (upper ++ (rest ++ [name])) kind :=
  fun has => (moving.has_iff.mp has).2 (List.prefix_refl _)

theorem Relocating.parentAt : (replaced.tree volume).ZoneAt parent upper :=
  moving.zoneAt_iff.mpr moving.place.zoneAt

theorem Relocating.inside : (replaced.tree volume).DirectoryIn parent.id (relativeText rest) := by
  have located : (replaced.tree volume).Located (upper ++ rest) parent upper rest :=
    ⟨moving.parentAt, rfl, fun other others found isPrefix =>
      moving.place.located.deepest other others (moving.zoneAt_iff.mp found) isPrefix⟩
  refine moving.wellFormed.directoryIn_of_has located (moving.has_iff.mpr ⟨?_, ?_⟩)
  · exact moving.place.zoneAt.has_of_directoryIn moving.place.valid.left
      moving.place.inside
  · intro isPrefix
    have shorter := isPrefix.length_le
    simp only [List.length_append, List.length_singleton] at shorter
    omega

omit moving

/-! ### Zones that follow -/

/-- The assignments of the update of `zones` without the counters. -/
def movedZoneNode (source destination : Text) (moved : NodeId) (parent : Location)
    (now : Timestamp) (zone : ZoneNode) : ZoneNode :=
  let path := destination ++ substr zone.path (source.length + 1)
  if zone.id = moved then
    { zone with
      path := path
      parent := some (parent.zoneId, parent.relativePath)
      name := nameOf destination
      metadata := { zone.metadata with
        ctime := now
        generation := zone.metadata.generation + 1 } }
  else { zone with path := path }

theorem movedZone_toZoneNode (source destination : Text) (moved : NodeId) (parent : Location)
    (now : Timestamp) (zone : Zone) :
    (movedZone source destination moved parent now zone).toZoneNode =
      movedZoneNode source destination moved parent now zone.toZoneNode := by
  unfold movedZone movedZoneNode
  dsimp only
  split
  · rfl
  · rfl

theorem movedZoneNode_columns (source destination : Text) (moved : NodeId) (parent : Location)
    (now : Timestamp) (zone : ZoneNode) :
    (movedZoneNode source destination moved parent now zone).id = zone.id ∧
    (movedZoneNode source destination moved parent now zone).volumeId = zone.volumeId ∧
    (movedZoneNode source destination moved parent now zone).path =
      destination ++ substr zone.path (source.length + 1) := by
  unfold movedZoneNode
  dsimp only
  split
  · exact ⟨rfl, rfl, rfl⟩
  · exact ⟨rfl, rfl, rfl⟩

/-- The selected zones are the zones below the source, and zones whose path the update
does not change. -/
def Tree.ZonesFollow (tree : Tree) (source destination : Text) : Prop :=
  ∀ zone ∈ tree.zones, (Below source zone.path → likeBelow source zone.path = true) ∧
    (likeBelow source zone.path = true → Below source zone.path ∨
      destination <+: zone.path ∧ destination.length = source.length)

instance (tree : Tree) (source destination : Text) :
    Decidable (tree.ZonesFollow source destination) :=
  inferInstanceAs (Decidable (∀ zone ∈ tree.zones, _))

theorem rewritten_path_eq {source destination path : Text} (isPrefix : destination <+: path)
    (same : destination.length = source.length) :
    destination ++ substr path (source.length + 1) = path := by
  obtain ⟨rest, rfl⟩ := isPrefix
  rw [← same, substr_length_succ]

section ZoneBranch

def relocatedZone (volume : Uuid) (source destination : Text) (moved : NodeId) (parent : Location)
    (now : Timestamp) : ZoneNode → ZoneNode :=
  rewritten (zoneRow volume source) (movedZoneNode source destination moved parent now)

theorem relocatedZone_id (volume : Uuid) (source destination : Text) (moved : NodeId)
    (parent : Location) (now : Timestamp) (zone : ZoneNode) :
    (relocatedZone volume source destination moved parent now zone).id = zone.id := by
  unfold relocatedZone rewritten
  split
  · exact (movedZoneNode_columns source destination moved parent now zone).1
  · rfl

theorem tree_relocatedZones (isZone : sourceLocation.relativePath = [])
    (relocated : Relocated replaced after volume source destination sourceLocation
      destinationParent now) (view : Uuid) :
    after.tree view =
      { replaced.tree view with
        zones := (replaced.tree view).zones.map (relocatedZone volume source destination
          sourceLocation.zoneId destinationParent now) } := by
  obtain ⟨-, updated⟩ | ⟨isEntry, -⟩ := relocated
  · exact tree_updateZones _ _ (movedZone_toZoneNode source destination _ _ now)
      (fun zone => (movedZoneNode_columns source destination _ _ now zone).2.1) updated view
  · exact absurd isZone isEntry

include moving

theorem Relocating.zone_at_source (isZone : sourceLocation.relativePath = []) {other : ZoneNode}
    (found : (replaced.tree volume).ZoneAt other names) : other.id = sourceLocation.zoneId := by
  have empty := moving.source.relativePath_eq_nil_iff.mp isZone
  have whole := moving.source.located.names_eq
  rw [empty, List.append_nil] at whole
  rw [moving.source.location_eq]
  have zoneAt := moving.located.zoneAt
  rw [← whole] at zoneAt
  rw [moving.wellFormed.zoneAt_unique found zoneAt]

theorem Relocating.zone_below_source (isZone : sourceLocation.relativePath = [])
    {other : ZoneNode} {others : List Text} (found : (replaced.tree volume).ZoneAt other others)
    (apart : others ≠ names) : other.id ≠ sourceLocation.zoneId := by
  have empty := moving.source.relativePath_eq_nil_iff.mp isZone
  have whole := moving.source.located.names_eq
  rw [empty, List.append_nil] at whole
  have zoneAt := moving.located.zoneAt
  rw [← whole] at zoneAt
  rw [moving.source.location_eq]
  intro same
  rw [moving.wellFormed.zone_ids other found.member zone zoneAt.member same] at found
  exact apart (found.names_unique zoneAt)

/-- Where the pattern is exact enough, the update renames the zones below the source. -/
theorem Relocating.renaming (isZone : sourceLocation.relativePath = [])
    (follow : (db.tree volume).ZonesFollow (pathText names) destination) (now : Timestamp) :
    Tree.Renaming (replaced.tree volume) names parent upper rest name
      (relocatedZone volume (pathText names) destination sourceLocation.zoneId destinationParent
        now) := by
  have valid := moving.source.valid
  have nonempty := moving.source.nonempty
  have targetNonempty : upper ++ (rest ++ [name]) ≠ [] := by simp
  have inVolume {other : ZoneNode} (member : other ∈ (replaced.tree volume).zones) :
      other.volumeId = volume := (mem_tree_zones.mp member).2
  have selected {other : ZoneNode} {extra : List Text}
      (found : (replaced.tree volume).ZoneAt other (names ++ extra)) :
      zoneRow volume (pathText names) other = true := by
    refine decide_eq_true ⟨inVolume found.member, ?_⟩
    by_cases here : extra = []
    · rw [here, List.append_nil] at found
      exact Or.inl found.path
    · refine Or.inr ((follow other (moving.zones ▸ found.member)).1 ?_)
      rw [found.below_iff valid nonempty]
      exact ⟨List.prefix_append names extra, fun same => here (List.append_right_eq_self.mp same.symm)⟩
  constructor
  · exact fun other _ => relocatedZone_id _ _ _ _ _ _ other
  · intro other others found outside
    unfold relocatedZone
    by_cases chosen : zoneRow volume (pathText names) other = true
    · obtain ⟨-, here | picked⟩ := of_decide_eq_true chosen
      · rw [← found.names_unique ⟨found.member, valid, here⟩] at outside
        exact absurd (List.prefix_refl _) outside
      · rcases (follow other (moving.zones ▸ found.member)).2 picked with below | ⟨isPrefix, same⟩
        · rw [found.below_iff valid nonempty] at below
          exact absurd below.1 outside
        · rw [rewritten_of_selected chosen]
          unfold movedZoneNode
          dsimp only
          rw [if_neg (moving.zone_below_source isZone found fun same =>
            outside (same ▸ List.prefix_refl _)), rewritten_path_eq isPrefix same]
    · rw [rewritten_of_not_selected (Bool.eq_false_iff.mpr chosen)]
  · intro other extra found
    unfold relocatedZone
    rw [rewritten_of_selected (selected found), (movedZoneNode_columns _ _ _ _ _ other).2.2,
      found.path, moving.place.path_eq, rebasedPath_texts nonempty targetNonempty]
  · intro other found
    have here := found
    rw [← List.append_nil names] at here
    unfold relocatedZone
    rw [rewritten_of_selected (selected here)]
    unfold movedZoneNode
    dsimp only
    rw [if_pos (moving.zone_at_source isZone found), moving.place.nameOf_eq,
      moving.place.location_eq]
    exact ⟨rfl, rfl⟩
  · intro other extra found inside
    unfold relocatedZone
    rw [rewritten_of_selected (selected found)]
    unfold movedZoneNode
    dsimp only
    rw [if_neg (moving.zone_below_source isZone found fun same =>
      inside (List.append_right_eq_self.mp same))]
    exact ⟨rfl, rfl⟩

theorem Relocating.wellFormed_renamed (isZone : sourceLocation.relativePath = [])
    (follow : (db.tree volume).ZonesFollow (pathText names) destination) (now : Timestamp) :
    Tree.WellFormed { replaced.tree volume with
      zones := (replaced.tree volume).zones.map (relocatedZone volume (pathText names) destination
        sourceLocation.zoneId destinationParent now) } := by
  have empty := moving.source.relativePath_eq_nil_iff.mp isZone
  have zoneAt := moving.located.zoneAt
  rw [show front = names by rw [moving.source.located.names_eq, empty, List.append_nil]] at zoneAt
  exact moving.wellFormed.renameZone zoneAt moving.source.nonempty moving.parentAt
    moving.place.valid moving.inside moving.outside moving.free (moving.renaming isZone follow now)

theorem Relocating.wellFormed_zones (isZone : sourceLocation.relativePath = [])
    (follow : (db.tree volume).ZonesFollow (pathText names) destination)
    (relocated : Relocated replaced after volume (pathText names) destination sourceLocation
      destinationParent now) : (after.tree volume).WellFormed := by
  rw [tree_relocatedZones isZone relocated]
  exact moving.wellFormed_renamed isZone follow now

end ZoneBranch

/-! ### Entries that follow -/

/-- No zone lies below the source, and apart from a replaced entry the selected entries are
those at and below the source. -/
def Tree.EntriesFollow (tree : Tree) (source destination : Text) (location : Location) : Prop :=
  (∀ zone ∈ tree.zones, ¬ Below source zone.path) ∧
    ∀ entry ∈ tree.entries, entry.zoneId = location.zoneId →
      absolutePath location.zonePath entry.relativePath ≠ destination →
        (likeBelow location.relativePath entry.relativePath = true ↔
          Below location.relativePath entry.relativePath)

instance (tree : Tree) (source destination : Text) (location : Location) :
    Decidable (tree.EntriesFollow source destination location) :=
  inferInstanceAs (Decidable (_ ∧ ∀ entry ∈ tree.entries, _))

section EntryBranch

omit moving

/-- The entries after the update. -/
def relocatedEntry (volume : Uuid) (destination : Text) (sourceLocation parent : Location)
    (now : Timestamp) : ZoneEntry → ZoneEntry :=
  rewritten (subtreeRow volume sourceLocation.zoneId sourceLocation.relativePath true)
    (movedEntry parent sourceLocation.relativePath
      (parent.child (nameOf destination)).relativePath (nameOf destination) now)

theorem tree_relocatedEntries (isEntry : sourceLocation.relativePath ≠ [])
    (relocated : Relocated replaced after volume source destination sourceLocation
      destinationParent now) (view : Uuid) :
    after.tree view =
      { replaced.tree view with
        entries := (replaced.tree view).entries.map (relocatedEntry volume destination
          sourceLocation destinationParent now) } := by
  obtain ⟨isZone, -⟩ | ⟨-, -, updated⟩ := relocated
  · exact absurd isZone isEntry
  · refine tree_updateEntries ?_ updated view
    intro entry _ _
    rfl

include moving

theorem Relocating.isEntry_iff : sourceLocation.relativePath ≠ [] ↔ inner ≠ [] :=
  not_congr moving.source.relativePath_eq_nil_iff

theorem Relocating.entriesExact
    (follow : (db.tree volume).EntriesFollow (pathText names) destination sourceLocation) :
    (replaced.tree volume).EntriesExact sourceLocation := by
  intro entry member inZone
  obtain ⟨owner, above, within, found⟩ := moving.wellFormed.entryAt_of_mem member
  obtain ⟨entryAt, stays⟩ := moving.entryAt_iff.mp found
  refine follow.2 entry entryAt.member inZone ?_
  rw [moving.source.location_eq] at inZone ⊢
  have owner_eq := moving.source.wellFormed.zone_ids owner entryAt.zoneAt.member zone
    moving.source.located.zoneAt.member (entryAt.inZone.symm.trans inZone)
  rw [owner_eq] at entryAt
  dsimp only
  rw [entryAt.absolutePath_eq, moving.place.path_eq]
  intro same
  rw [pathText_injective entryAt.components moving.place.components same] at stays
  exact stays (List.prefix_refl _)

theorem Relocating.selected_iff (isEntry : sourceLocation.relativePath ≠ [])
    (follow : (db.tree volume).EntriesFollow (pathText names) destination sourceLocation)
    {owner : ZoneNode} {entry : ZoneEntry} {above within : List Text}
    (found : (replaced.tree volume).EntryAt owner entry above within) :
    subtreeRow volume sourceLocation.zoneId sourceLocation.relativePath true entry = true ↔
      owner = zone ∧ inner <+: within := by
  have innerValid := moving.source.located.components moving.source.valid
  rw [subtreeRow_iff moving.wellFormed _ true moving.located.zoneAt.member
    (by rw [moving.source.location_eq]) innerValid (moving.isEntry_iff.mp isEntry)
    (by rw [moving.source.location_eq]) (fun _ => moving.entriesExact follow) found]
  apply and_congr_right
  rintro -
  constructor
  · rintro (here | ⟨-, below⟩)
    · rw [here]
    · exact below
  · exact fun below => Or.inr ⟨rfl, below⟩

theorem Relocating.movedEntry_path (isEntry : sourceLocation.relativePath ≠ [])
    {entry : ZoneEntry} {extra : List Text}
    (path : entry.relativePath = relativeText (inner ++ extra)) :
    rebasedRelative sourceLocation.relativePath
      (destinationParent.child (nameOf destination)).relativePath entry.relativePath =
        relativeText (rest ++ [name] ++ extra) := by
  rw [moving.place.child_eq, path, moving.source.location_eq]
  exact rebasedRelative_texts (moving.isEntry_iff.mp isEntry) (by simp)

theorem Relocating.no_zone_at_source (isEntry : sourceLocation.relativePath ≠ [])
    (follow : (db.tree volume).EntriesFollow (pathText names) destination sourceLocation)
    {other : ZoneNode} {others : List Text}
    (found : (replaced.tree volume).ZoneAt other others) : ¬ names <+: others := by
  intro isPrefix
  have inTree := moving.zoneAt_iff.mp found
  by_cases here : names = others
  · exact moving.source.not_zoneAt (moving.isEntry_iff.mp isEntry) other (here ▸ inTree)
  · refine follow.1 other inTree.member ?_
    rw [inTree.below_iff moving.source.valid moving.source.nonempty]
    exact ⟨isPrefix, here⟩

/-- The selected rows with their new paths. -/
def arrivingEntries (replaced : Database) (volume : Uuid) (destination : Text)
    (sourceLocation destinationParent : Location) (now : Timestamp) : List ZoneEntry :=
  ((replaced.tree volume).entries.filter
    (subtreeRow volume sourceLocation.zoneId sourceLocation.relativePath true)).map
    (movedEntry destinationParent sourceLocation.relativePath
      (destinationParent.child (nameOf destination)).relativePath (nameOf destination) now)

theorem Relocating.arriving_movedEntry (isEntry : sourceLocation.relativePath ≠ [])
    (follow : (db.tree volume).EntriesFollow (pathText names) destination sourceLocation)
    {entry : ZoneEntry} (member : entry ∈ (replaced.tree volume).entries)
    (chosen : subtreeRow volume sourceLocation.zoneId sourceLocation.relativePath true entry = true) :
    Tree.Arriving parent rest name
      (arrivingEntries replaced volume destination sourceLocation destinationParent now)
      (movedEntry destinationParent sourceLocation.relativePath
        (destinationParent.child (nameOf destination)).relativePath (nameOf destination) now
        entry) := by
  obtain ⟨owner, above, within, found⟩ := moving.wellFormed.entryAt_of_mem member
  obtain ⟨rfl, extra, rfl⟩ := (moving.selected_iff isEntry follow found).mp chosen
  refine moving.wellFormed.arriving_of_rebased found (moving.isEntry_iff.mp isEntry)
    moving.place.valid ?_ rfl (moving.movedEntry_path isEntry found.path) ?_ ?_
  · change destinationParent.zoneId = parent.id
    rw [moving.place.location_eq]
  · change (if entry.relativePath = sourceLocation.relativePath then nameOf destination
      else entry.name) = _
    rw [moving.place.nameOf_eq, moving.source.location_eq]
  · intro before last directory _ directoryAt kind
    refine ⟨_, List.mem_map_of_mem (List.mem_filter.mpr ⟨directoryAt.member, ?_⟩), ?_,
      moving.movedEntry_path isEntry directoryAt.path, kind⟩
    · exact (moving.selected_iff isEntry follow directoryAt).mpr
        ⟨rfl, List.prefix_append inner before⟩
    · change destinationParent.zoneId = parent.id
      rw [moving.place.location_eq]

theorem Relocating.wellFormed_entries (isEntry : sourceLocation.relativePath ≠ [])
    (follow : (db.tree volume).EntriesFollow (pathText names) destination sourceLocation)
    (keys : Keys after)
    (relocated : Relocated replaced after volume (pathText names) destination sourceLocation
      destinationParent now) : (after.tree volume).WellFormed := by
  have valid := moving.source.valid
  have nonempty := moving.source.nonempty
  have tree := tree_relocatedEntries isEntry relocated volume
  let added :=
    arrivingEntries replaced volume destination sourceLocation destinationParent now
  -- The rows that stay are the tree without the source, and the moved rows arrive in it.
  have remaining := moving.wellFormed.without valid nonempty
  have zones {other : ZoneNode} : other ∈ ((replaced.tree volume).without (pathText names)).zones ↔
      other ∈ (replaced.tree volume).zones := by
    constructor
    · exact List.mem_of_mem_filter
    · intro member
      obtain ⟨others, zoneAt⟩ := moving.wellFormed.zoneAt_of_mem member
      exact ((Tree.zoneAt_without_iff valid nonempty).mpr
        ⟨zoneAt, moving.no_zone_at_source isEntry follow zoneAt⟩).member
  have stays {owner : ZoneNode} {entry : ZoneEntry} {above within : List Text}
      (found : (replaced.tree volume).EntryAt owner entry above within) :
      names <+: above ++ within ↔
        subtreeRow volume sourceLocation.zoneId sourceLocation.relativePath true entry = true := by
    rw [moving.wellFormed.prefix_entry_iff moving.located found,
      moving.selected_iff isEntry follow found]
    exact or_iff_right (moving.no_zone_at_source isEntry follow found.zoneAt)
  have entries {entry : ZoneEntry} : entry ∈ (after.tree volume).entries ↔
      entry ∈ ((replaced.tree volume).without (pathText names)).entries ++ added := by
    rw [tree, List.mem_append]
    change entry ∈ List.map (rewritten _ _) _ ↔ _
    rw [mem_map_rewritten]
    apply or_congr
    · constructor
      · rintro ⟨member, notSelected⟩
        obtain ⟨owner, above, within, found⟩ := moving.wellFormed.entryAt_of_mem member
        refine ((Tree.entryAt_without_iff moving.wellFormed valid nonempty).mpr
          ⟨found, ?_⟩).member
        rw [stays found, notSelected]
        decide
      · intro member
        have inTree := List.mem_of_mem_filter member
        obtain ⟨owner, above, within, found⟩ := remaining.entryAt_of_mem member
        obtain ⟨entryAt, outside⟩ :=
          (Tree.entryAt_without_iff moving.wellFormed valid nonempty).mp found
        rw [stays entryAt, Bool.not_eq_true] at outside
        exact ⟨inTree, outside⟩
    · simp only [added, arrivingEntries, List.mem_map, List.mem_filter, and_assoc]
  have parentAt : ((replaced.tree volume).without (pathText names)).ZoneAt parent upper :=
    (Tree.zoneAt_without_iff valid nonempty).mpr
      ⟨moving.parentAt, moving.no_zone_at_source isEntry follow moving.parentAt⟩
  have inside : ((replaced.tree volume).without (pathText names)).DirectoryIn parent.id
      (relativeText rest) := by
    rcases moving.inside with top | ⟨directory, member, inZone, path, kind⟩
    · exact Or.inl top
    · refine Or.inr ⟨directory, ?_, inZone, path, kind⟩
      have restNonempty := moving.wellFormed.rest_ne_nil member path
      refine ((Tree.entryAt_without_iff moving.wellFormed valid nonempty).mpr
        ⟨⟨moving.parentAt, member, inZone, moving.place.valid.left, restNonempty, path⟩, ?_⟩).member
      intro isPrefix
      apply moving.outside
      rw [← List.append_assoc]
      exact isPrefix.trans (List.prefix_append _ _)
  have grown := remaining.insertBelow added parentAt moving.place.valid inside
    (fun kind has => moving.free kind
      ((Tree.has_without_iff moving.wellFormed valid nonempty).mp has).1) ?_ ?_
  · refine grown.of_mem_iff ?_ fun entry => entries
    intro other
    rw [tree]
    exact zones.symm
  · intro first hFirst second hSecond
    exact keys.entries_unique volume first (entries.mpr hFirst) second (entries.mpr hSecond)
  · intro row member
    obtain ⟨entry, entryMember, rfl⟩ := List.mem_map.mp member
    obtain ⟨inTree, chosen⟩ := List.mem_filter.mp entryMember
    exact moving.arriving_movedEntry isEntry follow inTree chosen

end EntryBranch

omit moving

/-- The destination is outside the source, and the rows that the patterns select are the
ones to rewrite. -/
def MoveExact (db : Database) (volume : Uuid) (source destination : Text) (location : Location) :
    Prop :=
  ¬ Below source destination ∧
    (location.relativePath = [] → (db.tree volume).ZonesFollow source destination) ∧
    (location.relativePath ≠ [] → (db.tree volume).EntriesFollow source destination location)

instance (db : Database) (volume : Uuid) (source destination : Text) (location : Location) :
    Decidable (MoveExact db volume source destination location) :=
  inferInstanceAs (Decidable (_ ∧ _ ∧ _))

theorem tree_relocated_other (other : view ≠ volume)
    (relocated : Relocated replaced after volume source destination sourceLocation
      destinationParent now) : after.tree view = replaced.tree view := by
  by_cases isZone : sourceLocation.relativePath = []
  · rw [tree_relocatedZones isZone relocated]
    have same : ((replaced.tree view).zones.map (relocatedZone volume source destination
        sourceLocation.zoneId destinationParent now)) = (replaced.tree view).zones := by
      rw [List.map_congr_left (g := id), List.map_id]
      intro zone member
      apply rewritten_of_not_selected
      rw [Bool.eq_false_iff]
      intro chosen
      exact other ((mem_tree_zones.mp member).2.symm.trans (of_decide_eq_true chosen).1)
    rw [same]
  · rw [tree_relocatedEntries isZone relocated]
    have same : ((replaced.tree view).entries.map (relocatedEntry volume destination
        sourceLocation destinationParent now)) = (replaced.tree view).entries := by
      rw [List.map_congr_left (g := id), List.map_id]
      intro entry member
      apply rewritten_of_not_selected
      rw [Bool.eq_false_iff]
      intro chosen
      exact other ((mem_tree_entries.mp member).2.symm.trans (of_decide_eq_true chosen).1)
    rw [same]

theorem Relocated.wellFormed (sound : Sound db) (wellFormed : (db.tree view).WellFormed)
    (movable : Movable db replaced volume source destination sourceLocation destinationParent)
    (exactly : MoveExact db volume source destination sourceLocation)
    (relocated : Relocated replaced after volume source destination sourceLocation
      destinationParent now) : (after.tree view).WellFormed := by
  have kept := relocated.kept movable (replaceDestination_kept (.refl sound) movable.replaces)
  by_cases same : view = volume
  · subst same
    obtain ⟨names, zone, front, inner, parent, upper, rest, name, rfl, moving⟩ :=
      movable.relocating wellFormed exactly.1
    by_cases isZone : sourceLocation.relativePath = []
    · exact moving.wellFormed_zones isZone (exactly.2.1 isZone) relocated
    · exact moving.wellFormed_entries isZone (exactly.2.2 isZone) kept.sound.keys relocated
  · rw [tree_relocated_other same relocated, tree_replaceDestination_other same movable.replaces]
    exact wellFormed

end Relocating

section Operations

variable {db after : Database} {volume view : Uuid} {source destination : Text} {now : Timestamp}

theorem move_wellFormed {count : Nat} (sound : Sound db) (wellFormed : (db.tree view).WellFormed)
    (exactly : ∀ location, db.locateZone volume source = some location →
      MoveExact db volume source destination location)
    (done : db.move volume source destination now = .ok (after, count)) :
    (after.tree view).WellFormed := by
  obtain ⟨replaced, sourceLocation, parent, movable, relocated⟩ := move_ok done
  have located := movable.located
  rw [locateZone_replaceDestination movable.replaces] at located
  exact relocated.wellFormed sound wellFormed movable (exactly sourceLocation located)

theorem moveCommand_wellFormed {count : Int} (sound : Sound db)
    (wellFormed : (db.tree view).WellFormed)
    (exactly : ∀ location, db.locateZone volume source = some location →
      MoveExact db volume source destination location)
    (done : db.moveCommand volume source destination now = .ok (after, count)) :
    (after.tree view).WellFormed := by
  obtain ⟨replaced, sourceLocation, parent, movable, relocated⟩ := moveCommand_ok done
  have located := movable.located
  rw [locateZone_replaceDestination movable.replaces] at located
  exact relocated.wellFormed sound wellFormed movable (exactly sourceLocation located)

end Operations

end PostgreOS
