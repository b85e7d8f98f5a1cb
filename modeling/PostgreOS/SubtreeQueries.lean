/-
Queries of a subtree.

A walk takes the zone that contains the path from the path on, and whole zones whose path
matches the path as a pattern. It is the subtree exactly when the patterns are exact.
-/

import PostgreOS.FindSpec
import PostgreOS.Moving
import PostgreOS.Views

namespace PostgreOS

open Library.Outcome Library.Table

/-- `path` is `root` or lies below it; everything lies below `/`. -/
def Within (root path : Text) : Prop :=
  root = ['/'] ∨ AtOrBelow root path

instance (root path : Text) : Decidable (Within root path) :=
  inferInstanceAs (Decidable (_ ∨ _))

def Database.subtree (db : Database) (volume : Uuid) (root : Text) : List Node :=
  (db.nodes volume).filter fun node => Within root node.path

def Database.subtreeBytes (db : Database) (volume : Uuid) (root : Text) : Int :=
  total (fun node => (node.size : Int)) ((db.subtree volume root).filter fun node =>
    node.kind = .file)

/-- The patterns that a query of the subtree evaluates are exact. -/
def Database.SubtreeExact (db : Database) (volume : Uuid) (path : Text) : Prop :=
  path = ['/'] ∨ (db.tree volume).ZonesExact path ∧
    ∀ location ∈ db.locateZone volume path, location.relativePath ≠ [] →
      (db.tree volume).EntriesExact location

instance (db : Database) (volume : Uuid) (path : Text) : Decidable (db.SubtreeExact volume path) :=
  inferInstanceAs (Decidable (_ ∨ _ ∧ ∀ location ∈ db.locateZone volume path, _))

def pickedZone (path : Text) (zone : ZoneNode) : Prop :=
  path = ['/'] ∨ zone.path = path ∨ likeBelow path zone.path = true

instance (path : Text) (zone : ZoneNode) : Decidable (pickedZone path zone) :=
  inferInstanceAs (Decidable (_ ∨ _ ∨ _))

/-- The entry of a zone comes with the walk of a located path. -/
def pickedEntry (path : Text) (location : Location) (zone : ZoneNode) (entry : ZoneEntry) : Prop :=
  if zone.id = location.zoneId then inRelativeRoot location.relativePath entry = true
  else pickedZone path zone

section Walk

variable {db : Database} {volume : Uuid} {path : Text} {location : Location}

theorem mem_foundRows {row : NodeRow} :
    row ∈ db.foundRows volume path location ↔
      (∃ zone ∈ (db.tree volume).zones, (pickedZone path zone ∧
          (zone.id = location.zoneId ∨ pickedZone path zone)) ∧
        row = (zoneInode zone).toNodeRow) ∨
      ∃ entry ∈ (db.tree volume).entries, ∃ zone ∈ (db.tree volume).zones,
        zone.id = entry.zoneId ∧ pickedEntry path location zone entry ∧
          row = (entryInode zone.path entry).toNodeRow := by
  have selected {pair : Zone × Text} : pair ∈ db.selectedZones volume path location ↔
      pair.1.toZoneNode ∈ (db.tree volume).zones ∧ pair.1 ∈ db.zones ∧
        (pair.1.id = location.zoneId ∨ pickedZone path pair.1.toZoneNode) ∧
        pair.2 = if pair.1.id = location.zoneId then location.relativePath else [] := by
    unfold Database.selectedZones
    rw [List.mem_map]
    constructor
    · rintro ⟨zone, member, rfl⟩
      obtain ⟨stored, filtered⟩ := List.mem_filter.mp member
      obtain ⟨inVolume, chosen⟩ := of_decide_eq_true filtered
      exact ⟨mem_tree_zones.mpr ⟨List.mem_map_of_mem stored, inVolume⟩, stored, chosen, rfl⟩
    · obtain ⟨zone, relative⟩ := pair
      rintro ⟨member, stored, chosen, same⟩
      dsimp only at same
      refine ⟨zone, List.mem_filter.mpr ⟨stored, decide_eq_true ⟨?_, chosen⟩⟩, by rw [same]⟩
      exact (mem_tree_zones.mp member).2
  have stored {zone : ZoneNode} (member : zone ∈ (db.tree volume).zones) :
      ∃ row ∈ db.zones, row.toZoneNode = zone :=
    List.mem_map.mp (mem_tree_zones.mp member).1
  unfold Database.foundRows
  dsimp only
  rw [List.mem_append]
  refine or_congr ?_ ?_
  · rw [List.mem_map]
    constructor
    · rintro ⟨pair, member, rfl⟩
      obtain ⟨picked, filtered⟩ := List.mem_filter.mp member
      obtain ⟨inTree, -, chosen, -⟩ := selected.mp picked
      exact ⟨_, inTree, ⟨of_decide_eq_true filtered, chosen⟩, rfl⟩
    · rintro ⟨node, inTree, ⟨picked, chosen⟩, rfl⟩
      obtain ⟨zone, member, rfl⟩ := stored inTree
      exact ⟨(zone, if zone.id = location.zoneId then location.relativePath else []),
        List.mem_filter.mpr ⟨selected.mpr ⟨inTree, member, chosen, rfl⟩, decide_eq_true picked⟩, rfl⟩
  · rw [List.mem_flatMap]
    constructor
    · rintro ⟨⟨zone, relative⟩, picked, shown⟩
      obtain ⟨inTree, -, chosen, same⟩ := selected.mp picked
      obtain ⟨entry, member, rfl⟩ := List.mem_map.mp shown
      obtain ⟨inTable, filtered⟩ := List.mem_filter.mp member
      obtain ⟨inVolume, inZone, inside⟩ := of_decide_eq_true filtered
      refine ⟨entry, mem_tree_entries.mpr ⟨inTable, inVolume⟩, _, inTree, inZone.symm, ?_, rfl⟩
      unfold pickedEntry
      dsimp only at same chosen inside
      split
      · rename_i here
        rw [same, if_pos here] at inside
        exact inside
      · rename_i other
        exact chosen.resolve_left other
    · rintro ⟨entry, entryMember, node, inTree, inZone, picked, rfl⟩
      obtain ⟨zone, member, rfl⟩ := stored inTree
      obtain ⟨inTable, inVolume⟩ := mem_tree_entries.mp entryMember
      unfold pickedEntry at picked
      refine ⟨(zone, if zone.id = location.zoneId then location.relativePath else []),
        selected.mpr ⟨inTree, member, ?_, rfl⟩, List.mem_map.mpr ⟨entry, List.mem_filter.mpr
          ⟨inTable, decide_eq_true ⟨inVolume, inZone.symm, ?_⟩⟩, rfl⟩⟩
      · split at picked
        · rename_i here
          exact Or.inl here
        · exact Or.inr picked
      · dsimp only
        split at picked
        · rename_i here
          rwa [if_pos here]
        · rename_i other
          rw [if_neg other]
          rfl

theorem selectedZones_ids (keys : Keys db) (location : Location) :
    ((db.selectedZones volume path location).map fun pair => pair.1.id).Nodup := by
  unfold Database.selectedZones
  rw [List.map_map]
  exact keys.zone_ids.sublist (List.filter_sublist.map _)

/-- No row comes twice. -/
theorem foundRows_ids (keys : Keys db) (location : Location) :
    ((db.foundRows volume path location).map NodeRow.id).Nodup := by
  unfold Database.foundRows
  dsimp only
  rw [List.map_append, List.map_map, List.map_flatMap]
  have zones : ((db.selectedZones volume path location).map fun pair => pair.1.id).Nodup :=
    selectedZones_ids keys location
  refine List.nodup_append.mpr ⟨?_, ?_, ?_⟩
  · exact zones.sublist (List.filter_sublist.map _)
  · refine List.nodup_flatMap.mpr ⟨?_, ?_⟩
    · intro pair _
      rw [List.map_map]
      exact keys.entry_ids.sublist (List.filter_sublist.map _)
    · refine (List.pairwise_map.mp zones).imp ?_
      intro first second apart
      change List.Disjoint _ _
      rw [List.disjoint_left]
      intro id inFirst inSecond
      dsimp only at inFirst inSecond
      rw [List.map_map] at inFirst inSecond
      obtain ⟨entry, member, rfl⟩ := List.mem_map.mp inFirst
      obtain ⟨other, otherMember, same⟩ := List.mem_map.mp inSecond
      obtain ⟨stored, inZone⟩ := List.mem_filter.mp member
      obtain ⟨otherStored, inOther⟩ := List.mem_filter.mp otherMember
      obtain rfl := List.inj_on_of_nodup_map keys.entry_ids otherStored stored same
      exact apart ((of_decide_eq_true inZone).2.1.symm.trans (of_decide_eq_true inOther).2.1)
  · intro first inFirst second inSecond same
    obtain ⟨pair, member, rfl⟩ := List.mem_map.mp inFirst
    obtain ⟨owner, -, shown⟩ := List.mem_flatMap.mp inSecond
    rw [List.map_map] at shown
    obtain ⟨entry, entryMember, rfl⟩ := List.mem_map.mp shown
    obtain ⟨zone, zoneMember, stored⟩ := List.mem_map.mp (List.mem_of_mem_filter member)
    have apart := keys.ids_apart entry (List.mem_of_mem_filter entryMember) zone.toZoneNode
      (List.mem_map_of_mem (List.mem_of_mem_filter zoneMember))
    rw [← stored] at same
    exact apart same.symm

/-- The rows of the subtree come in some order exactly when the walk picks the zones and
entries that lie in it. -/
theorem foundRows_perm_iff (keys : Keys db) (location : Location) :
    (db.foundRows volume path location).Perm
        ((db.subtree volume path).map fun node => node.toNodeRow) ↔
      (∀ zone ∈ (db.tree volume).zones, pickedZone path zone ↔ Within path zone.path) ∧
      ∀ entry ∈ (db.tree volume).entries, ∀ zone ∈ (db.tree volume).zones,
        zone.id = entry.zoneId → (pickedEntry path location zone entry ↔
          Within path (absolutePath zone.path entry.relativePath)) := by
  have identified := keys.identified volume
  have inSubtree {node : Node} (member : node ∈ db.nodes volume) :
      node.toNodeRow ∈ (db.subtree volume path).map (fun node => node.toNodeRow) ↔
        Within path node.path := by
    unfold Database.subtree
    rw [List.mem_map]
    constructor
    · rintro ⟨other, otherMember, same⟩
      obtain ⟨stored, inside⟩ := List.mem_filter.mp otherMember
      obtain rfl := identified.node_eq stored member (congrArg NodeRow.id same)
      exact of_decide_eq_true inside
    · intro inside
      exact ⟨node, List.mem_filter.mpr ⟨member, decide_eq_true inside⟩, rfl⟩
  have zoneFound {zone : ZoneNode} (member : zone ∈ (db.tree volume).zones) :
      (zoneInode zone).toNodeRow ∈ db.foundRows volume path location ↔ pickedZone path zone := by
    rw [mem_foundRows]
    constructor
    · rintro (⟨other, otherMember, ⟨picked, -⟩, same⟩ | ⟨entry, entryMember, _, -, -, -, same⟩)
      · obtain rfl := identified.zone_eq member otherMember (congrArg NodeRow.id same)
        exact picked
      · exact absurd (congrArg NodeRow.id same).symm (identified.apart entry entryMember zone member)
    · intro picked
      exact Or.inl ⟨zone, member, ⟨picked, Or.inr picked⟩, rfl⟩
  have entryFound {entry : ZoneEntry} (member : entry ∈ (db.tree volume).entries)
      {zone : ZoneNode} (zoneMember : zone ∈ (db.tree volume).zones) (inZone : zone.id = entry.zoneId) :
      (entryInode zone.path entry).toNodeRow ∈ db.foundRows volume path location ↔
        pickedEntry path location zone entry := by
    rw [mem_foundRows]
    constructor
    · rintro (⟨other, otherMember, -, same⟩ | ⟨other, otherMember, owner, ownerMember, inOwner, picked, same⟩)
      · exact absurd (congrArg NodeRow.id same) (identified.apart entry member other otherMember)
      · obtain rfl := identified.entry_eq member otherMember (congrArg NodeRow.id same)
        obtain rfl := identified.zone_eq zoneMember ownerMember (inZone.trans inOwner.symm)
        exact picked
    · intro picked
      exact Or.inr ⟨entry, member, zone, zoneMember, inZone, picked, rfl⟩
  constructor
  · intro perm
    constructor
    · intro zone member
      rw [← zoneFound member, perm.mem_iff]
      exact inSubtree (Tree.nodeOfZone_mem member)
    · intro entry member zone zoneMember inZone
      rw [← entryFound member zoneMember inZone, perm.mem_iff]
      exact inSubtree (Tree.nodeOfEntry_mem member zoneMember inZone)
  · rintro ⟨zones, entries⟩
    refine (List.perm_ext_iff_of_nodup (foundRows_ids keys location).of_map ?_).mpr ?_
    · apply List.Nodup.of_map NodeRow.id
      rw [List.map_map]
      exact (identified.node_ids db.contentOf).sublist (List.filter_sublist.map _)
    · intro row
      constructor
      · intro found
        obtain ⟨zone, member, ⟨picked, -⟩, rfl⟩ | ⟨entry, member, zone, zoneMember, inZone, picked, rfl⟩ :=
          mem_foundRows.mp found
        · exact (inSubtree (Tree.nodeOfZone_mem member)).mpr ((zones zone member).mp picked)
        · exact (inSubtree (Tree.nodeOfEntry_mem member zoneMember inZone)).mpr
            ((entries entry member zone zoneMember inZone).mp picked)
      · intro shown
        obtain ⟨node, nodeMember, rfl⟩ := List.mem_map.mp shown
        obtain ⟨stored, filtered⟩ := List.mem_filter.mp nodeMember
        have inside := of_decide_eq_true filtered
        obtain ⟨zone, member, rfl⟩ | ⟨entry, member, zone, zoneMember, inZone, rfl⟩ :=
          Tree.mem_nodes.mp stored
        · exact (zoneFound member).mpr ((zones zone member).mpr inside)
        · exact (entryFound member zoneMember inZone).mpr
            ((entries entry member zone zoneMember inZone).mpr inside)

/-! ### When the patterns are exact -/

theorem selected_iff_exact {root path : Text} :
    (path = root ∨ likeBelow root path = true ↔ AtOrBelow root path) ↔
      (likeBelow root path = true ↔ Below root path) := by
  unfold AtOrBelow
  by_cases same : path = root
  · subst same
    refine iff_of_true (by simp) (iff_of_false ?_ (not_below_self path))
    rw [likeBelow_self]
    exact Bool.false_ne_true
  · simp [same]

theorem picked_of_root (located : db.locateZone volume ['/'] = some location) (zone : ZoneNode)
    (entry : ZoneEntry) : pickedEntry ['/'] location zone entry := by
  unfold pickedEntry
  rw [locatedAtRoot_of_root located]
  split
  · rfl
  · exact Or.inl rfl

/-- Below `/` the zones are picked by the pattern for paths, and the entries of the located
zone by the pattern for relative paths. -/
theorem picked_iff_exact (wellFormed : (db.tree volume).WellFormed) {names : List Text}
    (valid : Components names) (below : names ≠ []) {zone : ZoneNode} {front inner : List Text}
    (located : (db.tree volume).Located names zone front inner) :
    ((∀ other ∈ (db.tree volume).zones,
        pickedZone (pathText names) other ↔ Within (pathText names) other.path) ∧
      ∀ entry ∈ (db.tree volume).entries, ∀ owner ∈ (db.tree volume).zones,
        owner.id = entry.zoneId →
          (pickedEntry (pathText names) ⟨zone.id, zone.path, relativeText inner⟩ owner entry ↔
            Within (pathText names) (absolutePath owner.path entry.relativePath))) ↔
      (db.tree volume).ZonesExact (pathText names) ∧ (relativeText inner ≠ [] →
        (db.tree volume).EntriesExact ⟨zone.id, zone.path, relativeText inner⟩) := by
  have notRoot : pathText names ≠ ['/'] := pathText_ne_root valid below
  have within (path : Text) : Within (pathText names) path ↔ AtOrBelow (pathText names) path :=
    or_iff_right notRoot
  have innerValid := located.components valid
  have zones : (∀ other ∈ (db.tree volume).zones,
      pickedZone (pathText names) other ↔ Within (pathText names) other.path) ↔
        (db.tree volume).ZonesExact (pathText names) := by
    refine forall₂_congr fun other _ => ?_
    unfold pickedZone
    rw [within, or_iff_right notRoot]
    exact selected_iff_exact
  rw [zones]
  refine and_congr_right fun exact => ?_
  have entryWithin {owner : ZoneNode} {entry : ZoneEntry} {upper rest : List Text}
      (found : (db.tree volume).EntryAt owner entry upper rest) :
      Within (pathText names) (absolutePath owner.path entry.relativePath) ↔
        names <+: upper ∨ owner = zone ∧ inner <+: rest := by
    rw [within, found.atOrBelow_iff valid below]
    exact wellFormed.prefix_entry_iff located found
  -- An entry of another zone comes with its zone.
  have elsewhere {owner : ZoneNode} {entry : ZoneEntry} {upper rest : List Text}
      (found : (db.tree volume).EntryAt owner entry upper rest) (other : owner.id ≠ zone.id) :
      pickedEntry (pathText names) ⟨zone.id, zone.path, relativeText inner⟩ owner entry ↔
        Within (pathText names) (absolutePath owner.path entry.relativePath) := by
    unfold pickedEntry
    rw [if_neg other, entryWithin found, zones.mpr exact owner found.zoneAt.member, within,
      found.zoneAt.atOrBelow_iff valid below]
    refine (or_iff_left ?_).symm
    rintro ⟨rfl, -⟩
    exact other rfl
  -- An entry of the located zone has to match the pattern for relative paths.
  have here {entry : ZoneEntry} {upper rest : List Text}
      (found : (db.tree volume).EntryAt zone entry upper rest) :
      Within (pathText names) (absolutePath zone.path entry.relativePath) ↔ inner <+: rest := by
    rw [entryWithin found, found.zoneAt.names_unique located.zoneAt]
    constructor
    · rintro (above | ⟨-, inside⟩)
      · have sameLength := above.length_le
        rw [located.names_eq, List.length_append] at sameLength
        have none : inner = [] := List.eq_nil_of_length_eq_zero (by omega)
        rw [none]
        exact List.nil_prefix
      · exact inside
    · intro inside
      exact Or.inr ⟨rfl, inside⟩
  have relative {entry : ZoneEntry} {upper rest : List Text} (nonempty : inner ≠ [])
      (found : (db.tree volume).EntryAt zone entry upper rest) :
      (pickedEntry (pathText names) ⟨zone.id, zone.path, relativeText inner⟩ zone entry ↔
        Within (pathText names) (absolutePath zone.path entry.relativePath)) ↔
      (likeBelow (relativeText inner) entry.relativePath = true ↔
        Below (relativeText inner) entry.relativePath) := by
    unfold pickedEntry inRelativeRoot
    rw [if_pos rfl, here found, ← selected_iff_exact, found.path,
      atOrBelow_relativeText_iff innerValid found.valid nonempty]
    simp [relativeText_ne_nil innerValid nonempty]
  constructor
  · intro entries nonempty entry member inZone
    have inner : inner ≠ [] := by
      rintro rfl
      exact nonempty relativeText_nil
    obtain ⟨owner, upper, rest, found⟩ := wellFormed.entryAt_of_mem member
    obtain rfl := wellFormed.zone_ids owner found.zoneAt.member zone located.zoneAt.member
      (found.inZone.symm.trans inZone)
    exact (relative inner found).mp (entries entry member owner found.zoneAt.member found.inZone.symm)
  · intro entries entry member owner ownerMember inOwner
    obtain ⟨other, upper, rest, found⟩ := wellFormed.entryAt_of_mem member
    obtain rfl := wellFormed.zone_ids owner ownerMember other found.zoneAt.member
      (inOwner.trans found.inZone)
    by_cases same : owner.id = zone.id
    · obtain rfl := wellFormed.zone_ids owner ownerMember zone located.zoneAt.member same
      by_cases top : inner = []
      · subst top
        unfold pickedEntry
        rw [if_pos rfl, relativeText_nil, here found]
        exact iff_of_true rfl List.nil_prefix
      · refine (relative top found).mpr ?_
        exact entries (relativeText_ne_nil innerValid top) entry member found.inZone
    · exact elsewhere found same

theorem foundRows_perm_iff_exact (keys : Keys db) (wellFormed : (db.tree volume).WellFormed)
    {names : List Text} (valid : Components names)
    (located : db.locateZone volume (pathText names) = some location) :
    (db.foundRows volume (pathText names) location).Perm
        ((db.subtree volume (pathText names)).map fun node => node.toNodeRow) ↔
      db.SubtreeExact volume (pathText names) := by
  rw [foundRows_perm_iff keys]
  unfold Database.SubtreeExact
  by_cases top : names = []
  · subst top
    refine iff_of_true ⟨?_, ?_⟩ (Or.inl pathText_nil)
    · intro zone _
      exact iff_of_true (Or.inl pathText_nil) (Or.inl pathText_nil)
    · intro entry _ zone _ _
      rw [pathText_nil] at located ⊢
      exact iff_of_true (picked_of_root located zone entry) (Or.inl rfl)
  · obtain ⟨zone, front, inner, found⟩ := wellFormed.located_exists valid
    rw [locateZone_of_located wellFormed valid found] at located ⊢
    obtain rfl := Option.some.inj located
    rw [or_iff_right (pathText_ne_root valid top), picked_iff_exact wellFormed valid top found]
    simp

theorem walk_of_located (canonical : CanonicalPath path)
    (located : db.locateZone volume path = some location) :
    ∃ rows, db.walk volume path = .ok rows ∧ rows.Perm (db.foundRows volume path location) := by
  unfold Database.walk Database.findEntries
  rw [assertPath_of_canonical canonical, ok_bind, strict_eq_ok.mpr located, ok_bind]
  refine ⟨_, rfl, (List.perm_insertionSort _ _).trans (List.Perm.of_eq ?_)⟩
  exact List.filter_eq_self.mpr fun _ _ => rfl

theorem findPaths_all_of_located (canonical : CanonicalPath path)
    (located : db.locateZone volume path = some location) :
    ∃ paths, db.findPaths volume path none none = .ok paths ∧
      paths.Perm ((db.foundRows volume path location).map NodeRow.path) := by
  refine ⟨_, findPaths_of_located none none canonical located,
    (List.perm_insertionSort _ _).trans (List.Perm.of_eq ?_)⟩
  unfold Database.foundPaths Database.found Database.foundRows Database.foundEntries
  dsimp only
  have all (rows : List FoundPath) : rows.filter (fun row =>
      kindMatches none row.kind && nameMatches none row.name) = rows :=
    List.filter_eq_self.mpr fun _ _ => rfl
  rw [all, List.map_append, List.map_append, List.map_map, List.map_map, List.map_flatMap,
    List.map_flatMap]
  simp only [List.map_map]
  rfl

/-- What `disk_usage` adds up is the size of the files of the walk. -/
theorem usedBytes_eq_total (location : Location)
    (notFile : ∀ entry ∈ (db.tree volume).entries, entry.zoneId = location.zoneId →
      entry.relativePath = location.relativePath → entry.kind ≠ .file) :
    db.usedBytes volume path location = total (fun row => (row.size : Int))
      ((db.foundRows volume path location).filter fun row => row.kind = .file) := by
  unfold Database.usedBytes Database.foundRows
  dsimp only
  rw [List.filter_append, total_append, List.filter_flatMap, total_flatMap, total_flatMap]
  have noZones : ((((db.selectedZones volume path location).filter fun pair =>
      path = ['/'] ∨ pair.1.path = path ∨ likeBelow path pair.1.path = true).map fun pair =>
        (zoneInode pair.1.toZoneNode).toNodeRow).filter fun row => row.kind = .file) = [] := by
    rw [List.filter_eq_nil_iff]
    intro row member
    obtain ⟨pair, -, rfl⟩ := List.mem_map.mp member
    exact fun file => Kind.noConfusion (of_decide_eq_true file)
  rw [noZones, total_nil, Int.zero_add]
  apply total_congr
  intro pair picked
  rw [List.filter_map, List.filter_filter]
  unfold total Database.usedFiles
  rw [List.map_map]
  congr 2
  apply List.filter_congr
  intro entry member
  rw [Bool.eq_iff_iff]
  simp only [Function.comp, entryInode, inRelativeRoot, decide_eq_true_eq, Bool.and_eq_true,
    Bool.or_eq_true, beq_iff_eq]
  -- The pattern leaves the located entry itself out, which is no file.
  obtain ⟨zone, -, rfl⟩ := List.mem_map.mp picked
  constructor
  · rintro ⟨inVolume, inZone, file, top | inside⟩
    · exact ⟨decide_eq_true file, inVolume, inZone, Or.inl (Or.inl top)⟩
    · exact ⟨decide_eq_true file, inVolume, inZone, Or.inr inside⟩
  · rintro ⟨chosen, inVolume, inZone, inside⟩
    have file : entry.kind = .file := of_decide_eq_true chosen
    rcases inside with (top | itself) | inside
    · exact ⟨inVolume, inZone, file, Or.inl top⟩
    · by_cases same : zone.id = location.zoneId
      · rw [if_pos same] at itself
        exact absurd file (notFile entry (mem_tree_entries.mpr ⟨member, inVolume⟩)
          (inZone.trans same) itself)
      · rw [if_neg same]
        exact ⟨inVolume, inZone, file, Or.inl rfl⟩
    · exact ⟨inVolume, inZone, file, Or.inr inside⟩

/-- The size of a file is the size of its subtree. -/
theorem subtreeBytes_of_file (keys : Keys db) (wellFormed : (db.tree volume).WellFormed)
    {zone : ZoneNode} {entry : ZoneEntry} {front rest : List Text}
    (found : (db.tree volume).EntryAt zone entry front rest) (file : entry.kind = .file) :
    db.subtreeBytes volume (pathText (front ++ rest)) = entry.size := by
  have identified := keys.identified volume
  have inner : front ++ rest ≠ [] := by simp [found.nonempty]
  have member : nodeOfEntry db.contentOf zone.path entry ∈ db.nodes volume :=
    Tree.nodeOfEntry_mem found.member found.zoneAt.member found.inZone.symm
  have notDirectory : ¬ (db.tree volume).Has (front ++ rest) .directory := by
    intro directory
    have same := wellFormed.has_unique directory (.entry found)
    rw [file] at same
    cases same
  have only : ((db.nodes volume).filter fun node =>
      decide (node.kind = .file) && decide (Within (pathText (front ++ rest)) node.path)) =
        [nodeOfEntry db.contentOf zone.path entry] := by
    apply filter_eq_singleton (identified.node_ids db.contentOf) member
    · rw [Bool.and_eq_true, decide_eq_true_eq, decide_eq_true_eq]
      exact ⟨file, Or.inr (Or.inl found.absolutePath_eq)⟩
    · intro node stored chosen
      rw [Bool.and_eq_true, decide_eq_true_eq, decide_eq_true_eq] at chosen
      obtain ⟨names, has, path⟩ := wellFormed.has_of_mem_nodes stored
      have inside := chosen.2.resolve_left (pathText_ne_root found.components inner)
      rw [path, atOrBelow_pathText_iff found.components has.components inner] at inside
      obtain ⟨extra, rfl⟩ := inside
      obtain rfl := wellFormed.nothing_below_of_not_directory notDirectory has
      rw [List.append_nil] at path
      obtain ⟨other, otherMember, rfl⟩ | ⟨other, otherMember, owner, ownerMember, inOwner, rfl⟩ :=
        Tree.mem_nodes.mp stored
      · cases chosen.1
      · obtain ⟨holder, upper, lower, otherFound⟩ := wellFormed.entryAt_of_mem otherMember
        obtain rfl := wellFormed.zone_ids owner ownerMember holder otherFound.zoneAt.member
          (inOwner.trans otherFound.inZone)
        rw [nodeOfEntry_path, otherFound.absolutePath_eq] at path
        have same := pathText_injective otherFound.components found.components path
        exact congrArg ZoneEntry.id (wellFormed.entryAt_unique otherFound found same).2.1
  unfold Database.subtreeBytes Database.subtree
  rw [List.filter_filter, only, total_cons, total_nil, Int.add_zero]
  rfl

theorem diskUsage_of_exact (keys : Keys db) (wellFormed : (db.tree volume).WellFormed)
    {names : List Text} {kind : Kind} (present : (db.tree volume).Has names kind)
    (located : db.locateZone volume (pathText names) = some location)
    (exact : (db.foundRows volume (pathText names) location).Perm
      ((db.subtree volume (pathText names)).map fun node => node.toNodeRow)) :
    db.diskUsage volume (pathText names) = .ok (db.subtreeBytes volume (pathText names)) := by
  have valid := present.components
  have summed (notFile : ∀ entry ∈ (db.tree volume).entries, entry.zoneId = location.zoneId →
      entry.relativePath = location.relativePath → entry.kind ≠ .file) :
      db.usedBytes volume (pathText names) location = db.subtreeBytes volume (pathText names) := by
    rw [usedBytes_eq_total location notFile]
    unfold Database.subtreeBytes total
    rw [((exact.filter _).map _).sum_eq, List.filter_map, List.map_map]
    rfl
  obtain ⟨zone, front, inner, found⟩ := wellFormed.located_exists valid
  have innerValid := found.components valid
  have same := (locateZone_of_located wellFormed valid found).symm.trans located
  obtain rfl := Option.some.inj same
  unfold Database.diskUsage
  rw [assertPath_of_canonical (canonicalPath_pathText valid), ok_bind, strict_eq_ok.mpr located,
    ok_bind]
  dsimp only
  split
  · rename_i nonempty
    have top : inner ≠ [] := by
      rintro rfl
      exact nonempty relativeText_nil
    obtain ⟨none, -⟩ | ⟨entry, entryAt, -⟩ := (wellFormed.has_iff_of_located found).mp present
    · exact absurd none top
    · rw [entryAt_eq_some wellFormed entryAt]
      dsimp only
      split
      · rename_i file
        rw [found.names_eq, subtreeBytes_of_file keys wellFormed entryAt file]
      · rename_i other
        rw [summed]
        intro entry member inZone path
        rwa [wellFormed.entry_paths entry member _ entryAt.member (inZone.trans entryAt.inZone.symm)
          (path.trans entryAt.path.symm)]
  · rename_i empty
    rw [summed]
    intro entry member _ path
    obtain ⟨owner, upper, rest, entryAt⟩ := wellFormed.entryAt_of_mem member
    rw [entryAt.path] at path
    exact absurd (path.trans (not_not.mp empty)) (relativeText_ne_nil entryAt.valid entryAt.nonempty)

end Walk

/-- The queries of a path return the nodes of the subtree, each once, and the bytes of its
regular files. -/
def Database.QueriesExact (db : Database) (volume : Uuid) (path : Text) : Prop :=
  (∃ rows, db.walk volume path = .ok rows ∧
    rows.Perm ((db.subtree volume path).map fun node => node.toNodeRow)) ∧
  (∃ paths, db.findPaths volume path none none = .ok paths ∧
    paths.Perm ((db.subtree volume path).map fun node => node.path)) ∧
  db.diskUsage volume path = .ok (db.subtreeBytes volume path)

/-- The queries of an existing path are exact when the patterns that they evaluate are. -/
theorem subtreeQueries_exact_iff {db : Database} {volume : Uuid} (state : WellFormedVolume db volume)
    {node : Node} (existing : node ∈ db.nodes volume) :
    db.QueriesExact volume node.path ↔ db.SubtreeExact volume node.path := by
  have keys := state.committed.sound.keys
  obtain ⟨names, has, path⟩ := state.tree.has_of_mem_nodes existing
  rw [path]
  have valid := has.components
  have canonical := canonicalPath_pathText valid
  obtain ⟨zone, front, inner, found⟩ := state.tree.located_exists valid
  have located := locateZone_of_located state.tree valid found
  obtain ⟨rows, walked, same⟩ := walk_of_located canonical located
  rw [← foundRows_perm_iff_exact keys state.tree valid located]
  constructor
  · rintro ⟨⟨returned, ran, perm⟩, -, -⟩
    obtain rfl := Except.ok.inj (walked.symm.trans ran)
    exact same.symm.trans perm
  · intro exact
    obtain ⟨paths, searched, samePaths⟩ := findPaths_all_of_located canonical located
    refine ⟨⟨rows, walked, same.trans exact⟩, ⟨paths, searched, ?_⟩,
      diskUsage_of_exact keys state.tree has located exact⟩
    have projected := samePaths.trans (exact.map NodeRow.path)
    rw [List.map_map] at projected
    exact projected

/-- `/ab` has a subtree of its own and no wildcard. -/
theorem subtreeQueries_exact_of_plain :
    (Database.empty.calls wildcardCalls).QueriesExact 7 ['/', 'a', 'b'] := by
  have member : ∃ node ∈ (Database.empty.calls wildcardCalls).nodes 7, node.path = ['/', 'a', 'b'] := by
    decide +kernel
  obtain ⟨node, existing, path⟩ := member
  rw [← path]
  refine (subtreeQueries_exact_iff (wellFormed_calls (by decide +kernel)) existing).mpr ?_
  rw [path]
  decide +kernel

/-- What lies below `/ab` comes with the walk of `/a_`. -/
theorem subtreeQueries_not_exact :
    ¬ ∀ (db : Database) (volume : Uuid) (node : Node), WellFormedVolume db volume →
      node ∈ db.nodes volume → db.QueriesExact volume node.path := by
  intro every
  have member : ∃ node ∈ (Database.empty.calls wildcardCalls).nodes 7, node.path = ['/', 'a', '_'] := by
    decide +kernel
  obtain ⟨node, existing, path⟩ := member
  obtain ⟨⟨rows, walked, perm⟩, -⟩ := every _ 7 node (wellFormed_calls (by decide +kernel)) existing
  rw [path] at walked perm
  have length := perm.length_eq
  have found : ((Database.empty.calls wildcardCalls).walk 7 ['/', 'a', '_']).toOption.map
      List.length = some 2 := by
    decide +kernel
  have stored : (((Database.empty.calls wildcardCalls).subtree 7 ['/', 'a', '_']).map
      fun node => node.toNodeRow).length = 1 := by
    decide +kernel
  rw [walked] at found
  have two : rows.length = 2 := Option.some.inj found
  omega

end PostgreOS
