/-
Copies in the tree of files.

`copy` repeats a subtree at a vacant path, the times of its files included. Where its patterns
select what lies below its source and no zone is nested there, it succeeds exactly where the tree
of files allows it.
-/

import PostgreOS.CopySpec
import PostgreOS.FileTreeSubtrees

namespace PostgreOS

open Library.NameTree Library.Outcome Library.Segments Library.Table

/-- The patterns of a recursive copy select what lies below its source, and no zone does. -/
def CopyFaithful (db : Database) (volume : Uuid) (source destination : Text) (recursive : Bool) :
    Prop :=
  (likeBelow source destination = true ↔ Below source destination) ∧
    (recursive = true →
      (∀ zone ∈ (db.tree volume).zones, likeBelow source zone.path = false ∧
        ¬ Below source zone.path) ∧
      ∀ location ∈ db.locateZone volume source, location.relativePath ≠ [] →
        (db.tree volume).EntriesExact location)

instance (db : Database) (volume : Uuid) (source destination : Text) (recursive : Bool) :
    Decidable (CopyFaithful db volume source destination recursive) :=
  inferInstanceAs (Decidable (_ ∧ (recursive = true → _ ∧
    ∀ location ∈ db.locateZone volume source, _)))

theorem Repeats.object {copy node : Node} (repeated : Repeats copy node) :
    copy.object = node.object := by
  obtain ⟨⟨kind, mode, uid, gid, size, content⟩, linkTarget, atime, mtime⟩ := repeated
  unfold Node.object Node.body
  rw [kind, mode, uid, gid, content, linkTarget, atime, mtime]

section Copy

variable {db after : Database} {volume : Uuid} {names target : List Text} {recursive : Bool}
  {now : Timestamp} {count : Nat}

/-- Nodes that repeat the nodes at and below a path are a copy in the view. -/
theorem view_of_repeats {added : List Node} (before : (db.tree volume).WellFormed)
    (still : (after.tree volume).WellFormed) (valid : Components names) (inner : names ≠ [])
    (targetValid : Components target) (targetInner : target ≠ [])
    (members : ∀ node, node ∈ after.nodes volume ↔ node ∈ db.nodes volume ∨ node ∈ added)
    (free : ∀ node ∈ db.nodes volume, ¬ AtOrBelow (pathText target) node.path)
    (repeated : ∀ node ∈ db.nodes volume, AtOrBelow (pathText names) node.path →
      ∃ copy ∈ added, RepeatOf (pathText names) (pathText target) node copy)
    (original : ∀ copy ∈ added,
      ∃ node ∈ db.nodes volume, RepeatOf (pathText names) (pathText target) node copy) :
    after.view volume = (db.view volume).copy names target := by
  refine view_graft before still targetValid targetInner members free ?_ ?_
  · intro copy member
    obtain ⟨node, nodeMember, suffix, boundary, path, copyPath, same⟩ := original copy member
    obtain ⟨others, has, spelled⟩ := before.has_of_mem_nodes nodeMember
    have below : AtOrBelow (pathText names) node.path := by
      rw [path]
      exact atOrBelow_append_iff.mpr boundary
    rw [spelled, atOrBelow_pathText_iff valid has.components inner] at below
    obtain ⟨extra, rfl⟩ := below
    rw [spelled, pathText_append inner] at path
    refine ⟨extra, has.components.right, ?_, ?_⟩
    · rw [copyPath, ← List.append_cancel_left path, pathText_append targetInner]
    · rw [branch_apply, same.object]
      exact view_of_node before nodeMember has.components spelled
  · intro extra object found
    rw [branch_apply] at found
    obtain ⟨namesValid, node, member, spelled, -⟩ := (view_eq_some_iff before).mp found
    have below : AtOrBelow (pathText names) node.path := by
      rw [spelled, atOrBelow_pathText_iff valid namesValid inner]
      exact List.prefix_append names extra
    obtain ⟨copy, copyMember, suffix, -, path, copyPath, -⟩ := repeated node member below
    rw [spelled, pathText_append inner] at path
    refine ⟨copy, copyMember, ?_, namesValid.right⟩
    rw [copyPath, ← List.append_cancel_left path, pathText_append targetInner]

section Entry

variable {zone : ZoneNode} {front inner : List Text} {location parent : Location}
  (at_ : Target db volume names zone front inner location)
  (isEntry : location.relativePath ≠ [])

include at_ isEntry

/-- Below a copied entry are entries of its zone only, and none without `recursive`. -/
theorem Target.copied_alone {source : ZoneEntry} {destination : Text}
    (sourceAt : (db.tree volume).EntryAt zone source front inner)
    (allowed : source.kind = .directory → recursive = true)
    (faithful : CopyFaithful db volume (pathText names) destination recursive) :
    (∀ other others, (db.tree volume).ZoneAt other others → ¬ names <+: others) ∧
      ∀ extra kind, (db.tree volume).Has (names ++ extra) kind → extra = [] ∨ recursive = true := by
  have noZone : ∀ other, ¬ (db.tree volume).ZoneAt other names :=
    at_.not_zoneAt fun empty => isEntry (at_.relativePath_eq_nil_iff.mpr empty)
  have deep : ∀ extra kind, (db.tree volume).Has (names ++ extra) kind →
      extra = [] ∨ recursive = true := by
    intro extra kind has
    by_cases directory : source.kind = .directory
    · exact Or.inr (allowed directory)
    · left
      refine at_.wellFormed.nothing_below_of_not_directory ?_ has
      intro hasDirectory
      refine directory ?_
      have here : (db.tree volume).Has names source.kind := by
        rw [at_.located.names_eq]
        exact .entry sourceAt
      exact at_.wellFormed.has_unique here hasDirectory
  refine ⟨?_, deep⟩
  intro other others found isPrefix
  by_cases here : names = others
  · exact noZone other (here ▸ found)
  · obtain ⟨extra, rfl⟩ := isPrefix
    have recursively := (deep extra .directory (.zone found)).resolve_left
      fun empty => here (by rw [empty, List.append_nil])
    refine ((faithful.2 recursively).1 other found.member).2 ?_
    rw [found.below_iff at_.valid at_.nonempty]
    exact ⟨List.prefix_append names extra, here⟩

theorem Target.repeatOf_copiedRow {entry : ZoneEntry} {extra : List Text} {destination : Text}
    {copy : Node} (found : (db.tree volume).EntryAt zone entry front (inner ++ extra))
    (row : CopiesRow db location destination entry copy) :
    nodeOfEntry db.contentOf zone.path entry ∈ db.nodes volume ∧
      RepeatOf (pathText names) destination (nodeOfEntry db.contentOf zone.path entry) copy := by
  have nonempty : inner ≠ [] := fun empty => isEntry (at_.relativePath_eq_nil_iff.mpr empty)
  have repeated := row.repeats
  have path := row.path
  rw [at_.location_eq] at repeated path
  rw [found.path, relativeText_append nonempty, List.drop_left] at path
  refine ⟨Tree.nodeOfEntry_mem found.member found.zoneAt.member found.inZone.symm,
    render '/' extra, ?_, ?_, path, repeated⟩
  · cases extra with
    | nil => exact Or.inl rfl
    | cons first rest =>
        rw [render_eq_cons_relativeText (List.cons_ne_nil first rest)]
        exact Or.inr ⟨_, rfl⟩
  · rw [nodeOfEntry_path, found.absolutePath_eq, ← List.append_assoc, ← at_.located.names_eq,
      pathText_append at_.nonempty]

/-- The copy of an entry repeats it. -/
theorem Target.view_copyEntry (sound : Sound db) (still : (after.tree volume).WellFormed)
    (targetValid : Components target)
    (copyable : Copyable db volume (pathText names) (pathText target) location parent)
    (faithful : CopyFaithful db volume (pathText names) (pathText target) recursive)
    (done : db.copyEntry volume (pathText names) (pathText target) location parent recursive now =
      .ok (after, count)) :
    after.view volume = (db.view volume).copy names target := by
  obtain ⟨⟨source, found, allowed⟩, -⟩ := copyEntry_ok done
  have sourceAt := at_.entryAt_of_entryAt isEntry found
  have nonempty : inner ≠ [] := fun empty => isEntry (at_.relativePath_eq_nil_iff.mpr empty)
  have exactly : recursive = true → (db.tree volume).EntriesExact location := fun recursively =>
    (faithful.2 recursively).2 location copyable.located isEntry
  obtain ⟨outside, deep⟩ := at_.copied_alone isEntry sourceAt (fun kind => (allowed kind).1) faithful
  obtain ⟨owner, upper, rest, name, place, -⟩ := copyable.vacant.place at_.wellFormed
  have targetInner : target ≠ [] := by
    rw [pathText_injective targetValid place.components place.path_eq]
    simp
  refine view_of_repeats at_.wellFormed still at_.valid at_.nonempty targetValid targetInner
    (mem_nodes_copyEntry place sound.keys done) (copyable.vacant.free_nodes at_.wellFormed) ?_ ?_
  · intro node member below
    rcases Tree.mem_nodes.mp member with ⟨other, otherMember, rfl⟩ | ⟨entry, entryMember, holder,
      holderMember, inZone, rfl⟩
    · obtain ⟨others, otherAt⟩ := at_.wellFormed.zoneAt_of_mem otherMember
      rw [nodeOfZone_path, otherAt.atOrBelow_iff at_.valid at_.nonempty] at below
      exact absurd below (outside other others otherAt)
    · obtain ⟨holding, above, within, entryAt⟩ := at_.wellFormed.entryAt_of_mem entryMember
      obtain rfl := at_.wellFormed.zone_ids holding entryAt.zoneAt.member holder holderMember
        (entryAt.inZone.symm.trans inZone.symm)
      rw [nodeOfEntry_path, entryAt.atOrBelow_iff at_.valid at_.nonempty] at below
      obtain ⟨rfl, extra, rfl⟩ := ((at_.wellFormed.prefix_entry_iff at_.located entryAt).mp
        below).resolve_left (outside holding above entryAt.zoneAt)
      obtain rfl := entryAt.zoneAt.names_unique at_.located.zoneAt
      have has : (db.tree volume).Has (names ++ extra) entry.kind := by
        rw [at_.located.names_eq, List.append_assoc]
        exact .entry entryAt
      have chosen := (subtreeRow_iff at_.wellFormed location recursive at_.located.zoneAt.member
        (by rw [at_.location_eq]) (at_.located.components at_.valid) nonempty
        (by rw [at_.location_eq]) exactly entryAt).mpr
          ⟨rfl, (deep extra entry.kind has).imp (fun empty => by rw [empty, List.append_nil])
            fun recursively => ⟨recursively, List.prefix_append inner extra⟩⟩
      obtain ⟨copy, copyMember, row⟩ := exists_copiedNode place now entryMember chosen
      exact ⟨copy, copyMember, (at_.repeatOf_copiedRow isEntry entryAt row).2⟩
  · intro copy member
    obtain ⟨entry, entryMember, chosen, row⟩ := mem_copiedNodes place member
    obtain ⟨extra, entryAt, -⟩ := copySelected at_.wellFormed at_.located at_.valid at_.location_eq
      nonempty exactly entryMember chosen
    exact ⟨_, at_.repeatOf_copiedRow isEntry entryAt row⟩

end Entry

theorem Target.view_copyZone {zone : ZoneNode} {front inner : List Text} {location parent : Location}
    (at_ : Target db volume names zone front inner location) (isZone : location.relativePath = [])
    (sound : Sound db) (still : (after.tree volume).WellFormed) (targetValid : Components target)
    (copyable : Copyable db volume (pathText names) (pathText target) location parent)
    (faithful : CopyFaithful db volume (pathText names) (pathText target) recursive)
    (done : db.copyZone volume (pathText names) (pathText target) location parent recursive now =
      .ok (after, count)) :
    after.view volume = (db.view volume).copy names target := by
  obtain ⟨owner, upper, rest, name, place, -⟩ := copyable.vacant.place at_.wellFormed
  obtain ⟨source, same, members, -⟩ := at_.nodes_copyZone isZone sound copyable done
  have targetInner : target ≠ [] := by
    rw [pathText_injective targetValid place.components place.path_eq]
    simp
  have none : ∀ other ∈ (db.tree volume).zones, ¬ Below (pathText names) other.path :=
    fun other member => ((faithful.2 (copyZone_ok done).1).1 other member).2
  exact view_of_repeats at_.wellFormed still at_.valid at_.nonempty targetValid targetInner members
    (copyable.vacant.free_nodes at_.wellFormed)
    (fun node member below => at_.zone_repeated isZone place same now none member below)
    (fun copy member => at_.zone_original isZone place same member)

theorem view_copy (sound : Sound db) (before : (db.tree volume).WellFormed)
    (valid : Components names) (targetValid : Components target)
    (faithful : CopyFaithful db volume (pathText names) (pathText target) recursive)
    (done : db.copy volume (pathText names) (pathText target) recursive now = .ok (after, count)) :
    after.view volume = (db.view volume).copy names target := by
  have still : (after.tree volume).WellFormed := by
    refine copy_wellFormed sound before ?_ done
    intro location located isEntry recursively
    exact (faithful.2 recursively).2 location located isEntry
  obtain ⟨location, parent, copyable, branch⟩ := copy_ok done
  obtain ⟨others, zone, front, inner, same, at_⟩ := copyable.source before
  obtain rfl := pathText_injective valid at_.valid same
  rcases branch with ⟨isZone, copied⟩ | ⟨isEntry, copied⟩
  · exact at_.view_copyZone isZone sound still targetValid copyable faithful copied
  · exact at_.view_copyEntry isEntry sound still targetValid copyable faithful copied

/-! ### Copies that are allowed -/

/-- The rows of a copied entry meet no conflict. -/
theorem Target.copyEntry_exists {zone : ZoneNode} {front inner : List Text}
    {location parent : Location} {source : ZoneEntry} {destination : Text}
    (at_ : Target db volume names zone front inner location) (isEntry : location.relativePath ≠ [])
    (keys : Keys db) (copyable : Copyable db volume (pathText names) destination location parent)
    (faithful : CopyFaithful db volume (pathText names) destination recursive)
    (found : db.entryAt volume location = some source)
    (allowed : source.kind = .directory → recursive = true) (now : Timestamp) :
    ∃ result, db.copyEntry volume (pathText names) destination location parent recursive now =
      .ok result := by
  have nonempty : inner ≠ [] := fun empty => isEntry (at_.relativePath_eq_nil_iff.mpr empty)
  have exactly : recursive = true → (db.tree volume).EntriesExact location := fun recursively =>
    (faithful.2 recursively).2 location copyable.located isEntry
  obtain ⟨owner, upper, rest, name, place, free⟩ := copyable.vacant.place at_.wellFormed
  have parentId : parent.zoneId = owner.id := congrArg Location.zoneId place.location_eq
  have inTree {entry : ZoneEntry} (member : entry ∈ db.zoneEntries.filter
      (subtreeRow volume location.zoneId location.relativePath recursive)) :
      entry ∈ (db.tree volume).entries ∧
        subtreeRow volume location.zoneId location.relativePath recursive entry = true := by
    obtain ⟨inTable, chosen⟩ := List.mem_filter.mp member
    exact ⟨mem_tree_entries.mpr ⟨inTable, (of_decide_eq_true chosen).1⟩, chosen⟩
  have arriving {entry : ZoneEntry} (member : entry ∈ db.zoneEntries.filter
      (subtreeRow volume location.zoneId location.relativePath recursive)) (serial : NodeId) :=
    arriving_copiedEntry at_.wellFormed place at_.located at_.valid at_.location_eq nonempty
      exactly (inTree member).1 (inTree member).2 now serial
  obtain ⟨after, inserted⟩ : ∃ after, db.insertEntries (db.copiedRows volume location parent
      (nameOf destination) recursive now) = .ok after := by
    have columns : ∀ row ∈ db.copiedRows volume location parent (nameOf destination) recursive now,
        ∀ serial, (row serial).id = serial ∧ (row serial).volumeId = volume ∧
          (row serial).zoneId = owner.id ∧ (row serial).relativePath = (row 0).relativePath ∧
            Tree.Spelled (row serial) := by
      intro row member serial
      obtain ⟨entry, entryMember, rfl⟩ := List.mem_map.mp member
      exact ⟨rfl, rfl, parentId, rfl, (arriving entryMember serial).spelled place.valid⟩
    refine insertSpelled_exists keys columns ?_ ?_
    · unfold Database.copiedRows
      rw [List.map_map, List.Nodup, List.pairwise_map]
      refine List.Pairwise.imp_of_mem ?_ (keys.entries_distinct.filter _)
      intro first second hFirst hSecond clear same
      obtain ⟨extra, firstAt, -⟩ := copySelected at_.wellFormed at_.located at_.valid at_.location_eq
        nonempty exactly (inTree hFirst).1 (inTree hFirst).2
      obtain ⟨other, secondAt, -⟩ := copySelected at_.wellFormed at_.located at_.valid
        at_.location_eq nonempty exactly (inTree hSecond).1 (inTree hSecond).2
      have paths := (copiedEntry_relative place at_.location_eq nonempty firstAt.path now 0).symm.trans
        (same.trans (copiedEntry_relative place at_.location_eq nonempty secondAt.path now 0))
      have extras := List.append_cancel_left (relativeText_injective
        (place.valid.append firstAt.valid.right) (place.valid.append secondAt.valid.right) paths)
      have volumes := (mem_tree_entries.mp (inTree hFirst).1).2.trans
        (mem_tree_entries.mp (inTree hSecond).1).2.symm
      rw [clash_of_entry_path volumes (firstAt.inZone.trans secondAt.inZone.symm)
        (by rw [firstAt.path, secondAt.path, extras])] at clear
      cases clear
    · intro entry member inVolume inZone
      have entryMember := mem_tree_entries.mpr ⟨member, inVolume⟩
      refine ⟨at_.wellFormed.spelled entryMember, ?_⟩
      intro row rowMember same
      obtain ⟨original, originalMember, rfl⟩ := List.mem_map.mp rowMember
      exact at_.wellFormed.arriving_path_ne place.zoneAt place.valid free
        (arriving originalMember 0) entryMember (parentId.trans inZone.symm) same.symm
  unfold Database.copyEntry
  rw [found]
  dsimp only
  rw [if_neg, if_neg]
  · unfold Database.copiedRows at inserted
    rw [inserted]
    exact ⟨_, rfl⟩
  · rintro ⟨directory, nested⟩
    refine nested ((zonesLikeBelow_eq_nil_iff _).mpr fun other member => ?_)
    exact ((faithful.2 (allowed directory)).1 other member).1
  · rintro ⟨directory, plain⟩
    exact plain (allowed directory)

/-- The rows of a copied zone meet no conflict. -/
theorem Target.copyZone_exists {zone : ZoneNode} {front inner : List Text}
    {location parent : Location} {destination : Text}
    (at_ : Target db volume names zone front inner location) (isZone : location.relativePath = [])
    (sound : Sound db) (copyable : Copyable db volume (pathText names) destination location parent)
    (faithful : CopyFaithful db volume (pathText names) destination true) (now : Timestamp) :
    ∃ result, db.copyZone volume (pathText names) destination location parent true now =
      .ok result := by
  have zoneId : location.zoneId = zone.id := by rw [at_.location_eq]
  have single : db.zonesLikeBelow volume (pathText names) = [] :=
    (zonesLikeBelow_eq_nil_iff _).mpr fun other member => ((faithful.2 rfl).1 other member).1
  obtain ⟨source, found⟩ : ∃ source,
      db.zones.find? (fun other => other.id = location.zoneId) = some source := by
    obtain ⟨stored, member, same⟩ :=
      List.mem_map.mp (mem_tree_zones.mp (at_.zoneAt_names isZone).member).1
    rw [← Option.isSome_iff_exists, List.find?_isSome]
    exact ⟨stored, member, decide_eq_true (by rw [zoneId, ← same])⟩
  obtain ⟨inserted, zoneOk⟩ : ∃ inserted, db.insertZone
      (copiedZone volume parent destination now source) = .ok (inserted, db.nextNode) :=
    insertZone_vacant sound.keys at_.wellFormed copyable.vacant
      fun serial => ⟨rfl, rfl, rfl, rfl, rfl⟩
  have keys := ((Kept.refl sound).insertZone (fun _ => rfl)
    (fun _ => copyable.vacant.canonical.zonePath) zoneOk).sound.keys
  have rows : inserted.zoneEntries = db.zoneEntries := by rw [(insertZone_ok zoneOk).1]
  obtain ⟨after, filled⟩ : ∃ after, inserted.insertEntries
      (db.copiedZoneRows volume location.zoneId db.nextNode now) = .ok after := by
    have columns : ∀ row ∈ db.copiedZoneRows volume location.zoneId db.nextNode now,
        ∀ serial, (row serial).id = serial ∧ (row serial).volumeId = volume ∧
          (row serial).zoneId = db.nextNode ∧ (row serial).relativePath = (row 0).relativePath ∧
            Tree.Spelled (row serial) := by
      intro row member serial
      obtain ⟨entry, entryMember, rfl⟩ := List.mem_map.mp member
      obtain ⟨inTable, chosen⟩ := List.mem_filter.mp entryMember
      have spelled := at_.wellFormed.spelled
        (mem_tree_entries.mpr ⟨inTable, (of_decide_eq_true chosen).1⟩)
      exact ⟨rfl, rfl, rfl, rfl, spelled.canonical, spelled.parentPath, spelled.name⟩
    refine fillZone_exists keys ?_ columns ?_
    · rw [rows]
      exact fun entry member => Nat.ne_of_lt (sound.keys.entry_zone_bound member)
    · unfold Database.copiedZoneRows
      rw [List.map_map, List.Nodup, List.pairwise_map]
      refine List.Pairwise.imp_of_mem ?_ (sound.keys.entries_distinct.filter _)
      intro first second hFirst hSecond clear same
      have firstZone := of_decide_eq_true (List.mem_filter.mp hFirst).2
      have secondZone := of_decide_eq_true (List.mem_filter.mp hSecond).2
      rw [clash_of_entry_path (firstZone.1.trans secondZone.1.symm)
        (firstZone.2.trans secondZone.2.symm) same] at clear
      cases clear
  unfold Database.copiedZoneRows at filled
  unfold Database.copyZone
  rw [if_neg (not_not.mpr rfl), if_neg (not_not.mpr single), found, strict, ok_bind, zoneOk, ok_bind]
  dsimp only
  rw [rows, filled, ok_bind]
  exact ⟨_, rfl⟩

theorem canCopy_of_copyable {location parent : Location} (before : (db.tree volume).WellFormed)
    (valid : Components names) (targetValid : Components target)
    (faithful : CopyFaithful db volume (pathText names) (pathText target) recursive)
    (copyable : Copyable db volume (pathText names) (pathText target) location parent)
    (known : ∃ kind, db.kindOf volume (pathText names) = some kind ∧
      (kind = .directory → recursive = true)) :
    (db.view volume).CanCopy names target recursive := by
  have inner : names ≠ [] := fun root => copyable.notRoot (by rw [root, pathText_nil])
  refine ⟨inner, ?_, (vacant_iff before targetValid).mpr
    ⟨copyable.vacant.free, copyable.vacant.parent⟩, ?_⟩
  · intro inside
    rcases (atOrBelow_pathText_iff valid targetValid inner).mpr inside with here | below
    · exact copyable.apart here
    · have selected := faithful.1.mpr below
      rw [copyable.notLikeBelow] at selected
      cases selected
  · obtain ⟨kind, found, allowed⟩ := known
    rw [kindOf_view before valid, Option.map_eq_some_iff] at found
    obtain ⟨object, present, rfl⟩ := found
    exact ⟨object, present, fun directory =>
      allowed ((Body.kind_eq_directory_iff object.body).mpr directory)⟩

theorem copy_allowed_iff (sound : Sound db) (before : (db.tree volume).WellFormed)
    (valid : Components names) (targetValid : Components target)
    (faithful : CopyFaithful db volume (pathText names) (pathText target) recursive)
    (now : Timestamp) :
    (∃ result, db.copy volume (pathText names) (pathText target) recursive now = .ok result) ↔
      (db.view volume).CanCopy names target recursive := by
  have kind_of {location : Location} (located : db.locateZone volume (pathText names) = some location) :
      db.kindOf volume (pathText names) = if location.relativePath = [] then some .directory
        else (db.entryAt volume location).map ZoneEntry.kind := by
    unfold Database.kindOf
    rw [located]
  constructor
  · rintro ⟨⟨after, count⟩, done⟩
    obtain ⟨location, parent, copyable, branch⟩ := copy_ok done
    refine canCopy_of_copyable before valid targetValid faithful copyable ?_
    rw [kind_of copyable.located]
    rcases branch with ⟨isZone, copied⟩ | ⟨isEntry, copied⟩
    · rw [if_pos isZone]
      exact ⟨.directory, rfl, fun _ => (copyZone_ok copied).1⟩
    · obtain ⟨⟨source, found, allowed⟩, -⟩ := copyEntry_ok copied
      rw [if_neg isEntry, found]
      exact ⟨source.kind, rfl, fun directory => (allowed directory).1⟩
  · rintro ⟨inner, outside, vacant, object, present, allowed⟩
    obtain ⟨free, above⟩ := (vacant_iff before targetValid).mp vacant
    have canonical := canonicalPath_pathText targetValid
    obtain ⟨zone, front, rest, found⟩ := before.located_exists valid
    have located := locateZone_of_located before valid found
    obtain ⟨parent, parentLocated⟩ := locateParent_isSome before canonical (ne_root_of_parent above)
    have copyable : Copyable db volume (pathText names) (pathText target) _ parent :=
      { canonical := canonicalPath_pathText valid
        notRoot := pathText_ne_root valid inner
        apart := fun same => outside
          (pathText_injective targetValid valid same ▸ List.prefix_refl target)
        notLikeBelow := by
          rw [Bool.eq_false_iff]
          exact fun selected => outside ((atOrBelow_pathText_iff valid targetValid inner).mp
            (Or.inr (faithful.1.mp selected)))
        located := located
        vacant := ⟨canonical, free, above, parentLocated⟩ }
    have at_ : Target db volume names zone front rest _ := ⟨before, valid, inner, found, rfl⟩
    have known := kind_of located
    rw [kindOf_view before valid, present, Option.map_some] at known
    have directory : object.body.kind = .directory → recursive = true := fun same =>
      allowed ((Body.kind_eq_directory_iff object.body).mp same)
    unfold Database.copy
    rw [assertPath_of_canonical copyable.canonical, ok_bind, assertPath_of_canonical canonical,
      ok_bind, if_neg (by simp [copyable.notRoot, copyable.apart, copyable.notLikeBelow]),
      if_neg (not_not.mpr free), if_neg (not_not.mpr above), located, strict, ok_bind, parentLocated,
      strict, ok_bind]
    by_cases isZone : relativeText rest = []
    · rw [if_pos isZone] at known ⊢
      obtain rfl := directory (Option.some.inj known)
      exact at_.copyZone_exists isZone sound copyable faithful now
    · rw [if_neg isZone] at known ⊢
      obtain ⟨source, sourceFound, same⟩ := Option.map_eq_some_iff.mp known.symm
      exact at_.copyEntry_exists isZone sound.keys copyable faithful sourceFound
        (fun isDirectory => directory (same ▸ isDirectory)) now

end Copy

end PostgreOS
