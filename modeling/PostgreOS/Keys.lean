/-
Keys and references that hold in every state.

The unique indexes speak about the zones and the entries separately. Together with
ids that come from one sequence, and with zones that are never removed before their
entries, they give the facts below; none of them depends on the shape of the tree.
-/

import PostgreOS.Zones

namespace PostgreOS

open Library.Table

/-- `/`, or a path that starts with one slash only. -/
def ZonePath (path : Text) : Prop :=
  path = ['/'] ∨ ∃ symbol rest, path = '/' :: symbol :: rest ∧ symbol ≠ '/'

/-- The zone of a row exists in the volume of the row. -/
def InStoredZone (zones : List ZoneNode) (entry : ZoneEntry) : Prop :=
  ∃ zone ∈ zones, zone.id = entry.zoneId ∧ zone.volumeId = entry.volumeId

structure Keys (db : Database) : Prop where
  entry_ids : (db.zoneEntries.map ZoneEntry.id).Nodup
  entry_bound : ∀ entry ∈ db.zoneEntries, entry.id < db.nextNode
  zone_bound : ∀ zone ∈ db.zoneNodes, zone.id < db.nextNode
  ids_apart : ∀ entry ∈ db.zoneEntries, ∀ zone ∈ db.zoneNodes, entry.id ≠ zone.id
  zones_distinct : Distinct zoneClash db.zoneNodes
  entries_distinct : Distinct entryClash db.zoneEntries
  entry_zone : ∀ entry ∈ db.zoneEntries, InStoredZone db.zoneNodes entry
  zone_volume : ∀ zone ∈ db.zoneNodes, zone.volumeId ∈ db.volumes.map Volume.id
  zone_path : ∀ zone ∈ db.zoneNodes, ZonePath zone.path
  root : ∀ volume ∈ db.volumes, ∃ zone ∈ db.zoneNodes, zone.volumeId = volume.id ∧ zone.path = ['/']
  volume_table : ∀ volume ∈ db.volumes, volume.id ∈ db.volumeTables

theorem CanonicalPath.zonePath {path : Text} (canonical : CanonicalPath path) : ZonePath path := by
  obtain ⟨names, valid, rfl⟩ := (canonicalPath_iff path).mp canonical
  by_cases root : names = []
  · exact Or.inl (by rw [root]; rfl)
  · right
    cases names with
    | nil => exact absurd rfl root
    | cons name rest =>
        obtain ⟨⟨nonempty, free⟩, -⟩ := valid name List.mem_cons_self
        cases name with
        | nil => exact absurd rfl nonempty
        | cons symbol more =>
            refine ⟨symbol, more ++ Library.Segments.render '/' rest, ?_,
              fun same => free (by rw [same]; exact List.mem_cons_self)⟩
            rw [pathText_of_ne_nil root]
            simp

theorem clash_of_zone_id {first second : ZoneNode} (same : first.id = second.id) :
    zoneClash first second = true := by
  simp [zoneClash, same]

theorem clash_of_zone_path {first second : ZoneNode} (volume : first.volumeId = second.volumeId)
    (same : first.path = second.path) : zoneClash first second = true := by
  simp [zoneClash, volume, same]

theorem clash_of_entry_path {first second : ZoneEntry} (volume : first.volumeId = second.volumeId)
    (zone : first.zoneId = second.zoneId) (same : first.relativePath = second.relativePath) :
    entryClash first second = true := by
  simp [entryClash, volume, zone, same]

theorem entryClash_congr {first second : ZoneEntry} (other : ZoneEntry)
    (id : first.id = second.id) (volume : first.volumeId = second.volumeId)
    (zone : first.zoneId = second.zoneId) (path : first.relativePath = second.relativePath)
    (parent : first.parentPath = second.parentPath) (name : first.name = second.name) :
    entryClash first other = entryClash second other := by
  unfold entryClash
  rw [id, volume, zone, path, parent, name]

theorem updateEntries_of_same_keys (db : Database) (selected : ZoneEntry → Bool)
    (change : ZoneEntry → ZoneEntry) (distinct : Distinct entryClash db.zoneEntries)
    (same : ∀ entry ∈ db.zoneEntries, selected entry = true →
      ∀ other, entryClash (change entry) other = entryClash entry other) :
    ∃ after, db.updateEntries selected change = .ok after := by
  unfold Database.updateEntries
  rw [updateRows_of_same_keys entryClash_comm same distinct]
  exact ⟨_, rfl⟩

theorem updateZones_of_same_keys (db : Database) (selected : Zone → Bool) (change : Zone → Zone)
    (distinct : Distinct zoneClash db.zoneNodes)
    (same : ∀ zone ∈ db.zones, selected zone = true →
      ∀ other, storedZoneClash (change zone) other = storedZoneClash zone other) :
    ∃ after, db.updateZones selected change = .ok after := by
  unfold Database.updateZones
  rw [updateRows_of_same_keys storedZoneClash_comm same
    ((distinct_storedZoneClash_iff db.zones).mpr distinct)]
  exact ⟨_, rfl⟩

namespace Keys

variable {db : Database} (keys : Keys db)

include keys

theorem zone_eq_of_id {first second : ZoneNode} (hFirst : first ∈ db.zoneNodes)
    (hSecond : second ∈ db.zoneNodes) (same : first.id = second.id) : first = second :=
  keys.zones_distinct.eq_of_clash zoneClash_comm hFirst hSecond (clash_of_zone_id same)

theorem zone_ids : (db.zones.map fun zone => zone.toZoneNode.id).Nodup := by
  have nodup : (db.zoneNodes.map ZoneNode.id).Nodup := by
    refine List.Pairwise.map ZoneNode.id ?_ keys.zones_distinct
    intro first second apart same
    rw [clash_of_zone_id same] at apart
    cases apart
  unfold Database.zoneNodes at nodup
  rw [List.map_map] at nodup
  exact nodup

theorem zone_eq_of_path {first second : ZoneNode} (hFirst : first ∈ db.zoneNodes)
    (hSecond : second ∈ db.zoneNodes) (volume : first.volumeId = second.volumeId)
    (same : first.path = second.path) : first = second :=
  keys.zones_distinct.eq_of_clash zoneClash_comm hFirst hSecond (clash_of_zone_path volume same)

theorem entry_zone_bound {entry : ZoneEntry} (member : entry ∈ db.zoneEntries) :
    entry.zoneId < db.nextNode := by
  obtain ⟨zone, zoneMember, inZone, -⟩ := keys.entry_zone entry member
  rw [← inZone]
  exact keys.zone_bound zone zoneMember

theorem entry_eq_of_path {first second : ZoneEntry} (hFirst : first ∈ db.zoneEntries)
    (hSecond : second ∈ db.zoneEntries) (volume : first.volumeId = second.volumeId)
    (zone : first.zoneId = second.zoneId) (same : first.relativePath = second.relativePath) :
    first = second :=
  keys.entries_distinct.eq_of_clash entryClash_comm hFirst hSecond
    (clash_of_entry_path volume zone same)

theorem entry_eq_of_id {first second : ZoneEntry} (hFirst : first ∈ db.zoneEntries)
    (hSecond : second ∈ db.zoneEntries) (same : first.id = second.id) : first = second :=
  List.inj_on_of_nodup_map keys.entry_ids hFirst hSecond same

end Keys

theorem Keys.congr {db after : Database} (keys : Keys db) (same : SameTables db after) :
    Keys after := by
  have nodes : after.zoneNodes = db.zoneNodes := congrArg (List.map Zone.toZoneNode) same.zones
  constructor
  · rw [same.zoneEntries]
    exact keys.entry_ids
  · rw [same.zoneEntries, same.nextNode]
    exact keys.entry_bound
  · rw [nodes, same.nextNode]
    exact keys.zone_bound
  · rw [same.zoneEntries, nodes]
    exact keys.ids_apart
  · rw [nodes]
    exact keys.zones_distinct
  · rw [same.zoneEntries]
    exact keys.entries_distinct
  · rw [same.zoneEntries, nodes]
    exact keys.entry_zone
  · rw [nodes, same.volumes]
    exact keys.zone_volume
  · rw [nodes]
    exact keys.zone_path
  · rw [nodes, same.volumes]
    exact keys.root
  · rw [same.volumes, same.volumeTables]
    exact keys.volume_table

/-! ### The statements keep the keys -/

section Statements

variable {db after : Database} (keys : Keys db)

include keys

theorem Keys.insertEntries {makers : List (NodeId → ZoneEntry)}
    (ids : ∀ make ∈ makers, ∀ serial, (make serial).id = serial)
    (inZone : ∀ make ∈ makers, ∀ serial, InStoredZone db.zoneNodes (make serial))
    (inserted : db.insertEntries makers = .ok after) : Keys after := by
  have nodes := zoneNodes_insertEntries inserted
  obtain ⟨rfl, distinct⟩ := insertEntries_ok inserted
  constructor
  · rw [List.map_append, map_numbered ZoneEntry.id db.nextNode _ ids, List.nodup_append]
    refine ⟨keys.entry_ids, List.nodup_range', ?_⟩
    intro old oldMember new newMember
    obtain ⟨entry, member, rfl⟩ := List.mem_map.mp oldMember
    have bound := keys.entry_bound entry member
    have lower := (List.mem_range'_1.mp newMember).1
    exact Nat.ne_of_lt (Nat.lt_of_lt_of_le bound lower)
  · intro entry member
    rcases List.mem_append.mp member with old | new
    · exact Nat.lt_of_lt_of_le (keys.entry_bound entry old) (Nat.le_add_right _ _)
    · obtain ⟨make, makeMember, serial, -, upper, rfl⟩ := mem_numbered new
      rw [ids make makeMember serial]
      exact upper
  · intro zone member
    rw [nodes] at member
    exact Nat.lt_of_lt_of_le (keys.zone_bound zone member) (Nat.le_add_right _ _)
  · rw [nodes]
    intro entry member zone zoneMember
    rcases List.mem_append.mp member with old | new
    · exact keys.ids_apart entry old zone zoneMember
    · obtain ⟨make, makeMember, serial, lower, -, rfl⟩ := mem_numbered new
      rw [ids make makeMember serial]
      exact Nat.ne_of_gt (Nat.lt_of_lt_of_le (keys.zone_bound zone zoneMember) lower)
  · rw [nodes]
    exact keys.zones_distinct
  · exact distinct
  · intro entry member
    rw [nodes]
    rcases List.mem_append.mp member with old | new
    · exact keys.entry_zone entry old
    · obtain ⟨make, makeMember, serial, -, -, rfl⟩ := mem_numbered new
      exact inZone make makeMember serial
  · rw [nodes]
    exact keys.zone_volume
  · rw [nodes]
    exact keys.zone_path
  · rw [nodes]
    exact keys.root
  · exact keys.volume_table

theorem Keys.deleteEntries (selected : ZoneEntry → Bool) : Keys (db.deleteEntries selected) := by
  have nodes := zoneNodes_deleteEntries db selected
  constructor
  · exact keys.entry_ids.sublist (List.filter_sublist.map ZoneEntry.id)
  · exact fun entry member => keys.entry_bound entry (List.mem_of_mem_filter member)
  · rw [nodes]
    exact keys.zone_bound
  · rw [nodes]
    exact fun entry member => keys.ids_apart entry (List.mem_of_mem_filter member)
  · rw [nodes]
    exact keys.zones_distinct
  · exact keys.entries_distinct.filter _
  · rw [nodes]
    exact fun entry member => keys.entry_zone entry (List.mem_of_mem_filter member)
  · rw [nodes]
    exact keys.zone_volume
  · rw [nodes]
    exact keys.zone_path
  · rw [nodes]
    exact keys.root
  · exact keys.volume_table

theorem Keys.updateEntries {selected : ZoneEntry → Bool} {change : ZoneEntry → ZoneEntry}
    (ids : ∀ entry ∈ db.zoneEntries, selected entry = true → (change entry).id = entry.id)
    (inZone : ∀ entry ∈ db.zoneEntries, selected entry = true →
      InStoredZone db.zoneNodes (change entry))
    (updated : db.updateEntries selected change = .ok after) : Keys after := by
  have nodes := zoneNodes_updateEntries updated
  obtain ⟨rfl, distinct⟩ := updateEntries_ok updated
  have sameId : ∀ entry ∈ db.zoneEntries, (rewritten selected change entry).id = entry.id := by
    intro entry member
    unfold rewritten
    split
    · exact ids entry member ‹_›
    · rfl
  constructor
  · rw [List.map_map, List.map_congr_left (f := ZoneEntry.id ∘ rewritten selected change) sameId]
    exact keys.entry_ids
  · intro entry member
    obtain ⟨old, oldMember, rfl⟩ := List.mem_map.mp member
    rw [sameId old oldMember]
    exact keys.entry_bound old oldMember
  · rw [nodes]
    exact keys.zone_bound
  · rw [nodes]
    intro entry member
    obtain ⟨old, oldMember, rfl⟩ := List.mem_map.mp member
    rw [sameId old oldMember]
    exact keys.ids_apart old oldMember
  · rw [nodes]
    exact keys.zones_distinct
  · exact distinct keys.entries_distinct
  · rw [nodes]
    intro entry member
    obtain ⟨old, oldMember, rfl⟩ := List.mem_map.mp member
    unfold rewritten
    split
    · exact inZone old oldMember ‹_›
    · exact keys.entry_zone old oldMember
  · rw [nodes]
    exact keys.zone_volume
  · rw [nodes]
    exact keys.zone_path
  · rw [nodes]
    exact keys.root
  · exact keys.volume_table

omit keys in
theorem InStoredZone.append {zones : List ZoneNode} {entry : ZoneEntry} (added : List ZoneNode)
    (inZone : InStoredZone zones entry) : InStoredZone (zones ++ added) entry := by
  obtain ⟨zone, member, found⟩ := inZone
  exact ⟨zone, List.mem_append_left added member, found⟩

theorem Keys.insertZone {make : NodeId → ZoneNode} {id : NodeId}
    (ids : ∀ serial, (make serial).id = serial) (path : ∀ serial, ZonePath (make serial).path)
    (inserted : db.insertZone make = .ok (after, id)) : Keys after := by
  have nodes := zoneNodes_insertZone inserted
  obtain ⟨rfl, -, known, distinct⟩ := insertZone_ok inserted
  constructor
  · exact keys.entry_ids
  · exact fun entry member => Nat.lt_succ_of_lt (keys.entry_bound entry member)
  · rw [nodes]
    intro zone member
    rcases List.mem_append.mp member with old | new
    · exact Nat.lt_succ_of_lt (keys.zone_bound zone old)
    · rw [List.mem_singleton.mp new, ids]
      exact Nat.lt_succ_self _
  · rw [nodes]
    intro entry member zone zoneMember
    rcases List.mem_append.mp zoneMember with old | new
    · exact keys.ids_apart entry member zone old
    · rw [List.mem_singleton.mp new, ids]
      exact Nat.ne_of_lt (keys.entry_bound entry member)
  · exact (distinct_storedZoneClash_iff _).mp distinct
  · exact keys.entries_distinct
  · rw [nodes]
    exact fun entry member => (keys.entry_zone entry member).append [make db.nextNode]
  · rw [nodes]
    intro zone member
    rcases List.mem_append.mp member with old | new
    · exact keys.zone_volume zone old
    · rw [List.mem_singleton.mp new]
      exact known
  · rw [nodes]
    intro zone member
    rcases List.mem_append.mp member with old | new
    · exact keys.zone_path zone old
    · rw [List.mem_singleton.mp new]
      exact path db.nextNode
  · rw [nodes]
    intro volume member
    obtain ⟨zone, zoneMember, found⟩ := keys.root volume member
    exact ⟨zone, List.mem_append_left _ zoneMember, found⟩
  · exact keys.volume_table

theorem Keys.deleteZones {selected : Zone → Bool}
    (empty : ∀ zone ∈ db.zones, selected zone = true → ∀ entry ∈ db.zoneEntries,
      entry.zoneId ≠ zone.id)
    (root : ∀ zone ∈ db.zones, selected zone = true → zone.path ≠ ['/']) :
    Keys (db.deleteZones selected) := by
  have sub : (db.deleteZones selected).zoneNodes.Sublist db.zoneNodes :=
    List.filter_sublist.map Zone.toZoneNode
  have stays : ∀ zone ∈ db.zones, selected zone = false →
      zone.toZoneNode ∈ (db.deleteZones selected).zoneNodes := by
    intro zone member kept
    exact List.mem_map_of_mem (List.mem_filter.mpr ⟨member, by simp [kept]⟩)
  constructor
  · exact keys.entry_ids
  · exact keys.entry_bound
  · exact fun zone member => keys.zone_bound zone (sub.subset member)
  · exact fun entry member zone zoneMember =>
      keys.ids_apart entry member zone (sub.subset zoneMember)
  · exact keys.zones_distinct.sublist sub
  · exact keys.entries_distinct
  · intro entry member
    obtain ⟨node, nodeMember, inZone, inVolume⟩ := keys.entry_zone entry member
    obtain ⟨zone, zoneMember, rfl⟩ := List.mem_map.mp nodeMember
    refine ⟨zone.toZoneNode, stays zone zoneMember ?_, inZone, inVolume⟩
    cases chosen : selected zone with
    | false => rfl
    | true => exact absurd inZone.symm (empty zone zoneMember chosen entry member)
  · exact fun zone member => keys.zone_volume zone (sub.subset member)
  · exact fun zone member => keys.zone_path zone (sub.subset member)
  · intro volume member
    obtain ⟨node, nodeMember, inVolume, path⟩ := keys.root volume member
    obtain ⟨zone, zoneMember, rfl⟩ := List.mem_map.mp nodeMember
    refine ⟨zone.toZoneNode, stays zone zoneMember ?_, inVolume, path⟩
    cases chosen : selected zone with
    | false => rfl
    | true => exact absurd path (root zone zoneMember chosen)
  · exact keys.volume_table

theorem Keys.updateZones {selected : Zone → Bool} {change : Zone → Zone}
    (ids : ∀ zone ∈ db.zones, selected zone = true → (change zone).id = zone.id)
    (volumes : ∀ zone ∈ db.zones, selected zone = true → (change zone).volumeId = zone.volumeId)
    (paths : ∀ zone ∈ db.zones, selected zone = true →
      ZonePath (change zone).path ∧ (zone.path = ['/'] → (change zone).path = ['/']))
    (updated : db.updateZones selected change = .ok after) : Keys after := by
  obtain ⟨rfl, distinct⟩ := updateZones_ok updated
  have rows : ∀ zone ∈ db.zones, (rewritten selected change zone).id = zone.id ∧
      (rewritten selected change zone).volumeId = zone.volumeId ∧
      ZonePath (rewritten selected change zone).path ∧
      (zone.path = ['/'] → (rewritten selected change zone).path = ['/']) := by
    intro zone member
    unfold rewritten
    split
    · exact ⟨ids zone member ‹_›, volumes zone member ‹_›, paths zone member ‹_›⟩
    · exact ⟨rfl, rfl, keys.zone_path zone.toZoneNode (List.mem_map_of_mem member), id⟩
  have back {node : ZoneNode} (member : node ∈ (Database.zoneNodes
      { db with zones := db.zones.map (rewritten selected change) })) :
      ∃ zone ∈ db.zones, node = (rewritten selected change zone).toZoneNode := by
    obtain ⟨changed, changedMember, rfl⟩ := List.mem_map.mp member
    obtain ⟨zone, zoneMember, rfl⟩ := List.mem_map.mp changedMember
    exact ⟨zone, zoneMember, rfl⟩
  have forth {zone : Zone} (member : zone ∈ db.zones) :
      (rewritten selected change zone).toZoneNode ∈ (Database.zoneNodes
        { db with zones := db.zones.map (rewritten selected change) }) :=
    List.mem_map_of_mem (List.mem_map_of_mem member)
  constructor
  · exact keys.entry_ids
  · exact keys.entry_bound
  · intro node member
    obtain ⟨zone, zoneMember, rfl⟩ := back member
    rw [(rows zone zoneMember).1]
    exact keys.zone_bound zone.toZoneNode (List.mem_map_of_mem zoneMember)
  · intro entry member node nodeMember
    obtain ⟨zone, zoneMember, rfl⟩ := back nodeMember
    rw [(rows zone zoneMember).1]
    exact keys.ids_apart entry member zone.toZoneNode (List.mem_map_of_mem zoneMember)
  · exact (distinct_storedZoneClash_iff _).mp
      (distinct ((distinct_storedZoneClash_iff _).mpr keys.zones_distinct))
  · exact keys.entries_distinct
  · intro entry member
    obtain ⟨node, nodeMember, inZone, inVolume⟩ := keys.entry_zone entry member
    obtain ⟨zone, zoneMember, rfl⟩ := List.mem_map.mp nodeMember
    exact ⟨_, forth zoneMember, (rows zone zoneMember).1.trans inZone,
      (rows zone zoneMember).2.1.trans inVolume⟩
  · intro node member
    obtain ⟨zone, zoneMember, rfl⟩ := back member
    rw [(rows zone zoneMember).2.1]
    exact keys.zone_volume zone.toZoneNode (List.mem_map_of_mem zoneMember)
  · intro node member
    obtain ⟨zone, zoneMember, rfl⟩ := back member
    exact (rows zone zoneMember).2.2.1
  · intro volume member
    obtain ⟨node, nodeMember, inVolume, path⟩ := keys.root volume member
    obtain ⟨zone, zoneMember, rfl⟩ := List.mem_map.mp nodeMember
    exact ⟨_, forth zoneMember, (rows zone zoneMember).2.1.trans inVolume,
      (rows zone zoneMember).2.2.2 path⟩
  · exact keys.volume_table

end Statements

end PostgreOS
