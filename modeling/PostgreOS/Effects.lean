/-
What the statements do to the tree of a volume.

A statement changes the rows of one volume; the trees of the other volumes stay as
they are.
-/

import PostgreOS.Places

namespace PostgreOS

open Library.Table

variable {db after : Database} {volume : Uuid}

theorem tree_insertEntries {makers : List (NodeId → ZoneEntry)}
    (inserted : db.insertEntries makers = .ok after) (volume : Uuid) :
    after.tree volume =
      { db.tree volume with
        entries := (db.tree volume).entries ++
          (numbered db.nextNode makers).filter fun entry => entry.volumeId = volume } := by
  have nodes := zoneNodes_insertEntries inserted
  have entries : after.zoneEntries = db.zoneEntries ++ numbered db.nextNode makers := by
    rw [(insertEntries_ok inserted).1]
  unfold Database.tree Database.zoneNodesOf Database.entriesOf
  rw [nodes, entries, List.filter_append]

theorem tree_deleteEntries (db : Database) (selected : ZoneEntry → Bool) (volume : Uuid) :
    (db.deleteEntries selected).tree volume =
      { db.tree volume with
        entries := (db.tree volume).entries.filter fun entry => !selected entry } := by
  unfold Database.tree Database.zoneNodesOf
  rw [zoneNodes_deleteEntries]
  unfold Database.entriesOf Database.deleteEntries
  rw [List.filter_filter, List.filter_filter]
  simp only [Bool.and_comm]

theorem tree_updateEntries {selected : ZoneEntry → Bool} {change : ZoneEntry → ZoneEntry}
    (volumes : ∀ entry ∈ db.zoneEntries, selected entry = true →
      (change entry).volumeId = entry.volumeId)
    (updated : db.updateEntries selected change = .ok after) (volume : Uuid) :
    after.tree volume =
      { db.tree volume with
        entries := (db.tree volume).entries.map (rewritten selected change) } := by
  have nodes := zoneNodes_updateEntries updated
  have entries : after.zoneEntries = db.zoneEntries.map (rewritten selected change) := by
    rw [(updateEntries_ok updated).1]
  unfold Database.tree Database.zoneNodesOf Database.entriesOf
  rw [nodes, entries, List.filter_map]
  congr 2
  apply List.filter_congr
  intro entry member
  cases chosen : selected entry with
  | false => rw [Function.comp_apply, rewritten_of_not_selected chosen]
  | true => rw [Function.comp_apply, rewritten_of_selected chosen, volumes entry member chosen]

theorem tree_insertZone {make : NodeId → ZoneNode} {id : NodeId}
    (inserted : db.insertZone make = .ok (after, id)) (volume : Uuid) :
    after.tree volume =
      { db.tree volume with
        zones := (db.tree volume).zones ++
          [make db.nextNode].filter fun zone => zone.volumeId = volume } := by
  have nodes := zoneNodes_insertZone inserted
  have entries : after.zoneEntries = db.zoneEntries := by rw [(insertZone_ok inserted).1]
  unfold Database.tree Database.zoneNodesOf Database.entriesOf
  rw [nodes, entries, List.filter_append]

theorem tree_deleteZones (db : Database) (selected : ZoneNode → Bool) (volume : Uuid) :
    (db.deleteZones fun zone => selected zone.toZoneNode).tree volume =
      { db.tree volume with
        zones := (db.tree volume).zones.filter fun zone => !selected zone } := by
  unfold Database.tree Database.zoneNodesOf Database.zoneNodes Database.deleteZones
    Database.entriesOf
  simp only [List.filter_map, List.filter_filter]
  congr 2
  apply List.filter_congr
  intro zone _
  exact Bool.and_comm _ _

theorem tree_updateZones (selected : ZoneNode → Bool) {change : Zone → Zone}
    (changeNode : ZoneNode → ZoneNode)
    (nodes : ∀ zone, (change zone).toZoneNode = changeNode zone.toZoneNode)
    (volumes : ∀ zone, (changeNode zone).volumeId = zone.volumeId)
    (updated : db.updateZones (fun zone => selected zone.toZoneNode) change = .ok after)
    (volume : Uuid) :
    after.tree volume =
      { db.tree volume with
        zones := (db.tree volume).zones.map (rewritten selected changeNode) } := by
  obtain ⟨rfl, -⟩ := updateZones_ok updated
  have row (zone : Zone) :
      (rewritten (fun zone => selected zone.toZoneNode) change zone).toZoneNode =
        rewritten selected changeNode zone.toZoneNode := by
    unfold rewritten
    split
    · exact nodes zone
    · rfl
  have volumeOf (zone : ZoneNode) :
      (rewritten selected changeNode zone).volumeId = zone.volumeId := by
    unfold rewritten
    split
    · exact volumes zone
    · rfl
  unfold Database.tree Database.zoneNodesOf Database.zoneNodes Database.entriesOf
  simp only [List.filter_map, List.map_map]
  congr 1
  have same : (Zone.toZoneNode ∘ rewritten (fun zone => selected zone.toZoneNode) change) =
      rewritten selected changeNode ∘ Zone.toZoneNode := funext row
  rw [same]
  congr 1
  apply List.filter_congr
  intro zone _
  simp only [Function.comp_apply, volumeOf]

theorem filter_volume_of_all {rows : List ZoneEntry} (all : ∀ entry ∈ rows, entry.volumeId = volume) :
    rows.filter (fun entry => decide (entry.volumeId = volume)) = rows := by
  rw [List.filter_eq_self]
  exact fun entry member => decide_eq_true (all entry member)

theorem filter_volume_of_other {rows : List ZoneEntry} {other : Uuid}
    (all : ∀ entry ∈ rows, entry.volumeId = volume) (different : other ≠ volume) :
    rows.filter (fun entry => decide (entry.volumeId = other)) = [] := by
  rw [List.filter_eq_nil_iff]
  intro entry member same
  exact different ((of_decide_eq_true same).symm.trans (all entry member))

theorem Keys.entries_unique (keys : Keys db) (volume : Uuid) :
    ∀ first ∈ (db.tree volume).entries, ∀ second ∈ (db.tree volume).entries,
      first.zoneId = second.zoneId → first.relativePath = second.relativePath → first = second := by
  intro first hFirst second hSecond zone path
  obtain ⟨inTable, inVolume⟩ := mem_tree_entries.mp hFirst
  obtain ⟨otherTable, otherVolume⟩ := mem_tree_entries.mp hSecond
  exact keys.entry_eq_of_path inTable otherTable (inVolume.trans otherVolume.symm) zone path

/-! ### Nodes of new rows -/

theorem sameStore_insertEntries {makers : List (NodeId → ZoneEntry)}
    (inserted : db.insertEntries makers = .ok after) : SameStore db after := by
  rw [(insertEntries_ok inserted).1]
  exact ⟨rfl, rfl, rfl, rfl, rfl, rfl, rfl⟩

theorem sameStore_insertZone {make : NodeId → ZoneNode} {id : NodeId}
    (inserted : db.insertZone make = .ok (after, id)) : SameStore db after := by
  rw [(insertZone_ok inserted).1]
  exact ⟨rfl, rfl, rfl, rfl, rfl, rfl, rfl⟩

theorem Keys.node_bound (keys : Keys db) {node : Node} (member : node ∈ db.nodes volume) :
    node.id < db.nextNode := by
  obtain ⟨zone, zoneMember, rfl⟩ | ⟨entry, entryMember, zone, -, -, rfl⟩ := Tree.mem_nodes.mp member
  · exact keys.zone_bound zone (mem_tree_zones.mp zoneMember).1
  · exact keys.entry_bound entry (mem_tree_entries.mp entryMember).1

/-- Entries inserted into one zone add one node each. -/
theorem mem_nodes_insertEntries {makers : List (NodeId → ZoneEntry)} {owner : ZoneNode}
    (keys : Keys db) (member : owner ∈ (db.tree volume).zones)
    (columns : ∀ make ∈ makers, ∀ serial, (make serial).volumeId = volume ∧
      (make serial).zoneId = owner.id)
    (inserted : db.insertEntries makers = .ok after) (node : Node) :
    node ∈ after.nodes volume ↔ node ∈ db.nodes volume ∨
      node ∈ (numbered db.nextNode makers).map (nodeOfEntry db.contentOf owner.path) := by
  have row {entry : ZoneEntry} (entryMember : entry ∈ numbered db.nextNode makers) :
      entry.volumeId = volume ∧ entry.zoneId = owner.id := by
    obtain ⟨make, makeMember, serial, -, -, rfl⟩ := mem_numbered entryMember
    exact columns make makeMember serial
  have tree := tree_insertEntries inserted volume
  rw [filter_volume_of_all fun entry entryMember => (row entryMember).1] at tree
  rw [Database.nodes, (sameStore_insertEntries inserted).contentOf, tree, Tree.mem_nodes,
    Database.nodes, Tree.mem_nodes, List.mem_map]
  constructor
  · intro found
    rcases found with zone | ⟨entry, entryMember, zone, zoneMember, inZone, same⟩
    · exact Or.inl (Or.inl zone)
    · rcases List.mem_append.mp entryMember with old | new
      · exact Or.inl (Or.inr ⟨entry, old, zone, zoneMember, inZone, same⟩)
      · have zoneEq := (keys.identified volume).zone_eq zoneMember member
          (inZone.trans (row new).2)
        exact Or.inr ⟨entry, new, by rw [same, zoneEq]⟩
  · intro found
    rcases found with (zone | ⟨entry, entryMember, rest⟩) | ⟨entry, new, same⟩
    · exact Or.inl zone
    · exact Or.inr ⟨entry, List.mem_append_left _ entryMember, rest⟩
    · exact Or.inr ⟨entry, List.mem_append_right _ new, owner, member, (row new).2.symm, same.symm⟩

theorem nodes_length_insertEntries {makers : List (NodeId → ZoneEntry)} (keys : Keys db)
    (afterKeys : Keys after)
    (volumes : ∀ make ∈ makers, ∀ serial, (make serial).volumeId = volume)
    (inserted : db.insertEntries makers = .ok after) :
    (after.nodes volume).length = (db.nodes volume).length + makers.length := by
  have all : ∀ entry ∈ numbered db.nextNode makers, entry.volumeId = volume := by
    intro entry member
    obtain ⟨make, makeMember, serial, -, -, rfl⟩ := mem_numbered member
    exact volumes make makeMember serial
  have tree := tree_insertEntries inserted volume
  rw [filter_volume_of_all all] at tree
  rw [Database.nodes, (afterKeys.identified volume).nodes_length, Database.nodes,
    (keys.identified volume).nodes_length, tree]
  dsimp only
  rw [List.length_append, numbered_length]
  omega

theorem tree_insertZone_own {make : NodeId → ZoneNode} {id : NodeId}
    (inVolume : (make db.nextNode).volumeId = volume)
    (inserted : db.insertZone make = .ok (after, id)) :
    after.tree volume =
      { db.tree volume with zones := (db.tree volume).zones ++ [make db.nextNode] } := by
  rw [tree_insertZone inserted]
  have single : [make db.nextNode].filter (fun zone => decide (zone.volumeId = volume)) =
      [make db.nextNode] := by
    rw [List.filter_eq_self]
    intro zone member
    rw [List.mem_singleton.mp member]
    exact decide_eq_true inVolume
  rw [single]

/-- A new zone adds its node; no entry is in it yet. -/
theorem mem_nodes_insertZone {make : NodeId → ZoneNode} {id : NodeId} (keys : Keys db)
    (inVolume : (make db.nextNode).volumeId = volume) (ids : (make db.nextNode).id = db.nextNode)
    (inserted : db.insertZone make = .ok (after, id)) (node : Node) :
    node ∈ after.nodes volume ↔
      node ∈ db.nodes volume ∨ node = nodeOfZone (make db.nextNode) := by
  rw [Database.nodes, (sameStore_insertZone inserted).contentOf,
    tree_insertZone_own inVolume inserted, Tree.mem_nodes, Database.nodes, Tree.mem_nodes]
  dsimp only
  constructor
  · intro found
    rcases found with ⟨zone, member, same⟩ | ⟨entry, entryMember, zone, zoneMember, inZone, same⟩
    · rcases List.mem_append.mp member with old | new
      · exact Or.inl (Or.inl ⟨zone, old, same⟩)
      · rw [List.mem_singleton.mp new] at same
        exact Or.inr same
    · rcases List.mem_append.mp zoneMember with old | new
      · exact Or.inl (Or.inr ⟨entry, entryMember, zone, old, inZone, same⟩)
      · rw [List.mem_singleton.mp new, ids] at inZone
        have bound := keys.entry_zone_bound (mem_tree_entries.mp entryMember).1
        rw [← inZone] at bound
        exact absurd bound (Nat.lt_irrefl _)
  · intro found
    rcases found with (⟨zone, member, same⟩ | ⟨entry, entryMember, zone, zoneMember, rest⟩) | same
    · exact Or.inl ⟨zone, List.mem_append_left _ member, same⟩
    · exact Or.inr ⟨entry, entryMember, zone, List.mem_append_left _ zoneMember, rest⟩
    · exact Or.inl ⟨_, List.mem_append_right _ (List.mem_singleton_self _), same⟩

theorem nodes_length_insertZone {make : NodeId → ZoneNode} {id : NodeId} (keys : Keys db)
    (afterKeys : Keys after) (inVolume : (make db.nextNode).volumeId = volume)
    (inserted : db.insertZone make = .ok (after, id)) :
    (after.nodes volume).length = (db.nodes volume).length + 1 := by
  rw [Database.nodes, (afterKeys.identified volume).nodes_length, Database.nodes,
    (keys.identified volume).nodes_length, tree_insertZone_own inVolume inserted]
  dsimp only
  rw [List.length_append, List.length_singleton]
  omega

end PostgreOS
