/-
The nodes of a volume.

A node is what the inspection functions show of a zone or of an entry, together with
the bytes of a regular file. The nodes are what users see of a volume; how they are
spread over the two tables, and where their bytes are stored, is not part of them.
-/

import PostgreOS.Soundness

namespace PostgreOS

open Library.Table

/-- A file, a directory or a symbolic link with its absolute path. -/
structure Node extends Inode where
  content : Option Bytes
  deriving DecidableEq, Repr

def nodeOfZone (zone : ZoneNode) : Node :=
  { zoneInode zone with content := none }

def nodeOfEntry (content : ZoneEntry → Option Bytes) (zonePath : Text) (entry : ZoneEntry) : Node :=
  { entryInode zonePath entry with content := content entry }

@[simp] theorem nodeOfZone_path (zone : ZoneNode) : (nodeOfZone zone).path = zone.path := rfl

@[simp] theorem nodeOfEntry_path (content : ZoneEntry → Option Bytes) (zonePath : Text)
    (entry : ZoneEntry) :
    (nodeOfEntry content zonePath entry).path = absolutePath zonePath entry.relativePath := rfl

namespace Tree

/-- The node of an entry for each zone that its row names. -/
def entryNodes (tree : Tree) (content : ZoneEntry → Option Bytes) (entry : ZoneEntry) : List Node :=
  (tree.zones.filter fun zone => zone.id = entry.zoneId).map fun zone =>
    nodeOfEntry content zone.path entry

def nodes (tree : Tree) (content : ZoneEntry → Option Bytes) : List Node :=
  tree.zones.map nodeOfZone ++ tree.entries.flatMap (tree.entryNodes content)

variable {tree : Tree} {content : ZoneEntry → Option Bytes}

theorem mem_nodes {node : Node} :
    node ∈ tree.nodes content ↔ (∃ zone ∈ tree.zones, node = nodeOfZone zone) ∨
      ∃ entry ∈ tree.entries, ∃ zone ∈ tree.zones, zone.id = entry.zoneId ∧
        node = nodeOfEntry content zone.path entry := by
  simp only [nodes, entryNodes, List.mem_append, List.mem_map, List.mem_flatMap, List.mem_filter,
    decide_eq_true_eq, and_assoc, eq_comm (a := node)]

theorem nodeOfZone_mem {zone : ZoneNode} (member : zone ∈ tree.zones) :
    nodeOfZone zone ∈ tree.nodes content :=
  mem_nodes.mpr (Or.inl ⟨zone, member, rfl⟩)

theorem nodeOfEntry_mem {entry : ZoneEntry} {zone : ZoneNode} (member : entry ∈ tree.entries)
    (zoneMember : zone ∈ tree.zones) (inZone : zone.id = entry.zoneId) :
    nodeOfEntry content zone.path entry ∈ tree.nodes content :=
  mem_nodes.mpr (Or.inr ⟨entry, member, zone, zoneMember, inZone, rfl⟩)

theorem WellFormed.has_of_mem_nodes (wellFormed : tree.WellFormed) {node : Node}
    (member : node ∈ tree.nodes content) :
    ∃ names, tree.Has names node.kind ∧ node.path = pathText names := by
  obtain ⟨zone, zoneMember, rfl⟩ | ⟨entry, entryMember, zone, zoneMember, inZone, rfl⟩ :=
    mem_nodes.mp member
  · obtain ⟨front, zoneAt⟩ := wellFormed.zoneAt_of_mem zoneMember
    exact ⟨front, .zone zoneAt, zoneAt.path⟩
  · obtain ⟨owner, upper, rest, found⟩ := wellFormed.entryAt_of_mem entryMember
    obtain rfl := wellFormed.zone_ids owner found.zoneAt.member zone zoneMember
      (found.inZone.symm.trans inZone.symm)
    exact ⟨upper ++ rest, .entry found, found.absolutePath_eq⟩

/-- Rows with ids of their own, and entries in zones of the tree. -/
structure Identified (tree : Tree) : Prop where
  zone_ids : (tree.zones.map ZoneNode.id).Nodup
  entry_ids : (tree.entries.map ZoneEntry.id).Nodup
  apart : ∀ entry ∈ tree.entries, ∀ zone ∈ tree.zones, entry.id ≠ zone.id
  entry_zone : ∀ entry ∈ tree.entries, ∃ zone ∈ tree.zones, zone.id = entry.zoneId

namespace Identified

variable (identified : tree.Identified)

include identified

theorem zone_eq {first second : ZoneNode} (hFirst : first ∈ tree.zones)
    (hSecond : second ∈ tree.zones) (same : first.id = second.id) : first = second :=
  List.inj_on_of_nodup_map identified.zone_ids hFirst hSecond same

theorem entry_eq {first second : ZoneEntry} (hFirst : first ∈ tree.entries)
    (hSecond : second ∈ tree.entries) (same : first.id = second.id) : first = second :=
  List.inj_on_of_nodup_map identified.entry_ids hFirst hSecond same

theorem entryNodes_eq {entry : ZoneEntry} {zone : ZoneNode} (member : zone ∈ tree.zones)
    (inZone : zone.id = entry.zoneId) :
    tree.entryNodes content entry = [nodeOfEntry content zone.path entry] := by
  unfold entryNodes
  rw [filter_eq_singleton identified.zone_ids member (decide_eq_true inZone)]
  · rfl
  · intro other _ chosen
    exact (of_decide_eq_true chosen).trans inZone.symm

theorem node_eq {first second : Node} (hFirst : first ∈ tree.nodes content)
    (hSecond : second ∈ tree.nodes content) (same : first.id = second.id) : first = second := by
  obtain ⟨zone, member, rfl⟩ | ⟨entry, member, zone, zoneMember, inZone, rfl⟩ := mem_nodes.mp hFirst
  · obtain ⟨other, otherMember, rfl⟩ | ⟨other, otherMember, _, _, _, rfl⟩ := mem_nodes.mp hSecond
    · rw [identified.zone_eq member otherMember same]
    · exact absurd same.symm (identified.apart other otherMember zone member)
  · obtain ⟨other, otherMember, rfl⟩ | ⟨other, otherMember, owner, ownerMember, inOwner, rfl⟩ :=
      mem_nodes.mp hSecond
    · exact absurd same (identified.apart entry member other otherMember)
    · obtain rfl := identified.entry_eq member otherMember same
      rw [identified.zone_eq zoneMember ownerMember (inZone.trans inOwner.symm)]

theorem node_ids (content : ZoneEntry → Option Bytes) :
    ((tree.nodes content).map fun node => node.id).Nodup := by
  have entries : (tree.entries.flatMap (tree.entryNodes content)).map (fun node => node.id) =
      tree.entries.map ZoneEntry.id := by
    rw [List.map_flatMap, List.map_eq_flatMap]
    apply List.flatMap_congr
    intro entry member
    obtain ⟨zone, zoneMember, inZone⟩ := identified.entry_zone entry member
    rw [identified.entryNodes_eq zoneMember inZone]
    rfl
  rw [nodes, List.map_append, List.map_map, entries]
  refine List.nodup_append.mpr ⟨identified.zone_ids, identified.entry_ids, ?_⟩
  intro first inFirst second inSecond same
  obtain ⟨zone, zoneMember, rfl⟩ := List.mem_map.mp inFirst
  obtain ⟨entry, entryMember, rfl⟩ := List.mem_map.mp inSecond
  exact identified.apart entry entryMember zone zoneMember same.symm

theorem nodeOfZone_mem_iff (content : ZoneEntry → Option Bytes) {fewer : Tree}
    (zones : fewer.zones ⊆ tree.zones)
    (entries : fewer.entries ⊆ tree.entries) {zone : ZoneNode} (member : zone ∈ tree.zones) :
    nodeOfZone zone ∈ fewer.nodes content ↔ zone ∈ fewer.zones := by
  constructor
  · intro stays
    obtain ⟨other, otherMember, same⟩ | ⟨entry, entryMember, _, _, _, same⟩ := mem_nodes.mp stays
    · rwa [identified.zone_eq member (zones otherMember) (congrArg (fun node => node.id) same)]
    · exact absurd (congrArg (fun node => node.id) same).symm
        (identified.apart entry (entries entryMember) zone member)
  · exact nodeOfZone_mem

theorem nodeOfEntry_mem_iff (content : ZoneEntry → Option Bytes) {fewer : Tree}
    (zones : fewer.zones ⊆ tree.zones)
    (entries : fewer.entries ⊆ tree.entries) {entry : ZoneEntry} (member : entry ∈ tree.entries)
    {zone : ZoneNode} (zoneMember : zone ∈ tree.zones) (inZone : zone.id = entry.zoneId) :
    nodeOfEntry content zone.path entry ∈ fewer.nodes content ↔
      entry ∈ fewer.entries ∧ zone ∈ fewer.zones := by
  constructor
  · intro stays
    obtain ⟨other, otherMember, same⟩ | ⟨other, otherMember, owner, ownerMember, inOwner, same⟩ :=
      mem_nodes.mp stays
    · exact absurd (congrArg (fun node => node.id) same)
        (identified.apart entry member other (zones otherMember))
    · obtain rfl := identified.entry_eq member (entries otherMember)
        (congrArg (fun node => node.id) same)
      obtain rfl := identified.zone_eq zoneMember (zones ownerMember) (inZone.trans inOwner.symm)
      exact ⟨otherMember, ownerMember⟩
  · rintro ⟨entryMember, ownerMember⟩
    exact nodeOfEntry_mem entryMember ownerMember inZone

theorem nodes_length (content : ZoneEntry → Option Bytes) :
    (tree.nodes content).length = tree.zones.length + tree.entries.length := by
  have singles : ∀ entry ∈ tree.entries, (tree.entryNodes content entry).length = 1 := by
    intro entry member
    obtain ⟨zone, zoneMember, inZone⟩ := identified.entry_zone entry member
    rw [identified.entryNodes_eq zoneMember inZone]
    rfl
  rw [nodes, List.length_append, List.length_map, List.length_flatMap,
    List.map_congr_left singles, List.map_const', List.sum_replicate]
  exact congrArg (tree.zones.length + ·) (Nat.mul_one tree.entries.length)

end Identified

end Tree

/-- A state between transactions in which the rows of the volume form a tree. -/
structure WellFormedVolume (db : Database) (volume : Uuid) : Prop where
  committed : Committed db
  tree : (db.tree volume).WellFormed

theorem wellFormed_calls {ops : List Op} {volume : Uuid}
    (tree : ((Database.empty.calls ops).tree volume).WellFormed) :
    WellFormedVolume (Database.empty.calls ops) volume :=
  ⟨committed_of_reachable (reachable_calls ops), tree⟩

/-- Two directories, one of which has a name that matches the other as a pattern. -/
def wildcardCalls : List Op :=
  [.createVolume 7 ['v'] 0, .mkdir 7 ['/', 'a', '_'] false 493 1,
    .mkdir 7 ['/', 'a', 'b'] false 493 2, .mkdir 7 ['/', 'a', 'b', '/', 'c'] false 493 3]

def Database.nodes (db : Database) (volume : Uuid) : List Node :=
  (db.tree volume).nodes db.contentOf

theorem Keys.identified {db : Database} (keys : Keys db) (volume : Uuid) :
    (db.tree volume).Identified where
  zone_ids := by
    apply List.Nodup.map_on
    · intro first hFirst second hSecond same
      exact keys.zone_eq_of_id (mem_tree_zones.mp hFirst).1 (mem_tree_zones.mp hSecond).1 same
    · refine List.Nodup.filter _ ?_
      refine List.Pairwise.imp ?_ keys.zones_distinct
      rintro first second apart rfl
      rw [clash_of_zone_id rfl] at apart
      cases apart
  entry_ids := keys.entry_ids.sublist (List.filter_sublist.map ZoneEntry.id)
  apart := fun entry member zone zoneMember =>
    keys.ids_apart entry (mem_tree_entries.mp member).1 zone (mem_tree_zones.mp zoneMember).1
  entry_zone := by
    intro entry member
    obtain ⟨inTable, inVolume⟩ := mem_tree_entries.mp member
    obtain ⟨zone, zoneMember, inZone, zoneVolume⟩ := keys.entry_zone entry inTable
    exact ⟨zone, mem_tree_zones.mpr ⟨zoneMember, zoneVolume.trans inVolume⟩, inZone⟩

theorem zonesOf_map_toZoneNode (db : Database) (volume : Uuid) :
    (db.zonesOf volume).map Zone.toZoneNode = db.zoneNodesOf volume := by
  unfold Database.zonesOf Database.zoneNodesOf Database.zoneNodes
  rw [List.filter_map]
  rfl

theorem inodes_eq_nodes {db : Database} (keys : Keys db) (volume : Uuid) :
    db.inodes volume = (db.nodes volume).map Node.toInode := by
  unfold Database.inodes Database.nodes Tree.nodes
  rw [List.map_append, List.map_map, List.map_flatMap]
  change _ = (db.zoneNodesOf volume).map zoneInode ++ _
  rw [← zonesOf_map_toZoneNode, List.map_map]
  congr 1
  apply List.flatMap_congr
  intro entry member
  unfold Tree.entryNodes
  have owners : (db.zones.filter fun zone => decide (zone.id = entry.zoneId)).map Zone.toZoneNode =
      (db.tree volume).zones.filter fun zone => decide (zone.id = entry.zoneId) := by
    change _ = (db.zoneNodes.filter _).filter _
    rw [List.filter_filter, Database.zoneNodes, List.filter_map]
    congr 1
    apply List.filter_congr
    intro zone zoneMember
    obtain ⟨inTable, inVolume⟩ := mem_tree_entries.mp member
    obtain ⟨owner, ownerMember, inZone, ownerVolume⟩ := keys.entry_zone entry inTable
    by_cases same : zone.id = entry.zoneId
    · obtain rfl := keys.zone_eq_of_id ownerMember (List.mem_map_of_mem zoneMember)
        (inZone.trans same.symm)
      simp [same, ownerVolume, inVolume]
    · simp [same]
  rw [← owners, List.map_map, List.map_map]
  rfl

/-- `pgos.inode` finds one row, since the ids of the nodes differ. -/
theorem inode_of_node {db : Database} {volume : Uuid} (keys : Keys db) {node : Node}
    (member : node ∈ db.nodes volume) : db.inode volume node.id = [node.toInode] := by
  have only : (db.nodes volume).filter (fun other => decide (other.id = node.id)) = [node] := by
    apply filter_eq_singleton ((keys.identified volume).node_ids db.contentOf) member
    · exact decide_eq_true rfl
    · intro other _ same
      exact of_decide_eq_true same
  unfold Database.inode
  rw [inodes_eq_nodes keys, List.filter_map]
  change ((db.nodes volume).filter fun other => decide (other.id = node.id)).map Node.toInode = _
  rw [only, List.map_singleton]

/-! ### The content store does not show -/

theorem Tree.nodes_congr {tree : Tree} {content other : ZoneEntry → Option Bytes}
    (same : ∀ entry ∈ tree.entries, content entry = other entry) :
    tree.nodes content = tree.nodes other := by
  unfold Tree.nodes
  congr 1
  apply List.flatMap_congr
  intro entry member
  unfold Tree.entryNodes nodeOfEntry
  rw [same entry member]

theorem contentOf_of_payload (db : Database) {first second : ZoneEntry}
    (same : first.payload = second.payload) : db.contentOf first = db.contentOf second := by
  unfold Database.contentOf
  rw [same]

theorem SameStore.contentOf {db after : Database} (same : SameStore db after) :
    after.contentOf = db.contentOf := by
  funext entry
  exact contentOf_congr fun object _ => same.blockRows object

theorem SameTables.tree {db after : Database} (same : SameTables db after) (volume : Uuid) :
    after.tree volume = db.tree volume := by
  unfold Database.tree Database.zoneNodesOf Database.zoneNodes Database.entriesOf
  rw [same.zones, same.zoneEntries]

theorem Reclaimed.contentOf {db after : Database} (reclaimed : Reclaimed db after)
    {entry : ZoneEntry} (member : entry ∈ db.zoneEntries) :
    after.contentOf entry = db.contentOf entry :=
  contentOf_congr fun object refers => reclaimed.blocks entry member object refers

theorem Reclaimed.nodes {db after : Database} (reclaimed : Reclaimed db after) (volume : Uuid) :
    after.nodes volume = db.nodes volume := by
  unfold Database.nodes
  rw [reclaimed.tables.tree volume]
  exact Tree.nodes_congr fun entry member => reclaimed.contentOf (mem_tree_entries.mp member).1

theorem Blockized.entry {db after : Database} {volume : Uuid} {zone : NodeId}
    {change : ZoneEntry → ZoneEntry} (blockized : Blockized db after volume zone change)
    {entry : ZoneEntry} (member : entry ∈ db.zoneEntries) :
    ∃ payload, change entry = { entry with payload := payload } ∧
      payload.kind = entry.kind ∧
      (change entry).linkTarget = entry.linkTarget := by
  cases inline : inlineText volume zone entry with
  | false =>
      rw [blockized.kept entry member inline]
      exact ⟨entry.payload, rfl, rfl, rfl⟩
  | true =>
      obtain ⟨object, -, same⟩ := blockized.moved entry member inline
      obtain ⟨-, -, content, payload⟩ := inlineText_iff.mp inline
      refine ⟨.file (.text []) (some object), same, ?_, ?_⟩
      · rw [ZoneEntry.kind, payload]
        rfl
      · rw [same, ZoneEntry.linkTarget, ZoneEntry.linkTarget, payload]
        rfl

theorem Blockized.inode {db after : Database} {volume : Uuid} {zone : NodeId}
    {change : ZoneEntry → ZoneEntry} (blockized : Blockized db after volume zone change)
    {entry : ZoneEntry} (member : entry ∈ db.zoneEntries) (zonePath : Text) :
    entryInode zonePath (change entry) = entryInode zonePath entry := by
  obtain ⟨payload, same, kind, target⟩ := blockized.entry member
  have sameKind : (change entry).kind = entry.kind := by rw [same]; exact kind
  unfold entryInode
  rw [sameKind, target, same]

theorem Blockized.tree {db after : Database} {volume : Uuid} {zone : NodeId}
    {change : ZoneEntry → ZoneEntry} (blockized : Blockized db after volume zone change)
    (other : Uuid) : after.tree other =
      { zones := (db.tree other).zones, entries := (db.tree other).entries.map change } := by
  unfold Database.tree Database.zoneNodesOf Database.entriesOf
  rw [blockized.zoneNodes, blockized.zoneEntries, List.filter_map]
  congr 2
  apply List.filter_congr
  intro entry member
  obtain ⟨payload, same, -⟩ := blockized.entry member
  rw [Function.comp_apply, same]

theorem Blockized.nodes {db after : Database} {volume : Uuid} {zone : NodeId}
    {change : ZoneEntry → ZoneEntry} (blockized : Blockized db after volume zone change)
    (other : Uuid) : after.nodes other = db.nodes other := by
  unfold Database.nodes Tree.nodes
  rw [blockized.tree other]
  congr 1
  rw [List.flatMap_map]
  apply List.flatMap_congr
  intro entry member
  have inTable := (mem_tree_entries.mp member).1
  obtain ⟨payload, same, -⟩ := blockized.entry inTable
  unfold Tree.entryNodes nodeOfEntry
  have zone : (change entry).zoneId = entry.zoneId := by rw [same]
  rw [zone, blockized.content entry inTable]
  simp only [blockized.inode inTable]

end PostgreOS
