/-
What `pgos.move` moves.

The call is meant to take every node at and below its source to the same place at or
below its destination. It does so exactly where its patterns select the rows to rewrite.
-/

import PostgreOS.Moving

namespace PostgreOS

open Library.Table

def SameFile (moved node : Node) : Prop :=
  moved.id = node.id ∧ moved.kind = node.kind ∧ moved.size = node.size ∧
    moved.content = node.content

/-- The nodes at and below `source` are at and below `destination`, the replaced file is
gone and the others are as they were. -/
structure MovedExactly (db after : Database) (volume : Uuid) (source destination : Text) :
    Prop where
  rejected : ¬ Below source destination
  arrived : ∀ node ∈ db.nodes volume, ∀ suffix, node.path = source ++ suffix →
    AtOrBelow source node.path →
      ∃ moved ∈ after.nodes volume, moved.path = destination ++ suffix ∧ SameFile moved node
  only : ∀ moved ∈ after.nodes volume, AtOrBelow destination moved.path →
    ∃ node ∈ db.nodes volume, ∃ suffix, AtOrBelow source node.path ∧
      node.path = source ++ suffix ∧ moved.path = destination ++ suffix ∧ SameFile moved node
  gone : ∀ node ∈ after.nodes volume, ¬ AtOrBelow source node.path
  others : ∀ node ∈ db.nodes volume, ¬ AtOrBelow source node.path → node.path ≠ destination →
    node ∈ after.nodes volume
  noneNew : ∀ node ∈ after.nodes volume, ¬ AtOrBelow destination node.path →
    node ∈ db.nodes volume

/-- What becomes of a node: outside the source nothing, inside it the new path. -/
def Carried (source destination : Text) (node moved : Node) : Prop :=
  (¬ AtOrBelow source node.path ∧ moved = node) ∨
    ∃ suffix, (suffix = [] ∨ ['/'] <+: suffix) ∧ node.path = source ++ suffix ∧
      moved.path = destination ++ suffix ∧ SameFile moved node

/-- A move of the nodes that are not at the destination moves exactly. -/
theorem movedExactly_of_carried {db after : Database} {volume : Uuid} {source destination : Text}
    (remaining : List Node)
    (stays : ∀ node, node ∈ remaining ↔
      node ∈ db.nodes volume ∧ ¬ AtOrBelow destination node.path)
    (single : ∀ node ∈ db.nodes volume, AtOrBelow destination node.path → node.path = destination)
    (outside : ¬ AtOrBelow source destination) (notAbove : ¬ AtOrBelow destination source)
    (forth : ∀ node ∈ remaining, ∃ moved ∈ after.nodes volume,
      Carried source destination node moved)
    (back : ∀ moved ∈ after.nodes volume, ∃ node ∈ remaining,
      Carried source destination node moved) : MovedExactly db after volume source destination := by
  have separate {path : Text} (atSource : AtOrBelow source path) :
      ¬ AtOrBelow destination path := by
    intro atDestination
    rcases atSource.comparable atDestination with inside | above
    · exact outside inside
    · exact notAbove above
  constructor
  · exact fun below => outside (Or.inr below)
  · intro node member suffix path atSource
    obtain ⟨moved, movedMember, ⟨elsewhere, -⟩ | ⟨other, -, otherPath, movedPath, same⟩⟩ :=
      forth node ((stays node).mpr ⟨member, separate atSource⟩)
    · exact absurd atSource elsewhere
    · rw [path] at otherPath
      rw [← List.append_cancel_left otherPath] at movedPath
      exact ⟨moved, movedMember, movedPath, same⟩
  · intro moved member atDestination
    obtain ⟨node, nodeMember, ⟨-, rfl⟩ | ⟨suffix, boundary, path, movedPath, same⟩⟩ :=
      back moved member
    · exact absurd atDestination ((stays moved).mp nodeMember).2
    · refine ⟨node, ((stays node).mp nodeMember).1, suffix, ?_, path, movedPath, same⟩
      rw [path]
      exact atOrBelow_append_iff.mpr boundary
  · intro moved member atSource
    obtain ⟨node, nodeMember, ⟨elsewhere, rfl⟩ | ⟨suffix, boundary, path, movedPath, same⟩⟩ :=
      back moved member
    · exact elsewhere atSource
    · apply separate atSource
      rw [movedPath]
      exact atOrBelow_append_iff.mpr boundary
  · intro node member elsewhere notReplaced
    have kept := (stays node).mpr
      ⟨member, fun atDestination => notReplaced (single node member atDestination)⟩
    obtain ⟨moved, movedMember, ⟨-, rfl⟩ | ⟨suffix, boundary, path, -⟩⟩ := forth node kept
    · exact movedMember
    · rw [path] at elsewhere
      exact absurd (atOrBelow_append_iff.mpr boundary) elsewhere
  · intro moved member elsewhere
    obtain ⟨node, nodeMember, ⟨-, rfl⟩ | ⟨suffix, boundary, -, movedPath, -⟩⟩ := back moved member
    · exact ((stays moved).mp nodeMember).1
    · rw [movedPath] at elsewhere
      exact absurd (atOrBelow_append_iff.mpr boundary) elsewhere

section Move

variable {db replaced after : Database} {volume : Uuid} {names : List Text} {zone : ZoneNode}
  {front inner : List Text} {source destination : Text} {sourceLocation destinationParent : Location}
  {parent : ZoneNode} {upper rest : List Text} {name : Text} {now : Timestamp}

theorem sameStore_relocated
    (relocated : Relocated replaced after volume source destination sourceLocation
      destinationParent now) : SameStore replaced after := by
  obtain ⟨-, updated⟩ | ⟨-, -, updated⟩ := relocated
  · rw [(updateZones_ok updated).1]
    exact ⟨rfl, rfl, rfl, rfl, rfl, rfl, rfl⟩
  · rw [(updateEntries_ok updated).1]
    exact ⟨rfl, rfl, rfl, rfl, rfl, rfl, rfl⟩

theorem contentOf_relocated
    (movable : Movable db replaced volume source destination sourceLocation destinationParent)
    (relocated : Relocated replaced after volume source destination sourceLocation
      destinationParent now) : after.contentOf = db.contentOf :=
  ((sameStore_replaceDestination movable.replaces).trans
    (sameStore_relocated relocated)).contentOf

theorem carried_of_inside {node moved : Node} {target : List Text} (extra : List Text)
    (nonempty : names ≠ [])
    (targetNonempty : target ≠ []) (path : node.path = pathText (names ++ extra))
    (movedPath : moved.path = pathText (target ++ extra)) (same : SameFile moved node) :
    Carried (pathText names) (pathText target) node moved := by
  right
  refine ⟨Library.Segments.render '/' extra, ?_, ?_, ?_, same⟩
  · cases extra with
    | nil => exact Or.inl rfl
    | cons first others => exact Or.inr ⟨first ++ Library.Segments.render '/' others, rfl⟩
  · rw [path, pathText_append nonempty]
  · rw [movedPath, pathText_append targetNonempty]

variable (moving : Relocating db replaced volume names zone front inner sourceLocation destination
  destinationParent parent upper rest name)

include moving

theorem Relocating.remaining_iff (content : ZoneEntry → Option Bytes) (node : Node) :
    node ∈ (replaced.tree volume).nodes content ↔
      node ∈ (db.tree volume).nodes content ∧ ¬ AtOrBelow destination node.path := by
  rw [moving.replaced_tree, moving.place.path_eq]
  exact Tree.mem_nodes_without moving.source.wellFormed moving.place.components (by simp)

theorem Relocating.single {content : ZoneEntry → Option Bytes} {node : Node}
    (member : node ∈ (db.tree volume).nodes content) (below : AtOrBelow destination node.path) :
    node.path = destination ∧ node.kind ≠ .directory := by
  obtain ⟨others, has, path⟩ := moving.source.wellFormed.has_of_mem_nodes member
  rw [path, moving.place.path_eq, atOrBelow_pathText_iff moving.place.components has.components
    (by simp)] at below
  obtain ⟨extra, rfl⟩ := below
  have here := moving.source.wellFormed.nothing_below_of_not_directory moving.notDirectory has
  rw [here, List.append_nil] at has path
  refine ⟨path.trans moving.place.path_eq.symm, fun directory => moving.notDirectory ?_⟩
  rwa [← directory]

theorem Relocating.not_atOrBelow : ¬ AtOrBelow destination (pathText names) := by
  rw [moving.place.path_eq, atOrBelow_pathText_iff moving.place.components moving.source.valid
    (by simp)]
  exact moving.notAbove

theorem Relocating.outside_text : ¬ AtOrBelow (pathText names) destination := by
  rw [moving.place.path_eq, atOrBelow_pathText_iff moving.source.valid moving.place.components
    moving.source.nonempty]
  exact moving.outside

section ZoneBranch

variable (isZone : sourceLocation.relativePath = [])

include isZone

theorem Relocating.zone_names : front = names := by
  have empty := moving.source.relativePath_eq_nil_iff.mp isZone
  rw [moving.source.located.names_eq, empty, List.append_nil]

theorem Relocating.carried_zone
    (follow : (db.tree volume).ZonesFollow (pathText names) destination)
    {other : ZoneNode} (member : other ∈ (replaced.tree volume).zones) :
    Carried (pathText names) destination (nodeOfZone other)
      (nodeOfZone (relocatedZone volume (pathText names) destination sourceLocation.zoneId
        destinationParent now other)) := by
  have renamed := moving.renaming isZone follow now
  obtain ⟨others, zoneAt⟩ := moving.wellFormed.zoneAt_of_mem member
  by_cases inside : names <+: others
  · obtain ⟨extra, rfl⟩ := inside
    have path := renamed.path other extra zoneAt
    have id := renamed.ids other member
    rw [moving.place.path_eq] at path id ⊢
    exact carried_of_inside extra moving.source.nonempty (by simp) zoneAt.path path
      ⟨id, rfl, rfl, rfl⟩
  · rw [renamed.kept other others zoneAt inside]
    refine Or.inl ⟨?_, rfl⟩
    rwa [nodeOfZone_path, zoneAt.atOrBelow_iff moving.source.valid moving.source.nonempty]

theorem Relocating.carried_entry_of_zone
    (follow : (db.tree volume).ZonesFollow (pathText names) destination)
    (content : ZoneEntry → Option Bytes) {other : ZoneNode} {entry : ZoneEntry}
    (member : other ∈ (replaced.tree volume).zones)
    (entryMember : entry ∈ (replaced.tree volume).entries) (inZone : other.id = entry.zoneId) :
    Carried (pathText names) destination (nodeOfEntry content other.path entry)
      (nodeOfEntry content (relocatedZone volume (pathText names) destination
        sourceLocation.zoneId destinationParent now other).path entry) := by
  have renamed := moving.renaming isZone follow now
  have sourceAt := moving.located.zoneAt
  rw [moving.zone_names isZone] at sourceAt
  obtain ⟨owner, above, within, found⟩ := moving.wellFormed.entryAt_of_mem entryMember
  obtain rfl := moving.wellFormed.zone_ids owner found.zoneAt.member other member
    (found.inZone.symm.trans inZone.symm)
  by_cases inside : names <+: above
  · obtain ⟨extra, rfl⟩ := inside
    have path := renamed.path owner extra found.zoneAt
    rw [moving.place.path_eq] at path ⊢
    refine carried_of_inside (extra ++ within) moving.source.nonempty (by simp) ?_ ?_
      ⟨rfl, rfl, rfl, rfl⟩
    · rw [nodeOfEntry_path, found.absolutePath_eq, List.append_assoc]
    · rw [nodeOfEntry_path, path, found.path, absolutePath_texts
        (moving.place.components.append found.zoneAt.valid.right) found.valid, List.append_assoc]
  · rw [renamed.kept owner above found.zoneAt inside]
    refine Or.inl ⟨?_, rfl⟩
    rw [nodeOfEntry_path, found.atOrBelow_iff moving.source.valid moving.source.nonempty]
    exact fun isPrefix => inside (moving.wellFormed.zone_prefix found sourceAt isPrefix)

theorem Relocating.moved_zones
    (follow : (db.tree volume).ZonesFollow (pathText names) destination)
    (relocated : Relocated replaced after volume (pathText names) destination sourceLocation
      destinationParent now) (content : ZoneEntry → Option Bytes) :
    (∀ node ∈ (replaced.tree volume).nodes content, ∃ moved ∈ (after.tree volume).nodes content,
      Carried (pathText names) destination node moved) ∧
    (∀ moved ∈ (after.tree volume).nodes content, ∃ node ∈ (replaced.tree volume).nodes content,
      Carried (pathText names) destination node moved) := by
  have tree := tree_relocatedZones isZone relocated volume
  have sameId := relocatedZone_id volume (pathText names) destination sourceLocation.zoneId
    destinationParent now
  rw [tree]
  constructor
  · intro node member
    obtain ⟨other, otherMember, rfl⟩ | ⟨entry, entryMember, other, otherMember, inZone, rfl⟩ :=
      Tree.mem_nodes.mp member
    · exact ⟨_, Tree.nodeOfZone_mem (List.mem_map_of_mem otherMember),
        moving.carried_zone isZone follow otherMember⟩
    · exact ⟨_, Tree.nodeOfEntry_mem entryMember (List.mem_map_of_mem otherMember)
        ((sameId other).trans inZone),
        moving.carried_entry_of_zone isZone follow content otherMember entryMember inZone⟩
  · intro moved member
    obtain ⟨changed, changedMember, rfl⟩ |
      ⟨entry, entryMember, changed, changedMember, inZone, rfl⟩ := Tree.mem_nodes.mp member
    · obtain ⟨other, otherMember, rfl⟩ := List.mem_map.mp changedMember
      exact ⟨_, Tree.nodeOfZone_mem otherMember, moving.carried_zone isZone follow otherMember⟩
    · obtain ⟨other, otherMember, rfl⟩ := List.mem_map.mp changedMember
      rw [sameId other] at inZone
      exact ⟨_, Tree.nodeOfEntry_mem entryMember otherMember inZone,
        moving.carried_entry_of_zone isZone follow content otherMember entryMember inZone⟩

end ZoneBranch

/-! ### The nodes of moved entries -/

section EntryBranch

variable (isEntry : sourceLocation.relativePath ≠ [])
  (follow : (db.tree volume).EntriesFollow (pathText names) destination sourceLocation)

include isEntry follow

theorem Relocating.carried_outside_zone {other : ZoneNode}
    (member : other ∈ (replaced.tree volume).zones) :
    Carried (pathText names) destination (nodeOfZone other) (nodeOfZone other) := by
  obtain ⟨others, zoneAt⟩ := moving.wellFormed.zoneAt_of_mem member
  refine Or.inl ⟨?_, rfl⟩
  rw [nodeOfZone_path, zoneAt.atOrBelow_iff moving.source.valid moving.source.nonempty]
  exact moving.no_zone_at_source isEntry follow zoneAt

theorem Relocating.carried_outside_entry (content : ZoneEntry → Option Bytes) {owner : ZoneNode}
    {entry : ZoneEntry} {above within : List Text}
    (found : (replaced.tree volume).EntryAt owner entry above within)
    (notSelected : subtreeRow volume sourceLocation.zoneId sourceLocation.relativePath true entry =
      false) :
    Carried (pathText names) destination (nodeOfEntry content owner.path entry)
      (nodeOfEntry content owner.path entry) := by
  refine Or.inl ⟨?_, rfl⟩
  rw [nodeOfEntry_path, found.atOrBelow_iff moving.source.valid moving.source.nonempty,
    moving.wellFormed.prefix_entry_iff moving.located found]
  rintro (above | inside)
  · exact moving.no_zone_at_source isEntry follow found.zoneAt above
  · rw [(moving.selected_iff isEntry follow found).mpr inside] at notSelected
    cases notSelected

theorem Relocating.carried_inside_entry (now : Timestamp) {content : ZoneEntry → Option Bytes}
    (sameContent : ∀ first second : ZoneEntry, first.payload = second.payload →
      content first = content second) {owner : ZoneNode} {entry : ZoneEntry}
    {above within : List Text} (found : (replaced.tree volume).EntryAt owner entry above within)
    (selected : subtreeRow volume sourceLocation.zoneId sourceLocation.relativePath true entry =
      true) :
    Carried (pathText names) destination (nodeOfEntry content owner.path entry)
      (nodeOfEntry content parent.path (movedEntry destinationParent sourceLocation.relativePath
        (destinationParent.child (nameOf destination)).relativePath (nameOf destination) now
        entry)) := by
  obtain ⟨rfl, extra, rfl⟩ := (moving.selected_iff isEntry follow found).mp selected
  obtain rfl := found.zoneAt.names_unique moving.located.zoneAt
  have path := moving.movedEntry_path isEntry found.path
  have extraValid := found.valid.right
  rw [moving.place.path_eq] at path ⊢
  refine carried_of_inside extra moving.source.nonempty (by simp) ?_ ?_
    ⟨rfl, rfl, rfl, sameContent _ _ rfl⟩
  · rw [nodeOfEntry_path, found.absolutePath_eq, moving.source.located.names_eq, List.append_assoc]
  · change absolutePath parent.path (rebasedRelative _ _ _) = _
    rw [path, moving.parentAt.path, absolutePath_texts moving.parentAt.valid
      (moving.place.valid.append extraValid)]
    simp only [List.append_assoc]

theorem Relocating.moved_entries
    (relocated : Relocated replaced after volume (pathText names) destination sourceLocation
      destinationParent now) {content : ZoneEntry → Option Bytes}
    (sameContent : ∀ first second : ZoneEntry, first.payload = second.payload →
      content first = content second) :
    (∀ node ∈ (replaced.tree volume).nodes content, ∃ moved ∈ (after.tree volume).nodes content,
      Carried (pathText names) destination node moved) ∧
    (∀ moved ∈ (after.tree volume).nodes content, ∃ node ∈ (replaced.tree volume).nodes content,
      Carried (pathText names) destination node moved) := by
  have tree := tree_relocatedEntries isEntry relocated volume
  have parentId : destinationParent.zoneId = parent.id := by rw [moving.place.location_eq]
  rw [tree]
  constructor
  · intro node member
    obtain ⟨other, otherMember, rfl⟩ | ⟨entry, entryMember, other, otherMember, inZone, rfl⟩ :=
      Tree.mem_nodes.mp member
    · exact ⟨_, Tree.nodeOfZone_mem otherMember,
        moving.carried_outside_zone isEntry follow otherMember⟩
    · obtain ⟨owner, above, within, found⟩ := moving.wellFormed.entryAt_of_mem entryMember
      obtain rfl := moving.wellFormed.zone_ids owner found.zoneAt.member other otherMember
        (found.inZone.symm.trans inZone.symm)
      cases selected : subtreeRow volume sourceLocation.zoneId sourceLocation.relativePath true
          entry with
      | false =>
          refine ⟨_, Tree.nodeOfEntry_mem ?_ otherMember inZone,
            moving.carried_outside_entry isEntry follow content found selected⟩
          exact mem_map_rewritten.mpr (Or.inl ⟨entryMember, selected⟩)
      | true =>
          refine ⟨_, Tree.nodeOfEntry_mem ?_ moving.parentAt.member parentId.symm,
            moving.carried_inside_entry isEntry follow now sameContent found selected⟩
          exact mem_map_rewritten.mpr (Or.inr ⟨entry, entryMember, selected, rfl⟩)
  · intro moved member
    obtain ⟨other, otherMember, rfl⟩ | ⟨changed, changedMember, other, otherMember, inZone, rfl⟩ :=
      Tree.mem_nodes.mp member
    · exact ⟨_, Tree.nodeOfZone_mem otherMember,
        moving.carried_outside_zone isEntry follow otherMember⟩
    · obtain ⟨entryMember, selected⟩ | ⟨entry, entryMember, selected, rfl⟩ :=
        mem_map_rewritten.mp changedMember
      · obtain ⟨owner, above, within, found⟩ := moving.wellFormed.entryAt_of_mem entryMember
        obtain rfl := moving.wellFormed.zone_ids owner found.zoneAt.member other otherMember
          (found.inZone.symm.trans inZone.symm)
        exact ⟨_, Tree.nodeOfEntry_mem entryMember otherMember inZone,
          moving.carried_outside_entry isEntry follow content found selected⟩
      · obtain ⟨owner, above, within, found⟩ := moving.wellFormed.entryAt_of_mem entryMember
        obtain rfl := moving.wellFormed.zone_ids other otherMember parent moving.parentAt.member
          (inZone.trans parentId)
        exact ⟨_, Tree.nodeOfEntry_mem entryMember found.zoneAt.member found.inZone.symm,
          moving.carried_inside_entry isEntry follow now sameContent found selected⟩

end EntryBranch

omit moving

/-! ### Exactly when a move is exact -/

section Exact

variable (sound : Sound db)
  (movable : Movable db replaced volume (pathText names) destination sourceLocation
    destinationParent)
  (relocated : Relocated replaced after volume (pathText names) destination sourceLocation
    destinationParent now)

include moving movable relocated

theorem Relocating.movedExactly
    (exactly : MoveExact db volume (pathText names) destination sourceLocation) :
    MovedExactly db after volume (pathText names) destination := by
  have content := contentOf_relocated movable relocated
  have carried : (∀ node ∈ (replaced.tree volume).nodes db.contentOf,
        ∃ moved ∈ (after.tree volume).nodes db.contentOf,
          Carried (pathText names) destination node moved) ∧
      (∀ moved ∈ (after.tree volume).nodes db.contentOf,
        ∃ node ∈ (replaced.tree volume).nodes db.contentOf,
          Carried (pathText names) destination node moved) := by
    by_cases isZone : sourceLocation.relativePath = []
    · exact moving.moved_zones isZone (exactly.2.1 isZone) relocated db.contentOf
    · exact moving.moved_entries isZone (exactly.2.2 isZone) relocated
        fun first second same => contentOf_of_payload db same
  have nodes : after.nodes volume = (after.tree volume).nodes db.contentOf := by
    rw [Database.nodes, content]
  refine movedExactly_of_carried ((replaced.tree volume).nodes db.contentOf)
    (moving.remaining_iff db.contentOf) ?_ moving.outside_text moving.not_atOrBelow ?_ ?_
  · exact fun node member below => (moving.single member below).1
  · rw [nodes]
    exact carried.1
  · rw [nodes]
    exact carried.2

include sound

/-- The zones of an exact move follow their root. -/
theorem Relocating.zonesFollow (isZone : sourceLocation.relativePath = [])
    (exactly : MovedExactly db after volume (pathText names) destination) :
    (db.tree volume).ZonesFollow (pathText names) destination := by
  have kept := relocated.kept movable (replaceDestination_kept (.refl sound) movable.replaces)
  have identified := kept.sound.keys.identified volume
  have tree := tree_relocatedZones isZone relocated volume
  intro other member
  have inVolume := (mem_tree_zones.mp member).2
  have moved : relocatedZone volume (pathText names) destination sourceLocation.zoneId
      destinationParent now other ∈ (after.tree volume).zones := by
    rw [tree]
    exact List.mem_map_of_mem (moving.zones.symm ▸ member)
  constructor
  · intro below
    by_contra notSelected
    have unselected : zoneRow volume (pathText names) other = false := by
      rw [Bool.eq_false_iff]
      intro chosen
      rcases (of_decide_eq_true chosen).2 with here | selected
      · rw [here] at below
        exact not_below_self _ below
      · exact notSelected selected
    unfold relocatedZone at moved
    rw [rewritten_of_not_selected unselected] at moved
    exact exactly.gone _ (Tree.nodeOfZone_mem moved) (Or.inr below)
  · intro selected
    by_contra neither
    rw [not_or, not_and] at neither
    have notHere : other.path ≠ pathText names := by
      intro here
      rw [here, likeBelow_self] at selected
      cases selected
    have notReplaced : other.path ≠ destination := by
      intro here
      have there : nodeOfZone other ∈ db.nodes volume := Tree.nodeOfZone_mem member
      exact (moving.single there (Or.inl here)).2 rfl
    have stays := exactly.others (nodeOfZone other) (Tree.nodeOfZone_mem member)
      (not_or.mpr ⟨notHere, neither.1⟩) notReplaced
    have same := identified.node_eq stays (Tree.nodeOfZone_mem moved)
      (relocatedZone_id volume (pathText names) destination sourceLocation.zoneId
        destinationParent now other).symm
    have path := congrArg (fun node : Node => node.path) same
    have chosen : zoneRow volume (pathText names) other = true :=
      decide_eq_true ⟨inVolume, Or.inr selected⟩
    rw [nodeOfZone_path, nodeOfZone_path, relocatedZone, rewritten_of_selected chosen,
      (movedZoneNode_columns _ _ _ _ _ other).2.2] at path
    have isPrefix : destination <+: other.path := by
      rw [path]
      exact List.prefix_append destination _
    refine neither.2 isPrefix ?_
    have lengths := congrArg List.length path
    rw [List.length_append, substr, Nat.add_sub_cancel, List.length_drop] at lengths
    by_cases longer : (pathText names).length ≤ other.path.length
    · omega
    · exact absurd (isPrefix.eq_of_length (by omega)).symm notReplaced

/-- The entries of an exact move are those at and below its source. -/
theorem Relocating.entriesFollow (isEntry : sourceLocation.relativePath ≠ [])
    (exactly : MovedExactly db after volume (pathText names) destination) :
    (db.tree volume).EntriesFollow (pathText names) destination sourceLocation := by
  have kept := relocated.kept movable (replaceDestination_kept (.refl sound) movable.replaces)
  have identified := kept.sound.keys.identified volume
  have tree := tree_relocatedEntries isEntry relocated volume
  have zones : (after.tree volume).zones = (db.tree volume).zones := by
    rw [tree]
    exact moving.zones
  constructor
  · intro other member below
    exact exactly.gone (nodeOfZone other) (Tree.nodeOfZone_mem (zones ▸ member)) (Or.inr below)
  · intro entry member inZone notReplaced
    obtain ⟨owner, above, within, found⟩ := moving.source.wellFormed.entryAt_of_mem member
    have ownerEq : owner = zone := by
      apply moving.source.wellFormed.zone_ids owner found.zoneAt.member zone
        moving.source.located.zoneAt.member
      rw [← found.inZone, inZone, moving.source.location_eq]
    subst ownerEq
    have front_eq := found.zoneAt.names_unique moving.source.located.zoneAt
    subst front_eq
    have zonePath : sourceLocation.zonePath = owner.path := by rw [moving.source.location_eq]
    rw [zonePath] at notReplaced
    have innerValid := moving.source.located.components moving.source.valid
    have innerNonempty := moving.isEntry_iff.mp isEntry
    have path : sourceLocation.relativePath = relativeText inner := by
      rw [moving.source.location_eq]
    -- The entry is still there when the rows are selected.
    have remains : entry ∈ (replaced.tree volume).entries := by
      refine (moving.entryAt_iff.mpr ⟨found, ?_⟩).member
      intro isPrefix
      have below : AtOrBelow destination (absolutePath owner.path entry.relativePath) := by
        rw [moving.place.path_eq, found.atOrBelow_iff moving.place.components (by simp)]
        exact isPrefix
      have there : nodeOfEntry db.contentOf owner.path entry ∈ db.nodes volume :=
        Tree.nodeOfEntry_mem member found.zoneAt.member found.inZone.symm
      exact notReplaced (moving.single there below).1
    have atSource : AtOrBelow (pathText names) (absolutePath owner.path entry.relativePath) ↔
        AtOrBelow sourceLocation.relativePath entry.relativePath := by
      rw [found.atOrBelow_iff moving.source.valid moving.source.nonempty,
        moving.source.located.names_eq, List.prefix_append_right_inj, path, found.path,
        atOrBelow_relativeText_iff innerValid found.valid innerNonempty]
    have selection : subtreeRow volume sourceLocation.zoneId sourceLocation.relativePath true
        entry = true ↔ entry.relativePath = sourceLocation.relativePath ∨
          likeBelow sourceLocation.relativePath entry.relativePath = true := by
      unfold subtreeRow
      rw [decide_eq_true_eq]
      constructor
      · intro chosen
        rcases chosen.2.2 with here | deep
        · exact Or.inl here
        · exact Or.inr deep.2
      · intro chosen
        refine ⟨(mem_tree_entries.mp member).2, inZone, ?_⟩
        rcases chosen with here | selected
        · exact Or.inl here
        · exact Or.inr ⟨rfl, selected⟩
    constructor
    · intro selected
      by_contra outside
      have notHere : entry.relativePath ≠ sourceLocation.relativePath := by
        intro here
        rw [here, likeBelow_self] at selected
        cases selected
      have chosen := selection.mpr (Or.inr selected)
      have stays := exactly.others (nodeOfEntry db.contentOf owner.path entry)
        (Tree.nodeOfEntry_mem member found.zoneAt.member found.inZone.symm)
        (fun below => not_or.mpr ⟨notHere, outside⟩ (atSource.mp below)) notReplaced
      have movedMember : nodeOfEntry after.contentOf parent.path
          (movedEntry destinationParent sourceLocation.relativePath
            (destinationParent.child (nameOf destination)).relativePath (nameOf destination) now
            entry) ∈ after.nodes volume := by
        refine Tree.nodeOfEntry_mem ?_ (zones ▸ moving.place.zoneAt.member) ?_
        · rw [tree]
          exact mem_map_rewritten.mpr (Or.inr ⟨entry, remains, chosen, rfl⟩)
        · change parent.id = destinationParent.zoneId
          rw [moving.place.location_eq]
      have same := identified.node_eq stays movedMember rfl
      -- A moved row counts one more change.
      have generation := congrArg (fun node : Node => node.generation) same
      exact absurd generation (Nat.ne_of_lt (Nat.lt_succ_self _))
    · intro below
      by_contra notSelected
      have notHere : entry.relativePath ≠ sourceLocation.relativePath := by
        intro here
        rw [here] at below
        exact not_below_self _ below
      have unselected : subtreeRow volume sourceLocation.zoneId sourceLocation.relativePath true
          entry = false := by
        rw [Bool.eq_false_iff, ne_eq, selection]
        exact not_or.mpr ⟨notHere, notSelected⟩
      refine exactly.gone (nodeOfEntry after.contentOf owner.path entry) ?_
        (atSource.mpr (Or.inr below))
      refine Tree.nodeOfEntry_mem ?_ (zones ▸ found.zoneAt.member) found.inZone.symm
      rw [tree]
      exact mem_map_rewritten.mpr (Or.inl ⟨remains, unselected⟩)

end Exact

theorem relocated_exact_iff (state : WellFormedVolume db volume)
    (movable : Movable db replaced volume source destination sourceLocation destinationParent)
    (relocated : Relocated replaced after volume source destination sourceLocation
      destinationParent now) :
    MovedExactly db after volume source destination ↔
      MoveExact db volume source destination sourceLocation := by
  have sound := state.committed.sound
  constructor
  · intro exactly
    obtain ⟨names, zone, front, inner, parent, upper, rest, name, rfl, moving⟩ :=
      movable.relocating state.tree exactly.rejected
    exact ⟨exactly.rejected,
      fun isZone => moving.zonesFollow sound movable relocated isZone exactly,
      fun isEntry => moving.entriesFollow sound movable relocated isEntry exactly⟩
  · intro exactly
    obtain ⟨names, zone, front, inner, parent, upper, rest, name, rfl, moving⟩ :=
      movable.relocating state.tree exactly.1
    exact moving.movedExactly movable relocated exactly

/-- `pgos.move` and `pgos.move_command` move the nodes at and below the source and no
others if and only if the destination is outside the source and the patterns that they
evaluate select the rows to rewrite. -/
theorem move_exact_iff (state : WellFormedVolume db volume)
    (done : (∃ count, db.move volume source destination now = .ok (after, count)) ∨
      ∃ count, db.moveCommand volume source destination now = .ok (after, count)) :
    MovedExactly db after volume source destination ↔
      ∀ location, db.locateZone volume source = some location →
        MoveExact db volume source destination location := by
  have outcome : ∃ replaced sourceLocation destinationParent,
      Movable db replaced volume source destination sourceLocation destinationParent ∧
      Relocated replaced after volume source destination sourceLocation destinationParent now := by
    rcases done with ⟨count, moveOk⟩ | ⟨count, moveOk⟩
    · exact move_ok moveOk
    · exact moveCommand_ok moveOk
  obtain ⟨replaced, sourceLocation, destinationParent, movable, relocated⟩ := outcome
  have located := movable.located
  rw [locateZone_replaceDestination movable.replaces] at located
  rw [relocated_exact_iff state movable relocated]
  constructor
  · intro exactly location found
    rwa [← Option.some.inj (located.symm.trans found)]
  · exact fun every => every sourceLocation located

end Move

theorem move_exact_of_plain :
    MovedExactly (Database.empty.calls wildcardCalls)
      (Database.empty.calls (wildcardCalls ++ [.move 7 ['/', 'a', 'b'] ['/', 'z'] 4])) 7
      ['/', 'a', 'b'] ['/', 'z'] := by
  have done : (Database.empty.calls wildcardCalls).move 7 ['/', 'a', 'b'] ['/', 'z'] 4 =
      .ok (Database.empty.calls (wildcardCalls ++ [.move 7 ['/', 'a', 'b'] ['/', 'z'] 4]), 2) := by
    decide +kernel
  refine (move_exact_iff (wellFormed_calls (by decide +kernel)) (Or.inl ⟨2, done⟩)).mpr ?_
  intro location located
  have here : (Database.empty.calls wildcardCalls).locateZone 7 ['/', 'a', 'b'] =
      some { zoneId := 1, zonePath := ['/'], relativePath := ['a', 'b'] } := by decide +kernel
  obtain rfl := Option.some.inj (here.symm.trans located)
  decide +kernel

/-- Moving `/a_` also moves `/ab/c`. -/
theorem move_not_exact :
    ¬ ∀ (db after : Database) (volume : Uuid) (source destination : Text) (now : Timestamp)
      (count : Nat), WellFormedVolume db volume →
        db.move volume source destination now = .ok (after, count) →
          MovedExactly db after volume source destination := by
  intro every
  have exactly := every (Database.empty.calls wildcardCalls)
    (Database.empty.calls (wildcardCalls ++ [.move 7 ['/', 'a', '_'] ['/', 'z'] 4])) 7
    ['/', 'a', '_'] ['/', 'z'] 4 2 (wellFormed_calls (by decide +kernel)) (by decide +kernel)
  have lost : ∃ node ∈ (Database.empty.calls wildcardCalls).nodes 7,
      ¬ AtOrBelow ['/', 'a', '_'] node.path ∧ node.path ≠ ['/', 'z'] ∧
        node ∉ (Database.empty.calls
          (wildcardCalls ++ [.move 7 ['/', 'a', '_'] ['/', 'z'] 4])).nodes 7 := by
    decide +kernel
  obtain ⟨node, member, outside, notReplaced, gone⟩ := lost
  exact gone (exactly.others node member outside notReplaced)

end PostgreOS
