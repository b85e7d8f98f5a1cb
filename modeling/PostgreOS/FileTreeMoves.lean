/-
Moves in the tree of files.

`move` takes a subtree to another place, with everything that is known of its files. It does so
whenever the patterns that it evaluates select the rows at and below the source, and then it
succeeds exactly where the tree of files allows it.
-/

import PostgreOS.FileTreeSubtrees
import PostgreOS.MovedRows
import PostgreOS.MoveSpec

namespace PostgreOS

open Library.NameTree Library.Outcome Library.Table

section Move

variable {db replaced after : Database} {volume : Uuid} {names : List Text} {zone : ZoneNode}
  {front inner : List Text} {source destination : Text} {sourceLocation destinationParent : Location}
  {parent : ZoneNode} {upper rest : List Text} {name : Text} {now : Timestamp}

/-- Moved rows show the objects that they showed. -/
theorem Relocated.object
    (relocated : Relocated replaced after volume source destination sourceLocation
      destinationParent now) (wellFormed : (replaced.tree volume).WellFormed)
    (content : ZoneEntry → Option Bytes)
    (sameContent : ∀ first second : ZoneEntry, first.payload = second.payload →
      content first = content second) {moved : Node}
    (member : moved ∈ (after.tree volume).nodes content) :
    ∃ node ∈ (replaced.tree volume).nodes content,
      node.id = moved.id ∧ node.object = moved.object := by
  by_cases isZone : sourceLocation.relativePath = []
  · rw [tree_relocatedZones isZone relocated] at member
    have sameId := relocatedZone_id volume source destination sourceLocation.zoneId
      destinationParent now
    obtain ⟨changed, changedMember, rfl⟩ | ⟨entry, entryMember, changed, changedMember, inZone, rfl⟩ :=
      Tree.mem_nodes.mp member
    · obtain ⟨other, otherMember, rfl⟩ := List.mem_map.mp changedMember
      refine ⟨_, Tree.nodeOfZone_mem otherMember, (sameId other).symm, ?_⟩
      unfold relocatedZone rewritten movedZoneNode
      split
      · dsimp only
        split <;> rfl
      · rfl
    · obtain ⟨other, otherMember, rfl⟩ := List.mem_map.mp changedMember
      exact ⟨_, Tree.nodeOfEntry_mem entryMember otherMember ((sameId other).symm.trans inZone), rfl,
        rfl⟩
  · rw [tree_relocatedEntries isZone relocated] at member
    obtain ⟨other, otherMember, rfl⟩ | ⟨changed, changedMember, other, otherMember, inZone, rfl⟩ :=
      Tree.mem_nodes.mp member
    · exact ⟨_, Tree.nodeOfZone_mem otherMember, rfl, rfl⟩
    · obtain ⟨entryMember, -⟩ | ⟨entry, entryMember, -, rfl⟩ := mem_map_rewritten.mp changedMember
      · exact ⟨_, Tree.nodeOfEntry_mem entryMember otherMember inZone, rfl, rfl⟩
      · obtain ⟨owner, ownerMember, inOwner⟩ := wellFormed.entry_zone entry entryMember
        refine ⟨_, Tree.nodeOfEntry_mem entryMember ownerMember inOwner, rfl, ?_⟩
        have shown := sameContent (movedEntry destinationParent sourceLocation.relativePath
          (destinationParent.child (nameOf destination)).relativePath (nameOf destination) now entry)
          entry rfl
        unfold Node.object Node.body nodeOfEntry
        rw [shown]
        rfl

/-- Nodes that move exactly, with their objects, move in the view. -/
theorem view_of_movedExactly {target : List Text} (before : (db.tree volume).WellFormed)
    (still : (after.tree volume).WellFormed) (valid : Components names) (inner : names ≠ [])
    (targetValid : Components target) (targetInner : target ≠ [])
    (exactly : MovedExactly db after volume (pathText names) (pathText target))
    (objects : ∀ moved ∈ after.nodes volume, ∀ node ∈ db.nodes volume, moved.id = node.id →
      moved.object = node.object) :
    after.view volume = (db.view volume).move names target := by
  have nodeAt {node : Node} {others : List Text} (path : node.path = pathText others)
      (othersValid : Components others) :=
    path ▸ atOrBelow_pathText_iff valid othersValid inner
  funext others
  ext object
  rw [view_eq_some_iff still, move]
  by_cases arrives : target <+: others
  · obtain ⟨extra, rfl⟩ := arrives
    rw [graft_append, branch_apply, view_eq_some_iff before]
    constructor
    · rintro ⟨othersValid, moved, member, path, rfl⟩
      have below : AtOrBelow (pathText target) moved.path := by
        rw [path, atOrBelow_pathText_iff targetValid othersValid targetInner]
        exact List.prefix_append target extra
      obtain ⟨node, nodeMember, suffix, -, nodePath, movedPath, same⟩ := exactly.only moved member below
      rw [path, pathText_append targetInner] at movedPath
      rw [← List.append_cancel_left movedPath, ← pathText_append inner] at nodePath
      exact ⟨valid.append othersValid.right, node, nodeMember, nodePath,
        (objects moved member node nodeMember same.1).symm⟩
    · rintro ⟨othersValid, node, member, path, rfl⟩
      have below : AtOrBelow (pathText names) node.path :=
        (nodeAt path othersValid).mpr (List.prefix_append names extra)
      rw [pathText_append inner] at path
      obtain ⟨moved, movedMember, movedPath, same⟩ := exactly.arrived node member _ path below
      rw [← pathText_append targetInner] at movedPath
      exact ⟨targetValid.append othersValid.right, moved, movedMember, movedPath,
        objects moved movedMember node member same.1⟩
  · rw [graft_outside arrives]
    by_cases leaves : names <+: others
    · rw [cut_inside leaves]
      refine iff_of_false ?_ (Option.some_ne_none object ∘ Eq.symm)
      rintro ⟨othersValid, node, member, path, -⟩
      exact exactly.gone node member ((nodeAt path othersValid).mpr leaves)
    · rw [cut_outside leaves, view_eq_some_iff before]
      refine and_congr_right fun othersValid => exists_congr fun node => ?_
      constructor
      · rintro ⟨member, path, shows⟩
        refine ⟨exactly.noneNew node member ?_, path, shows⟩
        rw [path, atOrBelow_pathText_iff targetValid othersValid targetInner]
        exact arrives
      · rintro ⟨member, path, shows⟩
        refine ⟨exactly.others node member ?_ ?_, path, shows⟩
        · rw [nodeAt path othersValid]
          exact leaves
        · intro here
          rw [path] at here
          exact arrives (pathText_injective othersValid targetValid here ▸ List.prefix_refl _)

theorem Relocated.view (sound : Sound db) (before : (db.tree volume).WellFormed)
    (movable : Movable db replaced volume source destination sourceLocation destinationParent)
    (exactly : MoveExact db volume source destination sourceLocation)
    (relocated : Relocated replaced after volume source destination sourceLocation
      destinationParent now) {target : List Text} (valid : Components names)
    (targetValid : Components target) (sourceEq : source = pathText names)
    (destinationEq : destination = pathText target) :
    after.view volume = (db.view volume).move names target := by
  have still := relocated.wellFormed sound before movable exactly
  obtain ⟨others, zone, front, inner, parent, upper, rest, name, same, moving⟩ :=
    movable.relocating before exactly.1
  obtain rfl := pathText_injective valid moving.source.valid (sourceEq.symm.trans same)
  obtain rfl := pathText_injective targetValid moving.place.components
    (destinationEq.symm.trans moving.place.path_eq)
  subst sourceEq
  have moved := moving.movedExactly movable relocated exactly
  rw [destinationEq] at moved
  refine view_of_movedExactly before still valid moving.source.nonempty targetValid (by simp) moved ?_
  intro shown shownMember node member sameId
  have content := contentOf_relocated movable relocated
  rw [Database.nodes, content] at shownMember
  obtain ⟨original, originalMember, originalId, shows⟩ := relocated.object moving.wellFormed
    db.contentOf (fun _ _ same => contentOf_of_payload db same) shownMember
  have inBoth := ((moving.remaining_iff db.contentOf original).mp originalMember).1
  rw [← shows, (sound.keys.identified volume).node_eq inBoth member (originalId.trans sameId)]

end Move

/-! ### Moves that are allowed -/

/-- The patterns of a move select what lies below its source, and no zone is nested in a source
that is an entry. -/
def MoveFaithful (db : Database) (volume : Uuid) (source destination : Text) : Prop :=
  (likeBelow source destination = true ↔ Below source destination) ∧
    ∀ location ∈ db.locateZone volume source,
      (location.relativePath = [] → (db.tree volume).ZonesFollow source destination) ∧
        (location.relativePath ≠ [] →
          (db.tree volume).EntriesFollow source destination location ∧
            ∀ zone ∈ (db.tree volume).zones, likeBelow source zone.path = false)

instance (db : Database) (volume : Uuid) (source destination : Text) :
    Decidable (MoveFaithful db volume source destination) :=
  inferInstanceAs (Decidable (_ ∧ ∀ location ∈ db.locateZone volume source, _))

section Operations

variable {db replaced after : Database} {volume : Uuid} {source destination : Text}
  {sourceLocation destinationParent : Location} {names target : List Text} {now : Timestamp}

theorem replaceDestination_exists (before : (db.tree volume).WellFormed)
    (canonical : CanonicalPath destination)
    (other : db.kindOf volume destination ≠ some .directory) :
    ∃ replaced, db.replaceDestination volume destination = .ok replaced := by
  obtain ⟨path, valid, rfl⟩ := (canonicalPath_iff destination).mp canonical
  obtain ⟨zone, front, rest, found⟩ := before.located_exists valid
  unfold Database.replaceDestination
  split
  · exact absurd ‹_› other
  · exact ⟨db, rfl⟩
  · rw [locateZone_of_located before valid found, strict, ok_bind]
    exact ⟨_, rfl⟩

theorem move_of_relocated
    (movable : Movable db replaced volume source destination sourceLocation destinationParent)
    (relocated : Relocated replaced after volume source destination sourceLocation
      destinationParent now) :
    ∃ count, db.move volume source destination now = .ok (after, count) := by
  unfold Database.move
  rw [assertPath_of_canonical movable.canonical_source, ok_bind,
    assertPath_of_canonical movable.canonical, ok_bind,
    if_neg (by simp [movable.notRoot, movable.apart, movable.notLikeBelow]),
    if_neg movable.present, if_neg (not_not.mpr movable.parent), movable.replaces, ok_bind,
    movable.located, strict, ok_bind, movable.parent_located, strict, ok_bind]
  rcases relocated with ⟨isZone, updated⟩ | ⟨isEntry, single, updated⟩
  · unfold Database.moveZone
    rw [if_pos isZone, updated]
    exact ⟨_, rfl⟩
  · unfold Database.moveEntry
    rw [if_neg isEntry, if_neg (not_not.mpr single)]
    dsimp only
    rw [updated]
    exact ⟨_, rfl⟩

theorem moveCommand_of_relocated
    (movable : Movable db replaced volume source destination sourceLocation destinationParent)
    (relocated : Relocated replaced after volume source destination sourceLocation
      destinationParent now) :
    ∃ count, db.moveCommand volume source destination now = .ok (after, count) := by
  have located := movable.located
  rw [locateZone_replaceDestination movable.replaces] at located
  unfold Database.moveCommand
  rw [assertPath_of_canonical movable.canonical_source, ok_bind,
    assertPath_of_canonical movable.canonical, ok_bind, located, strict, ok_bind]
  rcases relocated with ⟨isZone, updated⟩ | moved
  · rw [if_neg (not_not.mpr isZone),
      if_neg (by simp [movable.notRoot, movable.apart, movable.notLikeBelow]),
      if_neg (not_not.mpr movable.parent), movable.replaces, ok_bind, movable.parent_located, strict,
      ok_bind]
    dsimp only
    rw [updated]
    exact ⟨_, rfl⟩
  · obtain ⟨count, done⟩ := move_of_relocated movable (Or.inr moved)
    rw [if_pos moved.1, done]
    exact ⟨_, rfl⟩

theorem MoveFaithful.exactly (faithful : MoveFaithful db volume source destination)
    (separate : likeBelow source destination = false) :
    ∀ location, db.locateZone volume source = some location →
      MoveExact db volume source destination location := by
  intro location located
  obtain ⟨zones, entries⟩ := faithful.2 location located
  refine ⟨?_, zones, fun isEntry => (entries isEntry).1⟩
  rw [← faithful.1, separate]
  exact Bool.false_ne_true

theorem view_of_movable (sound : Sound db) (before : (db.tree volume).WellFormed)
    (valid : Components names) (targetValid : Components target)
    (faithful : MoveFaithful db volume (pathText names) (pathText target))
    (movable : Movable db replaced volume (pathText names) (pathText target) sourceLocation
      destinationParent)
    (relocated : Relocated replaced after volume (pathText names) (pathText target) sourceLocation
      destinationParent now) :
    after.view volume = (db.view volume).move names target := by
  have located := movable.located
  rw [locateZone_replaceDestination movable.replaces] at located
  exact relocated.view sound before movable
    (faithful.exactly movable.notLikeBelow sourceLocation located) valid targetValid rfl rfl

theorem view_move {count : Nat} (sound : Sound db) (before : (db.tree volume).WellFormed)
    (valid : Components names) (targetValid : Components target)
    (faithful : MoveFaithful db volume (pathText names) (pathText target))
    (done : db.move volume (pathText names) (pathText target) now = .ok (after, count)) :
    after.view volume = (db.view volume).move names target := by
  obtain ⟨replaced, sourceLocation, parent, movable, relocated⟩ := move_ok done
  exact view_of_movable sound before valid targetValid faithful movable relocated

theorem view_moveCommand {count : Int} (sound : Sound db) (before : (db.tree volume).WellFormed)
    (valid : Components names) (targetValid : Components target)
    (faithful : MoveFaithful db volume (pathText names) (pathText target))
    (done : db.moveCommand volume (pathText names) (pathText target) now = .ok (after, count)) :
    after.view volume = (db.view volume).move names target := by
  obtain ⟨replaced, sourceLocation, parent, movable, relocated⟩ := moveCommand_ok done
  exact view_of_movable sound before valid targetValid faithful movable relocated

theorem canMove_of_movable (before : (db.tree volume).WellFormed) (valid : Components names)
    (targetValid : Components target)
    (faithful : MoveFaithful db volume (pathText names) (pathText target))
    (movable : Movable db replaced volume (pathText names) (pathText target) sourceLocation
      destinationParent) :
    (db.view volume).CanMove names target := by
  have inner : names ≠ [] := by
    intro root
    exact movable.notRoot (by rw [root, pathText_nil])
  refine ⟨inner, ?_, ?_, (inDirectory_iff before targetValid).mpr movable.parent, ?_⟩
  · intro inside
    rcases (atOrBelow_pathText_iff valid targetValid inner).mpr inside with here | below
    · exact movable.apart here
    · have selected := faithful.1.mpr below
      rw [movable.notLikeBelow] at selected
      cases selected
  · rw [Ne, view_eq_none_iff before valid]
    exact movable.present
  · rw [directory_iff before targetValid]
    exact (replaceDestination_ok movable.replaces).1

/-- Where the tree of files allows a move, its checks pass and its update meets no conflict. -/
theorem relocated_of_canMove (sound : Sound db) (before : (db.tree volume).WellFormed)
    (valid : Components names) (targetValid : Components target)
    (faithful : MoveFaithful db volume (pathText names) (pathText target))
    (allowed : (db.view volume).CanMove names target) (now : Timestamp) :
    ∃ replaced after sourceLocation destinationParent,
      Movable db replaced volume (pathText names) (pathText target) sourceLocation
        destinationParent ∧
      Relocated replaced after volume (pathText names) (pathText target) sourceLocation
        destinationParent now := by
  obtain ⟨inner, outside, present, above, notDirectory⟩ := allowed
  have parent := (inDirectory_iff before targetValid).mp above
  have canonical := canonicalPath_pathText targetValid
  obtain ⟨zone, front, rest, found⟩ := before.located_exists valid
  have located := locateZone_of_located before valid found
  obtain ⟨destinationParent, parentLocated⟩ :=
    locateParent_isSome before canonical (ne_root_of_parent parent)
  obtain ⟨replaced, replaces⟩ := replaceDestination_exists before canonical
    (fun directory => notDirectory ((directory_iff before targetValid).mpr directory))
  have separate : likeBelow (pathText names) (pathText target) = false := by
    rw [Bool.eq_false_iff]
    intro selected
    exact outside ((atOrBelow_pathText_iff valid targetValid inner).mp
      (Or.inr (faithful.1.mp selected)))
  have movable : Movable db replaced volume (pathText names) (pathText target) _
      destinationParent :=
    { canonical_source := canonicalPath_pathText valid
      canonical := canonical
      notRoot := pathText_ne_root valid inner
      apart := fun same => outside
        (pathText_injective targetValid valid same ▸ List.prefix_refl target)
      notLikeBelow := separate
      present := by rwa [Ne, ← view_eq_none_iff before valid]
      parent := parent
      replaces := replaces
      located := (locateZone_replaceDestination replaces _).trans located
      parent_located := by
        rwa [locateParent_congr (zoneNodes_replaceDestination replaces)] }
  have keys := (replaceDestination_kept (.refl sound) replaces).sound.keys
  obtain ⟨others, owner, upper, within, holder, above, below, name, same, moving⟩ :=
    movable.relocating before (faithful.exactly separate _ located).1
  obtain rfl := pathText_injective valid moving.source.valid same
  obtain ⟨zones, entries⟩ := faithful.2 _ located
  by_cases isZone : relativeText rest = []
  · obtain ⟨after, updated⟩ := moving.updateZones_exists isZone (zones isZone) keys
    exact ⟨replaced, after, _, destinationParent, movable, Or.inl ⟨isZone, updated⟩⟩
  · obtain ⟨after, updated⟩ := moving.updateEntries_exists isZone (entries isZone).1 keys
    refine ⟨replaced, after, _, destinationParent, movable, Or.inr ⟨isZone, ?_, updated⟩⟩
    rw [zonesLikeBelow_eq_nil_iff, moving.zones]
    exact (entries isZone).2

theorem move_allowed_iff (sound : Sound db) (before : (db.tree volume).WellFormed)
    (valid : Components names) (targetValid : Components target)
    (faithful : MoveFaithful db volume (pathText names) (pathText target)) (now : Timestamp) :
    (∃ result, db.move volume (pathText names) (pathText target) now = .ok result) ↔
      (db.view volume).CanMove names target := by
  constructor
  · rintro ⟨⟨after, count⟩, done⟩
    obtain ⟨replaced, sourceLocation, parent, movable, -⟩ := move_ok done
    exact canMove_of_movable before valid targetValid faithful movable
  · intro allowed
    obtain ⟨replaced, after, sourceLocation, parent, movable, relocated⟩ :=
      relocated_of_canMove sound before valid targetValid faithful allowed now
    obtain ⟨count, done⟩ := move_of_relocated movable relocated
    exact ⟨_, done⟩

theorem moveCommand_allowed_iff (sound : Sound db) (before : (db.tree volume).WellFormed)
    (valid : Components names) (targetValid : Components target)
    (faithful : MoveFaithful db volume (pathText names) (pathText target)) (now : Timestamp) :
    (∃ result, db.moveCommand volume (pathText names) (pathText target) now = .ok result) ↔
      (db.view volume).CanMove names target := by
  constructor
  · rintro ⟨⟨after, count⟩, done⟩
    obtain ⟨replaced, sourceLocation, parent, movable, -⟩ := moveCommand_ok done
    exact canMove_of_movable before valid targetValid faithful movable
  · intro allowed
    obtain ⟨replaced, after, sourceLocation, parent, movable, relocated⟩ :=
      relocated_of_canMove sound before valid targetValid faithful allowed now
    obtain ⟨count, done⟩ := moveCommand_of_relocated movable relocated
    exact ⟨_, done⟩

end Operations

end PostgreOS
