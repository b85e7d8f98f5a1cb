/-
Subtrees in the tree of files.

`remove` cuts a subtree off. The pattern that selects its rows has to be exact, which it is
when no name of the path holds a wildcard.
-/

import PostgreOS.NewRows
import PostgreOS.RemoveSpec
import PostgreOS.VolumeTree

namespace PostgreOS

open Library.Outcome Library.Table

section Has

variable {db : Database} {volume : Uuid} {names : List Text}
  (before : (db.tree volume).WellFormed)

include before

theorem view_exists_iff : (∃ object, db.view volume names = some object) ↔
    ∃ kind, (db.tree volume).Has names kind := by
  constructor
  · rintro ⟨object, found⟩
    obtain ⟨valid, node, member, path, rfl⟩ := (view_eq_some_iff before).mp found
    obtain ⟨others, has, spelled⟩ := before.has_of_mem_nodes member
    rw [pathText_injective valid has.components (path.symm.trans spelled)]
    exact ⟨_, has⟩
  · rintro ⟨kind, has⟩
    obtain ⟨node, member, path, -⟩ := Tree.exists_node_of_has db.contentOf has
    exact ⟨node.object, (view_eq_some_iff before).mpr ⟨has.components, node, member, path, rfl⟩⟩

theorem view_none_iff_has : db.view volume names = none ↔ ∀ kind, ¬ (db.tree volume).Has names kind := by
  rw [Option.eq_none_iff_forall_ne_some, ← not_exists, ← not_exists, not_iff_not]
  exact view_exists_iff before

end Has

section Patterns

variable {db : Database} {volume : Uuid}

theorem zonesLikeBelow_eq_nil_iff (root : Text) : db.zonesLikeBelow volume root = [] ↔
    ∀ zone ∈ (db.tree volume).zones, likeBelow root zone.path = false := by
  unfold Database.zonesLikeBelow
  rw [List.filter_eq_nil_iff]
  constructor
  · intro none zone member
    obtain ⟨inTable, inVolume⟩ := mem_tree_zones.mp member
    obtain ⟨stored, storedMember, rfl⟩ := List.mem_map.mp inTable
    rw [Bool.eq_false_iff]
    intro selected
    exact none stored storedMember (decide_eq_true ⟨inVolume, selected⟩)
  · intro none stored storedMember chosen
    obtain ⟨inVolume, selected⟩ := of_decide_eq_true chosen
    rw [none stored.toZoneNode (mem_tree_zones.mpr ⟨List.mem_map_of_mem storedMember, inVolume⟩)]
      at selected
    cases selected

end Patterns

section Remove

variable {db after : Database} {volume : Uuid} {names : List Text} {recursive : Bool} {count : Nat}

theorem blockingRows_iff (before : (db.tree volume).WellFormed) (valid : Components names) :
    db.blockingRows volume (pathText names) recursive = .ok [] ↔
      ((db.view volume).Directory names → recursive = true ∨
        ∀ name, db.view volume (names ++ [name]) = none) := by
  unfold Database.blockingRows
  rw [directory_iff before valid]
  by_cases directory : db.kindOf volume (pathText names) = some .directory
  · rw [directory]
    have has := (kindOf_eq_some_iff before valid .directory).mp directory
    cases recursive with
    | true => simp
    | false =>
        simp only [not_false_eq_true, and_self, if_true, Bool.false_eq_true, false_or,
          forall_const]
        rw [list_eq_ok_nil_iff before valid has]
        simp only [view_none_iff_has before]
  · rw [if_neg (fun both => directory both.1)]
    simp [directory]

theorem view_remove (sound : Sound db) (before : (db.tree volume).WellFormed)
    (valid : Components names)
    (exactly : ∀ location, db.locateZone volume (pathText names) = some location →
      RemoveExact db volume (pathText names) recursive location)
    (done : db.remove volume (pathText names) recursive = .ok (after, count)) :
    after.view volume = (db.view volume).cut names := by
  have still := remove_wellFormed sound before exactly done
  obtain ⟨location, removable, reclaimed, -⟩ := remove_ok.mp done
  obtain ⟨others, zone, front, rest, same, at_⟩ := removable.target before
  obtain rfl := pathText_injective valid at_.valid same
  refine view_cut before still valid at_.nonempty fun node => ?_
  rw [nodes_of_remove sound removable reclaimed volume,
    at_.tree_removeRows sound.keys removable (exactly location removable.located)]
  exact Tree.mem_nodes_without before valid at_.nonempty

theorem remove_allowed_iff (sound : Sound db) (before : (db.tree volume).WellFormed)
    (valid : Components names) (recursive : Bool) :
    (∃ result, db.remove volume (pathText names) recursive = .ok result) ↔
      (db.view volume).CanRemove names recursive := by
  unfold FileTree.CanRemove
  constructor
  · rintro ⟨⟨after, count⟩, done⟩
    obtain ⟨location, removable, -⟩ := remove_ok.mp done
    have present : db.view volume names ≠ none := by
      rw [Ne, view_eq_none_iff before valid]
      exact removable.present
    refine ⟨fun root => removable.notRoot (root ▸ pathText_nil), present, ?_⟩
    exact (blockingRows_iff before valid).mp removable.empty
  · rintro ⟨inner, present, empty⟩
    obtain ⟨zone, front, rest, found⟩ := before.located_exists valid
    have located := locateZone_of_located before valid found
    have removable : Removable db volume (pathText names) recursive _ :=
      { canonical := canonicalPath_pathText valid
        notRoot := pathText_ne_root valid inner
        present := by rwa [Ne, ← view_eq_none_iff before valid]
        located := located
        empty := (blockingRows_iff before valid).mpr empty }
    have kept := removeRows_kept (.refl sound) removable
    obtain ⟨after, reclaimed⟩ :=
      reclaimContentSegments_ok kept.sound.store kept.sound.stored volume
    exact ⟨_, remove_ok.mpr ⟨_, removable, reclaimed, rfl⟩⟩

end Remove

end PostgreOS
