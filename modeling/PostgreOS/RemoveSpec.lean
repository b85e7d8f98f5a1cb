/-
What `pgos.remove` removes.

The call is meant to remove the nodes at and below its path. It does so exactly where
the unescaped patterns of its selections are exact on the rows of the volume.
-/

import PostgreOS.Removal

namespace PostgreOS

open Library.Table

/-- The nodes at and below `target` are gone, the others are as they were, and the count
is the number of nodes removed. -/
structure RemovedExactly (db after : Database) (volume : Uuid) (target : Text) (count : Nat) :
    Prop where
  gone : ∀ node ∈ after.nodes volume, ¬ AtOrBelow target node.path
  others : ∀ node, ¬ AtOrBelow target node.path →
    (node ∈ after.nodes volume ↔ node ∈ db.nodes volume)
  count : count + (after.nodes volume).length = (db.nodes volume).length

section Remove

variable {db after : Database} {volume : Uuid} {target : Text} {recursive : Bool} {count : Nat}
  {location : Location}

theorem sameStore_deleteZoneTrees (db : Database) (volume : Uuid) (selected : ZoneNode → Bool) :
    SameStore db (db.deleteZoneTrees volume selected).1 :=
  ⟨rfl, rfl, rfl, rfl, rfl, rfl, rfl⟩

theorem sameStore_removeRows (db : Database) (volume : Uuid) (target : Text)
    (location : Location) (recursive : Bool) :
    SameStore db (db.removeRows volume target location recursive).1 := by
  unfold Database.removeRows
  split
  · exact sameStore_deleteZoneTrees db volume _
  · unfold Database.removeEntryRows
    cases recursive <;> exact ⟨rfl, rfl, rfl, rfl, rfl, rfl, rfl⟩

theorem nodes_of_remove (sound : Sound db)
    (removable : Removable db volume target recursive location)
    (reclaimed : (db.removeRows volume target location recursive).1.reclaimContentSegments volume =
      .ok after) (view : Uuid) :
    after.nodes view =
      ((db.removeRows volume target location recursive).1.tree view).nodes db.contentOf := by
  have kept := removeRows_kept (.refl sound) removable
  rw [Reclaimed.nodes (.of_reclaim kept.sound.store kept.sound.stored reclaimed) view,
    Database.nodes, (sameStore_removeRows db volume target location recursive).contentOf]

theorem removeRows_subset (db : Database) (volume view : Uuid) (target : Text)
    (location : Location) (recursive : Bool) :
    ((db.removeRows volume target location recursive).1.tree view).zones ⊆ (db.tree view).zones ∧
      ((db.removeRows volume target location recursive).1.tree view).entries ⊆
        (db.tree view).entries := by
  rw [tree_removeRows]
  exact ⟨List.filter_sublist.subset, List.filter_sublist.subset⟩

/-- The count is the number of rows that are gone. -/
theorem removeRows_length (keys : Keys db)
    (kept : Keys (db.removeRows volume target location recursive).1)
    (content : ZoneEntry → Option Bytes) :
    (db.removeRows volume target location recursive).2 +
        (((db.removeRows volume target location recursive).1.tree volume).nodes content).length =
      (db.nodes volume).length := by
  rw [(kept.identified volume).nodes_length, Database.nodes,
    (keys.identified volume).nodes_length, removeRows_count, tree_removeRows]
  have zones := (db.tree volume).zones.length_eq_length_filter_add
    (removedZone volume target location recursive)
  have entries := (db.tree volume).entries.length_eq_length_filter_add
    (db.removedEntry volume target location recursive)
  have sameZones : (db.tree volume).zones.filter (removedZone volume target location recursive) =
      db.zoneNodes.filter (removedZone volume target location recursive) := by
    change (db.zoneNodes.filter _).filter _ = _
    rw [List.filter_filter]
    apply List.filter_congr
    intro zone _
    rw [Bool.and_eq_left_iff_imp]
    exact fun removed => decide_eq_true (removedZone_volume _ _ _ _ removed)
  have sameEntries : (db.tree volume).entries.filter
      (db.removedEntry volume target location recursive) =
        db.zoneEntries.filter (db.removedEntry volume target location recursive) := by
    change (db.zoneEntries.filter _).filter _ = _
    rw [List.filter_filter]
    apply List.filter_congr
    intro entry _
    rw [Bool.and_eq_left_iff_imp]
    exact fun removed => decide_eq_true (removedEntry_volume _ _ _ _ _ removed)
  rw [sameZones] at zones
  rw [sameEntries] at entries
  dsimp only
  omega

/-! ### Which rows an exact removal removes -/

section Rows

variable (keys : Keys db) (removable : Removable db volume target recursive location)
  {content : ZoneEntry → Option Bytes}
  (gone : ∀ node ∈ ((db.removeRows volume target location recursive).1.tree volume).nodes content,
    ¬ AtOrBelow target node.path)
  (others : ∀ node, ¬ AtOrBelow target node.path →
    node ∈ (db.tree volume).nodes content →
    node ∈ ((db.removeRows volume target location recursive).1.tree volume).nodes content)

include keys gone others

theorem removedZone_iff_of_removed {zone : ZoneNode} (member : zone ∈ (db.tree volume).zones) :
    removedZone volume target location recursive zone = true ↔ AtOrBelow target zone.path := by
  obtain ⟨fewerZones, fewerEntries⟩ :=
    removeRows_subset db volume volume target location recursive
  have stays := (keys.identified volume).nodeOfZone_mem_iff content fewerZones fewerEntries
    member
  have kept : zone ∈ ((db.removeRows volume target location recursive).1.tree volume).zones ↔
      ¬ removedZone volume target location recursive zone = true := by
    rw [tree_removeRows, List.mem_filter, and_iff_right member, Bool.not_eq_true',
      Bool.not_eq_true]
  rw [kept] at stays
  constructor
  · intro removed
    by_contra outside
    exact stays.mp (others (nodeOfZone zone) outside (Tree.nodeOfZone_mem member)) removed
  · intro below
    by_contra notRemoved
    exact gone _ (stays.mpr notRemoved) below

theorem removedEntry_iff_of_removed {entry : ZoneEntry} {zone : ZoneNode}
    (member : entry ∈ (db.tree volume).entries) (zoneMember : zone ∈ (db.tree volume).zones)
    (inZone : zone.id = entry.zoneId) :
    db.removedEntry volume target location recursive entry = true ↔
      AtOrBelow target (absolutePath zone.path entry.relativePath) := by
  obtain ⟨fewerZones, fewerEntries⟩ :=
    removeRows_subset db volume volume target location recursive
  have stays := (keys.identified volume).nodeOfEntry_mem_iff content fewerZones fewerEntries
    member zoneMember inZone
  have kept : entry ∈ ((db.removeRows volume target location recursive).1.tree volume).entries ↔
      ¬ db.removedEntry volume target location recursive entry = true := by
    rw [tree_removeRows, List.mem_filter, and_iff_right member, Bool.not_eq_true',
      Bool.not_eq_true]
  have zoneKept : zone ∈ ((db.removeRows volume target location recursive).1.tree volume).zones ↔
      ¬ removedZone volume target location recursive zone = true := by
    rw [tree_removeRows, List.mem_filter, and_iff_right zoneMember, Bool.not_eq_true',
      Bool.not_eq_true]
  rw [kept, zoneKept] at stays
  constructor
  · intro removed
    by_contra outside
    exact (stays.mp (others _ outside (Tree.nodeOfEntry_mem member zoneMember inZone))).1 removed
  · intro below
    by_contra notRemoved
    refine gone _ (stays.mpr ⟨notRemoved, ?_⟩) below
    -- The entries of a deleted zone are deleted with it.
    intro zoneRemoved
    apply notRemoved
    unfold Database.removedEntry
    rw [Bool.or_eq_true]
    exact Or.inl (decide_eq_true ⟨(mem_tree_entries.mp member).2, List.mem_map.mpr
      ⟨zone, List.mem_filter.mpr ⟨(mem_tree_zones.mp zoneMember).1, zoneRemoved⟩, inZone⟩⟩)

theorem zonesExact_of_removed (deep : location.relativePath = [] ∨ recursive = true) :
    (db.tree volume).ZonesExact target := by
  intro zone member
  have exactly := removedZone_iff_of_removed keys gone others member
  have inVolume := (mem_tree_zones.mp member).2
  have notHere {path : Text} (same : path = target) : likeBelow target path ≠ true := by
    rw [same, likeBelow_self]
    decide
  constructor
  · intro selected
    have removed : removedZone volume target location recursive zone = true := by
      unfold removedZone
      split
      · exact decide_eq_true ⟨inVolume, Or.inr selected⟩
      · rename_i isEntry
        rw [deep.resolve_left isEntry, Bool.true_and]
        exact decide_eq_true ⟨inVolume, selected⟩
    rcases exactly.mp removed with here | below
    · exact absurd selected (notHere here)
    · exact below
  · intro below
    have removed := exactly.mpr (Or.inr below)
    unfold removedZone at removed
    split at removed
    · rcases (of_decide_eq_true removed).2 with here | selected
      · rw [here] at below
        exact absurd below (not_below_self target)
      · exact selected
    · rw [Bool.and_eq_true] at removed
      exact (of_decide_eq_true removed.2).2

theorem entriesExact_of_removed {names front inner : List Text} {zone : ZoneNode}
    (at_ : Target db volume names zone front inner location) (same : target = pathText names)
    (isEntry : location.relativePath ≠ []) (deep : recursive = true) :
    (db.tree volume).EntriesExact location := by
  have innerNonempty : inner ≠ [] := fun empty => isEntry (at_.relativePath_eq_nil_iff.mpr empty)
  have innerValid := at_.located.components at_.valid
  have zonesExact := zonesExact_of_removed keys gone others (Or.inr deep)
  have path : location.relativePath = relativeText inner := by rw [at_.location_eq]
  intro entry member sameZone
  obtain ⟨owner, upper, rest, found⟩ := at_.wellFormed.entryAt_of_mem member
  have inVolume := (mem_tree_entries.mp member).2
  obtain rfl : owner = zone := by
    apply at_.wellFormed.zone_ids owner found.zoneAt.member zone at_.located.zoneAt.member
    rw [← found.inZone, sameZone, at_.location_eq]
  obtain rfl := found.zoneAt.names_unique at_.located.zoneAt
  have exactly := removedEntry_iff_of_removed keys gone others member found.zoneAt.member
    found.inZone.symm
  have whole : AtOrBelow target (absolutePath owner.path entry.relativePath) ↔ inner <+: rest := by
    rw [same, found.atOrBelow_iff at_.valid at_.nonempty, at_.located.names_eq,
      List.prefix_append_right_inj]
  rw [whole] at exactly
  -- The zone of the path is above it and stays.
  have zoneStays : db.inRemovedZone volume target location recursive entry = false := by
    rw [Bool.eq_false_iff]
    intro inRemoved
    obtain ⟨-, listed⟩ := of_decide_eq_true inRemoved
    obtain ⟨removed, removedMember, removedId⟩ := List.mem_map.mp listed
    obtain ⟨inTable, chosen⟩ := List.mem_filter.mp removedMember
    obtain rfl := keys.zone_eq_of_id (mem_tree_zones.mp found.zoneAt.member).1 inTable
      (found.inZone.symm.trans removedId.symm)
    rw [deep, removedZone_of_entry _ _ _ isEntry] at chosen
    have below := (zonesExact owner found.zoneAt.member).mp (of_decide_eq_true chosen).2
    rw [same, found.zoneAt.below_iff at_.valid at_.nonempty, at_.located.names_eq] at below
    have shorter := below.1.length_le
    have positive := List.length_pos_of_ne_nil innerNonempty
    rw [List.length_append] at shorter
    omega
  have removedIff : db.removedEntry volume target location recursive entry = true ↔
      entry.relativePath = location.relativePath ∨
        likeBelow location.relativePath entry.relativePath = true := by
    unfold Database.removedEntry subtreeRow
    rw [zoneStays, Bool.false_or, decide_eq_true isEntry, Bool.true_and, decide_eq_true_eq]
    constructor
    · rintro ⟨-, -, here | ⟨-, selected⟩⟩
      · exact Or.inl here
      · exact Or.inr selected
    · rintro (here | selected)
      · exact ⟨inVolume, sameZone, Or.inl here⟩
      · exact ⟨inVolume, sameZone, Or.inr ⟨deep, selected⟩⟩
  rw [removedIff] at exactly
  have below : Below location.relativePath entry.relativePath ↔ inner <+: rest ∧ inner ≠ rest := by
    rw [path, found.path]
    exact below_relativeText_iff innerValid found.valid innerNonempty
  have here : entry.relativePath = location.relativePath ↔ rest = inner := by
    rw [path, found.path]
    constructor
    · exact relativeText_injective found.valid innerValid
    · rintro rfl
      rfl
  rw [below]
  constructor
  · intro selected
    refine ⟨exactly.mp (Or.inr selected), ?_⟩
    intro itself
    rw [here.mpr itself.symm, likeBelow_self] at selected
    cases selected
  · rintro ⟨isPrefix, apart⟩
    exact (exactly.mpr isPrefix).resolve_left fun itself => apart (here.mp itself).symm

end Rows

/-- `pgos.remove` removes the nodes at and below its path and no others, and counts them,
if and only if the patterns that it evaluates are exact on the rows of the volume. -/
theorem remove_exact_iff (state : WellFormedVolume db volume)
    (done : db.remove volume target recursive = .ok (after, count)) :
    RemovedExactly db after volume target count ↔
      ∀ location, db.locateZone volume target = some location →
        RemoveExact db volume target recursive location := by
  have sound := state.committed.sound
  obtain ⟨location, removable, reclaimed, rfl⟩ := remove_ok.mp done
  have kept := removeRows_kept (.refl sound) removable
  have nodes := nodes_of_remove sound removable reclaimed volume
  obtain ⟨names, zone, front, inner, same, at_⟩ := removable.target state.tree
  have only : (∀ location, db.locateZone volume target = some location →
      RemoveExact db volume target recursive location) ↔
        RemoveExact db volume target recursive location := by
    constructor
    · exact fun every => every location removable.located
    · intro exactly other located
      rwa [← Option.some.inj (removable.located.symm.trans located)]
  rw [only]
  constructor
  · rintro ⟨gone, others, -⟩
    rw [nodes] at gone
    have stay : ∀ node, ¬ AtOrBelow target node.path →
        node ∈ (db.tree volume).nodes db.contentOf →
        node ∈ ((db.removeRows volume target location recursive).1.tree volume).nodes
          db.contentOf := by
      intro node outside member
      rw [← nodes]
      exact (others node outside).mpr member
    exact ⟨zonesExact_of_removed sound.keys gone stay,
      entriesExact_of_removed sound.keys gone stay at_ same⟩
  · intro exactly
    subst same
    have tree := at_.tree_removeRows sound.keys removable exactly
    have membership {node : Node} : node ∈ after.nodes volume ↔
        node ∈ db.nodes volume ∧ ¬ AtOrBelow (pathText names) node.path := by
      rw [nodes, tree]
      exact Tree.mem_nodes_without state.tree at_.valid at_.nonempty
    constructor
    · exact fun node member => (membership.mp member).2
    · exact fun node outside => membership.trans (and_iff_left outside)
    · rw [nodes]
      exact removeRows_length sound.keys kept.sound.keys db.contentOf

end Remove

def wildcardRemoved : Database :=
  Database.empty.calls (wildcardCalls ++ [.remove 7 ['/', 'a', '_'] true])

theorem remove_exact_of_plain :
    RemovedExactly (Database.empty.calls wildcardCalls)
      (Database.empty.calls (wildcardCalls ++ [.remove 7 ['/', 'a', 'b'] true])) 7
      ['/', 'a', 'b'] 2 := by
  have done : (Database.empty.calls wildcardCalls).remove 7 ['/', 'a', 'b'] true =
      .ok (Database.empty.calls (wildcardCalls ++ [.remove 7 ['/', 'a', 'b'] true]), 2) := by
    decide +kernel
  refine (remove_exact_iff (wellFormed_calls (by decide +kernel)) done).mpr ?_
  intro location located
  have here : (Database.empty.calls wildcardCalls).locateZone 7 ['/', 'a', 'b'] =
      some { zoneId := 1, zonePath := ['/'], relativePath := ['a', 'b'] } := by decide +kernel
  obtain rfl := Option.some.inj (here.symm.trans located)
  decide +kernel

/-- Removing `/a_` also removes `/ab/c`. -/
theorem remove_not_exact :
    ¬ ∀ (db after : Database) (volume : Uuid) (target : Text) (recursive : Bool) (count : Nat),
      WellFormedVolume db volume → db.remove volume target recursive = .ok (after, count) →
        RemovedExactly db after volume target count := by
  intro every
  have exactly := every (Database.empty.calls wildcardCalls) wildcardRemoved 7 ['/', 'a', '_'] true 2
    (wellFormed_calls (by decide +kernel)) (by decide +kernel)
  have lost : ∃ node ∈ (Database.empty.calls wildcardCalls).nodes 7,
      ¬ AtOrBelow ['/', 'a', '_'] node.path ∧ node ∉ wildcardRemoved.nodes 7 := by
    decide +kernel
  obtain ⟨node, member, outside, gone⟩ := lost
  exact gone ((exactly.others node outside).mpr member)

end PostgreOS
