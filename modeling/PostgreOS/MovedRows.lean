/-
Moved rows find room.

The unique indexes are checked row by row while an update runs, between rows that have moved
already and rows that have not. Where the patterns are exact no two of them share a key.
-/

import PostgreOS.Moving
import PostgreOS.NewRows

namespace PostgreOS

open Library.Outcome Library.Table

section Moved

variable {db replaced : Database} {volume : Uuid} {names : List Text} {zone : ZoneNode}
  {front inner : List Text} {destination : Text} {sourceLocation destinationParent : Location}
  {parent : ZoneNode} {upper rest : List Text} {name : Text} {now : Timestamp}
  (moving : Relocating db replaced volume names zone front inner sourceLocation destination
    destinationParent parent upper rest name)

include moving

omit moving in
theorem relocatedZone_volume (source : Text) (moved : NodeId) (location : Location)
    (other : ZoneNode) :
    (relocatedZone volume source destination moved location now other).volumeId =
      other.volumeId := by
  unfold relocatedZone rewritten
  split
  · exact (movedZoneNode_columns source destination moved location now other).2.1
  · rfl

section Zones

variable (isZone : sourceLocation.relativePath = [])
  (follow : (db.tree volume).ZonesFollow (pathText names) destination)

include isZone follow

/-- A zone that has moved shares no key with a zone that has not. -/
theorem Relocating.zone_clear {first second : ZoneNode}
    (hFirst : first ∈ (replaced.tree volume).zones) (hSecond : second ∈ replaced.zoneNodes)
    (clear : zoneClash first second = false) :
    zoneClash (relocatedZone volume (pathText names) destination sourceLocation.zoneId
      destinationParent now first) second = false := by
  have renamed := moving.renaming isZone follow now
  obtain ⟨others, firstAt⟩ := moving.wellFormed.zoneAt_of_mem hFirst
  by_cases moves : names <+: others
  · obtain ⟨extra, rfl⟩ := moves
    have noZone (path : second.path = pathText (upper ++ (rest ++ [name]) ++ extra))
        (inTree : second ∈ (replaced.tree volume).zones) : False :=
      moving.wellFormed.free_below moving.free extra .directory
        (.zone ⟨inTree, moving.place.components.append firstAt.valid.right, path⟩)
    unfold zoneClash at clear ⊢
    rw [decide_eq_false_iff_not] at clear ⊢
    rw [renamed.ids first hFirst, renamed.path first extra firstAt, relocatedZone_volume]
    intro clash
    rcases clash with sameId | ⟨sameVolume, samePath | ⟨hangs, sameParent, sameName⟩⟩
    · exact clear (Or.inl sameId)
    · exact noZone samePath.symm
        (mem_tree_zones.mpr ⟨hSecond, sameVolume.symm.trans (mem_tree_zones.mp hFirst).2⟩)
    · have inTree : second ∈ (replaced.tree volume).zones :=
        mem_tree_zones.mpr ⟨hSecond, sameVolume.symm.trans (mem_tree_zones.mp hFirst).2⟩
      by_cases itself : extra = []
      · subst itself
        rw [List.append_nil] at firstAt noZone
        obtain ⟨points, named⟩ := renamed.root first firstAt
        refine noZone ?_ inTree
        rw [← moving.place.path_eq]
        refine zone_path_of_place moving.source.wellFormed moving.place (moving.zones ▸ inTree) ?_ ?_
        · rw [← sameParent, points, moving.place.location_eq]
        · rw [← sameName, named, moving.place.nameOf_eq]
      · obtain ⟨points, named⟩ := renamed.inner first extra firstAt itself
        rw [points] at hangs sameParent
        rw [named] at sameName
        exact clear (Or.inr ⟨sameVolume, Or.inr ⟨hangs, sameParent, sameName⟩⟩)
  · rw [renamed.kept first others firstAt moves, clear]

theorem Relocating.moved_zones_clear {first second : ZoneNode}
    (hFirst : first ∈ (replaced.tree volume).zones) (hSecond : second ∈ (replaced.tree volume).zones)
    (clear : zoneClash first second = false) :
    zoneClash
      (relocatedZone volume (pathText names) destination sourceLocation.zoneId destinationParent now
        first)
      (relocatedZone volume (pathText names) destination sourceLocation.zoneId destinationParent now
        second) = false := by
  have renamed := moving.renaming isZone follow now
  rw [Bool.eq_false_iff]
  intro clash
  have same := (moving.wellFormed_renamed isZone follow now).zone_eq_of_clash
    (List.mem_map_of_mem hFirst) (List.mem_map_of_mem hSecond) clash
  have sameId := congrArg ZoneNode.id same
  rw [renamed.ids first hFirst, renamed.ids second hSecond] at sameId
  rw [clash_of_zone_id sameId] at clear
  cases clear

/-- The update of the zones meets no conflict. -/
theorem Relocating.updateZones_exists (keys : Keys replaced) :
    ∃ after, replaced.updateZones (fun other => zoneRow volume (pathText names) other.toZoneNode)
      (movedZone (pathText names) destination sourceLocation.zoneId destinationParent now) =
        .ok after := by
  have turned {row : Zone} (chosen : zoneRow volume (pathText names) row.toZoneNode = true) :
      (movedZone (pathText names) destination sourceLocation.zoneId destinationParent now
        row).toZoneNode = relocatedZone volume (pathText names) destination sourceLocation.zoneId
          destinationParent now row.toZoneNode := by
    rw [movedZone_toZoneNode, relocatedZone, rewritten_of_selected chosen]
  have inTree {row : Zone} (member : row ∈ replaced.zones)
      (chosen : zoneRow volume (pathText names) row.toZoneNode = true) :
      row.toZoneNode ∈ (replaced.tree volume).zones :=
    mem_tree_zones.mpr ⟨List.mem_map_of_mem member, (of_decide_eq_true chosen).1⟩
  unfold Database.updateZones
  rw [updateRows_of_apart storedZoneClash_comm
    ((distinct_storedZoneClash_iff replaced.zones).mpr keys.zones_distinct)]
  · exact ⟨_, rfl⟩
  · intro row member chosen other otherMember clear
    constructor
    · unfold storedZoneClash
      rw [turned chosen]
      exact moving.zone_clear isZone follow (inTree member chosen) (List.mem_map_of_mem otherMember)
        clear
    · intro otherChosen
      unfold storedZoneClash
      rw [turned chosen, turned otherChosen]
      exact moving.moved_zones_clear isZone follow (inTree member chosen)
        (inTree otherMember otherChosen) clear

end Zones

/-! ### Entries -/

section Entries

variable (isEntry : sourceLocation.relativePath ≠ [])
  (follow : (db.tree volume).EntriesFollow (pathText names) destination sourceLocation)

include isEntry follow

theorem Relocating.spelled_movedEntry {entry : ZoneEntry}
    (member : entry ∈ (replaced.tree volume).entries)
    (chosen : subtreeRow volume sourceLocation.zoneId sourceLocation.relativePath true entry = true) :
    Tree.Spelled (movedEntry destinationParent sourceLocation.relativePath
      (destinationParent.child (nameOf destination)).relativePath (nameOf destination) now entry) :=
  (moving.arriving_movedEntry isEntry follow member chosen).spelled moving.place.valid

theorem Relocating.entry_clear (keys : Keys replaced) {first second : ZoneEntry}
    (hFirst : first ∈ (replaced.tree volume).entries)
    (chosen : subtreeRow volume sourceLocation.zoneId sourceLocation.relativePath true first = true)
    (hSecond : second ∈ replaced.zoneEntries) (clear : entryClash first second = false) :
    entryClash (movedEntry destinationParent sourceLocation.relativePath
      (destinationParent.child (nameOf destination)).relativePath (nameOf destination) now first)
      second = false := by
  rw [Bool.eq_false_iff]
  intro clash
  have sameVolume : first.volumeId = second.volumeId := (of_decide_eq_true clash).1
  have inTree : second ∈ (replaced.tree volume).entries :=
    mem_tree_entries.mpr ⟨hSecond, sameVolume.symm.trans (mem_tree_entries.mp hFirst).2⟩
  have shared := ((moving.spelled_movedEntry isEntry follow hFirst chosen).clash_iff
    (moving.wellFormed.spelled inTree)).mp clash
  rcases shared.2.2 with sameId | samePath
  · have same := (keys.identified volume).entry_eq hFirst inTree sameId
    rw [same, clash_of_entry_path rfl rfl rfl] at clear
    cases clear
  · exact moving.wellFormed.arriving_path_ne moving.parentAt moving.place.valid moving.free
      (moving.arriving_movedEntry isEntry follow hFirst chosen) inTree shared.2.1 samePath

/-- Two rows that have moved share no key. -/
theorem Relocating.moved_entries_clear (keys : Keys replaced) {first second : ZoneEntry}
    (hFirst : first ∈ (replaced.tree volume).entries)
    (chosen : subtreeRow volume sourceLocation.zoneId sourceLocation.relativePath true first = true)
    (hSecond : second ∈ (replaced.tree volume).entries)
    (otherChosen : subtreeRow volume sourceLocation.zoneId sourceLocation.relativePath true second =
      true)
    (clear : entryClash first second = false) :
    entryClash
      (movedEntry destinationParent sourceLocation.relativePath
        (destinationParent.child (nameOf destination)).relativePath (nameOf destination) now first)
      (movedEntry destinationParent sourceLocation.relativePath
        (destinationParent.child (nameOf destination)).relativePath (nameOf destination) now
        second) = false := by
  rw [Bool.eq_false_iff]
  intro clash
  have shared := ((moving.spelled_movedEntry isEntry follow hFirst chosen).clash_iff
    (moving.spelled_movedEntry isEntry follow hSecond otherChosen)).mp clash
  have same : first = second := by
    rcases shared.2.2 with sameId | samePath
    · exact (keys.identified volume).entry_eq hFirst hSecond sameId
    · obtain ⟨owner, above, within, found⟩ := moving.wellFormed.entryAt_of_mem hFirst
      obtain ⟨other, otherAbove, otherWithin, otherFound⟩ := moving.wellFormed.entryAt_of_mem hSecond
      obtain ⟨rfl, extra, rfl⟩ := (moving.selected_iff isEntry follow found).mp chosen
      obtain ⟨rfl, otherExtra, rfl⟩ := (moving.selected_iff isEntry follow otherFound).mp otherChosen
      have paths := (moving.movedEntry_path isEntry found.path).symm.trans
        (samePath.trans (moving.movedEntry_path isEntry otherFound.path))
      have extras := List.append_cancel_left (relativeText_injective
        (moving.place.valid.append found.valid.right)
        (moving.place.valid.append otherFound.valid.right) paths)
      refine moving.wellFormed.entry_paths first hFirst second hSecond
        (found.inZone.trans otherFound.inZone.symm) ?_
      rw [found.path, otherFound.path, extras]
  rw [same, clash_of_entry_path rfl rfl rfl] at clear
  cases clear

theorem Relocating.updateEntries_exists (keys : Keys replaced) :
    ∃ after, replaced.updateEntries
      (subtreeRow volume sourceLocation.zoneId sourceLocation.relativePath true)
      (movedEntry destinationParent sourceLocation.relativePath
        (destinationParent.child (nameOf destination)).relativePath (nameOf destination) now) =
        .ok after := by
  have inTree {row : ZoneEntry} (member : row ∈ replaced.zoneEntries)
      (chosen : subtreeRow volume sourceLocation.zoneId sourceLocation.relativePath true row =
        true) : row ∈ (replaced.tree volume).entries :=
    mem_tree_entries.mpr ⟨member, (of_decide_eq_true chosen).1⟩
  unfold Database.updateEntries
  rw [updateRows_of_apart entryClash_comm keys.entries_distinct]
  · exact ⟨_, rfl⟩
  · intro row member chosen other otherMember clear
    constructor
    · exact moving.entry_clear isEntry follow keys (inTree member chosen) chosen otherMember clear
    · intro otherChosen
      exact moving.moved_entries_clear isEntry follow keys (inTree member chosen) chosen
        (inTree otherMember otherChosen) otherChosen clear

end Entries

end Moved

end PostgreOS
