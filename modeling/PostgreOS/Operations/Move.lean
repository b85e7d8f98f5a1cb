/-
Moving.

Moving the root of a zone rewrites the paths of the zones at or below it; moving an
entry rewrites the rows of its subtree and hands them to the zone of the new parent.
-/

import PostgreOS.Operations.Copy

namespace PostgreOS

open Library.Outcome

/-- Zones at `root` or matching it as a `LIKE` prefix. -/
def zoneRow (volume : Uuid) (root : Text) (zone : ZoneNode) : Bool :=
  decide (zone.volumeId = volume ∧ (zone.path = root ∨ likeBelow root zone.path = true))

/-- The assignments of the update of `zones`. -/
def movedZone (cleanSource cleanDestination : Text) (source : NodeId) (parent : Location)
    (now : Timestamp) (zone : Zone) : Zone :=
  let path := cleanDestination ++ substr zone.path (cleanSource.length + 1)
  if zone.id = source then
    { zone with
      path := path
      parent := some (parent.zoneId, parent.relativePath)
      name := nameOf cleanDestination
      metadata := { zone.metadata with
        ctime := now
        generation := zone.metadata.generation + 1 } }
  else { zone with path := path }

/-- The assignments of the update of `zone_entries`. -/
def movedEntry (parent : Location) (sourceRelative destinationRelative name : Text)
    (now : Timestamp) (entry : ZoneEntry) : ZoneEntry :=
  { entry with
    zoneId := parent.zoneId
    relativePath := rebasedRelative sourceRelative destinationRelative entry.relativePath
    parentPath := relativeParent
      (rebasedRelative sourceRelative destinationRelative entry.relativePath)
    name := if entry.relativePath = sourceRelative then name else entry.name
    metadata := { entry.metadata with
      ctime := now
      generation := entry.metadata.generation + 1 } }

/-- The delete of an entry that the move replaces. -/
def Database.replaceDestination (db : Database) (volume : Uuid) (cleanDestination : Text) :
    Result Database :=
  match db.kindOf volume cleanDestination with
  | some .directory => raise "23505" "destination is a directory: %" [cleanDestination]
  | none => .ok db
  | some _ => do
      let location ← strict (db.locateZone volume cleanDestination)
      .ok (db.deleteEntries (atLocation volume location))

theorem replaceDestination_ok {db after : Database} {volume : Uuid} {destination : Text}
    (done : db.replaceDestination volume destination = .ok after) :
    db.kindOf volume destination ≠ some .directory ∧
    (db.kindOf volume destination = none ∧ after = db ∨
      ∃ location, db.locateZone volume destination = some location ∧
        after = db.deleteEntries (atLocation volume location)) := by
  unfold Database.replaceDestination at done
  split at done
  · cases done
  · rename_i free
    exact ⟨by rw [free]; simp, Or.inl ⟨free, (Except.ok.inj done).symm⟩⟩
  · rename_i kind other found
    obtain ⟨location, located, same⟩ := bind_eq_ok.mp done
    exact ⟨by rw [found]; simpa using other,
      Or.inr ⟨location, strict_eq_ok.mp located, (Except.ok.inj same).symm⟩⟩

theorem locateZone_replaceDestination {db after : Database} {volume : Uuid} {destination : Text}
    (done : db.replaceDestination volume destination = .ok after) (path : Text) :
    after.locateZone volume path = db.locateZone volume path := by
  obtain ⟨-, ⟨-, rfl⟩ | ⟨location, -, rfl⟩⟩ := replaceDestination_ok done
  · rfl
  · exact locateZone_congr (zoneNodes_deleteEntries db _) volume path

/-- The branch of `pgos.move` for the root of a zone. -/
def Database.moveZone (db : Database) (volume : Uuid) (cleanSource cleanDestination : Text)
    (sourceLocation destinationParent : Location) (now : Timestamp) :
    Result (Database × Nat) := do
  let zones := db.zones.filter fun zone => zoneRow volume cleanSource zone.toZoneNode
  let joined := db.zoneEntries.flatMap fun entry =>
    zones.filter fun zone => entry.volumeId = volume ∧ zone.id = entry.zoneId
  let after ← db.updateZones (fun zone => zoneRow volume cleanSource zone.toZoneNode)
    (movedZone cleanSource cleanDestination sourceLocation.zoneId destinationParent now)
  .ok (after, zones.length + joined.length)

/-- The branch of `pgos.move` for an entry. -/
def Database.moveEntry (db : Database) (volume : Uuid) (cleanSource cleanDestination : Text)
    (sourceLocation destinationParent : Location) (now : Timestamp) :
    Result (Database × Nat) :=
  if db.zonesLikeBelow volume cleanSource ≠ [] then
    raise "0A000" "moving an entry with nested zones is not implemented" []
  else do
    let destinationRelative := (destinationParent.child (nameOf cleanDestination)).relativePath
    let selected :=
      subtreeRow volume sourceLocation.zoneId sourceLocation.relativePath true
    let after ← db.updateEntries selected
      (movedEntry destinationParent sourceLocation.relativePath destinationRelative
        (nameOf cleanDestination) now)
    .ok (after, (db.zoneEntries.filter selected).length)

/-- `pgos.move`. -/
def Database.move (db : Database) (volume : Uuid) (sourcePath destinationPath : Text)
    (now : Timestamp) : Result (Database × Nat) := do
  let cleanSource ← assertPath sourcePath
  let cleanDestination ← assertPath destinationPath
  if cleanSource = ['/'] ∨ cleanDestination = cleanSource ∨
      likeBelow cleanSource cleanDestination then
    raise "22023" "cannot move this path" []
  else if db.kindOf volume cleanSource = none then
    raise "P0002" "source does not exist: %" [cleanSource]
  else if db.kindOfParent volume cleanDestination ≠ some .directory then
    raise "P0002" "destination parent does not exist: %" [cleanDestination]
  else
    let db ← db.replaceDestination volume cleanDestination
    let sourceLocation ← strict (db.locateZone volume cleanSource)
    let destinationParent ← strict (db.locateParent volume cleanDestination)
    if sourceLocation.relativePath = [] then
      db.moveZone volume cleanSource cleanDestination sourceLocation destinationParent now
    else
      db.moveEntry volume cleanSource cleanDestination sourceLocation destinationParent now

/-- The checks of `pgos.move` and the state in which it rewrites rows. -/
structure Movable (db replaced : Database) (volume : Uuid) (source destination : Text)
    (sourceLocation destinationParent : Location) : Prop where
  canonical_source : CanonicalPath source
  canonical : CanonicalPath destination
  notRoot : source ≠ ['/']
  apart : destination ≠ source
  notLikeBelow : likeBelow source destination = false
  present : db.kindOf volume source ≠ none
  parent : db.kindOfParent volume destination = some .directory
  replaces : db.replaceDestination volume destination = .ok replaced
  located : replaced.locateZone volume source = some sourceLocation
  parent_located : replaced.locateParent volume destination = some destinationParent

/-- The update by which a move ends, for the root of a zone and for an entry. -/
def Relocated (replaced after : Database) (volume : Uuid) (source destination : Text)
    (sourceLocation destinationParent : Location) (now : Timestamp) : Prop :=
  (sourceLocation.relativePath = [] ∧
    replaced.updateZones (fun zone => zoneRow volume source zone.toZoneNode)
      (movedZone source destination sourceLocation.zoneId destinationParent now) = .ok after) ∨
  (sourceLocation.relativePath ≠ [] ∧ replaced.zonesLikeBelow volume source = [] ∧
    replaced.updateEntries
      (subtreeRow volume sourceLocation.zoneId sourceLocation.relativePath true)
      (movedEntry destinationParent sourceLocation.relativePath
        (destinationParent.child (nameOf destination)).relativePath (nameOf destination) now) =
      .ok after)

theorem moveZone_ok {db after : Database} {volume : Uuid} {source destination : Text}
    {sourceLocation destinationParent : Location} {now : Timestamp} {count : Nat}
    (done : db.moveZone volume source destination sourceLocation destinationParent now =
      .ok (after, count)) :
    db.updateZones (fun zone => zoneRow volume source zone.toZoneNode)
      (movedZone source destination sourceLocation.zoneId destinationParent now) = .ok after := by
  unfold Database.moveZone at done
  obtain ⟨updated, updateOk, same⟩ := bind_eq_ok.mp done
  obtain ⟨rfl, -⟩ := Prod.mk.inj (Except.ok.inj same)
  exact updateOk

theorem moveEntry_ok {db after : Database} {volume : Uuid} {source destination : Text}
    {sourceLocation destinationParent : Location} {now : Timestamp} {count : Nat}
    (done : db.moveEntry volume source destination sourceLocation destinationParent now =
      .ok (after, count)) :
    db.zonesLikeBelow volume source = [] ∧
    db.updateEntries (subtreeRow volume sourceLocation.zoneId sourceLocation.relativePath true)
      (movedEntry destinationParent sourceLocation.relativePath
        (destinationParent.child (nameOf destination)).relativePath (nameOf destination) now) =
      .ok after := by
  unfold Database.moveEntry at done
  split at done
  · cases done
  · rename_i single
    obtain ⟨updated, updateOk, same⟩ := bind_eq_ok.mp done
    obtain ⟨rfl, -⟩ := Prod.mk.inj (Except.ok.inj same)
    exact ⟨not_not.mp single, updateOk⟩

theorem move_ok {db after : Database} {volume : Uuid} {sourcePath destinationPath : Text}
    {now : Timestamp} {count : Nat}
    (done : db.move volume sourcePath destinationPath now = .ok (after, count)) :
    ∃ replaced sourceLocation destinationParent,
      Movable db replaced volume sourcePath destinationPath sourceLocation destinationParent ∧
      Relocated replaced after volume sourcePath destinationPath sourceLocation destinationParent
        now := by
  unfold Database.move at done
  obtain ⟨cleanSource, acceptedSource, checked⟩ := bind_eq_ok.mp done
  obtain ⟨rfl, canonicalSource⟩ := assertPath_eq_ok acceptedSource
  obtain ⟨cleanDestination, accepted, allowed⟩ := bind_eq_ok.mp checked
  obtain ⟨rfl, canonical⟩ := assertPath_eq_ok accepted
  split at allowed
  · cases allowed
  · rename_i separate
    rw [not_or, not_or, Bool.not_eq_true] at separate
    split at allowed
    · cases allowed
    · rename_i exists_
      split at allowed
      · cases allowed
      · rename_i present
        obtain ⟨replaced, replaceOk, locating⟩ := bind_eq_ok.mp allowed
        obtain ⟨sourceLocation, sourceOk, locating⟩ := bind_eq_ok.mp locating
        obtain ⟨destinationParent, parentOk, moving⟩ := bind_eq_ok.mp locating
        refine ⟨replaced, sourceLocation, destinationParent,
          ⟨canonicalSource, canonical, separate.1, separate.2.1, separate.2.2, exists_,
            not_not.mp present, replaceOk, strict_eq_ok.mp sourceOk, strict_eq_ok.mp parentOk⟩, ?_⟩
        split at moving
        · exact Or.inl ⟨‹_›, moveZone_ok moving⟩
        · exact Or.inr ⟨‹_›, moveEntry_ok moving⟩

/-- `pgos.move_command`. A zone is located before the checks, and its entries are
counted by the counters of the zones. -/
def Database.moveCommand (db : Database) (volume : Uuid) (sourcePath destinationPath : Text)
    (now : Timestamp) : Result (Database × Int) := do
  let cleanSource ← assertPath sourcePath
  let cleanDestination ← assertPath destinationPath
  let sourceLocation ← strict (db.locateZone volume cleanSource)
  if sourceLocation.relativePath ≠ [] then
    let (after, moved) ← db.move volume cleanSource cleanDestination now
    .ok (after, (moved : Int))
  else if cleanSource = ['/'] ∨ cleanDestination = cleanSource ∨
      likeBelow cleanSource cleanDestination then
    raise "22023" "cannot move this path" []
  else if db.kindOfParent volume cleanDestination ≠ some .directory then
    raise "P0002" "destination parent does not exist: %" [cleanDestination]
  else
    let db ← db.replaceDestination volume cleanDestination
    let destinationParent ← strict (db.locateParent volume cleanDestination)
    let zones := db.zones.filter fun zone => zoneRow volume cleanSource zone.toZoneNode
    let after ← db.updateZones (fun zone => zoneRow volume cleanSource zone.toZoneNode)
      (movedZone cleanSource cleanDestination sourceLocation.zoneId destinationParent now)
    .ok (after, (zones.length : Int) + Library.Table.total Zone.entryCount zones)

/-- Apart from the count, `move_command` does what `move` does. -/
theorem moveCommand_ok {db after : Database} {volume : Uuid} {sourcePath destinationPath : Text}
    {now : Timestamp} {count : Int}
    (done : db.moveCommand volume sourcePath destinationPath now = .ok (after, count)) :
    ∃ replaced sourceLocation destinationParent,
      Movable db replaced volume sourcePath destinationPath sourceLocation destinationParent ∧
      Relocated replaced after volume sourcePath destinationPath sourceLocation destinationParent
        now := by
  unfold Database.moveCommand at done
  obtain ⟨cleanSource, acceptedSource, checked⟩ := bind_eq_ok.mp done
  obtain ⟨rfl, canonicalSource⟩ := assertPath_eq_ok acceptedSource
  obtain ⟨cleanDestination, accepted, locating⟩ := bind_eq_ok.mp checked
  obtain ⟨rfl, canonical⟩ := assertPath_eq_ok accepted
  obtain ⟨sourceLocation, sourceOk, allowed⟩ := bind_eq_ok.mp locating
  have located := strict_eq_ok.mp sourceOk
  split at allowed
  · obtain ⟨⟨last, moved⟩, moveOk, same⟩ := bind_eq_ok.mp allowed
    obtain ⟨rfl, -⟩ := Prod.mk.inj (Except.ok.inj same)
    exact move_ok moveOk
  · rename_i isZone
    split at allowed
    · cases allowed
    · rename_i separate
      rw [not_or, not_or, Bool.not_eq_true] at separate
      split at allowed
      · cases allowed
      · rename_i present
        obtain ⟨replaced, replaceOk, locating⟩ := bind_eq_ok.mp allowed
        obtain ⟨destinationParent, parentOk, moving⟩ := bind_eq_ok.mp locating
        obtain ⟨updated, updateOk, same⟩ := bind_eq_ok.mp moving
        obtain ⟨rfl, -⟩ := Prod.mk.inj (Except.ok.inj same)
        have exists_ : db.kindOf volume cleanSource ≠ none := by
          unfold Database.kindOf
          rw [located]
          dsimp only
          rw [if_pos (not_not.mp isZone)]
          simp
        refine ⟨replaced, sourceLocation, destinationParent,
          ⟨canonicalSource, canonical, separate.1, separate.2.1, separate.2.2, exists_,
            not_not.mp present, replaceOk, ?_, strict_eq_ok.mp parentOk⟩,
          Or.inl ⟨not_not.mp isZone, updateOk⟩⟩
        rw [locateZone_replaceDestination replaceOk]
        exact located

end PostgreOS
