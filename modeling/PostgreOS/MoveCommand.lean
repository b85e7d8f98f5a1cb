/-
`pgos.move_command` against `pgos.move`.

The command has its own branch for the root of a zone, which adds up the counters of the
zones where the function counts their rows.
-/

import PostgreOS.Accounts
import PostgreOS.Run

namespace PostgreOS

open Library.Outcome Library.Table

theorem Accounts.replaceDestination {db after : Database} {volume : Uuid} {destination : Text}
    (accounts : Accounts db) (done : db.replaceDestination volume destination = .ok after) :
    Accounts after := by
  obtain ⟨-, ⟨-, rfl⟩ | ⟨location, -, rfl⟩⟩ := replaceDestination_ok done
  · exact accounts
  · exact accounts.deleteEntries _

theorem Accounts.length_joined {db : Database} {volume : Uuid} {zones : List Zone}
    (accounts : Accounts db) (stored : ∀ zone ∈ zones, zone ∈ db.zones)
    (inVolume : ∀ zone ∈ zones, zone.volumeId = volume) :
    ((db.zoneEntries.flatMap fun entry =>
      zones.filter fun zone => entry.volumeId = volume ∧ zone.id = entry.zoneId).length : Int) =
      total Zone.entryCount zones := by
  rw [length_eq_total, total_flatMap]
  simp only [total_filter]
  rw [total_comm]
  apply total_congr
  intro zone member
  rw [(accounts zone (stored zone member)).1, entryCountOf_eq_total]
  apply total_congr
  intro entry _
  unfold countWeight
  rw [inVolume zone member]
  by_cases counted : entry.volumeId = volume ∧ entry.zoneId = zone.id
  · rw [if_pos counted, if_pos (by simpa using ⟨counted.1, counted.2.symm⟩)]
  · rw [if_neg counted, if_neg]
    intro chosen
    simp only [decide_eq_true_eq] at chosen
    exact counted ⟨chosen.1, chosen.2.symm⟩

theorem mem_movedZones {db : Database} {volume : Uuid} {source : Text} {zone : Zone}
    (member : zone ∈ db.zones.filter fun zone => zoneRow volume source zone.toZoneNode) :
    zone ∈ db.zones ∧ zone.volumeId = volume := by
  obtain ⟨stored, chosen⟩ := List.mem_filter.mp member
  unfold zoneRow at chosen
  exact ⟨stored, (of_decide_eq_true chosen).1⟩

theorem moveZone_counted {db : Database} (accounts : Accounts db) (volume : Uuid)
    (source destination : Text) (sourceLocation destinationParent : Location) (now : Timestamp) :
    (fun moved : Database × Nat => (moved.1, (moved.2 : Int))) <$>
        db.moveZone volume source destination sourceLocation destinationParent now =
      (fun after => (after,
        ((db.zones.filter fun zone => zoneRow volume source zone.toZoneNode).length : Int) +
          total Zone.entryCount
            (db.zones.filter fun zone => zoneRow volume source zone.toZoneNode))) <$>
        db.updateZones (fun zone => zoneRow volume source zone.toZoneNode)
          (movedZone source destination sourceLocation.zoneId destinationParent now) := by
  unfold Database.moveZone
  rw [← accounts.length_joined (fun zone member => (mem_movedZones member).1)
    (fun zone member => (mem_movedZones member).2)]
  cases db.updateZones (fun zone => zoneRow volume source zone.toZoneNode)
    (movedZone source destination sourceLocation.zoneId destinationParent now) with
  | error error => rfl
  | ok after => rfl

theorem move_of_not_located {db : Database} {volume : Uuid} {source : Text}
    (missing : db.locateZone volume source = none) (destination : Text) (now : Timestamp) :
    (db.move volume source destination now).toOption = none ∧
      (db.moveCommand volume source destination now).toOption = none := by
  unfold Database.move Database.moveCommand
  cases acceptedSource : assertPath source with
  | error error => exact ⟨rfl, rfl⟩
  | ok cleanSource =>
      obtain ⟨rfl, -⟩ := assertPath_eq_ok acceptedSource
      cases assertPath destination with
      | error error => exact ⟨rfl, rfl⟩
      | ok cleanDestination =>
          have unknown : db.kindOf volume cleanSource = none := by
            unfold Database.kindOf
            rw [missing]
          simp only [ok_bind]
          rw [if_pos unknown, missing]
          constructor
          · split <;> rfl
          · rfl

/-- The zone branch of `move_command` checks what `move` checks. -/
theorem moveCommand_of_zone {db : Database} {volume : Uuid} {source destination : Text}
    {now : Timestamp} {location : Location} (accounts : Accounts db)
    (located : db.locateZone volume source = some location)
    (isZone : location.relativePath = []) :
    db.moveCommand volume source destination now =
      (fun moved => (moved.1, (moved.2 : Int))) <$> db.move volume source destination now := by
  unfold Database.move Database.moveCommand
  cases acceptedSource : assertPath source with
  | error error => rfl
  | ok cleanSource =>
      obtain ⟨rfl, -⟩ := assertPath_eq_ok acceptedSource
      cases assertPath destination with
      | error error => rfl
      | ok cleanDestination =>
          have known : db.kindOf volume cleanSource ≠ none := by
            unfold Database.kindOf
            rw [located]
            dsimp only
            rw [if_pos isZone]
            exact Option.some_ne_none _
          simp only [ok_bind]
          rw [if_neg known, located]
          change (if location.relativePath ≠ [] then _ else _) = _
          rw [if_neg (not_not.mpr isZone)]
          split
          · rfl
          · split
            · rfl
            · cases replaced : db.replaceDestination volume cleanDestination with
              | error error => rfl
              | ok after =>
                  simp only [ok_bind]
                  rw [locateZone_replaceDestination replaced, located]
                  cases after.locateParent volume cleanDestination with
                  | none => rfl
                  | some destinationParent =>
                      change _ = _ <$> (if location.relativePath = [] then _ else _)
                      rw [if_pos isZone, moveZone_counted (accounts.replaceDestination replaced)]
                      rfl

/-- Moving by the command is moving: both raise or both return the same count and leave
the same rows. -/
theorem moveCommand_agrees {db : Database} (accounts : Accounts db) (volume : Uuid)
    (source destination : Text) (now : Timestamp) :
    (db.moveCommand volume source destination now).toOption =
      (db.move volume source destination now).toOption.map fun moved =>
        (moved.1, (moved.2 : Int)) := by
  cases located : db.locateZone volume source with
  | none =>
      obtain ⟨moveFails, commandFails⟩ := move_of_not_located located destination now
      rw [moveFails, commandFails]
      rfl
  | some location =>
      by_cases isZone : location.relativePath = []
      · rw [moveCommand_of_zone accounts located isZone]
        cases db.move volume source destination now with
        | error error => rfl
        | ok moved => rfl
      · unfold Database.moveCommand
        cases acceptedSource : assertPath source with
        | error error =>
            unfold Database.move
            rw [acceptedSource]
            rfl
        | ok cleanSource =>
            obtain ⟨rfl, -⟩ := assertPath_eq_ok acceptedSource
            cases accepted : assertPath destination with
            | error error =>
                unfold Database.move
                rw [acceptedSource, accepted]
                rfl
            | ok cleanDestination =>
                obtain ⟨rfl, -⟩ := assertPath_eq_ok accepted
                simp only [ok_bind]
                rw [located]
                change Except.toOption (if location.relativePath ≠ [] then _ else _) = _
                rw [if_pos isZone]
                cases db.move volume cleanSource cleanDestination now with
                | error error => rfl
                | ok moved => rfl

/-- A zone with a file and a directory. -/
def filledZoneCalls : List Op :=
  [.createVolume 7 ['v'] 0,
    .importTree 7 ['/', 'z'] [
      { relativePath := [], kind := 2, content := [], mode := 493, uid := 0, gid := 0
        mtimeSeconds := 0, mtimeNanoseconds := 0, linkTarget := [] },
      { relativePath := ['f'], kind := 1, content := [104, 105], mode := 420, uid := 0, gid := 0
        mtimeSeconds := 0, mtimeNanoseconds := 0, linkTarget := [] },
      { relativePath := ['d'], kind := 2, content := [], mode := 493, uid := 0, gid := 0
        mtimeSeconds := 0, mtimeNanoseconds := 0, linkTarget := [] }] 1]

theorem moveCommand_agrees_filled :
    (((Database.empty.calls filledZoneCalls).move 7 ['/', 'z'] ['/', 'y'] 2).toOption.map Prod.snd =
      some 3) ∧
      ((Database.empty.calls filledZoneCalls).moveCommand 7 ['/', 'z'] ['/', 'y'] 2).toOption =
        ((Database.empty.calls filledZoneCalls).move 7 ['/', 'z'] ['/', 'y'] 2).toOption.map
          fun moved => (moved.1, (moved.2 : Int)) := by
  refine ⟨by decide +kernel, moveCommand_agrees ?_ 7 ['/', 'z'] ['/', 'y'] 2⟩
  unfold Accounts Accounted
  decide +kernel

end PostgreOS
