/-
Removing.

One path is removed with everything that matches it as a `LIKE` prefix. Several
paths none of which is the root of a zone are removed by one statement that only
touches the named rows; otherwise the paths are removed one after the other.
-/

import PostgreOS.Operations.Move

namespace PostgreOS

open Library.Outcome

/-- Deletes the selected zones and all of their entries; the result counts both. -/
def Database.deleteZoneTrees (db : Database) (volume : Uuid) (selected : ZoneNode → Bool) :
    Database × Nat :=
  let zones := db.zoneNodes.filter selected
  let inside := fun entry : ZoneEntry =>
    decide (entry.volumeId = volume ∧ entry.zoneId ∈ zones.map ZoneNode.id)
  ((db.deleteEntries inside).deleteZones fun zone => selected zone.toZoneNode,
    (db.zoneEntries.filter inside).length + zones.length)

/-- The zones that match `root` as a `LIKE` prefix. -/
def nestedZoneRow (volume : Uuid) (root : Text) (zone : ZoneNode) : Bool :=
  decide (zone.volumeId = volume ∧ likeBelow root zone.path = true)

/-- The deletes of `pgos.remove` for an entry and the number of deleted rows. -/
def Database.removeEntryRows (db : Database) (volume : Uuid) (target : Text)
    (location : Location) (recursive : Bool) : Database × Nat :=
  let nested :=
    if recursive then db.deleteZoneTrees volume (nestedZoneRow volume target) else (db, 0)
  let selected := subtreeRow volume location.zoneId location.relativePath recursive
  (nested.1.deleteEntries selected, nested.2 + (nested.1.zoneEntries.filter selected).length)

/-- The deletes of `pgos.remove` and the number of deleted rows. -/
def Database.removeRows (db : Database) (volume : Uuid) (target : Text) (location : Location)
    (recursive : Bool) : Database × Nat :=
  if location.relativePath = [] then db.deleteZoneTrees volume (zoneRow volume target)
  else db.removeEntryRows volume target location recursive

/-- The rows that keep `pgos.remove` from removing a directory. -/
def Database.blockingRows (db : Database) (volume : Uuid) (target : Text) (recursive : Bool) :
    Result (List NodeRow) :=
  if db.kindOf volume target = some .directory ∧ ¬ recursive then db.list volume target else .ok []

/-- `pgos.remove`. -/
def Database.remove (db : Database) (volume : Uuid) (targetPath : Text) (recursive : Bool) :
    Result (Database × Nat) := do
  let target ← assertPath targetPath
  if target = ['/'] then raise "22023" "cannot remove the volume root" []
  else if db.kindOf volume target = none then raise "P0002" "path does not exist: %" [target]
  else
    let location ← strict (db.locateZone volume target)
    let blocking ← db.blockingRows volume target recursive
    if blocking ≠ [] then raise "2BP01" "directory not empty: %" [target]
    else
      let (remaining, removed) := db.removeRows volume target location recursive
      let after ← remaining.reclaimContentSegments volume
      .ok (after, removed)

/-- The checks of `pgos.remove` before it deletes the rows of `location`. -/
structure Removable (db : Database) (volume : Uuid) (target : Text) (recursive : Bool)
    (location : Location) : Prop where
  canonical : CanonicalPath target
  notRoot : target ≠ ['/']
  present : db.kindOf volume target ≠ none
  located : db.locateZone volume target = some location
  empty : db.blockingRows volume target recursive = .ok []

theorem remove_ok {db after : Database} {volume : Uuid} {targetPath : Text} {recursive : Bool}
    {count : Nat} :
    db.remove volume targetPath recursive = .ok (after, count) ↔
      ∃ location, Removable db volume targetPath recursive location ∧
        (db.removeRows volume targetPath location recursive).1.reclaimContentSegments volume =
          .ok after ∧
        count = (db.removeRows volume targetPath location recursive).2 := by
  unfold Database.remove
  constructor
  · intro done
    obtain ⟨target, accepted, checked⟩ := bind_eq_ok.mp done
    obtain ⟨rfl, canonical⟩ := assertPath_eq_ok accepted
    split at checked
    · cases checked
    · rename_i notRoot
      split at checked
      · cases checked
      · rename_i present
        obtain ⟨location, located, listing⟩ := bind_eq_ok.mp checked
        obtain ⟨listed, listOk, empty⟩ := bind_eq_ok.mp listing
        split at empty
        · cases empty
        · rename_i none
          obtain ⟨last, reclaimed, same⟩ := bind_eq_ok.mp empty
          obtain ⟨rfl, rfl⟩ := Prod.mk.inj (Except.ok.inj same)
          rw [not_not.mp none] at listOk
          exact ⟨location, ⟨canonical, notRoot, present, strict_eq_ok.mp located, listOk⟩,
            reclaimed, rfl⟩
  · rintro ⟨location, removable, reclaimed, rfl⟩
    rw [assertPath_of_canonical removable.canonical, ok_bind, if_neg removable.notRoot,
      if_neg removable.present, removable.located, strict, ok_bind, removable.empty, ok_bind,
      if_neg (fun nonempty => nonempty rfl)]
    dsimp only
    rw [reclaimed]
    rfl

/-- The zone and the relative path to which the bulk statement resolves a path. -/
def Database.resolve (db : Database) (volume : Uuid) (path : Text) : Option Location :=
  (db.locateParent volume path).map fun location => location.child (nameOf path)

/-- The entries that the bulk statement deletes for the resolved paths. -/
def Database.bulkRow (db : Database) (volume : Uuid) (resolved : List Location)
    (recursive : Bool) (entry : ZoneEntry) : Bool :=
  decide (entry.volumeId = volume ∧
    (resolved.any fun location =>
      entry.zoneId = location.zoneId ∧ entry.relativePath = location.relativePath) ∧
    (recursive = true ∨ entry.kind ≠ .directory ∨
      (db.zoneEntries.filter fun child =>
        child.volumeId = volume ∧ child.zoneId = entry.zoneId ∧
          child.parentPath = entry.relativePath) = []))

/-- The bulk branch of `pgos.remove_many`. -/
def Database.removeBulk (db : Database) (volume : Uuid) (targetPaths : List Text)
    (recursive forceMissing : Bool) : Result (Database × Nat) := do
  let cleanPaths ← targetPaths.mapM assertPath
  let selected := db.bulkRow volume (cleanPaths.filterMap (db.resolve volume)) recursive
  let result := (db.zoneEntries.filter selected).length
  if ¬ forceMissing ∧ result ≠ targetPaths.length then
    raise "P0002" "a path does not exist or a directory is not empty" []
  else
    let after ← (db.deleteEntries selected).reclaimContentSegments volume
    .ok (after, result)

theorem removeBulk_ok {db after : Database} {volume : Uuid} {targetPaths : List Text}
    {recursive forceMissing : Bool} {count : Nat} :
    db.removeBulk volume targetPaths recursive forceMissing = .ok (after, count) ↔
      (∀ path ∈ targetPaths, CanonicalPath path) ∧
      count = (db.zoneEntries.filter
        (db.bulkRow volume (targetPaths.filterMap (db.resolve volume)) recursive)).length ∧
      (forceMissing = true ∨ count = targetPaths.length) ∧
      (db.deleteEntries (db.bulkRow volume (targetPaths.filterMap (db.resolve volume))
        recursive)).reclaimContentSegments volume = .ok after := by
  unfold Database.removeBulk
  constructor
  · intro done
    obtain ⟨cleanPaths, accepted, checked⟩ := bind_eq_ok.mp done
    obtain ⟨rfl, canonical⟩ := mapM_assertPath_eq_ok.mp accepted
    dsimp only at checked
    split at checked
    · cases checked
    · rename_i complete
      obtain ⟨last, reclaimed, same⟩ := bind_eq_ok.mp checked
      obtain ⟨rfl, rfl⟩ := Prod.mk.inj (Except.ok.inj same)
      refine ⟨canonical, rfl, ?_, reclaimed⟩
      rw [not_and_or, not_not, not_not] at complete
      exact complete
  · rintro ⟨canonical, rfl, complete, reclaimed⟩
    rw [mapM_assertPath_eq_ok.mpr ⟨rfl, canonical⟩, ok_bind]
    dsimp only
    rw [if_neg, reclaimed]
    · rfl
    · rw [not_and_or, not_not, not_not]
      exact complete

/-- `force_missing AND kind_of(target_volume, path) IS NULL`; `kind_of` checks its path. -/
def Database.skips (db : Database) (volume : Uuid) (forceMissing : Bool) (targetPath : Text) :
    Result Bool :=
  if forceMissing then
    (assertPath targetPath).map fun clean => decide (db.kindOf volume clean = none)
  else .ok false

/-- One path of the loop of `pgos.remove_many`, with the count so far. -/
def removeNext (volume : Uuid) (recursive forceMissing : Bool) (state : Database × Nat)
    (targetPath : Text) : Result (Database × Nat) := do
  let skipped ← state.1.skips volume forceMissing targetPath
  if skipped then .ok state
  else
    let (after, removed) ← state.1.remove volume targetPath recursive
    .ok (after, state.2 + removed)

/-- `pgos.remove_many`. -/
def Database.removeMany (db : Database) (volume : Uuid) (targetPaths : List Text)
    (recursive forceMissing : Bool) : Result (Database × Nat) :=
  match targetPaths with
  | [targetPath] => do
      let skipped ← db.skips volume forceMissing targetPath
      if skipped then .ok (db, 0)
      else db.remove volume targetPath recursive
  | _ => do
      let cleanPaths ← targetPaths.mapM assertPath
      if cleanPaths.all fun path => (db.zonesOf volume).all fun zone => zone.path ≠ path then
        db.removeBulk volume targetPaths recursive forceMissing
      else
        targetPaths.foldlM (removeNext volume recursive forceMissing) (db, 0)

/-- What every single removal keeps and the bulk statement keeps, `remove_many` keeps. -/
theorem removeMany_invariant {db after : Database} {volume : Uuid} {targetPaths : List Text}
    {recursive forceMissing : Bool} {count : Nat} (invariant : Database → Prop)
    (single : ∀ state path next removed, invariant state →
      state.remove volume path recursive = .ok (next, removed) → invariant next)
    (bulk : (∀ path, targetPaths ≠ [path]) →
      (targetPaths.all fun path => (db.zonesOf volume).all fun zone => zone.path ≠ path) = true →
        db.removeBulk volume targetPaths recursive forceMissing = .ok (after, count) →
          invariant after)
    (start : invariant db)
    (done : db.removeMany volume targetPaths recursive forceMissing = .ok (after, count)) :
    invariant after := by
  unfold Database.removeMany at done
  split at done
  · obtain ⟨skipped, -, removing⟩ := bind_eq_ok.mp done
    split at removing
    · obtain ⟨rfl, -⟩ := Prod.mk.inj (Except.ok.inj removing)
      exact start
    · exact single db _ after count start removing
  · rename_i several
    obtain ⟨cleanPaths, accepted, removing⟩ := bind_eq_ok.mp done
    obtain ⟨rfl, -⟩ := mapM_assertPath_eq_ok.mp accepted
    split at removing
    · rename_i noZone
      exact bulk several noZone removing
    · refine foldlM_invariant (fun state : Database × Nat => invariant state.1) ?_ start removing
      intro state path next _ sofar stepped
      unfold removeNext at stepped
      obtain ⟨skipped, -, stepped⟩ := bind_eq_ok.mp stepped
      split at stepped
      · obtain rfl := Except.ok.inj stepped
        exact sofar
      · obtain ⟨⟨last, removed⟩, removeOk, same⟩ := bind_eq_ok.mp stepped
        obtain rfl := Except.ok.inj same
        exact single state.1 path last removed sofar removeOk

end PostgreOS
