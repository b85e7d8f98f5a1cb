/-
Copying.

A copied zone becomes a new zone with the same entries. A copied entry brings
along the entries that match its path as a `LIKE` prefix. Content objects are
shared between the original and the copy.
-/

import PostgreOS.Library.LikePattern
import PostgreOS.Operations.Imports

namespace PostgreOS

open Library.LikePattern Library.Outcome

/-- `path LIKE root || '/%'`; the characters of `root` are not escaped. -/
def likeBelow (root path : Text) : Bool :=
  like (root ++ ['/', '%']) path

theorem count_lt_of_likeBelow {root path : Text} (selected : likeBelow root path = true) :
    root.count '/' < path.count '/' := by
  have slashes := count_le_of_like '/' (by decide) (root ++ ['/', '%']) path selected
  rw [List.count_append] at slashes
  have one : List.count '/' ['/', '%'] = 1 := by decide
  omega

theorem likeBelow_self (path : Text) : likeBelow path path = false := by
  rw [Bool.eq_false_iff]
  intro selected
  exact Nat.lt_irrefl _ (count_lt_of_likeBelow selected)

theorem likeBelow_append {root path : Text} (selected : likeBelow root path = true) (more : Text) :
    likeBelow root (path ++ more) = true :=
  like_append_of_percent (by decide) root path more selected

/-- The zones that `path LIKE root || '/%'` selects. -/
def Database.zonesLikeBelow (db : Database) (volume : Uuid) (root : Text) : List Zone :=
  db.zones.filter fun zone => zone.volumeId = volume ∧ likeBelow root zone.path

def Metadata.copied (metadata : Metadata) (now : Timestamp) : Metadata :=
  { metadata with ctime := now, generation := 1 }

/-- The zone that a copied zone becomes; its generation is the column default. -/
def copiedZone (volume : Uuid) (parent : Location) (path : Text) (now : Timestamp)
    (source : Zone) (id : NodeId) : ZoneNode :=
  { id := id
    volumeId := volume
    path := path
    parent := some (parent.zoneId, parent.relativePath)
    name := nameOf path
    metadata := source.metadata.copied now }

/-- An entry of a copied zone. -/
def copiedZoneEntry (volume : Uuid) (zone : NodeId) (now : Timestamp) (source : ZoneEntry)
    (id : NodeId) : ZoneEntry :=
  { source with
    id := id
    volumeId := volume
    zoneId := zone
    metadata := source.metadata.copied now }

/-- The relative path of an entry after its ancestor `sourceRelative` has become
`destinationRelative`. -/
def rebasedRelative (sourceRelative destinationRelative path : Text) : Text :=
  destinationRelative ++ substr path (sourceRelative.length + 1)

/-- An entry of a copied subtree. -/
def copiedEntry (volume : Uuid) (parent : Location) (sourceRelative destinationRelative : Text)
    (name : Text) (now : Timestamp) (source : ZoneEntry) (id : NodeId) : ZoneEntry :=
  { source with
    id := id
    volumeId := volume
    zoneId := parent.zoneId
    relativePath := rebasedRelative sourceRelative destinationRelative source.relativePath
    parentPath := relativeParent
      (rebasedRelative sourceRelative destinationRelative source.relativePath)
    name := if source.relativePath = sourceRelative then name else source.name
    metadata := source.metadata.copied now }

/-- The rows of `zone` at `relative` and, where `recursive`, those that match it as
a `LIKE` prefix. -/
def subtreeRow (volume : Uuid) (zone : NodeId) (relative : Text) (recursive : Bool)
    (entry : ZoneEntry) : Bool :=
  decide (entry.volumeId = volume ∧ entry.zoneId = zone ∧
    (entry.relativePath = relative ∨
      recursive = true ∧ likeBelow relative entry.relativePath = true))

/-- The branch of `pgos.copy` for the root of a zone. -/
def Database.copyZone (db : Database) (volume : Uuid) (cleanSource cleanDestination : Text)
    (sourceLocation destinationParent : Location) (recursive : Bool) (now : Timestamp) :
    Result (Database × Nat) :=
  if ¬ recursive then raise "22023" "omitting directory: %" [cleanSource]
  else if db.zonesLikeBelow volume cleanSource ≠ [] then
    raise "0A000" "copying nested zones is not implemented" []
  else do
    let source ← strict (db.zones.find? fun zone => zone.id = sourceLocation.zoneId)
    let (after, newZoneId) ← db.insertZone
      (copiedZone volume destinationParent cleanDestination now source)
    let rows := after.zoneEntries.filter fun entry =>
      entry.volumeId = volume ∧ entry.zoneId = sourceLocation.zoneId
    let after ← after.insertEntries (rows.map (copiedZoneEntry volume newZoneId now))
    .ok (after, rows.length + 1)

/-- The rows that a copied zone gets. -/
def Database.copiedZoneRows (db : Database) (volume : Uuid) (source zone : NodeId)
    (now : Timestamp) : List (NodeId → ZoneEntry) :=
  (db.zoneEntries.filter fun entry => entry.volumeId = volume ∧ entry.zoneId = source).map
    (copiedZoneEntry volume zone now)

theorem copyZone_ok {db after : Database} {volume : Uuid} {cleanSource cleanDestination : Text}
    {sourceLocation destinationParent : Location} {recursive : Bool} {now : Timestamp}
    {count : Nat}
    (done : db.copyZone volume cleanSource cleanDestination sourceLocation destinationParent
      recursive now = .ok (after, count)) :
    recursive = true ∧ db.zonesLikeBelow volume cleanSource = [] ∧ ∃ source inserted zone,
      db.zones.find? (fun zone => zone.id = sourceLocation.zoneId) = some source ∧
      db.insertZone (copiedZone volume destinationParent cleanDestination now source) =
        .ok (inserted, zone) ∧
      inserted.insertEntries (db.copiedZoneRows volume sourceLocation.zoneId zone now) =
        .ok after ∧
      count = (db.copiedZoneRows volume sourceLocation.zoneId zone now).length + 1 := by
  unfold Database.copyZone at done
  split at done
  · cases done
  · rename_i allowed
    split at done
    · cases done
    · rename_i single
      obtain ⟨source, found, inserting⟩ := bind_eq_ok.mp done
      obtain ⟨⟨inserted, zone⟩, zoneOk, filling⟩ := bind_eq_ok.mp inserting
      obtain ⟨filled, fillOk, same⟩ := bind_eq_ok.mp filling
      obtain ⟨rfl, rfl⟩ := Prod.mk.inj (Except.ok.inj same)
      have rows : inserted.zoneEntries = db.zoneEntries := by rw [(insertZone_ok zoneOk).1]
      rw [rows] at fillOk
      rw [rows]
      refine ⟨not_not.mp allowed, not_not.mp single, source, inserted, zone,
        strict_eq_ok.mp found, zoneOk, fillOk, ?_⟩
      rw [Database.copiedZoneRows, List.length_map]

/-- The branch of `pgos.copy` for an entry. -/
def Database.copyEntry (db : Database) (volume : Uuid) (cleanSource cleanDestination : Text)
    (sourceLocation destinationParent : Location) (recursive : Bool) (now : Timestamp) :
    Result (Database × Nat) :=
  match db.entryAt volume sourceLocation with
  | none => raise "P0002" "source does not exist: %" [cleanSource]
  | some sourceEntry =>
      if sourceEntry.kind = .directory ∧ ¬ recursive then
        raise "22023" "omitting directory: %" [cleanSource]
      else if sourceEntry.kind = .directory ∧ db.zonesLikeBelow volume cleanSource ≠ [] then
        raise "0A000" "copying nested zones is not implemented" []
      else do
        let destinationRelative := (destinationParent.child (nameOf cleanDestination)).relativePath
        let rows := db.zoneEntries.filter
          (subtreeRow volume sourceLocation.zoneId sourceLocation.relativePath recursive)
        let after ← db.insertEntries (rows.map
          (copiedEntry volume destinationParent sourceLocation.relativePath destinationRelative
            (nameOf cleanDestination) now))
        .ok (after, rows.length)

/-- The rows that a copied entry gets. -/
def Database.copiedRows (db : Database) (volume : Uuid) (sourceLocation : Location)
    (destinationParent : Location) (name : Text) (recursive : Bool) (now : Timestamp) :
    List (NodeId → ZoneEntry) :=
  (db.zoneEntries.filter
    (subtreeRow volume sourceLocation.zoneId sourceLocation.relativePath recursive)).map
    (copiedEntry volume destinationParent sourceLocation.relativePath
      (destinationParent.child name).relativePath name now)

theorem copyEntry_ok {db after : Database} {volume : Uuid} {cleanSource cleanDestination : Text}
    {sourceLocation destinationParent : Location} {recursive : Bool} {now : Timestamp}
    {count : Nat}
    (done : db.copyEntry volume cleanSource cleanDestination sourceLocation destinationParent
      recursive now = .ok (after, count)) :
    (∃ source, db.entryAt volume sourceLocation = some source ∧
      (source.kind = .directory → recursive = true ∧ db.zonesLikeBelow volume cleanSource = [])) ∧
    db.insertEntries (db.copiedRows volume sourceLocation destinationParent
      (nameOf cleanDestination) recursive now) = .ok after ∧
    count = (db.copiedRows volume sourceLocation destinationParent
      (nameOf cleanDestination) recursive now).length := by
  unfold Database.copyEntry at done
  split at done
  · cases done
  · rename_i source found
    split at done
    · cases done
    · rename_i allowed
      split at done
      · cases done
      · rename_i single
        obtain ⟨inserted, insertOk, same⟩ := bind_eq_ok.mp done
        obtain ⟨rfl, rfl⟩ := Prod.mk.inj (Except.ok.inj same)
        refine ⟨⟨source, found, fun directory => ⟨?_, ?_⟩⟩, insertOk, ?_⟩
        · by_contra plain
          exact allowed ⟨directory, plain⟩
        · by_contra nested
          exact single ⟨directory, nested⟩
        · rw [Database.copiedRows, List.length_map]

/-- `pgos.copy`. -/
def Database.copy (db : Database) (volume : Uuid) (sourcePath destinationPath : Text)
    (recursive : Bool) (now : Timestamp) : Result (Database × Nat) := do
  let cleanSource ← assertPath sourcePath
  let cleanDestination ← assertPath destinationPath
  if cleanSource = ['/'] ∨ cleanDestination = cleanSource ∨
      likeBelow cleanSource cleanDestination then
    raise "22023" "cannot copy this path" []
  else if db.kindOf volume cleanDestination ≠ none then
    raise "23505" "destination exists: %" [cleanDestination]
  else if db.kindOfParent volume cleanDestination ≠ some .directory then
    raise "P0002" "destination parent does not exist: %" [cleanDestination]
  else
    let sourceLocation ← strict (db.locateZone volume cleanSource)
    let destinationParent ← strict (db.locateParent volume cleanDestination)
    if sourceLocation.relativePath = [] then
      db.copyZone volume cleanSource cleanDestination sourceLocation destinationParent recursive now
    else
      db.copyEntry volume cleanSource cleanDestination sourceLocation destinationParent recursive
        now

/-- The checks of `pgos.copy` before it reads the rows of the source. -/
structure Copyable (db : Database) (volume : Uuid) (source destination : Text)
    (sourceLocation destinationParent : Location) : Prop where
  canonical : CanonicalPath source
  notRoot : source ≠ ['/']
  apart : destination ≠ source
  notLikeBelow : likeBelow source destination = false
  located : db.locateZone volume source = some sourceLocation
  vacant : Vacant db volume destination destinationParent

theorem copy_ok {db after : Database} {volume : Uuid} {sourcePath destinationPath : Text}
    {recursive : Bool} {now : Timestamp} {count : Nat}
    (done : db.copy volume sourcePath destinationPath recursive now = .ok (after, count)) :
    ∃ sourceLocation destinationParent,
      Copyable db volume sourcePath destinationPath sourceLocation destinationParent ∧
      (sourceLocation.relativePath = [] ∧ db.copyZone volume sourcePath destinationPath
          sourceLocation destinationParent recursive now = .ok (after, count) ∨
        sourceLocation.relativePath ≠ [] ∧ db.copyEntry volume sourcePath destinationPath
          sourceLocation destinationParent recursive now = .ok (after, count)) := by
  unfold Database.copy at done
  obtain ⟨cleanSource, acceptedSource, checked⟩ := bind_eq_ok.mp done
  obtain ⟨rfl, canonicalSource⟩ := assertPath_eq_ok acceptedSource
  obtain ⟨cleanDestination, accepted, allowed⟩ := bind_eq_ok.mp checked
  obtain ⟨rfl, canonical⟩ := assertPath_eq_ok accepted
  split at allowed
  · cases allowed
  · rename_i separate
    rw [not_or, not_or, Bool.not_eq_true] at separate
    split at allowed
    · cases allowed
    · rename_i free
      split at allowed
      · cases allowed
      · rename_i present
        obtain ⟨sourceLocation, sourceOk, locating⟩ := bind_eq_ok.mp allowed
        obtain ⟨destinationParent, parentOk, copying⟩ := bind_eq_ok.mp locating
        refine ⟨sourceLocation, destinationParent,
          ⟨canonicalSource, separate.1, separate.2.1, separate.2.2, strict_eq_ok.mp sourceOk,
            canonical, not_not.mp free, not_not.mp present, strict_eq_ok.mp parentOk⟩, ?_⟩
        split at copying
        · exact Or.inl ⟨‹_›, copying⟩
        · exact Or.inr ⟨‹_›, copying⟩

end PostgreOS
