/-
Places of new rows.

A path whose parent is a directory has a place: the zone of the parent, the directory
in it and the last component. What the path names is the zone at it or the entry at its
place, and nothing else.
-/

import PostgreOS.Nodes
import PostgreOS.TreeMove

namespace PostgreOS

namespace Tree

variable {tree : Tree}

theorem ZoneAt.names_unique {zone : ZoneNode} {front names : List Text}
    (hFront : tree.ZoneAt zone front) (hNames : tree.ZoneAt zone names) : front = names :=
  pathText_injective hFront.valid hNames.valid (hFront.path.symm.trans hNames.path)

theorem Located.entryAt_child (wellFormed : tree.WellFormed) {zone owner : ZoneNode}
    {upper rest front inner : List Text} {name : Text} {entry : ZoneEntry}
    (located : tree.Located (upper ++ rest) zone upper rest)
    (found : tree.EntryAt owner entry front inner)
    (same : front ++ inner = upper ++ (rest ++ [name])) :
    owner = zone ∧ front = upper ∧ inner = rest ++ [name] := by
  have isPrefix : front <+: upper ++ rest := by
    obtain ⟨before, last, rfl⟩ := (List.eq_nil_or_concat' inner).resolve_left found.nonempty
    rw [← List.append_assoc, ← List.append_assoc] at same
    rw [← (List.append_inj' same rfl).1]
    exact List.prefix_append front before
  have left := located.deepest owner front found.zoneAt isPrefix
  have right := wellFormed.zone_prefix found located.zoneAt
    (same.symm ▸ List.prefix_append upper (rest ++ [name]))
  obtain rfl := left.eq_of_length (Nat.le_antisymm left.length_le right.length_le)
  exact ⟨wellFormed.zoneAt_unique found.zoneAt located.zoneAt, rfl, List.append_cancel_left same⟩

/-- `path` is the child `name` of the directory `rest` of `zone`, which is at `upper`. -/
structure Place (tree : Tree) (path : Text) (location : Location) (zone : ZoneNode)
    (upper rest : List Text) (name : Text) : Prop where
  located : tree.Located (upper ++ rest) zone upper rest
  valid : Components (rest ++ [name])
  path_eq : path = pathText (upper ++ (rest ++ [name]))
  location_eq : location =
    { zoneId := zone.id, zonePath := zone.path, relativePath := relativeText rest }
  inside : tree.DirectoryIn zone.id (relativeText rest)

section Place

variable {path : Text} {location : Location} {zone : ZoneNode} {upper rest : List Text} {name : Text}
  (place : tree.Place path location zone upper rest name)

include place

theorem Place.zoneAt : tree.ZoneAt zone upper :=
  place.located.zoneAt

theorem Place.components : Components (upper ++ (rest ++ [name])) :=
  place.zoneAt.valid.append place.valid

theorem Place.nameOf_eq : nameOf path = name := by
  have valid := place.components
  rw [← List.append_assoc] at valid
  rw [place.path_eq, ← List.append_assoc]
  exact nameOf_pathText valid

theorem Place.child_eq : location.child (nameOf path) =
    { zoneId := zone.id
      zonePath := zone.path
      relativePath := relativeText (rest ++ [name]) } := by
  rw [place.nameOf_eq, place.location_eq, Location.child,
    childRelative_texts place.valid.left]

theorem Place.entryAt (wellFormed : tree.WellFormed) {owner : ZoneNode} {entry : ZoneEntry}
    {front inner : List Text} (found : tree.EntryAt owner entry front inner)
    (same : front ++ inner = upper ++ (rest ++ [name])) :
    owner = zone ∧ front = upper ∧ inner = rest ++ [name] :=
  place.located.entryAt_child wellFormed found same

theorem Place.has_iff (wellFormed : tree.WellFormed) {kind : Kind} :
    tree.Has (upper ++ (rest ++ [name])) kind ↔
      (∃ other, tree.ZoneAt other (upper ++ (rest ++ [name]))) ∧ kind = .directory ∨
        ∃ entry, tree.EntryAt zone entry upper (rest ++ [name]) ∧ entry.kind = kind := by
  constructor
  · intro has
    generalize whole : upper ++ (rest ++ [name]) = names at has ⊢
    cases has with
    | zone found => exact Or.inl ⟨⟨_, found⟩, rfl⟩
    | entry found =>
        obtain ⟨rfl, rfl, rfl⟩ := place.entryAt wellFormed found whole.symm
        exact Or.inr ⟨_, found, rfl⟩
  · rintro (⟨⟨other, found⟩, rfl⟩ | ⟨entry, found, rfl⟩)
    · exact .zone found
    · exact .entry found

end Place

end Tree

section Places

variable {db : Database} {volume : Uuid} {path : Text} {location : Location}

theorem located_of_locateZone (wellFormed : (db.tree volume).WellFormed)
    (canonical : CanonicalPath path) (located : db.locateZone volume path = some location) :
    ∃ names zone front inner, Components names ∧ path = pathText names ∧
      (db.tree volume).Located names zone front inner ∧ location =
        { zoneId := zone.id, zonePath := zone.path, relativePath := relativeText inner } := by
  obtain ⟨names, valid, rfl⟩ := (canonicalPath_iff path).mp canonical
  obtain ⟨zone, front, inner, found⟩ := wellFormed.located_exists valid
  rw [locateZone_of_located wellFormed valid found] at located
  exact ⟨names, zone, front, inner, valid, rfl, found, (Option.some.inj located).symm⟩

theorem entryAt_zone (wellFormed : (db.tree volume).WellFormed) {location : Location}
    (root : location.relativePath = []) : db.entryAt volume location = none := by
  rw [Option.eq_none_iff_forall_ne_some]
  intro entry found
  obtain ⟨member, -, path⟩ := mem_of_entryAt found
  obtain ⟨names, valid, nonempty, same⟩ :=
    (canonicalRelative_iff _).mp (wellFormed.entry_canonical entry member)
  apply relativeText_ne_nil valid nonempty
  rw [← same, path, root]

/-- The child of the location of a directory path is the file at the child path. -/
theorem entryAt_child_of_located (wellFormed : (db.tree volume).WellFormed) {front : List Text}
    {name : Text} (valid : Components (front ++ [name])) {location : Location}
    (located : db.locateZone volume (pathText front) = some location) :
    db.entryAt volume (location.child name) =
      (db.locateZone volume (pathText (front ++ [name]))).bind (db.entryAt volume) := by
  obtain ⟨zone, upper, rest, parentAt⟩ := wellFormed.located_exists valid.left
  rw [locateZone_of_located wellFormed valid.left parentAt] at located
  obtain rfl := (Option.some.inj located).symm
  obtain rfl := parentAt.names_eq
  rw [List.append_assoc] at valid ⊢
  have child : ({ zoneId := zone.id
                  zonePath := zone.path
                  relativePath := relativeText rest } : Location).child name =
      { zoneId := zone.id, zonePath := zone.path, relativePath := relativeText (rest ++ [name]) } := by
    rw [Location.child, childRelative_texts valid.right.left]
  rw [child]
  obtain ⟨owner, above, inner, found⟩ := wellFormed.located_exists valid
  rw [locateZone_of_located wellFormed valid found, Option.bind_some]
  ext entry
  constructor
  · intro here
    obtain ⟨member, inZone, path⟩ := mem_of_entryAt here
    have entryAt : (db.tree volume).EntryAt zone entry upper (rest ++ [name]) :=
      ⟨parentAt.zoneAt, member, inZone, valid.right, by simp, path⟩
    obtain ⟨rfl, rfl, rfl⟩ :=
      wellFormed.located_unique found (wellFormed.located_of_entryAt entryAt)
    exact here
  · intro here
    have innerValid := found.components valid
    have nonempty : inner ≠ [] := by
      rintro rfl
      rw [entryAt_zone wellFormed relativeText_nil] at here
      cases here
    obtain ⟨member, inZone, path⟩ := mem_of_entryAt here
    have entryAt : (db.tree volume).EntryAt owner entry above inner :=
      ⟨found.zoneAt, member, inZone, innerValid, nonempty, path⟩
    obtain ⟨rfl, rfl, rfl⟩ := parentAt.entryAt_child wellFormed entryAt found.names_eq.symm
    exact here

theorem entryAt_child_of_parent (wellFormed : (db.tree volume).WellFormed) {path : Text}
    (canonical : CanonicalPath path) {location : Location}
    (located : db.locateParent volume path = some location) :
    db.entryAt volume (location.child (nameOf path)) =
      (db.locateZone volume path).bind (db.entryAt volume) := by
  obtain ⟨names, valid, rfl⟩ := (canonicalPath_iff path).mp canonical
  unfold Database.locateParent at located
  rcases List.eq_nil_or_concat' names with rfl | ⟨front, name, rfl⟩
  · cases located
  · rw [parentOf_pathText valid, Option.bind_some] at located
    rw [nameOf_pathText valid]
    exact entryAt_child_of_located wellFormed valid located

theorem locateParent_isSome (wellFormed : (db.tree volume).WellFormed) {path : Text}
    (canonical : CanonicalPath path) (below : path ≠ ['/']) :
    ∃ location, db.locateParent volume path = some location := by
  obtain ⟨names, valid, rfl⟩ := (canonicalPath_iff path).mp canonical
  rcases List.eq_nil_or_concat' names with rfl | ⟨front, name, rfl⟩
  · exact absurd rfl below
  · obtain ⟨zone, upper, rest, located⟩ := wellFormed.located_exists valid.left
    have parentAt := locateZone_of_located wellFormed valid.left located
    rw [Database.locateParent, parentOf_pathText valid, Option.bind_some, parentAt]
    exact ⟨_, rfl⟩

theorem place_of_parent (wellFormed : (db.tree volume).WellFormed) (canonical : CanonicalPath path)
    (parent : db.kindOfParent volume path = some .directory)
    (located : db.locateParent volume path = some location) :
    ∃ zone upper rest name, (db.tree volume).Place path location zone upper rest name := by
  obtain ⟨names, valid, rfl⟩ := (canonicalPath_iff path).mp canonical
  rcases List.eq_nil_or_concat names with rfl | ⟨front, name, rfl⟩
  · cases parent
  · rw [List.concat_eq_append] at *
    unfold Database.kindOfParent at parent
    unfold Database.locateParent at located
    rw [parentOf_pathText valid] at parent located
    have has := (kindOf_eq_some_iff wellFormed valid.left .directory).mp parent
    obtain ⟨zone, upper, rest, found⟩ := wellFormed.located_exists valid.left
    change db.locateZone volume (pathText front) = some location at located
    rw [locateZone_of_located wellFormed valid.left found] at located
    obtain rfl := found.names_eq
    refine ⟨zone, upper, rest, name, found, ?_, ?_, (Option.some.inj located).symm, ?_⟩
    · rw [List.append_assoc] at valid
      exact valid.right
    · rw [List.append_assoc]
    · exact wellFormed.directoryIn_of_has found has

theorem Vacant.place (wellFormed : (db.tree volume).WellFormed)
    (vacant : Vacant db volume path location) :
    ∃ zone upper rest name, (db.tree volume).Place path location zone upper rest name ∧
      ∀ kind, ¬ (db.tree volume).Has (upper ++ (rest ++ [name])) kind := by
  obtain ⟨zone, upper, rest, name, place⟩ :=
    place_of_parent wellFormed vacant.canonical vacant.parent vacant.located
  have free := vacant.free
  rw [place.path_eq] at free
  exact ⟨zone, upper, rest, name, place, (kindOf_eq_none_iff wellFormed place.components).mp free⟩

theorem entryAt_child_iff (wellFormed : (db.tree volume).WellFormed) {zone : ZoneNode}
    {upper rest : List Text} {name : Text} {entry : ZoneEntry}
    (place : (db.tree volume).Place path location zone upper rest name) :
    db.entryAt volume (location.child (nameOf path)) = some entry ↔
      (db.tree volume).EntryAt zone entry upper (rest ++ [name]) := by
  rw [place.child_eq]
  constructor
  · intro found
    obtain ⟨member, inZone, relative⟩ := mem_of_entryAt found
    exact ⟨place.zoneAt, member, inZone, place.valid, by simp, relative⟩
  · intro found
    exact entryAt_eq_some wellFormed found zone.path

end Places

end PostgreOS
