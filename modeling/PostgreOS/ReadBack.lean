/-
Reading back what was written.

A write stores the bytes in the row, then moves the inline texts of the zone to blocks
and drops unused segments. The bytes of every file survive this. What can get lost is
the permission to read them in one piece: `read_file` refuses texts of more than 128 MiB
that are in blocks, but not those that are in a row.
-/

import PostgreOS.ContentInvariant
import PostgreOS.WriteSpec

namespace PostgreOS

open Library.Outcome Library.Table

section Reading

variable {db : Database} {volume : Uuid}

/-- A file whose text is in blocks and too long for `read_file`. -/
def ZoneEntry.Oversized (entry : ZoneEntry) : Prop :=
  entry.contentObject ≠ none ∧ 134217728 < entry.size

instance (entry : ZoneEntry) : Decidable entry.Oversized :=
  inferInstanceAs (Decidable (_ ∧ _))

theorem fileDataOf_bytes (data : Bytes) : (fileDataOf data).bytes = data := by
  unfold fileDataOf
  split
  · rename_i decoded found
    exact ((convertFrom_eq_some_iff data decoded).mp found).1
  · rfl

theorem contentOf_of_file {entry : ZoneEntry} (regular : entry.kind = .file) :
    ∃ bytes, db.contentOf entry = some bytes := by
  unfold ZoneEntry.kind at regular
  unfold Database.contentOf
  cases payload : entry.payload with
  | file data object =>
      cases object with
      | none => exact ⟨_, rfl⟩
      | some object => exact ⟨_, rfl⟩
  | directory =>
      rw [payload] at regular
      cases regular
  | symlink target =>
      rw [payload] at regular
      cases regular

/-- The limit of `entry_bytes` is on the size of the entry. -/
theorem entryBytes_eq (sound : Sound db) {entry : ZoneEntry} (member : entry ∈ db.zoneEntries)
    {data : FileData} {object : Option Uuid} (payload : entry.payload = .file data object)
    {bytes : Bytes} (content : db.contentOf entry = some bytes) :
    db.entryBytes data object =
      if entry.Oversized then raise "54000" "large file requires the streaming or range API" []
      else .ok bytes := by
  unfold Database.contentOf at content
  rw [payload] at content
  have reference : entry.contentObject = object := by rw [ZoneEntry.contentObject, payload]
  unfold Database.entryBytes
  cases object with
  | none =>
      rw [if_neg fun large : entry.Oversized => large.1 reference]
      exact congrArg Except.ok (Option.some.inj content)
  | some object =>
      obtain ⟨-, found, foundMember, same, -, bytes⟩ :=
        (sound.stored entry member).object reference
      have limit : (db.contentObjects.any fun stored =>
          decide (stored.id = object ∧ 134217728 < stored.byteSize)) = true ↔
            134217728 < entry.size := by
        rw [List.any_eq_true]
        constructor
        · rintro ⟨stored, storedMember, matching⟩
          obtain ⟨storedId, large⟩ := of_decide_eq_true matching
          have one := sound.store.object_eq storedMember foundMember (storedId.trans same.symm)
          rwa [one, bytes] at large
        · intro large
          exact ⟨found, foundMember, decide_eq_true ⟨same, bytes.symm ▸ large⟩⟩
      dsimp only at content ⊢
      by_cases large : 134217728 < entry.size
      · rw [if_pos (limit.mpr large), if_pos ⟨reference ▸ Option.some_ne_none _, large⟩]
      · rw [if_neg fun some => large (limit.mp some),
          if_neg fun oversized : entry.Oversized => large oversized.2]
        exact congrArg Except.ok (Option.some.inj content)

theorem readFile_of_entryAt (sound : Sound db) (wellFormed : (db.tree volume).WellFormed)
    {zone : ZoneNode} {entry : ZoneEntry} {front rest : List Text}
    (found : (db.tree volume).EntryAt zone entry front rest) {bytes : Bytes}
    (content : db.contentOf entry = some bytes) :
    db.readFile volume (pathText (front ++ rest)) =
      if entry.Oversized then raise "54000" "large file requires the streaming or range API" []
      else .ok bytes := by
  have located := wellFormed.located_of_entryAt found
  have valid := found.components
  unfold Database.readFile
  rw [assertPath_of_canonical (canonicalPath_pathText valid), ok_bind,
    locateZone_of_located wellFormed valid located, strict, ok_bind]
  dsimp only
  rw [if_neg (relativeText_ne_nil found.valid found.nonempty),
    entryAt_eq_some wellFormed found zone.path, Option.map_some]
  cases payload : entry.payload with
  | file data object =>
      exact entryBytes_eq sound (mem_tree_entries.mp found.member).1 payload content
  | directory =>
      rw [Database.contentOf, payload] at content
      cases content
  | symlink target =>
      rw [Database.contentOf, payload] at content
      cases content

theorem stat_of_entryAt (keys : Keys db) (wellFormed : (db.tree volume).WellFormed)
    {zone : ZoneNode} {entry : ZoneEntry} {front rest : List Text}
    (found : (db.tree volume).EntryAt zone entry front rest) :
    db.stat volume (pathText (front ++ rest)) = .ok [entryInode zone.path entry] := by
  have located := wellFormed.located_of_entryAt found
  have valid := found.components
  obtain ⟨inTable, inVolume⟩ := mem_tree_entries.mp found.member
  unfold Database.stat
  rw [assertPath_of_canonical (canonicalPath_pathText valid), ok_bind,
    locateZone_of_located wellFormed valid located, strict, ok_bind]
  dsimp only
  rw [if_neg (relativeText_ne_nil found.valid found.nonempty)]
  have only : db.zoneEntries.filter (atLocation volume
      { zoneId := zone.id, zonePath := zone.path, relativePath := relativeText rest }) =
        [entry] := by
    apply filter_eq_singleton keys.entry_ids inTable
    · exact atLocation_iff.mpr ⟨inVolume, found.inZone, found.path⟩
    · intro other member chosen
      obtain ⟨otherVolume, otherZone, otherPath⟩ := atLocation_iff.mp chosen
      rw [keys.entry_eq_of_path member inTable (otherVolume.trans inVolume.symm)
        (otherZone.trans found.inZone.symm) (otherPath.trans found.path.symm)]
  rw [only]
  rfl

end Reading

/-! ### The rows after a write -/

theorem Tree.EntryAt.of_rows {tree other : Tree} {zone : ZoneNode} {entry : ZoneEntry}
    {front rest : List Text} (found : tree.EntryAt zone entry front rest)
    (zones : other.zones = tree.zones) (member : entry ∈ other.entries) :
    other.EntryAt zone entry front rest where
  zoneAt := ⟨zones ▸ found.zoneAt.member, found.zoneAt.valid, found.zoneAt.path⟩
  member := member
  inZone := found.inZone
  valid := found.valid
  nonempty := found.nonempty
  path := found.path

section Writing

variable {db written after : Database} {volume : Uuid} {path : Text} {data : Bytes} {mode : Int}
  {now : Timestamp} {id : NodeId}

/-- The row of the written file. -/
structure WrittenRow (data : Bytes) (id : NodeId) (entry : ZoneEntry) : Prop where
  id : entry.id = id
  payload : entry.payload = .file (fileDataOf data) none
  size : entry.size = data.length

theorem writeFileInline_target (sound : Sound db) (wellFormed : (db.tree volume).WellFormed)
    {location : Location} {zone : ZoneNode} {upper rest : List Text} {name : Text}
    (place : (db.tree volume).Place path location zone upper rest name)
    (located : db.locateParent volume path = some location)
    (done : db.writeFileInline volume path data mode now = .ok (written, id)) :
    ∃ entry, (written.tree volume).EntryAt zone entry upper (rest ++ [name]) ∧
      WrittenRow data id entry := by
  have keys := sound.keys
  obtain ⟨-, -, parent, same, ⟨absent, rfl, inserted⟩ | ⟨existing, found, regular, rfl, updated⟩⟩ :=
    writeFileInline_ok done
  · obtain rfl := Option.some.inj (same.symm.trans located)
    have tree := tree_insertEntries inserted volume
    refine ⟨fileEntry volume parent (nameOf path) data mode now db.nextNode, ?_, rfl, rfl, rfl⟩
    have column := place.child_eq
    have inZone := place.location_eq
    rw [tree]
    refine ⟨⟨place.zoneAt.member, place.zoneAt.valid, place.zoneAt.path⟩, ?_, ?_, place.valid,
      by simp, congrArg Location.relativePath column⟩
    · apply List.mem_append_right
      exact List.mem_filter.mpr ⟨List.mem_singleton_self _, decide_eq_true rfl⟩
    · exact congrArg Location.zoneId inZone
  · obtain rfl := Option.some.inj (same.symm.trans located)
    have entryAt := (entryAt_child_iff wellFormed place).mp found
    have volumes : ∀ entry ∈ db.zoneEntries,
        atLocation volume (parent.child (nameOf path)) entry = true →
          (overwritten data now entry).volumeId = entry.volumeId := fun _ _ _ => rfl
    have tree := tree_updateEntries volumes updated volume
    have chosen : atLocation volume (parent.child (nameOf path)) existing = true := by
      obtain ⟨member, inZone, relative⟩ := mem_of_entryAt found
      exact atLocation_iff.mpr ⟨(mem_tree_entries.mp member).2, inZone, relative⟩
    refine ⟨overwritten data now existing, ?_, rfl, rfl, rfl⟩
    rw [tree]
    refine ⟨⟨place.zoneAt.member, place.zoneAt.valid, place.zoneAt.path⟩, ?_, entryAt.inZone,
      place.valid, by simp, entryAt.path⟩
    exact mem_map_rewritten.mpr (Or.inr ⟨existing, entryAt.member, chosen, rfl⟩)

theorem names_of_atLocation (wellFormed : (db.tree volume).WellFormed)
    {location : Location} {zone : ZoneNode} {upper rest : List Text} {name : Text}
    (place : (db.tree volume).Place path location zone upper rest name) {tree : Tree}
    (zones : tree.zones = (db.tree volume).zones) {owner : ZoneNode} {entry : ZoneEntry}
    {front inner : List Text} (found : tree.EntryAt owner entry front inner)
    (chosen : atLocation volume (location.child (nameOf path)) entry = true) :
    front ++ inner = upper ++ (rest ++ [name]) := by
  obtain ⟨-, inZone, relative⟩ := atLocation_iff.mp chosen
  rw [place.child_eq] at inZone relative
  have ownerAt : (db.tree volume).ZoneAt owner front :=
    ⟨zones ▸ found.zoneAt.member, found.zoneAt.valid, found.zoneAt.path⟩
  have same : owner = zone :=
    wellFormed.zone_ids owner ownerAt.member zone place.zoneAt.member
      (found.inZone.symm.trans inZone)
  have front_eq : front = upper := ownerAt.names_unique (same ▸ place.zoneAt)
  have inner_eq : inner = rest ++ [name] :=
    relativeText_injective found.valid place.valid (found.path.symm.trans relative)
  rw [front_eq, inner_eq]

/-- The other rows are those of before. -/
theorem writeFileInline_other (wellFormed : (db.tree volume).WellFormed)
    {location : Location} {zone : ZoneNode} {upper rest : List Text} {name : Text}
    (place : (db.tree volume).Place path location zone upper rest name)
    (located : db.locateParent volume path = some location)
    (done : db.writeFileInline volume path data mode now = .ok (written, id))
    {owner : ZoneNode} {entry : ZoneEntry} {front inner : List Text}
    (other : front ++ inner ≠ upper ++ (rest ++ [name])) :
    (written.tree volume).EntryAt owner entry front inner ↔
      (db.tree volume).EntryAt owner entry front inner := by
  obtain ⟨-, -, parent, same, ⟨-, -, inserted⟩ | ⟨existing, -, -, -, updated⟩⟩ :=
    writeFileInline_ok done
  · obtain rfl := Option.some.inj (same.symm.trans located)
    rw [tree_insertEntries inserted volume]
    constructor
    · intro found
      refine found.of_rows rfl ?_
      rcases List.mem_append.mp found.member with old | new
      · exact old
      · have row := List.mem_singleton.mp (List.mem_filter.mp new).1
        refine absurd (names_of_atLocation wellFormed place (by rfl) found ?_) other
        rw [row]
        exact atLocation_iff.mpr ⟨rfl, rfl, rfl⟩
    · intro found
      exact found.of_rows rfl (List.mem_append_left _ found.member)
  · obtain rfl := Option.some.inj (same.symm.trans located)
    have volumes : ∀ entry ∈ db.zoneEntries,
        atLocation volume (parent.child (nameOf path)) entry = true →
          (overwritten data now entry).volumeId = entry.volumeId := fun _ _ _ => rfl
    have tree := tree_updateEntries volumes updated volume
    rw [tree]
    constructor
    · intro found
      refine found.of_rows rfl ?_
      rcases mem_map_rewritten.mp found.member with ⟨member, -⟩ | ⟨old, -, chosen, changed⟩
      · exact member
      · refine absurd (names_of_atLocation wellFormed place (by rfl) found ?_) other
        rw [← changed]
        exact chosen
    · intro found
      refine found.of_rows rfl ?_
      cases chosen : atLocation volume (parent.child (nameOf path)) entry with
      | false =>
          exact mem_map_rewritten.mpr (Or.inl ⟨found.member, chosen⟩)
      | true => exact absurd (names_of_atLocation wellFormed place (by rfl) found chosen) other

/-- What is left to do once the bytes are in the row: moving texts to blocks changes the
content columns of some rows, and the bytes of none. -/
structure Settled (written after : Database) (volume : Uuid) (zone : NodeId)
    (change : ZoneEntry → ZoneEntry) : Prop where
  zoneNodes : after.zoneNodes = written.zoneNodes
  entries : after.zoneEntries = written.zoneEntries.map change
  row : ∀ entry ∈ written.zoneEntries, ∃ payload,
    change entry = { entry with payload := payload } ∧ payload.kind = entry.kind ∧
      (change entry).linkTarget = entry.linkTarget
  kept : ∀ entry ∈ written.zoneEntries, inlineText volume zone entry = false →
    change entry = entry
  moved : ∀ entry ∈ written.zoneEntries, inlineText volume zone entry = true →
    (change entry).contentObject ≠ none
  content : ∀ entry ∈ written.zoneEntries,
    after.contentOf (change entry) = written.contentOf entry
  sound : Sound after

theorem writeFile_settled (committed : Committed db)
    (done : db.writeFile volume path data mode now = .ok (after, id)) :
    ∃ written location change,
      db.writeFileInline volume path data mode now = .ok (written, id) ∧
      db.locateZone volume path = some location ∧
      Settled written after volume location.zoneId change := by
  obtain ⟨written, location, blockized, writeOk, located, blockOk, reclaimOk⟩ := writeFile_ok done
  have kept := writeFileInline_kept (.refl committed.sound) writeOk
  obtain ⟨found, change, foundOk, moved⟩ := blockizeZone_ok kept.sound
    ((writeFileInline_contentMapping writeOk).trans committed.unmapped) volume location.zoneId
  obtain rfl : found = blockized := Except.ok.inj (foundOk.symm.trans blockOk)
  have reclaimed := Reclaimed.of_reclaim moved.sound.store moved.sound.stored reclaimOk
  refine ⟨written, location, change, writeOk, ?_, ?_, ?_, ?_, moved.kept, ?_, ?_, ?_⟩
  · rw [← locateZone_congr (zoneNodes_writeFileInline writeOk), located]
  · rw [Database.zoneNodes, reclaimed.tables.zones]
    exact moved.zoneNodes
  · rw [reclaimed.tables.zoneEntries, moved.zoneEntries]
  · exact fun entry member => moved.entry member
  · intro entry member inline
    obtain ⟨object, -, same⟩ := moved.moved entry member inline
    rw [same]
    exact Option.some_ne_none object
  · intro entry member
    rw [← moved.content entry member]
    exact reclaimed.contentOf (moved.zoneEntries ▸ List.mem_map_of_mem member)
  · exact ((kept.blockized moved).reclaimed reclaimed).sound

theorem Settled.entryAt {zoneId : NodeId} {change : ZoneEntry → ZoneEntry}
    (settled : Settled written after volume zoneId change) {owner : ZoneNode} {entry : ZoneEntry}
    {front inner : List Text} (found : (written.tree volume).EntryAt owner entry front inner) :
    (after.tree volume).EntryAt owner (change entry) front inner := by
  obtain ⟨inTable, inVolume⟩ := mem_tree_entries.mp found.member
  obtain ⟨ownerMember, ownerVolume⟩ := mem_tree_zones.mp found.zoneAt.member
  obtain ⟨payload, same, -⟩ := settled.row entry inTable
  refine ⟨⟨mem_tree_zones.mpr ⟨settled.zoneNodes ▸ ownerMember, ownerVolume⟩, found.zoneAt.valid,
    found.zoneAt.path⟩, mem_tree_entries.mpr ⟨?_, ?_⟩, ?_, found.valid, found.nonempty, ?_⟩
  · rw [settled.entries]
    exact List.mem_map_of_mem inTable
  · rw [same]
    exact inVolume
  · rw [same]
    exact found.inZone
  · rw [same]
    exact found.path

theorem Settled.oversized_iff {zoneId : NodeId} {change : ZoneEntry → ZoneEntry}
    (settled : Settled written after volume zoneId change) {entry : ZoneEntry}
    (member : entry ∈ written.zoneEntries) :
    (change entry).Oversized ↔
      entry.Oversized ∨ inlineText volume zoneId entry = true ∧ 134217728 < entry.size := by
  cases inline : inlineText volume zoneId entry with
  | false =>
      rw [settled.kept entry member inline]
      constructor
      · exact Or.inl
      · rintro (large | ⟨impossible, -⟩)
        · exact large
        · cases impossible
  | true =>
      obtain ⟨payload, same, -⟩ := settled.row entry member
      have size : (change entry).size = entry.size := by rw [same]
      have detached := settled.moved entry member inline
      constructor
      · intro large
        exact Or.inr ⟨rfl, size ▸ large.2⟩
      · rintro (large | ⟨-, large⟩)
        · exact ⟨detached, size.symm ▸ large.2⟩
        · exact ⟨detached, size.symm ▸ large⟩

theorem sameStore_writeFileInline
    (done : db.writeFileInline volume path data mode now = .ok (written, id)) :
    SameStore db written := by
  obtain ⟨-, -, parent, -, ⟨-, -, inserted⟩ | ⟨existing, -, -, -, updated⟩⟩ :=
    writeFileInline_ok done
  · exact sameStore_insertEntries inserted
  · rw [(updateEntries_ok updated).1]
    exact ⟨rfl, rfl, rfl, rfl, rfl, rfl, rfl⟩

theorem writeFile_target (committed : Committed db) (wellFormed : (db.tree volume).WellFormed)
    {location : Location} {zone : ZoneNode} {upper rest : List Text} {name : Text}
    (place : (db.tree volume).Place path location zone upper rest name)
    (located : db.locateParent volume path = some location)
    (done : db.writeFile volume path data mode now = .ok (after, id)) :
    ∃ entry, (after.tree volume).EntryAt zone entry upper (rest ++ [name]) ∧ entry.id = id ∧
      entry.kind = .file ∧ entry.size = data.length ∧ after.contentOf entry = some data ∧
      (entry.Oversized → 134217728 < data.length) := by
  obtain ⟨written, found, change, writeOk, -, settled⟩ := writeFile_settled committed done
  obtain ⟨entry, entryAt, row⟩ :=
    writeFileInline_target committed.sound wellFormed place located writeOk
  have member := (mem_tree_entries.mp entryAt.member).1
  obtain ⟨payload, same, kind, -⟩ := settled.row entry member
  have size : (change entry).size = data.length := by rw [same, ← row.size]
  refine ⟨change entry, settled.entryAt entryAt, ?_, ?_, size, ?_, fun large => size ▸ large.2⟩
  · rw [same, ← row.id]
  · rw [same]
    change payload.kind = _
    rw [kind, ZoneEntry.kind, row.payload]
    rfl
  · rw [settled.content entry member, Database.contentOf, row.payload]
    exact congrArg some (fileDataOf_bytes data)

theorem writeFile_other (committed : Committed db) (wellFormed : (db.tree volume).WellFormed)
    {location : Location} {zone : ZoneNode} {upper rest : List Text} {name : Text}
    (place : (db.tree volume).Place path location zone upper rest name)
    (located : db.locateParent volume path = some location)
    (done : db.writeFile volume path data mode now = .ok (after, id))
    {found : Location} (target : db.locateZone volume path = some found)
    {owner : ZoneNode} {entry : ZoneEntry} {front inner : List Text}
    (other : front ++ inner ≠ upper ++ (rest ++ [name]))
    (entryAt : (db.tree volume).EntryAt owner entry front inner) :
    ∃ payload, (after.tree volume).EntryAt owner { entry with payload := payload } front inner ∧
      payload.kind = entry.kind ∧
      after.contentOf { entry with payload := payload } = db.contentOf entry ∧
      (({ entry with payload := payload } : ZoneEntry).Oversized ↔ entry.Oversized ∨
        inlineText volume found.zoneId entry = true ∧ 134217728 < entry.size) := by
  obtain ⟨written, again, change, writeOk, same, settled⟩ := writeFile_settled committed done
  obtain rfl := Option.some.inj (same.symm.trans target)
  have stays := (writeFileInline_other wellFormed place located writeOk other).mpr entryAt
  have member := (mem_tree_entries.mp stays.member).1
  obtain ⟨payload, shape, kind, -⟩ := settled.row entry member
  refine ⟨payload, ?_, kind, ?_, ?_⟩
  · rw [← shape]
    exact settled.entryAt stays
  · rw [← shape, settled.content entry member, (sameStore_writeFileInline writeOk).contentOf]
  · rw [← shape]
    exact settled.oversized_iff member

/-- A file of more than 128 MiB that keeps its text in its row, in the zone of `path`. -/
def Database.LargeInline (db : Database) (volume : Uuid) (path other : Text) : Prop :=
  ∃ location ∈ db.locateZone volume path, ∃ found ∈ db.locateZone volume other,
    ∃ entry ∈ db.entryAt volume found,
      inlineText volume location.zoneId entry = true ∧ 134217728 < entry.size

def Database.Writable (db : Database) (volume : Uuid) (path : Text) : Prop :=
  (∀ kind, ¬ db.Names volume path kind) ∨ db.Names volume path .file

/-- A path that may be written has a place, and no zone is at it. -/
theorem place_of_writable (wellFormed : (db.tree volume).WellFormed)
    (canonical : CanonicalPath path)
    (above : ∃ parent, parentOf path = some parent ∧ db.Names volume parent .directory)
    (writable : db.Writable volume path) :
    ∃ location zone upper rest name,
      db.kindOfParent volume path = some .directory ∧
      db.locateParent volume path = some location ∧
      (db.tree volume).Place path location zone upper rest name ∧
      (∀ other ∈ (db.tree volume).zones, other.path ≠ path) ∧
      ∀ existing, db.entryAt volume (location.child (nameOf path)) = some existing →
        existing.kind = .file := by
  have parent := (kindOfParent_iff_names wellFormed canonical).mpr above
  obtain ⟨location, located⟩ :=
      locateParent_isSome wellFormed canonical (ne_root_of_parent parent)
  obtain ⟨zone, upper, rest, name, place⟩ := place_of_parent wellFormed canonical parent located
  have valid := place.components
  have only (kind : Kind) (has : (db.tree volume).Has (upper ++ (rest ++ [name])) kind) :
      kind = .file := by
    have named : db.Names volume path kind := by
      rw [place.path_eq, names_iff_has wellFormed valid]
      exact has
    rcases writable with absent | regular
    · exact absurd named (absent kind)
    · rw [place.path_eq, names_iff_has wellFormed valid] at regular
      exact wellFormed.has_unique has regular
  refine ⟨location, zone, upper, rest, name, parent, located, place, ?_, ?_⟩
  · intro other member same
    have zoneAt : (db.tree volume).ZoneAt other (upper ++ (rest ++ [name])) :=
      ⟨member, valid, same.trans place.path_eq⟩
    cases only .directory (.zone zoneAt)
  · intro existing found
    exact only existing.kind (.entry ((entryAt_child_iff wellFormed place).mp found))

theorem locateZone_exists (wellFormed : (db.tree volume).WellFormed)
    (canonical : CanonicalPath path) : ∃ location, db.locateZone volume path = some location := by
  obtain ⟨names, valid, rfl⟩ := (canonicalPath_iff path).mp canonical
  obtain ⟨zone, front, rest, found⟩ := wellFormed.located_exists valid
  exact ⟨_, locateZone_of_located wellFormed valid found⟩

theorem writeFileInline_of_writable (state : WellFormedVolume db volume)
    (canonical : CanonicalPath path)
    (above : ∃ parent, parentOf path = some parent ∧ db.Names volume parent .directory)
    (writable : db.Writable volume path) (data : Bytes) (mode : Int) (now : Timestamp) :
    ∃ written id, db.writeFileInline volume path data mode now = .ok (written, id) := by
  obtain ⟨location, zone, upper, rest, name, parent, located, place, -, regular⟩ :=
    place_of_writable state.tree canonical above writable
  by_contra failed
  have error : ∃ error, db.writeFileInline volume path data mode now = .error error := by
    rw [exists_error_iff]
    rintro ⟨⟨written, id⟩, done⟩
    exact failed ⟨written, id, done⟩
  rw [writeFileInline_error_iff state.committed state.tree canonical parent located place] at error
  obtain ⟨existing, found, other⟩ := error
  exact other (regular existing found)

theorem names_root (wellFormed : (db.tree volume).WellFormed) :
    db.Names volume ['/'] .directory := by
  obtain ⟨zone, member, path⟩ := wellFormed.root
  exact ⟨nodeOfZone zone, Tree.nodeOfZone_mem member, path, rfl⟩

theorem names_of_entryAt {owner : ZoneNode} {entry : ZoneEntry} {front inner : List Text}
    (found : (db.tree volume).EntryAt owner entry front inner) :
    db.Names volume (pathText (front ++ inner)) entry.kind :=
  ⟨_, Tree.nodeOfEntry_mem found.member found.zoneAt.member found.inZone.symm,
    found.absolutePath_eq, rfl⟩

theorem entryAt_of_names (wellFormed : (db.tree volume).WellFormed)
    (named : db.Names volume path .file) :
    ∃ owner entry front inner, (db.tree volume).EntryAt owner entry front inner ∧
      path = pathText (front ++ inner) ∧ entry.kind = .file := by
  obtain ⟨node, member, same, kind⟩ := named
  obtain ⟨names, has, path_eq⟩ := wellFormed.has_of_mem_nodes member
  generalize node.kind = actual at has kind
  cases has with
  | zone found => cases kind
  | entry found => exact ⟨_, _, _, _, found, same.symm.trans path_eq, kind⟩

/-- After a write of at most 128 MiB the file reads as the bytes written, and every other
file as before, unless its text of more than 128 MiB was still in its row. -/
theorem writeFile_reads_back (state : WellFormedVolume db volume) (canonical : CanonicalPath path)
    (above : ∃ parent, parentOf path = some parent ∧ db.Names volume parent .directory)
    (writable : db.Writable volume path) (short : data.length ≤ 134217728) (mode : Int)
    (now : Timestamp) :
    ∃ after id, db.writeFile volume path data mode now = .ok (after, id) ∧
      after.readFile volume path = .ok data ∧
      (∃ node, after.stat volume path = .ok [node] ∧ node.size = data.length) ∧
      ∀ other, other ≠ path → db.Names volume other .file → ¬ db.LargeInline volume path other →
        after.readFile volume other = db.readFile volume other := by
  have wellFormed := state.tree
  obtain ⟨location, zone, upper, rest, name, parent, located, place, noZone, regular⟩ :=
    place_of_writable wellFormed canonical above writable
  obtain ⟨written, id, inlineDone⟩ :=
    writeFileInline_of_writable state canonical above writable data mode now
  obtain ⟨target, targetOk⟩ := locateZone_exists wellFormed canonical
  obtain ⟨after, done⟩ := writeFile_of_inline state.committed targetOk inlineDone
  have sound := (writeFile_kept (.refl state.committed.sound) state.committed.unmapped done).sound
  have afterTree := writeFile_wellFormed state.committed wellFormed (fun _ => noZone) done
  refine ⟨after, id, done, ?_, ?_, ?_⟩
  · obtain ⟨entry, entryAt, -, -, -, content, long⟩ :=
      writeFile_target state.committed wellFormed place located done
    rw [place.path_eq, readFile_of_entryAt sound afterTree entryAt content,
      if_neg fun large => absurd (long large) (Nat.not_lt.mpr short)]
  · obtain ⟨entry, entryAt, -, -, size, -⟩ :=
      writeFile_target state.committed wellFormed place located done
    refine ⟨entryInode zone.path entry, ?_, size⟩
    rw [place.path_eq, stat_of_entryAt sound.keys afterTree entryAt]
  · intro other different named fits
    obtain ⟨owner, entry, front, inner, entryAt, rfl, kind⟩ := entryAt_of_names wellFormed named
    have apart : front ++ inner ≠ upper ++ (rest ++ [name]) := by
      intro same
      exact different (by rw [same, place.path_eq])
    obtain ⟨bytes, content⟩ : ∃ bytes, db.contentOf entry = some bytes := contentOf_of_file kind
    obtain ⟨payload, still, -, kept, large⟩ :=
      writeFile_other state.committed wellFormed place located done targetOk apart entryAt
    have unchanged : ({ entry with payload := payload } : ZoneEntry).Oversized ↔ entry.Oversized := by
      refine large.trans ⟨fun either => either.resolve_right ?_, Or.inl⟩
      intro inline
      have found := locateZone_of_located wellFormed entryAt.components
        (wellFormed.located_of_entryAt entryAt)
      exact fits ⟨target, targetOk, _, found, entry,
        entryAt_eq_some wellFormed entryAt owner.path, inline⟩
    rw [readFile_of_entryAt sound afterTree still (kept.trans content),
      readFile_of_entryAt state.committed.sound wellFormed entryAt content]
    simp only [unchanged]

end Writing

theorem writeFile_reads_back_after_copy :
    ∃ after id, (Database.empty.calls copiedCalls).writeFile 7 ['/', 'a'] [255, 0] 420 3 =
        .ok (after, id) ∧
      after.readFile 7 ['/', 'a'] = .ok [255, 0] ∧
      (∃ node, after.stat 7 ['/', 'a'] = .ok [node] ∧ node.size = 2) ∧
      ∀ other, other ≠ ['/', 'a'] → (Database.empty.calls copiedCalls).Names 7 other .file →
        ¬ (Database.empty.calls copiedCalls).LargeInline 7 ['/', 'a'] other →
          after.readFile 7 other = (Database.empty.calls copiedCalls).readFile 7 other := by
  have root : ∃ node ∈ (Database.empty.calls copiedCalls).nodes 7,
      node.path = ['/'] ∧ node.kind = .directory := by
    decide +kernel
  have file : ∃ node ∈ (Database.empty.calls copiedCalls).nodes 7,
      node.path = ['/', 'a'] ∧ node.kind = .file := by
    decide +kernel
  exact writeFile_reads_back (wellFormed_calls (by decide +kernel)) (by decide)
    ⟨['/'], by decide, root⟩ (Or.inr file) (by decide) 420 3

theorem convertTo_replicate (length : Nat) :
    convertTo (List.replicate length 'a') = List.replicate length 97 := by
  unfold convertTo
  rw [List.flatMap_replicate]
  have one : String.utf8EncodeChar 'a' = [97] := by decide
  rw [one, List.flatten_replicate_singleton]

theorem fileDataOf_replicate (length : Nat) :
    fileDataOf (List.replicate length 97) = .text (List.replicate length 'a') := by
  unfold fileDataOf
  have noNul : '\x00' ∉ List.replicate length 'a' := by
    intro member
    exact absurd (List.eq_of_mem_replicate member) (by decide)
  rw [← convertTo_replicate, convertFrom_convertTo noNul]

def emptyFileCalls : List Op :=
  [.createVolume 7 ['v'] 0, .writeFile 7 ['/', 'a'] [] 420 1]

/-- A text of more than 128 MiB in a row cannot be read once another write has moved it to
blocks. -/
theorem writeFile_not_read_back :
    ¬ ∀ (db : Database) (volume : Uuid) (path : Text) (data : Bytes) (mode : Int) (now : Timestamp),
      WellFormedVolume db volume → CanonicalPath path →
      (∃ parent, parentOf path = some parent ∧ db.Names volume parent .directory) →
      db.Writable volume path → data.length ≤ 134217728 →
        ∃ after id, db.writeFile volume path data mode now = .ok (after, id) ∧
          after.readFile volume path = .ok data ∧
          (∃ node, after.stat volume path = .ok [node] ∧ node.size = data.length) ∧
          ∀ other, other ≠ path → db.Names volume other .file →
            after.readFile volume other = db.readFile volume other := by
  intro every
  obtain ⟨length, long⟩ : ∃ length, 134217728 < length := ⟨134217729, by omega⟩
  have state : WellFormedVolume (Database.empty.calls emptyFileCalls) 7 :=
    wellFormed_calls (by decide +kernel)
  generalize known : Database.empty.calls emptyFileCalls = base at state
  have wellFormed := state.tree
  have file : base.Names 7 ['/', 'a'] .file := by
    subst known
    change ∃ node ∈ (Database.empty.calls emptyFileCalls).nodes 7, _
    decide +kernel
  have free : base.Writable 7 ['/', 'b'] := by
    subst known
    refine Or.inl fun kind => ?_
    rintro ⟨node, member, path, -⟩
    revert node
    decide +kernel
  have oneZone : ∀ zone ∈ (base.tree 7).zones, zone.path = ['/'] := by
    subst known
    decide +kernel
  -- The long text goes to the row of `/b`.
  obtain ⟨location, zone, upper, rest, name, parent, located, place, noZone, regular⟩ :=
    place_of_writable wellFormed (by decide) ⟨['/'], by decide, names_root wellFormed⟩ free
  obtain ⟨large, id, inlineDone⟩ :=
    writeFileInline_of_writable state (by decide) ⟨['/'], by decide, names_root wellFormed⟩ free
      (List.replicate length 97) 420 1
  have kept := writeFileInline_kept (.refl state.committed.sound) inlineDone
  have largeState : WellFormedVolume large 7 :=
    ⟨⟨kept.sound, (writeFileInline_contentMapping inlineDone).trans state.committed.unmapped⟩,
      writeFileInline_wellFormed state.committed.sound wellFormed (fun _ => noZone) inlineDone⟩
  obtain ⟨entry, entryAt, row⟩ :=
    writeFileInline_target state.committed.sound wellFormed place located inlineDone
  have content : large.contentOf entry = some (List.replicate length 97) := by
    rw [Database.contentOf, row.payload]
    exact congrArg some (fileDataOf_bytes _)
  -- Writing `/a` moves it to blocks.
  obtain ⟨owner, other, front, inner, otherAt, path_eq, otherKind⟩ := entryAt_of_names wellFormed file
  have apart : front ++ inner ≠ upper ++ (rest ++ [name]) := by
    intro same
    have equal : ['/', 'a'] = ['/', 'b'] := by rw [path_eq, same, ← place.path_eq]
    exact absurd equal (by decide)
  have fileThere : large.Names 7 ['/', 'a'] .file := by
    have stays := (writeFileInline_other wellFormed place located inlineDone apart).mpr otherAt
    rw [path_eq, ← otherKind]
    exact names_of_entryAt stays
  have target : large.Names 7 ['/', 'b'] .file := by
    have kind : entry.kind = .file := by
      rw [ZoneEntry.kind, row.payload]
      rfl
    rw [place.path_eq, ← kind]
    exact names_of_entryAt entryAt
  have above : ∃ parent, parentOf ['/', 'a'] = some parent ∧ large.Names 7 parent .directory :=
    ⟨['/'], by decide, names_root largeState.tree⟩
  obtain ⟨after, newId, done, -, -, same⟩ :=
    every large 7 ['/', 'a'] [] 420 2 largeState (by decide) above (Or.inr fileThere) (by decide)
  have reads := same ['/', 'b'] (by decide) target
  obtain ⟨found, foundZone, foundUpper, foundRest, foundName, -, foundOk, foundPlace, foundFree, -⟩ :=
    place_of_writable largeState.tree (by decide) above (Or.inr fileThere)
  obtain ⟨targetLocation, targetOk⟩ := locateZone_exists largeState.tree
    (show CanonicalPath ['/', 'a'] by decide)
  have apartAfter : upper ++ (rest ++ [name]) ≠ foundUpper ++ (foundRest ++ [foundName]) := by
    intro same
    have equal : ['/', 'b'] = ['/', 'a'] := by rw [place.path_eq, same, ← foundPlace.path_eq]
    exact absurd equal (by decide)
  obtain ⟨payload, still, -, stillContent, oversized⟩ :=
    writeFile_other largeState.committed largeState.tree foundPlace foundOk done targetOk apartAfter
      entryAt
  have inline : inlineText 7 targetLocation.zoneId entry = true := by
    obtain ⟨targetZone, member, -, -, rfl⟩ := locateZone_eq_some targetOk
    have zones : (large.tree 7).zones = (base.tree 7).zones := by
      change large.zoneNodesOf 7 = base.zoneNodesOf 7
      unfold Database.zoneNodesOf
      rw [zoneNodes_writeFileInline inlineDone]
    have one : zone = targetZone :=
      largeState.tree.zone_paths zone entryAt.zoneAt.member targetZone member
        ((oneZone zone (zones ▸ entryAt.zoneAt.member)).trans
          (oneZone targetZone (zones ▸ member)).symm)
    refine inlineText_iff.mpr ⟨(mem_tree_entries.mp entryAt.member).2, ?_,
      List.replicate length 'a', ?_⟩
    · rw [entryAt.inZone, one]
    · rw [row.payload, fileDataOf_replicate]
  have size : 134217728 < entry.size := by
    rw [row.size, List.length_replicate]
    exact long
  have fits : ¬ entry.Oversized := by
    intro large
    apply large.1
    rw [ZoneEntry.contentObject, row.payload]
  rw [place.path_eq, readFile_of_entryAt largeState.committed.sound largeState.tree entryAt content,
    if_neg fits,
    readFile_of_entryAt (writeFile_kept (.refl largeState.committed.sound)
      largeState.committed.unmapped done).sound
      (writeFile_wellFormed largeState.committed largeState.tree (fun _ => foundFree) done) still
      (stillContent.trans content),
    if_pos (oversized.mpr (Or.inr ⟨inline, size⟩))] at reads
  cases reads

end PostgreOS
