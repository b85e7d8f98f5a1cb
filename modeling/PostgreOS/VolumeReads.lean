/-
What the readers of a volume depend on.

A reader finds zones and entries by their volume and blocks by the objects of these entries,
so that its answer is a function of the rows of the volume. Whatever calls on other volumes
do in between, two reads give the same answer.
-/

import PostgreOS.CandidateBlocks
import PostgreOS.CandidateText
import PostgreOS.DiskUsage
import PostgreOS.FileReads
import PostgreOS.Isolation
import PostgreOS.SearchLiteral

namespace PostgreOS

open Library.LikePattern Library.Outcome Library.Table Library.Transition

/-- The rows that a reader of a volume can reach are the same. -/
structure SameReach (db after : Database) (volume : Uuid) : Prop where
  zones : after.zonesOf volume = db.zonesOf volume
  entries : after.entriesOf volume = db.entriesOf volume
  zone_ids : ∀ zone ∈ db.zonesOf volume,
    after.zones.filter (fun other => decide (other.id = zone.id)) =
      db.zones.filter fun other => decide (other.id = zone.id)
  blocks : ∀ entry ∈ db.entriesOf volume, ∀ object, entry.contentObject = some object →
    after.blockRows object = db.blockRows object
  ownBlocks : after.allContentBlocks.filter (fun block => decide (block.volumeId = volume)) =
    db.allContentBlocks.filter fun block => decide (block.volumeId = volume)
  objects : ∀ entry ∈ db.entriesOf volume, ∀ object, entry.contentObject = some object →
    after.contentObjects.filter (fun stored => decide (stored.id = object)) =
      db.contentObjects.filter fun stored => decide (stored.id = object)
  ownObjects : after.contentObjects.filter (fun object => decide (object.volumeId = volume)) =
    db.contentObjects.filter fun object => decide (object.volumeId = volume)

theorem filter_key_of_part {α : Type} {rows : List α} {key own : α → Bool}
    (inPart : ∀ row ∈ rows, key row = true → own row = true) :
    rows.filter key = (rows.filter own).filter key := by
  rw [List.filter_filter]
  apply List.filter_congr
  intro row member
  cases found : key row with
  | false => exact (Bool.false_and _).symm
  | true => rw [inPart row member found, Bool.and_self]

section Reach

variable {db after : Database} {volume : Uuid}

theorem blockRows_of_reference (sound : Sound db) (catalog : Catalog db) {entry : ZoneEntry}
    (member : entry ∈ db.entriesOf volume) {object : Uuid}
    (refers : entry.contentObject = some object) :
    db.blockRows object =
      (db.allContentBlocks.filter fun block => block.volumeId = volume).filter fun block =>
        block.objectId = object := by
  obtain ⟨inTable, inVolume⟩ := mem_tree_entries.mp member
  obtain ⟨-, found, foundMember, rfl, foundVolume, -⟩ :=
    (sound.stored entry inTable).object refers
  apply filter_key_of_part
  intro block blockMember owner
  rw [decide_eq_true_eq] at owner ⊢
  rw [← catalog.block_volume sound.store blockMember foundMember owner.symm, foundVolume]
  exact inVolume

theorem objects_of_reference (sound : Sound db) {entry : ZoneEntry}
    (member : entry ∈ db.entriesOf volume) {object : Uuid}
    (refers : entry.contentObject = some object) :
    db.contentObjects.filter (fun stored => decide (stored.id = object)) =
      (db.contentObjects.filter fun stored => stored.volumeId = volume).filter fun stored =>
        stored.id = object := by
  obtain ⟨inTable, inVolume⟩ := mem_tree_entries.mp member
  obtain ⟨-, found, foundMember, rfl, foundVolume, -⟩ :=
    (sound.stored entry inTable).object refers
  apply filter_key_of_part
  intro stored storedMember same
  rw [decide_eq_true_eq] at same ⊢
  rw [sound.store.object_eq storedMember foundMember same, foundVolume]
  exact inVolume

theorem zones_of_id (keys : Keys db) {zone : Zone} (member : zone ∈ db.zonesOf volume) :
    db.zones.filter (fun other => decide (other.id = zone.id)) =
      (db.zonesOf volume).filter fun other => other.id = zone.id := by
  obtain ⟨inTable, inVolume⟩ := List.mem_filter.mp member
  apply filter_key_of_part
  intro other otherMember same
  rw [decide_eq_true_eq] at same inVolume ⊢
  rw [← inVolume]
  exact congrArg ZoneNode.volumeId (keys.zone_eq_of_id (List.mem_map_of_mem otherMember)
    (List.mem_map_of_mem inTable) same)

theorem SameReach.of_rows (sound : Sound db) (catalog : Catalog db) (laterSound : Sound after)
    (laterCatalog : Catalog after) (same : after.rowsOf volume = db.rowsOf volume) :
    SameReach db after volume := by
  have zones : after.zonesOf volume = db.zonesOf volume := congrArg VolumeRows.zones same
  have entries : after.entriesOf volume = db.entriesOf volume := congrArg VolumeRows.entries same
  have objects := congrArg VolumeRows.objects same
  have blocks : after.allContentBlocks.filter (fun block => decide (block.volumeId = volume)) =
      db.allContentBlocks.filter fun block => decide (block.volumeId = volume) := by
    unfold Database.allContentBlocks
    rw [List.filter_append, List.filter_append]
    exact congrArg₂ (· ++ ·) (congrArg VolumeRows.plainBlocks same)
      (congrArg VolumeRows.bulkBlocks same)
  refine ⟨zones, entries, ?_, ?_, blocks, ?_, objects⟩
  · intro zone member
    rw [zones_of_id laterSound.keys (zones.symm ▸ member), zones_of_id sound.keys member, zones]
  · intro entry member object refers
    rw [blockRows_of_reference laterSound laterCatalog (entries.symm ▸ member) refers,
      blockRows_of_reference sound catalog member refers, blocks]
  · intro entry member object refers
    rw [objects_of_reference laterSound (entries.symm ▸ member) refers,
      objects_of_reference sound member refers]
    exact congrArg _ objects

end Reach

namespace SameReach

variable {db after : Database} {volume : Uuid} (same : SameReach db after volume)

include same

theorem filterZones (selected : Zone → Prop) [DecidablePred selected] :
    after.zones.filter (fun zone => decide (zone.volumeId = volume ∧ selected zone)) =
      db.zones.filter fun zone => decide (zone.volumeId = volume ∧ selected zone) := by
  have part (state : Database) :
      state.zones.filter (fun zone => decide (zone.volumeId = volume ∧ selected zone)) =
        (state.zonesOf volume).filter fun zone => decide (selected zone) := by
    unfold Database.zonesOf
    rw [List.filter_filter]
    apply List.filter_congr
    intro zone _
    rw [Bool.and_comm, Bool.decide_and]
  rw [part, part, same.zones]

theorem filterEntries (selected : ZoneEntry → Prop) [DecidablePred selected] :
    after.zoneEntries.filter (fun entry => decide (entry.volumeId = volume ∧ selected entry)) =
      db.zoneEntries.filter fun entry => decide (entry.volumeId = volume ∧ selected entry) := by
  have part (state : Database) :
      state.zoneEntries.filter (fun entry => decide (entry.volumeId = volume ∧ selected entry)) =
        (state.entriesOf volume).filter fun entry => decide (selected entry) := by
    unfold Database.entriesOf
    rw [List.filter_filter]
    apply List.filter_congr
    intro entry _
    rw [Bool.and_comm, Bool.decide_and]
  rw [part, part, same.entries]

theorem zoneNodesOf : after.zoneNodesOf volume = db.zoneNodesOf volume := by
  rw [← zonesOf_map_toZoneNode, ← zonesOf_map_toZoneNode, same.zones]

theorem locateZone (path : Text) : after.locateZone volume path = db.locateZone volume path := by
  unfold Database.locateZone
  rw [same.zoneNodesOf]

theorem entryAt (location : Location) :
    after.entryAt volume location = db.entryAt volume location := by
  have first (state : Database) : state.entryAt volume location =
      (state.zoneEntries.filter fun entry => decide (entry.volumeId = volume ∧
        entry.zoneId = location.zoneId ∧ entry.relativePath = location.relativePath)).head? :=
    List.head?_filter.symm
  rw [first, first, same.filterEntries]

theorem kindOf (path : Text) : after.kindOf volume path = db.kindOf volume path := by
  unfold Database.kindOf
  rw [same.locateZone]
  simp only [same.entryAt]

theorem list (path : Text) : after.list volume path = db.list volume path := by
  unfold Database.list
  simp only [same.locateZone, same.filterEntries, same.filterZones]

theorem stat (path : Text) : after.stat volume path = db.stat volume path := by
  unfold Database.stat
  simp only [same.locateZone]
  cases assertPath path with
  | error error => rfl
  | ok clean =>
      dsimp only [bind, Except.bind]
      cases located : db.locateZone volume clean with
      | none => rfl
      | some location =>
          obtain ⟨node, member, -, -, rfl⟩ := locateZone_eq_some located
          rw [← zonesOf_map_toZoneNode] at member
          obtain ⟨zone, zoneMember, rfl⟩ := List.mem_map.mp member
          dsimp only [strict]
          rw [same.zone_ids zone zoneMember]
          have entries := same.filterEntries fun entry => entry.zoneId = zone.id ∧
            entry.relativePath = relativeIn zone.path clean
          unfold atLocation
          dsimp only
          rw [entries]

theorem inodes (keys : Keys db) : after.inodes volume = db.inodes volume := by
  unfold Database.inodes
  rw [same.zones, same.entries]
  congr 1
  apply List.flatMap_congr
  intro entry member
  obtain ⟨inTable, inVolume⟩ := mem_tree_entries.mp member
  obtain ⟨node, nodeMember, inZone, nodeVolume⟩ := keys.entry_zone entry inTable
  obtain ⟨zone, zoneMember, rfl⟩ := List.mem_map.mp nodeMember
  have owned : zone ∈ db.zonesOf volume :=
    List.mem_filter.mpr ⟨zoneMember, decide_eq_true (nodeVolume.trans inVolume)⟩
  rw [← inZone, same.zone_ids zone owned]

theorem inode (keys : Keys db) (id : NodeId) : after.inode volume id = db.inode volume id := by
  unfold Database.inode
  rw [same.inodes keys]

theorem selectedZones (path : Text) (location : Location) :
    after.selectedZones volume path location = db.selectedZones volume path location := by
  unfold Database.selectedZones
  rw [same.filterZones]

theorem findEntries (path : Text) (namePattern : Option Text) (kindFilter : Option Int) :
    after.findEntries volume path namePattern kindFilter =
      db.findEntries volume path namePattern kindFilter := by
  unfold Database.findEntries Database.foundRows
  simp only [same.locateZone, same.selectedZones, same.filterEntries]

theorem foundPaths (path : Text) (location : Location) (namePattern : Option Text)
    (kindFilter : Option Int) :
    after.foundPaths volume path location namePattern kindFilter =
      db.foundPaths volume path location namePattern kindFilter := by
  unfold Database.foundPaths Database.found Database.foundEntries
  simp only [same.selectedZones, same.filterEntries]

theorem findPaths (path : Text) (namePattern : Option Text) (kindFilter : Option Int) :
    after.findPaths volume path namePattern kindFilter =
      db.findPaths volume path namePattern kindFilter := by
  unfold Database.findPaths
  simp only [same.locateZone, same.foundPaths]

theorem singleZoneSearch (path : Text) (kindFilter : Option Int) :
    after.singleZoneSearch volume path kindFilter = db.singleZoneSearch volume path kindFilter := by
  unfold Database.singleZoneSearch Database.zonesLikeBelow
  rw [same.filterZones]

theorem findOutput (path : Text) (namePattern : Option Text) (kindFilter : Option Int)
    (pathPrefix : Text) :
    after.findOutput volume path namePattern kindFilter pathPrefix =
      db.findOutput volume path namePattern kindFilter pathPrefix := by
  unfold Database.findOutput Database.singleZoneEntries
  simp only [same.locateZone, same.foundPaths, same.singleZoneSearch, same.filterEntries]

theorem findCommandOutput (path : Text) (namePattern : Option Text) (kindFilter : Option Int)
    (pathPrefix : Text) :
    after.findCommandOutput volume path namePattern kindFilter pathPrefix =
      db.findCommandOutput volume path namePattern kindFilter pathPrefix := by
  unfold Database.findCommandOutput Database.singleZoneEntries
  simp only [same.locateZone, same.findOutput, same.singleZoneSearch, same.filterEntries]

theorem diskUsage (path : Text) : after.diskUsage volume path = db.diskUsage volume path := by
  unfold Database.diskUsage Database.usedBytes Database.usedZones Database.usedFiles
  simp only [same.locateZone, same.entryAt, same.filterZones, same.filterEntries]

theorem diskUsageFast (path : Text) :
    after.diskUsageFast volume path = db.diskUsageFast volume path := by
  unfold Database.diskUsageFast
  simp only [same.locateZone, same.diskUsage, same.filterZones]

theorem objectBlocks {entry : ZoneEntry} (member : entry ∈ db.entriesOf volume) {object : Uuid}
    (refers : entry.contentObject = some object) :
    after.objectBlocks object = db.objectBlocks object :=
  congrArg _ (same.blocks entry member object refers)

theorem entryBytes {entry : ZoneEntry} (member : entry ∈ db.entriesOf volume) {data : FileData}
    {object : Option Uuid} (payload : entry.payload = .file data object) :
    after.entryBytes data object = db.entryBytes data object := by
  cases object with
  | none => rfl
  | some object =>
      have refers : entry.contentObject = some object := by
        rw [ZoneEntry.contentObject, payload]
      have large (state : Database) : (state.contentObjects.any fun stored =>
          decide (stored.id = object ∧ 134217728 < stored.byteSize)) =
            (state.contentObjects.filter fun stored => decide (stored.id = object)).any fun stored =>
              decide (134217728 < stored.byteSize) := by
        rw [List.any_filter]
        simp only [Bool.decide_and]
      unfold Database.entryBytes Database.objectText
      simp only
      rw [large, large, same.objects entry member object refers, same.objectBlocks member refers]

theorem readFile (path : Text) : after.readFile volume path = db.readFile volume path := by
  unfold Database.readFile
  simp only [same.locateZone, same.entryAt]
  refine bind_congr fun clean => bind_congr fun location => ?_
  split
  · rfl
  · cases found : db.entryAt volume location with
    | none => rfl
    | some entry =>
        simp only [Option.map_some]
        cases payload : entry.payload with
        | file data object => exact same.entryBytes (mem_of_entryAt found).1 payload
        | directory => rfl
        | symlink target => rfl

theorem read (path : Text) : after.read volume path = db.read volume path := by
  unfold Database.read
  simp only [same.readFile]

theorem readRange (path : Text) (startByte byteCount : Int) :
    after.readRange volume path startByte byteCount =
      db.readRange volume path startByte byteCount := by
  unfold Database.readRange
  simp only [same.locateZone, same.entryAt]
  split
  · rfl
  · refine bind_congr fun clean => ?_
    cases found : (db.locateZone volume clean).bind (db.entryAt volume) with
    | none => rfl
    | some entry =>
        obtain ⟨location, -, entryFound⟩ := Option.bind_eq_some_iff.mp found
        have member := (mem_of_entryAt entryFound).1
        cases payload : entry.payload with
        | file data object =>
            cases object with
            | none => simp only [payload]
            | some object =>
                have refers : entry.contentObject = some object := by
                  rw [ZoneEntry.contentObject, payload]
                have offsets (state : Database) (startByte : Nat) :
                    (state.allContentBlocks.filter fun block =>
                      decide (block.objectId = object ∧ block.offset ≤ startByte)) =
                        (state.blockRows object).filter fun block =>
                          decide (block.offset ≤ startByte) := by
                  unfold Database.blockRows
                  rw [List.filter_filter]
                  apply List.filter_congr
                  intro block _
                  rw [Bool.and_comm, Bool.decide_and]
                simp only [payload]
                unfold Database.rangeBlocks
                simp only [offsets, same.blocks entry member object refers,
                  same.objectBlocks member refers]
        | directory => simp only [payload]
        | symlink target => simp only [payload]

theorem clientReadRange (path : Text) (offset length : Nat) :
    after.clientReadRange volume path offset length =
      db.clientReadRange volume path offset length := by
  unfold Database.clientReadRange
  simp only [same.readRange]

theorem requested (paths : List Text) : after.requested volume paths = db.requested volume paths := by
  unfold Database.requested
  simp only [funext same.locateZone]

theorem requestedFile (row : Text × Location) :
    after.requestedFile volume row = db.requestedFile volume row := by
  unfold Database.requestedFile
  rw [same.entryAt]

theorem requestedBytes {row : Text × Location} {data : FileData} {object : Option Uuid}
    (found : db.requestedFile volume row = some (data, object)) :
    after.entryBytes data object = db.entryBytes data object := by
  obtain ⟨entry, entryFound, columns⟩ := Option.bind_eq_some_iff.mp found
  refine same.entryBytes (mem_of_entryAt entryFound).1 ?_
  unfold ZoneEntry.fileColumns at columns
  split at columns
  · rename_i stored reference payload
    obtain ⟨rfl, rfl⟩ := Prod.mk.inj (Option.some.inj columns)
    exact payload
  · cases columns

theorem readFiles (paths : List Text) :
    after.readFiles volume paths = db.readFiles volume paths := by
  have rows : after.readRow volume = db.readRow volume := by
    funext row
    unfold Database.readRow
    rw [same.requestedFile]
    cases found : db.requestedFile volume row with
    | none => rfl
    | some file =>
        obtain ⟨data, object⟩ := file
        simp only
        rw [same.requestedBytes found]
  unfold Database.readFiles
  simp only [same.requested, rows]

theorem readMany (paths : List Text) : after.readMany volume paths = db.readMany volume paths := by
  unfold Database.readMany
  simp only [same.readFiles]

theorem catCommandFiles (paths : List Text) :
    after.catCommandFiles volume paths = db.catCommandFiles volume paths := by
  have files : (db.requested volume paths).filterMap (after.requestedFile volume) =
      (db.requested volume paths).filterMap (db.requestedFile volume) := by
    rw [funext same.requestedFile]
  have bytes : ((db.requested volume paths).filterMap (db.requestedFile volume)).mapM
        (fun file => after.catData file.1 file.2) =
      ((db.requested volume paths).filterMap (db.requestedFile volume)).mapM
        fun file => db.catData file.1 file.2 := by
    apply mapM_congr
    rintro ⟨data, object⟩ member
    obtain ⟨row, -, found⟩ := List.mem_filterMap.mp member
    unfold Database.catData
    cases object with
    | none => rfl
    | some object => exact same.requestedBytes found
  unfold Database.catCommandFiles
  simp only [same.requested, files, bytes]

theorem cat (paths : List Text) : after.cat volume paths = db.cat volume paths := by
  unfold Database.cat
  simp only [same.catCommandFiles]

/-! ### Searches -/

theorem hasNeedle (needle : Text) {entry : ZoneEntry} (member : entry ∈ db.entriesOf volume) :
    after.hasNeedle needle entry = db.hasNeedle needle entry := by
  unfold Database.hasNeedle
  congr 1
  cases refers : entry.contentObject with
  | none =>
      have nothing (state : Database) : (state.allContentBlocks.any fun block =>
          decide (none = some block.objectId) && like (needlePattern needle) block.body) = false := by
        rw [List.any_eq_false]
        intro block _ impossible
        simp at impossible
      rw [nothing, nothing]
  | some object =>
      have part (state : Database) : (state.allContentBlocks.any fun block =>
          decide (some object = some block.objectId) && like (needlePattern needle) block.body) =
            (state.blockRows object).any fun block => like (needlePattern needle) block.body := by
        unfold Database.blockRows
        rw [List.any_filter]
        congr 1
        funext block
        simp only [Option.some.injEq, eq_comm]
      rw [part, part, same.blocks entry member object refers]

theorem searchLiteral (path needle : Text) :
    after.searchLiteral volume path needle = db.searchLiteral volume path needle := by
  have entries (selected : Zone × Text) :
      after.literalEntries volume needle selected = db.literalEntries volume needle selected := by
    unfold Database.literalEntries
    rw [same.filterEntries]
    apply List.filter_congr
    intro entry member
    rw [decide_eq_decide]
    refine and_congr_right fun inVolume => and_congr_right fun _ => and_congr_right fun _ => ?_
    rw [same.hasNeedle needle (List.mem_filter.mpr ⟨member, decide_eq_true inVolume⟩)]
  unfold Database.searchLiteral
  simp only [same.locateZone, same.selectedZones, entries]

theorem fileContent (path : Text) : after.fileContent volume path = db.fileContent volume path := by
  unfold Database.fileContent
  simp only [same.locateZone, funext same.entryAt]

theorem fileObject {path : Text} {object : Uuid} {content : Text}
    (read : db.fileContent volume path = .ok (some object, content)) :
    after.objectBlocks object = db.objectBlocks object := by
  unfold Database.fileContent at read
  obtain ⟨clean, -, read⟩ := bind_eq_ok.mp read
  split at read
  · cases read
  · rename_i entry found
    obtain ⟨location, -, entryFound⟩ := Option.bind_eq_some_iff.mp found
    split at read
    · obtain ⟨refers, -⟩ := Prod.mk.inj (Except.ok.inj read)
      exact same.objectBlocks (mem_of_entryAt entryFound).1 refers
    · cases read

theorem searchFileBlocks (path : Text) (needles : Option (List Text)) :
    after.searchFileBlocks volume path needles = db.searchFileBlocks volume path needles := by
  unfold Database.searchFileBlocks
  rw [same.fileContent]
  cases read : db.fileContent volume path with
  | error error => rfl
  | ok file =>
      obtain ⟨object, content⟩ := file
      cases object with
      | none => rfl
      | some object =>
          dsimp only [bind, Except.bind]
          rw [same.fileObject read]

theorem fileBlocks {path : Text} {file : Option Uuid × Text}
    (read : db.fileContent volume path = .ok file) :
    after.fileBlocks volume file = db.fileBlocks volume file := by
  obtain ⟨object, content⟩ := file
  cases object with
  | none => rfl
  | some object =>
      unfold Database.fileBlocks
      simp only
      rw [same.fileObject read]

theorem bindFile {α : Type} {path : Text} {first second : Option Uuid × Text → Result α}
    (agree : ∀ file, db.fileContent volume path = .ok file → first file = second file) :
    (after.fileContent volume path >>= first) = db.fileContent volume path >>= second := by
  rw [same.fileContent]
  cases read : db.fileContent volume path with
  | error error => rfl
  | ok file => exact agree file read

theorem candidateFileAsciiText (path : Text) (minimumLetters : Nat) :
    after.candidateFileAsciiText volume path minimumLetters =
      db.candidateFileAsciiText volume path minimumLetters := by
  refine same.bindFile ?_
  intro file read
  dsimp only
  rw [same.fileBlocks read]

theorem candidateShortText (path needle : Text) :
    after.candidateShortText volume path needle = db.candidateShortText volume path needle := by
  refine same.bindFile ?_
  intro file read
  rw [same.fileBlocks read]

theorem candidateFileLiteralText (path needle : Text) :
    after.candidateFileLiteralText volume path needle =
      db.candidateFileLiteralText volume path needle := by
  refine same.bindFile ?_
  intro file read
  rw [same.fileBlocks read]

theorem candidateIndexedLines (path : Text) (needles : Option (List Text))
    (minimumAsciiLetters : Option Nat) :
    after.candidateIndexedLines volume path needles minimumAsciiLetters =
      db.candidateIndexedLines volume path needles minimumAsciiLetters := by
  refine same.bindFile ?_
  intro file read
  dsimp only
  rw [same.fileBlocks read]

theorem candidateRows (path : Text) (literals : Option (List Text)) (requiredWord : Option Text)
    (minimumAsciiLetters : Option Nat) :
    after.candidateRows volume path literals requiredWord minimumAsciiLetters =
      db.candidateRows volume path literals requiredWord minimumAsciiLetters := by
  unfold Database.candidateRows
  simp only [same.candidateShortText, same.candidateFileLiteralText, same.candidateFileAsciiText,
    same.candidateIndexedLines]

theorem entryBlocks (entry : ZoneEntry) :
    after.entryBlocks volume entry = db.entryBlocks volume entry := by
  have part (state : Database) : state.entryBlocks volume entry =
      (state.allContentBlocks.filter fun block => decide (block.volumeId = volume)).filter
        fun block => decide (entry.contentObject = some block.objectId) := by
    unfold Database.entryBlocks
    rw [List.filter_filter]
    apply List.filter_congr
    intro block _
    rw [Bool.decide_and]
  rw [part, part, same.ownBlocks]

theorem eligibleIn (fileSuffixes : List Text) (zone : NodeId) (inside : ZoneEntry → Bool) :
    after.eligibleIn volume fileSuffixes zone inside =
      db.eligibleIn volume fileSuffixes zone inside := by
  unfold Database.eligibleIn
  rw [same.filterEntries]

theorem searchCandidateBlocks (path : Text) (needles : Option (List Text))
    (fileSuffixes : List Text) :
    after.searchCandidateBlocks volume path needles fileSuffixes =
      db.searchCandidateBlocks volume path needles fileSuffixes := by
  have lines (needle : Text) : after.needleLines volume needle = db.needleLines volume needle := by
    funext file
    unfold Database.needleLines
    rw [same.entryBlocks]
  have blocks : after.matchingBlocks volume needles = db.matchingBlocks volume needles := by
    funext file
    unfold Database.matchingBlocks
    rw [same.entryBlocks]
  unfold Database.searchCandidateBlocks Database.eligibleObjects
  simp only [same.locateZone, same.eligibleIn, same.filterZones, lines, blocks]

theorem searchScope (path : Text) : after.searchScope volume path = db.searchScope volume path := by
  have descendants (target : Text) (zone : NodeId) :
      after.hasDescendants volume target zone = db.hasDescendants volume target zone := by
    have part (state : Database) : state.hasDescendants volume target zone =
        (state.zonesOf volume).any fun other => decide (other.id ≠ zone ∧ (target = ['/'] ∨
          other.path = target ∨ (target ++ ['/']).isPrefixOf other.path = true)) := by
      unfold Database.hasDescendants Database.zonesOf
      rw [List.any_filter]
      congr 1
      funext other
      rw [Bool.decide_and]
    rw [part, part, same.zones]
  have segments (location : Location) :
      after.scopeSegments volume location = db.scopeSegments volume location := by
    unfold Database.scopeSegments
    rw [same.filterEntries]
    congr 1
    apply List.flatMap_congr
    intro entry member
    have inVolume := (of_decide_eq_true (List.mem_filter.mp member).2).1
    have part (state : Database) : (state.contentObjects.filter fun object =>
        decide (entry.contentObject = some object.id ∧ object.volumeId = entry.volumeId)) =
          (state.contentObjects.filter fun object => decide (object.volumeId = volume)).filter
            fun object => decide (entry.contentObject = some object.id) := by
      rw [List.filter_filter]
      apply List.filter_congr
      intro object _
      rw [Bool.decide_and, inVolume]
    rw [part, part, same.ownObjects]
  unfold Database.searchScope
  simp only [same.locateZone, descendants, segments]

theorem candidateBlocks (path : Text) (literals : Option (List Text)) (fileSuffixes : List Text) :
    after.candidateBlocks volume path literals fileSuffixes =
      db.candidateBlocks volume path literals fileSuffixes := by
  have blocks (scope : SearchScope) (literal : Text) :
      after.literalBlocks volume scope literal = db.literalBlocks volume scope literal := by
    funext file
    unfold Database.literalBlocks
    rw [same.entryBlocks]
  unfold Database.candidateBlocks Database.searchedBlocks Database.literalCandidates
  simp only [same.searchScope, same.searchCandidateBlocks, same.eligibleIn, blocks]

end SameReach

/-! ### Runs -/

/-- Every reader of the volume answers as before, with the same rows or the same error. -/
structure SameAnswers (db after : Database) (volume : Uuid) : Prop where
  stat : ∀ path, after.stat volume path = db.stat volume path
  inode : ∀ id, after.inode volume id = db.inode volume id
  kindOf : ∀ path, after.kindOf volume path = db.kindOf volume path
  list : ∀ path, after.list volume path = db.list volume path
  walk : ∀ path, after.walk volume path = db.walk volume path
  findPaths : ∀ path namePattern kindFilter, after.findPaths volume path namePattern kindFilter =
    db.findPaths volume path namePattern kindFilter
  findCommandOutput : ∀ path namePattern kindFilter pathPrefix,
    after.findCommandOutput volume path namePattern kindFilter pathPrefix =
      db.findCommandOutput volume path namePattern kindFilter pathPrefix
  diskUsage : ∀ path, after.diskUsage volume path = db.diskUsage volume path
  diskUsageFast : ∀ path, after.diskUsageFast volume path = db.diskUsageFast volume path
  read : ∀ path, after.read volume path = db.read volume path
  readMany : ∀ paths, after.readMany volume paths = db.readMany volume paths
  readRange : ∀ path offset length, after.clientReadRange volume path offset length =
    db.clientReadRange volume path offset length
  cat : ∀ paths, after.cat volume paths = db.cat volume paths
  searchLiteral : ∀ path needle, after.searchLiteral volume path needle =
    db.searchLiteral volume path needle
  searchFileBlocks : ∀ path needles, after.searchFileBlocks volume path needles =
    db.searchFileBlocks volume path needles
  candidateRows : ∀ path literals requiredWord minimumAsciiLetters,
    after.candidateRows volume path literals requiredWord minimumAsciiLetters =
      db.candidateRows volume path literals requiredWord minimumAsciiLetters
  candidateBlocks : ∀ path literals fileSuffixes,
    after.candidateBlocks volume path literals fileSuffixes =
      db.candidateBlocks volume path literals fileSuffixes

theorem SameReach.answers {db after : Database} {volume : Uuid} (same : SameReach db after volume)
    (keys : Keys db) : SameAnswers db after volume where
  stat := same.stat
  inode := same.inode keys
  kindOf := same.kindOf
  list := same.list
  walk := fun path => same.findEntries path none none
  findPaths := same.findPaths
  findCommandOutput := same.findCommandOutput
  diskUsage := same.diskUsage
  diskUsageFast := same.diskUsageFast
  read := same.read
  readMany := same.readMany
  readRange := same.clientReadRange
  cat := same.cat
  searchLiteral := same.searchLiteral
  searchFileBlocks := same.searchFileBlocks
  candidateRows := same.candidateRows
  candidateBlocks := same.candidateBlocks

theorem Orderly.afterCalls {db : Database} (orderly : Orderly db) (calls : List Call) :
    Orderly (db.afterCalls calls) := by
  induction calls generalizing db with
  | nil => exact orderly
  | cons call rest ih => exact ih (orderly.step rfl).1

theorem rowsOf_afterCalls {db : Database} {volume : Uuid} (orderly : Orderly db)
    {calls : List Call} (foreign : ∀ call ∈ calls, volume ≠ call.volume) :
    (db.afterCalls calls).rowsOf volume = db.rowsOf volume := by
  induction calls generalizing db with
  | nil => rfl
  | cons call rest ih =>
      obtain ⟨here, later⟩ := List.forall_mem_cons.mp foreign
      exact (ih (orderly.step rfl).1 later).trans (rowsOf_step orderly here rfl)

/-- Calls on other volumes, committed or aborted, change no row of a volume and no answer
about it. -/
theorem volumes_isolated {db : Database} (reachable : ReachableByCalls db) {volume : Uuid}
    {calls : List Call} (foreign : ∀ call ∈ calls, volume ≠ call.volume) :
    (db.afterCalls calls).rowsOf volume = db.rowsOf volume ∧
      SameAnswers db (db.afterCalls calls) volume := by
  have orderly := orderly_of_reachable reachable
  have later := orderly.afterCalls calls
  have same := rowsOf_afterCalls orderly foreign
  exact ⟨same, (SameReach.of_rows orderly.sound orderly.catalog later.sound later.catalog
    same).answers orderly.sound.keys⟩

/-- A volume with a text keeps it while another volume is filled and removed. -/
def foreignCalls : List Call :=
  [.operation (.importTree 8 ['/', 'd'] mixedBatch 3), .operation (.remove 8 ['/', 'd'] true),
    .removeVolume 8]

theorem volumes_isolated_beside_another :
    let db := Database.empty.calls [.createVolume 7 ['v'] 0, .createVolume 8 ['w'] 1,
      .writeFile 7 ['/', 't'] [104, 105] 420 2]
    (db.afterCalls foreignCalls).rowsOf 7 = db.rowsOf 7 ∧
      SameAnswers db (db.afterCalls foreignCalls) 7 := by
  refine volumes_isolated (reachable_calls _).byCalls ?_
  unfold foreignCalls
  decide

end PostgreOS
