/-
What an import stores.

The entries of a batch become one node each, at the destination and below it. A stream that
breaks off, and a batch that does not pass the checks, leave the volume as it was.
-/

import PostgreOS.Consistency
import PostgreOS.CopySpec
import PostgreOS.Find
import PostgreOS.ReadBack
import PostgreOS.SegmentLifecycle

namespace PostgreOS

open Library.Outcome Library.Table

/-- `Database::import`. An error in the stream ends the copy of the entries before it. -/
def Database.importStream (db : Database) (volume : Uuid) (destination : Text)
    (stream : List (Result ImportEntry)) (now : Timestamp) : Result (Database × Nat) := do
  let target ← normalize destination
  let _ ← db.prepareImport volume target
  let entries ← stream.mapM fun entry => entry
  db.importTree volume target entries now

def Database.afterImport (db : Database) (volume : Uuid) (destination : Text)
    (stream : List (Result ImportEntry)) (now : Timestamp) : Database :=
  transact db (Prod.fst <$> db.importStream volume destination stream now)

/-- A node shows what an entry asks for. -/
structure ShownAs (entry : ImportEntry) (node : Node) : Prop where
  kind : node.kind.code = entry.kind
  mode : node.mode = entry.mode
  uid : node.uid = entry.uid
  gid : node.gid = entry.gid
  linkTarget : node.linkTarget =
    if entry.kind = Kind.symlink.code then some entry.linkTarget else none
  content : node.content = if entry.kind = Kind.file.code then some entry.content else none

/-- At and below `target` are the nodes of the entries, elsewhere is what was there before. -/
structure ImportedExactly (db after : Database) (volume : Uuid) (target : Text)
    (entries : List ImportEntry) : Prop where
  apart : (entries.map fun entry => absolutePath target entry.relativePath).Nodup
  unique : ((after.nodes volume).map fun node => node.path).Nodup
  shown : ∀ entry ∈ entries, ∃ node ∈ after.nodes volume,
    node.path = absolutePath target entry.relativePath ∧ ShownAs entry node
  only : ∀ node ∈ after.nodes volume, AtOrBelow target node.path →
    ∃ entry ∈ entries, node.path = absolutePath target entry.relativePath
  others : ∀ node, ¬ AtOrBelow target node.path →
    (node ∈ after.nodes volume ↔ node ∈ db.nodes volume)
  reads : ∀ entry ∈ entries, entry.kind = Kind.file.code → entry.content.length ≤ 134217728 →
    after.readFile volume (absolutePath target entry.relativePath) = .ok entry.content

/-- What makes an import fail. -/
inductive ImportFault (db : Database) (volume : Uuid) (target : Text)
    (stream : List (Result ImportEntry)) : Prop where
  | failingEntry {error : PgError} (member : .error error ∈ stream)
  | noRoot (none : ∀ entry, .ok entry ∈ stream → entry.relativePath ≠ [])
  | invalidPath {entry : ImportEntry} (member : .ok entry ∈ stream)
      (inner : entry.relativePath ≠ []) (invalid : ¬ CanonicalRelative entry.relativePath)
  | noDirectory {entry : ImportEntry} (member : .ok entry ∈ stream)
      (inner : entry.relativePath ≠ [])
      (missing : ∀ parent, .ok parent ∈ stream →
        parent.relativePath = relativeParent entry.relativePath →
          parent.kind ≠ Kind.directory.code)
  | noParent (missing : ∀ node ∈ db.nodes volume, some node.path = parentOf target →
      node.kind ≠ .directory)
  | existing {node : Node} (member : node ∈ db.nodes volume) (path : node.path = target)

theorem Kind.code_of_ofCode {code : Int} {kind : Kind} (found : Kind.ofCode code = some kind) :
    kind.code = code := by
  unfold Kind.ofCode at found
  split at found
  · rename_i isFile
    rw [← Option.some.inj found, isFile]
    rfl
  · split at found
    · rename_i isDirectory
      rw [← Option.some.inj found, isDirectory]
      rfl
    · split at found
      · rename_i isSymlink
        rw [← Option.some.inj found, isSymlink]
        rfl
      · cases found

theorem Kind.code_inj {first second : Kind} : first.code = second.code ↔ first = second := by
  cases first <;> cases second <;> decide

/-- A row of the staging table holds the data of its entry. -/
structure Stages (entry : ImportEntry) (staged : StagedEntry) : Prop where
  relativePath : staged.relativePath = entry.relativePath
  kind : staged.kind.code = entry.kind
  content : staged.content = entry.content
  mode : staged.mode = entry.mode
  uid : staged.uid = entry.uid
  gid : staged.gid = entry.gid
  linkTarget : staged.linkTarget = entry.linkTarget

theorem stages_of_stageEntry {entry : ImportEntry} {staged : StagedEntry}
    (done : stageEntry entry = .ok staged) : Stages entry staged := by
  unfold stageEntry at done
  split at done
  · cases done
  · rename_i kind found
    split at done
    · rw [← Except.ok.inj done]
      exact ⟨rfl, Kind.code_of_ofCode found, rfl, rfl, rfl, rfl, rfl⟩
    · cases done

/-- A node shows what was staged. -/
structure ShowsStaged (staged : StagedEntry) (node : Node) : Prop where
  kind : node.kind = staged.kind
  mode : node.mode = staged.mode
  uid : node.uid = staged.uid
  gid : node.gid = staged.gid
  size : node.size = staged.size
  linkTarget : node.linkTarget = if staged.kind = .symlink then some staged.linkTarget else none
  content : node.content = if staged.kind = .file then some staged.content else none

theorem ShowsStaged.shownAs {entry : ImportEntry} {staged : StagedEntry} {node : Node}
    (shows : ShowsStaged staged node) (stages : Stages entry staged) : ShownAs entry node := by
  have kindIff (kind : Kind) : entry.kind = kind.code ↔ staged.kind = kind := by
    rw [← stages.kind]
    exact Kind.code_inj
  constructor
  · rw [shows.kind]
    exact stages.kind
  · exact shows.mode.trans stages.mode
  · exact shows.uid.trans stages.uid
  · exact shows.gid.trans stages.gid
  · rw [shows.linkTarget, stages.linkTarget]
    exact if_congr (kindIff .symlink).symm rfl rfl
  · rw [shows.content, stages.content]
    exact if_congr (kindIff .file).symm rfl rfl

section Rows

variable {db after : Database} {volume : Uuid} {staged : StagedEntry} {now : Timestamp}

theorem showsStaged_of_row {entry : ZoneEntry} (zonePath : Text)
    (payload : entry.payload = staged.payload) (size : entry.size = staged.size)
    (metadata : entry.metadata = staged.metadata now) :
    ShowsStaged staged (nodeOfEntry db.contentOf zonePath entry) := by
  constructor
  · change entry.kind = staged.kind
    rw [ZoneEntry.kind, payload]
    exact staged.payload_kind
  · exact congrArg Metadata.mode metadata
  · exact congrArg Metadata.uid metadata
  · exact congrArg Metadata.gid metadata
  · exact size
  · change entry.linkTarget = _
    rw [ZoneEntry.linkTarget, payload, StagedEntry.payload]
    cases staged.kind <;> rfl
  · change db.contentOf entry = _
    rw [Database.contentOf, payload, StagedEntry.payload]
    cases staged.kind with
    | file => exact congrArg some (fileDataOf_bytes staged.content)
    | directory => rfl
    | symlink => rfl

theorem showsStaged_importedZone {parent : Location} {path : Text} (id : NodeId)
    (directory : staged.kind = .directory) :
    ShowsStaged staged (nodeOfZone (importedZone volume parent path staged now id)) := by
  constructor
  · exact directory.symm
  · rfl
  · rfl
  · rfl
  · rw [StagedEntry.size, directory]
    rfl
  · rw [directory]
    rfl
  · rw [directory]
    rfl

end Rows

/-! ### The nodes of a batch -/

section Batch

variable {db after : Database} {volume : Uuid} {destination : Text} {staging : List StagedEntry}
  {now : Timestamp} {count : Nat}

/-- `node` is the node of `staged` in the subtree at `destination`. -/
def ImportedAt (destination : Text) (staged : StagedEntry) (node : Node) : Prop :=
  node.path = absolutePath destination staged.relativePath ∧ ShowsStaged staged node

/-- The nodes of a batch are added to those of the volume. -/
structure AddsBatch (before added : List Node) (destination : Text)
    (staging : List StagedEntry) : Prop where
  kept : ∀ node ∈ before, node ∈ added
  new : ∀ node ∈ added, node ∈ before ∨ ∃ staged ∈ staging, ImportedAt destination staged node
  placed : ∀ staged ∈ staging, ∃ node ∈ added, ImportedAt destination staged node

/-- Nodes are added for the rows of a batch, each where and as its row says. -/
structure AddsNodes (before added : List Node) (staging : List StagedEntry)
    (placed : StagedEntry → Node → Prop) : Prop where
  kept : ∀ node ∈ before, node ∈ added
  new : ∀ node ∈ added, node ∈ before ∨ ∃ staged ∈ staging, placed staged node
  placed : ∀ staged ∈ staging, ∃ node ∈ added, placed staged node

theorem importedRoot_path {owner : ZoneNode} {upper rest : List Text} {name : Text}
    {parent : Location} (place : (db.tree volume).Place destination parent owner upper rest name)
    (content : ZoneEntry → Option Bytes) (root : StagedEntry) (serial : NodeId) :
    (nodeOfEntry content owner.path
      (importedRoot volume parent (nameOf destination) root now serial)).path = destination := by
  have child : childRelative parent.relativePath (nameOf destination) =
      relativeText (rest ++ [name]) := congrArg Location.relativePath place.child_eq
  rw [nodeOfEntry_path]
  change absolutePath owner.path (childRelative parent.relativePath (nameOf destination)) = _
  rw [child, place.zoneAt.path, absolutePath_texts place.zoneAt.valid place.valid, place.path_eq]

theorem ValidBatch.root_path {root : StagedEntry} (batch : ValidBatch staging root) :
    root.relativePath = [] := by
  have found := List.find?_some batch.root
  rwa [decide_eq_true_eq] at found

/-- Every row becomes a node at its path that shows what such rows show. -/
theorem applyImportInline_adds {shows : StagedEntry → Node → Prop} (sound : Sound db)
    (wellFormed : (db.tree volume).WellFormed)
    (distinct : (staging.map StagedEntry.relativePath).Nodup)
    (rows : ∀ (filled : Database) (zonePath : Text) (staged : StagedEntry) (entry : ZoneEntry),
      entry.payload = staged.payload → entry.size = staged.size →
        entry.metadata = staged.metadata now →
          shows staged (nodeOfEntry filled.contentOf zonePath entry))
    (zones : ∀ (staged : StagedEntry) (parent : Location) (id : NodeId), staged.kind = .directory →
      shows staged (nodeOfZone (importedZone volume parent destination staged now id)))
    (done : db.applyImportInline volume destination staging now = .ok (after, count)) :
    AddsNodes (db.nodes volume) (after.nodes volume) staging fun staged node =>
      node.path = absolutePath destination staged.relativePath ∧ shows staged node := by
  obtain ⟨-, root, parent, batch, vacant, ⟨directory, inserted, zone, zoneOk, fillOk⟩ |
    ⟨single, insertOk⟩⟩ := applyImportInline_ok done
  · have zoneId : zone = db.nextNode := (insertZone_ok zoneOk).2.1
    have keys := ((Kept.refl sound).insertZone (fun _ => rfl)
      (fun _ => vacant.canonical.zonePath) zoneOk).sound.keys
    have inVolume : (importedZone volume parent destination root now db.nextNode).volumeId = volume :=
      rfl
    have withZone := mem_nodes_insertZone sound.keys inVolume rfl zoneOk
    have here : importedZone volume parent destination root now db.nextNode ∈
        (inserted.tree volume).zones := by
      rw [tree_insertZone_own inVolume zoneOk]
      exact List.mem_append_right _ (List.mem_singleton_self _)
    have withRows := mem_nodes_insertEntries keys here (fun make member serial => by
      obtain ⟨staged, -, rfl⟩ := List.mem_map.mp member
      exact ⟨rfl, zoneId⟩) fillOk
    have rootPath : destination = absolutePath destination root.relativePath := by
      rw [batch.root_path]
      rfl
    have rootAt := And.intro rootPath (zones root parent db.nextNode directory)
    have rowAt (staged : StagedEntry) (serial : NodeId) :=
      rows inserted destination staged (importedEntry volume zone staged now serial) rfl rfl rfl
    constructor
    · intro node member
      exact (withRows node).mpr (Or.inl ((withZone node).mpr (Or.inl member)))
    · intro node member
      rcases (withRows node).mp member with old | new
      · rcases (withZone node).mp old with older | rfl
        · exact Or.inl older
        · exact Or.inr ⟨root, List.mem_of_find?_eq_some batch.root, rootAt⟩
      · obtain ⟨row, rowMember, rfl⟩ := List.mem_map.mp new
        obtain ⟨make, makeMember, serial, -, -, rfl⟩ := mem_numbered rowMember
        obtain ⟨staged, inner, rfl⟩ := List.mem_map.mp makeMember
        exact Or.inr ⟨staged, List.mem_of_mem_filter inner, rfl, rowAt staged serial⟩
    · intro staged member
      by_cases outer : staged.relativePath = []
      · rw [batch.root_eq distinct member outer]
        exact ⟨_, (withRows _).mpr (Or.inl ((withZone _).mpr (Or.inr rfl))), rootAt⟩
      · have listed : importedEntry volume zone staged now ∈
            importedRows volume zone staging now :=
          List.mem_map.mpr ⟨staged, List.mem_filter.mpr ⟨member, decide_eq_true outer⟩, rfl⟩
        obtain ⟨serial, -, arrived⟩ := exists_mem_numbered inserted.nextNode listed
        exact ⟨_, (withRows _).mpr (Or.inr (List.mem_map_of_mem arrived)), rfl, rowAt staged serial⟩
  · obtain ⟨owner, upper, rest, name, place, -⟩ := vacant.place wellFormed
    have withRow := mem_nodes_insertEntries sound.keys place.zoneAt.member (fun make member serial => by
      rw [List.mem_singleton.mp member]
      exact ⟨rfl, congrArg Location.zoneId place.location_eq⟩) insertOk
    have rootOnly : ∀ staged ∈ staging, staged = root := by
      intro staged member
      refine batch.root_eq distinct member ?_
      by_contra inner
      exact single (batch.root_directory distinct member inner)
    have rootAt (serial : NodeId) :
        (nodeOfEntry db.contentOf owner.path (importedRoot volume parent (nameOf destination) root now
          serial)).path = absolutePath destination root.relativePath ∧
        shows root (nodeOfEntry db.contentOf owner.path
          (importedRoot volume parent (nameOf destination) root now serial)) := by
      refine ⟨?_, rows db owner.path root _ rfl rfl rfl⟩
      rw [importedRoot_path place, batch.root_path]
      rfl
    constructor
    · intro node member
      exact (withRow node).mpr (Or.inl member)
    · intro node member
      rcases (withRow node).mp member with old | new
      · exact Or.inl old
      · obtain ⟨row, rowMember, rfl⟩ := List.mem_map.mp new
        obtain ⟨make, makeMember, serial, -, -, rfl⟩ := mem_numbered rowMember
        rw [List.mem_singleton.mp makeMember]
        exact Or.inr ⟨root, List.mem_of_find?_eq_some batch.root, rootAt serial⟩
    · intro staged member
      rw [rootOnly staged member]
      obtain ⟨serial, -, arrived⟩ := exists_mem_numbered db.nextNode (List.mem_singleton_self
        (importedRoot volume parent (nameOf destination) root now))
      exact ⟨_, (withRow _).mpr (Or.inr (List.mem_map_of_mem arrived)), rootAt serial⟩

theorem applyImportInline_nodes (sound : Sound db) (wellFormed : (db.tree volume).WellFormed)
    (distinct : (staging.map StagedEntry.relativePath).Nodup)
    (done : db.applyImportInline volume destination staging now = .ok (after, count)) :
    AddsBatch (db.nodes volume) (after.nodes volume) destination staging := by
  have adds := applyImportInline_adds sound wellFormed distinct
    (fun _ zonePath _ _ payload size metadata => showsStaged_of_row zonePath payload size metadata)
    (fun _ _ id directory => showsStaged_importedZone id directory) done
  exact ⟨adds.kept, adds.new, adds.placed⟩

end Batch

theorem absolutePath_of_ne_root {target : Text} (notRoot : target ≠ ['/']) (relative : Text) :
    absolutePath target relative = target ++ if relative = [] then [] else '/' :: relative := by
  unfold absolutePath
  by_cases outer : relative = []
  · rw [if_pos outer, if_pos outer, List.append_nil]
  · rw [if_neg outer, if_neg outer, if_neg notRoot]

theorem absolutePath_injective {target : Text} (notRoot : target ≠ ['/']) :
    Function.Injective (absolutePath target) := by
  intro first second same
  rw [absolutePath_of_ne_root notRoot, absolutePath_of_ne_root notRoot] at same
  have rest := List.append_cancel_left same
  by_cases outer : first = []
  · by_cases other : second = []
    · rw [outer, other]
    · rw [if_pos outer, if_neg other] at rest
      cases rest
  · by_cases other : second = []
    · rw [if_neg outer, if_pos other] at rest
      cases rest
    · rw [if_neg outer, if_neg other] at rest
      exact List.cons_inj_right '/' |>.mp rest

theorem atOrBelow_absolutePath {target : Text} (notRoot : target ≠ ['/']) (relative : Text) :
    AtOrBelow target (absolutePath target relative) := by
  rw [absolutePath_of_ne_root notRoot, atOrBelow_append_iff]
  by_cases outer : relative = []
  · exact Or.inl (if_pos outer)
  · rw [if_neg outer]
    exact Or.inr (List.prefix_append ['/'] relative)

theorem Tree.WellFormed.node_eq_of_path {tree : Tree} (wellFormed : tree.WellFormed)
    {content : ZoneEntry → Option Bytes} {first second : Node}
    (hFirst : first ∈ tree.nodes content) (hSecond : second ∈ tree.nodes content)
    (same : first.path = second.path) : first = second := by
  have consistent := wellFormed.consistent
  obtain ⟨zone, member, rfl⟩ | ⟨entry, member, zone, zoneMember, inZone, rfl⟩ :=
    Tree.mem_nodes.mp hFirst
  · obtain ⟨other, otherMember, rfl⟩ | ⟨other, otherMember, owner, ownerMember, inOwner, rfl⟩ :=
      Tree.mem_nodes.mp hSecond
    · rw [consistent.zones_apart zone member other otherMember same]
    · exact absurd same.symm
        (consistent.apart other otherMember owner ownerMember inOwner zone member)
  · obtain ⟨other, otherMember, rfl⟩ | ⟨other, otherMember, owner, ownerMember, inOwner, rfl⟩ :=
      Tree.mem_nodes.mp hSecond
    · exact absurd same (consistent.apart entry member zone zoneMember inZone other otherMember)
    · obtain rfl := consistent.entries_apart entry member other otherMember zone zoneMember owner
        ownerMember inZone inOwner same
      rw [wellFormed.zone_ids zone zoneMember owner ownerMember (inZone.trans inOwner.symm)]

theorem Tree.exists_node_of_has {tree : Tree} (content : ZoneEntry → Option Bytes)
    {names : List Text} {kind : Kind} (has : tree.Has names kind) :
    ∃ node ∈ tree.nodes content, node.path = pathText names ∧ node.kind = kind := by
  cases has with
  | @zone zone _ found => exact ⟨nodeOfZone zone, Tree.nodeOfZone_mem found.member, found.path, rfl⟩
  | @entry zone entry front rest found =>
      exact ⟨nodeOfEntry content zone.path entry,
        Tree.nodeOfEntry_mem found.member found.zoneAt.member found.inZone.symm,
        found.absolutePath_eq, rfl⟩

section Nodes

variable {db : Database} {volume : Uuid}

theorem node_paths_nodup (keys : Keys db) (wellFormed : (db.tree volume).WellFormed) :
    ((db.nodes volume).map fun node => node.path).Nodup := by
  have ids := (keys.identified volume).node_ids db.contentOf
  exact List.Nodup.map_on (fun _ hFirst _ hSecond same =>
    wellFormed.node_eq_of_path hFirst hSecond same) (List.Nodup.of_map _ ids)

theorem readFile_of_node (sound : Sound db) (wellFormed : (db.tree volume).WellFormed)
    {node : Node} (member : node ∈ db.nodes volume) {bytes : Bytes}
    (content : node.content = some bytes) (small : node.size ≤ 134217728) :
    db.readFile volume node.path = .ok bytes := by
  obtain ⟨zone, -, rfl⟩ | ⟨entry, entryMember, zone, zoneMember, inZone, rfl⟩ :=
    Tree.mem_nodes.mp member
  · cases content
  · obtain ⟨owner, front, rest, found⟩ := wellFormed.entryAt_of_mem entryMember
    obtain rfl := wellFormed.zone_ids owner found.zoneAt.member zone zoneMember
      (found.inZone.symm.trans inZone.symm)
    rw [nodeOfEntry_path, found.absolutePath_eq, readFile_of_entryAt sound wellFormed found content,
      if_neg fun oversized : entry.Oversized => Nat.not_lt.mpr small oversized.2]

end Nodes

/-! ### Imports that succeed -/

section Imports

variable {db after : Database} {volume : Uuid} {target : Text} {entries : List ImportEntry}
  {now : Timestamp} {count : Nat}

theorem staged_paths {staging : List StagedEntry}
    (staged : List.Forall₂ (fun entry row => stageEntry entry = .ok row) entries staging) :
    staging.map StagedEntry.relativePath = entries.map ImportEntry.relativePath := by
  induction staged with
  | nil => rfl
  | cons first _ ih =>
      rw [List.map_cons, List.map_cons, ih, (stages_of_stageEntry first).relativePath]

theorem importTree_exact (state : WellFormedVolume db volume)
    (done : db.importTree volume target entries now = .ok (after, count)) :
    ImportedExactly db after volume target entries := by
  obtain ⟨staging, root, imported, location, accepted, importOk, -, blockOk⟩ :=
    importTree_accepted done
  have sound := state.committed.sound
  have notRoot := (prepareImport_ok accepted.prepared).2
  have staged := mapM_eq_ok.mp accepted.staged
  have adds := applyImportInline_nodes sound state.tree accepted.distinct importOk
  have importedKept := applyImportInline_kept (.refl sound) importOk
  obtain ⟨change, blockized⟩ := blockizeZoneSegment_ok importedKept.sound blockOk
  have wellFormed := importTree_wellFormed sound state.tree done
  rw [← blockized.nodes volume] at adds
  obtain ⟨-, -, parent, -, vacant, -⟩ := applyImportInline_ok importOk
  have free := vacant.free_nodes state.tree
  have shown : ∀ entry ∈ entries, ∃ staged, Stages entry staged ∧
      ∃ node ∈ after.nodes volume, ImportedAt target staged node := by
    intro entry member
    obtain ⟨row, rowMember, done⟩ := exists_right_of_forall₂ staged member
    exact ⟨row, stages_of_stageEntry done, adds.placed row rowMember⟩
  constructor
  · have distinct := accepted.distinct.map (absolutePath_injective notRoot)
    rw [staged_paths staged, List.map_map] at distinct
    exact distinct
  · exact node_paths_nodup blockized.sound.keys wellFormed
  · intro entry member
    obtain ⟨row, stages, node, nodeMember, path, shows⟩ := shown entry member
    exact ⟨node, nodeMember, stages.relativePath ▸ path, shows.shownAs stages⟩
  · intro node member below
    rcases adds.new node member with old | ⟨row, rowMember, path, -⟩
    · exact absurd below (free node old)
    · obtain ⟨entry, entryMember, done⟩ := exists_left_of_forall₂ _ staged rowMember
      exact ⟨entry, entryMember, (stages_of_stageEntry done).relativePath ▸ path⟩
  · intro node outside
    refine ⟨fun member => ?_, adds.kept node⟩
    rcases adds.new node member with old | ⟨row, -, path, -⟩
    · exact old
    · exact absurd (path ▸ atOrBelow_absolutePath notRoot row.relativePath) outside
  · intro entry member regular small
    obtain ⟨row, stages, node, nodeMember, path, shows⟩ := shown entry member
    have isFile : row.kind = .file := Kind.code_inj.mp (stages.kind.trans regular)
    rw [← stages.relativePath, ← path, ← stages.content]
    refine readFile_of_node blockized.sound wellFormed nodeMember ?_ ?_
    · rw [shows.content, if_pos isFile]
    · rw [shows.size, StagedEntry.size, isFile, stages.content]
      exact small

/-- An import that succeeds has passed every check on its stream and its destination. -/
theorem importTree_no_fault (state : WellFormedVolume db volume)
    (done : db.importTree volume target entries now = .ok (after, count)) :
    ¬ ImportFault db volume target (entries.map .ok) := by
  obtain ⟨staging, root, imported, location, accepted, importOk, -, -⟩ := importTree_accepted done
  obtain ⟨-, -, parent, -, vacant, -⟩ := applyImportInline_ok importOk
  have staged := mapM_eq_ok.mp accepted.staged
  have listed {entry : ImportEntry} :
      (Except.ok entry : Result ImportEntry) ∈ entries.map .ok ↔ entry ∈ entries := by
    rw [List.mem_map]
    constructor
    · rintro ⟨other, member, same⟩
      rwa [← Except.ok.inj same]
    · exact fun member => ⟨entry, member, rfl⟩
  intro fault
  cases fault with
  | failingEntry member =>
      obtain ⟨entry, -, impossible⟩ := List.mem_map.mp member
      cases impossible
  | noRoot none =>
      obtain ⟨entry, entryMember, done⟩ :=
        exists_left_of_forall₂ _ staged (List.mem_of_find?_eq_some accepted.batch.root)
      refine none entry (listed.mpr entryMember) ?_
      rw [← (stages_of_stageEntry done).relativePath]
      exact accepted.batch.root_path
  | invalidPath member inner invalid =>
      obtain ⟨row, rowMember, done⟩ := exists_right_of_forall₂ staged (listed.mp member)
      have path := (stages_of_stageEntry done).relativePath
      rw [← path] at inner invalid
      exact invalid (accepted.batch.canonical row rowMember inner)
  | noDirectory member inner missing =>
      obtain ⟨row, rowMember, done⟩ := exists_right_of_forall₂ staged (listed.mp member)
      have path := (stages_of_stageEntry done).relativePath
      rw [← path] at inner missing
      obtain ⟨above, aboveMember, abovePath, directory⟩ :=
        accepted.batch.parents row rowMember inner
      obtain ⟨entry, entryMember, aboveDone⟩ := exists_left_of_forall₂ _ staged aboveMember
      have stages := stages_of_stageEntry aboveDone
      refine missing entry (listed.mpr entryMember) (stages.relativePath.symm.trans abovePath) ?_
      rw [← stages.kind, directory]
  | noParent missing =>
      obtain ⟨owner, upper, rest, name, place, -⟩ := vacant.place state.tree
      have parentPath : parentOf target = some (pathText (upper ++ rest)) := by
        have valid := place.components
        rw [← List.append_assoc] at valid
        rw [place.path_eq, ← List.append_assoc]
        exact parentOf_pathText valid
      obtain ⟨node, member, path, directory⟩ := Tree.exists_node_of_has db.contentOf
        (place.zoneAt.has_of_directoryIn place.valid.left place.inside)
      exact missing node member (path ▸ parentPath.symm) directory
  | existing member path =>
      exact vacant.free_nodes state.tree _ member (Or.inl path)

theorem importStream_ok {destination : Text} {stream : List (Result ImportEntry)}
    (done : db.importStream volume destination stream now = .ok (after, count)) :
    ∃ target entries, normalize destination = .ok target ∧ stream = entries.map .ok ∧
      db.importTree volume target entries now = .ok (after, count) := by
  unfold Database.importStream at done
  obtain ⟨target, normalized, done⟩ := bind_eq_ok.mp done
  obtain ⟨-, -, done⟩ := bind_eq_ok.mp done
  obtain ⟨entries, streamed, imported⟩ := bind_eq_ok.mp done
  exact ⟨target, entries, normalized, mapM_results streamed, imported⟩

/-- An import stores its stream exactly or leaves the database as it was, and a faulty stream
or destination makes it fail. -/
theorem importStream_atomic (state : WellFormedVolume db volume) (destination : Text)
    (stream : List (Result ImportEntry)) (now : Timestamp) :
    ((∃ error, db.importStream volume destination stream now = .error error ∧
        db.afterImport volume destination stream now = db) ∨
      ∃ target entries, normalize destination = .ok target ∧ stream = entries.map .ok ∧
        ImportedExactly db (db.afterImport volume destination stream now) volume target entries) ∧
    ∀ target, normalize destination = .ok target → ImportFault db volume target stream →
      ∃ error, db.importStream volume destination stream now = .error error := by
  unfold Database.afterImport
  cases outcome : db.importStream volume destination stream now with
  | error error =>
      refine ⟨Or.inl ⟨error, rfl, rfl⟩, ?_⟩
      intro target _ _
      exact ⟨error, rfl⟩
  | ok result =>
      obtain ⟨target, entries, normalized, rfl, done⟩ := importStream_ok outcome
      have exactly := importTree_exact state done
      constructor
      · exact Or.inr ⟨target, entries, normalized, rfl, exactly.apart, exactly.unique,
          exactly.shown, exactly.only, exactly.others, exactly.reads⟩
      · intro other same fault
        rw [normalized] at same
        rw [← Except.ok.inj same] at fault
        exact absurd fault (importTree_no_fault state done)

def mixedStream : List (Result ImportEntry) :=
  mixedBatch.map .ok

/-- The mixed batch, and the same batch with a reader that fails after it. -/
theorem importStream_atomic_mixed :
    (∃ target entries, normalize ['/', 'd', '/'] = .ok target ∧ mixedStream = entries.map .ok ∧
      ImportedExactly (Database.empty.calls [.createVolume 7 ['v'] 0])
        ((Database.empty.calls [.createVolume 7 ['v'] 0]).afterImport 7 ['/', 'd', '/']
          mixedStream 1) 7 target entries) ∧
    (Database.empty.calls [.createVolume 7 ['v'] 0]).afterImport 7 ['/', 'd', '/']
      (mixedStream ++ [uniqueViolation]) 1 =
        Database.empty.calls [.createVolume 7 ['v'] 0] := by
  have state : WellFormedVolume (Database.empty.calls [.createVolume 7 ['v'] 0]) 7 :=
    wellFormed_calls (by decide +kernel)
  constructor
  · refine (importStream_atomic state ['/', 'd', '/'] mixedStream 1).1.resolve_left ?_
    rintro ⟨error, failed, -⟩
    have computed : ((Database.empty.calls [.createVolume 7 ['v'] 0]).importStream 7
        ['/', 'd', '/'] mixedStream 1).toOption.isSome = true := by decide +kernel
    rw [failed] at computed
    cases computed
  · obtain ⟨error, failed⟩ := (importStream_atomic state ['/', 'd', '/']
      (mixedStream ++ [uniqueViolation]) 1).2 ['/', 'd'] (by decide +kernel)
        (.failingEntry (List.mem_append_right _ (List.mem_singleton_self _)))
    rw [Database.afterImport, failed]
    rfl

end Imports

end PostgreOS
