/-
The paths that the adapter keeps for inode numbers.

An inode number is the id of a row, and rows keep their ids when they move. A path that
is kept for a directory therefore stays right until a rename moves the directory; renames
do not touch the kept paths.
-/

import PostgreOS.Callbacks
import PostgreOS.StayingRows

namespace PostgreOS

open Library.Outcome Library.Sessions Library.Table Library.Transition

/-- The ids of the rows whose paths a move of `source` rewrites. -/
def Database.movedIds (db : Database) (volume : Uuid) (source : Text) : List NodeId :=
  match db.locateZone volume source with
  | none => []
  | some location =>
      if location.relativePath = [] then
        let zones := (db.zoneNodes.filter (zoneRow volume source)).map ZoneNode.id
        zones ++ (db.zoneEntries.filter fun entry => entry.zoneId ∈ zones).map ZoneEntry.id
      else
        (db.zoneEntries.filter
          (subtreeRow volume location.zoneId location.relativePath true)).map ZoneEntry.id

section Moved

variable {db replaced after : Database} {volume : Uuid} {source destination : Text}
  {sourceLocation parent : Location} {now : Timestamp}

theorem movedIds_of_zone (located : db.locateZone volume source = some sourceLocation)
    (isZone : sourceLocation.relativePath = []) : db.movedIds volume source =
      (db.zoneNodes.filter (zoneRow volume source)).map ZoneNode.id ++
        (db.zoneEntries.filter fun entry =>
          entry.zoneId ∈ (db.zoneNodes.filter (zoneRow volume source)).map ZoneNode.id).map
            ZoneEntry.id := by
  unfold Database.movedIds
  rw [located]
  exact if_pos isZone

theorem movedIds_of_entry (located : db.locateZone volume source = some sourceLocation)
    (isEntry : sourceLocation.relativePath ≠ []) : db.movedIds volume source =
      (db.zoneEntries.filter
        (subtreeRow volume sourceLocation.zoneId sourceLocation.relativePath true)).map
          ZoneEntry.id := by
  unfold Database.movedIds
  rw [located]
  exact if_neg isEntry

theorem mem_of_replaceDestination (replaces : db.replaceDestination volume destination = .ok replaced)
    {entry : ZoneEntry} (member : entry ∈ replaced.zoneEntries) : entry ∈ db.zoneEntries := by
  obtain ⟨-, ⟨-, rfl⟩ | ⟨location, -, rfl⟩⟩ := replaceDestination_ok replaces
  · exact member
  · exact List.mem_of_mem_filter member

/-- A row that a move does not select is where it was, by the branch for zones. -/
theorem Relocated.node_of_zone
    (movable : Movable db replaced volume source destination sourceLocation parent)
    (relocated : Relocated replaced after volume source destination sourceLocation parent now)
    (isZone : sourceLocation.relativePath = []) {node : Node}
    (member : node ∈ after.nodes volume) :
    ∃ old ∈ db.nodes volume, old.id = node.id ∧ old.kind = node.kind ∧
      (node.id ∉ db.movedIds volume source → old.path = node.path) := by
  have located := (locateZone_replaceDestination movable.replaces source).symm.trans movable.located
  rw [movedIds_of_zone located isZone]
  have nodes := zoneNodes_replaceDestination movable.replaces
  have zoneBefore : ∀ zone ∈ (after.tree volume).zones, ∃ old ∈ (db.tree volume).zones,
      zone = relocatedZone volume source destination sourceLocation.zoneId parent now old := by
    rw [tree_relocatedZones isZone relocated volume]
    intro zone zoneMember
    obtain ⟨old, oldMember, rfl⟩ := List.mem_map.mp zoneMember
    obtain ⟨inTable, inVolume⟩ := mem_tree_zones.mp oldMember
    exact ⟨old, mem_tree_zones.mpr ⟨nodes ▸ inTable, inVolume⟩, rfl⟩
  have chosen {zone : ZoneNode} (zoneMember : zone ∈ (db.tree volume).zones)
      (selected : zoneRow volume source zone = true) :
      zone.id ∈ (db.zoneNodes.filter (zoneRow volume source)).map ZoneNode.id :=
    List.mem_map_of_mem (List.mem_filter.mpr ⟨(mem_tree_zones.mp zoneMember).1, selected⟩)
  obtain ⟨zone, zoneMember, rfl⟩ | ⟨entry, entryMember, zone, zoneMember, inZone, rfl⟩ :=
    Tree.mem_nodes.mp member
  · obtain ⟨old, oldMember, rfl⟩ := zoneBefore zone zoneMember
    have sameId := relocatedZone_id volume source destination sourceLocation.zoneId parent now old
    refine ⟨nodeOfZone old, Tree.nodeOfZone_mem oldMember, sameId.symm, rfl, ?_⟩
    intro unmoved
    have unselected : zoneRow volume source old = false := by
      rw [Bool.eq_false_iff]
      intro selected
      have listed := chosen oldMember selected
      rw [← sameId] at listed
      exact unmoved (List.mem_append_left _ listed)
    unfold relocatedZone
    rw [rewritten_of_not_selected unselected]
  · obtain ⟨old, oldMember, rfl⟩ := zoneBefore zone zoneMember
    have sameId := relocatedZone_id volume source destination sourceLocation.zoneId parent now old
    rw [tree_relocatedZones isZone relocated volume] at entryMember
    obtain ⟨inTable, inVolume⟩ := mem_tree_entries.mp entryMember
    have stored := mem_of_replaceDestination movable.replaces inTable
    refine ⟨nodeOfEntry db.contentOf old.path entry, Tree.nodeOfEntry_mem
      (mem_tree_entries.mpr ⟨stored, inVolume⟩) oldMember (sameId.symm.trans inZone), rfl, rfl, ?_⟩
    intro unmoved
    have unselected : zoneRow volume source old = false := by
      rw [Bool.eq_false_iff]
      intro selected
      apply unmoved
      apply List.mem_append_right
      refine List.mem_map_of_mem (List.mem_filter.mpr ⟨stored, decide_eq_true ?_⟩)
      rw [← inZone, sameId]
      exact chosen oldMember selected
    unfold relocatedZone
    rw [rewritten_of_not_selected unselected]
    rfl

/-- A row that a move does not select is where it was, by the branch for entries. -/
theorem Relocated.node_of_entry (keys : Keys db)
    (movable : Movable db replaced volume source destination sourceLocation parent)
    (relocated : Relocated replaced after volume source destination sourceLocation parent now)
    (isEntry : sourceLocation.relativePath ≠ []) {node : Node}
    (member : node ∈ after.nodes volume) :
    ∃ old ∈ db.nodes volume, old.id = node.id ∧ old.kind = node.kind ∧
      (node.id ∉ db.movedIds volume source → old.path = node.path) := by
  have located := (locateZone_replaceDestination movable.replaces source).symm.trans movable.located
  rw [movedIds_of_entry located isEntry]
  have nodes := zoneNodes_replaceDestination movable.replaces
  have tree := tree_relocatedEntries isEntry relocated volume
  have zoneBefore : ∀ zone ∈ (after.tree volume).zones, zone ∈ (db.tree volume).zones := by
    rw [tree]
    intro zone zoneMember
    obtain ⟨inTable, inVolume⟩ := mem_tree_zones.mp zoneMember
    exact mem_tree_zones.mpr ⟨nodes ▸ inTable, inVolume⟩
  obtain ⟨zone, zoneMember, rfl⟩ | ⟨entry, entryMember, zone, zoneMember, inZone, rfl⟩ :=
    Tree.mem_nodes.mp member
  · exact ⟨nodeOfZone zone, Tree.nodeOfZone_mem (zoneBefore zone zoneMember), rfl, rfl,
      fun _ => rfl⟩
  · rw [tree] at entryMember
    obtain ⟨old, oldMember, rfl⟩ := List.mem_map.mp entryMember
    obtain ⟨inTable, inVolume⟩ := mem_tree_entries.mp oldMember
    have stored := mem_of_replaceDestination movable.replaces inTable
    have inTree : old ∈ (db.tree volume).entries := mem_tree_entries.mpr ⟨stored, inVolume⟩
    cases selected : subtreeRow volume sourceLocation.zoneId sourceLocation.relativePath true old with
    | false =>
        have same : relocatedEntry volume destination sourceLocation parent now old = old :=
          rewritten_of_not_selected selected
        rw [same] at inZone ⊢
        exact ⟨nodeOfEntry db.contentOf zone.path old, Tree.nodeOfEntry_mem inTree
          (zoneBefore zone zoneMember) inZone, rfl, rfl, fun _ => rfl⟩
    | true =>
        have same : relocatedEntry volume destination sourceLocation parent now old = _ :=
          rewritten_of_selected selected
        obtain ⟨owner, ownerMember, ownerId⟩ := (keys.identified volume).entry_zone old inTree
        rw [same]
        refine ⟨nodeOfEntry db.contentOf owner.path old, Tree.nodeOfEntry_mem inTree ownerMember
          ownerId, rfl, rfl, ?_⟩
        intro unmoved
        exact absurd (List.mem_map_of_mem (List.mem_filter.mpr ⟨stored, selected⟩)) unmoved

theorem moveCommand_node {count : Int} (keys : Keys db)
    (done : db.moveCommand volume source destination now = .ok (after, count)) {node : Node}
    (member : node ∈ after.nodes volume) :
    ∃ old ∈ db.nodes volume, old.id = node.id ∧ old.kind = node.kind ∧
      (node.id ∉ db.movedIds volume source → old.path = node.path) := by
  obtain ⟨replaced, sourceLocation, parent, movable, relocated⟩ := moveCommand_ok done
  by_cases isZone : sourceLocation.relativePath = []
  · exact relocated.node_of_zone movable isZone member
  · exact relocated.node_of_entry keys movable isZone member

end Moved

/-! ### Coherence -/

/-- Every path that is kept for an id is the path of the directory with this id, as long
as there is one. -/
structure Coherent (volume : Uuid) (mount : Mount) : Prop where
  committed : Committed mount.database
  root : mount.inodePaths rootInode = some ['/']
  cached : ∀ inode ≠ rootInode, ∀ path, mount.inodePaths inode = some path →
    ∃ id < mount.database.nextNode, inode = id + 2 ∧
      ∀ node ∈ mount.database.nodes volume, node.kind = .directory → node.id = id →
        node.path = path

section Coherence

variable {volume : Uuid} {mount : Mount} {row : Inode} {after : Database}

theorem Coherent.remembering (coherent : Coherent volume mount)
    (shows : mount.database.Shows volume row) : Coherent volume (mount.remembering row) := by
  obtain ⟨shown, shownMember, rfl⟩ := shows
  have keys := coherent.committed.sound.keys
  refine ⟨coherent.committed, ?_, ?_⟩
  · by_cases isRoot : shown.path = ['/']
    · unfold Mount.remembering inodeOf
      dsimp only
      rw [if_pos isRoot, Function.update_self, isRoot]
    · unfold Mount.remembering inodeOf
      dsimp only
      rw [if_neg isRoot, Function.update_of_ne (id_add_two_ne_root shown.id).symm]
      exact coherent.root
  · intro inode notRoot path known
    by_cases same : inode = inodeOf shown.path shown.id
    · subst same
      simp only [Mount.remembering, Function.update_self, Option.some.injEq] at known
      subst known
      refine ⟨shown.id, keys.node_bound shownMember, inodeOf_of_ne_root notRoot, ?_⟩
      intro node member _ sameId
      rw [(keys.identified volume).node_eq member shownMember sameId]
    · simp only [Mount.remembering, Function.update_of_ne same] at known
      exact coherent.cached inode notRoot path known

theorem Coherent.stays (coherent : Coherent volume mount) (committed : Committed after)
    (stays : StaysPut mount.database after) :
    Coherent volume { mount with database := after } := by
  refine ⟨committed, coherent.root, ?_⟩
  intro inode notRoot path known
  obtain ⟨id, bound, number, placed⟩ := coherent.cached inode notRoot path known
  refine ⟨id, Nat.lt_of_lt_of_le bound stays.nextNode, number, ?_⟩
  intro node member isDirectory sameId
  obtain ⟨old, oldMember, oldId, oldPath, oldKind⟩ :=
    stays.node coherent.committed.sound.keys member (sameId ▸ bound)
  rw [← oldPath]
  exact placed old oldMember (oldKind.trans isDirectory) (oldId.trans sameId)

theorem Coherent.path_eq (coherent : Coherent volume mount) {path : Text} {node : Node}
    (known : mount.inodePaths (inodeOf node.path node.id) = some path)
    (member : node ∈ mount.database.nodes volume) (isDirectory : node.kind = .directory) :
    path = node.path := by
  unfold inodeOf at known
  split at known
  · rename_i isRoot
    rw [coherent.root] at known
    exact (Option.some.inj known).symm.trans isRoot.symm
  · obtain ⟨id, -, number, placed⟩ := coherent.cached _ (id_add_two_ne_root node.id) path known
    exact (placed node member isDirectory (Nat.add_right_cancel number)).symm

end Coherence

section Callbacks

variable {volume : Uuid}

theorem coherent_remembers (volume : Uuid) : Remembers volume (Coherent volume) where
  keys := fun _ coherent => coherent.committed.sound.keys
  row := fun _ _ coherent shows => coherent.remembering shows

theorem Coherent.commit {mount : Mount} {after : Database} (coherent : Coherent volume mount)
    (kept : Kept mount.database after) (stays : StaysPut mount.database after) :
    Coherent volume { mount with database := after.commit } :=
  coherent.stays ⟨kept.commit.sound, rfl⟩ (stays.trans (staysPut_commit after))

theorem triple_allocateHandle (path : Text) :
    Triple (Coherent volume) (allocateHandle path) (fun _ => Coherent volume)
      (Coherent volume) := by
  refine (Triple.asked _).bind ?_
  intro handle
  refine Triple.bind (.modify fun mount coherent => ?_) fun _ => .pure fun _ coherent => coherent
  exact ⟨coherent.committed, coherent.root, coherent.cached⟩

theorem triple_write (path : Text) (data : Bytes) (now : Timestamp) :
    Triple (Coherent volume) (Client.write volume path data now) (fun _ => Coherent volume)
      (Coherent volume) := by
  refine triple_change ?_
  intro mount after value coherent done
  have committed := coherent.committed
  exact coherent.commit (writeFile_kept (.refl committed.sound) committed.unmapped done)
    (staysPut_writeFile committed done)

theorem triple_remove (path : Text) (recursive : Bool) :
    Triple (Coherent volume) (Client.remove volume path recursive) (fun _ => Coherent volume)
      (Coherent volume) := by
  refine triple_change ?_
  intro mount after value coherent done
  have sound := coherent.committed.sound
  exact coherent.commit (remove_kept (.refl sound) done) (staysPut_remove sound done)

theorem triple_writeEntry (path : Text) (data : Bytes) (now : Timestamp) :
    Triple (Coherent volume) (Client.writeEntry volume path data now)
      (Told volume (Coherent volume)) (Coherent volume) := by
  refine triple_firstRow (triple_commit ?_)
  intro mount after rows coherent done
  obtain ⟨⟨written, id⟩, writeOk, answer⟩ := bind_eq_ok.mp done
  obtain ⟨listed, statOk, same⟩ := bind_eq_ok.mp answer
  obtain ⟨rfl, rfl⟩ := Prod.mk.inj (Except.ok.inj same)
  have committed := coherent.committed
  have kept := writeFile_kept (.refl committed.sound) committed.unmapped writeOk
  exact ⟨coherent.commit kept (staysPut_writeFile committed writeOk),
    fun row member => shows_of_stat kept.commit.sound.keys statOk member⟩

theorem triple_mkdirEntry (path : Text) (parents : Bool) (now : Timestamp) :
    Triple (Coherent volume) (Client.mkdirEntry volume path parents now)
      (Told volume (Coherent volume)) (Coherent volume) := by
  refine triple_firstRow (triple_commit ?_)
  intro mount after rows coherent done
  obtain ⟨made, mkdirOk, answer⟩ := bind_eq_ok.mp done
  obtain ⟨listed, statOk, same⟩ := bind_eq_ok.mp answer
  obtain ⟨rfl, rfl⟩ := Prod.mk.inj (Except.ok.inj same)
  have kept := mkdir_kept (.refl coherent.committed.sound) mkdirOk
  exact ⟨coherent.commit kept (staysPut_mkdir mkdirOk),
    fun row member => shows_of_stat kept.commit.sound.keys statOk member⟩

theorem triple_setTimes (path : Text) (atime mtime : Int × Int) (now : Timestamp) :
    Triple (Coherent volume) (Client.setTimes volume path atime mtime now)
      (Told volume (Coherent volume)) (Coherent volume) := by
  refine triple_firstRow (triple_commit ?_)
  intro mount after rows coherent done
  obtain ⟨target, statOk⟩ := setTimes_rows done
  have kept := setTimes_kept (.refl coherent.committed.sound) done
  exact ⟨coherent.commit kept (staysPut_setTimes done),
    fun row member => shows_of_stat kept.commit.sound.keys statOk member⟩

theorem triple_openFile (inode : INodeNo) (truncate : Bool) (now : Timestamp) :
    Triple (Coherent volume) (openFile volume inode truncate now) (fun _ => Coherent volume)
      (Coherent volume) := by
  refine Triple.reporting ?_
  refine ((coherent_remembers volume).asks_entry inode).bind fun row => ?_
  split
  · exact .fail fun _ coherent => coherent
  · refine Triple.bind ?_ fun _ => triple_allocateHandle row.path
    split
    · exact triple_write row.path [] now
    · exact .pure fun _ coherent => coherent

theorem triple_writeCallback (inode : INodeNo) (offset : Nat) (input : Input) (now : Timestamp) :
    Triple (Coherent volume) (write volume inode offset input now) (fun _ => Coherent volume)
      (Coherent volume) := by
  refine Triple.reporting ?_
  refine ((coherent_remembers volume).asks_entry inode).bind fun row => ?_
  refine (Triple.asked _).bind fun data => ?_
  split
  · exact .fail fun _ coherent => coherent
  · exact (triple_write row.path _ now).bind fun _ => .pure fun _ coherent => coherent

theorem triple_create (parent : INodeNo) (name : Text) (now : Timestamp) :
    Triple (Coherent volume) (create volume parent name now) (fun _ => Coherent volume)
      (Coherent volume) := by
  have remembers := coherent_remembers volume
  refine ((remembers.childPath parent name).bind fun path => ?_).reporting
  refine (triple_writeEntry path [] now).bind fun row => ?_
  refine (remembers.remember row).bind fun _ => ?_
  exact (triple_allocateHandle row.path).bind fun _ => .pure fun _ coherent => coherent

theorem triple_release (handle : FileHandle) :
    Triple (Coherent volume) (release handle) (fun _ => Coherent volume) (Coherent volume) :=
  .modify fun _ coherent => ⟨coherent.committed, coherent.root, coherent.cached⟩

end Callbacks

/-- The rename moves no directory with a kept path. -/
def Mount.RenameAllowed (mount : Mount) (volume : Uuid) (parent : INodeNo) (name : Text)
    (newParent : INodeNo) (newName : Text) (now : Timestamp) : Prop :=
  ∀ front newFront after count, mount.HasPath volume parent front →
    mount.HasPath volume newParent newFront →
    mount.database.moveCommand volume (joinName front name) (joinName newFront newName) now =
      .ok (after, count) →
    ∀ node ∈ mount.database.nodes volume, node.kind = .directory →
      node.id ∈ mount.database.movedIds volume (joinName front name) →
        mount.inodePaths (node.id + 2) = none ∧ node.id ≠ parent - 2 ∧ node.id ≠ newParent - 2

section Rename

variable {volume : Uuid} {mount asked : Mount} {inode : INodeNo}

theorem Asked.coherent (follows : Asked volume mount inode asked)
    (coherent : Coherent volume mount) : Coherent volume asked := by
  cases follows with
  | kept => exact coherent
  | told row unkept answer =>
      exact coherent.remembering (shows_of_entryOf coherent.committed.sound.keys answer)

theorem Asked.unkept (follows : Asked volume mount inode asked) (coherent : Coherent volume mount)
    {id : NodeId} (unkept : mount.inodePaths (id + 2) = none) (different : id ≠ inode - 2) :
    asked.inodePaths (id + 2) = none := by
  cases follows with
  | kept => exact unkept
  | told row unknown answer =>
      have notRoot : inode ≠ rootInode := by
        rintro rfl
        rw [coherent.root] at unknown
        cases unknown
      have sameId := id_of_entryOf coherent.committed.sound.keys notRoot answer
      have other : id + 2 ≠ inodeOf row.path row.id := by
        unfold inodeOf
        split
        · exact id_add_two_ne_root id
        · intro same
          exact different ((Nat.add_right_cancel same).trans sameId)
      unfold Mount.remembering
      dsimp only
      rw [Function.update_of_ne other]
      exact unkept

theorem Coherent.moved {source destination : Text} {now : Timestamp} {after : Database} {count : Int}
    (coherent : Coherent volume mount)
    (done : mount.database.moveCommand volume source destination now = .ok (after, count))
    (unkept : ∀ node ∈ mount.database.nodes volume, node.kind = .directory →
      node.id ∈ mount.database.movedIds volume source → mount.inodePaths (node.id + 2) = none) :
    Coherent volume { mount with database := after.commit } := by
  have keys := coherent.committed.sound.keys
  have kept := moveCommand_kept (.refl coherent.committed.sound) done
  refine ⟨⟨kept.commit.sound, rfl⟩, coherent.root, ?_⟩
  intro inode notRoot path known
  obtain ⟨id, bound, rfl, placed⟩ := coherent.cached inode notRoot path known
  refine ⟨id, Nat.lt_of_lt_of_le bound (Statements.moveCommand .refl done).nextNode_le, rfl, ?_⟩
  rintro node member isDirectory rfl
  obtain ⟨old, oldMember, oldId, oldKind, samePath⟩ := moveCommand_node keys done member
  have oldDirectory := oldKind.trans isDirectory
  have unmoved : node.id ∉ mount.database.movedIds volume source := by
    intro moved
    have unknown := unkept old oldMember oldDirectory (oldId ▸ moved)
    rw [oldId, known] at unknown
    cases unknown
  rw [← samePath unmoved]
  exact placed old oldMember oldDirectory oldId

theorem rename_coherent {parent newParent : INodeNo} {name newName : Text} {flags : Bool}
    {now : Timestamp} (coherent : Coherent volume mount)
    (allowed : flags = false → mount.RenameAllowed volume parent name newParent newName now) :
    Triple (· = mount) (rename volume parent name newParent newName flags now)
      (fun _ => Coherent volume) (Coherent volume) := by
  unfold rename
  split
  · refine .fail ?_
    rintro state rfl
    exact coherent
  · rename_i plain
    have guard := allowed (Bool.eq_false_iff.mpr plain)
    refine Triple.reporting ?_
    refine ((childPath_asks mount parent name).weaken (fun _ same => same) (fun _ _ both => both)
      fun _ follows => follows.coherent coherent).bind fun source => ?_
    refine .of_states ?_
    rintro first ⟨firstAsked, front, frontAt, rfl, -⟩
    have firstCoherent := firstAsked.coherent coherent
    refine ((childPath_asks first newParent newName).weaken (fun _ same => same)
      (fun _ _ both => both) fun _ follows => follows.coherent firstCoherent).bind
        fun destination => ?_
    refine .of_states ?_
    rintro second ⟨secondAsked, newFront, newFrontAt, rfl, -⟩
    have secondCoherent := secondAsked.coherent firstCoherent
    have sameDatabase : second.database = mount.database :=
      secondAsked.database.trans firstAsked.database
    refine Triple.bind (.perform ?_ ?_) fun _ => .pure fun _ moved => moved
    · rintro state value last rfl done
      obtain ⟨⟨after, count⟩, moved, same⟩ := bind_eq_ok.mp done
      obtain ⟨rfl, rfl⟩ := Prod.mk.inj (Except.ok.inj same)
      refine secondCoherent.moved moved ?_
      intro node member isDirectory selected
      rw [sameDatabase] at moved member selected
      obtain ⟨unkept, notParent, notNewParent⟩ := guard front newFront after count
        frontAt.hasPath (firstAsked.hasPath coherent.committed.sound.keys
          coherent.root newFrontAt.hasPath) moved node member isDirectory selected
      exact secondAsked.unkept firstCoherent
        (firstAsked.unkept coherent unkept notParent) notNewParent
    · rintro state rfl
      exact secondCoherent

end Rename

/-! ### Runs -/

/-- The condition that only renames have to meet. -/
def FuseCall.KeepsPaths (volume : Uuid) (mount : Mount) : FuseCall → Prop
  | .rename parent name newParent newName flags now =>
      flags = false → mount.RenameAllowed volume parent name newParent newName now
  | _ => True

theorem inodePaths_new (db : Database) {inode : INodeNo} (notRoot : inode ≠ rootInode) :
    (Mount.new db).inodePaths inode = none := by
  unfold Mount.new
  dsimp only
  rw [Function.update_of_ne notRoot]

theorem coherent_new {db : Database} (volume : Uuid) (committed : Committed db) :
    Coherent volume (Mount.new db) := by
  have root : (Mount.new db).inodePaths rootInode = some ['/'] := by
    simp [Mount.new]
  refine ⟨committed, root, ?_⟩
  intro inode notRoot path known
  rw [inodePaths_new db notRoot] at known
  cases known

theorem FuseCall.coherent {volume : Uuid} {mount : Mount} {call : FuseCall}
    (coherent : Coherent volume mount) (allowed : call.KeepsPaths volume mount) :
    Coherent volume (call.run volume mount) := by
  have remembers := coherent_remembers volume
  cases call with
  | lookup parent name => exact (remembers.lookup parent name).after coherent
  | getattr inode => exact (remembers.getattr inode).after coherent
  | setattr inode unsupported atime mtime clock now =>
      refine (remembers.setattr inode unsupported atime mtime clock now ?_).after coherent
      exact fun path access modification => triple_setTimes path access modification now
  | openFile inode truncate now => exact (triple_openFile inode truncate now).after coherent
  | read inode handle offset size => exact (remembers.read inode handle offset size).after coherent
  | write inode offset input now =>
      exact (triple_writeCallback inode offset input now).after coherent
  | create parent name now => exact (triple_create parent name now).after coherent
  | mkdir parent name now =>
      refine (remembers.mkdir parent name now ?_).after coherent
      exact fun path => triple_mkdirEntry path false now
  | unlink parent name =>
      exact (remembers.removeChild parent name fun path => triple_remove path false).after coherent
  | rmdir parent name =>
      exact (remembers.removeChild parent name fun path => triple_remove path false).after coherent
  | rename parent name newParent newName flags now =>
      exact (rename_coherent coherent allowed).after rfl
  | readdir inode offset capacity => exact (remembers.readdir inode offset capacity).after coherent
  | release handle => exact (triple_release handle).after coherent

theorem coherent_of_guarded {db : Database} {volume : Uuid} (committed : Committed db)
    {mount : Mount}
    (reached : Guarded (Mount.new db) (FuseStep volume)
      (fun mount call => call.KeepsPaths volume mount) mount) : Coherent volume mount := by
  induction reached with
  | start => exact coherent_new volume committed
  | next call _ allowed moved ih =>
      rw [moved]
      exact call.coherent ih allowed

theorem path_ne_nil {db : Database} {volume : Uuid} (keys : Keys db) {node : Node}
    (member : node ∈ db.nodes volume) : node.path ≠ [] := by
  have zonePath {zone : ZoneNode} (zoneMember : zone ∈ (db.tree volume).zones) : zone.path ≠ [] := by
    obtain root | ⟨symbol, rest, same, -⟩ := keys.zone_path zone (mem_tree_zones.mp zoneMember).1
    · simp [root]
    · simp [same]
  obtain ⟨zone, zoneMember, rfl⟩ | ⟨entry, entryMember, zone, zoneMember, inZone, rfl⟩ :=
    Tree.mem_nodes.mp member
  · exact zonePath zoneMember
  · change absolutePath zone.path entry.relativePath ≠ []
    unfold absolutePath
    split
    · exact zonePath zoneMember
    · split
      · simp
      · simp

/-- The path of a child is in the directory that the inode number stands for, as long as
no rename has moved a directory with a kept path. -/
theorem childPath_in_directory {db : Database} {volume : Uuid} (committed : Committed db)
    {mount : Mount}
    (reached : Guarded (Mount.new db) (FuseStep volume)
      (fun mount call => call.KeepsPaths volume mount) mount)
    {parent : INodeNo} {name path : Text} {after : Mount}
    (done : childPath volume parent name mount = (.ok path, after)) :
    ∀ node ∈ mount.database.nodes volume, node.kind = .directory →
      inodeOf node.path node.id = parent → parentOf path = some node.path := by
  have coherent := coherent_of_guarded committed reached
  have keys := coherent.committed.sound.keys
  rintro node member isDirectory rfl
  obtain ⟨-, front, uses, rfl, named, plain⟩ :=
    (childPath_asks mount _ name mount rfl).1 path after done
  have same : front = node.path := by
    rcases uses with known | ⟨unknown, row, answer, rfl⟩
    · exact coherent.path_eq known member isDirectory
    · have notRoot : inodeOf node.path node.id ≠ rootInode := by
        intro isRoot
        rw [isRoot, coherent.root] at unknown
        cases unknown
      have number := inodeOf_of_ne_root notRoot
      have sameId := id_of_entryOf keys notRoot answer
      obtain ⟨shown, shownMember, rfl⟩ := shows_of_entryOf keys answer
      rw [number, Nat.add_sub_cancel] at sameId
      rw [(keys.identified volume).node_eq shownMember member sameId]
  rw [same]
  exact parentOf_joinName (path_ne_nil keys member) named plain

def directoryCalls : List Op :=
  [.createVolume 7 ['v'] 0, .mkdir 7 ['/', 'd'] false 493 1]

/-- The directory `/d` moves to `/e` before the adapter has asked for it. -/
theorem childPath_in_directory_of_rename :
    ((((FuseCall.rename rootInode ['d'] rootInode ['e'] false 2).run 7
        (Mount.new (Database.empty.calls directoryCalls))).database.nodes 7).all fun node =>
      node.kind = .directory → inodeOf node.path node.id = 4 →
        parentOf ['/', 'e', '/', 'x'] = some node.path) = true := by
  have committed : Committed (Database.empty.calls directoryCalls) :=
    committed_of_reachable (reachable_calls directoryCalls)
  have allowed : (FuseCall.rename rootInode ['d'] rootInode ['e'] false 2).KeepsPaths 7
      (Mount.new (Database.empty.calls directoryCalls)) := by
    intro _ front newFront after count _ _ _ node member _ _
    have unkept := inodePaths_new (Database.empty.calls directoryCalls) (id_add_two_ne_root node.id)
    have numbered : ∀ node ∈ (Database.empty.calls directoryCalls).nodes 7, node.id ≠ 0 := by
      decide +kernel
    exact ⟨unkept, numbered node member, numbered node member⟩
  have answer : (childPath 7 4 ['x'] ((FuseCall.rename rootInode ['d'] rootInode ['e'] false 2).run 7
      (Mount.new (Database.empty.calls directoryCalls)))).1 = .ok ['/', 'e', '/', 'x'] := by
    decide +kernel
  rw [List.all_eq_true]
  intro node member
  rw [decide_eq_true_eq]
  exact childPath_in_directory committed (.next _ .start allowed rfl) (Prod.ext answer rfl) node member

/-- Finding, opening, making, removing and renaming. -/
def FuseCall.onNames : FuseCall → Bool
  | .lookup .. | .getattr .. | .openFile .. | .create .. | .mkdir .. | .unlink .. | .rmdir ..
  | .rename .. => true
  | _ => false

/-- A directory that was looked up keeps its old path when it is renamed. -/
theorem childPath_not_in_directory :
    ¬ ∀ (db : Database) (volume : Uuid) (mount : Mount), Committed db →
      Reachable (Mount.new db)
        (fun before call after => call.onNames = true ∧ FuseStep volume before call after) mount →
      ∀ (parent : INodeNo) (name path : Text) (after : Mount),
        childPath volume parent name mount = (.ok path, after) →
        ∀ node ∈ mount.database.nodes volume, node.kind = .directory →
          inodeOf node.path node.id = parent → parentOf path = some node.path := by
  intro every
  have wrong := every _ 7 _ (committed_of_reachable (reachable_calls directoryCalls))
    (.next (.rename rootInode ['d'] rootInode ['e'] false 3)
      (.next (.lookup rootInode ['d']) .start ⟨rfl, rfl⟩) ⟨rfl, rfl⟩) 4 ['x'] ['/', 'd', '/', 'x'] _
    (Prod.ext (by decide +kernel) rfl)
  have moved : ∃ node ∈ ((FuseCall.rename rootInode ['d'] rootInode ['e'] false 3).run 7
      ((FuseCall.lookup rootInode ['d']).run 7
        (Mount.new (Database.empty.calls directoryCalls)))).database.nodes 7,
      node.kind = .directory ∧ inodeOf node.path node.id = 4 ∧ node.path = ['/', 'e'] := by
    decide +kernel
  obtain ⟨node, member, isDirectory, number, path⟩ := moved
  have parent := wrong node member isDirectory number
  rw [path] at parent
  revert parent
  decide

end PostgreOS
