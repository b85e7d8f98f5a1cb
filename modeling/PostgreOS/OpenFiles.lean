/-
Reading through open handles.

A handle keeps the path that its file had when it was opened, while a write asks for the
path of the inode. The two agree until a rename moves the file. A write sends all bytes of
its file, so the connection may be lost over a large one; then nothing can be read.
-/

import PostgreOS.KeptBytes
import PostgreOS.Link
import PostgreOS.MountWrites
import PostgreOS.StayingRows

namespace PostgreOS

open Library.Outcome Library.Sessions Library.Table Library.Transition

/-- The adapter with the file that each handle was opened for and the bytes that each file
was given last. -/
structure Tracked where
  linked : Linked
  opened : FileHandle → Option NodeId
  written : NodeId → Bytes

/-- No handle is open, and every file has the bytes that it has. -/
def Tracked.new (volume : Uuid) (db : Database) : Tracked :=
  { linked := { mount := Mount.new db, connected := true }
    opened := fun _ => none
    written := fun id =>
      match (db.zoneEntries.find? fun entry => entry.volumeId = volume ∧ entry.id = id) with
      | some entry => (db.contentOf entry).getD []
      | none => [] }

/-- What a callback that succeeds opens, closes and writes. -/
def Tracked.run (link : Link) (volume : Uuid) (call : FuseCall) (tracked : Tracked) : Tracked :=
  let next := { tracked with linked := call.runLinked link volume tracked.linked }
  match call with
  | .openFile inode truncate now =>
      match (link.openFile volume inode truncate now tracked.linked).1 with
      | .ok handle =>
          { next with
            opened := Function.update tracked.opened handle (some (inode - 2))
            written :=
              if truncate then Function.update tracked.written (inode - 2) []
              else tracked.written }
      | .error _ => next
  | .create parent name now =>
      match (link.create volume parent name now tracked.linked).1 with
      | .ok (row, handle) =>
          { next with
            opened := Function.update tracked.opened handle (some row.id)
            written := Function.update tracked.written row.id [] }
      | .error _ => next
  | .write inode offset input now =>
      match (link.writeFile volume inode offset input now tracked.linked).1 with
      | .ok _ =>
          { next with
            written := Function.update tracked.written (inode - 2)
              (splice (tracked.written (inode - 2)) offset input.val) }
      | .error _ => next
  | .release handle => { next with opened := Function.update tracked.opened handle none }
  | _ => next

def TrackedStep (link : Link) (volume : Uuid) (before : Tracked) (call : FuseCall)
    (after : Tracked) : Prop :=
  after = before.run link volume call

def Mount.CreatesFile (mount : Mount) (volume : Uuid) (parent : INodeNo) (name : Text) : Prop :=
  ∀ front, mount.HasPath volume parent front →
    ∀ zone ∈ (mount.database.tree volume).zones, zone.path ≠ joinName front name

/-- A rename moves what is at and below its source and no open file. -/
def Mount.MovesOthers (mount : Mount) (volume : Uuid) (opened : FileHandle → Option NodeId)
    (parent : INodeNo) (name : Text) (newParent : INodeNo) (newName : Text) (now : Timestamp) :
    Prop :=
  ∀ front newFront, mount.HasPath volume parent front → mount.HasPath volume newParent newFront →
    ∀ after count, mount.database.moveCommand volume (joinName front name)
        (joinName newFront newName) now = .ok (after, count) →
      (∀ location, mount.database.locateZone volume (joinName front name) = some location →
        MoveExact mount.database volume (joinName front name) (joinName newFront newName)
          location) ∧
      ∀ handle id, opened handle = some id →
        ∀ node ∈ mount.database.nodes volume, node.id = id →
          ¬ AtOrBelow (joinName front name) node.path

/-- Only creations and renames have to meet conditions. -/
def Tracked.Allows (tracked : Tracked) (volume : Uuid) : FuseCall → Prop
  | .create parent name _ => tracked.linked.mount.CreatesFile volume parent name
  | .rename parent name newParent newName flags now =>
      flags = false → tracked.linked.mount.MovesOthers volume tracked.opened parent name newParent
        newName now
  | _ => True

/-- The file with the id is at the path, as long as there is one. -/
def Database.Placed (db : Database) (volume : Uuid) (id : NodeId) (path : Text) : Prop :=
  id < db.nextNode ∧ ∀ node ∈ db.nodes volume, node.id = id → node.kind = .file ∧ node.path = path

structure Tracks (volume : Uuid) (opened : FileHandle → Option NodeId) (written : NodeId → Bytes)
    (mount : Mount) : Prop where
  state : WellFormedVolume mount.database volume
  root : mount.inodePaths rootInode = some ['/']
  placed : ∀ handle id, opened handle = some id →
    ∃ path, mount.openFiles handle = some path ∧ mount.database.Placed volume id path
  bytes : ∀ entry ∈ mount.database.zoneEntries, entry.volumeId = volume → entry.kind = .file →
    mount.database.contentOf entry = some (written entry.id)

section Placed

variable {db after : Database} {volume : Uuid} {id : NodeId} {path : Text}

theorem placed_of_node (keys : Keys db) {node : Node} (member : node ∈ db.nodes volume)
    (file : node.kind = .file) : db.Placed volume node.id node.path := by
  refine ⟨keys.node_bound member, ?_⟩
  intro other otherMember same
  rw [(keys.identified volume).node_eq otherMember member same]
  exact ⟨file, rfl⟩

theorem Database.Placed.stays (placed : db.Placed volume id path) (keys : Keys db)
    (stays : StaysPut db after) : after.Placed volume id path := by
  refine ⟨Nat.lt_of_lt_of_le placed.1 stays.nextNode, ?_⟩
  intro node member same
  obtain ⟨old, oldMember, oldId, oldPath, oldKind⟩ := stays.node keys member (same ▸ placed.1)
  obtain ⟨file, here⟩ := placed.2 old oldMember (oldId.trans same)
  exact ⟨oldKind.symm.trans file, oldPath.symm.trans here⟩

theorem Database.Placed.moved {source destination : Text} (placed : db.Placed volume id path)
    (nextNode : db.nextNode ≤ after.nextNode)
    (exactly : MovedExactly db after volume source destination)
    (apart : ∀ node ∈ db.nodes volume, node.id = id → ¬ AtOrBelow source node.path) :
    after.Placed volume id path := by
  refine ⟨Nat.lt_of_lt_of_le placed.1 nextNode, ?_⟩
  intro node member same
  by_cases arrived : AtOrBelow destination node.path
  · obtain ⟨old, oldMember, -, below, -, -, oldId, -⟩ := exactly.only node member arrived
    exact absurd below (apart old oldMember (oldId.symm.trans same))
  · exact placed.2 node (exactly.noneNew node member arrived) same

end Placed

section Tracks

variable {volume : Uuid} {opened : FileHandle → Option NodeId} {written : NodeId → Bytes}
  {mount : Mount}

theorem Tracks.remembering (tracks : Tracks volume opened written mount) (row : Inode) :
    Tracks volume opened written (mount.remembering row) := by
  refine ⟨tracks.state, ?_, tracks.placed, tracks.bytes⟩
  unfold Mount.remembering
  dsimp only
  by_cases same : rootInode = inodeOf row.path row.id
  · rw [same, Function.update_self]
    unfold inodeOf at same
    split at same
    · rename_i isRoot
      rw [isRoot]
    · exact absurd same.symm (id_add_two_ne_root row.id)
  · rw [Function.update_of_ne same]
    exact tracks.root

theorem tracks_remembers (volume : Uuid) (opened : FileHandle → Option NodeId)
    (written : NodeId → Bytes) : Remembers volume (Tracks volume opened written) where
  keys := fun _ tracks => tracks.state.committed.sound.keys
  row := fun _ row tracks _ => tracks.remembering row

theorem Tracks.asked {inode : INodeNo} {asked : Mount} (tracks : Tracks volume opened written mount)
    (follows : Asked volume mount inode asked) : Tracks volume opened written asked := by
  cases follows with
  | kept => exact tracks
  | told row _ _ => exact tracks.remembering row

theorem Tracks.commit {after : Database} {excepted : NodeId → Prop} {rewritten : NodeId → Bytes}
    (tracks : Tracks volume opened written mount) (kept : Kept mount.database after)
    (tree : (after.tree volume).WellFormed) (stays : StaysPut mount.database after)
    (keeps : KeepsBytes mount.database after excepted)
    (same : ∀ id, ¬ excepted id → rewritten id = written id)
    (fresh : ∀ entry ∈ after.zoneEntries, entry.volumeId = volume → excepted entry.id →
      after.contentOf entry = some (rewritten entry.id)) :
    Tracks volume opened rewritten { mount with database := after.commit } := by
  refine ⟨⟨⟨kept.commit.sound, rfl⟩, tree⟩, tracks.root, ?_, ?_⟩
  · intro handle id isOpen
    obtain ⟨path, known, placed⟩ := tracks.placed handle id isOpen
    exact ⟨path, known, placed.stays tracks.state.committed.sound.keys
      (stays.trans (staysPut_commit after))⟩
  · intro entry member inVolume file
    by_cases new : excepted entry.id
    · exact fresh entry member inVolume new
    · obtain ⟨old, oldMember, oldId, oldVolume, oldFile, content⟩ := keeps entry member file new
      change after.contentOf entry = _
      rw [← content, tracks.bytes old oldMember (oldVolume.trans inVolume) oldFile, oldId,
        same entry.id new]

theorem Tracks.keeps {after : Database} (tracks : Tracks volume opened written mount)
    (kept : Kept mount.database after) (tree : (after.tree volume).WellFormed)
    (stays : StaysPut mount.database after)
    (keeps : KeepsBytes mount.database after fun _ => False) :
    Tracks volume opened written { mount with database := after.commit } :=
  tracks.commit kept tree stays keeps (fun _ _ => rfl) fun _ _ _ impossible => impossible.elim

/-- An exact move that leaves the open files alone. -/
theorem Tracks.moved {source destination : Text} {now : Timestamp} {after : Database} {count : Int}
    (tracks : Tracks volume opened written mount)
    (done : mount.database.moveCommand volume source destination now = .ok (after, count))
    (exactly : ∀ location, mount.database.locateZone volume source = some location →
      MoveExact mount.database volume source destination location)
    (apart : ∀ handle id, opened handle = some id →
      ∀ node ∈ mount.database.nodes volume, node.id = id → ¬ AtOrBelow source node.path) :
    Tracks volume opened written { mount with database := after.commit } := by
  have sound := tracks.state.committed.sound
  have kept := moveCommand_kept (.refl sound) done
  have tree : (after.tree volume).WellFormed :=
    moveCommand_wellFormed sound tracks.state.tree exactly done
  obtain ⟨replaced, location, destinationParent, movable, relocated⟩ := moveCommand_ok done
  have located := movable.located
  rw [locateZone_replaceDestination movable.replaces] at located
  have moved : MovedExactly mount.database after volume source destination :=
    (relocated_exact_iff tracks.state movable relocated).mpr (exactly location located)
  refine ⟨⟨⟨kept.commit.sound, rfl⟩, tree⟩, tracks.root, ?_, ?_⟩
  · intro handle id isOpen
    obtain ⟨path, known, placed⟩ := tracks.placed handle id isOpen
    have after_placed : after.Placed volume id path :=
      placed.moved (Statements.moveCommand .refl done).nextNode_le moved (apart handle id isOpen)
    exact ⟨path, known, after_placed⟩
  · intro entry member inVolume file
    have keeps : KeepsBytes mount.database after fun _ => False := keepsBytes_moveCommand done
    obtain ⟨old, oldMember, oldId, oldVolume, oldFile, content⟩ :=
      keeps entry member file not_false
    change after.contentOf entry = _
    rw [← content, tracks.bytes old oldMember (oldVolume.trans inVolume) oldFile, oldId]

theorem Tracks.content (tracks : Tracks volume opened written mount) {node : Node}
    (member : node ∈ mount.database.nodes volume) (file : node.kind = .file) :
    node.content = some (written node.id) := by
  obtain ⟨zone, zoneMember, rfl⟩ | ⟨entry, entryMember, zone, zoneMember, inZone, rfl⟩ :=
    Tree.mem_nodes.mp member
  · cases file
  · obtain ⟨inTable, inVolume⟩ := mem_tree_entries.mp entryMember
    exact tracks.bytes entry inTable inVolume file

end Tracks

section Rows

variable {db : Database} {volume : Uuid} {row : Inode}

theorem kind_of_entryOf_root (state : WellFormedVolume db volume)
    (answer : db.entryOf volume rootInode = .ok row) : row.kind = .directory := by
  obtain ⟨rows, listed, first⟩ := bind_eq_ok.mp answer
  have member := firstRow_eq_ok first
  obtain ⟨path, accepted, locating⟩ := bind_eq_ok.mp listed
  obtain ⟨rfl, canonical⟩ := assertPath_eq_ok accepted
  obtain ⟨location, found, shown⟩ := bind_eq_ok.mp locating
  obtain ⟨names, zone, front, inner, valid, isRoot, located, rfl⟩ :=
    located_of_locateZone state.tree canonical (strict_eq_ok.mp found)
  have top : inner = [] := by
    have empty := (pathText_eq_root_iff valid).mp isRoot.symm
    have whole := located.names_eq
    rw [empty] at whole
    exact (List.append_eq_nil_iff.mp whole.symm).2
  dsimp only at shown
  rw [if_pos (by rw [top]; rfl)] at shown
  rw [← Except.ok.inj shown] at member
  obtain ⟨stored, -, rfl⟩ := List.mem_map.mp member
  rfl

/-- Only files have bytes to read. -/
theorem fileAt_of_readFile (state : WellFormedVolume db volume) (shows : db.Shows volume row)
    {data : Bytes} (done : db.readFile volume row.path = .ok data) :
    db.FileAt volume row.path row.id data ∧ row.kind = .file := by
  obtain ⟨node, member, rfl⟩ := shows
  have wellFormed := state.tree
  have read := done
  obtain ⟨path, accepted, locating⟩ := bind_eq_ok.mp done
  obtain ⟨location, found, reading⟩ := bind_eq_ok.mp locating
  obtain ⟨rfl, canonical⟩ := assertPath_eq_ok accepted
  obtain ⟨zone, zoneMember, rfl⟩ | ⟨entry, entryMember, zone, zoneMember, inZone, rfl⟩ :=
    Tree.mem_nodes.mp member
  · obtain ⟨front, zoneAt⟩ := wellFormed.zoneAt_of_mem zoneMember
    have located := strict_eq_ok.mp found
    change db.locateZone volume zone.path = _ at located
    rw [zoneAt.path, locateZone_of_located wellFormed zoneAt.valid
      (Tree.WellFormed.located_of_zoneAt zoneAt)] at located
    obtain rfl := Option.some.inj located
    dsimp only at reading
    rw [if_pos relativeText_nil] at reading
    cases reading
  · obtain ⟨owner, upper, rest, entryAt⟩ := wellFormed.entryAt_of_mem entryMember
    obtain rfl := wellFormed.zone_ids owner entryAt.zoneAt.member zone zoneMember
      (entryAt.inZone.symm.trans inZone.symm)
    have located := strict_eq_ok.mp found
    change db.locateZone volume (absolutePath owner.path entry.relativePath) = _ at located
    rw [entryAt.absolutePath_eq, locateZone_of_located wellFormed entryAt.components
      (wellFormed.located_of_entryAt entryAt)] at located
    obtain rfl := Option.some.inj located
    dsimp only at reading
    rw [if_neg (relativeText_ne_nil entryAt.valid entryAt.nonempty),
      entryAt_eq_some wellFormed entryAt owner.path, Option.map_some] at reading
    cases payload : entry.payload with
    | directory =>
        rw [payload] at reading
        cases reading
    | symlink target =>
        rw [payload] at reading
        cases reading
    | file stored object =>
        have regular : entry.kind = .file := by rw [ZoneEntry.kind, payload]; rfl
        obtain ⟨bytes, content⟩ := contentOf_of_file regular
        have file : db.FileAt volume (absolutePath owner.path entry.relativePath) entry.id bytes :=
          ⟨_, member, rfl, rfl, regular, content⟩
        obtain rfl := readFile_of_fileAt state file read
        exact ⟨file, regular⟩

end Rows

/-! ### Requests -/

section Requests

variable {volume : Uuid} {opened : FileHandle → Option NodeId} {written : NodeId → Bytes}

theorem tracks_setTimes (path : Text) (atime mtime : Int × Int) (now : Timestamp) :
    Triple (Tracks volume opened written) (Client.setTimes volume path atime mtime now)
      (Told volume (Tracks volume opened written)) (Tracks volume opened written) := by
  refine triple_firstRow (triple_commit ?_)
  intro mount after rows tracks done
  obtain ⟨target, statOk⟩ := setTimes_rows done
  have kept := setTimes_kept (.refl tracks.state.committed.sound) done
  exact ⟨tracks.keeps kept (setTimes_wellFormed tracks.state.tree done) (staysPut_setTimes done)
      (keepsBytes_setTimes done),
    fun row member => shows_of_stat kept.commit.sound.keys statOk member⟩

theorem tracks_mkdirEntry (path : Text) (parents : Bool) (now : Timestamp) :
    Triple (Tracks volume opened written) (Client.mkdirEntry volume path parents now)
      (Told volume (Tracks volume opened written)) (Tracks volume opened written) := by
  refine triple_firstRow (triple_commit ?_)
  intro mount after rows tracks done
  obtain ⟨made, mkdirOk, answer⟩ := bind_eq_ok.mp done
  obtain ⟨listed, statOk, same⟩ := bind_eq_ok.mp answer
  obtain ⟨rfl, rfl⟩ := Prod.mk.inj (Except.ok.inj same)
  have sound := tracks.state.committed.sound
  have kept := mkdir_kept (.refl sound) mkdirOk
  exact ⟨tracks.keeps kept (mkdir_wellFormed sound tracks.state.tree mkdirOk)
      (staysPut_mkdir mkdirOk) (keepsBytes_mkdir mkdirOk),
    fun row member => shows_of_stat kept.commit.sound.keys statOk member⟩

theorem tracks_remove (path : Text) :
    Triple (Tracks volume opened written) (Client.remove volume path false)
      (fun _ => Tracks volume opened written) (Tracks volume opened written) := by
  refine triple_change ?_
  intro mount after count tracks done
  have sound := tracks.state.committed.sound
  exact tracks.keeps (remove_kept (.refl sound) done)
    (remove_plain_wellFormed sound tracks.state.tree done) (staysPut_remove sound done)
    (keepsBytes_remove sound done)

theorem Tracks.write {mount : Mount} (tracks : Tracks volume opened written mount) {path : Text}
    {data : Bytes} {now : Timestamp} {after : Database} {id : NodeId}
    (noZone : ∀ zone ∈ (mount.database.tree volume).zones, zone.path ≠ path)
    (done : mount.database.writeFile volume path data 420 now = .ok (after, id)) :
    Tracks volume opened (Function.update written id data) { mount with database := after.commit } ∧
      after.commit.FileAt volume path id data := by
  have committed := tracks.state.committed
  obtain ⟨afterState, file⟩ := fileAt_of_writeFile tracks.state noZone done
  refine ⟨?_, file⟩
  refine tracks.commit (writeFile_kept (.refl committed.sound) committed.unmapped done)
    afterState.tree (staysPut_writeFile committed done) (keepsBytes_writeFile committed done) ?_ ?_
  · exact fun other different => Function.update_of_ne different _ _
  · rintro entry member inVolume rfl
    obtain ⟨zone, stored, front, rest, found, -, sameId, -, content⟩ :=
      entryAt_of_fileAt afterState.tree file
    obtain rfl := (afterState.committed.sound.keys.identified volume).entry_eq found.member
      (mem_tree_entries.mpr ⟨member, inVolume⟩) sameId
    rw [Function.update_self]
    exact content

theorem tracks_write (path : Text) (id : NodeId) (data target : Bytes) (now : Timestamp) :
    Triple (fun mount => (Tracks volume opened written mount ∧
        ∃ bytes, mount.database.FileAt volume path id bytes) ∧ data = target)
      (Client.write volume path data now)
      (fun _ mount => Tracks volume opened (Function.update written id target) mount ∧
        mount.database.FileAt volume path id target) (Tracks volume opened written) := by
  refine .perform ?_ fun mount before => before.1.1
  rintro mount value last ⟨⟨tracks, bytes, file⟩, rfl⟩ done
  obtain ⟨⟨after, other⟩, writeOk, same⟩ := bind_eq_ok.mp done
  obtain ⟨rfl, rfl⟩ := Prod.mk.inj (Except.ok.inj same)
  obtain rfl := id_of_writeFile tracks.state file writeOk
  exact tracks.write (no_zone_of_fileAt tracks.state.tree file) writeOk

theorem Database.FileAt.placed {db : Database} {path : Text} {id : NodeId} {bytes : Bytes}
    (file : db.FileAt volume path id bytes) (keys : Keys db) : db.Placed volume id path := by
  obtain ⟨node, member, rfl, rfl, kind, -⟩ := file
  exact placed_of_node keys member kind

theorem tracks_allocateHandle (path : Text) (id : NodeId) {failed : Mount → Prop} :
    Triple (fun mount => Tracks volume opened written mount ∧ mount.database.Placed volume id path)
      (allocateHandle path)
      (fun handle => Tracks volume (Function.update opened handle (some id)) written) failed := by
  refine .of_states ?_
  rintro mount ⟨tracks, placed⟩
  refine .of_run rfl ?_
  refine ⟨tracks.state, tracks.root, ?_, tracks.bytes⟩
  intro handle known isOpen
  by_cases same : handle = mount.nextHandle
  · subst same
    rw [Function.update_self] at isOpen
    obtain rfl := Option.some.inj isOpen
    exact ⟨path, Function.update_self _ _ _, placed⟩
  · rw [Function.update_of_ne same] at isOpen
    dsimp only
    rw [Function.update_of_ne same]
    exact tracks.placed handle known isOpen

/-- A new file, or a file that loses its bytes. -/
theorem tracks_writeEntry (path : Text) (now : Timestamp) :
    Triple (fun mount => Tracks volume opened written mount ∧
        ∀ zone ∈ (mount.database.tree volume).zones, zone.path ≠ path)
      (Client.writeEntry volume path [] now)
      (fun row mount => Told volume (Tracks volume opened (Function.update written row.id [])) row
        mount ∧ row.kind = .file)
      (Tracks volume opened written) := by
  refine .of_states ?_
  rintro mount ⟨tracks, noZone⟩
  cases answer : mount.database.writeFile volume path [] 420 now with
  | error failure =>
      have rejected : Client.writeEntry volume path [] now mount = (.error failure, mount) := by
        refine bind_of_error (commit_of_error ?_)
        rw [answer]
        rfl
      exact .of_failure rejected tracks
  | ok result =>
      obtain ⟨after, id⟩ := result
      obtain ⟨writing, file⟩ := tracks.write noZone answer
      have committed := writing.state.committed
      obtain ⟨zone, entry, front, rest, found, samePath, rfl, regular, -⟩ :=
        entryAt_of_fileAt writing.state.tree file
      have stat : after.stat volume path = .ok [entryInode zone.path entry] := by
        rw [samePath]
        exact stat_of_entryAt committed.sound.keys writing.state.tree found
      have rows : Client.commit (fun db => do
          let written ← db.writeFile volume path [] 420 now
          let rows ← written.1.stat volume path
          .ok (written.1, rows)) mount =
            (.ok [entryInode zone.path entry], { mount with database := after.commit }) := by
        refine commit_of_ok ?_
        rw [answer, ok_bind]
        dsimp only
        rw [stat, ok_bind]
      refine .of_run ((bind_of_ok rows).trans rfl) ⟨⟨writing, ?_⟩, regular⟩
      exact shows_of_stat committed.sound.keys stat (List.mem_singleton_self _)

/-- The row of an inode number; a file has the id that the number stands for. -/
theorem tracks_entry {link : Link} (inode : INodeNo) :
    Triple (Connected (Tracks volume opened written)) (link.entry volume inode)
      (fun row => Connected fun mount => Told volume (Tracks volume opened written) row mount ∧
        (row.kind = .file → row.id = inode - 2))
      (Connected (Tracks volume opened written)) := by
  refine (Link.entry_connected inode).weaken (fun _ before => before) (fun row => ?_)
    fun _ before => before
  refine Connected.imp ?_
  rintro mount ⟨before, tracks, answer, rfl⟩
  have keys := tracks.state.committed.sound.keys
  refine ⟨⟨tracks.remembering row, shows_of_entryOf keys answer⟩, ?_⟩
  intro file
  by_cases isRoot : inode = rootInode
  · rw [isRoot] at answer
    rw [kind_of_entryOf_root tracks.state answer] at file
    cases file
  · exact id_of_entryOf keys isRoot answer

end Requests

section Callbacks

variable (link : Link) {volume : Uuid} {opened : FileHandle → Option NodeId}
  {written : NodeId → Bytes}

theorem placed_of_shows {db : Database} {row : Inode} (keys : Keys db) (shows : db.Shows volume row)
    (file : row.kind = .file) : db.Placed volume row.id row.path := by
  obtain ⟨node, member, rfl⟩ := shows
  exact placed_of_node keys member file

theorem Told.fileAt {row : Inode} {mount : Mount} (told : Told volume (Tracks volume opened written) row mount)
    (regular : row.kind = .file) :
    mount.database.FileAt volume row.path row.id (written row.id) := by
  obtain ⟨tracks, node, member, rfl⟩ := told
  exact ⟨node, member, rfl, rfl, regular, tracks.content member regular⟩

theorem tracks_openFile (inode : INodeNo) (truncate : Bool) (now : Timestamp) :
    Triple (Connected (Tracks volume opened written)) (link.openFile volume inode truncate now)
      (fun handle => Connected (Tracks volume (Function.update opened handle (some (inode - 2)))
        (if truncate then Function.update written (inode - 2) [] else written)))
      (Connected (Tracks volume opened written)) := by
  refine Triple.reporting ((tracks_entry inode).bind fun row => ?_)
  split
  · exact .fail (Connected.imp fun _ both => both.1.1)
  · rename_i regular
    rw [not_not] at regular
    cases truncate with
    | false =>
        have unwritten : Triple
            (Connected fun mount => Told volume (Tracks volume opened written) row mount ∧
              (row.kind = .file → row.id = inode - 2)) (pure 0 : LinkedCallback NodeId)
            (fun _ => Connected fun mount => Tracks volume opened written mount ∧
              mount.database.Placed volume (inode - 2) row.path)
            (Connected (Tracks volume opened written)) := by
          refine .pure (Connected.imp ?_)
          rintro mount ⟨told, number⟩
          rw [← number regular]
          exact ⟨told.1, placed_of_shows told.1.state.committed.sound.keys told.2 regular⟩
        exact unwritten.bind fun _ =>
          onMount_connected (tracks_allocateHandle row.path (inode - 2))
    | true =>
        have emptied : Triple
            (fun mount => Told volume (Tracks volume opened written) row mount ∧
              (row.kind = .file → row.id = inode - 2)) (Client.write volume row.path [] now)
            (fun _ mount => Tracks volume opened (Function.update written (inode - 2) []) mount ∧
              mount.database.Placed volume (inode - 2) row.path)
            (Tracks volume opened written) := by
          refine (tracks_write row.path (inode - 2) [] [] now).weaken ?_ ?_ fun _ before => before
          · rintro mount ⟨told, number⟩
            rw [← number regular]
            exact ⟨⟨told.1, _, told.fileAt regular⟩, rfl⟩
          · rintro _ mount ⟨tracks, file⟩
            exact ⟨tracks, file.placed tracks.state.committed.sound.keys⟩
        exact (Link.call_connected emptied fun _ both => both.1.1).bind fun _ =>
          onMount_connected (tracks_allocateHandle row.path (inode - 2))

theorem tracks_create (parent : INodeNo) (name : Text) (now : Timestamp) :
    Triple (Connected fun mount => Tracks volume opened written mount ∧
        mount.CreatesFile volume parent name)
      (link.create volume parent name now)
      (fun created => Connected (Tracks volume
        (Function.update opened created.2 (some created.1.id))
        (Function.update written created.1.id [])))
      (Connected (Tracks volume opened written)) := by
  refine Triple.reporting ?_
  refine ((Link.childPath_connected parent name).weaken (fun _ before => before)
    (fun _ _ after => after) (Connected.imp fun _ both => both.1)).bind fun path => ?_
  have stored : Triple (fun mount => ∃ before : Mount, (Tracks volume opened written before ∧
      before.CreatesFile volume parent name) ∧ Asked volume before parent mount ∧
        ∃ front, before.UsesPath volume parent front ∧ path = joinName front name ∧
          name ≠ [] ∧ '/' ∉ name)
      (Client.writeEntry volume path [] now)
      (fun row mount => Told volume (Tracks volume opened (Function.update written row.id [])) row
        mount ∧ row.kind = .file)
      (Tracks volume opened written) := by
    refine (tracks_writeEntry path now).weaken ?_ (fun _ _ both => both) fun _ before => before
    rintro mount ⟨before, ⟨tracks, creates⟩, asked, front, uses, rfl, -⟩
    refine ⟨tracks.asked asked, ?_⟩
    rw [asked.database]
    exact creates front uses.hasPath
  refine (Link.call_connected stored ?_).bind fun row => ?_
  · rintro mount ⟨before, both, asked, -⟩
    exact both.1.asked asked
  · have remembered : Triple (fun mount =>
        Told volume (Tracks volume opened (Function.update written row.id [])) row mount ∧
          row.kind = .file) (remember row)
        (fun _ mount => Tracks volume opened (Function.update written row.id []) mount ∧
          mount.database.Placed volume row.id row.path) (Tracks volume opened written) := by
      refine .modify ?_
      rintro mount ⟨⟨tracks, shows⟩, regular⟩
      exact ⟨tracks.remembering row,
        placed_of_shows tracks.state.committed.sound.keys shows regular⟩
    refine (onMount_connected remembered).bind fun _ => ?_
    exact (onMount_connected (tracks_allocateHandle row.path row.id)).bind fun handle =>
      .pure fun _ after => after

theorem tracks_writeFile (inode : INodeNo) (offset : Nat) (input : Input) (now : Timestamp) :
    Triple (Connected (Tracks volume opened written)) (link.writeFile volume inode offset input now)
      (fun _ => Connected (Tracks volume opened (Function.update written (inode - 2)
        (splice (written (inode - 2)) offset input.val))))
      (Connected (Tracks volume opened written)) := by
  refine Triple.reporting ((tracks_entry inode).bind fun row => ?_)
  refine (Link.answered.weaken (fun _ before => before) (fun _ _ after => after)
    (Connected.imp fun _ both => both.1.1)).bind fun data => ?_
  split
  · exact .fail (Connected.imp fun _ both => both.1.1.1)
  · have stored : Triple (fun mount =>
        (Told volume (Tracks volume opened written) row mount ∧
          (row.kind = .file → row.id = inode - 2)) ∧
            mount.database.readFile volume row.path = .ok data)
        (Client.write volume row.path (splice data offset input.val) now)
        (fun _ mount => Tracks volume opened (Function.update written (inode - 2)
          (splice (written (inode - 2)) offset input.val)) mount ∧
            mount.database.FileAt volume row.path (inode - 2)
              (splice (written (inode - 2)) offset input.val))
        (Tracks volume opened written) := by
      refine (tracks_write row.path (inode - 2) _ _ now).weaken ?_ (fun _ _ both => both)
        fun _ before => before
      rintro mount ⟨⟨told, number⟩, done⟩
      obtain ⟨file, regular⟩ := fileAt_of_readFile told.1.state told.2 done
      have sameBytes : data = written row.id :=
        file.unique told.1.state.committed.sound.keys (told.fileAt regular)
      rw [← number regular, ← sameBytes]
      exact ⟨⟨told.1, data, file⟩, rfl⟩
    exact (Link.call_connected stored fun _ both => both.1.1.1).bind fun _ =>
      .pure (Connected.imp fun _ after => after.1)

theorem tracks_rename (parent : INodeNo) (name : Text) (newParent : INodeNo) (newName : Text)
    (flags : Bool) (now : Timestamp) :
    Triple (Connected fun mount => Tracks volume opened written mount ∧
        (flags = false → mount.MovesOthers volume opened parent name newParent newName now))
      (link.rename volume parent name newParent newName flags now)
      (fun _ => Connected (Tracks volume opened written))
      (Connected (Tracks volume opened written)) := by
  unfold Link.rename
  split
  · exact .fail (Connected.imp fun _ both => both.1)
  · rename_i plain
    refine Triple.reporting ?_
    refine ((Link.childPath_connected parent name).weaken (fun _ before => before)
      (fun _ _ after => after) (Connected.imp fun _ both => both.1)).bind fun source => ?_
    refine ((Link.childPath_connected newParent newName).weaken (fun _ before => before)
      (fun _ _ after => after) (Connected.imp ?_)).bind fun destination => ?_
    · rintro mount ⟨before, both, asked, -⟩
      exact both.1.asked asked
    · refine (Link.call_connected (.perform ?_ ?_) ?_).bind fun _ => .pure fun _ moved => moved
      · rintro mount value last
          ⟨second, ⟨first, ⟨tracks, moves⟩, firstAsked, front, frontAt, rfl, -⟩, secondAsked,
            newFront, newFrontAt, rfl, -⟩ done
        have tracking := (tracks.asked firstAsked).asked secondAsked
        have sameDatabase : mount.database = first.database :=
          secondAsked.database.trans firstAsked.database
        have newHas := firstAsked.hasPath tracks.state.committed.sound.keys tracks.root
          newFrontAt.hasPath
        obtain ⟨⟨after, count⟩, moveOk, same⟩ := bind_eq_ok.mp done
        obtain ⟨rfl, rfl⟩ := Prod.mk.inj (Except.ok.inj same)
        rw [sameDatabase] at moveOk
        obtain ⟨exactly, apart⟩ := moves (Bool.eq_false_iff.mpr plain) front newFront
          frontAt.hasPath newHas after count moveOk
        rw [← sameDatabase] at moveOk exactly apart
        exact tracking.moved moveOk exactly apart
      all_goals
        rintro mount ⟨second, ⟨first, both, firstAsked, -⟩, secondAsked, -⟩
        exact (both.1.asked firstAsked).asked secondAsked

theorem tracks_release (handle : FileHandle) :
    Triple (Connected (Tracks volume opened written)) (releaseHandle handle)
      (fun _ => Connected (Tracks volume (Function.update opened handle none) written))
      (Connected (Tracks volume opened written)) := by
  refine .modify ?_
  intro linked tracking served
  have tracks := tracking served
  refine ⟨tracks.state, tracks.root, ?_, tracks.bytes⟩
  intro other id isOpen
  by_cases same : other = handle
  · rw [same, Function.update_self] at isOpen
    cases isOpen
  · rw [Function.update_of_ne same] at isOpen
    change ∃ path, Function.update linked.mount.openFiles handle none other = some path ∧ _
    rw [Function.update_of_ne same]
    exact tracks.placed other id isOpen

/-- A read through a handle whose frames fit. -/
theorem Tracks.read {linked : Linked} (tracks : Tracks volume opened written linked.mount)
    (served : linked.connected = true) {handle : FileHandle} {id : NodeId}
    (isOpen : opened handle = some id) {node : Node}
    (member : node ∈ linked.mount.database.nodes volume) (same : node.id = id) (inode : INodeNo)
    {offset size : Nat} (within : offset < 2 ^ 63) (limit : size ≤ 16777216)
    (fits : link.requestLength (textLength node.path + varintLength offset + varintLength size) ≤
      Protocol.MAX_FRAME_SIZE) :
    (link.readFile volume inode handle offset size linked).1 =
      .ok (((written id).drop offset).take size) := by
  obtain ⟨path, known, placed⟩ := tracks.placed handle id isOpen
  obtain ⟨file, rfl⟩ := placed.2 node member same
  have content := tracks.content member file
  obtain ⟨zone, entry, front, rest, found, path, sameId, -, bytes⟩ :=
    entryAt_of_fileAt tracks.state.tree ⟨node, member, rfl, rfl, file, content⟩
  have here : link.openPath volume handle inode linked = (.ok node.path, linked) := by
    have asked : (onMount (ask fun mount => .ok (mount.openFiles handle)) :
        LinkedCallback (Option Text)) linked = (.ok (some node.path), linked) := by
      unfold onMount ask
      dsimp only
      rw [known]
    unfold Link.openPath
    rw [bind_of_ok asked]
    rfl
  have answer : Client.readRange volume node.path offset size linked.mount =
      (.ok (((written id).drop offset).take size), linked.mount) := by
    unfold Client.readRange ask
    dsimp only
    rw [if_neg (by omega), path, readRange_of_entryAt tracks.state.committed.sound tracks.state.tree
      found bytes limit, same]
  have short : link.responseLength bytesLength
      (.ok (((written id).drop offset).take size) : Result Bytes) ≤ Protocol.MAX_FRAME_SIZE := by
    have length : (((written id).drop offset).take size).length ≤ 16777216 :=
      (List.length_take_le size _).trans limit
    have count := varintLength_le (((written id).drop offset).take size).length
    have frames : 16777216 + 12 ≤ Protocol.MAX_FRAME_SIZE := by decide
    change 1 + 1 + 1 + (varintLength _ + _) ≤ _
    omega
  have called : link.readRange volume node.path offset size linked =
      (.ok (((written id).drop offset).take size), { linked with connected := true }) := by
    unfold Link.readRange Link.call
    rw [if_pos ⟨served, fits⟩]
    dsimp only
    rw [answer, if_pos short]
  unfold Link.readFile
  rw [reporting_of_ok ((bind_of_ok here).trans called)]

end Callbacks

/-! ### Runs -/

theorem tracks_new {db : Database} {volume : Uuid} (state : WellFormedVolume db volume) :
    Tracks volume (Tracked.new volume db).opened (Tracked.new volume db).written
      (Tracked.new volume db).linked.mount := by
  have keys := state.committed.sound.keys
  refine ⟨state, ?_, ?_, ?_⟩
  · simp [Tracked.new, Mount.new]
  · intro handle id impossible
    cases impossible
  · intro entry member inVolume file
    obtain ⟨bytes, content⟩ : ∃ bytes, db.contentOf entry = some bytes := contentOf_of_file file
    change db.contentOf entry = some _
    unfold Tracked.new
    dsimp only
    cases found : db.zoneEntries.find? fun other => other.volumeId = volume ∧ other.id = entry.id with
    | none =>
        exact absurd (decide_eq_true ⟨inVolume, rfl⟩) (List.find?_eq_none.mp found entry member)
    | some other =>
        have chosen : other.volumeId = volume ∧ other.id = entry.id := by
          simpa using List.find?_some found
        obtain rfl := keys.entry_eq_of_id (List.mem_of_find?_eq_some found) member chosen.2
        dsimp only
        rw [content]
        rfl

def Tracked.Right (tracked : Tracked) (volume : Uuid) : Prop :=
  Connected (Tracks volume tracked.opened tracked.written) tracked.linked

/-- One callback. -/
theorem Tracked.right_run {link : Link} {volume : Uuid} {tracked : Tracked} {call : FuseCall}
    (right : tracked.Right volume) (allowed : tracked.Allows volume call) :
    (tracked.run link volume call).Right volume := by
  have remembers := tracks_remembers volume tracked.opened tracked.written
  cases call with
  | lookup parent name => exact (remembers.linkLookup parent name).after right
  | getattr inode => exact (remembers.linkGetattr inode).after right
  | setattr inode unsupported atime mtime clock now =>
      refine (remembers.linkSetattr inode unsupported atime mtime clock now ?_).after right
      exact fun path access modification => tracks_setTimes path access modification now
  | openFile inode truncate now =>
      obtain ⟨succeeds, fails⟩ := tracks_openFile link inode truncate now _ right
      dsimp only [Tracked.Right, Tracked.run, FuseCall.runLinked]
      cases result : link.openFile volume inode truncate now tracked.linked with
      | mk answer after =>
          cases answer with
          | ok handle => exact succeeds handle after result
          | error failure => exact fails failure after result
  | read inode handle offset size => exact (remembers.linkRead inode handle offset size).after right
  | write inode offset input now =>
      obtain ⟨succeeds, fails⟩ := tracks_writeFile link inode offset input now _ right
      dsimp only [Tracked.Right, Tracked.run, FuseCall.runLinked]
      cases result : link.writeFile volume inode offset input now tracked.linked with
      | mk answer after =>
          cases answer with
          | ok count => exact succeeds count after result
          | error failure => exact fails failure after result
  | create parent name now =>
      obtain ⟨succeeds, fails⟩ := tracks_create link parent name now _
        fun served => ⟨right served, allowed⟩
      dsimp only [Tracked.Right, Tracked.run, FuseCall.runLinked]
      cases result : link.create volume parent name now tracked.linked with
      | mk answer after =>
          cases answer with
          | ok created => exact succeeds created after result
          | error failure => exact fails failure after result
  | mkdir parent name now =>
      refine (remembers.linkMkdir parent name now ?_).after right
      exact fun path => tracks_mkdirEntry path false now
  | unlink parent name => exact (remembers.linkRemoveChild parent name tracks_remove).after right
  | rmdir parent name => exact (remembers.linkRemoveChild parent name tracks_remove).after right
  | rename parent name newParent newName flags now =>
      exact (tracks_rename link parent name newParent newName flags now).after
        fun served => ⟨right served, allowed⟩
  | readdir inode offset capacity => exact (remembers.linkReaddir inode offset capacity).after right
  | release handle =>
      exact (tracks_release handle tracked.linked right).1 () _ rfl

theorem right_of_guarded (link : Link) {db : Database} {volume : Uuid}
    (state : WellFormedVolume db volume) {tracked : Tracked}
    (reached : Guarded (Tracked.new volume db) (TrackedStep link volume)
      (fun tracked call => tracked.Allows volume call) tracked) :
    tracked.Right volume := by
  induction reached with
  | start => exact fun _ => tracks_new state
  | next call _ allowed moved ih =>
      rw [moved]
      exact Tracked.right_run ih allowed

/-- A read through a handle returns the range of the bytes that its file was given last, as
long as no rename has moved an open file and the connection is not lost. -/
theorem read_through_handle (link : Link) {db : Database} {volume : Uuid}
    (state : WellFormedVolume db volume) {tracked : Tracked}
    (reached : Guarded (Tracked.new volume db) (TrackedStep link volume)
      (fun tracked call => tracked.Allows volume call) tracked)
    (served : tracked.linked.connected = true) {handle : FileHandle} {id : NodeId}
    (isOpen : tracked.opened handle = some id) {node : Node}
    (member : node ∈ tracked.linked.mount.database.nodes volume) (same : node.id = id)
    (inode : INodeNo) {offset size : Nat} (within : offset < 2 ^ 63) (limit : size ≤ 16777216)
    (fits : link.requestLength (textLength node.path + varintLength offset + varintLength size) ≤
      Protocol.MAX_FRAME_SIZE) :
    (link.readFile volume inode handle offset size tracked.linked).1 =
      .ok (((tracked.written id).drop offset).take size) :=
  (right_of_guarded link state reached served).read link served isOpen member same inode within limit fits

def fileCalls : List Op :=
  [.createVolume 7 ['v'] 0]

def fileLink : Link :=
  { volumeName := ['v']
    message := fun failure => failure.message.toList }

def writtenFile : Tracked :=
  ((Tracked.new 7 (Database.empty.calls fileCalls)).run fileLink 7 (.create rootInode ['f'] 1)).run
    fileLink 7 (.write 4 0 ⟨[104, 105, 33], by decide⟩ 2)

def renamedFile : Tracked :=
  (writtenFile.run fileLink 7 (.rename rootInode ['f'] rootInode ['g'] false 3)).run fileLink 7
    (.create rootInode ['f'] 4)

theorem joinName_ne_root (front : Text) {name : Text} (named : name ≠ []) :
    joinName front name ≠ ['/'] := by
  have positive := List.length_pos_of_ne_nil named
  intro same
  have length := congrArg List.length same
  unfold joinName at length
  split at length
  · simp only [List.length_cons, List.length_nil] at length
    omega
  · simp only [List.length_append, List.length_cons, List.length_nil] at length
    omega

/-- Two of its bytes are read. -/
theorem read_through_handle_of_written :
    (fileLink.readFile 7 4 1 1 2 writtenFile.linked).1 =
      .ok (((writtenFile.written 2).drop 1).take 2) := by
  have state : WellFormedVolume (Database.empty.calls fileCalls) 7 :=
    wellFormed_calls (by decide +kernel)
  have allowed : (Tracked.new 7 (Database.empty.calls fileCalls)).Allows 7
      (.create rootInode ['f'] 1) := by
    intro front _ zone member
    have onlyRoot : ∀ zone ∈ ((Database.empty.calls fileCalls).tree 7).zones, zone.path = ['/'] := by
      decide +kernel
    rw [onlyRoot zone member]
    exact (joinName_ne_root front (by decide)).symm
  have reached : Guarded (Tracked.new 7 (Database.empty.calls fileCalls)) (TrackedStep fileLink 7)
      (fun tracked call => tracked.Allows 7 call) writtenFile :=
    .next (.write 4 0 ⟨[104, 105, 33], by decide⟩ 2)
      (.next (.create rootInode ['f'] 1) .start allowed rfl) trivial rfl
  have file : ∃ node ∈ writtenFile.linked.mount.database.nodes 7, node.id = 2 ∧
      fileLink.requestLength (textLength node.path + varintLength 1 + varintLength 2) ≤
        Protocol.MAX_FRAME_SIZE := by
    decide +kernel
  obtain ⟨node, member, same, fits⟩ := file
  have isOpen : writtenFile.opened 1 = some 2 := by decide +kernel
  exact read_through_handle fileLink state reached (by decide +kernel) isOpen member same 4
    (by decide) (by decide) fits

/-- The handle of the renamed file reads the other one. -/
theorem read_through_handle_of_another :
    ¬ ∀ (link : Link) (db : Database) (volume : Uuid) (tracked : Tracked),
      WellFormedVolume db volume →
      Reachable (Tracked.new volume db) (TrackedStep link volume) tracked →
      tracked.linked.connected = true →
      ∀ (handle : FileHandle) (id : NodeId), tracked.opened handle = some id →
        ∀ node ∈ tracked.linked.mount.database.nodes volume, node.id = id →
          ∀ (inode : INodeNo) (offset size : Nat), offset < 2 ^ 63 → size ≤ 16777216 →
            link.requestLength (textLength node.path + varintLength offset + varintLength size) ≤
              Protocol.MAX_FRAME_SIZE →
            (link.readFile volume inode handle offset size tracked.linked).1 =
              .ok (((tracked.written id).drop offset).take size) := by
  intro every
  have reached : Reachable (Tracked.new 7 (Database.empty.calls fileCalls)) (TrackedStep fileLink 7)
      renamedFile :=
    .next (.create rootInode ['f'] 4)
      (.next (.rename rootInode ['f'] rootInode ['g'] false 3)
        (.next (.write 4 0 ⟨[104, 105, 33], by decide⟩ 2)
          (.next (.create rootInode ['f'] 1) .start rfl) rfl) rfl) rfl
  have file : ∃ node ∈ renamedFile.linked.mount.database.nodes 7, node.id = 2 ∧
      fileLink.requestLength (textLength node.path + varintLength 0 + varintLength 3) ≤
        Protocol.MAX_FRAME_SIZE := by
    decide +kernel
  obtain ⟨node, member, same, fits⟩ := file
  have answer := every fileLink _ 7 _ (wellFormed_calls (by decide +kernel)) reached
    (by decide +kernel) 1 2 (by decide +kernel) node member same 4 0 3 (by decide) (by decide) fits
  have wrong : (fileLink.readFile 7 4 1 0 3 renamedFile.linked).1 ≠
      .ok (((renamedFile.written 2).drop 0).take 3) := by
    decide +kernel
  exact wrong answer

end PostgreOS
