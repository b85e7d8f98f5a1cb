/-
Runs on trees of files.

The database stands for a tree of files in every volume. Along every run of calls whose patterns
select what they are meant to, the database carries out the calls that the trees allow, and
becomes what they become.
-/

import PostgreOS.Consistency
import PostgreOS.FileTreeCopies
import PostgreOS.FileTreeImports
import PostgreOS.FileTreeMoves
import PostgreOS.FileTreeTexts
import PostgreOS.Library.Services
import PostgreOS.VolumeReads

namespace PostgreOS

open Library Library.LikePattern Library.NameTree Library.Outcome Library.Transition

/-- The names on the way to a file. -/
abbrev FilePath := { names : List Text // Components names }

/-- A call on the tree of files of a volume. -/
inductive TreeCall where
  | mkdir (path : FilePath) (parents : Bool) (mode : Int) (now : Timestamp)
  | writeFile (path : FilePath) (data : Bytes) (mode : Int) (now : Timestamp)
  | importTree (path : FilePath) (entries : List ImportEntry) (now : Timestamp)
  | importText (path : FilePath) (reader : Bytes) (now : Timestamp)
  | copy (source destination : FilePath) (recursive : Bool) (now : Timestamp)
  | move (source destination : FilePath) (now : Timestamp)
  | moveCommand (source destination : FilePath) (now : Timestamp)
  | remove (path : FilePath) (recursive : Bool)
  | setTimes (path : FilePath)
      (atimeSeconds atimeNanoseconds mtimeSeconds mtimeNanoseconds : Int) (now : Timestamp)

namespace TreeCall

def op (volume : Uuid) : TreeCall → Op
  | .mkdir path parents mode now => .mkdir volume (pathText path) parents mode now
  | .writeFile path data mode now => .writeFile volume (pathText path) data mode now
  | .importTree path entries now => .importTree volume (pathText path) entries now
  | .importText path reader now => .importText volume (pathText path) reader now
  | .copy source destination recursive now =>
      .copy volume (pathText source) (pathText destination) recursive now
  | .move source destination now => .move volume (pathText source) (pathText destination) now
  | .moveCommand source destination now =>
      .moveCommand volume (pathText source) (pathText destination) now
  | .remove path recursive => .remove volume (pathText path) recursive
  | .setTimes path atimeSeconds atimeNanoseconds mtimeSeconds mtimeNanoseconds now =>
      .setTimes volume (pathText path) atimeSeconds atimeNanoseconds mtimeSeconds mtimeNanoseconds
        now

theorem op_volume (volume : Uuid) (call : TreeCall) : (call.op volume).volume = volume := by
  cases call <;> rfl

def Allows (tree : FileTree) : TreeCall → Prop
  | .mkdir path parents _ _ =>
      if parents = true then tree.CanMakeAll path.val else tree.CanMake path.val
  | .writeFile path _ _ _ => tree.CanWrite path.val
  | .importTree path entries _ => tree.CanImport path.val entries
  | .importText path reader _ => tree.CanWrite path.val ∧ FileTree.CanStream reader
  | .copy source destination recursive _ => tree.CanCopy source.val destination.val recursive
  | .move source destination _ | .moveCommand source destination _ =>
      tree.CanMove source.val destination.val
  | .remove path recursive => tree.CanRemove path.val recursive
  | .setTimes _ atimeSeconds atimeNanoseconds mtimeSeconds mtimeNanoseconds _ =>
      FileTree.CanTouch atimeSeconds atimeNanoseconds mtimeSeconds mtimeNanoseconds

def effect (tree : FileTree) : TreeCall → FileTree
  | .mkdir path parents mode now =>
      if parents = true then tree.makeAll path.val mode now else tree.make path.val mode now
  | .writeFile path data mode now => tree.write path.val data mode now
  | .importTree path entries _ => tree.importBatch path.val entries
  | .importText path reader now => tree.write path.val reader 420 now
  | .copy source destination _ _ => NameTree.copy tree source.val destination.val
  | .move source destination _ | .moveCommand source destination _ =>
      NameTree.move tree source.val destination.val
  | .remove path _ => NameTree.cut tree path.val
  | .setTimes path atimeSeconds atimeNanoseconds mtimeSeconds mtimeNanoseconds _ =>
      tree.touch path.val (timestampOf atimeSeconds atimeNanoseconds)
        (timestampOf mtimeSeconds mtimeNanoseconds)

/-- The patterns of the call select what they are meant to, a write does not meet the root of a
zone, and a copy or a move does not meet zones nested in its source. -/
def Faithful (db : Database) (volume : Uuid) : TreeCall → Prop
  | .writeFile path _ _ _ | .importText path _ _ => ¬ db.NestedZone volume (pathText path)
  | .copy source destination recursive _ =>
      CopyFaithful db volume (pathText source) (pathText destination) recursive
  | .move source destination _ | .moveCommand source destination _ =>
      MoveFaithful db volume (pathText source) (pathText destination)
  | .remove path recursive => ∀ location ∈ db.locateZone volume (pathText path),
      RemoveExact db volume (pathText path) recursive location
  | _ => True

instance (db : Database) (volume : Uuid) (call : TreeCall) : Decidable (call.Faithful db volume) :=
  match call with
  | .writeFile _ _ _ _ | .importText _ _ _ => inferInstanceAs (Decidable (¬ (_ ∧ _)))
  | .copy _ _ _ _ => inferInstanceAs (Decidable (CopyFaithful _ _ _ _ _))
  | .move _ _ _ | .moveCommand _ _ _ => inferInstanceAs (Decidable (MoveFaithful _ _ _ _))
  | .remove path _ =>
      inferInstanceAs (Decidable (∀ location ∈ db.locateZone volume (pathText path.val), _))
  | .mkdir _ _ _ _ | .importTree _ _ _ | .setTimes _ _ _ _ _ _ => inferInstanceAs (Decidable True)

/-- The subtree that the call reads. -/
def subtree : TreeCall → Option FilePath
  | .copy source _ _ _ | .move source _ _ | .moveCommand source _ _ => some source
  | .remove path _ => some path
  | _ => none

end TreeCall

/-- The trees of files of all volumes, and the calls on them. -/
def fileTrees : Service (Uuid → FileTree) (Uuid × TreeCall) where
  Allows trees call := call.2.Allows (trees call.1)
  effect trees call := Function.update trees call.1 (call.2.effect (trees call.1))

def databaseService : Service Database (Uuid × TreeCall) where
  Allows db call := ∃ after, (call.2.op call.1).run db = .ok after
  effect db call := transact db ((call.2.op call.1).run db)

def FaithfulCall (db : Database) (call : Uuid × TreeCall) : Prop :=
  call.1 ∈ db.volumes.map Volume.id ∧ call.2.Faithful db call.1

instance (db : Database) (call : Uuid × TreeCall) : Decidable (FaithfulCall db call) :=
  inferInstanceAs (Decidable (_ ∧ _))

theorem transact_ok {db after : Database} {outcome : Result Database}
    (done : outcome = .ok after) : transact db outcome = after.commit := by
  rw [done]
  rfl

theorem Orderly.run {db after : Database} {op : Op} (orderly : Orderly db)
    (done : op.run db = .ok after) : Orderly after.commit := by
  have moved : CallStep db (.operation op) after.commit := (transact_ok done).symm
  exact (orderly.step moved).1

/-! ### One call -/

section Call

variable {db after : Database} {volume : Uuid} {call : TreeCall}

theorem exists_map_ok {α β : Type} (result : Result α) (change : α → β) :
    (∃ value, change <$> result = .ok value) ↔ ∃ value, result = .ok value := by
  cases result with
  | ok value => exact iff_of_true ⟨_, rfl⟩ ⟨value, rfl⟩
  | error error => exact iff_of_false (fun ⟨_, same⟩ => nomatch same) fun ⟨_, same⟩ => nomatch same

section Own

variable (committed : Committed db) (before : (db.tree volume).WellFormed)
  (faithful : call.Faithful db volume)

include committed before faithful

/-- The database carries out what the tree allows. -/
theorem run_allowed_iff :
    (∃ after, (call.op volume).run db = .ok after) ↔ call.Allows (db.view volume) := by
  have sound := committed.sound
  cases call with
  | mkdir path parents mode now => exact mkdir_allowed_iff sound before path.property mode now
  | writeFile path data mode now =>
      exact (exists_map_ok _ _).trans
        (writeFile_allowed_iff before path.property faithful committed data mode now)
  | importTree path entries now =>
      exact (exists_map_ok _ _).trans
        (importTree_allowed_iff committed before path.property entries now)
  | importText path reader now =>
      exact (exists_map_ok _ _).trans
        (importText_allowed_iff committed before path.property faithful reader now)
  | copy source destination recursive now =>
      exact (exists_map_ok _ _).trans
        (copy_allowed_iff sound before source.property destination.property faithful now)
  | move source destination now =>
      exact (exists_map_ok _ _).trans
        (move_allowed_iff sound before source.property destination.property faithful now)
  | moveCommand source destination now =>
      exact (exists_map_ok _ _).trans
        (moveCommand_allowed_iff sound before source.property destination.property faithful now)
  | remove path recursive =>
      exact (exists_map_ok _ _).trans (remove_allowed_iff sound before path.property recursive)
  | setTimes path atimeSeconds atimeNanoseconds mtimeSeconds mtimeNanoseconds now =>
      exact (exists_map_ok _ _).trans
        (setTimes_allowed_iff sound.keys before path.property atimeSeconds mtimeSeconds now)

/-- The tree becomes what the call makes of it. -/
theorem view_run (done : (call.op volume).run db = .ok after) :
    after.view volume = call.effect (db.view volume) := by
  have sound := committed.sound
  cases call with
  | mkdir path parents mode now => exact view_mkdir sound before path.property done
  | writeFile path data mode now =>
      obtain ⟨⟨last, id⟩, ran, rfl⟩ := map_eq_ok.mp done
      exact view_writeFile before path.property faithful committed ran
  | importTree path entries now =>
      obtain ⟨⟨last, count⟩, ran, rfl⟩ := map_eq_ok.mp done
      exact view_importTree sound before path.property ran
  | importText path reader now =>
      obtain ⟨⟨last, id⟩, ran, rfl⟩ := map_eq_ok.mp done
      exact view_importText committed before path.property faithful ran
  | copy source destination recursive now =>
      obtain ⟨⟨last, count⟩, ran, rfl⟩ := map_eq_ok.mp done
      exact view_copy sound before source.property destination.property faithful ran
  | move source destination now =>
      obtain ⟨⟨last, count⟩, ran, rfl⟩ := map_eq_ok.mp done
      exact view_move sound before source.property destination.property faithful ran
  | moveCommand source destination now =>
      obtain ⟨⟨last, count⟩, ran, rfl⟩ := map_eq_ok.mp done
      exact view_moveCommand sound before source.property destination.property faithful ran
  | remove path recursive =>
      obtain ⟨⟨last, count⟩, ran, rfl⟩ := map_eq_ok.mp done
      exact view_remove sound before path.property faithful ran
  | setTimes path atimeSeconds atimeNanoseconds mtimeSeconds mtimeNanoseconds now =>
      obtain ⟨⟨last, rows⟩, ran, rfl⟩ := map_eq_ok.mp done
      exact view_setTimes before path.property ran

end Own

theorem keepsTree_of_faithful (faithful : call.Faithful db volume)
    (done : (call.op volume).run db = .ok after) : (call.op volume).KeepsTree db := by
  have noZone {path : Text} (plain : ¬ db.NestedZone volume path) :
      path ≠ ['/'] → ∀ zone ∈ (db.tree volume).zones, zone.path ≠ path := by
    intro inner zone member same
    obtain ⟨inTable, inVolume⟩ := mem_tree_zones.mp member
    exact plain ⟨inner, zone, inTable, inVolume, same⟩
  cases call with
  | mkdir path parents mode now => trivial
  | writeFile path data mode now => exact noZone faithful
  | importTree path entries now => trivial
  | importText path reader now => exact noZone faithful
  | copy source destination recursive now =>
      exact fun location located isEntry recursively =>
        (faithful.2 recursively).2 location located isEntry
  | move source destination now =>
      obtain ⟨⟨last, count⟩, ran, -⟩ := map_eq_ok.mp done
      obtain ⟨replaced, sourceLocation, parent, movable, -⟩ := move_ok ran
      exact MoveFaithful.exactly faithful movable.notLikeBelow
  | moveCommand source destination now =>
      obtain ⟨⟨last, count⟩, ran, -⟩ := map_eq_ok.mp done
      obtain ⟨replaced, sourceLocation, parent, movable, -⟩ := moveCommand_ok ran
      exact MoveFaithful.exactly faithful movable.notLikeBelow
  | remove path recursive => exact fun _ => faithful
  | setTimes path atimeSeconds atimeNanoseconds mtimeSeconds mtimeNanoseconds now => trivial

theorem SameReach.view (same : SameReach db after volume) : after.view volume = db.view volume := by
  have tree : after.tree volume = db.tree volume := by
    unfold Database.tree
    rw [same.zoneNodesOf, same.entries]
  refine view_congr ?_
  unfold Database.nodes
  rw [tree]
  refine Tree.nodes_congr fun entry member => contentOf_congr fun object refers => ?_
  exact same.blocks entry member object refers

theorem view_run_other {view : Uuid} (orderly : Orderly db) (other : view ≠ volume)
    (done : (call.op volume).run db = .ok after) : after.view view = db.view view := by
  have later : Orderly after.commit := orderly.run done
  have apart : view ≠ (call.op volume).volume := by rwa [TreeCall.op_volume]
  have same : after.rowsOf view = db.rowsOf view := rowsOf_run orderly apart done
  have rows : after.commit.rowsOf view = db.rowsOf view := same
  exact (SameReach.of_rows orderly.sound orderly.catalog later.sound later.catalog rows).view

end Call

theorem plain_relativePath {db : Database} {volume : Uuid} {target : Text} {location : Location}
    (plain : Plain target) (located : db.locateZone volume target = some location) :
    Plain location.relativePath := by
  obtain ⟨zone, -, -, -, rfl⟩ := locateZone_eq_some located
  dsimp only
  unfold relativeIn
  split
  · intro symbol member
    cases member
  · split
    · exact fun symbol member => plain symbol ((List.dropWhile_sublist _).mem member)
    · exact fun symbol member => plain symbol (List.mem_of_mem_drop member)

theorem not_below_root (names : List Text) : ¬ Below (pathText names) ['/'] := by
  intro below
  have short := below.length_le
  by_cases root : names = []
  · subst root
    simp at short
  · rw [pathText_of_ne_nil root, render_eq_cons_relativeText root] at short
    simp at short

/-- In a volume of one zone, the calls on subtrees whose names hold no special characters are
faithful. -/
theorem faithful_of_plain {db : Database} {volume : Uuid} {call : TreeCall}
    (single : ∀ zone ∈ (db.tree volume).zones, zone.path = ['/'])
    (plain : ∀ source ∈ call.subtree, Plain (pathText source.val)) : call.Faithful db volume := by
  have noZone (path : Text) : ¬ db.NestedZone volume path := by
    rintro ⟨inner, zone, inTable, inVolume, same⟩
    exact inner (same.symm.trans (single zone (mem_tree_zones.mpr ⟨inTable, inVolume⟩)))
  have outside (names : List Text) : ∀ zone ∈ (db.tree volume).zones,
      ¬ Below (pathText names) zone.path := by
    intro zone member
    rw [single zone member]
    exact not_below_root names
  have unmatched {names : List Text} (plain : Plain (pathText names)) :
      ∀ zone ∈ (db.tree volume).zones, likeBelow (pathText names) zone.path = false := by
    intro zone member
    rw [Bool.eq_false_iff, Ne, likeBelow_of_plain plain]
    exact outside names zone member
  have follow {names : List Text} (destination : Text) (plain : Plain (pathText names)) :
      MoveFaithful db volume (pathText names) destination := by
    refine ⟨likeBelow_of_plain plain destination, fun location located => ⟨fun _ zone _ => ?_,
      fun _ => ⟨⟨outside names, fun entry _ _ _ => ?_⟩, unmatched plain⟩⟩⟩
    · rw [likeBelow_of_plain plain]
      exact ⟨id, Or.inl⟩
    · exact likeBelow_of_plain (plain_relativePath plain located) entry.relativePath
  cases call with
  | mkdir path parents mode now => trivial
  | writeFile path data mode now => exact noZone _
  | importTree path entries now => trivial
  | importText path reader now => exact noZone _
  | copy source destination recursive now =>
      have clear : Plain (pathText source.val) := plain source rfl
      refine ⟨likeBelow_of_plain clear _, fun _ => ⟨fun zone member => ?_, ?_⟩⟩
      · exact ⟨unmatched clear zone member, outside source.val zone member⟩
      · exact fun location located _ =>
          Tree.entriesExact_of_plain (plain_relativePath clear located) (db.tree volume)
  | move source destination now => exact follow _ (plain source rfl)
  | moveCommand source destination now => exact follow _ (plain source rfl)
  | remove path recursive =>
      have clear : Plain (pathText path.val) := plain path rfl
      intro location located
      exact ⟨fun _ => Tree.zonesExact_of_plain clear (db.tree volume), fun _ _ =>
        Tree.entriesExact_of_plain (plain_relativePath clear located) (db.tree volume)⟩
  | setTimes path atimeSeconds atimeNanoseconds mtimeSeconds mtimeNanoseconds now => trivial

/-! ### Runs -/

/-- The database simulates the trees of files. -/
theorem simulates_fileTrees :
    Service.Simulates databaseService fileTrees FaithfulCall
      (fun db => Orderly db ∧ AllWellFormed db) Database.view where
  allows := by
    rintro db ⟨volume, call⟩ ⟨orderly, all⟩ ⟨known, faithful⟩
    exact run_allowed_iff ⟨orderly.sound, orderly.unmapped⟩ (all volume known) faithful
  effect := by
    rintro db ⟨volume, call⟩ ⟨orderly, all⟩ ⟨known, faithful⟩ ⟨after, done⟩
    have committed : Committed db := ⟨orderly.sound, orderly.unmapped⟩
    funext view
    have moved : databaseService.effect db (volume, call) = after.commit := transact_ok done
    rw [moved]
    change after.view view
      = Function.update db.view volume (call.effect (db.view volume)) view
    by_cases same : view = volume
    · subst same
      rw [Function.update_self]
      exact view_run committed (all view known) faithful done
    · rw [Function.update_of_ne same]
      exact view_run_other orderly same done
  keeps := by
    rintro db ⟨volume, call⟩ ⟨orderly, all⟩ ⟨known, faithful⟩ ⟨after, done⟩
    have moved : databaseService.effect db (volume, call) = after.commit := transact_ok done
    rw [moved]
    have kept : AllWellFormed after := all.run ⟨orderly.sound, orderly.unmapped⟩
      (keepsTree_of_faithful faithful done) done
    exact ⟨orderly.run done, kept⟩

/-- What calls do to files, over whole runs. -/
theorem calls_on_trees {db last : Database} {calls : List ((Uuid × TreeCall) × Bool)}
    (earlier : Guarded Database.empty Step (fun before op => op.KeepsTree before) db)
    (ran : databaseService.Run FaithfulCall db calls last) :
    fileTrees.Run (fun _ _ => True) db.view calls last.view ∧
      ∀ volume ∈ last.volumes.map Volume.id, (last.view volume).Closed Object.Holds := by
  have orderly : Orderly db := orderly_of_reachable (ReachableDatabase.byCalls earlier.reachable)
  obtain ⟨followed, -, all⟩ :=
    simulates_fileTrees.run ⟨orderly, allWellFormed_of_guarded earlier⟩ ran
  exact ⟨followed, fun volume known => view_closed (all volume known)⟩

theorem databaseService_allows {db : Database} {call : Uuid × TreeCall}
    (done : ((call.2.op call.1).run db).isOk = true) : databaseService.Allows db call := by
  change ∃ after, (call.2.op call.1).run db = .ok after
  cases ran : (call.2.op call.1).run db with
  | ok after => exact ⟨after, rfl⟩
  | error error =>
      rw [ran] at done
      cases done

theorem databaseService_refuses {db : Database} {call : Uuid × TreeCall}
    (failed : ((call.2.op call.1).run db).isOk = false) : ¬ databaseService.Allows db call := by
  rintro ⟨after, done⟩
  rw [done] at failed
  cases failed

/-- Calls on two volumes; three of them are refused. -/
def treeCalls : List ((Uuid × TreeCall) × Bool) :=
  let d : FilePath := ⟨[['d']], by decide⟩
  let f : FilePath := ⟨[['d'], ['f']], by decide⟩
  let c : FilePath := ⟨[['c']], by decide⟩
  let g : FilePath := ⟨[['c'], ['g']], by decide⟩
  [((7, .mkdir d false 493 2), true), ((7, .writeFile f [104, 105] 420 3), true),
    ((7, .mkdir d false 493 4), false), ((8, .writeFile f [104, 105] 420 5), false),
    ((8, .mkdir d true 493 6), true), ((7, .copy d c true 7), true), ((7, .move f g 8), true),
    ((7, .remove c false), false), ((7, .remove d false), true)]

theorem calls_on_trees_of_two_volumes :
    ∃ last : Database, fileTrees.Run (fun _ _ => True)
        (Database.empty.calls [.createVolume 7 ['v'] 0, .createVolume 8 ['w'] 1]).view treeCalls
        last.view ∧
      ∀ volume ∈ last.volumes.map Volume.id, (last.view volume).Closed Object.Holds := by
  have ran : ∃ last, databaseService.Run FaithfulCall
      (Database.empty.calls [.createVolume 7 ['v'] 0, .createVolume 8 ['w'] 1]) treeCalls last :=
    ⟨_, .carried (by decide +kernel) (databaseService_allows (by decide +kernel)) <|
      .carried (by decide +kernel) (databaseService_allows (by decide +kernel)) <|
      .refused (by decide +kernel) (databaseService_refuses (by decide +kernel)) <|
      .refused (by decide +kernel) (databaseService_refuses (by decide +kernel)) <|
      .carried (by decide +kernel) (databaseService_allows (by decide +kernel)) <|
      .carried (by decide +kernel) (databaseService_allows (by decide +kernel)) <|
      .carried ⟨by decide +kernel, faithful_of_plain (by decide +kernel) (by decide +kernel)⟩
        (databaseService_allows (by decide +kernel)) <|
      .refused ⟨by decide +kernel, faithful_of_plain (by decide +kernel) (by decide +kernel)⟩
        (databaseService_refuses (by decide +kernel)) <|
      .carried (by decide +kernel) (databaseService_allows (by decide +kernel)) <| .done _⟩
  obtain ⟨last, ran⟩ := ran
  exact ⟨last, calls_on_trees (.next (.createVolume 8 ['w'] 1) (.next (.createVolume 7 ['v'] 0)
    .start trivial rfl) trivial rfl) ran⟩

end PostgreOS
