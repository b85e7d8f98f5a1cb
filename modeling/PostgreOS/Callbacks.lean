/-
What callbacks do to the adapter before and besides their requests.

Most callbacks ask for inodes and remember the rows they are told. Whatever that keeps is
kept by every callback whose requests keep it, so it is proved once, for any statement
about the adapter.
-/

import PostgreOS.Mount
import PostgreOS.Nodes

namespace PostgreOS

open Library.Outcome Library.Sessions

theorem id_add_two_ne_root (id : NodeId) : id + 2 ≠ rootInode :=
  Nat.succ_succ_ne_one id

theorem inodeOf_of_ne_root {path : Text} {id : NodeId} (notRoot : inodeOf path id ≠ rootInode) :
    inodeOf path id = id + 2 := by
  unfold inodeOf at notRoot ⊢
  split at notRoot
  · exact absurd rfl notRoot
  · rw [if_neg ‹_›]

def Database.Shows (db : Database) (volume : Uuid) (row : Inode) : Prop :=
  ∃ node ∈ db.nodes volume, node.toInode = row

theorem firstRow_eq_ok {α : Type} {rows : List α} {row : α} (first : firstRow rows = .ok row) :
    row ∈ rows := by
  cases rows with
  | nil => cases first
  | cons head rest =>
      rw [← Except.ok.inj first]
      exact List.mem_cons_self

section Rows

variable {db : Database} {volume : Uuid} {row : Inode}

theorem shows_of_inode {id : NodeId} (keys : Keys db)
    (answer : firstRow (db.inode volume id) = .ok row) : db.Shows volume row ∧ row.id = id := by
  obtain ⟨listed, sameId⟩ := List.mem_filter.mp (firstRow_eq_ok answer)
  rw [inodes_eq_nodes keys] at listed
  obtain ⟨node, member, same⟩ := List.mem_map.mp listed
  exact ⟨⟨node, member, same⟩, of_decide_eq_true sameId⟩

theorem shows_of_stat {target : Text} {rows : List Inode} (keys : Keys db)
    (answer : db.stat volume target = .ok rows) (member : row ∈ rows) : db.Shows volume row := by
  obtain ⟨path, -, locating⟩ := bind_eq_ok.mp answer
  obtain ⟨location, found, listed⟩ := bind_eq_ok.mp locating
  obtain ⟨zone, zoneMember, -, -, rfl⟩ := locateZone_eq_some (strict_eq_ok.mp found)
  split at listed
  · rw [← Except.ok.inj listed] at member
    obtain ⟨stored, chosen, rfl⟩ := List.mem_map.mp member
    obtain ⟨inTable, sameId⟩ := List.mem_filter.mp chosen
    have same := keys.zone_eq_of_id (List.mem_map_of_mem inTable) (mem_tree_zones.mp zoneMember).1
      (of_decide_eq_true sameId)
    rw [same]
    exact ⟨nodeOfZone zone, Tree.nodeOfZone_mem zoneMember, rfl⟩
  · rw [← Except.ok.inj listed] at member
    obtain ⟨entry, chosen, rfl⟩ := List.mem_map.mp member
    obtain ⟨inTable, here⟩ := List.mem_filter.mp chosen
    obtain ⟨inVolume, inZone, -⟩ := atLocation_iff.mp here
    exact ⟨nodeOfEntry db.contentOf zone.path entry, Tree.nodeOfEntry_mem
      (mem_tree_entries.mpr ⟨inTable, inVolume⟩) zoneMember inZone.symm, rfl⟩


theorem shows_of_entryOf {db : Database} {inode : INodeNo} {row : Inode} (keys : Keys db)
    (answer : db.entryOf volume inode = .ok row) : db.Shows volume row := by
  unfold Database.entryOf at answer
  split at answer
  · obtain ⟨rows, listed, first⟩ := bind_eq_ok.mp answer
    exact shows_of_stat keys listed (firstRow_eq_ok first)
  · exact (shows_of_inode keys answer).1

end Rows

/-! ### Remembering rows -/

/-- A statement about the adapter that remembering a row of the volume keeps. -/
structure Remembers (volume : Uuid) (holds : Mount → Prop) : Prop where
  keys : ∀ mount, holds mount → Keys mount.database
  row : ∀ mount row, holds mount → mount.database.Shows volume row → holds (mount.remembering row)

def Told (volume : Uuid) (holds : Mount → Prop) (row : Inode) (mount : Mount) : Prop :=
  holds mount ∧ mount.database.Shows volume row

theorem triple_timestamp (value : SystemTime) {pre : Mount → Prop} :
    Triple pre (timestamp value) (fun _ => pre) pre := by
  unfold timestamp
  split
  · exact .fail fun _ before => before
  · exact .pure fun _ before => before

section Remembers

variable {volume : Uuid} {holds : Mount → Prop} (remembers : Remembers volume holds)

include remembers

theorem Remembers.entry (inode : INodeNo) :
    Triple holds (entry volume inode) (Told volume holds) holds := by
  intro mount before
  rw [entry_eq]
  cases answer : mount.database.entryOf volume inode with
  | error failure =>
      constructor
      · intro row after impossible
        cases (Prod.mk.inj impossible).1
      · intro reason after same
        rw [← (Prod.mk.inj same).2]
        exact before
  | ok shown =>
      have shows := shows_of_entryOf (remembers.keys mount before) answer
      constructor
      · intro row after same
        obtain ⟨⟨⟩, rfl⟩ := Prod.mk.inj same
        exact ⟨remembers.row mount shown before shows, shows⟩
      · intro reason after impossible
        cases (Prod.mk.inj impossible).1

theorem Remembers.asks_entry (inode : INodeNo) :
    Triple holds (PostgreOS.entry volume inode) (fun _ => holds) holds :=
  (remembers.entry inode).weaken (fun _ before => before) (fun _ _ told => told.1)
    fun _ before => before

theorem Remembers.remember (row : Inode) :
    Triple (Told volume holds row) (remember row) (fun _ => holds) holds :=
  .modify fun mount both => remembers.row mount row both.1 both.2

theorem Remembers.inodePath (inode : INodeNo) :
    Triple holds (inodePath volume inode) (fun _ => holds) holds := by
  refine (Triple.asked _).bind fun cached => ?_
  cases cached with
  | some path => exact .pure fun _ before => before
  | none => exact (remembers.asks_entry inode).bind fun row => .pure fun _ before => before

theorem Remembers.openPath (handle : FileHandle) (inode : INodeNo) :
    Triple holds (openPath volume handle inode) (fun _ => holds) holds := by
  refine (Triple.asked _).bind fun opened => ?_
  cases opened with
  | some path => exact .pure fun _ before => before
  | none => exact remembers.inodePath inode

theorem Remembers.childPath (parent : INodeNo) (name : Text) :
    Triple holds (childPath volume parent name) (fun _ => holds) holds := by
  unfold PostgreOS.childPath
  split
  · exact .fail fun _ before => before
  · exact (remembers.inodePath parent).bind fun path => .pure fun _ before => before

theorem Remembers.stat (path : Text) :
    Triple holds (Client.stat volume path) (Told volume holds) holds := by
  refine .ask ?_ fun _ before => before
  intro mount row before answer
  obtain ⟨rows, listed, first⟩ := bind_eq_ok.mp answer
  exact ⟨before, shows_of_stat (remembers.keys mount before) listed (firstRow_eq_ok first)⟩

theorem Remembers.lookup (parent : INodeNo) (name : Text) :
    Triple holds (lookup volume parent name) (fun _ => holds) holds := by
  refine ((remembers.childPath parent name).bind fun path => ?_).reporting
  refine (remembers.stat path).bind fun row => ?_
  exact (remembers.remember row).bind fun _ => .pure fun _ before => before

theorem Remembers.getattr (inode : INodeNo) :
    Triple holds (getattr volume inode) (fun _ => holds) holds :=
  (remembers.asks_entry inode).reporting

theorem Remembers.readdir (inode : INodeNo) (offset capacity : Nat) :
    Triple holds (readdir volume inode offset capacity) (fun _ => holds) holds := by
  refine Triple.reporting ?_
  refine (remembers.asks_entry inode).bind fun directory => ?_
  refine (Triple.asked _).bind fun parent => ?_
  exact (Triple.asked _).bind fun _ => .pure fun _ before => before

theorem Remembers.read (inode : INodeNo) (handle : FileHandle) (offset size : Nat) :
    Triple holds (read volume inode handle offset size) (fun _ => holds) holds :=
  ((remembers.openPath handle inode).bind fun _ => .asked _).reporting

theorem Remembers.mkdir (parent : INodeNo) (name : Text) (now : Timestamp)
    (made : ∀ path, Triple holds (Client.mkdirEntry volume path false now) (Told volume holds) holds) :
    Triple holds (mkdir volume parent name now) (fun _ => holds) holds := by
  refine ((remembers.childPath parent name).bind fun path => ?_).reporting
  refine (made path).bind fun row => ?_
  exact (remembers.remember row).bind fun _ => .pure fun _ before => before

theorem Remembers.removeChild (parent : INodeNo) (name : Text)
    (removed : ∀ path, Triple holds (Client.remove volume path false) (fun _ => holds) holds) :
    Triple holds (removeChild volume parent name) (fun _ => holds) holds := by
  refine ((remembers.childPath parent name).bind fun path => ?_).reporting
  exact (removed path).bind fun _ => .pure fun _ before => before

theorem Remembers.setattr (inode : INodeNo) (unsupported : Bool) (atime mtime : Option TimeOrNow)
    (clock : SystemTime) (now : Timestamp)
    (changes : ∀ path access modification,
      Triple holds (Client.setTimes volume path access modification now) (Told volume holds) holds) :
    Triple holds (setattr volume inode unsupported atime mtime clock now) (fun _ => holds) holds := by
  unfold PostgreOS.setattr
  split
  · exact .fail fun _ before => before
  · refine Triple.reporting ?_
    refine (remembers.asks_entry inode).bind fun row => ?_
    refine (triple_timestamp _).bind fun access => ?_
    refine (triple_timestamp _).bind fun modification => ?_
    refine (changes row.path access modification).bind fun changed => ?_
    exact (remembers.remember changed).bind fun _ => .pure fun _ before => before

end Remembers

/-! ### Requests that answer with a row -/

def AllShown (volume : Uuid) (rows : List Inode) (db : Database) : Prop :=
  ∀ row ∈ rows, db.Shows volume row

section Requests

variable {volume : Uuid} {holds : Mount → Prop}

/-- A request that changes the database; `answers` is what is known of its answer. -/
theorem triple_commit {α : Type} {change : Database → Result (Database × α)}
    {answers : α → Database → Prop}
    (kept : ∀ mount after value, holds mount → change mount.database = .ok (after, value) →
      holds { mount with database := after.commit } ∧ answers value after.commit) :
    Triple holds (Client.commit change)
      (fun value mount => holds mount ∧ answers value mount.database) holds := by
  apply Triple.perform
  · intro mount value last before done
    obtain ⟨⟨after, answer⟩, changed, same⟩ := bind_eq_ok.mp done
    obtain ⟨rfl, rfl⟩ := Prod.mk.inj (Except.ok.inj same)
    exact kept mount _ _ before changed
  · exact fun _ before => before

theorem triple_change {α : Type} {change : Database → Result (Database × α)}
    (kept : ∀ mount after value, holds mount → change mount.database = .ok (after, value) →
      holds { mount with database := after.commit }) :
    Triple holds (Client.commit change) (fun _ => holds) holds :=
  .perform (fun mount value last before done => by
    obtain ⟨⟨after, answer⟩, changed, same⟩ := bind_eq_ok.mp done
    obtain ⟨rfl, rfl⟩ := Prod.mk.inj (Except.ok.inj same)
    exact kept mount _ _ before changed) fun _ before => before

theorem triple_firstRow {program : Callback (List Inode)}
    (answers : Triple holds program
      (fun rows mount => holds mount ∧ AllShown volume rows mount.database) holds) :
    Triple holds (program >>= fun rows => ask fun _ => firstRow rows) (Told volume holds) holds := by
  refine answers.bind fun rows => ?_
  refine .ask ?_ fun _ both => both.1
  intro mount row both first
  exact ⟨both.1, both.2 row (firstRow_eq_ok first)⟩

theorem setTimes_rows {db after : Database} {targetPath : Text}
    {atimeSeconds atimeNanoseconds mtimeSeconds mtimeNanoseconds : Int} {now : Timestamp}
    {rows : List Inode}
    (done : db.setTimes volume targetPath atimeSeconds atimeNanoseconds mtimeSeconds
      mtimeNanoseconds now = .ok (after, rows)) : ∃ path, after.stat volume path = .ok rows := by
  unfold Database.setTimes at done
  obtain ⟨access, -, modifying⟩ := bind_eq_ok.mp done
  obtain ⟨modification, -, checking⟩ := bind_eq_ok.mp modifying
  split at checking
  · cases checking
  · obtain ⟨cleanPath, -, checked⟩ := bind_eq_ok.mp checking
    obtain ⟨location, -, changed⟩ := bind_eq_ok.mp checked
    refine ⟨cleanPath, ?_⟩
    split at changed
    all_goals
      obtain ⟨updated, -, shown⟩ := bind_eq_ok.mp changed
      obtain ⟨found, statOk, same⟩ := bind_eq_ok.mp shown
      obtain ⟨rfl, rfl⟩ := Prod.mk.inj (Except.ok.inj same)
      exact statOk

end Requests

/-- A path that the adapter has for an inode number or would be told. -/
def Mount.HasPath (mount : Mount) (volume : Uuid) (inode : INodeNo) (path : Text) : Prop :=
  mount.inodePaths inode = some path ∨
    ∃ row, mount.database.entryOf volume inode = .ok row ∧ row.path = path

/-- The path that the adapter uses for an inode number: it asks if it has kept none. -/
def Mount.UsesPath (mount : Mount) (volume : Uuid) (inode : INodeNo) (path : Text) : Prop :=
  mount.inodePaths inode = some path ∨ mount.inodePaths inode = none ∧
    ∃ row, mount.database.entryOf volume inode = .ok row ∧ row.path = path

theorem Mount.UsesPath.hasPath {mount : Mount} {volume : Uuid} {inode : INodeNo} {path : Text}
    (uses : mount.UsesPath volume inode path) : mount.HasPath volume inode path :=
  uses.imp id And.right

/-- The adapter after it has asked for an inode number that it may have kept. -/
inductive Asked (volume : Uuid) (before : Mount) (inode : INodeNo) : Mount → Prop
  | kept : Asked volume before inode before
  | told (row : Inode) (unkept : before.inodePaths inode = none)
      (answer : before.database.entryOf volume inode = .ok row) :
      Asked volume before inode (before.remembering row)

section Asked

variable {volume : Uuid} {mount asked : Mount} {inode : INodeNo}

theorem Asked.database (follows : Asked volume mount inode asked) :
    asked.database = mount.database := by
  cases follows with
  | kept => rfl
  | told row unkept answer => rfl

theorem id_of_entryOf {db : Database} {row : Inode} (keys : Keys db) (notRoot : inode ≠ rootInode)
    (answer : db.entryOf volume inode = .ok row) : row.id = inode - 2 := by
  unfold Database.entryOf at answer
  rw [if_neg notRoot] at answer
  exact (shows_of_inode keys answer).2

/-- A path that is there after asking was there before, or has been told. -/
theorem Asked.hasPath (follows : Asked volume mount inode asked) (keys : Keys mount.database)
    (root : mount.inodePaths rootInode = some ['/']) {other : INodeNo} {path : Text} (has : asked.HasPath volume other path) :
    mount.HasPath volume other path := by
  cases follows with
  | kept => exact has
  | told row unknown answer =>
      rcases has with known | told
      · by_cases same : other = inodeOf row.path row.id
        · subst same
          unfold Mount.remembering at known
          dsimp only at known
          rw [Function.update_self] at known
          have notRoot : inode ≠ rootInode := by
            rintro rfl
            rw [root] at unknown
            cases unknown
          have sameId := id_of_entryOf keys notRoot answer
          unfold inodeOf
          split
          · rename_i isRoot
            left
            rw [root, ← known, isRoot]
          · right
            refine ⟨row, ?_, Option.some.inj known⟩
            unfold Database.entryOf at answer ⊢
            rw [if_neg (id_add_two_ne_root row.id), Nat.add_sub_cancel, sameId]
            rw [if_neg notRoot] at answer
            exact answer
        · unfold Mount.remembering at known
          dsimp only at known
          rw [Function.update_of_ne same] at known
          exact Or.inl known
      · exact Or.inr told

theorem entry_asks (mount : Mount) (inode : INodeNo) (unknown : mount.inodePaths inode = none) :
    Triple (· = mount) (entry volume inode)
      (fun row asked => Asked volume mount inode asked ∧ mount.UsesPath volume inode row.path)
      (Asked volume mount inode) := by
  rintro state rfl
  rw [entry_eq]
  cases answer : state.database.entryOf volume inode with
  | error failure =>
      constructor
      · intro row after impossible
        cases (Prod.mk.inj impossible).1
      · intro reason after same
        rw [← (Prod.mk.inj same).2]
        exact .kept
  | ok told =>
      constructor
      · intro row after same
        obtain ⟨⟨⟩, rfl⟩ := Prod.mk.inj same
        exact ⟨.told told unknown answer, Or.inr ⟨unknown, told, answer, rfl⟩⟩
      · intro reason after impossible
        cases (Prod.mk.inj impossible).1

theorem inodePath_asks (mount : Mount) (inode : INodeNo) :
    Triple (· = mount) (inodePath volume inode)
      (fun path asked => Asked volume mount inode asked ∧ mount.UsesPath volume inode path)
      (Asked volume mount inode) := by
  have asking : Triple (· = mount) (ask fun mount => .ok (mount.inodePaths inode) :
      Callback (Option Text)) (fun cached asked => asked = mount ∧ cached = mount.inodePaths inode)
      (Asked volume mount inode) := by
    refine .ask ?_ ?_
    · rintro state cached rfl answer
      exact ⟨rfl, (Except.ok.inj answer).symm⟩
    · rintro state rfl
      exact .kept
  refine asking.bind fun cached => ?_
  cases cached with
  | some path =>
      refine .pure ?_
      rintro state ⟨rfl, known⟩
      exact ⟨.kept, Or.inl known.symm⟩
  | none =>
      refine .of_states ?_
      rintro state ⟨rfl, unknown⟩
      exact (entry_asks state inode unknown.symm).bind fun row => .pure fun _ both => both

theorem childPath_asks (mount : Mount) (parent : INodeNo) (name : Text) :
    Triple (· = mount) (childPath volume parent name)
      (fun path asked => Asked volume mount parent asked ∧
        ∃ front, mount.UsesPath volume parent front ∧ path = joinName front name ∧
          name ≠ [] ∧ '/' ∉ name)
      (Asked volume mount parent) := by
  unfold childPath
  split
  · refine .fail ?_
    rintro state rfl
    exact .kept
  · rename_i accepted
    rw [not_or, not_or, not_or] at accepted
    refine (inodePath_asks mount parent).bind fun front => .pure ?_
    rintro state ⟨follows, uses⟩
    exact ⟨follows, front, uses, rfl, accepted.1, accepted.2.2.2⟩

end Asked

end PostgreOS
