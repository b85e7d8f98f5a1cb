/-
Concurrent writes through the adapter.

A write callback asks the daemon three times: for the path of the inode, for the whole
file, and to store the whole file with the bytes put in. Other callbacks may ask in
between, so two writes of one file keep each other's bytes only if one of them stores
before the other loads, or has nothing to add.
-/

import PostgreOS.Library.Interleaving
import PostgreOS.Mount

namespace PostgreOS

open Library.Interleaving Library.Outcome Library.Sessions

def Database.FileAt (db : Database) (volume : Uuid) (path : Text) (id : NodeId) (bytes : Bytes) :
    Prop :=
  ∃ node ∈ db.nodes volume, node.path = path ∧ node.id = id ∧ node.kind = .file ∧
    node.content = some bytes

section Files

variable {db after : Database} {volume : Uuid} {path : Text} {id other : NodeId}
  {bytes data : Bytes} {mode : Int} {now : Timestamp}

theorem entryAt_of_fileAt (wellFormed : (db.tree volume).WellFormed)
    (file : db.FileAt volume path id bytes) :
    ∃ zone entry front rest, (db.tree volume).EntryAt zone entry front rest ∧
      path = pathText (front ++ rest) ∧ entry.id = id ∧ entry.kind = .file ∧
      db.contentOf entry = some bytes := by
  obtain ⟨node, member, samePath, sameId, kind, content⟩ := file
  obtain ⟨zone, zoneMember, rfl⟩ | ⟨entry, entryMember, zone, zoneMember, inZone, rfl⟩ :=
    Tree.mem_nodes.mp member
  · cases kind
  · obtain ⟨front, zoneAt⟩ := wellFormed.zoneAt_of_mem zoneMember
    obtain ⟨rest, valid, nonempty, relative⟩ :=
      (canonicalRelative_iff _).mp (wellFormed.entry_canonical entry entryMember)
    have found : (db.tree volume).EntryAt zone entry front rest :=
      ⟨zoneAt, entryMember, inZone.symm, valid, nonempty, relative⟩
    exact ⟨zone, entry, front, rest, found, samePath.symm.trans found.absolutePath_eq, sameId, kind,
      content⟩

theorem fileAt_of_entryAt {zone : ZoneNode} {entry : ZoneEntry} {front rest : List Text}
    (found : (db.tree volume).EntryAt zone entry front rest) (kind : entry.kind = .file)
    (content : db.contentOf entry = some bytes) :
    db.FileAt volume (pathText (front ++ rest)) entry.id bytes :=
  ⟨nodeOfEntry db.contentOf zone.path entry,
    Tree.nodeOfEntry_mem found.member found.zoneAt.member found.inZone.symm,
    found.absolutePath_eq, rfl, kind, content⟩

theorem Database.FileAt.unique (keys : Keys db) (file : db.FileAt volume path id bytes)
    (other : db.FileAt volume path id data) : bytes = data := by
  obtain ⟨node, member, -, sameId, -, content⟩ := file
  obtain ⟨found, foundMember, -, foundId, -, foundContent⟩ := other
  have equal := (keys.identified volume).node_eq member foundMember (sameId.trans foundId.symm)
  rw [← equal, content] at foundContent
  exact Option.some.inj foundContent

theorem inode_of_fileAt (keys : Keys db) (file : db.FileAt volume path id bytes) :
    ∃ row, firstRow (db.inode volume id) = .ok row ∧ row.path = path := by
  obtain ⟨node, member, samePath, sameId, -, -⟩ := file
  refine ⟨node.toInode, ?_, samePath⟩
  rw [← sameId, inode_of_node keys member]
  rfl

theorem readFile_of_fileAt (state : WellFormedVolume db volume)
    (file : db.FileAt volume path id bytes) (done : db.readFile volume path = .ok data) :
    data = bytes := by
  obtain ⟨zone, entry, front, rest, found, rfl, -, -, content⟩ := entryAt_of_fileAt state.tree file
  rw [readFile_of_entryAt state.committed.sound state.tree found content] at done
  split at done
  · cases done
  · exact (Except.ok.inj done).symm

theorem no_zone_of_fileAt (wellFormed : (db.tree volume).WellFormed)
    (file : db.FileAt volume path id bytes) :
    ∀ zone ∈ (db.tree volume).zones, zone.path ≠ path := by
  obtain ⟨owner, entry, front, rest, found, rfl, -⟩ := entryAt_of_fileAt wellFormed file
  intro zone member same
  exact wellFormed.not_zoneAt_of_entryAt found ⟨member, found.components, same⟩ rfl

theorem fileAt_of_writeFile (state : WellFormedVolume db volume)
    (noZone : ∀ zone ∈ (db.tree volume).zones, zone.path ≠ path)
    (done : db.writeFile volume path data mode now = .ok (after, id)) :
    WellFormedVolume after.commit volume ∧ after.commit.FileAt volume path id data := by
  have wellFormed := state.tree
  obtain ⟨written, -, -, writeOk, -⟩ := writeFile_ok done
  obtain ⟨canonical, parent, location, located, -⟩ := writeFileInline_ok writeOk
  obtain ⟨zone, upper, inner, name, place⟩ := place_of_parent wellFormed canonical parent located
  obtain ⟨row, rowAt, rowId, rowKind, -, content, -⟩ :=
    writeFile_target state.committed wellFormed place located done
  have kept := writeFile_kept (.refl state.committed.sound) state.committed.unmapped done
  have afterTree := writeFile_wellFormed state.committed wellFormed (fun _ => noZone) done
  refine ⟨⟨⟨kept.commit.sound, rfl⟩, afterTree⟩, ?_⟩
  have stored := fileAt_of_entryAt rowAt rowKind content
  rw [rowId, ← place.path_eq] at stored
  exact stored

theorem id_of_writeFile (state : WellFormedVolume db volume)
    (file : db.FileAt volume path id bytes)
    (done : db.writeFile volume path data mode now = .ok (after, other)) : other = id := by
  have wellFormed := state.tree
  obtain ⟨written, -, -, writeOk, -⟩ := writeFile_ok done
  obtain ⟨canonical, parent, location, located, replaced⟩ := writeFileInline_ok writeOk
  obtain ⟨zone, upper, inner, name, place⟩ := place_of_parent wellFormed canonical parent located
  -- The entry of the file is the entry of the place.
  obtain ⟨owner, entry, front, rest, found, path_eq, sameId, -, -⟩ :=
    entryAt_of_fileAt wellFormed file
  have names : front ++ rest = upper ++ (inner ++ [name]) :=
    pathText_injective found.components place.components (path_eq.symm.trans place.path_eq)
  obtain ⟨rfl, rfl, rfl⟩ := place.entryAt wellFormed found names
  have present := (entryAt_child_iff wellFormed place).mpr found
  obtain ⟨absent, -, -⟩ | ⟨existing, existingFound, -, same, -⟩ := replaced
  · rw [absent] at present
    cases present
  · rw [same, ← sameId, Option.some.inj (existingFound.symm.trans present)]

theorem writeFile_of_fileAt (state : WellFormedVolume db volume)
    (file : db.FileAt volume path id bytes)
    (done : db.writeFile volume path data mode now = .ok (after, other)) :
    WellFormedVolume after.commit volume ∧ after.commit.FileAt volume path id data := by
  have stored := fileAt_of_writeFile state (no_zone_of_fileAt state.tree file) done
  rwa [id_of_writeFile state file done] at stored

end Files

/-! ### The bytes of two writes -/

section Splice

variable {data input : Bytes} {start index : Nat}

theorem splice_length : (splice data start input).length = max data.length (start + input.length) := by
  unfold splice
  simp only [List.length_append, List.length_take, List.length_drop, List.length_replicate]
  omega

theorem splice_inside (inside : index < input.length) :
    (splice data start input)[start + index]? = input[index]? := by
  unfold splice
  have front : ((data ++ List.replicate (start + input.length - data.length) 0).take start).length =
      start := by
    rw [List.length_take, List.length_append, List.length_replicate]
    omega
  rw [List.append_assoc, List.getElem?_append_right (by omega), front, Nat.add_sub_cancel_left,
    List.getElem?_append_left inside]

theorem splice_outside (within : index < data.length)
    (outside : ¬ (start ≤ index ∧ index < start + input.length)) :
    (splice data start input)[index]? = data[index]? := by
  unfold splice
  have front : ((data ++ List.replicate (start + input.length - data.length) 0).take start).length =
      start := by
    rw [List.length_take, List.length_append, List.length_replicate]
    omega
  by_cases before : index < start
  · rw [List.append_assoc, List.getElem?_append_left (by omega), List.getElem?_take_of_lt before,
      List.getElem?_append_left within]
  · have after : start + input.length ≤ index := by omega
    rw [List.append_assoc, List.getElem?_append_right (by omega), front,
      List.getElem?_append_right (by omega), List.getElem?_drop]
    have position : start + input.length + (index - start - input.length) = index := by omega
    rw [position, List.getElem?_append_left within]

theorem splice_padding (beyond : data.length ≤ index) (before : index < start) :
    (splice data start input)[index]? = some 0 := by
  unfold splice
  have padded : (data ++ List.replicate (start + input.length - data.length) (0 : UInt8)).length =
      max data.length (start + input.length) := by
    rw [List.length_append, List.length_replicate]
    omega
  rw [List.append_assoc, List.getElem?_append_left (by rw [List.length_take, padded]; omega),
    List.getElem?_take_of_lt before, List.getElem?_append_right beyond,
    List.getElem?_replicate_of_lt (by omega)]

end Splice

/-- The offset and the bytes of a write callback. -/
structure WriteCall where
  offset : Nat
  input : Input

namespace WriteCall

def Covers (call : WriteCall) (index : Nat) : Prop :=
  call.offset ≤ index ∧ index < call.offset + call.input.val.length

def Holds (call : WriteCall) (bytes : Bytes) : Prop :=
  ∀ index < call.input.val.length, bytes[call.offset + index]? = call.input.val[index]?

instance (call : WriteCall) (bytes : Bytes) : Decidable (call.Holds bytes) :=
  inferInstanceAs (Decidable (∀ index < _, _))

def apply (call : WriteCall) (data : Bytes) : Bytes :=
  splice data call.offset call.input.val

theorem holds_apply (call : WriteCall) (data : Bytes) : call.Holds (call.apply data) :=
  fun _ inside => splice_inside inside

end WriteCall

/-- Both calls have written their bytes and the others are as before. -/
structure BothWritten (calls : Bool → WriteCall) (before after : Bytes) : Prop where
  written : ∀ client, (calls client).Holds after
  others : ∀ index < before.length, (∀ client, ¬ (calls client).Covers index) →
    after[index]? = before[index]?

section Calls

variable {calls : Bool → WriteCall} {before : Bytes}

theorem bothWritten_of_serial
    (disjoint : ∀ client index, (calls client).Covers index → ¬ (calls (!client)).Covers index)
    (client : Bool) :
    BothWritten calls before ((calls (!client)).apply ((calls client).apply before)) := by
  have length : before.length ≤ ((calls client).apply before).length := by
    rw [WriteCall.apply, splice_length]
    exact Nat.le_max_left _ _
  constructor
  · intro writer
    rcases client_cases writer client with rfl | rfl
    · intro index inside
      have outside := disjoint writer ((calls writer).offset + index) ⟨by omega, by omega⟩
      have within : (calls writer).offset + index < ((calls writer).apply before).length := by
        rw [WriteCall.apply, splice_length]
        omega
      exact (splice_outside within outside).trans (splice_inside inside)
    · exact (calls (!client)).holds_apply _
  · intro index within outside
    exact (splice_outside (Nat.lt_of_lt_of_le within length) (outside (!client))).trans
      (splice_outside within (outside client))

theorem bothWritten_iff_of_lost (client : Bool) :
    BothWritten calls before ((calls (!client)).apply before) ↔
      (calls client).Holds ((calls (!client)).apply before) := by
  constructor
  · exact fun both => both.written client
  · intro holds
    constructor
    · intro writer
      rcases client_cases writer client with rfl | rfl
      · exact holds
      · exact (calls (!client)).holds_apply before
    · intro index within outside
      exact splice_outside within (outside (!client))

end Calls

/-- A write callback between its requests. -/
inductive Progress where
  | called
  | located (path : Text)
  | loaded (path : Text) (data : Bytes)
  | replied (written : Bool)
  deriving DecidableEq

/-- The next request of a write callback. -/
def WriteCall.step (call : WriteCall) (volume : Uuid) (inode : INodeNo) (now : Timestamp)
    (state : Database × Progress) : Database × Progress :=
  let db := state.1
  match state.2 with
  | .called =>
      match db.entryOf volume inode with
      | .ok entry => (db, .located entry.path)
      | .error _ => (db, .replied false)
  | .located path =>
      match db.readFile volume path with
      | .ok data => (db, .loaded path data)
      | .error _ => (db, .replied false)
  | .loaded path data =>
      if 2 ^ 64 ≤ call.offset + call.input.val.length then (db, .replied false)
      else
        match db.writeFile volume path (call.apply data) 420 now with
        | .ok (after, _) => (after.commit, .replied true)
        | .error _ => (db, .replied false)
  | .replied written => (db, .replied written)

/-- Two callbacks on one volume. -/
structure Writers where
  database : Database
  progress : Bool → Progress

/-- The callback of the event makes its next request. -/
def Writers.advance (volume : Uuid) (inode : INodeNo) (calls : Bool → WriteCall)
    (writers : Writers) (event : Bool × Timestamp) : Writers :=
  let moved :=
    (calls event.1).step volume inode event.2 (writers.database, writers.progress event.1)
  { database := moved.1, progress := Function.update writers.progress event.1 moved.2 }

/-- Two callbacks whose requests reach the daemon in the order of the schedule. -/
def Writers.run (volume : Uuid) (inode : INodeNo) (calls : Bool → WriteCall) (db : Database)
    (schedule : List (Bool × Timestamp)) : Writers :=
  schedule.foldl (Writers.advance volume inode calls)
    { database := db, progress := fun _ => .called }

/-- The adapter's callback is the three requests in a row. -/
theorem write_eq_steps (volume : Uuid) (inode : INodeNo) (call : WriteCall) (now : Timestamp)
    (mount : Mount) :
    let ends := (call.step volume inode now)^[3] (mount.database, .called)
    (write volume inode call.offset call.input now mount).2.database = ends.1 ∧
      ((∃ count, (write volume inode call.offset call.input now mount).1 = .ok count) ↔
        ends.2 = .replied true) := by
  have located := entry_eq volume inode mount
  dsimp only
  rw [Function.iterate_succ_apply, Function.iterate_succ_apply, Function.iterate_succ_apply,
    Function.iterate_zero, id]
  unfold write
  cases answer : mount.database.entryOf volume inode with
  | error failure =>
      rw [answer] at located
      rw [reporting_of_error (bind_of_error located)]
      have first : call.step volume inode now (mount.database, .called) =
          (mount.database, .replied false) := by
        simp only [WriteCall.step, answer]
      rw [first]
      simp [WriteCall.step]
  | ok row =>
      rw [answer] at located
      have first : call.step volume inode now (mount.database, .called) =
          (mount.database, .located row.path) := by
        simp only [WriteCall.step, answer]
      rw [first]
      cases loaded : mount.database.readFile volume row.path with
      | error failure =>
          have asked : Client.read volume row.path (mount.remembering row) =
              (.error failure, mount.remembering row) := Prod.ext loaded rfl
          rw [reporting_of_error ((bind_of_ok located).trans (bind_of_error asked))]
          have second : call.step volume inode now (mount.database, .located row.path) =
              (mount.database, .replied false) := by
            simp only [WriteCall.step, loaded]
          rw [second]
          simp [WriteCall.step, Mount.remembering]
      | ok data =>
          have asked : Client.read volume row.path (mount.remembering row) =
              (.ok data, mount.remembering row) := Prod.ext loaded rfl
          have second : call.step volume inode now (mount.database, .located row.path) =
              (mount.database, .loaded row.path data) := by
            simp only [WriteCall.step, loaded]
          rw [second]
          rw [reporting_congr ((bind_of_ok located).trans (bind_of_ok asked))]
          by_cases large : 2 ^ 64 ≤ call.offset + call.input.val.length
          · have third : call.step volume inode now (mount.database, .loaded row.path data) =
                (mount.database, .replied false) := by
              simp only [WriteCall.step, if_pos large]
            rw [third, if_pos large, reporting_of_error fail_eq]
            simp [Mount.remembering]
          · rw [if_neg large]
            cases stored : mount.database.writeFile volume row.path (call.apply data) 420 now with
            | error failure =>
                have third : call.step volume inode now (mount.database, .loaded row.path data) =
                    (mount.database, .replied false) := by
                  simp only [WriteCall.step, if_neg large, stored]
                have failed : Client.write volume row.path (splice data call.offset call.input.val)
                    now (mount.remembering row) = (.error failure, mount.remembering row) :=
                  commit_of_error stored
                rw [third, reporting_of_error (bind_of_error failed)]
                simp [Mount.remembering]
            | ok result =>
                have third : call.step volume inode now (mount.database, .loaded row.path data) =
                    (result.1.commit, .replied true) := by
                  simp only [WriteCall.step, if_neg large, stored]
                have done : Client.write volume row.path (splice data call.offset call.input.val)
                    now (mount.remembering row) =
                      (.ok result.2, { mount.remembering row with database := result.1.commit }) :=
                  commit_of_ok stored
                have ends : (do
                    let _ ← Client.write volume row.path (splice data call.offset call.input.val) now
                    pure call.input.val.length) (mount.remembering row) =
                      (.ok call.input.val.length,
                        { mount.remembering row with database := result.1.commit }) :=
                  (bind_of_ok done).trans pure_eq
                rw [third, reporting_of_ok ends]
                simp

section InTurn

variable {volume : Uuid} {inode : INodeNo} {calls : Bool → WriteCall} {mount other : Mount}

theorem foldl_advance (client : Bool) (now : Timestamp) (count : Nat) (writers : Writers) :
    (List.replicate count (client, now)).foldl (Writers.advance volume inode calls) writers =
      let ends := ((calls client).step volume inode now)^[count]
        (writers.database, writers.progress client)
      { database := ends.1, progress := Function.update writers.progress client ends.2 } := by
  induction count generalizing writers with
  | zero => simp
  | succ count ih =>
      rw [List.replicate_succ, List.foldl_cons, ih, Function.iterate_succ_apply]
      simp [Writers.advance]

theorem advance_write {writers : Writers} {client : Bool}
    (fresh : writers.progress client = .called) (same : mount.database = writers.database)
    (now : Timestamp) :
    ((List.replicate 3 (client, now)).foldl (Writers.advance volume inode calls) writers).database =
        (write volume inode (calls client).offset (calls client).input now mount).2.database ∧
      ((List.replicate 3 (client, now)).foldl (Writers.advance volume inode calls)
        writers).progress (!client) = writers.progress (!client) := by
  rw [foldl_advance, fresh, ← same]
  constructor
  · exact (write_eq_steps volume inode (calls client) now mount).1.symm
  · exact Function.update_of_ne (Bool.not_ne_self client) _ _

theorem run_in_turn (client : Bool) (now later : Timestamp)
    (follows : other.database =
      (write volume inode (calls client).offset (calls client).input now mount).2.database) :
    (Writers.run volume inode calls mount.database
        (List.replicate 3 (client, now) ++ List.replicate 3 (!client, later))).database =
      (write volume inode (calls (!client)).offset (calls (!client)).input later
        other).2.database := by
  obtain ⟨database, waiting⟩ := @advance_write volume inode calls mount
    { database := mount.database, progress := fun _ => .called } client rfl rfl now
  unfold Writers.run
  rw [List.foldl_append]
  exact (advance_write waiting (follows.trans database.symm) later).1

end InTurn

/-! ### The schedule as one of two clients of a value -/

/-- Where a callback is, against the client of the bytes that it acts as. -/
inductive Matches (path : Text) : Progress → Phase Bytes → Prop where
  | called : Matches path .called .idle
  | located : Matches path (.located path) .ready
  | loaded (data : Bytes) : Matches path (.loaded path data) (.holding data)
  | replied : Matches path (.replied true) .finished

theorem Matches.finished {path : Text} {phase : Phase Bytes}
    (ended : Matches path (.replied true) phase) : phase = .finished := by
  cases ended
  rfl

/-- The file has the shared bytes and both callbacks are as far as the clients. -/
structure Simulates (volume : Uuid) (path : Text) (id : NodeId) (writers : Writers)
    (shared : Shared Bytes) : Prop where
  state : WellFormedVolume writers.database volume
  file : writers.database.FileAt volume path id shared.value
  progress : ∀ client, Matches path (writers.progress client) (shared.phase client)

section Simulation

variable {volume : Uuid} {path : Text} {id : NodeId} {calls : Bool → WriteCall} {writers : Writers}
  {shared : Shared Bytes} {event : Bool × Timestamp}

theorem entryOf_of_fileAt {db : Database} {bytes : Bytes} (keys : Keys db)
    (file : db.FileAt volume path id bytes) :
    ∃ row, db.entryOf volume (id + 2) = .ok row ∧ row.path = path := by
  obtain ⟨row, first, samePath⟩ := inode_of_fileAt keys file
  refine ⟨row, ?_, samePath⟩
  have notRoot : id + 2 ≠ rootInode := Nat.succ_succ_ne_one id
  unfold Database.entryOf
  rw [if_neg notRoot, Nat.add_sub_cancel]
  exact first

theorem Writers.advance_refused {client : Bool} (refused : writers.progress client = .replied false) :
    (writers.advance volume (id + 2) calls event).progress client = .replied false := by
  unfold Writers.advance
  dsimp only
  by_cases same : client = event.1
  · subst same
    simp only [Function.update_self, WriteCall.step, refused]
  · rw [Function.update_of_ne same]
    exact refused

theorem matches_update {mover : Bool} {progress : Progress} {phase : Phase Bytes}
    (others : ∀ client, Matches path (writers.progress client) (shared.phase client))
    (moved : Matches path progress phase) (client : Bool) :
    Matches path (Function.update writers.progress mover progress client)
      (Function.update shared.phase mover phase client) := by
  by_cases same : client = mover
  · subst same
    rw [Function.update_self, Function.update_self]
    exact moved
  · rw [Function.update_of_ne same, Function.update_of_ne same]
    exact others client

/-- One request that is not refused. -/
theorem Simulates.advance (simulates : Simulates volume path id writers shared)
    (accepted : (writers.advance volume (id + 2) calls event).progress event.1 ≠ .replied false) :
    Simulates volume path id (writers.advance volume (id + 2) calls event)
      (advance (fun client => (calls client).apply) shared event.1) := by
  obtain ⟨state, file, progress⟩ := simulates
  obtain ⟨mover, now⟩ := event
  have here := progress mover
  unfold Writers.advance at accepted ⊢
  unfold Library.Interleaving.advance
  dsimp only at accepted ⊢
  rw [Function.update_self] at accepted
  generalize progressAt : writers.progress mover = phase at here accepted ⊢
  generalize phaseAt : shared.phase mover = abstract at here ⊢
  cases here with
  | called =>
      obtain ⟨row, answer, samePath⟩ := entryOf_of_fileAt state.committed.sound.keys file
      simp only [WriteCall.step, answer, samePath]
      exact ⟨state, file, matches_update progress .located⟩
  | located =>
      cases loaded : writers.database.readFile volume path with
      | error failure =>
          simp only [WriteCall.step, loaded] at accepted
          exact absurd rfl accepted
      | ok data =>
          have same := readFile_of_fileAt state file loaded
          simp only [WriteCall.step, loaded, same]
          exact ⟨state, file, matches_update progress (.loaded _)⟩
  | loaded data =>
      by_cases large : 2 ^ 64 ≤ (calls mover).offset + (calls mover).input.val.length
      · simp only [WriteCall.step, if_pos large] at accepted
        exact absurd rfl accepted
      · cases stored : writers.database.writeFile volume path ((calls mover).apply data) 420 now with
        | error failure =>
            simp only [WriteCall.step, if_neg large, stored] at accepted
            exact absurd rfl accepted
        | ok result =>
            obtain ⟨afterState, afterFile⟩ := writeFile_of_fileAt state file stored
            simp only [WriteCall.step, if_neg large, stored]
            exact ⟨afterState, afterFile, matches_update progress .replied⟩
  | replied =>
      refine ⟨state, file, ?_⟩
      intro client
      dsimp only [WriteCall.step]
      by_cases same : client = mover
      · subst same
        rw [Function.update_self, phaseAt]
        exact .replied
      · rw [Function.update_of_ne same]
        exact progress client

theorem simulates_run {db : Database} {content : Bytes} (state : WellFormedVolume db volume)
    (file : db.FileAt volume path id content) (schedule : List (Bool × Timestamp))
    (accepted : ∀ client,
      (Writers.run volume (id + 2) calls db schedule).progress client ≠ .replied false) :
    Simulates volume path id (Writers.run volume (id + 2) calls db schedule)
      (run (fun client => (calls client).apply) content (schedule.map Prod.fst)) := by
  induction schedule using List.reverseRecOn with
  | nil => exact ⟨state, file, fun _ => .called⟩
  | append_singleton schedule event ih =>
      have split : Writers.run volume (id + 2) calls db (schedule ++ [event]) =
          (Writers.run volume (id + 2) calls db schedule).advance volume (id + 2) calls event :=
        List.foldl_concat _ _ _ _
      rw [split] at accepted ⊢
      rw [List.map_append, List.map_singleton]
      unfold run
      rw [List.foldl_concat]
      exact (ih fun client refused => accepted client (Writers.advance_refused refused)).advance
        (accepted event.1)

theorem count_of_replied {update : Bool → Bytes → Bytes} {content : Bytes} {schedule : List Bool}
    {client : Bool} (replied : (run update content schedule).phase client = .finished) :
    3 ≤ schedule.count client := by
  have tracks := tracks_run update content schedule
  by_contra few
  obtain zero | one | two : schedule.count client = 0 ∨ schedule.count client = 1 ∨
      schedule.count client = 2 := by omega
  · have idle := tracks.idle client zero
    rw [replied] at idle
    cases idle
  · have ready := tracks.ready client one
    rw [replied] at ready
    cases ready
  · have holding := tracks.holding client two
    rw [replied] at holding
    cases holding

end Simulation

/-- Two calls on the same file, with places for different bytes, that both succeed keep
each other's bytes when one stores before the other loads, and else only if the bytes of
the first to store are what the second makes of the file as it was. -/
theorem write_concurrent {db : Database} {volume : Uuid} {path : Text} {id : NodeId}
    {content : Bytes} {calls : Bool → WriteCall} (state : WellFormedVolume db volume)
    (file : db.FileAt volume path id content)
    (disjoint : ∀ client index, (calls client).Covers index → ¬ (calls (!client)).Covers index)
    (schedule : List (Bool × Timestamp))
    (replied : ∀ client,
      (Writers.run volume (id + 2) calls db schedule).progress client = .replied true) :
    (∃ bytes, (Writers.run volume (id + 2) calls db schedule).database.FileAt volume path id bytes ∧
        BothWritten calls content bytes) ↔
      (∃ client, Before (schedule.map Prod.fst) client 3 2) ∨
        ∀ client, Before (schedule.map Prod.fst) client 3 3 →
          (calls client).Holds ((calls (!client)).apply content) := by
  have accepted : ∀ client,
      (Writers.run volume (id + 2) calls db schedule).progress client ≠ .replied false := by
    intro client refused
    rw [replied client] at refused
    cases refused
  obtain ⟨afterState, afterFile, progress⟩ := simulates_run state file schedule accepted
  have finished : ∀ client, 3 ≤ (schedule.map Prod.fst).count client := by
    intro client
    apply count_of_replied
    exact (replied client ▸ progress client).finished
  -- The bytes of the file are what the clients have made of the value.
  have shared : (∃ bytes,
      (Writers.run volume (id + 2) calls db schedule).database.FileAt volume path id bytes ∧
        BothWritten calls content bytes) ↔
      BothWritten calls content
        (run (fun client => (calls client).apply) content (schedule.map Prod.fst)).value := by
    constructor
    · rintro ⟨bytes, found, both⟩
      rw [afterFile.unique afterState.committed.sound.keys found]
      exact both
    · exact fun both => ⟨_, afterFile, both⟩
  rw [shared]
  by_cases serial : ∃ client, Before (schedule.map Prod.fst) client 3 2
  · obtain ⟨client, before⟩ := serial
    rw [run_of_serial (finished (!client)) before]
    exact iff_of_true (bothWritten_of_serial disjoint client) (Or.inl ⟨client, before⟩)
  · obtain ⟨first, before⟩ := exists_first finished
    have overlap : ¬ Before (schedule.map Prod.fst) first 3 2 := fun early => serial ⟨first, early⟩
    rw [run_of_lost (finished (!first)) before overlap, bothWritten_iff_of_lost first,
      or_iff_right serial]
    constructor
    · intro holds client other
      rcases client_cases client first with rfl | rfl
      · exact holds
      · exact absurd before (not_before_of_before other)
    · exact fun all => all first before

def twoByteCalls : List Op :=
  [.createVolume 7 ['v'] 0, .writeFile 7 ['/', 'a'] [1, 2] 420 1]

def byteCalls (client : Bool) : WriteCall :=
  if client then { offset := 0, input := ⟨[9], by decide⟩ }
  else { offset := 1, input := ⟨[8], by decide⟩ }

theorem byteCalls_disjoint (client : Bool) (index : Nat) :
    (byteCalls client).Covers index → ¬ (byteCalls (!client)).Covers index := by
  cases client <;> simp [WriteCall.Covers, byteCalls] <;> omega

instance (db : Database) (volume : Uuid) (path : Text) (id : NodeId) (bytes : Bytes) :
    Decidable (db.FileAt volume path id bytes) :=
  inferInstanceAs (Decidable (∃ node ∈ db.nodes volume, _))

/-- Two mounts that write in turn. -/
theorem write_concurrent_of_serial :
    let first := Mount.new (Database.empty.calls twoByteCalls)
    let second := Mount.new (write 7 4 0 ⟨[9], by decide⟩ 2 first).2.database
    ∃ bytes, (write 7 4 1 ⟨[8], by decide⟩ 3 second).2.database.FileAt 7 ['/', 'a'] 2 bytes ∧
      BothWritten byteCalls [1, 2] bytes := by
  intro first second
  have turns := @run_in_turn 7 4 byteCalls first second true 2 3 rfl
  have kept : ∃ bytes, (Writers.run 7 4 byteCalls (Database.empty.calls twoByteCalls)
      (List.replicate 3 (true, 2) ++ List.replicate 3 (false, 3))).database.FileAt 7 ['/', 'a'] 2
        bytes ∧ BothWritten byteCalls [1, 2] bytes :=
    (write_concurrent (wellFormed_calls (by decide +kernel)) (by decide +kernel)
      byteCalls_disjoint _ (by decide +kernel)).mpr
        (Or.inl ⟨true, [true, true, true], by decide, by decide, by decide⟩)
  obtain ⟨bytes, file, both⟩ := kept
  exact ⟨bytes, turns ▸ file, both⟩

theorem write_concurrent_lost :
    ¬ ∀ (db : Database) (volume : Uuid) (path : Text) (id : NodeId) (content : Bytes)
      (calls : Bool → WriteCall) (schedule : List (Bool × Timestamp)),
      WellFormedVolume db volume → db.FileAt volume path id content →
      (∀ client index, (calls client).Covers index → ¬ (calls (!client)).Covers index) →
      (∀ client,
        (Writers.run volume (id + 2) calls db schedule).progress client = .replied true) →
      ∃ bytes, (Writers.run volume (id + 2) calls db schedule).database.FileAt volume path id bytes ∧
        BothWritten calls content bytes := by
  intro every
  obtain ⟨bytes, ⟨node, member, -, -, kind, content⟩, both⟩ :=
    every (Database.empty.calls twoByteCalls) 7 ['/', 'a'] 2 [1, 2] byteCalls
      [(true, 2), (true, 2), (false, 3), (false, 3), (true, 4), (false, 4)]
      (wellFormed_calls (by decide +kernel)) (by decide +kernel) byteCalls_disjoint
      (by decide +kernel)
  -- The second store brings back the byte that the first has replaced.
  have stored : ∀ node ∈ (Writers.run 7 4 byteCalls (Database.empty.calls twoByteCalls)
      [(true, 2), (true, 2), (false, 3), (false, 3), (true, 4), (false, 4)]).database.nodes 7,
      node.kind = .file → node.content = some [1, 8] := by
    decide +kernel
  rw [stored node member kind] at content
  obtain rfl := Option.some.inj content
  have first := both.written true 0 (by decide)
  revert first
  decide

end PostgreOS
