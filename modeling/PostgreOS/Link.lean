/-
The callbacks over the connection of the adapter.

Frames are limited. A request that is too long is not sent; after an answer that is too
long the daemon has done what was asked and closes the connection, and from then on every
request fails.
-/

import PostgreOS.Callbacks
import PostgreOS.Protocol

namespace PostgreOS

open Library.Outcome Library.Sessions

/-- The length of an unsigned number of `bincode`. -/
def varintLength (number : Nat) : Nat :=
  if number ≤ 250 then 1
  else if number < 2 ^ 16 then 3
  else if number < 2 ^ 32 then 5
  else 9

theorem varintLength_le (number : Nat) : varintLength number ≤ 9 := by
  unfold varintLength
  split
  · omega
  · split
    · omega
    · split <;> omega

/-- The length of a signed number, whose sign goes to the lowest bit. -/
def signedLength (number : Int) : Nat :=
  varintLength (if 0 ≤ number then 2 * number.toNat else 2 * (-number).toNat - 1)

def bytesLength (data : Bytes) : Nat :=
  varintLength data.length + data.length

def textLength (text : Text) : Nat :=
  bytesLength (convertTo text)

/-- The seconds and the `nanoseconds` of a column. -/
def timeLength (time : Timestamp) : Nat :=
  signedLength (time / 1000000) + varintLength (time % 1000000).toNat

/-- The length of `protocol_entry`. -/
def entryLength (row : Inode) : Nat :=
  signedLength row.id + textLength row.path + textLength row.name + signedLength row.kind.code +
    signedLength row.mode + signedLength row.uid + signedLength row.gid + signedLength row.size +
    signedLength row.generation + timeLength row.atime + timeLength row.mtime +
    timeLength row.ctime

/-- A row of a listing, whose three times are that of its last change. -/
def listedLength (row : NodeRow) : Nat :=
  signedLength row.id + textLength row.path + textLength row.name + signedLength row.kind.code +
    signedLength row.mode + signedLength row.uid + signedLength row.gid + signedLength row.size +
    signedLength row.generation + 3 * timeLength row.mtime

def rowsLength (rows : List NodeRow) : Nat :=
  varintLength rows.length + (rows.map listedLength).sum

def secondsLength (time : Int × Int) : Nat :=
  signedLength time.1 + varintLength time.2.toNat

/-- A client of the daemon: the name of its volume, and the text of an error that the daemon
reports. -/
structure Link where
  volumeName : Text
  message : PgError → Text

/-- The adapter, and whether the daemon still serves its connection. -/
structure Linked where
  mount : Mount
  connected : Bool

abbrev LinkedCallback (α : Type) := Session Linked PgError α

/-- A frame of a request: version, volume, operation and `fields` bytes of its fields. -/
def Link.requestLength (link : Link) (fields : Nat) : Nat :=
  1 + textLength link.volumeName + 1 + fields

/-- A frame of a response: version, `Ok` and the output, or `Err` and the message. -/
def Link.responseLength {α : Type} (link : Link) (output : α → Nat) : Result α → Nat
  | .ok value => 1 + 1 + 1 + output value
  | .error failure => 1 + 1 + textLength (link.message failure)

/-- `Client::call` and what the daemon does about it. A request that is too long is not sent.
When the response is too long the daemon has done what was asked and closes the connection. -/
def Link.call {α : Type} (link : Link) (fields : Nat) (output : α → Nat) (request : Callback α) :
    LinkedCallback α := fun state =>
  if state.connected = true ∧ link.requestLength fields ≤ Protocol.MAX_FRAME_SIZE then
    let answer := request state.mount
    if link.responseLength output answer.1 ≤ Protocol.MAX_FRAME_SIZE then
      (answer.1, { mount := answer.2, connected := true })
    else
      (.error { errcode := "", message := "protocol I/O failed", arguments := [] },
        { mount := answer.2, connected := false })
  else
    (.error { errcode := "", message := "protocol frame is too large", arguments := [] }, state)

def onMount {α : Type} (program : Callback α) : LinkedCallback α := fun state =>
  let result := program state.mount
  (result.1, { state with mount := result.2 })

/-! ### The callbacks -/

section Callbacks

variable (link : Link) (volume : Uuid)

namespace Link

def stat (path : Text) : LinkedCallback Inode :=
  link.call (textLength path) entryLength (Client.stat volume path)

def inode (id : NodeId) : LinkedCallback Inode :=
  link.call (signedLength id) entryLength (Client.inode volume id)

def read (path : Text) : LinkedCallback Bytes :=
  link.call (textLength path) bytesLength (Client.read volume path)

def readRange (path : Text) (offset length : Nat) : LinkedCallback Bytes :=
  link.call (textLength path + varintLength offset + varintLength length) bytesLength
    (Client.readRange volume path offset length)

def write (path : Text) (data : Bytes) (now : Timestamp) : LinkedCallback NodeId :=
  link.call (textLength path + bytesLength data) (fun id => signedLength id)
    (Client.write volume path data now)

def list (path : Text) : LinkedCallback (List NodeRow) :=
  link.call (textLength path) rowsLength (Client.list volume path)

def writeEntry (path : Text) (data : Bytes) (now : Timestamp) : LinkedCallback Inode :=
  link.call (textLength path + bytesLength data) entryLength (Client.writeEntry volume path data now)

def mkdirEntry (path : Text) (parents : Bool) (now : Timestamp) : LinkedCallback Inode :=
  link.call (textLength path + 1) entryLength (Client.mkdirEntry volume path parents now)

def setTimes (path : Text) (atime mtime : Int × Int) (now : Timestamp) : LinkedCallback Inode :=
  link.call (textLength path + secondsLength atime + secondsLength mtime) entryLength
    (Client.setTimes volume path atime mtime now)

def movePath (source destination : Text) (now : Timestamp) : LinkedCallback Int :=
  link.call (textLength source + textLength destination) signedLength
    (Client.movePath volume source destination now)

def remove (path : Text) (recursive : Bool) : LinkedCallback Nat :=
  link.call (textLength path + 1) (fun count => signedLength count)
    (Client.remove volume path recursive)

/-- `entry` of the adapter. -/
def entry (inode : INodeNo) : LinkedCallback Inode := do
  let entry ←
    (if inode = rootInode then link.stat volume ['/'] else link.inode volume (inode - 2) :
      LinkedCallback Inode)
  onMount (remember entry)
  pure entry

def inodePath (inode : INodeNo) : LinkedCallback Text := do
  let cached ← onMount (ask fun mount => .ok (mount.inodePaths inode))
  match cached with
  | some path => pure path
  | none => do
      let entry ← link.entry volume inode
      pure entry.path

def openPath (handle : FileHandle) (inode : INodeNo) : LinkedCallback Text := do
  let opened ← onMount (ask fun mount => .ok (mount.openFiles handle))
  match opened with
  | some path => pure path
  | none => link.inodePath volume inode

/-- The callback `open`. -/
def openFile (inode : INodeNo) (truncate : Bool) (now : Timestamp) :
    Session Linked Errno FileHandle :=
  reporting .io do
    let entry ← link.entry volume inode
    if entry.kind ≠ .file then
      fail { errcode := "", message := "not a regular file", arguments := [] }
    else do
      let _ ← (if truncate then link.write volume entry.path [] now else pure 0 :
        LinkedCallback NodeId)
      onMount (allocateHandle entry.path)

/-- The callback `read`. -/
def readFile (inode : INodeNo) (handle : FileHandle) (offset size : Nat) :
    Session Linked Errno Bytes :=
  reporting .io do
    let path ← link.openPath volume handle inode
    link.readRange volume path offset size

/-- The callback `write`. -/
def writeFile (inode : INodeNo) (offset : Nat) (input : Input) (now : Timestamp) :
    Session Linked Errno Nat :=
  reporting .io do
    let entry ← link.entry volume inode
    let data ← link.read volume entry.path
    if 2 ^ 64 ≤ offset + input.val.length then
      fail { errcode := "", message := "write is too large", arguments := [] }
    else do
      let _ ← link.write volume entry.path (splice data offset input.val) now
      pure input.val.length

def childPath (parent : INodeNo) (name : Text) : LinkedCallback Text :=
  if name = [] ∨ name = ['.'] ∨ name = ['.', '.'] ∨ '/' ∈ name then
    fail { errcode := "", message := "invalid directory entry name", arguments := [] }
  else do
    let parent ← link.inodePath volume parent
    pure (joinName parent name)

def lookup (parent : INodeNo) (name : Text) : Session Linked Errno Inode :=
  reporting .noEntry do
    let path ← link.childPath volume parent name
    let entry ← link.stat volume path
    onMount (remember entry)
    pure entry

def getattr (inode : INodeNo) : Session Linked Errno Inode :=
  reporting .noEntry (link.entry volume inode)

def setattr (inode : INodeNo) (unsupported : Bool) (atime mtime : Option TimeOrNow)
    (clock : SystemTime) (now : Timestamp) : Session Linked Errno Inode :=
  if unsupported then fail .notImplemented
  else
    reporting .io do
      let row ← link.entry volume inode
      let access ← onMount (timestamp (chosenTime atime clock row.atime))
      let modification ← onMount (timestamp (chosenTime mtime clock row.mtime))
      let changed ← link.setTimes volume row.path access modification now
      onMount (remember changed)
      pure changed

def create (parent : INodeNo) (name : Text) (now : Timestamp) :
    Session Linked Errno (Inode × FileHandle) :=
  reporting .io do
    let path ← link.childPath volume parent name
    let entry ← link.writeEntry volume path [] now
    onMount (remember entry)
    let handle ← onMount (allocateHandle entry.path)
    pure (entry, handle)

def mkdir (parent : INodeNo) (name : Text) (now : Timestamp) : Session Linked Errno Inode :=
  reporting .io do
    let path ← link.childPath volume parent name
    let entry ← link.mkdirEntry volume path false now
    onMount (remember entry)
    pure entry

def removeChild (parent : INodeNo) (name : Text) : Session Linked Errno Unit :=
  reporting .io do
    let path ← link.childPath volume parent name
    let _ ← link.remove volume path false
    pure ()

def rename (parent : INodeNo) (name : Text) (newParent : INodeNo) (newName : Text)
    (flags : Bool) (now : Timestamp) : Session Linked Errno Unit :=
  if flags then fail .invalid
  else
    reporting .io do
      let source ← link.childPath volume parent name
      let destination ← link.childPath volume newParent newName
      let _ ← link.movePath volume source destination now
      pure ()

/-- Without an answer the parent is the root. -/
def parentInode (directory : Inode) : LinkedCallback INodeNo :=
  match beforeLastSlash directory.path with
  | none => pure rootInode
  | some front => recovering rootInode do
      let row ← link.stat volume (if front = [] then ['/'] else front)
      pure (inodeOf row.path row.id)

def readdir (inode : INodeNo) (offset capacity : Nat) : Session Linked Errno (List DirEntry) :=
  reporting .io do
    let directory ← link.entry volume inode
    let parent ← link.parentInode volume directory
    let rows ← link.list volume directory.path
    let entries : List (INodeNo × Kind × Text) :=
      (inode, .directory, ['.']) :: (parent, .directory, ['.', '.']) ::
        rows.map fun row => (inodeOf row.path row.id, row.kind, row.name)
    pure (((numberedEntries entries).drop offset).take capacity)

end Link

end Callbacks

/-- `release` asks for nothing. -/
def releaseHandle (handle : FileHandle) : Session Linked Errno Unit :=
  modify fun state => { state with mount := (release handle state.mount).2 }

/-- The adapter and its connection after a callback. -/
def FuseCall.runLinked (link : Link) (volume : Uuid) (call : FuseCall) (state : Linked) : Linked :=
  match call with
  | .lookup parent name => (link.lookup volume parent name state).2
  | .getattr inode => (link.getattr volume inode state).2
  | .setattr inode unsupported atime mtime clock now =>
      (link.setattr volume inode unsupported atime mtime clock now state).2
  | .openFile inode truncate now => (link.openFile volume inode truncate now state).2
  | .read inode handle offset size => (link.readFile volume inode handle offset size state).2
  | .write inode offset input now => (link.writeFile volume inode offset input now state).2
  | .create parent name now => (link.create volume parent name now state).2
  | .mkdir parent name now => (link.mkdir volume parent name now state).2
  | .unlink parent name => (link.removeChild volume parent name state).2
  | .rmdir parent name => (link.removeChild volume parent name state).2
  | .rename parent name newParent newName flags now =>
      (link.rename volume parent name newParent newName flags now state).2
  | .readdir inode offset capacity => (link.readdir volume inode offset capacity state).2
  | .release handle => (releaseHandle handle state).2

section Requests

variable {α : Type} {link : Link} {pre failed : Mount → Prop} {post : α → Mount → Prop}

/-- A request over the connection, which may not be sent, or not be answered. -/
theorem Link.call_triple {fields : Nat} {output : α → Nat} {request : Callback α}
    (triple : Triple pre request post failed) (unsent : ∀ mount, pre mount → failed mount)
    (unanswered : ∀ value mount, post value mount →
      Protocol.MAX_FRAME_SIZE < link.responseLength output (.ok value) → failed mount) :
    Triple (fun state : Linked => pre state.mount) (link.call fields output request)
      (fun value state => post value state.mount) (fun state => failed state.mount) := by
  intro state before
  obtain ⟨succeeds, fails⟩ := triple state.mount before
  unfold Link.call
  cases answer : request state.mount with
  | mk result last =>
      split
      · dsimp only
        split
        · constructor
          · intro value after same
            obtain ⟨rfl, rfl⟩ := Prod.mk.inj same
            exact succeeds value last answer
          · intro failure after same
            obtain ⟨rfl, rfl⟩ := Prod.mk.inj same
            exact fails failure last answer
        · rename_i tooLong
          constructor
          · intro value after impossible
            cases (Prod.mk.inj impossible).1
          · intro failure after same
            rw [← (Prod.mk.inj same).2]
            cases result with
            | ok value => exact unanswered value last (succeeds value last answer) (by omega)
            | error reason => exact fails reason last answer
      · constructor
        · intro value after impossible
          cases (Prod.mk.inj impossible).1
        · intro failure after same
          rw [← (Prod.mk.inj same).2]
          exact unsent state.mount before

theorem onMount_triple {program : Callback α} (triple : Triple pre program post failed) :
    Triple (fun state : Linked => pre state.mount) (onMount program)
      (fun value state => post value state.mount) (fun state => failed state.mount) := by
  intro state before
  obtain ⟨succeeds, fails⟩ := triple state.mount before
  unfold onMount
  constructor
  · intro value after same
    rw [← (Prod.mk.inj same).2]
    exact succeeds value _ (Prod.ext (Prod.mk.inj same).1 rfl)
  · intro failure after same
    rw [← (Prod.mk.inj same).2]
    exact fails failure _ (Prod.ext (Prod.mk.inj same).1 rfl)

/-- A statement about the adapter, as long as the daemon serves it. -/
def Connected (holds : Mount → Prop) (state : Linked) : Prop :=
  state.connected = true → holds state.mount

theorem Connected.imp {holds weaker : Mount → Prop} (imp : ∀ mount, holds mount → weaker mount)
    (state : Linked) (connected : Connected holds state) : Connected weaker state :=
  fun served => imp state.mount (connected served)

/-- While the daemon serves the adapter, a request is answered or has done nothing. -/
theorem Link.call_connected {fields : Nat} {output : α → Nat} {request : Callback α}
    (triple : Triple pre request post failed) (unsent : ∀ mount, pre mount → failed mount) :
    Triple (Connected pre) (link.call fields output request) (fun value => Connected (post value))
      (Connected failed) := by
  intro state before
  unfold Link.call
  split
  · rename_i sent
    obtain ⟨succeeds, fails⟩ := triple state.mount (before sent.1)
    cases answer : request state.mount with
    | mk result last =>
        dsimp only
        split
        · constructor
          · intro value after same
            obtain ⟨rfl, rfl⟩ := Prod.mk.inj same
            exact fun _ => succeeds value last answer
          · intro failure after same
            obtain ⟨rfl, rfl⟩ := Prod.mk.inj same
            exact fun _ => fails failure last answer
        · constructor
          · intro value after impossible
            cases (Prod.mk.inj impossible).1
          · intro failure after same served
            rw [← (Prod.mk.inj same).2] at served
            cases served
  · constructor
    · intro value after impossible
      cases (Prod.mk.inj impossible).1
    · intro failure after same
      rw [← (Prod.mk.inj same).2]
      exact fun served => unsent state.mount (before served)

theorem onMount_connected {program : Callback α} (triple : Triple pre program post failed) :
    Triple (Connected pre) (onMount program) (fun value => Connected (post value))
      (Connected failed) := by
  intro state before
  unfold onMount
  constructor
  · intro value after same
    obtain ⟨answer, rfl⟩ := Prod.mk.inj same
    exact fun served => (triple state.mount (before served)).1 value _ (Prod.ext answer rfl)
  · intro failure after same
    obtain ⟨answer, rfl⟩ := Prod.mk.inj same
    exact fun served => (triple state.mount (before served)).2 failure _ (Prod.ext answer rfl)

end Requests

/-! ### Asking over the connection -/

section Asking

variable {link : Link} {volume : Uuid} {pre : Mount → Prop}

theorem Link.answered {α : Type} {fields : Nat} {output : α → Nat} {question : Mount → Result α} :
    Triple (Connected pre) (link.call fields output (ask question))
      (fun value => Connected fun mount => pre mount ∧ question mount = .ok value)
      (Connected pre) :=
  Link.call_connected (.ask (fun _ _ before answer => ⟨before, answer⟩) fun _ before => before)
    fun _ before => before

theorem Link.entry_connected (inode : INodeNo) :
    Triple (Connected pre) (link.entry volume inode)
      (fun row => Connected fun mount => ∃ before, pre before ∧
        before.database.entryOf volume inode = .ok row ∧ mount = before.remembering row)
      (Connected pre) := by
  have told : Triple (Connected pre)
      (if inode = rootInode then link.stat volume ['/'] else link.inode volume (inode - 2) :
        LinkedCallback Inode)
      (fun row => Connected fun mount => pre mount ∧
        mount.database.entryOf volume inode = .ok row)
      (Connected pre) := by
    unfold Database.entryOf
    split
    · exact Link.answered
    · exact Link.answered
  refine told.bind fun row => ?_
  refine (onMount_connected (.modify ?_)).bind fun _ => .pure fun _ remembered => remembered
  exact fun mount both => ⟨mount, both.1, both.2, rfl⟩

theorem Link.inodePath_connected (inode : INodeNo) :
    Triple (Connected pre) (link.inodePath volume inode)
      (fun path => Connected fun mount => ∃ before, pre before ∧
        Asked volume before inode mount ∧ before.UsesPath volume inode path)
      (Connected pre) := by
  have asking : Triple pre (ask fun mount => .ok (mount.inodePaths inode) : Callback (Option Text))
      (fun cached mount => pre mount ∧ mount.inodePaths inode = cached) pre :=
    .ask (fun _ _ before answer => ⟨before, Except.ok.inj answer⟩) fun _ before => before
  refine (onMount_connected asking).bind fun cached => ?_
  cases cached with
  | some path =>
      exact .pure (Connected.imp fun mount both => ⟨mount, both.1, .kept, Or.inl both.2⟩)
  | none =>
      refine ((Link.entry_connected inode).bind fun row => .pure ?_).weaken
        (fun _ unknown => unknown) (fun _ _ asked => asked) (Connected.imp fun _ both => both.1)
      refine Connected.imp fun mount told => ?_
      obtain ⟨before, ⟨holds, unknown⟩, answer, remembered⟩ := told
      exact ⟨before, holds, remembered ▸ .told row unknown answer, Or.inr ⟨unknown, row, answer, rfl⟩⟩

theorem Link.childPath_connected (parent : INodeNo) (name : Text) :
    Triple (Connected pre) (link.childPath volume parent name)
      (fun path => Connected fun mount => ∃ before, pre before ∧
        Asked volume before parent mount ∧ ∃ front, before.UsesPath volume parent front ∧
          path = joinName front name ∧ name ≠ [] ∧ '/' ∉ name)
      (Connected pre) := by
  unfold Link.childPath
  split
  · exact .fail fun _ before => before
  · rename_i accepted
    rw [not_or, not_or, not_or] at accepted
    refine (Link.inodePath_connected parent).bind fun front => .pure (Connected.imp ?_)
    rintro mount ⟨before, holds, asked, uses⟩
    exact ⟨before, holds, asked, front, uses, rfl, accepted.1, accepted.2.2.2⟩

end Asking

section Remembers

variable {link : Link} {volume : Uuid} {holds : Mount → Prop} (remembers : Remembers volume holds)

include remembers

theorem Remembers.asked {before after : Mount} {inode : INodeNo} (known : holds before)
    (asked : Asked volume before inode after) : holds after := by
  cases asked with
  | kept => exact known
  | told row _ answer =>
      exact remembers.row before row known (shows_of_entryOf (remembers.keys before known) answer)

theorem Remembers.linkEntry (inode : INodeNo) :
    Triple (Connected holds) (link.entry volume inode)
      (fun row => Connected (Told volume holds row)) (Connected holds) := by
  refine (Link.entry_connected inode).weaken (fun _ before => before) (fun row => ?_)
    fun _ before => before
  refine Connected.imp ?_
  rintro mount ⟨before, known, answer, rfl⟩
  have shows := shows_of_entryOf (remembers.keys before known) answer
  exact ⟨remembers.row before row known shows, shows⟩

theorem Remembers.linkChildPath (parent : INodeNo) (name : Text) :
    Triple (Connected holds) (link.childPath volume parent name)
      (fun _ => Connected holds) (Connected holds) := by
  refine (Link.childPath_connected parent name).weaken (fun _ before => before) (fun path => ?_)
    fun _ before => before
  refine Connected.imp ?_
  rintro mount ⟨before, known, asked, -⟩
  exact remembers.asked known asked

theorem Remembers.linkStat (path : Text) :
    Triple (Connected holds) (link.stat volume path) (fun row => Connected (Told volume holds row))
      (Connected holds) :=
  Link.call_connected (remembers.stat path) fun _ before => before

theorem Remembers.linkRemember (row : Inode) :
    Triple (Connected (Told volume holds row)) (onMount (PostgreOS.remember row))
      (fun _ => Connected holds) (Connected holds) :=
  onMount_connected (remembers.remember row)

theorem Remembers.linkLookup (parent : INodeNo) (name : Text) :
    Triple (Connected holds) (link.lookup volume parent name) (fun _ => Connected holds)
      (Connected holds) := by
  refine ((remembers.linkChildPath parent name).bind fun path => ?_).reporting
  refine (remembers.linkStat path).bind fun row => ?_
  exact (remembers.linkRemember row).bind fun _ => .pure fun _ before => before

theorem Remembers.linkGetattr (inode : INodeNo) :
    Triple (Connected holds) (link.getattr volume inode) (fun _ => Connected holds)
      (Connected holds) :=
  ((remembers.linkEntry inode).weaken (fun _ before => before)
    (fun _ => Connected.imp fun _ told => told.1) fun _ before => before).reporting

theorem Remembers.linkParentInode (directory : Inode) :
    Triple (Connected holds) (link.parentInode volume directory) (fun _ => Connected holds)
      (Connected holds) := by
  unfold Link.parentInode
  split
  · exact .pure fun _ before => before
  · refine Triple.recovering ?_
    exact (remembers.linkStat _).bind fun row => .pure (Connected.imp fun _ told => told.1)

theorem Remembers.linkReaddir (inode : INodeNo) (offset capacity : Nat) :
    Triple (Connected holds) (link.readdir volume inode offset capacity) (fun _ => Connected holds)
      (Connected holds) := by
  refine Triple.reporting ((remembers.linkEntry inode).bind fun directory => ?_)
  refine ((remembers.linkParentInode directory).weaken (Connected.imp fun _ told => told.1)
    (fun _ _ after => after) fun _ after => after).bind fun parent => ?_
  exact Link.answered.bind fun rows => .pure (Connected.imp fun _ listed => listed.1)

theorem Remembers.linkRead (inode : INodeNo) (handle : FileHandle) (offset size : Nat) :
    Triple (Connected holds) (link.readFile volume inode handle offset size)
      (fun _ => Connected holds) (Connected holds) := by
  refine Triple.reporting ?_
  have opened : Triple (Connected holds) (link.openPath volume handle inode)
      (fun _ => Connected holds) (Connected holds) := by
    refine (onMount_connected (Triple.asked _)).bind fun found => ?_
    cases found with
    | some path => exact .pure fun _ before => before
    | none =>
        refine (Link.inodePath_connected inode).weaken (fun _ before => before) (fun path => ?_)
          fun _ before => before
        refine Connected.imp ?_
        rintro mount ⟨before, known, asked, -⟩
        exact remembers.asked known asked
  refine opened.bind fun path => ?_
  exact Link.answered.weaken (fun _ before => before)
    (fun _ => Connected.imp fun _ both => both.1) fun _ before => before

theorem Remembers.linkMkdir (parent : INodeNo) (name : Text) (now : Timestamp)
    (made : ∀ path, Triple holds (Client.mkdirEntry volume path false now) (Told volume holds) holds) :
    Triple (Connected holds) (link.mkdir volume parent name now) (fun _ => Connected holds)
      (Connected holds) := by
  refine ((remembers.linkChildPath parent name).bind fun path => ?_).reporting
  refine (Link.call_connected (made path) fun _ before => before).bind fun row => ?_
  exact (remembers.linkRemember row).bind fun _ => .pure fun _ before => before

theorem Remembers.linkRemoveChild (parent : INodeNo) (name : Text)
    (removed : ∀ path, Triple holds (Client.remove volume path false) (fun _ => holds) holds) :
    Triple (Connected holds) (link.removeChild volume parent name) (fun _ => Connected holds)
      (Connected holds) := by
  refine ((remembers.linkChildPath parent name).bind fun path => ?_).reporting
  exact (Link.call_connected (removed path) fun _ before => before).bind fun _ =>
    .pure fun _ before => before

theorem Remembers.linkSetattr (inode : INodeNo) (unsupported : Bool)
    (atime mtime : Option TimeOrNow) (clock : SystemTime) (now : Timestamp)
    (changes : ∀ path access modification,
      Triple holds (Client.setTimes volume path access modification now) (Told volume holds) holds) :
    Triple (Connected holds) (link.setattr volume inode unsupported atime mtime clock now)
      (fun _ => Connected holds) (Connected holds) := by
  unfold Link.setattr
  split
  · exact .fail fun _ before => before
  · refine Triple.reporting ?_
    refine ((remembers.linkEntry inode).weaken (fun _ before => before)
      (fun _ => Connected.imp fun _ told => told.1) fun _ before => before).bind fun row => ?_
    refine (onMount_connected (triple_timestamp _)).bind fun access => ?_
    refine (onMount_connected (triple_timestamp _)).bind fun modification => ?_
    refine (Link.call_connected (changes row.path access modification)
      fun _ before => before).bind fun changed => ?_
    exact (remembers.linkRemember changed).bind fun _ => .pure fun _ before => before

end Remembers

end PostgreOS
