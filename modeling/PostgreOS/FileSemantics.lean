/-
A file through one mount.

The requests of the callbacks go over one connection, whose frames are limited. However
the daemon stores a file, and whatever requests the frames keep from it, a client of the
mount sees an array of bytes: writes that succeed overwrite a range, reads that succeed
return one, and a callback that fails has changed nothing.
-/

import PostgreOS.Link
import PostgreOS.MountWrites

namespace PostgreOS

open Library.Outcome Library.Sessions Library.Table

/-- The bytes after a write: zero up to its offset where there were none, and the input in its
place. -/
def overwrite (content : Bytes) (offset : Nat) (input : Bytes) : Bytes :=
  (List.range (max content.length (offset + input.length))).map fun index =>
    if offset ≤ index ∧ index < offset + input.length then input.getD (index - offset) 0
    else content.getD index 0

theorem splice_eq_overwrite (content : Bytes) (offset : Nat) (input : Bytes) :
    splice content offset input = overwrite content offset input := by
  apply List.ext_getElem?
  intro index
  unfold overwrite
  rw [List.getElem?_map]
  by_cases within : index < max content.length (offset + input.length)
  · rw [List.getElem?_range within, Option.map_some]
    by_cases inside : offset ≤ index ∧ index < offset + input.length
    · have here : (splice content offset input)[offset + (index - offset)]? = input[index - offset]? :=
        splice_inside (by omega)
      rw [Nat.add_sub_cancel' inside.1] at here
      rw [if_pos inside, here, List.getD_eq_getElem?_getD,
        List.getElem?_eq_getElem (by omega : index - offset < input.length), Option.getD_some]
    · rw [if_neg inside, List.getD_eq_getElem?_getD]
      by_cases old : index < content.length
      · rw [splice_outside old inside, List.getElem?_eq_getElem old, Option.getD_some]
      · rw [splice_padding (by omega) (by omega), List.getElem?_eq_none (by omega), Option.getD_none]
  · rw [List.getElem?_eq_none (by rw [splice_length]; omega),
      List.getElem?_eq_none (by rw [List.length_range]; omega), Option.map_none]

/-! ### One callback -/

/-- The file has these bytes, and the handles are open for it. -/
structure Serves (volume : Uuid) (path : Text) (id : NodeId) (handles : List FileHandle)
    (content : Bytes) (mount : Mount) : Prop where
  state : WellFormedVolume mount.database volume
  file : mount.database.FileAt volume path id content
  opened : ∀ handle ∈ handles, mount.openFiles handle = some path

section Callbacks

variable {link : Link} {volume : Uuid} {path : Text} {id : NodeId} {handles : List FileHandle}
  {content : Bytes}

theorem Serves.triple_inode :
    Triple (Serves volume path id handles content) (Client.inode volume id)
      (fun row mount => Serves volume path id handles content mount ∧ row.path = path)
      (Serves volume path id handles content) := by
  refine .ask ?_ fun _ serves => serves
  intro mount row serves answer
  obtain ⟨found, foundRow, samePath⟩ := inode_of_fileAt serves.state.committed.sound.keys serves.file
  obtain rfl := Except.ok.inj (answer.symm.trans foundRow)
  exact ⟨serves, samePath⟩

theorem Serves.triple_read :
    Triple (Serves volume path id handles content) (Client.read volume path)
      (fun data mount => Serves volume path id handles content mount ∧ data = content)
      (Serves volume path id handles content) := by
  refine .ask ?_ fun _ serves => serves
  intro mount data serves answer
  exact ⟨serves, readFile_of_fileAt serves.state serves.file answer⟩

theorem Serves.triple_readRange (offset size : Nat) :
    Triple (Serves volume path id handles content) (Client.readRange volume path offset size)
      (fun data mount => Serves volume path id handles content mount ∧
        data = (content.drop offset).take size)
      (Serves volume path id handles content) := by
  refine .ask ?_ fun _ serves => serves
  intro mount data serves answer
  refine ⟨serves, ?_⟩
  split at answer
  · cases answer
  · by_cases limit : size ≤ 16777216
    · obtain ⟨zone, entry, front, rest, found, rfl, -, -, bytes⟩ :=
        entryAt_of_fileAt serves.state.tree serves.file
      rw [readRange_of_entryAt serves.state.committed.sound serves.state.tree found bytes limit]
        at answer
      exact (Except.ok.inj answer).symm
    · unfold Database.readRange at answer
      rw [if_pos (Or.inr (Or.inr (by omega)))] at answer
      cases answer

theorem Serves.triple_write (data : Bytes) (now : Timestamp) :
    Triple (Serves volume path id handles content) (Client.write volume path data now)
      (fun _ => Serves volume path id handles data)
      (Serves volume path id handles content) := by
  refine .perform ?_ fun _ serves => serves
  intro mount written last serves done
  obtain ⟨⟨after, other⟩, writeOk, same⟩ := bind_eq_ok.mp done
  obtain ⟨rfl, rfl⟩ := Prod.mk.inj (Except.ok.inj same)
  obtain ⟨afterState, afterFile⟩ := writeFile_of_fileAt serves.state serves.file writeOk
  exact ⟨afterState, afterFile, serves.opened⟩

theorem Serves.triple_remember (row : Inode) {failed : Mount → Prop} :
    Triple (Serves volume path id handles content) (remember row)
      (fun _ => Serves volume path id handles content) failed :=
  .modify fun _ serves => ⟨serves.state, serves.file, serves.opened⟩

theorem Serves.triple_allocateHandle {failed : Mount → Prop} :
    Triple (Serves volume path id handles content) (allocateHandle path)
      (fun handle => Serves volume path id (handle :: handles) content) failed := by
  refine .of_states fun mount serves => .of_run rfl ⟨serves.state, serves.file, ?_⟩
  intro handle known
  by_cases same : handle = mount.nextHandle
  · rw [same]
    exact Function.update_self _ _ _
  · dsimp only
    rw [Function.update_of_ne same]
    exact serves.opened handle ((List.mem_cons.mp known).resolve_left same)

theorem Link.entry_triple :
    Triple (fun state : Linked => Serves volume path id handles content state.mount)
      (link.entry volume (id + 2))
      (fun row state => Serves volume path id handles content state.mount ∧ row.path = path)
      (fun state => Serves volume path id handles content state.mount) := by
  unfold Link.entry
  rw [if_neg (id_add_two_ne_root id), Nat.add_sub_cancel]
  refine Triple.bind (Link.call_triple Serves.triple_inode (fun _ serves => serves)
    fun _ _ both _ => both.1) fun row => ?_
  refine Triple.of_states fun state both => ?_
  have remembered : Triple (· = state) (onMount (remember row))
      (fun _ last => Serves volume path id handles content last.mount)
      (fun last => Serves volume path id handles content last.mount) :=
    (onMount_triple (Serves.triple_remember row)).weaken (fun _ same => same ▸ both.1)
      (fun _ _ serves => serves) fun _ serves => serves
  exact remembered.bind fun _ => .pure fun last serves => ⟨serves, both.2⟩

theorem Link.write_triple (data : Bytes) (now : Timestamp) :
    Triple (fun state : Linked => Serves volume path id handles content state.mount)
      (link.write volume path data now)
      (fun _ state => Serves volume path id handles data state.mount)
      (fun state => Serves volume path id handles content state.mount) := by
  refine Link.call_triple (Serves.triple_write data now) (fun _ serves => serves) ?_
  intro written mount _ tooLong
  have short : signedLength written ≤ 9 := varintLength_le _
  have limit : 12 ≤ Protocol.MAX_FRAME_SIZE := by decide
  change Protocol.MAX_FRAME_SIZE < 1 + 1 + 1 + signedLength written at tooLong
  omega

theorem Link.openFile_triple (truncate : Bool) (now : Timestamp) :
    Triple (fun state : Linked => Serves volume path id handles content state.mount)
      (link.openFile volume (id + 2) truncate now)
      (fun handle state =>
        Serves volume path id (handle :: handles) (if truncate then [] else content) state.mount)
      (fun state => Serves volume path id handles content state.mount) := by
  refine Triple.reporting (Link.entry_triple.bind fun row => ?_)
  split
  · exact .fail fun _ both => both.1
  · refine .of_states ?_
    rintro state ⟨serves, rfl⟩
    cases truncate with
    | false =>
        have unwritten : Triple (· = state) (pure 0 : LinkedCallback NodeId)
            (fun _ last => Serves volume row.path id handles content last.mount)
            (fun last => Serves volume row.path id handles content last.mount) :=
          .of_run rfl serves
        exact unwritten.bind fun _ => onMount_triple Serves.triple_allocateHandle
    | true =>
        have emptied : Triple (· = state) (link.write volume row.path [] now)
            (fun _ last => Serves volume row.path id handles [] last.mount)
            (fun last => Serves volume row.path id handles content last.mount) :=
          (Link.write_triple [] now).weaken (fun _ same => same ▸ serves) (fun _ _ after => after)
            fun _ before => before
        exact emptied.bind fun _ => onMount_triple Serves.triple_allocateHandle

theorem Link.readFile_triple {handle : FileHandle} (isOpen : handle ∈ handles) (inode : INodeNo)
    (offset size : Nat) :
    Triple (fun state : Linked => Serves volume path id handles content state.mount)
      (link.readFile volume inode handle offset size)
      (fun data state => Serves volume path id handles content state.mount ∧
        data = (content.drop offset).take size)
      (fun state => Serves volume path id handles content state.mount) := by
  refine Triple.reporting ?_
  have opened : Triple (fun state : Linked => Serves volume path id handles content state.mount)
      (link.openPath volume handle inode)
      (fun found state => Serves volume path id handles content state.mount ∧ found = path)
      (fun state => Serves volume path id handles content state.mount) := by
    have asked : Triple (Serves volume path id handles content)
        (ask fun mount => .ok (mount.openFiles handle) : Callback (Option Text))
        (fun found mount => Serves volume path id handles content mount ∧ found = some path)
        (Serves volume path id handles content) :=
      .ask (fun mount found serves answer =>
        ⟨serves, (Except.ok.inj answer).symm.trans (serves.opened handle isOpen)⟩)
        fun _ serves => serves
    refine (onMount_triple asked).bind fun found => ?_
    refine .of_states ?_
    rintro state ⟨serves, rfl⟩
    exact .of_run rfl ⟨serves, rfl⟩
  refine opened.bind fun found => .of_states ?_
  rintro state ⟨serves, rfl⟩
  exact (Link.call_triple (Serves.triple_readRange offset size) (fun _ before => before)
    fun _ _ both _ => both.1).weaken (fun _ same => same ▸ serves) (fun _ _ both => both)
      fun _ before => before

theorem Link.writeFile_triple (offset : Nat) (input : Input) (now : Timestamp) :
    Triple (fun state : Linked => Serves volume path id handles content state.mount)
      (link.writeFile volume (id + 2) offset input now)
      (fun count state => Serves volume path id handles
        (overwrite content offset input.val) state.mount ∧ count = input.val.length)
      (fun state => Serves volume path id handles content state.mount) := by
  refine Triple.reporting (Link.entry_triple.bind fun row => .of_states ?_)
  rintro state ⟨serves, rfl⟩
  have loaded : Triple (· = state) (link.read volume row.path)
      (fun data last => Serves volume row.path id handles content last.mount ∧ data = content)
      (fun last => Serves volume row.path id handles content last.mount) :=
    (Link.call_triple Serves.triple_read (fun _ before => before)
      fun _ _ both _ => both.1).weaken (fun _ same => same ▸ serves) (fun _ _ both => both)
        fun _ before => before
  refine loaded.bind fun data => ?_
  split
  · exact .fail fun _ both => both.1
  · refine .of_states ?_
    rintro last ⟨before, rfl⟩
    have stored : Triple (· = last) (link.write volume row.path (splice data offset input.val) now)
        (fun _ after => Serves volume row.path id handles (overwrite data offset input.val)
          after.mount)
        (fun after => Serves volume row.path id handles data after.mount) := by
      rw [splice_eq_overwrite]
      exact (Link.write_triple _ now).weaken (fun _ same => same ▸ before) (fun _ _ after => after)
        fun _ unchanged => unchanged
    exact stored.bind fun _ => .pure fun _ after => ⟨after, rfl⟩

end Callbacks

/-! ### Runs of one client -/

/-- A callback on one file with its arguments and its clock reading. -/
inductive FileCall where
  | openFile (truncate : Bool) (now : Timestamp)
  | read (handle : FileHandle) (offset size : Nat)
  | write (offset : Nat) (input : Input) (now : Timestamp)

inductive FileReply where
  | opened (handle : FileHandle)
  | data (bytes : Bytes)
  | written (count : Nat)
  deriving DecidableEq

def FileCall.run (link : Link) (volume : Uuid) (inode : INodeNo) :
    FileCall → Session Linked Errno FileReply
  | .openFile truncate now => do
      let handle ← link.openFile volume inode truncate now
      pure (.opened handle)
  | .read handle offset size => do
      let bytes ← link.readFile volume inode handle offset size
      pure (.data bytes)
  | .write offset input now => do
      let count ← link.writeFile volume inode offset input now
      pure (.written count)

/-- What a callback makes of an array of bytes. -/
def FileCall.apply : FileCall → Bytes → Bytes
  | .openFile truncate _, content => if truncate then [] else content
  | .read .., content => content
  | .write offset input _, content => overwrite content offset input.val

/-- The reply that the array of bytes asks for. -/
def FileCall.Answers (content : Bytes) : FileCall → FileReply → Prop
  | .openFile .., .opened _ => True
  | .read _ offset size, .data bytes => bytes = (content.drop offset).take size
  | .write _ input _, .written count => count = input.val.length
  | _, _ => False

def FileCall.Through (handles : List FileHandle) : FileCall → Prop
  | .read handle .. => handle ∈ handles
  | _ => True

def FileReply.handles (known : List FileHandle) : FileReply → List FileHandle
  | .opened handle => handle :: known
  | _ => known

/-- Callback after callback, the file holds the array of bytes: a callback that succeeds has
changed it as the array and answers from it, one that fails has not changed it. -/
def Follows (link : Link) (volume : Uuid) (path : Text) (id : NodeId) :
    List FileCall → List FileHandle → Bytes → Linked → Prop
  | [], _, content, state => state.mount.database.FileAt volume path id content
  | call :: rest, handles, content, state =>
      state.mount.database.FileAt volume path id content ∧
        (call.Through handles →
          (∀ reply after, call.run link volume (id + 2) state = (.ok reply, after) →
            call.Answers content reply ∧
              Follows link volume path id rest (reply.handles handles) (call.apply content) after) ∧
          ∀ failure after, call.run link volume (id + 2) state = (.error failure, after) →
            Follows link volume path id rest handles content after)

section Runs

variable {link : Link} {volume : Uuid} {path : Text} {id : NodeId} {handles : List FileHandle}
  {content : Bytes}

theorem FileCall.run_triple (call : FileCall) (through : call.Through handles) :
    Triple (fun state : Linked => Serves volume path id handles content state.mount)
      (call.run link volume (id + 2))
      (fun reply state => call.Answers content reply ∧
        Serves volume path id (reply.handles handles) (call.apply content) state.mount)
      (fun state => Serves volume path id handles content state.mount) := by
  cases call with
  | openFile truncate now =>
      exact (Link.openFile_triple truncate now).bind fun handle =>
        .pure fun _ serves => ⟨trivial, serves⟩
  | read handle offset size =>
      exact (Link.readFile_triple through (id + 2) offset size).bind fun bytes =>
        .pure fun _ both => ⟨both.2, both.1⟩
  | write offset input now =>
      exact (Link.writeFile_triple offset input now).bind fun count =>
        .pure fun _ both => ⟨both.2, both.1⟩

theorem follows_of_serves (calls : List FileCall) (state : Linked)
    (serves : Serves volume path id handles content state.mount) :
    Follows link volume path id calls handles content state := by
  induction calls generalizing handles content state with
  | nil => exact serves.file
  | cons call rest ih =>
      refine ⟨serves.file, fun through => ?_⟩
      obtain ⟨succeeds, fails⟩ :=
        @FileCall.run_triple link volume path id handles content call through state serves
      constructor
      · intro reply after done
        obtain ⟨answers, next⟩ := succeeds reply after done
        exact ⟨answers, ih after next⟩
      · intro failure after failed
        exact ih after (fails failure after failed)

end Runs

/-- Whatever a client of the mount does with a file, it sees an array of bytes. -/
theorem file_follows_bytes (link : Link) {volume : Uuid} {path : Text} {id : NodeId}
    {content : Bytes} {state : Linked} (wellFormed : WellFormedVolume state.mount.database volume)
    (file : state.mount.database.FileAt volume path id content) {handles : List FileHandle}
    (opened : ∀ handle ∈ handles, state.mount.openFiles handle = some path)
    (calls : List FileCall) :
    Follows link volume path id calls handles content state :=
  follows_of_serves calls state ⟨wellFormed, file, opened⟩

def linkedFile : Linked :=
  { mount := .new (Database.empty.calls twoByteCalls)
    connected := true }

def plainLink : Link :=
  { volumeName := ['v']
    message := fun failure => failure.message.toList }

/-- The file is emptied, a byte that is no character is written behind a gap, and read. -/
def gapCalls : List FileCall :=
  [.openFile true 2, .write 1 ⟨[195], by decide⟩ 3, .read 1 0 4]

theorem file_follows_bytes_gap :
    Follows plainLink 7 ['/', 'a'] 2 gapCalls [] [1, 2] linkedFile ∧
      gapCalls.foldl (fun content call => call.apply content) [1, 2] = [0, 195] ∧
      (gapCalls.foldl (fun (reached : Linked × List (Except Errno FileReply)) call =>
        let result := call.run plainLink 7 4 reached.1
        (result.2, reached.2 ++ [result.1])) (linkedFile, [])).2 =
          [.ok (.opened 1), .ok (.written 1), .ok (.data [0, 195])] :=
  ⟨file_follows_bytes plainLink (wellFormed_calls (by decide +kernel)) (by decide +kernel)
    (fun _ member => absurd member List.not_mem_nil) gapCalls, by decide +kernel,
    by decide +kernel⟩

end PostgreOS
