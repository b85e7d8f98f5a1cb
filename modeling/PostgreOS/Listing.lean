/-
Reading a directory through the adapter.

A reply begins at the offset that the call names, which is a position in the listing of
the directory as it is then. Between two calls the listing may change, and with it the
positions of the entries that stay.
-/

import PostgreOS.Library.Paging
import PostgreOS.Coherence
import PostgreOS.Views

namespace PostgreOS

open Library.Outcome Library.Paging Library.Sessions Library.Transition

/-- The entries of a directory in the order of `readdir`. -/
def Database.directoryEntries (db : Database) (volume : Uuid) (inode : INodeNo) :
    Result (List (INodeNo × Kind × Text)) := do
  let directory ← db.entryOf volume inode
  let rows ← db.list volume directory.path
  .ok ((inode, .directory, ['.']) ::
    (db.parentNumber volume directory, .directory, ['.', '.']) ::
      rows.map fun row => (inodeOf row.path row.id, row.kind, row.name))

section Answer

variable {volume : Uuid} {mount : Mount}

theorem entry_told (inode : INodeNo) :
    Triple (· = mount) (entry volume inode)
      (fun row after => mount.database.entryOf volume inode = .ok row ∧
        after.database = mount.database) (fun _ => True) := by
  rintro state rfl
  rw [entry_eq]
  cases answer : state.database.entryOf volume inode with
  | error failure =>
      refine ⟨?_, fun _ _ _ => trivial⟩
      intro row after impossible
      cases (Prod.mk.inj impossible).1
  | ok told =>
      refine ⟨?_, fun _ _ _ => trivial⟩
      intro row after same
      obtain ⟨⟨⟩, rfl⟩ := Prod.mk.inj same
      exact ⟨rfl, rfl⟩

/-- A reply is a part of the numbered entries. -/
theorem readdir_reply (inode : INodeNo) (offset capacity : Nat) :
    Triple (· = mount) (readdir volume inode offset capacity)
      (fun reply _ => ∃ entries, mount.database.directoryEntries volume inode = .ok entries ∧
        reply = ((numberedEntries entries).drop offset).take capacity) (fun _ => True) := by
  refine Triple.reporting ?_
  refine (entry_told inode).bind fun directory => ?_
  refine .of_states ?_
  rintro told ⟨answer, sameDatabase⟩
  have parentTold : Triple (· = told) (parentInode volume directory)
      (fun parent after => parent = mount.database.parentNumber volume directory ∧ after = told)
      (fun _ => True) := by
    refine .ask ?_ fun _ _ => trivial
    rintro state parent rfl parentOk
    rw [sameDatabase] at parentOk
    exact ⟨(Except.ok.inj parentOk).symm, rfl⟩
  refine parentTold.bind fun parent => ?_
  have listTold : Triple (fun after => parent = mount.database.parentNumber volume directory ∧
      after = told) (Client.list volume directory.path)
      (fun rows _ => parent = mount.database.parentNumber volume directory ∧
        mount.database.list volume directory.path = .ok rows) (fun _ => True) := by
    refine .ask ?_ fun _ _ => trivial
    rintro state rows ⟨isParent, rfl⟩ listed
    rw [sameDatabase] at listed
    exact ⟨isParent, listed⟩
  refine listTold.bind fun rows => .pure ?_
  rintro state ⟨rfl, listed⟩
  refine ⟨_, ?_, rfl⟩
  unfold Database.directoryEntries
  rw [answer, ok_bind, listed, ok_bind]

end Answer

/-! ### Pages -/

/-- The inode numbers and names that a call numbers. -/
def Database.shown (db : Database) (volume : Uuid) (inode : INodeNo) : List (INodeNo × Text) :=
  match db.directoryEntries volume inode with
  | .ok entries => entries.map fun entry => (entry.1, entry.2.2)
  | .error _ => []

/-- A call, by the adapter as it is then and the room of the reply. -/
structure ReadCall where
  mount : Mount
  capacity : Nat

def ReadCall.page (volume : Uuid) (inode : INodeNo) (call : ReadCall) : Page (INodeNo × Text) :=
  { listing := call.mount.database.shown volume inode
    capacity := call.capacity }

def DirEntry.shown (entry : DirEntry) : INodeNo × Text :=
  (entry.inode, entry.name)

/-- Calls that begin at `offset` and go on at the offset of the last entry returned, until
one returns nothing. -/
inductive Enumeration (volume : Uuid) (inode : INodeNo) :
    Nat → List ReadCall → List DirEntry → Prop
  | last {offset : Nat} {call : ReadCall} (room : 0 < call.capacity)
      (answer : (readdir volume inode offset call.capacity call.mount).1 = .ok []) :
      Enumeration volume inode offset [call] []
  | next {offset : Nat} {call : ReadCall} {reply rest : List DirEntry} {entry : DirEntry}
      {calls : List ReadCall} (room : 0 < call.capacity)
      (answer : (readdir volume inode offset call.capacity call.mount).1 = .ok (reply ++ [entry]))
      (continued : Enumeration volume inode entry.offset calls rest) :
      Enumeration volume inode offset (call :: calls) (reply ++ [entry] ++ rest)

section Pages

variable {volume : Uuid} {inode : INodeNo} {offset : Nat} {call : ReadCall} {reply : List DirEntry}

theorem reply_eq (answer : (readdir volume inode offset call.capacity call.mount).1 = .ok reply) :
    ∃ entries, call.mount.database.directoryEntries volume inode = .ok entries ∧
      reply = ((numberedEntries entries).drop offset).take call.capacity :=
  (readdir_reply inode offset call.capacity call.mount rfl).1 reply _ (Prod.ext answer rfl)

theorem numberedEntries_shown (entries : List (INodeNo × Kind × Text)) :
    (numberedEntries entries).map DirEntry.shown = entries.map fun entry => (entry.1, entry.2.2) := by
  unfold numberedEntries
  rw [List.map_map]
  have firsts : entries.map (fun entry => (entry.1, entry.2.2)) =
      (entries.zipIdx.map Prod.fst).map fun entry => (entry.1, entry.2.2) := by
    rw [List.zipIdx_map_fst]
  rw [firsts, List.map_map]
  rfl

theorem shown_reply (answer : (readdir volume inode offset call.capacity call.mount).1 = .ok reply) :
    reply.map DirEntry.shown = returned offset (call.page volume inode) := by
  obtain ⟨entries, listed, rfl⟩ := reply_eq answer
  unfold returned ReadCall.page Database.shown
  dsimp only
  rw [listed, List.map_take, List.map_drop, numberedEntries_shown]

theorem offset_of_last {entry : DirEntry}
    (answer : (readdir volume inode offset call.capacity call.mount).1 = .ok (reply ++ [entry])) :
    entry.offset = next offset (call.page volume inode) := by
  obtain ⟨entries, listed, whole⟩ := reply_eq answer
  have length : (returned offset (call.page volume inode)).length = reply.length + 1 := by
    rw [← shown_reply answer]
    simp
  have here : (numberedEntries entries)[offset + reply.length]? = some entry := by
    have found : (reply ++ [entry])[reply.length]? = some entry := by simp
    rw [whole, List.getElem?_take] at found
    split at found
    · rw [List.getElem?_drop] at found
      exact found
    · cases found
  unfold numberedEntries at here
  rw [List.getElem?_map, List.getElem?_zipIdx] at here
  obtain ⟨⟨row, index⟩, position, rfl⟩ := Option.map_eq_some_iff.mp here
  obtain ⟨_, _, same⟩ := Option.map_eq_some_iff.mp position
  unfold next
  rw [length]
  have := (Prod.mk.inj same).2
  dsimp only
  omega

theorem length_le_of_nothing (room : 0 < call.capacity)
    (answer : (readdir volume inode offset call.capacity call.mount).1 = .ok []) :
    (call.page volume inode).listing.length ≤ next offset (call.page volume inode) := by
  have nothing := shown_reply answer
  rw [List.map_nil] at nothing
  have length := congrArg List.length nothing
  unfold returned at length
  rw [List.length_nil, List.length_take, List.length_drop] at length
  have capacity : (call.page volume inode).capacity = call.capacity := rfl
  unfold next
  omega

theorem Enumeration.listed {calls : List ReadCall} {all : List DirEntry}
    (enumeration : Enumeration volume inode offset calls all) :
    ∀ call ∈ calls, ∃ entries, call.mount.database.directoryEntries volume inode = .ok entries := by
  induction enumeration with
  | last room answer =>
      intro other member
      obtain ⟨entries, listed, -⟩ := reply_eq answer
      rw [List.mem_singleton.mp member]
      exact ⟨entries, listed⟩
  | next room answer continued ih =>
      intro other member
      rcases List.mem_cons.mp member with rfl | later
      · obtain ⟨entries, listed, -⟩ := reply_eq answer
        exact ⟨entries, listed⟩
      · exact ih other later

theorem Enumeration.pages {calls : List ReadCall} {all : List DirEntry}
    (enumeration : Enumeration volume inode offset calls all) :
    all.map DirEntry.shown = collected offset (calls.map (ReadCall.page volume inode)) ∧
      ∃ front final, calls = front ++ [final] ∧
        (final.page volume inode).listing.length ≤
          finish offset (calls.map (ReadCall.page volume inode)) := by
  induction enumeration with
  | @last offset call room answer =>
      have nothing := shown_reply answer
      refine ⟨?_, [], call, rfl, ?_⟩
      · simp only [List.map_cons, List.map_nil, collected, List.append_nil]
        exact nothing
      · exact length_le_of_nothing room answer
  | @next offset call reply rest entry calls room answer continued ih =>
      obtain ⟨shown, front, final, rfl, ended⟩ := ih
      have position := offset_of_last answer
      rw [position] at shown ended
      refine ⟨?_, call :: front, final, rfl, ended⟩
      rw [List.map_append, shown_reply answer, shown]
      rfl

end Pages

/-! ### Entries that stay -/

/-- The entry `id` is a child of the directory by the columns of its row, under this name. -/
def Database.ChildOf (db : Database) (volume : Uuid) (inode : INodeNo) (id : NodeId) (name : Text) :
    Prop :=
  ∃ directory location, db.entryOf volume inode = .ok directory ∧
    db.locateZone volume directory.path = some location ∧
    ∃ row ∈ db.childRows volume location, row.id = id ∧ row.name = name ∧ row.path ≠ ['/']

section Staying

variable {db : Database} {volume : Uuid} {inode : INodeNo} {id : NodeId} {name : Text}

instance : Decidable (db.ChildOf volume inode id name) :=
  match answer : db.entryOf volume inode with
  | .error _ => .isFalse fun ⟨_, _, told, _⟩ => by
      rw [answer] at told
      cases told
  | .ok directory =>
      decidable_of_iff (∃ location ∈ db.locateZone volume directory.path,
        ∃ row ∈ db.childRows volume location, row.id = id ∧ row.name = name ∧ row.path ≠ ['/']) <| by
      constructor
      · intro ⟨location, located, row⟩
        exact ⟨directory, location, answer, located, row⟩
      · intro ⟨told, location, same, located, row⟩
        obtain rfl := Except.ok.inj (answer.symm.trans same)
        exact ⟨location, located, row⟩

theorem list_ok {target : Text} {rows : List NodeRow} (listed : db.list volume target = .ok rows) :
    ∃ location, db.locateZone volume target = some location ∧
      rows = (db.childRows volume location).insertionSort
        fun first second => collateC first.name second.name := by
  unfold Database.list at listed
  obtain ⟨path, accepted, locating⟩ := bind_eq_ok.mp listed
  obtain ⟨rfl, -⟩ := assertPath_eq_ok accepted
  obtain ⟨location, located, listing⟩ := bind_eq_ok.mp locating
  dsimp only at listing
  split at listing
  · cases listing
  · exact ⟨location, strict_eq_ok.mp located, (Except.ok.inj listing).symm⟩

/-- A child is shown once. -/
theorem shown_once (keys : Keys db) (child : db.ChildOf volume inode id name) (notDot : name ≠ ['.'])
    (notDots : name ≠ ['.', '.']) {entries : List (INodeNo × Kind × Text)}
    (listed : db.directoryEntries volume inode = .ok entries) :
    (db.shown volume inode).count (id + 2, name) = 1 := by
  obtain ⟨directory, location, answer, located, row, member, rfl, rfl, notRoot⟩ := child
  have shape := listed
  unfold Database.directoryEntries at shape
  rw [answer, ok_bind] at shape
  obtain ⟨rows, rowsOk, same⟩ := bind_eq_ok.mp shape
  obtain ⟨found, foundAt, rfl⟩ := list_ok rowsOk
  obtain rfl := Option.some.inj (located.symm.trans foundAt)
  unfold Database.shown
  rw [listed, ← Except.ok.inj same]
  simp only [List.map_cons, List.map_map]
  rw [List.count_cons_of_ne (by simpa using fun _ => notDot.symm),
    List.count_cons_of_ne (by simpa using fun _ => notDots.symm)]
  rw [((List.perm_insertionSort _ _).map _).count_eq, List.count, List.countP_map,
    List.countP_eq_length_filter]
  have number : inodeOf row.path row.id = row.id + 2 := if_neg notRoot
  rw [Library.Table.filter_eq_singleton (childRows_ids keys location) member]
  · rfl
  · simp [number]
  · intro other _ chosen
    have same : inodeOf other.path other.id = row.id + 2 :=
      (Prod.mk.inj (eq_of_beq chosen)).1
    rw [inodeOf_of_ne_root (same ▸ id_add_two_ne_root row.id)] at same
    exact Nat.add_right_cancel same

end Staying

/-- An entry that stays in the directory is returned once if the changes between the calls
move its position as often to the front over the offset as to the back. -/
theorem readdir_once_iff {volume : Uuid} {inode : INodeNo} {id : NodeId} {name : Text}
    (notDot : name ≠ ['.']) (notDots : name ≠ ['.', '.']) {calls : List ReadCall}
    {returned : List DirEntry} (enumeration : Enumeration volume inode 0 calls returned)
    (stays : ∀ call ∈ calls, Committed call.mount.database ∧
      call.mount.database.ChildOf volume inode id name) :
    (returned.map DirEntry.shown).count (id + 2, name) = 1 ↔
      skips (id + 2, name) 0 (calls.map (ReadCall.page volume inode)) =
        repeats (id + 2, name) 0 (calls.map (ReadCall.page volume inode)) := by
  have listed := enumeration.listed
  obtain ⟨shown, front, final, rfl, ended⟩ := enumeration.pages
  rw [shown]
  rw [List.map_append, List.map_singleton] at ended ⊢
  refine count_eq_one_iff ?_ ended
  intro page member
  rw [← List.map_singleton (f := ReadCall.page volume inode), ← List.map_append] at member
  obtain ⟨call, callMember, rfl⟩ := List.mem_map.mp member
  obtain ⟨committed, child⟩ := stays call callMember
  obtain ⟨entries, entriesOk⟩ := listed call callMember
  exact shown_once committed.sound.keys child notDot notDots entriesOk

def listingCalls : List Op :=
  [.createVolume 7 ['v'] 0, .writeFile 7 ['/', 'a'] [] 420 1, .writeFile 7 ['/', 'b'] [] 420 2]

def listingMount : Mount :=
  Mount.new (Database.empty.calls listingCalls)

/-- Between the calls `a` is removed, which the first one did not return; `b` slides to the
front, but not over the offset of the second call. -/
theorem readdir_once_iff_unchanged :
    let later := (FuseCall.unlink rootInode ['a']).run 7
      ((FuseCall.readdir rootInode 0 2).run 7 listingMount)
    ([⟨1, 1, .directory, ['.']⟩, ⟨1, 2, .directory, ['.', '.']⟩,
        ⟨5, 3, .file, ['b']⟩].map DirEntry.shown).count (5, ['b']) = 1 ↔
      skips (5, ['b']) 0 ([⟨listingMount, 2⟩, ⟨later, 2⟩, ⟨later, 2⟩].map
          (ReadCall.page 7 rootInode)) =
        repeats (5, ['b']) 0 ([⟨listingMount, 2⟩, ⟨later, 2⟩, ⟨later, 2⟩].map
          (ReadCall.page 7 rootInode)) := by
  intro later
  have coherent : Coherent 7 listingMount :=
    coherent_new 7 (committed_of_reachable (reachable_calls listingCalls))
  have kept : Coherent 7 later :=
    (FuseCall.unlink rootInode ['a']).coherent
      ((FuseCall.readdir rootInode 0 2).coherent coherent trivial) trivial
  have enumeration : Enumeration 7 rootInode 0 [⟨listingMount, 2⟩, ⟨later, 2⟩, ⟨later, 2⟩]
      ([⟨1, 1, .directory, ['.']⟩] ++ [⟨1, 2, .directory, ['.', '.']⟩] ++
        ([] ++ [⟨5, 3, .file, ['b']⟩] ++ [])) :=
    .next (by decide) (by decide +kernel)
      (.next (by decide) (by decide +kernel) (.last (by decide) (by decide +kernel)))
  refine @readdir_once_iff 7 rootInode 3 ['b'] (by decide) (by decide) _ _ enumeration ?_
  intro call member
  rcases List.mem_cons.mp member with rfl | second
  · exact ⟨coherent.committed, by decide +kernel⟩
  · obtain rfl : call = ⟨later, 2⟩ := by simpa using second
    exact ⟨kept.committed, by decide +kernel⟩

/-- After the first call the entry `a`, which it returned, is removed; `b` slides to the
front over the offset of the second call. -/
theorem readdir_skips :
    ¬ ∀ (volume : Uuid) (inode : INodeNo) (id : NodeId) (name : Text) (calls : List ReadCall)
      (returned : List DirEntry), Enumeration volume inode 0 calls returned →
      calls.IsChain (fun call later => Reachable call.mount (FuseStep volume) later.mount) →
      (∀ call ∈ calls, Committed call.mount.database ∧
        call.mount.database.ChildOf volume inode id name) →
      (returned.map DirEntry.shown).count (id + 2, name) = 1 := by
  intro every
  have reached : Reachable listingMount (FuseStep 7)
      ((FuseCall.unlink rootInode ['a']).run 7
        ((FuseCall.readdir rootInode 0 3).run 7 listingMount)) :=
    .next (.unlink rootInode ['a']) (.next (.readdir rootInode 0 3) .start rfl) rfl
  have coherent : Coherent 7 listingMount :=
    coherent_new 7 (committed_of_reachable (reachable_calls listingCalls))
  have enumeration : Enumeration 7 rootInode 0
      [⟨listingMount, 3⟩, ⟨(FuseCall.unlink rootInode ['a']).run 7
        ((FuseCall.readdir rootInode 0 3).run 7 listingMount), 3⟩]
      ([⟨1, 1, .directory, ['.']⟩, ⟨1, 2, .directory, ['.', '.']⟩] ++
        [⟨4, 3, .file, ['a']⟩] ++ []) :=
    .next (by decide) (by decide +kernel) (.last (by decide) (by decide +kernel))
  have once := every 7 rootInode 3 ['b'] _ _ enumeration (by simpa using reached) ?_
  · revert once
    decide
  · intro call member
    have cases : call = ⟨listingMount, 3⟩ ∨ call = ⟨(FuseCall.unlink rootInode ['a']).run 7
        ((FuseCall.readdir rootInode 0 3).run 7 listingMount), 3⟩ := by
      simpa using member
    cases cases with
    | inl first =>
        rw [first]
        exact ⟨coherent.committed, by decide +kernel⟩
    | inr second =>
        have kept : Coherent 7 ((FuseCall.unlink rootInode ['a']).run 7
            ((FuseCall.readdir rootInode 0 3).run 7 listingMount)) :=
          (FuseCall.unlink rootInode ['a']).coherent
            ((FuseCall.readdir rootInode 0 3).coherent coherent trivial) trivial
        rw [second]
        exact ⟨kept.committed, by decide +kernel⟩

end PostgreOS
