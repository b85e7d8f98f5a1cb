/-
What `pgos.mkdir` makes.

One call makes one directory at a free path in a directory. With `parents` it makes the
missing directories on the way to a path, from the root down.
-/

import PostgreOS.TreeInsertions
import PostgreOS.WriteSpec

namespace PostgreOS

open Library.Outcome Library.Segments Library.Table

/-- Directories at `paths` have been made where nothing was; the rest is as it was. -/
structure MadeDirectories (db after : Database) (volume : Uuid) (paths : List Text) : Prop where
  kinds : ∀ path, CanonicalPath path →
    after.kindOf volume path = if path ∈ paths then some .directory else db.kindOf volume path
  kept : ∀ node ∈ db.nodes volume, node ∈ after.nodes volume
  created : ∀ node ∈ after.nodes volume, node ∈ db.nodes volume ∨
    node.path ∈ paths ∧ db.kindOf volume node.path = none ∧ node.kind = .directory
  others : ∀ other, other ≠ volume → ∀ node, node ∈ after.nodes other ↔ node ∈ db.nodes other

section Mkdir

variable {db middle after : Database} {volume : Uuid} {path : Text} {mode : Int} {now : Timestamp}

theorem MadeDirectories.refl (db : Database) (volume : Uuid) : MadeDirectories db db volume [] where
  kinds _ _ := (if_neg List.not_mem_nil).symm
  kept _ member := member
  created _ member := Or.inl member
  others _ _ _ := Iff.rfl

theorem canonicalPath_of_mem_nodes (wellFormed : (db.tree volume).WellFormed) {node : Node}
    (member : node ∈ db.nodes volume) : CanonicalPath node.path := by
  obtain ⟨names, has, path⟩ := wellFormed.has_of_mem_nodes member
  rw [path]
  exact canonicalPath_pathText has.components

theorem MadeDirectories.trans {first second : List Text}
    (wellFormed : (after.tree volume).WellFormed) (made : MadeDirectories db middle volume first)
    (more : MadeDirectories middle after volume second) :
    MadeDirectories db after volume (first ++ second) where
  kinds path canonical := by
    rw [more.kinds path canonical, made.kinds path canonical]
    by_cases inFirst : path ∈ first
    · simp [inFirst]
    · simp [inFirst]
  kept node member := more.kept node (made.kept node member)
  created node member := by
    rcases more.created node member with old | ⟨inSecond, free, directory⟩
    · rcases made.created node old with older | ⟨inFirst, rest⟩
      · exact Or.inl older
      · exact Or.inr ⟨List.mem_append_left second inFirst, rest⟩
    · rw [made.kinds node.path (canonicalPath_of_mem_nodes wellFormed member)] at free
      split at free
      · cases free
      · exact Or.inr ⟨List.mem_append_right first inSecond, free, directory⟩
  others other different node :=
    (more.others other different node).trans (made.others other different node)

theorem kindOf_root (wellFormed : (db.tree volume).WellFormed) :
    db.kindOf volume ['/'] = some .directory := by
  obtain ⟨zone, member, path⟩ := wellFormed.root
  exact (kindOf_eq_some_iff wellFormed components_nil .directory).mpr
    (.zone ⟨member, components_nil, path⟩)

theorem nodes_mkdirOne_other {other : Uuid} (different : other ≠ volume)
    (done : db.mkdirOne volume path mode now = .ok after) (node : Node) :
    node ∈ after.nodes other ↔ node ∈ db.nodes other := by
  obtain ⟨-, rfl⟩ | ⟨location, -, inserted⟩ := mkdirOne_ok done
  · rfl
  · have tree := tree_insertEntries inserted other
    have all : ∀ entry ∈ numbered db.nextNode
        [directoryEntry volume location (nameOf path) mode now], entry.volumeId = volume := by
      intro entry member
      obtain ⟨make, makeMember, serial, -, -, rfl⟩ := mem_numbered member
      rw [List.mem_singleton.mp makeMember]
      rfl
    rw [filter_volume_of_other all different, List.append_nil] at tree
    unfold Database.nodes
    rw [(sameStore_insertEntries inserted).contentOf, tree]

theorem nodes_mkdirOne (sound : Sound db) (wellFormed : (db.tree volume).WellFormed)
    (below : path ≠ ['/']) (done : db.mkdirOne volume path mode now = .ok after) :
    db.kindOf volume path = none ∧ ∃ made : Node, made.path = path ∧ made.kind = .directory ∧
      ∀ node, node ∈ after.nodes volume ↔ node ∈ db.nodes volume ∨ node = made := by
  obtain ⟨root, -⟩ | ⟨location, vacant, inserted⟩ := mkdirOne_ok done
  · exact absurd root below
  · obtain ⟨zone, upper, rest, name, place, -⟩ := vacant.place wellFormed
    have inZone := congrArg Location.zoneId place.location_eq
    have added := mem_nodes_insertEntries sound.keys place.zoneAt.member (fun make member serial => by
      rw [List.mem_singleton.mp member]
      exact ⟨rfl, inZone⟩) inserted
    refine ⟨vacant.free, nodeOfEntry db.contentOf zone.path
      (directoryEntry volume location (nameOf path) mode now db.nextNode), ?_, rfl, ?_⟩
    · have relative : (directoryEntry volume location (nameOf path) mode now
          db.nextNode).relativePath = relativeText (rest ++ [name]) :=
        congrArg Location.relativePath place.child_eq
      rw [nodeOfEntry_path, relative, place.zoneAt.path,
        absolutePath_texts place.zoneAt.valid place.valid, ← place.path_eq]
    · intro node
      rw [added]
      simp [numbered]

/-- A call makes the directory at its path. -/
theorem mkdirOne_made (sound : Sound db) (wellFormed : (db.tree volume).WellFormed)
    (canonical : CanonicalPath path) (done : db.mkdirOne volume path mode now = .ok after) :
    MadeDirectories db after volume [path] := by
  by_cases root : path = ['/']
  · obtain rfl : after = db := by
      obtain ⟨-, same⟩ | ⟨location, vacant, -⟩ := mkdirOne_ok done
      · exact same
      · exact absurd root (ne_root_of_parent vacant.parent)
    refine ⟨fun other _ => ?_, fun _ member => member, fun _ member => Or.inl member,
      fun _ _ _ => Iff.rfl⟩
    split
    · rename_i member
      rw [List.mem_singleton.mp member, root]
      exact kindOf_root wellFormed
    · rfl
  · obtain ⟨free, made, made_path, directory, nodes⟩ := nodes_mkdirOne sound wellFormed root done
    have still := mkdirOne_wellFormed sound wellFormed done
    refine ⟨?_, ?_, ?_, fun other different => nodes_mkdirOne_other different done⟩
    · intro other otherCanonical
      ext kind
      rw [kindOf_eq_some_iff_names still otherCanonical]
      have names : after.Names volume other kind ↔
          db.Names volume other kind ∨ path = other ∧ .directory = kind := by
        unfold Database.Names
        simp only [nodes, or_and_right, exists_or, exists_eq_left, made_path, directory]
      rw [names, ← kindOf_eq_some_iff_names wellFormed otherCanonical]
      split
      · rename_i member
        obtain rfl := List.mem_singleton.mp member
        simp [free]
      · rename_i different
        have apart : path ≠ other := fun same => different (by simp [same])
        simp [apart]
    · exact fun node member => (nodes node).mpr (Or.inl member)
    · intro node member
      rcases (nodes node).mp member with old | rfl
      · exact Or.inl old
      · exact Or.inr ⟨by simp [made_path], by rw [made_path, free], directory⟩

theorem mkdirOne_exists_iff (keys : Keys db) (wellFormed : (db.tree volume).WellFormed)
    (canonical : CanonicalPath path) (below : path ≠ ['/']) (mode : Int) (now : Timestamp) :
    (∃ after, db.mkdirOne volume path mode now = .ok after) ↔
      db.kindOf volume path = none ∧ db.kindOfParent volume path = some .directory := by
  constructor
  · rintro ⟨after, done⟩
    obtain ⟨root, -⟩ | ⟨location, vacant, -⟩ := mkdirOne_ok done
    · exact absurd root below
    · exact ⟨vacant.free, vacant.parent⟩
  · rintro ⟨free, parent⟩
    obtain ⟨location, located⟩ := locateParent_isSome wellFormed canonical below
    obtain ⟨zone, upper, rest, name, place, empty⟩ :=
      Vacant.place wellFormed ⟨canonical, free, parent, located⟩
    unfold Database.mkdirOne
    rw [assertPath_of_canonical canonical, ok_bind, if_neg below, if_neg (not_not.mpr free),
      if_neg (not_not.mpr parent), located, strict, ok_bind]
    refine insertChild_ok keys wellFormed place ?_ fun _ => ⟨rfl, rfl, rfl, rfl, rfl, rfl⟩
    rw [Option.eq_none_iff_forall_ne_some]
    intro entry found
    exact empty entry.kind (.entry ((entryAt_child_iff wellFormed place).mp found))

/-! ### The loop -/

/-- The values of `current_path` in the loop. -/
def loopPaths : Text → List Text → List Text
  | _, [] => []
  | current, part :: rest => (current ++ '/' :: part) :: loopPaths (current ++ '/' :: part) rest

theorem mem_loopPaths_iff {front parts : List Text} :
    path ∈ loopPaths (render '/' front) parts ↔
      ∃ inner, inner ≠ [] ∧ inner <+: parts ∧ path = pathText (front ++ inner) := by
  induction parts generalizing front with
  | nil =>
      constructor
      · intro member
        cases member
      · rintro ⟨inner, nonempty, isPrefix, -⟩
        exact absurd (List.prefix_nil.mp isPrefix) nonempty
  | cons part rest ih =>
      have step : render '/' front ++ '/' :: part = render '/' (front ++ [part]) := by
        rw [render_append]
        simp
      rw [loopPaths, List.mem_cons, step, ih]
      constructor
      · rintro (rfl | ⟨inner, nonempty, isPrefix, rfl⟩)
        · exact ⟨[part], by simp, by simp, (pathText_of_ne_nil (by simp)).symm⟩
        · refine ⟨part :: inner, by simp, List.cons_prefix_cons.mpr ⟨rfl, isPrefix⟩, ?_⟩
          rw [List.append_assoc, List.singleton_append]
      · rintro ⟨inner, nonempty, isPrefix, rfl⟩
        cases inner with
        | nil => exact absurd rfl nonempty
        | cons head inner =>
            obtain ⟨rfl, later⟩ := List.cons_prefix_cons.mp isPrefix
            by_cases empty : inner = []
            · subst empty
              exact Or.inl (pathText_of_ne_nil (by simp))
            · refine Or.inr ⟨inner, empty, later, ?_⟩
              rw [List.append_assoc, List.singleton_append]

theorem mem_ancestorPaths_loop {names : List Text} (valid : Components names) :
    path ∈ ancestorPaths (pathText names) ↔ path = ['/'] ∨ path ∈ loopPaths [] names := by
  have inner := @mem_loopPaths_iff path [] names
  rw [render_nil] at inner
  rw [inner, mem_ancestorPaths_iff valid]
  constructor
  · rintro ⟨front, isPrefix, rfl⟩
    by_cases root : front = []
    · exact Or.inl (by rw [root, pathText_nil])
    · exact Or.inr ⟨front, root, isPrefix, rfl⟩
  · rintro (rfl | ⟨front, -, isPrefix, rfl⟩)
    · exact ⟨[], List.nil_prefix, rfl⟩
    · exact ⟨front, isPrefix, rfl⟩

/-- One round of the loop. -/
def mkdirRound (volume : Uuid) (mode : Int) (now : Timestamp) (currentPath : Text) (db : Database) :
    Result Database :=
  match db.kindOf volume currentPath with
  | none => db.mkdirOne volume currentPath mode now
  | some .directory => .ok db
  | some _ => raise "42809" "not a directory: %" [currentPath]

theorem mkdirParents_cons (part : Text) (rest : List Text) (current : Text) :
    mkdirParents volume mode now (part :: rest) current db =
      mkdirRound volume mode now (current ++ '/' :: part) db >>=
        mkdirParents volume mode now rest (current ++ '/' :: part) := by
  rw [mkdirParents, mkdirRound]
  cases db.kindOf volume (current ++ '/' :: part) with
  | none => rfl
  | some kind =>
      cases kind with
      | directory => rfl
      | file => rfl
      | symlink => rfl

section Round

variable (sound : Sound db) (wellFormed : (db.tree volume).WellFormed)

include sound wellFormed

theorem mkdirRound_made (canonical : CanonicalPath path)
    (done : mkdirRound volume mode now path db = .ok after) :
    MadeDirectories db after volume [path] ∧ Sound after ∧ (after.tree volume).WellFormed := by
  unfold mkdirRound at done
  split at done
  · exact ⟨mkdirOne_made sound wellFormed canonical done, (mkdirOne_kept (.refl sound) done).sound,
      mkdirOne_wellFormed sound wellFormed done⟩
  · rename_i directory
    obtain rfl := Except.ok.inj done
    refine ⟨⟨fun other _ => ?_, fun _ member => member, fun _ member => Or.inl member,
      fun _ _ _ => Iff.rfl⟩, sound, wellFormed⟩
    split
    · rename_i member
      rw [List.mem_singleton.mp member, directory]
    · rfl
  · cases done

theorem mkdirRound_exists_iff (canonical : CanonicalPath path) (below : path ≠ ['/'])
    (parent : db.kindOfParent volume path = some .directory) (mode : Int) (now : Timestamp) :
    (∃ after, mkdirRound volume mode now path db = .ok after) ↔
      ∀ kind, db.kindOf volume path = some kind → kind = .directory := by
  unfold mkdirRound
  cases found : db.kindOf volume path with
  | none =>
      have made := (mkdirOne_exists_iff sound.keys wellFormed canonical below mode now).mpr
        ⟨found, parent⟩
      exact iff_of_true made nofun
  | some kind =>
      cases kind with
      | directory => exact iff_of_true ⟨db, rfl⟩ (by simp)
      | file => exact iff_of_false (by rintro ⟨after, impossible⟩; cases impossible) (by simp)
      | symlink => exact iff_of_false (by rintro ⟨after, impossible⟩; cases impossible) (by simp)

end Round

theorem render_concat (front : List Text) (part : Text) :
    render '/' front ++ '/' :: part = render '/' (front ++ [part]) := by
  rw [render_append]
  simp

theorem components_step {front rest : List Text} {part : Text}
    (valid : Components (front ++ part :: rest)) :
    Components ((front ++ [part]) ++ rest) ∧ CanonicalPath (render '/' (front ++ [part])) ∧
      render '/' (front ++ [part]) ≠ ['/'] := by
  rw [List.append_cons] at valid
  have nonempty : front ++ [part] ≠ [] := by simp
  rw [← pathText_of_ne_nil nonempty]
  exact ⟨valid, canonicalPath_pathText valid.left, pathText_ne_root valid.left nonempty⟩

theorem mkdirParents_made {front parts : List Text} (valid : Components (front ++ parts))
    (sound : Sound db) (wellFormed : (db.tree volume).WellFormed)
    (done : mkdirParents volume mode now parts (render '/' front) db = .ok after) :
    MadeDirectories db after volume (loopPaths (render '/' front) parts) ∧
      (after.tree volume).WellFormed := by
  induction parts generalizing front db with
  | nil =>
      obtain rfl := Except.ok.inj done
      exact ⟨.refl db volume, wellFormed⟩
  | cons part rest ih =>
      obtain ⟨later, canonical, -⟩ := components_step valid
      rw [mkdirParents_cons, bind_eq_ok, render_concat] at done
      obtain ⟨middle, round, remaining⟩ := done
      obtain ⟨made, middleSound, middleTree⟩ := mkdirRound_made sound wellFormed canonical round
      obtain ⟨more, afterTree⟩ := ih later middleSound middleTree remaining
      rw [loopPaths, render_concat]
      exact ⟨made.trans afterTree more, afterTree⟩

/-- The loop fails exactly where it meets something that is not a directory. -/
theorem mkdirParents_exists_iff {front parts : List Text} (valid : Components (front ++ parts))
    (sound : Sound db) (wellFormed : (db.tree volume).WellFormed)
    (parent : db.kindOf volume (pathText front) = some .directory) (mode : Int)
    (now : Timestamp) :
    (∃ after, mkdirParents volume mode now parts (render '/' front) db = .ok after) ↔
      ∀ path ∈ loopPaths (render '/' front) parts, ∀ kind,
        db.kindOf volume path = some kind → kind = .directory := by
  induction parts generalizing front db with
  | nil => exact iff_of_true ⟨db, rfl⟩ (fun _ member => absurd member List.not_mem_nil)
  | cons part rest ih =>
      obtain ⟨later, canonical, below⟩ := components_step valid
      have above : db.kindOfParent volume (render '/' (front ++ [part])) = some .directory := by
        rw [← pathText_of_ne_nil (by simp), Database.kindOfParent,
          parentOf_pathText later.left]
        exact parent
      have first := mkdirRound_exists_iff sound wellFormed canonical below above mode now
      -- What the first round leaves is as before, apart from its own path.
      have next {middle : Database}
          (round : mkdirRound volume mode now (render '/' (front ++ [part])) db = .ok middle) :
          (∃ after, mkdirParents volume mode now rest (render '/' (front ++ [part])) middle =
              .ok after) ↔
            ∀ path ∈ loopPaths (render '/' (front ++ [part])) rest, ∀ kind,
              path ≠ render '/' (front ++ [part]) → db.kindOf volume path = some kind →
                kind = .directory := by
        obtain ⟨made, middleSound, middleTree⟩ := mkdirRound_made sound wellFormed canonical round
        have here : middle.kindOf volume (pathText (front ++ [part])) = some .directory := by
          rw [pathText_of_ne_nil (by simp), made.kinds _ canonical, if_pos (by simp)]
        rw [ih later middleSound middleTree here]
        refine forall_congr' fun path => forall_congr' fun member => forall_congr' fun kind => ?_
        obtain ⟨inner, -, isPrefix, rfl⟩ := mem_loopPaths_iff.mp member
        have valid : Components (front ++ [part] ++ inner) :=
          later.of_prefix ((List.prefix_append_right_inj _).mpr isPrefix)
        rw [made.kinds _ (canonicalPath_pathText valid)]
        split
        · rename_i same
          constructor
          · exact fun _ different => absurd (List.mem_singleton.mp same) different
          · exact fun _ known => (Option.some.inj known).symm
        · rename_i different
          constructor
          · exact fun given _ found => given found
          · exact fun given => given fun same => different (List.mem_singleton.mpr same)
      rw [mkdirParents_cons, render_concat, loopPaths, render_concat]
      simp only [bind_eq_ok, List.forall_mem_cons]
      constructor
      · rintro ⟨after, middle, round, remaining⟩
        have head := first.mp ⟨middle, round⟩
        refine ⟨head, fun path member kind found => ?_⟩
        by_cases same : path = render '/' (front ++ [part])
        · exact head kind (same ▸ found)
        · exact (next round).mp ⟨after, remaining⟩ path member kind same found
      · rintro ⟨head, tail⟩
        obtain ⟨middle, round⟩ := first.mpr head
        obtain ⟨after, remaining⟩ := (next round).mpr fun path member kind _ => tail path member kind
        exact ⟨after, middle, round, remaining⟩

theorem mkdirParents_idle {current : Text} {parts : List Text}
    (directories : ∀ path ∈ loopPaths current parts, db.kindOf volume path = some .directory)
    (mode : Int) (now : Timestamp) :
    mkdirParents volume mode now parts current db = .ok db := by
  induction parts generalizing current with
  | nil => rfl
  | cons part rest ih =>
      rw [loopPaths, List.forall_mem_cons] at directories
      rw [mkdirParents_cons, mkdirRound, directories.1, ok_bind]
      exact ih directories.2

theorem mkdir_parents_eq {names : List Text} (valid : Components names) (mode : Int)
    (now : Timestamp) :
    db.mkdir volume (pathText names) true mode now =
      mkdirParents volume mode now names [] db := by
  unfold Database.mkdir
  rw [assertPath_of_canonical (canonicalPath_pathText valid), ok_bind]
  by_cases root : names = []
  · rw [root]
    rfl
  · rw [if_neg (pathText_ne_root valid root), if_pos rfl, trimLeading_pathText valid,
      splitOn_relativeText valid root]

theorem kindOf_eq_none_iff_nodes (wellFormed : (db.tree volume).WellFormed)
    (canonical : CanonicalPath path) :
    db.kindOf volume path = none ↔ ∀ node ∈ db.nodes volume, node.path ≠ path := by
  rw [Option.eq_none_iff_forall_ne_some]
  simp only [Ne, kindOf_eq_some_iff_names wellFormed canonical]
  constructor
  · exact fun none node member same => none node.kind ⟨node, member, same, rfl⟩
  · rintro none kind ⟨node, member, same, -⟩
    exact none node member same

/-- Nothing stands in the way of the loop unless some ancestor is no directory. -/
theorem obstructed_iff (wellFormed : (db.tree volume).WellFormed) {names : List Text}
    (valid : Components names) :
    (∀ path ∈ loopPaths [] names, ∀ kind, db.kindOf volume path = some kind → kind = .directory) ↔
      ¬ ∃ node ∈ db.nodes volume, node.path ∈ ancestorPaths (pathText names) ∧
        node.kind ≠ .directory := by
  push Not
  constructor
  · intro clear node member above
    have canonical := canonicalPath_of_mem_nodes wellFormed member
    have found := (kindOf_eq_some_iff_names wellFormed canonical node.kind).mpr
      ⟨node, member, rfl, rfl⟩
    rcases (mem_ancestorPaths_loop valid).mp above with root | inLoop
    · rw [root, kindOf_root wellFormed] at found
      exact (Option.some.inj found).symm
    · exact clear node.path inLoop node.kind found
  · intro clear path inLoop kind found
    obtain ⟨inner, -, isPrefix, rfl⟩ := (@mem_loopPaths_iff path [] names).mp inLoop
    have canonical := canonicalPath_pathText (valid.of_prefix isPrefix)
    obtain ⟨node, member, same, rfl⟩ :=
      (kindOf_eq_some_iff_names wellFormed canonical kind).mp found
    apply clear node member
    rw [same]
    exact (mem_ancestorPaths_loop valid).mpr (Or.inr inLoop)

/-- `mkdir` with `parents` fails on an ancestor that is no directory; otherwise it makes the
missing ancestors and nothing else, and a second call finds nothing to do. -/
theorem mkdir_parents_exact (state : WellFormedVolume db volume) (canonical : CanonicalPath path)
    (mode : Int) (now : Timestamp) :
    ((∃ error, db.mkdir volume path true mode now = .error error) ↔
      ∃ node ∈ db.nodes volume, node.path ∈ ancestorPaths path ∧ node.kind ≠ .directory) ∧
    (∀ error, db.mkdir volume path true mode now = .error error →
      transact db (db.mkdir volume path true mode now) = db) ∧
    ∀ after, db.mkdir volume path true mode now = .ok after →
      (∀ above ∈ ancestorPaths path, after.Names volume above .directory) ∧
      (∀ node ∈ db.nodes volume, node ∈ after.nodes volume) ∧
      (∀ node ∈ after.nodes volume, node ∉ db.nodes volume →
        node.path ∈ ancestorPaths path ∧ node.kind = .directory ∧
          ∀ old ∈ db.nodes volume, old.path ≠ node.path) ∧
      (∀ other, other ≠ volume → ∀ node, node ∈ after.nodes other ↔ node ∈ db.nodes other) ∧
      ∀ laterMode later, after.mkdir volume path true laterMode later = .ok after := by
  have wellFormed := state.tree
  have sound := state.committed.sound
  obtain ⟨names, valid, rfl⟩ := (canonicalPath_iff path).mp canonical
  have rooted : Components ([] ++ names) := valid
  refine ⟨?_, ?_, ?_⟩
  · rw [exists_error_iff, mkdir_parents_eq valid]
    rw [← render_nil '/', mkdirParents_exists_iff rooted sound wellFormed (kindOf_root wellFormed),
      render_nil, obstructed_iff wellFormed valid, not_not]
  · intro error failed
    rw [failed]
    rfl
  · intro after done
    rw [mkdir_parents_eq valid, ← render_nil '/'] at done
    obtain ⟨made, still⟩ := mkdirParents_made rooted sound wellFormed done
    rw [render_nil] at made
    have directory {above : Text} (member : above ∈ ancestorPaths (pathText names)) :
        CanonicalPath above ∧ after.kindOf volume above = some .directory := by
      obtain ⟨front, isPrefix, rfl⟩ := (mem_ancestorPaths_iff valid above).mp member
      have aboveCanonical := canonicalPath_pathText (valid.of_prefix isPrefix)
      refine ⟨aboveCanonical, ?_⟩
      rcases (mem_ancestorPaths_loop valid).mp member with root | inLoop
      · rw [root]
        exact kindOf_root still
      · rw [made.kinds _ aboveCanonical, if_pos inLoop]
    refine ⟨?_, made.kept, ?_, made.others, ?_⟩
    · intro above member
      obtain ⟨aboveCanonical, found⟩ := directory member
      exact (kindOf_eq_some_iff_names still aboveCanonical .directory).mp found
    · intro node member new
      obtain ⟨inLoop, free, kind⟩ := (made.created node member).resolve_left new
      exact ⟨(mem_ancestorPaths_loop valid).mpr (Or.inr inLoop), kind,
        (kindOf_eq_none_iff_nodes wellFormed (canonicalPath_of_mem_nodes still member)).mp free⟩
    · intro laterMode later
      rw [mkdir_parents_eq valid]
      exact mkdirParents_idle (fun path inLoop =>
        (directory ((mem_ancestorPaths_loop valid).mpr (Or.inr inLoop))).2) laterMode later

end Mkdir

/-- Two directories are made in a zone. -/
theorem mkdir_parents_exact_zone :
    ∃ after, (Database.empty.calls zoneCalls).mkdir 7 ['/', 'z', '/', 'a', '/', 'b'] true 493 3 =
        .ok after ∧
      after.Names 7 ['/', 'z', '/', 'a'] .directory ∧
      after.mkdir 7 ['/', 'z', '/', 'a', '/', 'b'] true 448 4 = .ok after := by
  have canonical : CanonicalPath ['/', 'z', '/', 'a', '/', 'b'] := by decide
  obtain ⟨-, -, made⟩ :=
    mkdir_parents_exact (wellFormed_calls (by decide +kernel) :
      WellFormedVolume (Database.empty.calls zoneCalls) 7) canonical 493 3
  cases done : (Database.empty.calls zoneCalls).mkdir 7 ['/', 'z', '/', 'a', '/', 'b'] true 493 3 with
  | error error =>
      have succeeds : ((Database.empty.calls zoneCalls).mkdir 7
        ['/', 'z', '/', 'a', '/', 'b'] true 493 3).toOption.isSome := by decide +kernel
      rw [done] at succeeds
      cases succeeds
  | ok after =>
      obtain ⟨directories, -, -, -, again⟩ := made after done
      exact ⟨after, rfl, directories _ (by decide), again 448 4⟩

end PostgreOS
