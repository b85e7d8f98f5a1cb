/-
What `pgos.copy` copies.

A recursive copy is meant to repeat every node at and below its source at the same place
at or below its destination. It does so exactly where the rows that its pattern selects
look like the nodes below the source.
-/

import PostgreOS.Removal

namespace PostgreOS

open Library.Table

def SameData (copy node : Node) : Prop :=
  copy.kind = node.kind ∧ copy.mode = node.mode ∧ copy.uid = node.uid ∧ copy.gid = node.gid ∧
    copy.size = node.size ∧ copy.content = node.content

instance (copy node : Node) : Decidable (SameData copy node) :=
  inferInstanceAs (Decidable (_ ∧ _))

theorem SameData.symm {first second : Node} (same : SameData first second) :
    SameData second first :=
  ⟨same.1.symm, same.2.1.symm, same.2.2.1.symm, same.2.2.2.1.symm, same.2.2.2.2.1.symm,
    same.2.2.2.2.2.symm⟩

theorem SameData.trans {first second third : Node} (same : SameData first second)
    (next : SameData second third) : SameData first third :=
  ⟨same.1.trans next.1, same.2.1.trans next.2.1, same.2.2.1.trans next.2.2.1,
    same.2.2.2.1.trans next.2.2.2.1, same.2.2.2.2.1.trans next.2.2.2.2.1,
    same.2.2.2.2.2.trans next.2.2.2.2.2⟩

/-- The nodes at and below `source` are repeated at and below `destination`, the others are
as they were, and the count is the number of new nodes. -/
structure CopiedExactly (db after : Database) (volume : Uuid) (source destination : Text)
    (count : Nat) : Prop where
  rejected : ¬ Below source destination
  copies : ∀ node ∈ db.nodes volume, ∀ suffix, node.path = source ++ suffix →
    AtOrBelow source node.path →
      ∃ copy ∈ after.nodes volume, copy.path = destination ++ suffix ∧ SameData copy node
  only : ∀ copy ∈ after.nodes volume, AtOrBelow destination copy.path →
    ∃ node ∈ db.nodes volume, ∃ suffix, AtOrBelow source node.path ∧
      node.path = source ++ suffix ∧ copy.path = destination ++ suffix ∧ SameData copy node
  others : ∀ node, ¬ AtOrBelow destination node.path →
    (node ∈ after.nodes volume ↔ node ∈ db.nodes volume)
  count : (after.nodes volume).length = (db.nodes volume).length + count

/-- `copy` repeats `node` below another path. -/
def CopyOf (source destination : Text) (node copy : Node) : Prop :=
  ∃ suffix, (suffix = [] ∨ ['/'] <+: suffix) ∧ node.path = source ++ suffix ∧
    copy.path = destination ++ suffix ∧ SameData copy node

section CopiedNodes

variable {db after : Database} {volume : Uuid} {source destination : Text} {count : Nat}
  {added : List Node}

/-- Where a copy adds nodes below a free path, it is exact if the added nodes are the copies
of the nodes at and below the source. -/
theorem copiedExactly_iff
    (members : ∀ node, node ∈ after.nodes volume ↔ node ∈ db.nodes volume ∨ node ∈ added)
    (free : ∀ node ∈ db.nodes volume, ¬ AtOrBelow destination node.path)
    (fresh : ∀ node ∈ added, node ∉ db.nodes volume)
    (counted : (after.nodes volume).length = (db.nodes volume).length + count) :
    CopiedExactly db after volume source destination count ↔
      ¬ Below source destination ∧
        (∀ node ∈ db.nodes volume, AtOrBelow source node.path →
          ∃ copy ∈ added, CopyOf source destination node copy) ∧
        ∀ copy ∈ added, ∃ node ∈ db.nodes volume, CopyOf source destination node copy := by
  constructor
  · intro exactly
    refine ⟨exactly.rejected, ?_, ?_⟩
    · intro node member below
      obtain ⟨suffix, boundary, path⟩ := below.suffix
      obtain ⟨copy, copyMember, copyPath, same⟩ := exactly.copies node member suffix path below
      rcases (members copy).mp copyMember with old | new
      · refine absurd ?_ (free copy old)
        rw [copyPath]
        exact atOrBelow_append_iff.mpr boundary
      · exact ⟨copy, new, suffix, boundary, path, copyPath, same⟩
    · intro copy member
      by_cases below : AtOrBelow destination copy.path
      · obtain ⟨node, nodeMember, suffix, atSource, path, copyPath, same⟩ :=
          exactly.only copy ((members copy).mpr (Or.inr member)) below
        rw [path] at atSource
        exact ⟨node, nodeMember, suffix, atOrBelow_append_iff.mp atSource, path, copyPath, same⟩
      · exact absurd ((exactly.others copy below).mp ((members copy).mpr (Or.inr member)))
          (fresh copy member)
  · intro exactly
    obtain ⟨rejected, forth, back⟩ := exactly
    constructor
    · exact rejected
    · intro node member suffix path below
      obtain ⟨copy, copyMember, other, -, otherPath, copyPath, same⟩ := forth node member below
      rw [path] at otherPath
      rw [← List.append_cancel_left otherPath] at copyPath
      exact ⟨copy, (members copy).mpr (Or.inr copyMember), copyPath, same⟩
    · intro copy member below
      rcases (members copy).mp member with old | new
      · exact absurd below (free copy old)
      · obtain ⟨node, nodeMember, suffix, boundary, path, copyPath, same⟩ := back copy new
        refine ⟨node, nodeMember, suffix, ?_, path, copyPath, same⟩
        rw [path]
        exact atOrBelow_append_iff.mpr boundary
    · intro node outside
      rw [members]
      constructor
      · intro member
        rcases member with old | new
        · exact old
        · obtain ⟨-, -, suffix, boundary, -, copyPath, -⟩ := back node new
          rw [copyPath] at outside
          exact absurd (atOrBelow_append_iff.mpr boundary) outside
      · exact Or.inl
    · exact counted

end CopiedNodes

/-- The rows that the pattern of the copy selects look like the nodes below the source. -/
def CopyFollows (db : Database) (volume : Uuid) (source : Text) (location : Location) : Prop :=
  (∀ node ∈ db.nodes volume, Below source node.path →
    ∃ entry ∈ (db.tree volume).entries, entry.zoneId = location.zoneId ∧
      likeBelow location.relativePath entry.relativePath = true ∧
      entry.relativePath.drop location.relativePath.length = node.path.drop source.length ∧
      SameData (nodeOfEntry db.contentOf location.zonePath entry) node) ∧
  ∀ entry ∈ (db.tree volume).entries, entry.zoneId = location.zoneId →
    likeBelow location.relativePath entry.relativePath = true →
      ∃ node ∈ db.nodes volume, AtOrBelow source node.path ∧
        entry.relativePath.drop location.relativePath.length = node.path.drop source.length ∧
        SameData (nodeOfEntry db.contentOf location.zonePath entry) node

instance (db : Database) (volume : Uuid) (source : Text) (location : Location) :
    Decidable (CopyFollows db volume source location) :=
  inferInstanceAs (Decidable ((∀ node ∈ db.nodes volume, _) ∧
    ∀ entry ∈ (db.tree volume).entries, _))

/-- The destination is outside the source, no zone lies below a source that is a zone, and
the rows selected for a source that is an entry look like the nodes below it. -/
def CopyExact (db : Database) (volume : Uuid) (source destination : Text) (location : Location) :
    Prop :=
  ¬ Below source destination ∧
    (location.relativePath = [] → ∀ zone ∈ (db.tree volume).zones, ¬ Below source zone.path) ∧
    (location.relativePath ≠ [] → CopyFollows db volume source location)

instance (db : Database) (volume : Uuid) (source destination : Text) (location : Location) :
    Decidable (CopyExact db volume source destination location) :=
  inferInstanceAs (Decidable (_ ∧ _ ∧ _))

section Copy

variable {db after : Database} {volume : Uuid} {names front inner : List Text} {zone : ZoneNode}
  {destination : Text} {location parent : Location} {now : Timestamp} {count : Nat}

theorem Vacant.free_nodes (vacant : Vacant db volume destination parent)
    (wellFormed : (db.tree volume).WellFormed) :
    ∀ node ∈ db.nodes volume, ¬ AtOrBelow destination node.path := by
  intro node member below
  obtain ⟨owner, upper, rest, name, place, free⟩ := vacant.place wellFormed
  obtain ⟨others, has, path⟩ := wellFormed.has_of_mem_nodes member
  rw [path, place.path_eq, atOrBelow_pathText_iff place.components has.components (by simp)] at below
  obtain ⟨extra, rfl⟩ := below
  exact wellFormed.free_below free extra node.kind has

theorem Target.entryAt_of_entryAt (at_ : Target db volume names zone front inner location)
    (isEntry : location.relativePath ≠ []) {entry : ZoneEntry}
    (found : db.entryAt volume location = some entry) :
    (db.tree volume).EntryAt zone entry front inner := by
  obtain ⟨member, inZone, path⟩ := mem_of_entryAt found
  rw [at_.location_eq] at inZone path
  exact ⟨at_.located.zoneAt, member, inZone, at_.located.components at_.valid,
    fun empty => isEntry (at_.relativePath_eq_nil_iff.mpr empty), path⟩

theorem Tree.EntryAt.node_eq {tree : Tree} (wellFormed : tree.WellFormed)
    {content : ZoneEntry → Option Bytes} {owner : ZoneNode} {entry : ZoneEntry}
    {upper rest : List Text} (found : tree.EntryAt owner entry upper rest) {node : Node}
    (member : node ∈ tree.nodes content) (path : node.path = pathText (upper ++ rest)) :
    node = nodeOfEntry content owner.path entry := by
  obtain ⟨other, otherMember, rfl⟩ | ⟨other, otherMember, holder, holderMember, inHolder, rfl⟩ :=
    Tree.mem_nodes.mp member
  · obtain ⟨others, otherAt⟩ := wellFormed.zoneAt_of_mem otherMember
    rw [nodeOfZone_path, otherAt.path] at path
    exact absurd (pathText_injective otherAt.valid found.components path)
      (wellFormed.not_zoneAt_of_entryAt found otherAt)
  · obtain ⟨holding, above, within, otherAt⟩ := wellFormed.entryAt_of_mem otherMember
    have sameHolder := wellFormed.zone_ids holding otherAt.zoneAt.member holder holderMember
      (otherAt.inZone.symm.trans inHolder.symm)
    subst sameHolder
    rw [nodeOfEntry_path, otherAt.absolutePath_eq] at path
    obtain ⟨rfl, rfl, -, -⟩ := wellFormed.entryAt_unique otherAt found
      (pathText_injective otherAt.components found.components path)
    rfl

/-! ### A source that is an entry -/

/-- A copy shows what its original shows, its times included. -/
structure Repeats (copy node : Node) : Prop where
  data : SameData copy node
  linkTarget : copy.linkTarget = node.linkTarget
  atime : copy.atime = node.atime
  mtime : copy.mtime = node.mtime

/-- `copy` repeats `node` below another path, its times included. -/
def RepeatOf (source destination : Text) (node copy : Node) : Prop :=
  ∃ suffix, (suffix = [] ∨ ['/'] <+: suffix) ∧ node.path = source ++ suffix ∧
    copy.path = destination ++ suffix ∧ Repeats copy node

theorem RepeatOf.copyOf {source destination : Text} {node copy : Node}
    (repeated : RepeatOf source destination node copy) : CopyOf source destination node copy := by
  obtain ⟨suffix, boundary, path, copyPath, same⟩ := repeated
  exact ⟨suffix, boundary, path, copyPath, same.data⟩

/-- The nodes of the rows that a copied entry gets in the zone `owner`. -/
def Database.copiedNodes (db : Database) (volume : Uuid) (owner : ZoneNode)
    (location parent : Location) (destination : Text) (recursive : Bool) (now : Timestamp) :
    List Node :=
  (numbered db.nextNode
    (db.copiedRows volume location parent (nameOf destination) recursive now)).map
    (nodeOfEntry db.contentOf owner.path)

/-- The node of a copied row. -/
structure CopiesRow (db : Database) (location : Location) (destination : Text) (entry : ZoneEntry)
    (copy : Node) : Prop where
  path : copy.path = destination ++ entry.relativePath.drop location.relativePath.length
  repeats : Repeats copy (nodeOfEntry db.contentOf location.zonePath entry)
  fresh : db.nextNode ≤ copy.id

section CopiedRows

variable {owner : ZoneNode} {upper rest : List Text} {name : Text} {recursive : Bool}
  {entry : ZoneEntry} {copy : Node}
  (place : (db.tree volume).Place destination parent owner upper rest name)

include place

theorem copiesRow_copiedEntry {serial : NodeId} (later : db.nextNode ≤ serial) :
    CopiesRow db location destination entry (nodeOfEntry db.contentOf owner.path
      (copiedEntry volume parent location.relativePath
        (parent.child (nameOf destination)).relativePath (nameOf destination) now entry serial)) := by
  have content : db.contentOf (copiedEntry volume parent location.relativePath
      (parent.child (nameOf destination)).relativePath (nameOf destination) now entry serial) =
        db.contentOf entry := contentOf_of_payload db rfl
  refine ⟨?_, ⟨⟨rfl, rfl, rfl, rfl, rfl, content⟩, rfl, rfl, rfl⟩, later⟩
  have child := congrArg Location.relativePath place.child_eq
  have whole : absolutePath owner.path (relativeText (rest ++ [name])) = destination := by
    rw [place.zoneAt.path, absolutePath_texts place.zoneAt.valid place.valid, place.path_eq]
  rw [nodeOfEntry_path]
  change absolutePath owner.path (rebasedRelative _ _ _) = _
  unfold rebasedRelative substr
  rw [child, absolutePath_append (relativeText_ne_nil place.valid (by simp)), whole,
    Nat.add_sub_cancel]

theorem mem_copiedNodes
    (member : copy ∈ db.copiedNodes volume owner location parent destination recursive now) :
    ∃ entry ∈ (db.tree volume).entries,
      subtreeRow volume location.zoneId location.relativePath recursive entry = true ∧
        CopiesRow db location destination entry copy := by
  obtain ⟨row, rowMember, rfl⟩ := List.mem_map.mp member
  obtain ⟨make, makeMember, serial, later, -, rfl⟩ := mem_numbered rowMember
  obtain ⟨entry, entryMember, rfl⟩ := List.mem_map.mp makeMember
  obtain ⟨inTable, chosen⟩ := List.mem_filter.mp entryMember
  exact ⟨entry, mem_tree_entries.mpr ⟨inTable, (of_decide_eq_true chosen).1⟩, chosen,
    copiesRow_copiedEntry place later⟩

theorem exists_copiedNode (now : Timestamp) (member : entry ∈ (db.tree volume).entries)
    (chosen : subtreeRow volume location.zoneId location.relativePath recursive entry = true) :
    ∃ copy ∈ db.copiedNodes volume owner location parent destination recursive now,
      CopiesRow db location destination entry copy := by
  obtain ⟨serial, later, arrived⟩ := exists_mem_numbered db.nextNode (List.mem_map_of_mem
    (f := copiedEntry volume parent location.relativePath
      (parent.child (nameOf destination)).relativePath (nameOf destination) now)
    (List.mem_filter.mpr ⟨(mem_tree_entries.mp member).1, chosen⟩))
  exact ⟨_, List.mem_map_of_mem arrived, copiesRow_copiedEntry place later⟩

end CopiedRows

theorem subtreeRow_recursive_iff {relative : Text} {zoneId : NodeId} {entry : ZoneEntry}
    (member : entry ∈ (db.tree volume).entries) :
    subtreeRow volume zoneId relative true entry = true ↔ entry.zoneId = zoneId ∧
      (entry.relativePath = relative ∨ likeBelow relative entry.relativePath = true) := by
  unfold subtreeRow
  rw [decide_eq_true_eq, and_iff_right (mem_tree_entries.mp member).2]
  simp only [true_and]

section EntryBranch

variable (at_ : Target db volume names zone front inner location)
  (isEntry : location.relativePath ≠ [])
  {owner : ZoneNode} {upper rest : List Text} {name : Text} {source : ZoneEntry}
  (sourceAt : (db.tree volume).EntryAt zone source front inner)
  (place : (db.tree volume).Place destination parent owner upper rest name)

include at_ sourceAt place

omit place in
theorem Target.source_selected (recursive : Bool) :
    source.relativePath = location.relativePath ∧
      subtreeRow volume location.zoneId location.relativePath recursive source = true := by
  have path : source.relativePath = location.relativePath := by
    rw [sourceAt.path, at_.location_eq]
  refine ⟨path, decide_eq_true ⟨(mem_tree_entries.mp sourceAt.member).2, ?_, Or.inl path⟩⟩
  rw [sourceAt.inZone, at_.location_eq]

/-- The nodes at and below the source are copied where those below it are selected. -/
theorem Target.copies_iff :
    (∀ node ∈ db.nodes volume, AtOrBelow (pathText names) node.path →
      ∃ copy ∈ db.copiedNodes volume owner location parent destination true now,
        CopyOf (pathText names) destination node copy) ↔
      ∀ node ∈ db.nodes volume, Below (pathText names) node.path →
        ∃ entry ∈ (db.tree volume).entries, entry.zoneId = location.zoneId ∧
          likeBelow location.relativePath entry.relativePath = true ∧
          entry.relativePath.drop location.relativePath.length =
            node.path.drop (pathText names).length ∧
          SameData (nodeOfEntry db.contentOf location.zonePath entry) node := by
  constructor
  · intro copied node member below
    obtain ⟨copy, copyMember, suffix, -, path, copyPath, same⟩ :=
      copied node member (Or.inr below)
    obtain ⟨entry, entryMember, chosen, row⟩ := mem_copiedNodes place copyMember
    obtain ⟨inZone, selected⟩ := (subtreeRow_recursive_iff entryMember).mp chosen
    have suffixEq := List.append_cancel_left (copyPath.symm.trans row.path)
    have deep : likeBelow location.relativePath entry.relativePath = true := by
      rcases selected with here | deep
      · rw [here, List.drop_length] at suffixEq
        rw [path, suffixEq, List.append_nil] at below
        exact absurd below (not_below_self _)
      · exact deep
    exact ⟨entry, entryMember, inZone, deep, by rw [path, List.drop_left, suffixEq],
      row.repeats.data.symm.trans same⟩
  · intro follows node member below
    rcases below with here | below
    · obtain ⟨path, chosen⟩ := at_.source_selected sourceAt true
      have same : node = nodeOfEntry db.contentOf zone.path source :=
        sourceAt.node_eq at_.wellFormed member (here.trans (by rw [at_.located.names_eq]))
      obtain ⟨copy, copyMember, row⟩ := exists_copiedNode place now sourceAt.member chosen
      have copyPath := row.path
      rw [path, List.drop_length] at copyPath
      refine ⟨copy, copyMember, [], Or.inl rfl, ?_, copyPath, ?_⟩
      · rw [here, List.append_nil]
      · have data := row.repeats.data
        rw [at_.location_eq] at data
        rw [same]
        exact data
    · obtain ⟨entry, entryMember, inZone, selected, suffixEq, same⟩ := follows node member below
      obtain ⟨copy, copyMember, row⟩ := exists_copiedNode place now entryMember
        ((subtreeRow_recursive_iff entryMember).mpr ⟨inZone, Or.inr selected⟩)
      obtain ⟨suffix, boundary, shape⟩ := AtOrBelow.suffix (Or.inr below)
      have copyPath := row.path
      rw [suffixEq, shape, List.drop_left] at copyPath
      exact ⟨copy, copyMember, suffix, boundary, shape, copyPath, row.repeats.data.trans same⟩

/-- What is copied is at or below the source where the selected rows look like it. -/
theorem Target.originals_iff :
    (∀ copy ∈ db.copiedNodes volume owner location parent destination true now,
      ∃ node ∈ db.nodes volume, CopyOf (pathText names) destination node copy) ↔
      ∀ entry ∈ (db.tree volume).entries, entry.zoneId = location.zoneId →
        likeBelow location.relativePath entry.relativePath = true →
          ∃ node ∈ db.nodes volume, AtOrBelow (pathText names) node.path ∧
            entry.relativePath.drop location.relativePath.length =
              node.path.drop (pathText names).length ∧
            SameData (nodeOfEntry db.contentOf location.zonePath entry) node := by
  constructor
  · intro originals entry member inZone selected
    obtain ⟨copy, copyMember, row⟩ := exists_copiedNode place now member
      ((subtreeRow_recursive_iff member).mpr ⟨inZone, Or.inr selected⟩)
    obtain ⟨node, nodeMember, suffix, boundary, path, copyPath, same⟩ := originals copy copyMember
    have suffixEq := List.append_cancel_left (copyPath.symm.trans row.path)
    refine ⟨node, nodeMember, ?_, ?_, row.repeats.data.symm.trans same⟩
    · rw [path]
      exact atOrBelow_append_iff.mpr boundary
    · rw [path, List.drop_left, suffixEq]
  · intro follows copy member
    obtain ⟨entry, entryMember, chosen, row⟩ := mem_copiedNodes place member
    obtain ⟨inZone, selected⟩ := (subtreeRow_recursive_iff entryMember).mp chosen
    have copyPath := row.path
    rcases selected with here | selected
    · obtain ⟨path, -⟩ := at_.source_selected sourceAt true
      have zoneId : location.zoneId = zone.id := by rw [at_.location_eq]
      have entryEq := at_.wellFormed.entry_paths entry entryMember source sourceAt.member
        (inZone.trans (zoneId.trans sourceAt.inZone.symm)) (here.trans path.symm)
      have data := row.repeats.data
      rw [at_.location_eq, entryEq] at data
      rw [here, List.drop_length] at copyPath
      refine ⟨nodeOfEntry db.contentOf zone.path source,
        Tree.nodeOfEntry_mem sourceAt.member sourceAt.zoneAt.member sourceAt.inZone.symm, [],
        Or.inl rfl, ?_, copyPath, data⟩
      rw [nodeOfEntry_path, sourceAt.absolutePath_eq, List.append_nil, at_.located.names_eq]
    · obtain ⟨node, nodeMember, below, suffixEq, same⟩ := follows entry entryMember inZone selected
      obtain ⟨suffix, boundary, shape⟩ := below.suffix
      rw [suffixEq, shape, List.drop_left] at copyPath
      exact ⟨node, nodeMember, suffix, boundary, shape, copyPath, row.repeats.data.trans same⟩

omit at_ sourceAt in
theorem mem_nodes_copyEntry {recursive : Bool} {source : Text} (keys : Keys db)
    (done : db.copyEntry volume source destination location parent recursive now =
      .ok (after, count)) (node : Node) :
    node ∈ after.nodes volume ↔ node ∈ db.nodes volume ∨
      node ∈ db.copiedNodes volume owner location parent destination recursive now := by
  obtain ⟨-, inserted, -⟩ := copyEntry_ok done
  refine mem_nodes_insertEntries keys place.zoneAt.member ?_ inserted node
  intro make member serial
  obtain ⟨entry, -, rfl⟩ := List.mem_map.mp member
  exact ⟨rfl, congrArg Location.zoneId place.location_eq⟩

end EntryBranch

theorem Target.copyEntry_iff (at_ : Target db volume names zone front inner location)
    (isEntry : location.relativePath ≠ [])
    (copyable : Copyable db volume (pathText names) destination location parent) (sound : Sound db)
    (keys : Keys after)
    (done : db.copyEntry volume (pathText names) destination location parent true now =
      .ok (after, count)) :
    CopiedExactly db after volume (pathText names) destination count ↔
      ¬ Below (pathText names) destination ∧ CopyFollows db volume (pathText names) location := by
  obtain ⟨⟨source, found, -⟩, inserted, counted⟩ := copyEntry_ok done
  have sourceAt := at_.entryAt_of_entryAt isEntry found
  obtain ⟨owner, upper, rest, name, place, -⟩ := copyable.vacant.place at_.wellFormed
  rw [copiedExactly_iff (mem_nodes_copyEntry place sound.keys done)
    (copyable.vacant.free_nodes at_.wellFormed)]
  · exact and_congr_right fun _ =>
      and_congr (at_.copies_iff sourceAt place) (at_.originals_iff sourceAt place)
  · intro node member old
    obtain ⟨entry, -, -, row⟩ := mem_copiedNodes place member
    exact Nat.not_lt.mpr row.fresh (sound.keys.node_bound old)
  · rw [counted]
    refine nodes_length_insertEntries sound.keys keys ?_ inserted
    intro make member serial
    obtain ⟨entry, -, rfl⟩ := List.mem_map.mp member
    rfl

/-! ### A source that is a zone -/

/-- The zone that a copied zone becomes, and its rows. -/
def Database.copiedZoneNodes (db : Database) (volume : Uuid) (source : Zone)
    (location parent : Location) (destination : Text) (now : Timestamp) : List Node :=
  nodeOfZone (copiedZone volume parent destination now source db.nextNode) ::
    (numbered (db.nextNode + 1)
      (db.copiedZoneRows volume location.zoneId db.nextNode now)).map
      (nodeOfEntry db.contentOf destination)

/-- The node of a row of a copied zone. -/
structure CopiesZoneRow (db : Database) (zone : ZoneNode) (destination : Text) (entry : ZoneEntry)
    (copy : Node) : Prop where
  path : copy.path = destination ++ '/' :: entry.relativePath
  original : (nodeOfEntry db.contentOf zone.path entry).path = zone.path ++ '/' :: entry.relativePath
  repeats : Repeats copy (nodeOfEntry db.contentOf zone.path entry)
  fresh : db.nextNode ≤ copy.id

section ZoneBranch

variable (at_ : Target db volume names zone front inner location)
  (isZone : location.relativePath = [])

include at_ isZone

theorem Target.zoneAt_names : (db.tree volume).ZoneAt zone names := by
  have whole := at_.located.names_eq
  rw [at_.relativePath_eq_nil_iff.mp isZone, List.append_nil] at whole
  rw [whole]
  exact at_.located.zoneAt

variable {owner : ZoneNode} {upper rest : List Text} {name : Text} {source : Zone}
  (place : (db.tree volume).Place destination parent owner upper rest name)

include place

theorem Target.copiesZoneRow {entry : ZoneEntry} (member : entry ∈ (db.tree volume).entries)
    {serial : NodeId} (later : db.nextNode ≤ serial) (id : NodeId) :
    CopiesZoneRow db zone destination entry
      (nodeOfEntry db.contentOf destination (copiedZoneEntry volume id now entry serial)) := by
  have content : db.contentOf (copiedZoneEntry volume id now entry serial) = db.contentOf entry :=
    contentOf_of_payload db rfl
  have zoneAt := at_.zoneAt_names isZone
  obtain ⟨parts, valid, nonempty, path⟩ :=
    (canonicalRelative_iff _).mp (at_.wellFormed.entry_canonical entry member)
  have filled : entry.relativePath ≠ [] := path ▸ relativeText_ne_nil valid nonempty
  refine ⟨?_, ?_, ⟨⟨rfl, rfl, rfl, rfl, rfl, content⟩, rfl, rfl, rfl⟩, later⟩
  · change absolutePath destination entry.relativePath = _
    unfold absolutePath
    rw [if_neg filled, place.path_eq, if_neg (pathText_ne_root place.components (by simp))]
  · change absolutePath zone.path entry.relativePath = _
    unfold absolutePath
    rw [if_neg filled, zoneAt.path, if_neg (pathText_ne_root at_.valid at_.nonempty)]

theorem Target.mem_copiedZoneNodes {copy : Node}
    (member : copy ∈ db.copiedZoneNodes volume source location parent destination now) :
    copy = nodeOfZone (copiedZone volume parent destination now source db.nextNode) ∨
      ∃ entry ∈ (db.tree volume).entries, entry.zoneId = zone.id ∧
        CopiesZoneRow db zone destination entry copy := by
  have zoneId : location.zoneId = zone.id := by rw [at_.location_eq]
  rcases List.mem_cons.mp member with root | inRows
  · exact Or.inl root
  · right
    obtain ⟨row, rowMember, rfl⟩ := List.mem_map.mp inRows
    obtain ⟨make, makeMember, serial, later, -, rfl⟩ := mem_numbered rowMember
    obtain ⟨entry, entryMember, rfl⟩ := List.mem_map.mp makeMember
    obtain ⟨inTable, chosen⟩ := List.mem_filter.mp entryMember
    obtain ⟨inVolume, inZone⟩ := of_decide_eq_true chosen
    have inTree := mem_tree_entries.mpr ⟨inTable, inVolume⟩
    exact ⟨entry, inTree, inZone.trans zoneId,
      at_.copiesZoneRow isZone place inTree (Nat.le_of_succ_le later) db.nextNode⟩

theorem Target.exists_copiedZoneNode (source : Zone) (now : Timestamp) {entry : ZoneEntry}
    (member : entry ∈ (db.tree volume).entries) (inZone : entry.zoneId = zone.id) :
    ∃ copy ∈ db.copiedZoneNodes volume source location parent destination now,
      CopiesZoneRow db zone destination entry copy := by
  have zoneId : location.zoneId = zone.id := by rw [at_.location_eq]
  obtain ⟨inTable, inVolume⟩ := mem_tree_entries.mp member
  have row : copiedZoneEntry volume db.nextNode now entry ∈
      db.copiedZoneRows volume location.zoneId db.nextNode now :=
    List.mem_map_of_mem (List.mem_filter.mpr
      ⟨inTable, decide_eq_true ⟨inVolume, inZone.trans zoneId.symm⟩⟩)
  obtain ⟨serial, later, arrived⟩ := exists_mem_numbered (db.nextNode + 1) row
  exact ⟨_, List.mem_cons_of_mem _ (List.mem_map_of_mem arrived),
    at_.copiesZoneRow isZone place member (Nat.le_of_succ_le later) db.nextNode⟩

omit at_ isZone place in
theorem copiedZone_repeats (same : source.toZoneNode = zone) (id : NodeId) :
    Repeats (nodeOfZone (copiedZone volume parent destination now source id)) (nodeOfZone zone) := by
  rw [← same]
  exact ⟨⟨rfl, rfl, rfl, rfl, rfl, rfl⟩, rfl, rfl, rfl⟩

omit place in
theorem Target.inside_zone
    (none : ∀ other ∈ (db.tree volume).zones, ¬ Below (pathText names) other.path) {node : Node}
    (member : node ∈ db.nodes volume) (below : AtOrBelow (pathText names) node.path) :
    node = nodeOfZone zone ∨ ∃ entry ∈ (db.tree volume).entries, entry.zoneId = zone.id ∧
      node = nodeOfEntry db.contentOf zone.path entry := by
  have zoneAt := at_.zoneAt_names isZone
  rcases Tree.mem_nodes.mp member with ⟨other, otherMember, rfl⟩ | ⟨entry, entryMember, holder,
    holderMember, inZone, rfl⟩
  · have here : other.path = pathText names := below.resolve_right (none other otherMember)
    left
    rw [at_.wellFormed.zone_paths other otherMember zone zoneAt.member
      (here.trans zoneAt.path.symm)]
  · obtain ⟨holding, above, within, entryAt⟩ := at_.wellFormed.entryAt_of_mem entryMember
    obtain rfl := at_.wellFormed.zone_ids holding entryAt.zoneAt.member holder holderMember
      (entryAt.inZone.symm.trans inZone.symm)
    rw [nodeOfEntry_path, entryAt.atOrBelow_iff at_.valid at_.nonempty] at below
    have isPrefix := at_.wellFormed.zone_prefix entryAt zoneAt below
    by_cases itself : names = above
    · rw [itself] at zoneAt
      obtain rfl := at_.wellFormed.zoneAt_unique entryAt.zoneAt zoneAt
      exact Or.inr ⟨entry, entryMember, inZone.symm, rfl⟩
    · refine absurd ?_ (none holding holderMember)
      rw [entryAt.zoneAt.below_iff at_.valid at_.nonempty]
      exact ⟨isPrefix, itself⟩

theorem Target.zone_repeated (same : source.toZoneNode = zone) (now : Timestamp)
    (none : ∀ other ∈ (db.tree volume).zones, ¬ Below (pathText names) other.path) {node : Node}
    (member : node ∈ db.nodes volume) (below : AtOrBelow (pathText names) node.path) :
    ∃ copy ∈ db.copiedZoneNodes volume source location parent destination now,
      RepeatOf (pathText names) destination node copy := by
  have zoneAt := at_.zoneAt_names isZone
  rcases at_.inside_zone isZone none member below with rfl | ⟨entry, entryMember, inZone, rfl⟩
  · refine ⟨_, List.mem_cons_self, [], Or.inl rfl, ?_, ?_, copiedZone_repeats same db.nextNode⟩
    · rw [nodeOfZone_path, zoneAt.path, List.append_nil]
    · rw [nodeOfZone_path, List.append_nil]
      rfl
  · obtain ⟨copy, copyMember, row⟩ :=
      at_.exists_copiedZoneNode isZone place source now entryMember inZone
    exact ⟨copy, copyMember, '/' :: entry.relativePath, Or.inr ⟨entry.relativePath, rfl⟩,
      by rw [row.original, zoneAt.path], row.path, row.repeats⟩

theorem Target.zone_original (same : source.toZoneNode = zone) {copy : Node}
    (member : copy ∈ db.copiedZoneNodes volume source location parent destination now) :
    ∃ node ∈ db.nodes volume, RepeatOf (pathText names) destination node copy := by
  have zoneAt := at_.zoneAt_names isZone
  rcases at_.mem_copiedZoneNodes isZone place member with rfl | ⟨entry, entryMember, inZone, row⟩
  · refine ⟨nodeOfZone zone, Tree.nodeOfZone_mem zoneAt.member, [], Or.inl rfl, ?_, ?_,
      copiedZone_repeats same db.nextNode⟩
    · rw [nodeOfZone_path, zoneAt.path, List.append_nil]
    · rw [nodeOfZone_path, List.append_nil]
      rfl
  · exact ⟨_, Tree.nodeOfEntry_mem entryMember zoneAt.member inZone.symm, '/' :: entry.relativePath,
      Or.inr ⟨entry.relativePath, rfl⟩, by rw [row.original, zoneAt.path], row.path, row.repeats⟩

theorem Target.zoneCopies_iff (same : source.toZoneNode = zone) :
    (∀ node ∈ db.nodes volume, AtOrBelow (pathText names) node.path →
      ∃ copy ∈ db.copiedZoneNodes volume source location parent destination now,
        CopyOf (pathText names) destination node copy) ↔
      ∀ other ∈ (db.tree volume).zones, ¬ Below (pathText names) other.path := by
  have zoneAt := at_.zoneAt_names isZone
  constructor
  · intro copied other member below
    obtain ⟨copy, copyMember, suffix, -, path, copyPath, -⟩ :=
      copied (nodeOfZone other) (Tree.nodeOfZone_mem member) (Or.inr below)
    rw [nodeOfZone_path] at path
    rcases at_.mem_copiedZoneNodes isZone place copyMember with rfl | ⟨entry, entryMember, inZone, row⟩
    · have empty := List.append_right_eq_self.mp copyPath.symm
      rw [path, empty, List.append_nil] at below
      exact not_below_self _ below
    · have original := row.original
      rw [List.append_cancel_left (copyPath.symm.trans row.path), ← zoneAt.path, ← original,
        nodeOfEntry_path] at path
      exact at_.wellFormed.apart entry entryMember zone zoneAt.member inZone.symm other member
        path.symm
  · intro none node member below
    obtain ⟨copy, copyMember, repeated⟩ :=
      at_.zone_repeated isZone place same now none member below
    exact ⟨copy, copyMember, repeated.copyOf⟩

omit place in
/-- The nodes after the copy of a zone. -/
theorem Target.nodes_copyZone (sound : Sound db) {recursive : Bool}
    (copyable : Copyable db volume (pathText names) destination location parent)
    (done : db.copyZone volume (pathText names) destination location parent recursive now =
      .ok (after, count)) :
    ∃ source : Zone, source.toZoneNode = zone ∧
      (∀ node, node ∈ after.nodes volume ↔ node ∈ db.nodes volume ∨
        node ∈ db.copiedZoneNodes volume source location parent destination now) ∧
      (Keys after → (after.nodes volume).length = (db.nodes volume).length + count) := by
  obtain ⟨-, -, source, filling, id, found, zoneOk, fillOk, counted⟩ := copyZone_ok done
  have zoneAt := at_.zoneAt_names isZone
  have zoneId : location.zoneId = zone.id := by rw [at_.location_eq]
  have sourceZone : source.toZoneNode = zone := by
    have chosen := List.find?_some found
    exact sound.keys.zone_eq_of_id (List.mem_map_of_mem (List.mem_of_find?_eq_some found))
      (mem_tree_zones.mp zoneAt.member).1 ((of_decide_eq_true chosen).trans zoneId)
  have inVolume : (copiedZone volume parent destination now source db.nextNode).volumeId =
    volume := rfl
  have next : filling.nextNode = db.nextNode + 1 := by rw [(insertZone_ok zoneOk).1]
  obtain rfl : id = db.nextNode := (insertZone_ok zoneOk).2.1
  have fillingKeys : Keys filling := (Kept.insertZone (.refl sound) (fun _ => rfl)
    (fun _ => copyable.vacant.canonical.zonePath) zoneOk).sound.keys
  have rootMember : copiedZone volume parent destination now source db.nextNode ∈
      (filling.tree volume).zones := by
    rw [tree_insertZone_own inVolume zoneOk]
    exact List.mem_append_right _ (List.mem_singleton_self _)
  have columns : ∀ make ∈ db.copiedZoneRows volume location.zoneId db.nextNode now, ∀ serial,
      (make serial).volumeId = volume ∧ (make serial).zoneId = db.nextNode := by
    intro make member serial
    obtain ⟨entry, -, rfl⟩ := List.mem_map.mp member
    exact ⟨rfl, rfl⟩
  refine ⟨source, sourceZone, ?_, ?_⟩
  · intro node
    rw [mem_nodes_insertEntries fillingKeys rootMember columns fillOk,
      mem_nodes_insertZone sound.keys inVolume rfl zoneOk, (sameStore_insertZone zoneOk).contentOf,
      next, or_assoc, Database.copiedZoneNodes, List.mem_cons]
    rfl
  · intro keys
    rw [counted, nodes_length_insertEntries fillingKeys keys
      (fun make member serial => (columns make member serial).1) fillOk,
      nodes_length_insertZone sound.keys fillingKeys inVolume zoneOk]
    omega

end ZoneBranch

theorem Target.copyZone_iff (at_ : Target db volume names zone front inner location)
    (isZone : location.relativePath = [])
    (copyable : Copyable db volume (pathText names) destination location parent) (sound : Sound db)
    (keys : Keys after)
    (done : db.copyZone volume (pathText names) destination location parent true now =
      .ok (after, count)) :
    CopiedExactly db after volume (pathText names) destination count ↔
      ¬ Below (pathText names) destination ∧
        ∀ other ∈ (db.tree volume).zones, ¬ Below (pathText names) other.path := by
  obtain ⟨owner, upper, rest, name, place, -⟩ := copyable.vacant.place at_.wellFormed
  obtain ⟨source, same, members, counted⟩ := at_.nodes_copyZone isZone sound copyable done
  rw [copiedExactly_iff members (copyable.vacant.free_nodes at_.wellFormed) ?_ (counted keys)]
  · rw [at_.zoneCopies_iff isZone place same]
    refine and_congr_right fun _ => and_iff_left fun copy member => ?_
    obtain ⟨node, nodeMember, repeated⟩ := at_.zone_original isZone place same member
    exact ⟨node, nodeMember, repeated.copyOf⟩
  · intro node member old
    have bound := sound.keys.node_bound old
    rcases at_.mem_copiedZoneNodes isZone place member with rfl | ⟨entry, -, -, row⟩
    · exact Nat.lt_irrefl _ bound
    · exact Nat.not_lt.mpr row.fresh bound

theorem Copyable.source {path : Text}
    (copyable : Copyable db volume path destination location parent)
    (wellFormed : (db.tree volume).WellFormed) :
    ∃ names zone front inner, path = pathText names ∧
      Target db volume names zone front inner location := by
  obtain ⟨names, zone, front, inner, valid, rfl, located, same⟩ :=
    located_of_locateZone wellFormed copyable.canonical copyable.located
  have nonempty : names ≠ [] := by
    intro root
    exact copyable.notRoot (by rw [root, pathText_nil])
  exact ⟨names, zone, front, inner, rfl, wellFormed, valid, nonempty, located, same⟩

/-- A recursive `pgos.copy` repeats the nodes at and below its source and changes nothing
else if and only if the destination is outside the source and the rows that it selects
look like the nodes below the source. -/
theorem copy_exact_iff {source : Text} (state : WellFormedVolume db volume)
    (done : db.copy volume source destination true now = .ok (after, count)) :
    CopiedExactly db after volume source destination count ↔
      ∀ location, db.locateZone volume source = some location →
        CopyExact db volume source destination location := by
  have sound := state.committed.sound
  have keys := (copy_kept (.refl sound) done).sound.keys
  obtain ⟨location, parent, copyable, branch⟩ := copy_ok done
  have only : (∀ location, db.locateZone volume source = some location →
      CopyExact db volume source destination location) ↔
        CopyExact db volume source destination location := by
    constructor
    · exact fun every => every location copyable.located
    · intro exactly other located
      rwa [← Option.some.inj (copyable.located.symm.trans located)]
  rw [only]
  obtain ⟨names, zone, front, inner, rfl, at_⟩ := copyable.source state.tree
  unfold CopyExact
  rcases branch with ⟨isZone, copied⟩ | ⟨isEntry, copied⟩
  · rw [at_.copyZone_iff isZone copyable sound keys copied]
    simp [isZone]
  · rw [at_.copyEntry_iff isEntry copyable sound keys copied]
    simp [isEntry]

end Copy

theorem copy_exact_of_plain :
    CopiedExactly (Database.empty.calls wildcardCalls)
      (Database.empty.calls (wildcardCalls ++ [.copy 7 ['/', 'a', 'b'] ['/', 'z'] true 4])) 7
      ['/', 'a', 'b'] ['/', 'z'] 2 := by
  have done : (Database.empty.calls wildcardCalls).copy 7 ['/', 'a', 'b'] ['/', 'z'] true 4 =
      .ok (Database.empty.calls
        (wildcardCalls ++ [.copy 7 ['/', 'a', 'b'] ['/', 'z'] true 4]), 2) := by
    decide +kernel
  refine (copy_exact_iff (wellFormed_calls (by decide +kernel)) done).mpr ?_
  intro location located
  have here : (Database.empty.calls wildcardCalls).locateZone 7 ['/', 'a', 'b'] =
      some { zoneId := 1, zonePath := ['/'], relativePath := ['a', 'b'] } := by decide +kernel
  obtain rfl := Option.some.inj (here.symm.trans located)
  decide +kernel

/-- Copying `/a_` also copies `/ab/c`. -/
theorem copy_not_exact :
    ¬ ∀ (db after : Database) (volume : Uuid) (source destination : Text) (now : Timestamp)
      (count : Nat), WellFormedVolume db volume →
        db.copy volume source destination true now = .ok (after, count) →
          CopiedExactly db after volume source destination count := by
  intro every
  have exactly := every (Database.empty.calls wildcardCalls)
    (Database.empty.calls (wildcardCalls ++ [.copy 7 ['/', 'a', '_'] ['/', 'z'] true 4])) 7
    ['/', 'a', '_'] ['/', 'z'] 4 2 (wellFormed_calls (by decide +kernel)) (by decide +kernel)
  have extra : ∃ copy ∈ (Database.empty.calls
      (wildcardCalls ++ [.copy 7 ['/', 'a', '_'] ['/', 'z'] true 4])).nodes 7,
      copy.path = ['/', 'z', '/', 'c'] := by
    decide +kernel
  have none : ∀ node ∈ (Database.empty.calls wildcardCalls).nodes 7,
      node.path ≠ ['/', 'a', '_', '/', 'c'] := by
    decide +kernel
  obtain ⟨copy, member, path⟩ := extra
  obtain ⟨node, nodeMember, suffix, -, nodePath, copyPath, -⟩ :=
    exactly.only copy member (Or.inr (by rw [path]; decide))
  rw [path] at copyPath
  have whole : ['/', 'z'] ++ ['/', 'c'] = ['/', 'z'] ++ suffix := copyPath
  obtain rfl := List.append_cancel_left whole
  exact none node nodeMember nodePath

end PostgreOS
