/-
The tree of files of a volume.

The nodes of a volume, read as a tree of files. What an operation does to the nodes is then
said of the tree: nodes that arrive at a free path are grafted, nodes that go are cut off.
-/

import PostgreOS.FileTree
import PostgreOS.ImportSpec
import PostgreOS.MkdirSpec
import PostgreOS.Normalizing

namespace PostgreOS

open Library.NameTree Library.Table

def Body.kind : Body → Kind
  | .file _ => .file
  | .directory => .directory
  | .symlink _ => .symlink

def Node.body (node : Node) : Body :=
  match node.kind with
  | .file => .file (node.content.getD [])
  | .directory => .directory
  | .symlink => .symlink (node.linkTarget.getD [])

/-- What a node stands for, without its ids and versions. -/
def Node.object (node : Node) : Object :=
  { body := node.body
    mode := node.mode
    uid := node.uid
    gid := node.gid
    atime := node.atime
    mtime := node.mtime }

@[simp] theorem Node.object_kind (node : Node) : node.object.body.kind = node.kind := by
  unfold Node.object Node.body
  cases node.kind <;> rfl

theorem Body.kind_eq_directory_iff (body : Body) : body.kind = .directory ↔ body = .directory := by
  cases body <;> simp [Body.kind]

theorem Body.kind_eq_file_iff (body : Body) :
    body.kind = .file ↔ ∃ content, body = .file content := by
  cases body <;> simp [Body.kind]

def Database.view (db : Database) (volume : Uuid) : FileTree := fun names =>
  ((db.nodes volume).find? fun node => pathNames node.path = names).map Node.object

section View

variable {db after : Database} {volume : Uuid} {names : List Text}

theorem view_congr (same : after.nodes volume = db.nodes volume) :
    after.view volume = db.view volume := by
  unfold Database.view
  rw [same]

section WellFormed

variable (wellFormed : (db.tree volume).WellFormed)

include wellFormed

theorem view_eq_some_iff {object : Object} :
    db.view volume names = some object ↔ Components names ∧
      ∃ node ∈ db.nodes volume, node.path = pathText names ∧ node.object = object := by
  have spelled {node : Node} (member : node ∈ db.nodes volume) :
      ∃ others, Components others ∧ node.path = pathText others ∧ pathNames node.path = others := by
    obtain ⟨others, has, path⟩ := wellFormed.has_of_mem_nodes member
    refine ⟨others, has.components, path, ?_⟩
    rw [path, pathNames_pathText has.components]
  constructor
  · intro found
    obtain ⟨node, here, rfl⟩ := Option.map_eq_some_iff.mp found
    have member := List.mem_of_find?_eq_some here
    obtain ⟨others, valid, path, same⟩ := spelled member
    have chosen := List.find?_some here
    rw [decide_eq_true_eq, same] at chosen
    subst chosen
    exact ⟨valid, node, member, path, rfl⟩
  · rintro ⟨valid, node, member, path, rfl⟩
    have chosen : pathNames node.path = names := by rw [path, pathNames_pathText valid]
    obtain ⟨first, here⟩ : ∃ first,
        (db.nodes volume).find? (fun node => pathNames node.path = names) = some first := by
      rw [← Option.isSome_iff_exists, List.find?_isSome]
      exact ⟨node, member, decide_eq_true chosen⟩
    have firstMember := List.mem_of_find?_eq_some here
    obtain ⟨others, otherValid, firstPath, same⟩ := spelled firstMember
    have firstChosen := List.find?_some here
    rw [decide_eq_true_eq, same] at firstChosen
    unfold Database.view
    rw [here, wellFormed.node_eq_of_path firstMember member
      (firstPath.trans (firstChosen ▸ path.symm)), Option.map_some]

theorem kindOf_view (valid : Components names) :
    db.kindOf volume (pathText names) =
      (db.view volume names).map fun object => object.body.kind := by
  ext kind
  rw [kindOf_eq_some_iff_names wellFormed (canonicalPath_pathText valid), Option.map_eq_some_iff]
  constructor
  · rintro ⟨node, member, path, rfl⟩
    exact ⟨node.object, (view_eq_some_iff wellFormed).mpr ⟨valid, node, member, path, rfl⟩,
      node.object_kind⟩
  · rintro ⟨object, found, rfl⟩
    obtain ⟨-, node, member, path, rfl⟩ := (view_eq_some_iff wellFormed).mp found
    exact ⟨node, member, path, node.object_kind.symm⟩

theorem view_eq_none_iff (valid : Components names) :
    db.view volume names = none ↔ db.kindOf volume (pathText names) = none := by
  rw [kindOf_view wellFormed valid, Option.map_eq_none_iff]

theorem directory_iff (valid : Components names) :
    (db.view volume).Directory names ↔ db.kindOf volume (pathText names) = some .directory := by
  rw [kindOf_view wellFormed valid, Option.map_eq_some_iff]
  simp only [Body.kind_eq_directory_iff]
  rfl

theorem inDirectory_iff (valid : Components names) :
    (db.view volume).InDirectory names ↔
      db.kindOfParent volume (pathText names) = some .directory := by
  unfold FileTree.InDirectory Database.kindOfParent
  rcases List.eq_nil_or_concat' names with rfl | ⟨front, name, rfl⟩
  · constructor
    · rintro ⟨parent, name, impossible, -⟩
      simp at impossible
    · intro impossible
      cases impossible
  · rw [parentOf_pathText valid, Option.bind_some, ← directory_iff wellFormed valid.left]
    constructor
    · rintro ⟨parent, last, same, directory⟩
      obtain ⟨rfl, -⟩ := List.append_inj' same rfl
      exact directory
    · exact fun directory => ⟨front, name, rfl, directory⟩

theorem vacant_iff (valid : Components names) :
    (db.view volume).Vacant names ↔ db.kindOf volume (pathText names) = none ∧
      db.kindOfParent volume (pathText names) = some .directory := by
  unfold FileTree.Vacant
  rw [view_eq_none_iff wellFormed valid, inDirectory_iff wellFormed valid]

theorem view_root : (db.view volume).Directory [] := by
  rw [directory_iff wellFormed components_nil, pathText_nil]
  exact kindOf_root wellFormed

theorem view_closed : (db.view volume).Closed Object.Holds := by
  intro front name object found
  obtain ⟨valid, node, member, path, -⟩ := (view_eq_some_iff wellFormed).mp found
  obtain ⟨others, has, spelled⟩ := wellFormed.has_of_mem_nodes member
  obtain rfl := pathText_injective valid has.components (path.symm.trans spelled)
  have above := (kindOf_eq_some_iff wellFormed valid.left .directory).mpr (wellFormed.has_parent has)
  exact (directory_iff wellFormed valid.left).mpr above

end WellFormed

/-! ### Nodes that arrive and nodes that go -/

section Changes

variable {path : List Text} (before : (db.tree volume).WellFormed)
  (still : (after.tree volume).WellFormed) (valid : Components path)

include before still

omit before in
theorem view_of_node {node : Node} (member : node ∈ after.nodes volume) (valid : Components names)
    (spelled : node.path = pathText names) : after.view volume names = some node.object :=
  (view_eq_some_iff still).mpr ⟨valid, node, member, spelled, rfl⟩

include valid

theorem view_update {made : Node} (spelled : made.path = pathText path)
    (members : ∀ node, node ∈ after.nodes volume ↔
      node ∈ db.nodes volume ∧ node.path ≠ pathText path ∨ node = made) :
    after.view volume = Function.update (db.view volume) path (some made.object) := by
  funext names
  by_cases here : names = path
  · subst here
    rw [Function.update_self]
    exact view_of_node still ((members made).mpr (Or.inr rfl)) valid spelled
  · rw [Function.update_of_ne here]
    ext object
    rw [view_eq_some_iff still, view_eq_some_iff before]
    refine and_congr_right fun namesValid => exists_congr fun node => ?_
    rw [members]
    constructor
    · rintro ⟨⟨old, -⟩ | rfl, same, shows⟩
      · exact ⟨old, same, shows⟩
      · exact absurd (pathText_injective namesValid valid (same.symm.trans spelled)) here
    · rintro ⟨old, same, shows⟩
      refine ⟨Or.inl ⟨old, fun other => here ?_⟩, same, shows⟩
      exact pathText_injective namesValid valid (same.symm.trans other)

variable (inner : path ≠ [])

include inner

/-- Nodes are new at and below a free path. -/
theorem view_graft {added : Node → Prop} {branch : FileTree}
    (members : ∀ node, node ∈ after.nodes volume ↔ node ∈ db.nodes volume ∨ added node)
    (free : ∀ node ∈ db.nodes volume, ¬ AtOrBelow (pathText path) node.path)
    (placed : ∀ node, added node → ∃ extra, Components extra ∧
      node.path = pathText (path ++ extra) ∧ branch extra = some node.object)
    (filled : ∀ extra object, branch extra = some object →
      ∃ node, added node ∧ node.path = pathText (path ++ extra) ∧ Components extra) :
    after.view volume = (db.view volume).graft path branch := by
  funext names
  by_cases below : path <+: names
  · obtain ⟨extra, rfl⟩ := below
    rw [Library.NameTree.graft_append]
    ext object
    constructor
    · intro found
      obtain ⟨namesValid, node, member, spelled, rfl⟩ := (view_eq_some_iff still).mp found
      rcases (members node).mp member with old | new
      · refine absurd ?_ (free node old)
        rw [spelled, atOrBelow_pathText_iff valid namesValid inner]
        exact List.prefix_append path extra
      · obtain ⟨rest, restValid, again, shows⟩ := placed node new
        have same := pathText_injective namesValid (valid.append restValid)
          (spelled.symm.trans again)
        rw [List.append_cancel_left same, shows]
    · intro found
      obtain ⟨node, new, spelled, extraValid⟩ := filled extra object found
      obtain ⟨rest, restValid, again, shows⟩ := placed node new
      have same := pathText_injective (valid.append extraValid) (valid.append restValid)
        (spelled.symm.trans again)
      rw [← List.append_cancel_left same, found] at shows
      rw [shows]
      exact view_of_node still ((members node).mpr (Or.inr new)) (valid.append extraValid) spelled
  · rw [Library.NameTree.graft_outside below]
    ext object
    rw [view_eq_some_iff still, view_eq_some_iff before]
    refine and_congr_right fun namesValid => exists_congr fun node => ?_
    rw [members]
    constructor
    · rintro ⟨old | new, spelled, shows⟩
      · exact ⟨old, spelled, shows⟩
      · obtain ⟨rest, restValid, again, -⟩ := placed node new
        refine absurd ?_ below
        rw [pathText_injective namesValid (valid.append restValid) (spelled.symm.trans again)]
        exact List.prefix_append path rest
    · exact fun ⟨old, spelled, shows⟩ => ⟨Or.inl old, spelled, shows⟩

theorem view_cut (members : ∀ node, node ∈ after.nodes volume ↔
      node ∈ db.nodes volume ∧ ¬ AtOrBelow (pathText path) node.path) :
    after.view volume = (db.view volume).cut path := by
  funext names
  ext object
  rw [view_eq_some_iff still]
  by_cases below : path <+: names
  · rw [Library.NameTree.cut_inside below]
    constructor
    · rintro ⟨namesValid, node, member, spelled, -⟩
      have outside := ((members node).mp member).2
      rw [spelled, atOrBelow_pathText_iff valid namesValid inner] at outside
      exact absurd below outside
    · intro impossible
      cases impossible
  · rw [Library.NameTree.cut_outside below, view_eq_some_iff before]
    refine and_congr_right fun namesValid => exists_congr fun node => ?_
    rw [members, and_assoc]
    refine and_congr_right fun _ => ?_
    constructor
    · exact And.right
    · rintro ⟨spelled, shows⟩
      refine ⟨?_, spelled, shows⟩
      rwa [spelled, atOrBelow_pathText_iff valid namesValid inner]

end Changes

section Mapped

variable {changeZone : ZoneNode → ZoneNode} {changeEntry : ZoneEntry → ZoneEntry}
  {change : List Text → Object → Object}

/-- Where rows keep their places, every object changes at its path. -/
theorem view_mapped (before : (db.tree volume).WellFormed) (still : (after.tree volume).WellFormed)
    (tree : after.tree volume =
      { zones := (db.tree volume).zones.map changeZone
        entries := (db.tree volume).entries.map changeEntry })
    (keepsZone : ∀ zone, (changeZone zone).id = zone.id ∧ (changeZone zone).path = zone.path)
    (keepsEntry : ∀ entry, (changeEntry entry).zoneId = entry.zoneId ∧
      (changeEntry entry).relativePath = entry.relativePath)
    (zones : ∀ zone front, (db.tree volume).ZoneAt zone front →
      (nodeOfZone (changeZone zone)).object = change front (nodeOfZone zone).object)
    (entries : ∀ zone entry front rest, (db.tree volume).EntryAt zone entry front rest →
      (nodeOfEntry after.contentOf zone.path (changeEntry entry)).object =
        change (front ++ rest) (nodeOfEntry db.contentOf zone.path entry).object) :
    after.view volume = fun names => (db.view volume names).map (change names) := by
  funext names
  ext object
  rw [view_eq_some_iff still, Option.map_eq_some_iff]
  have rows (node : Node) : node ∈ after.nodes volume ↔
      (∃ zone ∈ (db.tree volume).zones, node = nodeOfZone (changeZone zone)) ∨
        ∃ entry ∈ (db.tree volume).entries, ∃ zone ∈ (db.tree volume).zones,
          zone.id = entry.zoneId ∧ node = nodeOfEntry after.contentOf zone.path (changeEntry entry) := by
    rw [Database.nodes, Tree.mem_nodes, tree]
    simp only [List.mem_map, exists_exists_and_eq_and, keepsZone, keepsEntry]
  constructor
  · rintro ⟨valid, node, member, spelled, rfl⟩
    rcases (rows node).mp member with ⟨zone, zoneMember, rfl⟩ | ⟨entry, entryMember, zone, zoneMember,
      inZone, rfl⟩
    · rw [nodeOfZone_path, (keepsZone zone).2] at spelled
      refine ⟨(nodeOfZone zone).object, ?_, (zones zone names ⟨zoneMember, valid, spelled⟩).symm⟩
      exact view_of_node before (Tree.nodeOfZone_mem zoneMember) valid spelled
    · obtain ⟨owner, front, rest, found⟩ := before.entryAt_of_mem entryMember
      obtain rfl := before.zone_ids zone zoneMember owner found.zoneAt.member
        (inZone.trans found.inZone)
      rw [nodeOfEntry_path, (keepsEntry entry).2, found.absolutePath_eq] at spelled
      obtain rfl := pathText_injective found.components valid spelled
      exact ⟨_, view_of_node before (Tree.nodeOfEntry_mem entryMember zoneMember inZone) valid
        found.absolutePath_eq, (entries zone entry front rest found).symm⟩
  · rintro ⟨old, found, rfl⟩
    obtain ⟨valid, node, member, spelled, rfl⟩ := (view_eq_some_iff before).mp found
    obtain ⟨zone, zoneMember, rfl⟩ | ⟨entry, entryMember, zone, zoneMember, inZone, rfl⟩ :=
      Tree.mem_nodes.mp member
    · refine ⟨valid, _, (rows _).mpr (Or.inl ⟨zone, zoneMember, rfl⟩), ?_,
        zones zone names ⟨zoneMember, valid, spelled⟩⟩
      rw [nodeOfZone_path, (keepsZone zone).2]
      exact spelled
    · obtain ⟨owner, front, rest, entryAt⟩ := before.entryAt_of_mem entryMember
      obtain rfl := before.zone_ids zone zoneMember owner entryAt.zoneAt.member
        (inZone.trans entryAt.inZone)
      rw [nodeOfEntry_path, entryAt.absolutePath_eq] at spelled
      obtain rfl := pathText_injective entryAt.components valid spelled
      refine ⟨valid, _, (rows _).mpr (Or.inr ⟨entry, entryMember, zone, zoneMember, inZone, rfl⟩), ?_,
        entries zone entry front rest entryAt⟩
      rw [nodeOfEntry_path, (keepsEntry entry).2]
      exact entryAt.absolutePath_eq

end Mapped

end View

end PostgreOS
