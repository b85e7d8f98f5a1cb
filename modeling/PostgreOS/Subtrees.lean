/-
Subtrees and the rows that stand for them.

The operations select the rows below a path with an unescaped `LIKE` pattern. Where the
pattern is exact, the selected rows of a zone are the entries at or below the path, and
the selected zones are the zones below it.
-/

import PostgreOS.Places

namespace PostgreOS

open Library.LikePattern Library.Segments

namespace Tree

/-- The pattern for `root` matches exactly the zones below `root`. -/
def ZonesExact (tree : Tree) (root : Text) : Prop :=
  ∀ zone ∈ tree.zones, likeBelow root zone.path = true ↔ Below root zone.path

instance (tree : Tree) (root : Text) : Decidable (tree.ZonesExact root) :=
  inferInstanceAs (Decidable (∀ zone ∈ tree.zones, _))

/-- The pattern for a relative path matches exactly the entries of the zone below it. -/
def EntriesExact (tree : Tree) (location : Location) : Prop :=
  ∀ entry ∈ tree.entries, entry.zoneId = location.zoneId →
    (likeBelow location.relativePath entry.relativePath = true ↔
      Below location.relativePath entry.relativePath)

instance (tree : Tree) (location : Location) : Decidable (tree.EntriesExact location) :=
  inferInstanceAs (Decidable (∀ entry ∈ tree.entries, _))

end Tree

theorem likeBelow_of_plain {root : Text} (plain : Plain root) (path : Text) :
    likeBelow root path = true ↔ Below root path := by
  unfold likeBelow Below
  have whole : root ++ ['/', '%'] = root ++ ['/'] ++ ['%'] := by rw [List.append_assoc]; rfl
  rw [whole]
  apply like_prefix_of_plain
  intro symbol member
  rcases List.mem_append.mp member with inRoot | slash
  · exact plain symbol inRoot
  · rw [List.mem_singleton.mp slash]
    rfl

theorem Tree.zonesExact_of_plain {root : Text} (plain : Plain root) (tree : Tree) :
    tree.ZonesExact root :=
  fun zone _ => likeBelow_of_plain plain zone.path

theorem Tree.entriesExact_of_plain {location : Location} (plain : Plain location.relativePath)
    (tree : Tree) : tree.EntriesExact location :=
  fun entry _ _ => likeBelow_of_plain plain entry.relativePath

theorem pathText_append {front extra : List Text} (nonempty : front ≠ []) :
    pathText (front ++ extra) = pathText front ++ render '/' extra := by
  rw [pathText_of_ne_nil (by simp [nonempty]), pathText_of_ne_nil nonempty, render_append]

theorem relativeText_append {front extra : List Text} (nonempty : front ≠ []) :
    relativeText (front ++ extra) = relativeText front ++ render '/' extra := by
  apply List.cons_injective (a := '/')
  rw [← render_eq_cons_relativeText (by simp [nonempty]), render_append,
    render_eq_cons_relativeText nonempty]
  rfl

theorem substr_length_succ (front back : Text) : substr (front ++ back) (front.length + 1) = back := by
  simp [substr]

theorem rebasedRelative_texts {source destination extra : List Text} (hSource : source ≠ [])
    (hDestination : destination ≠ []) :
    rebasedRelative (relativeText source) (relativeText destination)
      (relativeText (source ++ extra)) = relativeText (destination ++ extra) := by
  unfold rebasedRelative
  rw [relativeText_append hSource, substr_length_succ, relativeText_append hDestination]

theorem rebasedPath_texts {source destination extra : List Text} (hSource : source ≠ [])
    (hDestination : destination ≠ []) :
    pathText destination ++ substr (pathText (source ++ extra)) ((pathText source).length + 1) =
      pathText (destination ++ extra) := by
  rw [pathText_append hSource, substr_length_succ, pathText_append hDestination]

/-! ### Rows at or below a path -/

namespace Tree

variable {tree : Tree}

theorem WellFormed.prefix_entry_iff (wellFormed : tree.WellFormed) {names : List Text}
    {zone owner : ZoneNode} {front inner upper rest : List Text} {entry : ZoneEntry}
    (located : tree.Located names zone front inner) (found : tree.EntryAt owner entry upper rest) :
    names <+: upper ++ rest ↔ names <+: upper ∨ owner = zone ∧ inner <+: rest := by
  constructor
  · intro isPrefix
    rcases List.prefix_or_prefix_of_prefix isPrefix (List.prefix_append upper rest) with
      above | below
    · exact Or.inl above
    · right
      have left := located.deepest owner upper found.zoneAt below
      have isFront : front <+: names := located.names_eq ▸ List.prefix_append front inner
      have right := wellFormed.zone_prefix found located.zoneAt (isFront.trans isPrefix)
      obtain rfl := left.eq_of_length (Nat.le_antisymm left.length_le right.length_le)
      rw [located.names_eq] at isPrefix
      exact ⟨wellFormed.zoneAt_unique found.zoneAt located.zoneAt,
        (List.prefix_append_right_inj upper).mp isPrefix⟩
  · rintro (above | ⟨rfl, inside⟩)
    · exact above.trans (List.prefix_append upper rest)
    · rw [located.names_eq, located.zoneAt.names_unique found.zoneAt]
      exact (List.prefix_append_right_inj upper).mpr inside

theorem EntryAt.atOrBelow_iff {names : List Text} {owner : ZoneNode} {upper rest : List Text}
    {entry : ZoneEntry} (found : tree.EntryAt owner entry upper rest) (valid : Components names)
    (inner : names ≠ []) :
    AtOrBelow (pathText names) (absolutePath owner.path entry.relativePath) ↔
      names <+: upper ++ rest := by
  rw [found.absolutePath_eq]
  exact atOrBelow_pathText_iff valid found.components inner

theorem ZoneAt.atOrBelow_iff {names front : List Text} {zone : ZoneNode}
    (zoneAt : tree.ZoneAt zone front) (valid : Components names) (inner : names ≠ []) :
    AtOrBelow (pathText names) zone.path ↔ names <+: front := by
  rw [zoneAt.path]
  exact atOrBelow_pathText_iff valid zoneAt.valid inner

theorem ZoneAt.below_iff {names front : List Text} {zone : ZoneNode}
    (zoneAt : tree.ZoneAt zone front) (valid : Components names) (inner : names ≠ []) :
    Below (pathText names) zone.path ↔ names <+: front ∧ names ≠ front := by
  rw [zoneAt.path]
  exact below_pathText_iff valid zoneAt.valid inner

end Tree

section Selection

variable {db : Database} {volume : Uuid} {zone : ZoneNode} {inner : List Text}

/-- Where the pattern is exact, a subtree of a zone is selected as such. -/
theorem subtreeRow_iff (wellFormed : (db.tree volume).WellFormed) (location : Location)
    (recursive : Bool) (zoneMember : zone ∈ (db.tree volume).zones) (zoneId : location.zoneId = zone.id)
    (valid : Components inner) (nonempty : inner ≠ [])
    (path : location.relativePath = relativeText inner)
    (exactly : recursive = true → (db.tree volume).EntriesExact location) {owner : ZoneNode}
    {entry : ZoneEntry} {upper rest : List Text}
    (found : (db.tree volume).EntryAt owner entry upper rest) :
    subtreeRow volume location.zoneId location.relativePath recursive entry = true ↔
      owner = zone ∧ (rest = inner ∨ recursive = true ∧ inner <+: rest) := by
  have inVolume := (mem_tree_entries.mp found.member).2
  have sameZone : entry.zoneId = location.zoneId ↔ owner = zone := by
    rw [found.inZone, zoneId]
    constructor
    · exact wellFormed.zone_ids owner found.zoneAt.member zone zoneMember
    · rintro rfl
      rfl
  have samePath : entry.relativePath = location.relativePath ↔ rest = inner := by
    rw [found.path, path]
    constructor
    · exact relativeText_injective found.valid valid
    · rintro rfl
      rfl
  unfold subtreeRow
  rw [decide_eq_true_eq, sameZone, samePath]
  constructor
  · rintro ⟨-, same, here | ⟨deep, selected⟩⟩
    · exact ⟨same, Or.inl here⟩
    · refine ⟨same, Or.inr ⟨deep, ?_⟩⟩
      have below := (exactly deep entry found.member (sameZone.mpr same)).mp selected
      rw [found.path, path, below_relativeText_iff valid found.valid nonempty] at below
      exact below.1
  · rintro ⟨same, here | ⟨deep, below⟩⟩
    · exact ⟨inVolume, same, Or.inl here⟩
    · refine ⟨inVolume, same, ?_⟩
      by_cases here : rest = inner
      · exact Or.inl here
      · refine Or.inr ⟨deep, (exactly deep entry found.member (sameZone.mpr same)).mpr ?_⟩
        rw [found.path, path, below_relativeText_iff valid found.valid nonempty]
        exact ⟨below, fun same => here same.symm⟩

end Selection

end PostgreOS
