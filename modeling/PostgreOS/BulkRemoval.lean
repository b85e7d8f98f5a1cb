/-
Removing several paths keeps the tree well formed.

The bulk statement deletes the named entries only, so nothing may hang below a directory
that goes. The loop removes one subtree after the other; patterns that are exact at the
start stay exact while rows disappear.
-/

import PostgreOS.Removal

namespace PostgreOS

open Library.Outcome Library.Table

namespace Tree

/-- The rows of `fewer` are among those of `tree`. -/
structure Fewer (fewer tree : Tree) : Prop where
  zones : fewer.zones ⊆ tree.zones
  entries : fewer.entries ⊆ tree.entries

variable {tree fewer : Tree}

theorem Fewer.refl (tree : Tree) : tree.Fewer tree :=
  ⟨List.Subset.refl _, List.Subset.refl _⟩

theorem Fewer.trans {least : Tree} (first : least.Fewer fewer) (second : fewer.Fewer tree) :
    least.Fewer tree :=
  ⟨fun _ member => second.zones (first.zones member),
    fun _ member => second.entries (first.entries member)⟩

theorem Fewer.zoneAt (subset : fewer.Fewer tree) {zone : ZoneNode} {front : List Text}
    (found : fewer.ZoneAt zone front) : tree.ZoneAt zone front :=
  ⟨subset.zones found.member, found.valid, found.path⟩

theorem Fewer.entryAt (subset : fewer.Fewer tree) {zone : ZoneNode} {entry : ZoneEntry}
    {front rest : List Text} (found : fewer.EntryAt zone entry front rest) :
    tree.EntryAt zone entry front rest :=
  ⟨subset.zoneAt found.zoneAt, subset.entries found.member, found.inZone, found.valid,
    found.nonempty, found.path⟩

theorem Fewer.zonesExact (subset : fewer.Fewer tree) {root : Text}
    (exactly : tree.ZonesExact root) : fewer.ZonesExact root :=
  fun zone member => exactly zone (subset.zones member)

theorem Fewer.entriesExact (subset : fewer.Fewer tree) {location : Location}
    (exactly : tree.EntriesExact location) : fewer.EntriesExact location :=
  fun entry member => exactly entry (subset.entries member)

theorem Fewer.located (subset : fewer.Fewer tree) (wellFormed : tree.WellFormed)
    (fewerWellFormed : fewer.WellFormed) {names : List Text} {kind : Kind}
    (has : fewer.Has names kind) {zone : ZoneNode} {front rest : List Text}
    (located : fewer.Located names zone front rest) : tree.Located names zone front rest := by
  rcases (fewerWellFormed.has_iff_of_located located).mp has with ⟨empty, -⟩ | ⟨entry, found, -⟩
  · have whole := located.names_eq
    rw [empty, List.append_nil] at whole
    rw [empty, whole]
    exact WellFormed.located_of_zoneAt (subset.zoneAt located.zoneAt)
  · rw [located.names_eq]
    exact wellFormed.located_of_entryAt (subset.entryAt found)

end Tree

section Removals

variable {db after : Database} {volume view : Uuid} {recursive forceMissing : Bool}

/-- Every call of `pgos.remove` in the list would evaluate exact patterns. -/
def RemovesExact (db : Database) (volume : Uuid) (targetPaths : List Text) (recursive : Bool) :
    Prop :=
  ∀ path ∈ targetPaths, ∀ location ∈ db.locateZone volume path,
    RemoveExact db volume path recursive location

instance (db : Database) (volume : Uuid) (targetPaths : List Text) (recursive : Bool) :
    Decidable (RemovesExact db volume targetPaths recursive) :=
  inferInstanceAs (Decidable (∀ path ∈ targetPaths, ∀ location ∈ db.locateZone volume path, _))

theorem Tree.Fewer.removeExact (subset : (after.tree volume).Fewer (db.tree volume))
    (wellFormed : (db.tree volume).WellFormed) (fewerWellFormed : (after.tree volume).WellFormed)
    {target : Text} {location : Location}
    (exactly : ∀ location ∈ db.locateZone volume target,
      RemoveExact db volume target recursive location)
    (removable : Removable after volume target recursive location) :
    RemoveExact after volume target recursive location := by
  obtain ⟨names, zone, front, inner, rfl, at_⟩ := removable.target fewerWellFormed
  obtain ⟨kind, present⟩ := Option.ne_none_iff_exists'.mp removable.present
  have has := (kindOf_eq_some_iff fewerWellFormed at_.valid kind).mp present
  have located := locateZone_of_located wellFormed at_.valid
    (subset.located wellFormed fewerWellFormed has at_.located)
  rw [← at_.location_eq] at located
  have before := exactly location located
  exact ⟨fun deep => subset.zonesExact (before.1 deep),
    fun isEntry deep => subset.entriesExact (before.2 isEntry deep)⟩

theorem fewer_of_remove {target : Text} {count : Nat} (sound : Sound db) (view : Uuid)
    (done : db.remove volume target recursive = .ok (after, count)) :
    (after.tree view).Fewer (db.tree view) := by
  obtain ⟨location, removable, reclaimed, -⟩ := remove_ok.mp done
  have kept := removeRows_kept (.refl sound) removable
  have same := (Reclaimed.of_reclaim kept.sound.store kept.sound.stored reclaimed).tables.tree view
  rw [same, tree_removeRows]
  exact ⟨List.filter_sublist.subset, List.filter_sublist.subset⟩

/-- What the loop keeps between two paths. -/
structure Removing (db state : Database) (volume view : Uuid) : Prop where
  sound : Sound state
  wellFormed : (state.tree view).WellFormed
  own : (state.tree volume).WellFormed
  fewer : (state.tree volume).Fewer (db.tree volume)

theorem removeNext_removing {state next : Database × Nat} {target : Text}
    (wellFormed : (db.tree volume).WellFormed)
    (exactly : ∀ location ∈ db.locateZone volume target,
      RemoveExact db volume target recursive location)
    (removing : Removing db state.1 volume view)
    (done : removeNext volume recursive forceMissing state target = .ok next) :
    Removing db next.1 volume view := by
  unfold removeNext at done
  obtain ⟨skipped, -, done⟩ := bind_eq_ok.mp done
  split at done
  · rw [← Except.ok.inj done]
    exact removing
  · obtain ⟨⟨last, removed⟩, removeOk, same⟩ := bind_eq_ok.mp done
    rw [← Except.ok.inj same]
    have still : ∀ location, state.1.locateZone volume target = some location →
        RemoveExact state.1 volume target recursive location := by
      intro location located
      obtain ⟨other, removable, -, -⟩ := remove_ok.mp removeOk
      rw [Option.some.inj (located.symm.trans removable.located)]
      exact removing.fewer.removeExact wellFormed removing.own exactly removable
    exact
      { sound := (remove_kept (.refl removing.sound) removeOk).sound
        wellFormed := remove_wellFormed removing.sound removing.wellFormed still removeOk
        own := remove_wellFormed removing.sound removing.own still removeOk
        fewer := (fewer_of_remove removing.sound volume removeOk).trans removing.fewer }

theorem removeLoop_wellFormed {targetPaths : List Text} {count : Nat} (sound : Sound db)
    (wellFormed : (db.tree view).WellFormed) (own : (db.tree volume).WellFormed)
    (exactly : RemovesExact db volume targetPaths recursive)
    (done : targetPaths.foldlM (removeNext volume recursive forceMissing) (db, 0) =
      .ok (after, count)) : (after.tree view).WellFormed := by
  refine (foldlM_invariant (fun state : Database × Nat => Removing db state.1 volume view) ?_
    ⟨sound, wellFormed, own, .refl _⟩ done).wellFormed
  intro state target next member removing stepped
  exact removeNext_removing own (exactly target member) removing stepped

/-! ### The bulk statement -/

/-- Nothing hangs below a directory that the bulk statement deletes, except what it
deletes too. -/
def BulkClosed (db : Database) (volume : Uuid) (targetPaths : List Text) (recursive : Bool) :
    Prop :=
  ∀ entry ∈ (db.tree volume).entries,
    db.bulkRow volume (targetPaths.filterMap (db.resolve volume)) recursive entry = true →
      (∀ child ∈ (db.tree volume).entries, child.zoneId = entry.zoneId →
        child.parentPath = entry.relativePath →
          db.bulkRow volume (targetPaths.filterMap (db.resolve volume)) recursive child = true) ∧
      ∀ zone ∈ (db.tree volume).zones, zone.parent ≠ some (entry.zoneId, entry.relativePath)

instance (db : Database) (volume : Uuid) (targetPaths : List Text) (recursive : Bool) :
    Decidable (BulkClosed db volume targetPaths recursive) :=
  inferInstanceAs (Decidable (∀ entry ∈ (db.tree volume).entries, _))

theorem bulkRow_volume {resolved : List Location} {entry : ZoneEntry}
    (selected : db.bulkRow volume resolved recursive entry = true) : entry.volumeId = volume :=
  (of_decide_eq_true selected).1

theorem tree_removeBulk {targetPaths : List Text} {count : Nat} (sound : Sound db)
    (done : db.removeBulk volume targetPaths recursive forceMissing = .ok (after, count)) :
    after.tree view =
      { db.tree view with
        entries := (db.tree view).entries.filter fun entry =>
          !db.bulkRow volume (targetPaths.filterMap (db.resolve volume)) recursive entry } := by
  obtain ⟨-, -, -, reclaimed⟩ := removeBulk_ok.mp done
  have kept := Kept.deleteEntries (.refl sound)
    (db.bulkRow volume (targetPaths.filterMap (db.resolve volume)) recursive)
  rw [(Reclaimed.of_reclaim kept.sound.store kept.sound.stored reclaimed).tables.tree view,
    tree_deleteEntries]

theorem removeBulk_wellFormed {targetPaths : List Text} {count : Nat} (sound : Sound db)
    (wellFormed : (db.tree view).WellFormed)
    (closed : BulkClosed db volume targetPaths recursive)
    (done : db.removeBulk volume targetPaths recursive forceMissing = .ok (after, count)) :
    (after.tree view).WellFormed := by
  rw [tree_removeBulk sound done]
  by_cases same : view = volume
  · subst same
    have kept := wellFormed.delete (fun _ => true)
      (fun entry => !db.bulkRow view (targetPaths.filterMap (db.resolve view)) recursive entry)
      (fun _ _ _ => rfl) ?_ ?_
    · simpa using kept
    · intro zone member parent _ relative _ points
      refine ⟨rfl, ?_⟩
      intro entry entryMember inZone path
      rw [Bool.not_eq_true', Bool.eq_false_iff]
      intro selected
      apply (closed entry entryMember selected).2 zone member
      rw [points, inZone, path]
    · intro entry member stays
      refine ⟨fun _ _ _ => rfl, ?_⟩
      intro above aboveMember sameZone path
      rw [Bool.not_eq_true', Bool.eq_false_iff] at stays ⊢
      intro selected
      exact stays ((closed above aboveMember selected).1 entry member sameZone.symm path.symm)
  · have all : ((db.tree view).entries.filter fun entry =>
        !db.bulkRow volume (targetPaths.filterMap (db.resolve volume)) recursive entry) =
          (db.tree view).entries := by
      rw [List.filter_eq_self]
      intro entry member
      rw [Bool.not_eq_true', Bool.eq_false_iff]
      intro selected
      exact same ((mem_tree_entries.mp member).2.symm.trans (bulkRow_volume selected))
    rw [all]
    exact wellFormed

def Database.noZoneListed (db : Database) (volume : Uuid) (targetPaths : List Text) : Bool :=
  targetPaths.all fun path => (db.zonesOf volume).all fun zone => zone.path ≠ path

/-- The condition under which `pgos.remove_many` leaves no orphan. -/
def RemoveManyExact (db : Database) (volume : Uuid) (targetPaths : List Text) (recursive : Bool) :
    Prop :=
  if targetPaths.length ≠ 1 ∧ db.noZoneListed volume targetPaths = true then
    BulkClosed db volume targetPaths recursive
  else RemovesExact db volume targetPaths recursive

instance (db : Database) (volume : Uuid) (targetPaths : List Text) (recursive : Bool) :
    Decidable (RemoveManyExact db volume targetPaths recursive) :=
  if chosen : targetPaths.length ≠ 1 ∧ db.noZoneListed volume targetPaths = true then
    decidable_of_iff (BulkClosed db volume targetPaths recursive)
      (by rw [RemoveManyExact, if_pos chosen])
  else
    decidable_of_iff (RemovesExact db volume targetPaths recursive)
      (by rw [RemoveManyExact, if_neg chosen])

theorem removeMany_wellFormed {targetPaths : List Text} {count : Nat} (sound : Sound db)
    (wellFormed : (db.tree view).WellFormed) (own : (db.tree volume).WellFormed)
    (exactly : RemoveManyExact db volume targetPaths recursive)
    (done : db.removeMany volume targetPaths recursive forceMissing = .ok (after, count)) :
    (after.tree view).WellFormed := by
  unfold Database.removeMany at done
  unfold RemoveManyExact at exactly
  split at done
  · rename_i target
    rw [if_neg (by simp)] at exactly
    obtain ⟨skipped, -, done⟩ := bind_eq_ok.mp done
    split at done
    · obtain ⟨rfl, -⟩ := Prod.mk.inj (Except.ok.inj done)
      exact wellFormed
    · exact remove_wellFormed sound wellFormed
        (fun location located => exactly target List.mem_cons_self location located) done
  · rename_i several
    have length : targetPaths.length ≠ 1 := by
      intro one
      obtain ⟨target, rfl⟩ := List.length_eq_one_iff.mp one
      exact several target rfl
    obtain ⟨cleanPaths, accepted, done⟩ := bind_eq_ok.mp done
    obtain ⟨rfl, -⟩ := mapM_assertPath_eq_ok.mp accepted
    split at done
    · rename_i noZone
      rw [if_pos ⟨length, noZone⟩] at exactly
      exact removeBulk_wellFormed sound wellFormed exactly done
    · rename_i someZone
      rw [if_neg fun both => someZone both.2] at exactly
      exact removeLoop_wellFormed sound wellFormed own exactly done

end Removals

end PostgreOS
