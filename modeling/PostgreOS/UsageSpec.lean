/-
Disk usage and the counters of the zones.

The counters are exact, so the two functions can differ only in the zones that they
choose: below the root, the fast one compares paths with a pattern that begins with
two slashes.
-/

import PostgreOS.DiskUsage
import PostgreOS.Subtrees

namespace PostgreOS

open Library.Outcome Library.Table

def Database.regularBytes (db : Database) (volume : Uuid) : Int :=
  total (fun entry => (entry.size : Int)) (db.zoneEntries.filter fun entry =>
    entry.volumeId = volume ∧ entry.kind = .file)

/-- Every regular file outside the root zone of a volume is empty. -/
def Database.RootHoldsBytes (db : Database) (volume : Uuid) : Prop :=
  ∀ zone ∈ db.zoneNodes, zone.path ≠ ['/'] → ∀ entry ∈ db.zoneEntries,
    entry.volumeId = volume → entry.zoneId = zone.id → entry.kind = .file → entry.size = 0

instance (db : Database) (volume : Uuid) : Decidable (db.RootHoldsBytes volume) :=
  inferInstanceAs (Decidable (∀ zone ∈ db.zoneNodes, _ → ∀ entry ∈ db.zoneEntries, _))

section Usage

variable {db : Database} {volume : Uuid}

theorem zone_of_locatedAtRoot {path : Text} (canonical : CanonicalPath path) {location : Location}
    (located : db.locateZone volume path = some location) (atRoot : location.relativePath = []) :
    ∃ zone ∈ db.zoneNodes, zone.volumeId = volume ∧ zone.id = location.zoneId ∧
      zone.path = path := by
  obtain ⟨names, valid, rfl⟩ := (canonicalPath_iff path).mp canonical
  obtain ⟨zone, member, above, -, rfl⟩ := locateZone_eq_some located
  obtain ⟨stored, inVolume⟩ := mem_tree_zones.mp member
  obtain ⟨front, ⟨rest, rfl⟩, zonePath⟩ := (mem_ancestorPaths_iff valid _).mp above
  dsimp only at atRoot
  rw [zonePath, relativeIn_texts valid.left valid.right, relativeText_eq_nil_iff valid.right] at atRoot
  subst atRoot
  exact ⟨zone, stored, inVolume, rfl, by rw [zonePath, List.append_nil]⟩

theorem total_usedFiles (accounts : Accounts db) {zone : Zone} (member : zone ∈ db.zones)
    (inVolume : zone.volumeId = volume) :
    total (fun entry => (entry.size : Int)) (db.usedFiles volume (zone, [])) = zone.fileBytes := by
  rw [(accounts zone member).2, fileBytesOf_eq_total]
  unfold Database.usedFiles
  rw [total_filter]
  apply total_congr
  intro entry _
  unfold bytesWeight
  simp [inVolume]

theorem usedBytes_atRoot (accounts : Accounts db) (cleanPath : Text) {location : Location}
    (atRoot : location.relativePath = []) :
    db.usedBytes volume cleanPath location = total Zone.fileBytes (db.zones.filter fun zone =>
      zone.volumeId = volume ∧ (zone.id = location.zoneId ∨ cleanPath = ['/'] ∨
        zone.path = cleanPath ∨ likeBelow cleanPath zone.path = true)) := by
  unfold Database.usedBytes Database.usedZones
  rw [total_flatMap, atRoot, total, List.map_map]
  apply total_congr
  intro zone chosen
  obtain ⟨member, inVolume⟩ := List.mem_filter.mp chosen
  simp only [decide_eq_true_eq] at inVolume
  dsimp only [Function.comp]
  rw [ite_self]
  exact total_usedFiles accounts member inVolume.1

/-- Each regular file of a volume is counted in one zone. -/
theorem total_fileBytes (keys : Keys db) (accounts : Accounts db) :
    total Zone.fileBytes (db.zones.filter fun zone => zone.volumeId = volume) =
      db.regularBytes volume := by
  have counted : total Zone.fileBytes (db.zones.filter fun zone => zone.volumeId = volume) =
      total (fun zone => total (fun entry => if entry.zoneId = zone.id then (entry.size : Int) else 0)
        (db.zoneEntries.filter fun entry => entry.volumeId = volume ∧ entry.kind = .file))
        (db.zones.filter fun zone => zone.volumeId = volume) := by
    apply total_congr
    intro zone chosen
    obtain ⟨member, inVolume⟩ := List.mem_filter.mp chosen
    rw [← total_usedFiles accounts member (of_decide_eq_true inVolume)]
    unfold Database.usedFiles
    rw [total_filter, total_filter]
    apply total_congr
    intro entry _
    by_cases inZone : entry.zoneId = zone.id <;> simp [inZone]
  rw [counted, total_comm]
  unfold Database.regularBytes
  apply total_congr
  intro entry chosen
  obtain ⟨member, file⟩ := List.mem_filter.mp chosen
  obtain ⟨node, stored, inZone, sameVolume⟩ := keys.entry_zone entry member
  obtain ⟨zone, zoneMember, rfl⟩ := List.mem_map.mp stored
  have alone : ((db.zones.filter fun zone => zone.volumeId = volume).filter fun zone =>
      entry.zoneId = zone.id) = [zone] := by
    rw [List.filter_filter]
    apply filter_eq_singleton keys.zone_ids zoneMember
    · simp only [decide_eq_true_eq] at file
      simp [inZone, sameVolume, file.1]
    · intro other _ same
      simp only [Bool.and_eq_true, decide_eq_true_eq] at same
      exact same.1.symm.trans inZone.symm
  have weighed := total_filter (fun _ : Zone => (entry.size : Int))
    (fun zone => entry.zoneId = zone.id) (db.zones.filter fun zone => zone.volumeId = volume)
  rw [alone] at weighed
  simp only [decide_eq_true_eq, total_cons, total_nil, Int.add_zero] at weighed
  exact weighed.symm

theorem likeBelow_root_eq_false {path : Text} (zonePath : ZonePath path) :
    likeBelow ['/'] path = false := by
  rw [Bool.eq_false_iff]
  intro selected
  have plain : Library.LikePattern.Plain ['/'] := by
    simp [Library.LikePattern.Plain, Library.LikePattern.special]
  rw [likeBelow_of_plain plain] at selected
  obtain ⟨rest, same⟩ := selected
  rcases zonePath with rfl | ⟨symbol, more, rfl, other⟩
  · cases same
  · simp only [List.cons_append, List.nil_append, List.cons.injEq] at same
    exact other same.2.1.symm

theorem usedZones_of_ne_root (keys : Keys db) {path : Text} {location : Location}
    (inner : path ≠ ['/']) {root : ZoneNode} (stored : root ∈ db.zoneNodes)
    (located : root.id = location.zoneId) (rootPath : root.path = path) :
    (db.zones.filter fun zone => zone.volumeId = volume ∧ (zone.path = path ∨
        likeBelow path zone.path = true)) =
      db.zones.filter fun zone => zone.volumeId = volume ∧ (zone.id = location.zoneId ∨
        path = ['/'] ∨ zone.path = path ∨ likeBelow path zone.path = true) := by
  apply List.filter_congr
  intro zone member
  have itself : zone.id = location.zoneId → zone.path = path := by
    intro same
    rw [← rootPath, ← keys.zone_eq_of_id (List.mem_map_of_mem member) stored (same.trans located.symm)]
  simp only [decide_eq_decide]
  constructor
  · intro ⟨inVolume, chosen⟩
    exact ⟨inVolume, Or.inr (Or.inr chosen)⟩
  · intro ⟨inVolume, chosen⟩
    refine ⟨inVolume, ?_⟩
    rcases chosen with same | root | chosen
    · exact Or.inl (itself same)
    · exact absurd root inner
    · exact chosen

/-- The counters outside the root zone vanish when the files there are empty. -/
theorem total_innerZones_eq_zero_iff (keys : Keys db) (accounts : Accounts db) :
    total Zone.fileBytes (db.zones.filter fun zone =>
        zone.volumeId = volume ∧ zone.path ≠ ['/']) = 0 ↔ db.RootHoldsBytes volume := by
  have sizes (files : List ZoneEntry) : ∀ entry ∈ files, (0 : Int) ≤ (entry.size : Int) :=
    fun entry _ => Int.natCast_nonneg entry.size
  rw [total_eq_zero_iff]
  · constructor
    · intro empty node stored inner entry member inVolume inZone file
      obtain ⟨zone, zoneMember, rfl⟩ := List.mem_map.mp stored
      obtain ⟨owner, ownerMember, sameId, sameVolume⟩ := keys.entry_zone entry member
      have owned := keys.zone_eq_of_id ownerMember stored (sameId.trans inZone)
      rw [owned] at sameVolume
      have zoneVolume : zone.volumeId = volume := sameVolume.trans inVolume
      have none := empty zone (List.mem_filter.mpr ⟨zoneMember, by simp [zoneVolume, inner]⟩)
      rw [← total_usedFiles accounts zoneMember zoneVolume, total_eq_zero_iff (sizes _)] at none
      have size := none entry (List.mem_filter.mpr ⟨member, by simp [inVolume, inZone, file]⟩)
      omega
    · intro empty zone chosen
      obtain ⟨zoneMember, inner⟩ := List.mem_filter.mp chosen
      simp only [decide_eq_true_eq] at inner
      rw [← total_usedFiles accounts zoneMember inner.1, total_eq_zero_iff (sizes _)]
      intro entry used
      obtain ⟨member, inZone⟩ := List.mem_filter.mp used
      simp only [decide_eq_true_eq] at inZone
      have size := empty zone.toZoneNode (List.mem_map_of_mem zoneMember) inner.2 entry member
        inZone.1 inZone.2.1 inZone.2.2.1
      rw [size]
      rfl
  · intro zone chosen
    obtain ⟨member, inner⟩ := List.mem_filter.mp chosen
    simp only [decide_eq_true_eq] at inner
    rw [← total_usedFiles accounts member inner.1]
    exact total_nonneg (sizes _)

theorem total_rootZone (keys : Keys db) (volume : Uuid) :
    total Zone.fileBytes (db.zones.filter fun zone => zone.volumeId = volume ∧
        (zone.path = ['/'] ∨ likeBelow ['/'] zone.path = true)) +
      total Zone.fileBytes (db.zones.filter fun zone =>
        zone.volumeId = volume ∧ zone.path ≠ ['/']) =
      total Zone.fileBytes (db.zones.filter fun zone => zone.volumeId = volume) := by
  rw [← total_filter_add Zone.fileBytes (fun zone => zone.path = ['/'])
    (db.zones.filter fun zone => zone.volumeId = volume), List.filter_filter, List.filter_filter]
  congr 2
  · apply List.filter_congr
    intro zone member
    have below := likeBelow_root_eq_false (keys.zone_path _ (List.mem_map_of_mem member))
    simp [below, Bool.and_comm]
  · apply List.filter_congr
    intro zone _
    simp [Bool.and_comm]

theorem diskUsage_atRoot (accounts : Accounts db) {path : Text} (canonical : CanonicalPath path)
    {location : Location} (located : db.locateZone volume path = some location)
    (atRoot : location.relativePath = []) :
    db.diskUsage volume path = .ok (total Zone.fileBytes (db.zones.filter fun zone =>
      zone.volumeId = volume ∧ (zone.id = location.zoneId ∨ path = ['/'] ∨ zone.path = path ∨
        likeBelow path zone.path = true))) := by
  unfold Database.diskUsage
  rw [assertPath_of_canonical canonical, ok_bind, strict_eq_ok.mpr located, ok_bind,
    if_neg (not_not.mpr atRoot), usedBytes_atRoot accounts path atRoot]

theorem diskUsageFast_atRoot {path : Text} (canonical : CanonicalPath path)
    {location : Location} (located : db.locateZone volume path = some location)
    (atRoot : location.relativePath = []) :
    db.diskUsageFast volume path = .ok (total Zone.fileBytes (db.zones.filter fun zone =>
      zone.volumeId = volume ∧ (zone.path = path ∨ likeBelow path zone.path = true))) := by
  unfold Database.diskUsageFast
  rw [assertPath_of_canonical canonical, ok_bind, strict_eq_ok.mpr located, ok_bind,
    if_neg (not_not.mpr atRoot)]

theorem diskUsageFast_of_not_atRoot {path : Text}
    (inside : ∀ location, db.locateZone volume path = some location → location.relativePath ≠ []) :
    db.diskUsageFast volume path = db.diskUsage volume path := by
  unfold Database.diskUsageFast
  cases accepted : assertPath path with
  | error failure =>
      unfold Database.diskUsage
      rw [accepted]
      rfl
  | ok cleanPath =>
      obtain ⟨rfl, -⟩ := assertPath_eq_ok accepted
      rw [ok_bind]
      cases located : db.locateZone volume cleanPath with
      | none =>
          unfold Database.diskUsage
          rw [accepted, ok_bind, located]
          rfl
      | some location =>
          rw [strict_eq_ok.mpr rfl, ok_bind, if_pos (inside location located)]

theorem locateZone_root (keys : Keys db) (known : volume ∈ db.volumes.map Volume.id) :
    ∃ location, db.locateZone volume ['/'] = some location := by
  obtain ⟨row, member, rfl⟩ := List.mem_map.mp known
  obtain ⟨zone, stored, inVolume, path⟩ := keys.root row member
  apply locateZone_isSome (mem_tree_zones.mpr ⟨stored, inVolume⟩)
  rw [path]
  exact (mem_ancestorPaths_iff components_nil _).mpr ⟨[], List.prefix_refl [], rfl⟩

theorem locateZone_root_of_entry (keys : Keys db) {entry : ZoneEntry} (member : entry ∈ db.zoneEntries)
    (inVolume : entry.volumeId = volume) : ∃ location, db.locateZone volume ['/'] = some location := by
  obtain ⟨owner, stored, -, sameVolume⟩ := keys.entry_zone entry member
  exact locateZone_root keys (sameVolume.trans inVolume ▸ keys.zone_volume owner stored)

theorem locatedAtRoot_of_root {location : Location}
    (located : db.locateZone volume ['/'] = some location) : location.relativePath = [] := by
  obtain ⟨zone, -, above, -, rfl⟩ := locateZone_eq_some located
  obtain ⟨front, isPrefix, path⟩ := (mem_ancestorPaths_iff components_nil _).mp above
  dsimp only
  rw [path, List.prefix_nil.mp isPrefix]
  rfl

end Usage

/-- The fast sum agrees with the slow one except at the root of a volume whose other zones
hold bytes; the slow sum at the root is the size of the whole volume. -/
theorem diskUsageFast_exact_iff {db : Database} (reachable : ReachableDatabase db) {volume : Uuid}
    {path : Text} (canonical : CanonicalPath path) :
    (db.diskUsageFast volume path = db.diskUsage volume path ∧
      (path = ['/'] → volume ∈ db.volumes.map Volume.id →
        db.diskUsageFast volume path = .ok (db.regularBytes volume) ∧
          db.diskUsage volume path = .ok (db.regularBytes volume))) ↔
      (path = ['/'] → db.RootHoldsBytes volume) := by
  have sound := (committed_of_reachable reachable).sound
  have keys := sound.keys
  have accounts := sound.accounts
  by_cases atZone : ∃ location, db.locateZone volume path = some location ∧
      location.relativePath = []
  · obtain ⟨location, located, atRoot⟩ := atZone
    rw [diskUsage_atRoot accounts canonical located atRoot,
      diskUsageFast_atRoot canonical located atRoot]
    by_cases root : path = ['/']
    · subst root
      have whole := total_rootZone keys volume
      have everything : total Zone.fileBytes (db.zones.filter fun zone =>
          zone.volumeId = volume ∧ (zone.id = location.zoneId ∨ ['/'] = ['/'] ∨
            zone.path = ['/'] ∨ likeBelow ['/'] zone.path = true)) = db.regularBytes volume := by
        simp only [true_or, or_true, and_true]
        exact total_fileBytes keys accounts
      rw [everything, Except.ok.injEq, ← total_fileBytes keys accounts,
        ← total_innerZones_eq_zero_iff keys accounts]
      constructor
      · intro ⟨same, _⟩ _
        omega
      · intro empty
        have none := empty rfl
        exact ⟨by omega, fun _ _ => ⟨by omega, rfl⟩⟩
    · obtain ⟨zone, stored, -, sameId, zonePath⟩ := zone_of_locatedAtRoot canonical located atRoot
      rw [usedZones_of_ne_root keys root stored sameId zonePath]
      exact iff_of_true ⟨rfl, fun same => absurd same root⟩ fun same => absurd same root
  · have same : db.diskUsageFast volume path = db.diskUsage volume path :=
      diskUsageFast_of_not_atRoot fun location located atRoot => atZone ⟨location, located, atRoot⟩
    have nowhere : path = ['/'] → ¬ ∃ location, db.locateZone volume ['/'] = some location := by
      rintro rfl ⟨location, located⟩
      exact atZone ⟨location, located, locatedAtRoot_of_root located⟩
    refine iff_of_true ⟨same, fun root known => absurd (locateZone_root keys known) (nowhere root)⟩ ?_
    intro root zone _ _ entry member inVolume
    exact absurd (locateZone_root_of_entry keys member inVolume) (nowhere root)

/-- A directory with one file, imported as a zone. -/
def fileZoneCalls : List Op :=
  [.createVolume 7 ['v'] 0,
    .importTree 7 ['/', 'z']
      [{ relativePath := [], kind := 2, content := [], mode := 493, uid := 0, gid := 0
         mtimeSeconds := 0, mtimeNanoseconds := 0, linkTarget := [] },
       { relativePath := ['f'], kind := 1, content := [104, 105], mode := 420, uid := 0, gid := 0
         mtimeSeconds := 0, mtimeNanoseconds := 0, linkTarget := [] }] 1]

theorem diskUsageFast_exact_of_zone :
    (Database.empty.calls fileZoneCalls).diskUsageFast 7 ['/', 'z'] =
      (Database.empty.calls fileZoneCalls).diskUsage 7 ['/', 'z'] :=
  ((diskUsageFast_exact_iff (reachable_calls fileZoneCalls) (by decide)).mpr (by decide)).1

/-- The bytes of the imported file are missing at the root. -/
theorem diskUsageFast_not_exact :
    ¬ ∀ (db : Database) (volume : Uuid) (path : Text), ReachableDatabase db → CanonicalPath path →
      db.diskUsageFast volume path = db.diskUsage volume path := by
  intro every
  have same := every (Database.empty.calls fileZoneCalls) 7 ['/'] (reachable_calls _) (by decide)
  revert same
  decide +kernel

end PostgreOS
