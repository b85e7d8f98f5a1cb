/-
Times on their way to the database and back.

A row stores microseconds since the epoch. `pgos.set_times` takes seconds and
nanoseconds; the client reads a time as its whole seconds, rounded down, and a column
called nanoseconds that holds the microseconds of the second.
-/

import PostgreOS.Callbacks
import PostgreOS.Find
import PostgreOS.Protocol
import PostgreOS.Timestamps
import PostgreOS.Views

namespace PostgreOS

open Library.Outcome Library.Sessions Library.Table

def Inode.touched (row : Inode) (atime mtime now : Timestamp) : Inode :=
  { row with
    atime := atime
    mtime := mtime
    ctime := now
    generation := row.generation + 1 }

section SetTimes

variable {db : Database} {volume : Uuid} {path : Text} {row : Inode}

theorem inode_of_stat (keys : Keys db) (stated : db.stat volume path = .ok [row]) :
    db.inode volume row.id = [row] := by
  obtain ⟨node, member, rfl⟩ := shows_of_stat keys stated List.mem_cons_self
  exact inode_of_node keys member

theorem selected_of_locateZone {location : Location} {zone : Zone} (keys : Keys db)
    (located : db.locateZone volume path = some location) (member : zone ∈ db.zones)
    (same : zone.id = location.zoneId) : zone.volumeId = volume := by
  obtain ⟨owner, ownerMember, -, -, rfl⟩ := locateZone_eq_some located
  obtain ⟨inTable, inVolume⟩ := mem_tree_zones.mp ownerMember
  rw [← inVolume, ← keys.zone_eq_of_id (List.mem_map_of_mem member) inTable same]

theorem touch_zone (keys : Keys db) {location : Location} {zone : Zone}
    (canonical : CanonicalPath path) (located : db.locateZone volume path = some location)
    (top : location.relativePath = [])
    (only : (db.zones.filter fun zone => decide (zone.id = location.zoneId)) = [zone])
    (atime mtime now : Timestamp) :
    ∃ after, db.updateZones
        (fun zone => decide (zone.volumeId = volume ∧ zone.id = location.zoneId))
        (fun zone => { zone with metadata := zone.metadata.touched atime mtime now }) = .ok after ∧
      after.stat volume path = .ok [(zoneInode zone.toZoneNode).touched atime mtime now] := by
  obtain ⟨member, sameId⟩ := List.mem_filter.mp (only ▸ List.mem_singleton_self zone)
  have inVolume := selected_of_locateZone keys located member (of_decide_eq_true sameId)
  obtain ⟨after, updated⟩ := updateZones_of_same_keys db
    (fun zone => decide (zone.volumeId = volume ∧ zone.id = location.zoneId))
    (fun zone => { zone with metadata := zone.metadata.touched atime mtime now })
    keys.zones_distinct fun _ _ _ _ => rfl
  have nodes := congrArg Tree.zones (tree_updateZones
    (fun zone => decide (zone.volumeId = volume ∧ zone.id = location.zoneId))
    (fun zone => { zone with metadata := zone.metadata.touched atime mtime now })
    (fun _ => rfl) (fun _ => rfl) updated volume)
  have relocated : after.locateZone volume path = some location := by
    rw [locateZone_map nodes _ path]
    · exact located
    · intro other
      unfold rewritten
      split <;> exact ⟨rfl, rfl⟩
  refine ⟨after, updated, ?_⟩
  obtain ⟨rfl, -⟩ := updateZones_ok updated
  unfold Database.stat
  rw [assertPath_of_canonical canonical, ok_bind, relocated, strict, ok_bind, if_pos top]
  dsimp only
  rw [filter_rewritten_eq_singleton ?_ only
    (decide_eq_true ⟨inVolume, of_decide_eq_true sameId⟩)]
  · rfl
  · exact fun _ => rfl

theorem touch_entry (keys : Keys db) {location : Location} {entry : ZoneEntry}
    (canonical : CanonicalPath path) (located : db.locateZone volume path = some location)
    (inner : location.relativePath ≠ [])
    (only : db.zoneEntries.filter (atLocation volume location) = [entry])
    (atime mtime now : Timestamp) :
    ∃ after, db.updateEntries (atLocation volume location)
        (fun entry => { entry with metadata := entry.metadata.touched atime mtime now }) =
          .ok after ∧
      after.stat volume path =
        .ok [(entryInode location.zonePath entry).touched atime mtime now] := by
  have chosen := (List.mem_filter.mp (only ▸ List.mem_singleton_self entry)).2
  obtain ⟨after, updated⟩ := updateEntries_of_same_keys db (atLocation volume location)
    (fun entry => { entry with metadata := entry.metadata.touched atime mtime now })
    keys.entries_distinct fun _ _ _ _ => rfl
  have relocated : after.locateZone volume path = some location :=
    (locateZone_congr (zoneNodes_updateEntries updated) volume path).trans located
  refine ⟨after, updated, ?_⟩
  obtain ⟨rfl, -⟩ := updateEntries_ok updated
  unfold Database.stat
  rw [assertPath_of_canonical canonical, ok_bind, relocated, strict, ok_bind, if_neg inner]
  dsimp only
  rw [filter_rewritten_eq_singleton ?_ only chosen]
  · rfl
  · exact fun _ => rfl

theorem touch_row (keys : Keys db) (stated : db.stat volume path = .ok [row])
    (atime mtime now : Timestamp) :
    ∃ location after, db.locateZone volume path = some location ∧
      (location.relativePath = [] ∧
          db.updateZones (fun zone => decide (zone.volumeId = volume ∧ zone.id = location.zoneId))
            (fun zone => { zone with metadata := zone.metadata.touched atime mtime now }) =
              .ok after ∨
        location.relativePath ≠ [] ∧
          db.updateEntries (atLocation volume location)
            (fun entry => { entry with metadata := entry.metadata.touched atime mtime now }) =
              .ok after) ∧
      after.stat volume path = .ok [row.touched atime mtime now] := by
  obtain ⟨cleanPath, accepted, locating⟩ := bind_eq_ok.mp stated
  obtain ⟨rfl, canonical⟩ := assertPath_eq_ok accepted
  obtain ⟨location, found, listed⟩ := bind_eq_ok.mp locating
  have located := strict_eq_ok.mp found
  by_cases top : location.relativePath = []
  · rw [if_pos top] at listed
    obtain ⟨zone, only, rfl⟩ := List.map_eq_singleton_iff.mp (Except.ok.inj listed)
    obtain ⟨after, updated, shown⟩ := touch_zone keys canonical located top only atime mtime now
    exact ⟨location, after, located, Or.inl ⟨top, updated⟩, shown⟩
  · rw [if_neg top] at listed
    obtain ⟨entry, only, rfl⟩ := List.map_eq_singleton_iff.mp (Except.ok.inj listed)
    obtain ⟨after, updated, shown⟩ := touch_entry keys canonical located top only atime mtime now
    exact ⟨location, after, located, Or.inr ⟨top, updated⟩, shown⟩

theorem setTimes_row (sound : Sound db) (stated : db.stat volume path = .ok [row])
    {atimeSeconds mtimeSeconds atimeNanoseconds mtimeNanoseconds : Int} {atime mtime : Timestamp}
    (accessOk : toTimestamp atimeSeconds atimeNanoseconds = .ok atime)
    (modificationOk : toTimestamp mtimeSeconds mtimeNanoseconds = .ok mtime)
    (access : 0 ≤ atimeNanoseconds ∧ atimeNanoseconds ≤ 999999999)
    (modification : 0 ≤ mtimeNanoseconds ∧ mtimeNanoseconds ≤ 999999999) (now : Timestamp) :
    let next := row.touched atime mtime now
    ∃ after, db.setTimes volume path atimeSeconds atimeNanoseconds mtimeSeconds
        mtimeNanoseconds now = .ok (after, [next]) ∧
      after.stat volume path = .ok [next] ∧ after.inode volume row.id = [next] := by
  intro next
  obtain ⟨cleanPath, accepted, -⟩ := bind_eq_ok.mp stated
  obtain ⟨rfl, -⟩ := assertPath_eq_ok accepted
  obtain ⟨location, after, located, updated, shown⟩ := touch_row sound.keys stated atime mtime now
  have done : db.setTimes volume cleanPath atimeSeconds atimeNanoseconds mtimeSeconds
      mtimeNanoseconds now = .ok (after, [next]) := by
    unfold Database.setTimes
    rw [accessOk, ok_bind, modificationOk, ok_bind, if_neg (by simp [access, modification]),
      accepted, ok_bind, located, strict, ok_bind]
    dsimp only
    obtain ⟨top, zones⟩ | ⟨inner, entries⟩ := updated
    · rw [if_pos top, zones, ok_bind, shown, ok_bind]
    · rw [if_neg inner, entries, ok_bind, shown, ok_bind]
  have kept := setTimes_kept (.refl sound) done
  exact ⟨after, done, shown, inode_of_stat kept.sound.keys shown⟩

theorem stat_alone (keys : Keys db) {rows : List Inode} (stated : db.stat volume path = .ok rows)
    (member : row ∈ rows) : rows = [row] := by
  obtain ⟨cleanPath, -, locating⟩ := bind_eq_ok.mp stated
  obtain ⟨location, found, listed⟩ := bind_eq_ok.mp locating
  split at listed
  · rw [← Except.ok.inj listed] at member ⊢
    obtain ⟨zone, chosen, rfl⟩ := List.mem_map.mp member
    obtain ⟨inTable, sameId⟩ := List.mem_filter.mp chosen
    rw [filter_eq_singleton keys.zone_ids inTable sameId, List.map_singleton]
    intro other _ otherId
    exact (of_decide_eq_true otherId).trans (of_decide_eq_true sameId).symm
  · rw [← Except.ok.inj listed] at member ⊢
    obtain ⟨entry, chosen, rfl⟩ := List.mem_map.mp member
    obtain ⟨inTable, here⟩ := List.mem_filter.mp chosen
    obtain ⟨inVolume, inZone, path⟩ := atLocation_iff.mp here
    rw [filter_eq_singleton keys.entry_ids inTable here, List.map_singleton]
    intro other otherMember there
    obtain ⟨otherVolume, otherZone, otherPath⟩ := atLocation_iff.mp there
    rw [keys.entry_eq_of_path otherMember inTable (otherVolume.trans inVolume.symm)
      (otherZone.trans inZone.symm) (otherPath.trans path.symm)]

end SetTimes

/-! ### The client -/

/-- `floor(extract(epoch FROM time))`. -/
def epochSeconds (time : Timestamp) : Int :=
  time / 1000000

/-- `extract(microseconds FROM time)`: the seconds of the minute with their fraction. -/
def extractMicroseconds (time : Timestamp) : Int :=
  time % 60000000

/-- The column `nanoseconds`, and `u32::try_from(..).unwrap_or(0)` of it. -/
def nanosecondsColumn (time : Timestamp) : Nat :=
  ((extractMicroseconds time).tmod 1000000).toNat

/-- `Entry::from` of the row that the client selects. -/
def Inode.entry (row : Inode) : Protocol.Entry :=
  { id := row.id
    path := row.path
    name := row.name
    kind := row.kind.code
    mode := row.mode
    uid := row.uid
    gid := row.gid
    size := row.size
    generation := row.generation
    atimeSeconds := epochSeconds row.atime
    atimeNanoseconds := nanosecondsColumn row.atime
    mtimeSeconds := epochSeconds row.mtime
    mtimeNanoseconds := nanosecondsColumn row.mtime
    ctimeSeconds := epochSeconds row.ctime
    ctimeNanoseconds := nanosecondsColumn row.ctime }

/-- `with_context`. -/
def withContext {α : Type} (message : String) (arguments : List Text) : Result α → Result α
  | .ok value => .ok value
  | .error _ => raise "" message arguments

theorem withContext_eq_ok {α : Type} {message : String} {arguments : List Text} {outcome : Result α}
    {value : α} : withContext message arguments outcome = .ok value ↔ outcome = .ok value := by
  cases outcome with
  | ok found => rfl
  | error failure =>
      constructor
      · intro impossible
        cases impossible
      · intro impossible
        cases impossible

/-- `Database::stat`. -/
def Database.clientStat (db : Database) (volume : Uuid) (target : Text) : Result Protocol.Entry := do
  let target ← normalize target
  let row ← withContext "path % does not exist" [target] (db.stat volume target >>= firstRow)
  .ok row.entry

/-- `Database::inode`. -/
def Database.clientInode (db : Database) (volume : Uuid) (id : NodeId) : Result Protocol.Entry := do
  let row ← withContext "inode % does not exist" [(Nat.repr id).toList]
    (firstRow (db.inode volume id))
  .ok row.entry

/-- `Database::set_times`, a transaction of its own; the conversions are to `i32`. -/
def Database.clientSetTimes (db : Database) (volume : Uuid) (target : Text)
    (atime mtime : Protocol.Timestamp) (now : Timestamp) : Result (Database × Protocol.Entry) := do
  let target ← normalize target
  if 2 ^ 31 ≤ atime.nanoseconds ∨ 2 ^ 31 ≤ mtime.nanoseconds then
    raise "" "out of range integral type conversion attempted" []
  else do
    let (after, rows) ← db.setTimes volume target atime.seconds atime.nanoseconds mtime.seconds
      mtime.nanoseconds now
    let row ← firstRow rows
    .ok (after.commit, row.entry)

def ShowsTimes (entry : Protocol.Entry) (atime mtime : Protocol.Timestamp) : Prop :=
  entry.atimeSeconds = atime.seconds ∧ entry.atimeNanoseconds = atime.nanoseconds ∧
    entry.mtimeSeconds = mtime.seconds ∧ entry.mtimeNanoseconds = mtime.nanoseconds

instance (entry : Protocol.Entry) (atime mtime : Protocol.Timestamp) :
    Decidable (ShowsTimes entry atime mtime) :=
  inferInstanceAs (Decidable (_ ∧ _))

/-- A whole number of microseconds that `to_timestamp` stores exactly. -/
structure Storable (time : Protocol.Timestamp) : Prop where
  fraction : time.nanoseconds < 1000000000
  whole : time.nanoseconds % 1000 = 0
  stored : toTimestamp time.seconds time.nanoseconds =
    .ok (time.seconds * 1000000 + time.nanoseconds / 1000)

theorem storable_of_recent {time : Protocol.Timestamp} (recent : Recent time.seconds time.nanoseconds)
    (whole : time.nanoseconds % 1000 = 0) : Storable time := by
  have fraction := recent.fraction
  refine ⟨by omega, whole, ?_⟩
  exact toTimestamp_of_microseconds recent (by omega)

theorem storable_of_carried {time : Protocol.Timestamp} (carried : CarriedSecond time.seconds)
    (lower : -210866803200 ≤ time.seconds) (upper : time.seconds < 9224318016000)
    (whole : time.nanoseconds = 0) : Storable time := by
  refine ⟨by omega, by omega, ?_⟩
  rw [whole, Nat.cast_zero, toTimestamp_of_carried carried lower upper, Int.zero_ediv, add_zero]

theorem Storable.range {time : Protocol.Timestamp} (storable : Storable time) :
    0 ≤ (time.nanoseconds : Int) ∧ (time.nanoseconds : Int) ≤ 999999999 := by
  have fraction := storable.fraction
  omega

def storedTime (time : Protocol.Timestamp) : Timestamp :=
  time.seconds * 1000000 + time.nanoseconds / 1000

theorem epochSeconds_storedTime {time : Protocol.Timestamp} (storable : Storable time) :
    epochSeconds (storedTime time) = time.seconds := by
  have fraction := storable.fraction
  unfold epochSeconds storedTime
  omega

theorem nanosecondsColumn_storedTime {time : Protocol.Timestamp} (storable : Storable time) :
    nanosecondsColumn (storedTime time) = time.nanoseconds / 1000 := by
  have fraction := storable.fraction
  unfold nanosecondsColumn extractMicroseconds storedTime
  rw [Int.tmod_eq_emod_of_nonneg (by omega)]
  omega

theorem nanoseconds_survive_iff {time : Protocol.Timestamp} (storable : Storable time) :
    nanosecondsColumn (storedTime time) = time.nanoseconds ↔ time.nanoseconds = 0 := by
  have whole := storable.whole
  rw [nanosecondsColumn_storedTime storable]
  omega

/-- Times set by `set_times` come back from it, from `stat` and from `inode`, unless one of
them has a fraction. -/
theorem times_survive_iff {db : Database} {volume : Uuid} {target : Text} {before : Protocol.Entry}
    (committed : Committed db) (present : db.clientStat volume target = .ok before)
    {atime mtime : Protocol.Timestamp} (access : Storable atime) (modification : Storable mtime)
    (now : Timestamp) :
    ∃ after entry, db.clientSetTimes volume target atime mtime now = .ok (after, entry) ∧
      entry.id = before.id ∧ after.clientStat volume target = .ok entry ∧
      after.clientInode volume entry.id.toNat = .ok entry ∧
      (ShowsTimes entry atime mtime ↔ atime.nanoseconds = 0 ∧ mtime.nanoseconds = 0) := by
  obtain ⟨path, normal, asked⟩ := bind_eq_ok.mp present
  obtain ⟨row, answer, same⟩ := bind_eq_ok.mp asked
  obtain rfl := Except.ok.inj same
  obtain ⟨rows, stated, first⟩ := bind_eq_ok.mp (withContext_eq_ok.mp answer)
  obtain rfl := stat_alone committed.sound.keys stated (firstRow_eq_ok first)
  have accessBound := access.fraction
  have modificationBound := modification.fraction
  obtain ⟨changed, done, shown, found⟩ := setTimes_row committed.sound stated access.stored
    modification.stored access.range modification.range now
  refine ⟨changed.commit, (row.touched (storedTime atime) (storedTime mtime) now).entry, ?_, rfl,
    ?_, ?_, ?_⟩
  · unfold Database.clientSetTimes
    rw [normal, ok_bind, if_neg (by omega), done, ok_bind]
    rfl
  · unfold Database.clientStat
    rw [normal, ok_bind]
    change (withContext _ _ (changed.stat volume path >>= firstRow) >>= _) = _
    rw [shown]
    rfl
  · unfold Database.clientInode
    change (withContext _ _ (firstRow (changed.inode volume row.id)) >>= _) = _
    rw [found]
    rfl
  · unfold ShowsTimes Inode.entry Inode.touched
    dsimp only
    rw [nanoseconds_survive_iff access, nanoseconds_survive_iff modification,
      epochSeconds_storedTime access, epochSeconds_storedTime modification]
    simp

def touchCalls : List Op :=
  [.createVolume 7 ['v'] 0, .mkdir 7 ['/', 'a'] false 493 1]

theorem times_survive_iff_of_seconds : ∃ after entry,
    (Database.empty.calls touchCalls).clientSetTimes 7 ['/', 'a'] ⟨1, 0⟩ ⟨-5, 0⟩ 2 =
      .ok (after, entry) ∧ after.clientStat 7 ['/', 'a'] = .ok entry ∧
        ShowsTimes entry ⟨1, 0⟩ ⟨-5, 0⟩ := by
  obtain ⟨before, present⟩ : ∃ before,
      (Database.empty.calls touchCalls).clientStat 7 ['/', 'a'] = .ok before := ⟨_, rfl⟩
  obtain ⟨after, entry, done, -, stated, -, survive⟩ :=
    times_survive_iff (committed_of_reachable (reachable_calls touchCalls)) present
      (storable_of_recent ⟨by decide, by decide, by decide⟩ rfl : Storable ⟨1, 0⟩)
      (storable_of_carried (carriedSecond_of_le (by decide)) (by decide) (by decide) rfl :
        Storable ⟨-5, 0⟩) 2
  exact ⟨after, entry, done, stated, survive.mpr ⟨rfl, rfl⟩⟩

/-- A microsecond comes back as a nanosecond. -/
theorem times_lose_fraction : Storable ⟨0, 1000⟩ ∧ ¬ ∃ after entry,
    (Database.empty.calls touchCalls).clientSetTimes 7 ['/', 'a'] ⟨0, 1000⟩ ⟨0, 1000⟩ 2 =
      .ok (after, entry) ∧ ShowsTimes entry ⟨0, 1000⟩ ⟨0, 1000⟩ := by
  refine ⟨storable_of_recent ⟨by decide, by decide, by decide⟩ rfl, ?_⟩
  rintro ⟨after, entry, done, -, access, -⟩
  have shown : (fun result => result.2.atimeNanoseconds) <$>
      (Database.empty.calls touchCalls).clientSetTimes 7 ['/', 'a'] ⟨0, 1000⟩ ⟨0, 1000⟩ 2 =
        .ok 1 := by decide +kernel
  rw [done] at shown
  have one : entry.atimeNanoseconds = 1 := Except.ok.inj shown
  rw [access] at one
  cases one

/-! ### The adapter -/

/-- The result of `SystemTime` arithmetic, whose seconds are an `i64`; `none` is a panic. -/
def checkedTime (value : Int) : Option Int :=
  if -2 ^ 63 ≤ value / 1000000000 ∧ value / 1000000000 < 2 ^ 63 then some value else none

/-- `system_time` of any seconds and nanoseconds. -/
def systemTimeOf (seconds : Int) (nanoseconds : Nat) : Option Int :=
  if 0 ≤ seconds then checkedTime (seconds.natAbs * 1000000000 + nanoseconds)
  else checkedTime (-(seconds.natAbs * 1000000000 + nanoseconds))

/-- The instant that a number of seconds, rounded down, and the rest stand for. -/
def instant (seconds : Int) (nanoseconds : Nat) : Int :=
  seconds * 1000000000 + nanoseconds

/-- What an `Entry` can hold as a time. -/
structure EntryTime (seconds : Int) (nanoseconds : Nat) : Prop where
  lower : -2 ^ 63 ≤ seconds
  upper : seconds < 2 ^ 63
  fraction : nanoseconds < 1000000000

theorem timestamp_of_nonneg {value : Int} (after : 0 ≤ value) (mount : Mount) :
    timestamp value mount = (.ok (value / 1000000000, value % 1000000000), mount) := by
  unfold timestamp
  rw [if_neg (Int.not_lt.mpr after)]
  rfl

section SystemTimes

variable {seconds : Int} {nanoseconds : Nat}

theorem systemTimeOf_of_nonneg (time : EntryTime seconds nanoseconds) (after : 0 ≤ seconds) :
    systemTimeOf seconds nanoseconds = some (instant seconds nanoseconds) := by
  obtain ⟨-, upper, fraction⟩ := time
  unfold systemTimeOf checkedTime instant
  rw [if_pos after, if_pos (by omega)]
  congr 1
  omega

theorem systemTimeOf_eq_some {value : Int}
    (found : systemTimeOf seconds nanoseconds = some value) :
    0 ≤ seconds ∧ value = instant seconds nanoseconds ∨
      seconds < 0 ∧ value = instant seconds 0 - nanoseconds := by
  unfold systemTimeOf checkedTime at found
  unfold instant
  split at found
  · split at found
    · obtain rfl := Option.some.inj found
      omega
    · cases found
  · split at found
    · obtain rfl := Option.some.inj found
      omega
    · cases found

theorem systemTimeOf_eq_instant_iff (time : EntryTime seconds nanoseconds) :
    systemTimeOf seconds nanoseconds = some (instant seconds nanoseconds) ↔
      0 ≤ seconds ∨ nanoseconds = 0 := by
  constructor
  · intro found
    rcases systemTimeOf_eq_some found with ⟨after, -⟩ | ⟨-, same⟩
    · exact Or.inl after
    · right
      unfold instant at same
      omega
  · intro whole
    by_cases after : 0 ≤ seconds
    · exact systemTimeOf_of_nonneg time after
    · obtain ⟨lower, upper, fraction⟩ := time
      unfold systemTimeOf checkedTime instant
      rw [if_neg after, if_pos (by omega)]
      congr 1
      omega

end SystemTimes

/-- `system_time` is the instant, and its order that of the instants, up to the fractions
of seconds before the epoch; from the epoch on, `timestamp` undoes it. -/
theorem systemTime_denotes_iff {seconds : Int} {nanoseconds : Nat}
    (time : EntryTime seconds nanoseconds) :
    (systemTimeOf seconds nanoseconds = some (instant seconds nanoseconds) ↔
      0 ≤ seconds ∨ nanoseconds = 0) ∧
    (∀ laterSeconds laterNanoseconds, EntryTime laterSeconds laterNanoseconds →
      seconds < laterSeconds ∨ seconds = laterSeconds ∧ nanoseconds < laterNanoseconds →
      ∀ value later, systemTimeOf seconds nanoseconds = some value →
        systemTimeOf laterSeconds laterNanoseconds = some later →
          (value < later ↔ 0 ≤ seconds ∨ seconds < laterSeconds)) ∧
    (0 ≤ seconds → ∃ value, systemTimeOf seconds nanoseconds = some value ∧
      ∀ mount, timestamp value mount = (.ok (seconds, (nanoseconds : Int)), mount)) := by
  have fraction := time.fraction
  refine ⟨systemTimeOf_eq_instant_iff time, ?_, ?_⟩
  · intro laterSeconds laterNanoseconds laterTime ordered value later found laterFound
    have laterFraction := laterTime.fraction
    have first := systemTimeOf_eq_some found
    have last := systemTimeOf_eq_some laterFound
    unfold instant at first last
    rcases first with ⟨after, rfl⟩ | ⟨before, rfl⟩
    · rcases last with ⟨laterAfter, rfl⟩ | ⟨laterBefore, rfl⟩
      · omega
      · omega
    · rcases last with ⟨laterAfter, rfl⟩ | ⟨laterBefore, rfl⟩
      · omega
      · omega
  · intro after
    refine ⟨_, systemTimeOf_of_nonneg time after, ?_⟩
    intro mount
    rw [timestamp_of_nonneg (by unfold instant; omega)]
    have whole : instant seconds nanoseconds / 1000000000 = seconds := by
      unfold instant
      omega
    have rest : instant seconds nanoseconds % 1000000000 = nanoseconds := by
      unfold instant
      omega
    rw [whole, rest]

/-- One and a half seconds after the epoch, and two. -/
theorem systemTime_denotes_iff_of_half :
    systemTimeOf 1 500000000 = some 1500000000 ∧
      ∀ value later, systemTimeOf 1 500000000 = some value → systemTimeOf 2 0 = some later →
        value < later := by
  have time : EntryTime 1 500000000 := ⟨by decide, by decide, by decide⟩
  have laterTime : EntryTime 2 0 := ⟨by decide, by decide, by decide⟩
  obtain ⟨denotes, increases, -⟩ := systemTime_denotes_iff time
  exact ⟨denotes.mpr (Or.inl (by decide)), fun value later found laterFound =>
    (increases 2 0 laterTime (Or.inl (by decide)) value later found laterFound).mpr
      (Or.inl (by decide))⟩

/-- Half a second before the epoch becomes one and a half, which comes before one. -/
theorem systemTime_before_epoch :
    EntryTime (-1) 500000000 ∧ systemTimeOf (-1) 500000000 ≠ some (instant (-1) 500000000) ∧
      systemTimeOf (-1) 500000000 = some (-1500000000) ∧ systemTimeOf (-1) 0 = some (-1000000000) :=
  ⟨⟨by decide, by decide, by decide⟩, by decide, by decide, by decide⟩

theorem systemTimeOf_columns {time : Int}
    (inRange : -2 ^ 63 < epochSeconds time ∧ epochSeconds time < 2 ^ 63) :
    systemTimeOf (epochSeconds time) (nanosecondsColumn time) = some (systemTime time) := by
  obtain ⟨lower, upper⟩ := inRange
  unfold epochSeconds at lower upper
  have column : (nanosecondsColumn time : Int) = time % 1000000 := by
    unfold nanosecondsColumn extractMicroseconds
    rw [Int.tmod_eq_emod_of_nonneg (by omega)]
    omega
  have fraction : 0 ≤ time % 1000000 ∧ time % 1000000 < 1000000 := by omega
  unfold systemTimeOf checkedTime systemTime epochSeconds
  dsimp only
  rw [column]
  generalize time / 1000000 = seconds at lower upper ⊢
  generalize time % 1000000 = rest at fraction ⊢
  by_cases after : 0 ≤ seconds
  · rw [if_pos after, if_pos after, Int.natAbs_of_nonneg after, if_pos (by omega)]
  · rw [if_neg after, if_neg after, Int.ofNat_natAbs_of_nonpos (by omega), if_pos (by omega)]

/-- The time that a `setattr` supplies. -/
inductive TimeField where
  | atime
  | mtime
  deriving DecidableEq, Repr

/-- The time that is set. -/
def TimeField.supplied (field : TimeField) (row : Inode) : Timestamp :=
  match field with
  | .atime => row.atime
  | .mtime => row.mtime

/-- The time that is left. -/
def TimeField.untouched (field : TimeField) (row : Inode) : Timestamp :=
  match field with
  | .atime => row.mtime
  | .mtime => row.atime

/-- A `setattr` of one time. -/
structure TimeCall where
  requested : TimeOrNow
  clock : SystemTime
  now : Timestamp

def TimeCall.value (call : TimeCall) : SystemTime :=
  match call.requested with
  | .specificTime value => value
  | .now => call.clock

/-- The time that `to_timestamp` makes of the supplied one. -/
def TimeCall.stored (call : TimeCall) : Int :=
  timestampOf (call.value / 1000000000) (call.value % 1000000000)

/-- The supplied time lies between the epoch and the last timestamp of PostgreSQL. -/
def TimeCall.InRange (call : TimeCall) : Prop :=
  0 ≤ call.value ∧
    ∃ time, toTimestamp (call.value / 1000000000) (call.value % 1000000000) = .ok time

theorem recent_of_value {value : Int} (after : 0 ≤ value) (near : value < 2147483647000000000) :
    Recent (value / 1000000000) (value % 1000000000) := by
  constructor <;> omega

theorem TimeCall.inRange_of_recent (call : TimeCall) (after : 0 ≤ call.value)
    (near : call.value < 2147483647000000000) : call.InRange :=
  ⟨after, _, toTimestamp_of_recent (recent_of_value after near)⟩

theorem TimeCall.stored_near (call : TimeCall) (after : 0 ≤ call.value)
    (near : call.value < 2147483647000000000) : |call.stored * 1000 - call.value| < 1000 := by
  have close := timestampOf_near (recent_of_value after near)
  rw [Int.ediv_mul_add_emod] at close
  exact close

def setTime (volume : Uuid) (inode : INodeNo) (field : TimeField) (call : TimeCall) :
    Session Mount Errno Inode :=
  match field with
  | .atime => setattr volume inode false (some call.requested) none call.clock call.now
  | .mtime => setattr volume inode false none (some call.requested) call.clock call.now

/-- One call after the other. -/
def setTimeMany (volume : Uuid) (inode : INodeNo) (field : TimeField) :
    List TimeCall → Session Mount Errno (List Inode)
  | [] => pure []
  | call :: rest => do
      let row ← setTime volume inode field call
      let rows ← setTimeMany volume inode field rest
      pure (row :: rows)

/-- The inode number stands for a row to which its path leads. -/
structure Leads (volume : Uuid) (mount : Mount) (inode : INodeNo) (row : Inode) : Prop where
  committed : Committed mount.database
  answer : mount.database.entryOf volume inode = .ok row
  stated : mount.database.stat volume row.path = .ok [row]

theorem inodeAt_of_node {db : Database} {volume : Uuid} (keys : Keys db)
    (wellFormed : (db.tree volume).WellFormed) {node : Node} (member : node ∈ db.nodes volume) :
    ∃ names, (db.tree volume).InodeAt names node.toInode := by
  obtain ⟨zone, zoneMember, rfl⟩ | ⟨entry, entryMember, zone, zoneMember, inZone, rfl⟩ :=
    Tree.mem_nodes.mp member
  · obtain ⟨front, found⟩ := wellFormed.zoneAt_of_mem zoneMember
    exact ⟨front, .zone found⟩
  · obtain ⟨other, front, rest, found⟩ := wellFormed.entryAt_of_mem entryMember
    obtain rfl := (keys.identified volume).zone_eq zoneMember found.zoneAt.member
      (inZone.trans found.inZone)
    exact ⟨front ++ rest, .entry found⟩

theorem Leads.of_wellFormed {volume : Uuid} {mount : Mount} {inode : INodeNo} {row : Inode}
    (state : WellFormedVolume mount.database volume)
    (answer : mount.database.entryOf volume inode = .ok row) : Leads volume mount inode row := by
  have keys := state.committed.sound.keys
  obtain ⟨node, member, rfl⟩ := shows_of_entryOf keys answer
  obtain ⟨names, shown⟩ := inodeAt_of_node keys state.tree member
  refine ⟨state.committed, answer, ?_⟩
  rw [shown.path_eq]
  exact stat_of_inodeAt keys state.tree shown

theorem stat_root_path {db : Database} {volume : Uuid} {row : Inode} (keys : Keys db)
    {rows : List Inode} (stated : db.stat volume ['/'] = .ok rows) (member : row ∈ rows) :
    row.path = ['/'] := by
  obtain ⟨cleanPath, accepted, locating⟩ := bind_eq_ok.mp stated
  obtain ⟨rfl, -⟩ := assertPath_eq_ok accepted
  obtain ⟨location, found, listed⟩ := bind_eq_ok.mp locating
  obtain ⟨zone, zoneMember, ancestor, -, rfl⟩ := locateZone_eq_some (strict_eq_ok.mp found)
  obtain ⟨front, isPrefix, path⟩ := (mem_ancestorPaths_iff components_nil zone.path).mp ancestor
  obtain rfl := List.prefix_nil.mp isPrefix
  have top : relativeIn zone.path ['/'] = [] := if_pos path
  dsimp only at listed
  rw [if_pos top] at listed
  rw [← Except.ok.inj listed] at member
  obtain ⟨stored, chosen, rfl⟩ := List.mem_map.mp member
  obtain ⟨inTable, sameId⟩ := List.mem_filter.mp chosen
  rw [← keys.zone_eq_of_id (List.mem_map_of_mem inTable) (mem_tree_zones.mp zoneMember).1
    (of_decide_eq_true sameId)] at path
  exact path

section Setattr

variable {volume : Uuid} {mount : Mount} {inode : INodeNo} {row : Inode}

theorem entryOf_of_row {after : Database} {next : Inode} (leads : Leads volume mount inode row)
    (stated : after.stat volume row.path = .ok [next])
    (found : after.inode volume row.id = [next]) : after.entryOf volume inode = .ok next := by
  have answer := leads.answer
  unfold Database.entryOf at answer ⊢
  split at answer
  · obtain ⟨rows, listed, first⟩ := bind_eq_ok.mp answer
    have root := stat_root_path leads.committed.sound.keys listed (firstRow_eq_ok first)
    rw [if_pos ‹_›, ← root, stated]
    rfl
  · rw [if_neg ‹_›, ← (shows_of_inode leads.committed.sound.keys answer).2, found]
    rfl

theorem fraction_range (value : Int) :
    0 ≤ value % 1000000000 ∧ value % 1000000000 ≤ 999999999 := by
  omega

theorem client_setTimes_of_ok {path : Text} {atime mtime : Int × Int} {now : Timestamp}
    {changed : Database} {next : Inode}
    (done : mount.database.setTimes volume path atime.1 atime.2 mtime.1 mtime.2 now =
      .ok (changed, [next])) :
    Client.setTimes volume path atime mtime now mount =
      (.ok next, { mount with database := changed.commit }) := by
  unfold Client.setTimes
  rw [bind_of_ok (commit_of_ok done)]
  rfl

theorem chosenTime_requested (call : TimeCall) (existing : Timestamp) :
    chosenTime (some call.requested) call.clock existing = call.value := by
  unfold chosenTime TimeCall.value
  cases call.requested with
  | specificTime value => rfl
  | now => rfl

theorem setattr_of_ok {atime mtime : Option TimeOrNow} {clock access modification : Int}
    {now : Timestamp} {changed : Database} {next : Inode}
    (answer : mount.database.entryOf volume inode = .ok row)
    (accessEq : chosenTime atime clock row.atime = access)
    (modificationEq : chosenTime mtime clock row.mtime = modification)
    (accessAfter : 0 ≤ access) (modificationAfter : 0 ≤ modification)
    (done : mount.database.setTimes volume row.path (access / 1000000000) (access % 1000000000)
      (modification / 1000000000) (modification % 1000000000) now = .ok (changed, [next])) :
    setattr volume inode false atime mtime clock now mount =
      (.ok next, Mount.remembering { mount.remembering row with database := changed.commit } next) := by
  have told : entry volume inode mount = (.ok row, mount.remembering row) := by
    rw [entry_eq, answer]
  have stored : Client.setTimes volume row.path (access / 1000000000, access % 1000000000)
      (modification / 1000000000, modification % 1000000000) now (mount.remembering row) =
        (.ok next, { mount.remembering row with database := changed.commit }) :=
    client_setTimes_of_ok done
  unfold setattr
  rw [if_neg Bool.false_ne_true]
  apply reporting_of_ok
  rw [bind_of_ok told, accessEq, bind_of_ok (timestamp_of_nonneg accessAfter _), modificationEq,
    bind_of_ok (timestamp_of_nonneg modificationAfter _), bind_of_ok stored]
  rfl

theorem setattr_row (leads : Leads volume mount inode row) {atime mtime : Option TimeOrNow}
    {clock access modification : Int} (accessEq : chosenTime atime clock row.atime = access)
    (modificationEq : chosenTime mtime clock row.mtime = modification)
    (accessAfter : 0 ≤ access) (modificationAfter : 0 ≤ modification)
    {accessTime modificationTime : Timestamp}
    (accessOk : toTimestamp (access / 1000000000) (access % 1000000000) = .ok accessTime)
    (modificationOk : toTimestamp (modification / 1000000000) (modification % 1000000000) =
      .ok modificationTime) (now : Timestamp) :
    ∃ next after, setattr volume inode false atime mtime clock now mount = (.ok next, after) ∧
      Leads volume after inode next ∧ next.atime = accessTime ∧ next.mtime = modificationTime := by
  obtain ⟨changed, done, shown, found⟩ := setTimes_row leads.committed.sound leads.stated
    accessOk modificationOk (fraction_range access) (fraction_range modification) now
  have kept := (setTimes_kept (.refl leads.committed.sound) done).commit
  refine ⟨_, _, setattr_of_ok leads.answer accessEq modificationEq accessAfter modificationAfter
    done, ⟨⟨kept.sound, rfl⟩, ?_, shown⟩, rfl, rfl⟩
  exact entryOf_of_row leads shown found

theorem timestamp_of_neg {value : Int} (before : value < 0) (mount : Mount) :
    ∃ failure, timestamp value mount = (.error failure, mount) := by
  unfold timestamp
  rw [if_pos before]
  exact ⟨_, rfl⟩

theorem setattr_before_epoch {atime mtime : Option TimeOrNow} {clock access modification : Int}
    (answer : mount.database.entryOf volume inode = .ok row)
    (accessEq : chosenTime atime clock row.atime = access)
    (modificationEq : chosenTime mtime clock row.mtime = modification)
    (before : access < 0 ∨ modification < 0) (now : Timestamp) :
    setattr volume inode false atime mtime clock now mount =
      (.error .io, mount.remembering row) := by
  have told : entry volume inode mount = (.ok row, mount.remembering row) := by
    rw [entry_eq, answer]
  unfold setattr
  rw [if_neg Bool.false_ne_true, reporting_congr (bind_of_ok told), accessEq, modificationEq]
  by_cases accessBefore : access < 0
  · obtain ⟨failure, failed⟩ := timestamp_of_neg accessBefore (mount.remembering row)
    exact reporting_of_error (bind_of_error failed)
  · obtain ⟨failure, failed⟩ := timestamp_of_neg (before.resolve_left accessBefore)
      (mount.remembering row)
    rw [reporting_congr (bind_of_ok (timestamp_of_nonneg (Int.not_lt.mp accessBefore) _))]
    exact reporting_of_error (bind_of_error failed)

end Setattr

/-- A stored time that is a whole second from the epoch on and that double precision carries. -/
structure WholeSecond (time : Int) : Prop where
  after : 0 ≤ time
  whole : time % 1000000 = 0
  inRange : time < 9224318016000000000
  carried : CarriedSecond (time / 1000000)

theorem wholeSecond_of_le {time : Int} (after : 0 ≤ time) (whole : time % 1000000 = 0)
    (near : time ≤ 577407437103000000) : WholeSecond time := by
  refine ⟨after, whole, by omega, carriedSecond_of_le ?_⟩
  rw [abs_le]
  omega

theorem WholeSecond.systemTime {time : Int} (second : WholeSecond time) :
    systemTime time = time * 1000 := by
  obtain ⟨after, whole, inRange, -⟩ := second
  have seconds : epochSeconds time * 1000000 = time :=
    Int.ediv_mul_cancel (Int.dvd_of_emod_eq_zero whole)
  have fraction : nanosecondsColumn time = 0 := by
    unfold nanosecondsColumn extractMicroseconds
    rw [Int.tmod_eq_emod_of_nonneg (by omega)]
    omega
  have columns : systemTimeOf (epochSeconds time) (nanosecondsColumn time) =
      some (PostgreOS.systemTime time) := systemTimeOf_columns (by omega)
  rw [fraction, systemTimeOf_of_nonneg ⟨by omega, by omega, by omega⟩ (by omega)] at columns
  have instants : epochSeconds time * 1000000000 + (0 : Nat) = time * 1000 := by
    omega
  exact (Option.some.inj columns).symm.trans instants

theorem WholeSecond.toTimestamp {time : Int} (second : WholeSecond time) :
    toTimestamp (time * 1000 / 1000000000) (time * 1000 % 1000000000) = .ok time := by
  obtain ⟨after, whole, inRange, carried⟩ := second
  have seconds : time * 1000 / 1000000000 = time / 1000000 := by omega
  have fraction : time * 1000 % 1000000000 = 0 := by omega
  have same : time / 1000000 * 1000000 = time := by omega
  rw [seconds, fraction, toTimestamp_of_carried carried (by omega) (by omega), same]

theorem systemTime_neg {time : Int} (before : time < 0) : systemTime time < 0 := by
  change (if 0 ≤ time / 1000000 then time / 1000000 * 1000000000 + time % 1000000
    else -(-(time / 1000000) * 1000000000 + time % 1000000)) < 0
  rw [if_neg (by omega)]
  omega

section SetTime

variable {volume : Uuid} {mount : Mount} {inode : INodeNo} {row : Inode}

theorem setTime_row (leads : Leads volume mount inode row) {field : TimeField}
    (second : WholeSecond (field.untouched row)) {call : TimeCall} (supplied : call.InRange) :
    ∃ next last, setTime volume inode field call mount = (.ok next, last) ∧
      Leads volume last inode next ∧ field.supplied next = call.stored ∧
      field.untouched next = field.untouched row := by
  obtain ⟨suppliedAfter, time, stored⟩ := supplied
  have storedEq : time = call.stored := toTimestamp_eq_ok stored
  have untouchedAfter : 0 ≤ field.untouched row * 1000 :=
    Int.mul_nonneg second.after (by decide)
  cases field with
  | atime =>
      have kept : chosenTime none call.clock row.mtime = row.mtime * 1000 := second.systemTime
      obtain ⟨next, last, done, leads, set, left⟩ := setattr_row leads
        (chosenTime_requested call row.atime) kept suppliedAfter untouchedAfter stored
        second.toTimestamp call.now
      exact ⟨next, last, done, leads, set.trans storedEq, left⟩
  | mtime =>
      have kept : chosenTime none call.clock row.atime = row.atime * 1000 := second.systemTime
      obtain ⟨next, last, done, leads, left, set⟩ := setattr_row leads kept
        (chosenTime_requested call row.mtime) untouchedAfter suppliedAfter second.toTimestamp
        stored call.now
      exact ⟨next, last, done, leads, set.trans storedEq, left⟩

theorem setTime_before_epoch (answer : mount.database.entryOf volume inode = .ok row)
    {field : TimeField} {call : TimeCall} (before : field.untouched row < 0 ∨ call.value < 0) :
    setTime volume inode field call mount = (.error .io, mount.remembering row) := by
  cases field with
  | atime =>
      exact setattr_before_epoch answer (chosenTime_requested call row.atime) rfl
        (before.symm.imp_right systemTime_neg) call.now
  | mtime =>
      exact setattr_before_epoch answer rfl (chosenTime_requested call row.mtime)
        (before.imp_left systemTime_neg) call.now

theorem setTimeMany_row (leads : Leads volume mount inode row) {field : TimeField}
    (second : WholeSecond (field.untouched row)) {calls : List TimeCall}
    (supplied : ∀ call ∈ calls, call.InRange) :
    ∃ rows last, setTimeMany volume inode field calls mount = (.ok rows, last) ∧
      last.database.entryOf volume inode = .ok (rows.getLastD row) ∧
      rows.map field.supplied = calls.map TimeCall.stored ∧
      ∀ shown ∈ rows, field.untouched shown = field.untouched row := by
  induction calls generalizing mount row with
  | nil => exact ⟨[], mount, rfl, leads.answer, rfl, by simp⟩
  | cons call rest ih =>
      rw [List.forall_mem_cons] at supplied
      obtain ⟨next, middle, done, nextLeads, set, left⟩ := setTime_row leads second supplied.1
      obtain ⟨rows, last, ran, answer, times, kept⟩ := ih nextLeads (left ▸ second) supplied.2
      refine ⟨next :: rows, last, ?_, ?_, ?_, ?_⟩
      · unfold setTimeMany
        rw [bind_of_ok done, bind_of_ok ran]
        rfl
      · rw [List.getLastD_cons]
        exact answer
      · rw [List.map_cons, List.map_cons, set, times]
      · intro shown member
        rcases List.mem_cons.mp member with rfl | later
        · exact left
        · exact (kept shown later).trans left

end SetTime

/-- Calls that set one time leave the other if it is a whole second from the epoch on that
double precision carries, and in our time they store what they are given to the microsecond. A
call with a time before the epoch fails and changes nothing. -/
theorem setattr_of_one_time {volume : Uuid} {mount : Mount} {inode : INodeNo} {row : Inode}
    (leads : Leads volume mount inode row) (field : TimeField) :
    (WholeSecond (field.untouched row) →
      ∀ calls : List TimeCall, (∀ call ∈ calls, call.InRange) →
        ∃ rows last, setTimeMany volume inode field calls mount = (.ok rows, last) ∧
          last.database.entryOf volume inode = .ok (rows.getLastD row) ∧
          rows.map field.supplied = calls.map TimeCall.stored ∧
          ∀ shown ∈ rows, field.untouched shown = field.untouched row) ∧
    (∀ call : TimeCall, 0 ≤ call.value → call.value < 2147483647000000000 →
      call.InRange ∧ |call.stored * 1000 - call.value| < 1000) ∧
    ∀ call : TimeCall, field.untouched row < 0 ∨ call.value < 0 →
      ∃ last, setTime volume inode field call mount = (.error .io, last) ∧
        last.database = mount.database := by
  refine ⟨?_, ?_, ?_⟩
  · intro second calls inRange
    exact setTimeMany_row leads second inRange
  · intro call after near
    exact ⟨call.inRange_of_recent after near, call.stored_near after near⟩
  · intro call before
    exact ⟨mount.remembering row, setTime_before_epoch leads.answer before, rfl⟩

def touchedAt (atime mtime : Int) : Database :=
  Database.empty.calls (touchCalls ++ [.setTimes 7 ['/', 'a'] atime 0 mtime 0 2])

theorem leads_of_touchedAt {atime mtime : Int} {time : Timestamp}
    (guarded : WellFormedVolume (touchedAt atime mtime) 7)
    (stored : (fun row => row.mtime) <$> (touchedAt atime mtime).entryOf 7 4 = .ok time) :
    ∃ row, Leads 7 (Mount.new (touchedAt atime mtime)) 4 row ∧ row.mtime = time := by
  obtain ⟨row, answer, sameTime⟩ := map_eq_ok.mp stored
  exact ⟨row, .of_wellFormed guarded answer, sameTime⟩

/-- Two calls after the times have been set to whole seconds. -/
theorem setattr_of_one_time_of_new : ∃ rows last,
    setTimeMany 7 4 .atime [⟨.specificTime 7000, 0, 3⟩, ⟨.now, 9000, 4⟩]
        (Mount.new (touchedAt 5 6)) = (.ok rows, last) ∧ ∀ shown ∈ rows, shown.mtime = 6000000 := by
  obtain ⟨row, leads, time⟩ : ∃ row, Leads 7 (Mount.new (touchedAt 5 6)) 4 row ∧
      row.mtime = 6000000 :=
    leads_of_touchedAt (wellFormed_calls (by decide +kernel)) (by decide +kernel)
  have second : WholeSecond (TimeField.atime.untouched row) := by
    change WholeSecond row.mtime
    rw [time]
    exact wholeSecond_of_le (by decide) (by decide) (by decide)
  have inRange : ∀ call ∈ ([⟨.specificTime 7000, 0, 3⟩, ⟨.now, 9000, 4⟩] : List TimeCall),
      call.InRange := by
    intro call member
    apply call.inRange_of_recent
    all_goals
      revert call
      decide
  obtain ⟨rows, last, done, -, -, kept⟩ := (setattr_of_one_time leads .atime).1 second _ inRange
  refine ⟨rows, last, done, ?_⟩
  intro shown member
  exact (kept shown member).trans time

/-- Times before the epoch cannot be set one by one. -/
theorem setattr_refuses_old_times :
    (∃ row, Leads 7 (Mount.new (touchedAt (-1) (-1))) 4 row) ∧
      (setTime 7 4 .atime ⟨.specificTime 7000, 0, 3⟩ (Mount.new (touchedAt (-1) (-1)))).1 =
        .error .io := by
  obtain ⟨row, leads, -⟩ : ∃ row, Leads 7 (Mount.new (touchedAt (-1) (-1))) 4 row ∧
      row.mtime = -1000000 :=
    leads_of_touchedAt (wellFormed_calls (by decide +kernel)) (by decide +kernel)
  exact ⟨⟨row, leads⟩, by decide +kernel⟩

end PostgreOS
