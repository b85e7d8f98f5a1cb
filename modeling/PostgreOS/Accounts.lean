/-
The counters of the zones.

The statement triggers move the counters by what left and joined each zone, so the
counters are exact after every statement, whatever rows it touches.
-/

import PostgreOS.Keys

namespace PostgreOS

open Library.Table

/-- The counters of a zone count its entries and the bytes of its regular files. -/
def Accounted (entries : List ZoneEntry) (zone : Zone) : Prop :=
  zone.entryCount = entryCountOf zone.toZoneNode entries ∧
    zone.fileBytes = fileBytesOf zone.toZoneNode entries

def Accounts (db : Database) : Prop :=
  ∀ zone ∈ db.zones, Accounted db.zoneEntries zone

def countWeight (zone : ZoneNode) (entry : ZoneEntry) : Int :=
  if entry.volumeId = zone.volumeId ∧ entry.zoneId = zone.id then 1 else 0

def bytesWeight (zone : ZoneNode) (entry : ZoneEntry) : Int :=
  if entry.volumeId = zone.volumeId ∧ entry.zoneId = zone.id ∧ entry.kind = .file then entry.size
  else 0

theorem entryCountOf_eq_total (zone : ZoneNode) (entries : List ZoneEntry) :
    entryCountOf zone entries = total (countWeight zone) entries := by
  unfold entryCountOf entriesOfZone
  induction entries with
  | nil => rfl
  | cons entry rest ih =>
      rw [total_cons, ← ih, List.filter_cons]
      unfold countWeight
      by_cases inZone : entry.volumeId = zone.volumeId ∧ entry.zoneId = zone.id
      · rw [if_pos (by simpa using inZone), if_pos inZone, List.length_cons]
        omega
      · rw [if_neg (by simpa using inZone), if_neg inZone]
        omega

theorem fileBytesOf_eq_total (zone : ZoneNode) (entries : List ZoneEntry) :
    fileBytesOf zone entries = total (bytesWeight zone) entries := by
  unfold fileBytesOf entriesOfZone
  rw [total_filter, total_filter]
  apply total_congr
  intro entry _
  unfold bytesWeight
  simp only [decide_eq_true_eq]
  by_cases inZone : entry.volumeId = zone.volumeId ∧ entry.zoneId = zone.id
  · rw [if_pos inZone]
    by_cases file : entry.kind = .file
    · rw [if_pos file, if_pos ⟨inZone.1, inZone.2, file⟩]
    · rw [if_neg file, if_neg fun all => file all.2.2]
  · rw [if_neg inZone, if_neg fun all => inZone ⟨all.1, all.2.1⟩]

theorem Accounted.adjust {before after removed added : List ZoneEntry} {zone : Zone}
    (accounted : Accounted before zone)
    (balanced : ∀ weight : ZoneEntry → Int,
      total weight after = total weight before - total weight removed + total weight added) :
    Accounted after (adjustCounters removed added zone) := by
  obtain ⟨count, bytes⟩ := accounted
  constructor
  · change zone.entryCount - entryCountOf zone.toZoneNode removed +
      entryCountOf zone.toZoneNode added = entryCountOf zone.toZoneNode after
    rw [count]
    simp only [entryCountOf_eq_total]
    exact (balanced _).symm
  · change zone.fileBytes - fileBytesOf zone.toZoneNode removed +
      fileBytesOf zone.toZoneNode added = fileBytesOf zone.toZoneNode after
    rw [bytes]
    simp only [fileBytesOf_eq_total]
    exact (balanced _).symm

theorem entryCountOf_append (zone : ZoneNode) (first second : List ZoneEntry) :
    entryCountOf zone (first ++ second) = entryCountOf zone first + entryCountOf zone second := by
  simp only [entryCountOf_eq_total, total_append]

theorem fileBytesOf_append (zone : ZoneNode) (first second : List ZoneEntry) :
    fileBytesOf zone (first ++ second) = fileBytesOf zone first + fileBytesOf zone second := by
  simp only [fileBytesOf_eq_total, total_append]

theorem adjustCounters_append (first second : List ZoneEntry) (zone : Zone) :
    adjustCounters [] (first ++ second) zone =
      adjustCounters [] second (adjustCounters [] first zone) := by
  unfold adjustCounters
  dsimp only
  congr 1
  · rw [entryCountOf_append]
    change _ = _ - (0 : Int) + _
    omega
  · rw [fileBytesOf_append]
    change _ = _ - (0 : Int) + _
    omega

theorem zoneEntriesAfterInsert_append (first second : List ZoneEntry) (zones : List Zone) :
    zoneEntriesAfterInsert (first ++ second) zones =
      zoneEntriesAfterInsert second (zoneEntriesAfterInsert first zones) := by
  unfold zoneEntriesAfterInsert
  rw [List.map_map]
  exact List.map_congr_left fun zone _ => adjustCounters_append first second zone

theorem insertEntries_of_not_distinct {db : Database} {makers : List (NodeId → ZoneEntry)}
    (clashing : ¬ Distinct entryClash (db.zoneEntries ++ numbered db.nextNode makers)) :
    db.insertEntries makers = uniqueViolation := by
  unfold Database.insertEntries insertRows
  rw [if_neg clashing]

theorem insertEntries_append (db : Database) (first second : List (NodeId → ZoneEntry)) :
    db.insertEntries (first ++ second) =
      db.insertEntries first >>= fun middle => middle.insertEntries second := by
  have rows : db.zoneEntries ++ numbered db.nextNode (first ++ second) =
      (db.zoneEntries ++ numbered db.nextNode first) ++
        numbered (db.nextNode + first.length) second := by
    rw [numbered_append, List.append_assoc]
  by_cases front : Distinct entryClash (db.zoneEntries ++ numbered db.nextNode first)
  · rw [insertEntries_of_distinct front]
    change _ = Database.insertEntries _ second
    by_cases whole : Distinct entryClash
        ((db.zoneEntries ++ numbered db.nextNode first) ++
          numbered (db.nextNode + first.length) second)
    · rw [@insertEntries_of_distinct _ second whole,
        insertEntries_of_distinct (by rw [rows]; exact whole), rows, numbered_append,
        zoneEntriesAfterInsert_append, List.length_append, ← Nat.add_assoc]
    · rw [@insertEntries_of_not_distinct _ second whole,
        insertEntries_of_not_distinct (by rw [rows]; exact whole)]
  · rw [insertEntries_of_not_distinct front, insertEntries_of_not_distinct]
    · rfl
    · rw [rows]
      exact fun whole => front (List.pairwise_append.mp whole).1

theorem Accounts.congr {db after : Database} (accounts : Accounts db)
    (same : SameTables db after) : Accounts after := by
  unfold Accounts
  rw [same.zones, same.zoneEntries]
  exact accounts

/-! ### The statements keep the counters -/

section Statements

variable {db after : Database} (accounts : Accounts db)

include accounts

theorem Accounts.insertEntries {makers : List (NodeId → ZoneEntry)}
    (inserted : db.insertEntries makers = .ok after) : Accounts after := by
  obtain ⟨rfl, -⟩ := insertEntries_ok inserted
  intro zone member
  obtain ⟨old, oldMember, rfl⟩ := List.mem_map.mp member
  refine (accounts old oldMember).adjust ?_
  intro weight
  rw [total_append, total_nil]
  omega

theorem Accounts.deleteEntries (selected : ZoneEntry → Bool) :
    Accounts (db.deleteEntries selected) := by
  intro zone member
  obtain ⟨old, oldMember, rfl⟩ := List.mem_map.mp member
  refine (accounts old oldMember).adjust ?_
  intro weight
  have whole := total_filter_add weight selected db.zoneEntries
  change total weight (db.zoneEntries.filter fun entry => !selected entry) = _
  rw [total_nil]
  omega

theorem Accounts.updateEntries {selected : ZoneEntry → Bool} {change : ZoneEntry → ZoneEntry}
    (updated : db.updateEntries selected change = .ok after) : Accounts after := by
  obtain ⟨rfl, -⟩ := updateEntries_ok updated
  intro zone member
  obtain ⟨old, oldMember, rfl⟩ := List.mem_map.mp member
  exact (accounts old oldMember).adjust fun weight =>
    total_rewritten weight selected change db.zoneEntries

theorem Accounts.insertZone {make : NodeId → ZoneNode} {id : NodeId}
    (fresh : ∀ entry ∈ db.zoneEntries, entry.zoneId < db.nextNode)
    (ids : ∀ serial, (make serial).id = serial)
    (inserted : db.insertZone make = .ok (after, id)) : Accounts after := by
  obtain ⟨rfl, -⟩ := insertZone_ok inserted
  intro zone member
  rcases List.mem_append.mp member with old | new
  · exact accounts zone old
  · rw [List.mem_singleton.mp new]
    have noEntries : entriesOfZone (make db.nextNode) db.zoneEntries = [] := by
      unfold entriesOfZone
      rw [List.filter_eq_nil_iff]
      intro entry entryMember inZone
      simp only [decide_eq_true_eq] at inZone
      have bound := fresh entry entryMember
      rw [inZone.2, ids] at bound
      exact Nat.lt_irrefl _ bound
    constructor
    · change (0 : Int) = entryCountOf (make db.nextNode) db.zoneEntries
      unfold entryCountOf
      rw [noEntries]
      rfl
    · change (0 : Int) = fileBytesOf (make db.nextNode) db.zoneEntries
      unfold fileBytesOf
      rw [noEntries]
      rfl

theorem Accounts.deleteZones (selected : Zone → Bool) : Accounts (db.deleteZones selected) :=
  fun zone member => accounts zone (List.mem_of_mem_filter member)

theorem Accounts.updateZones {selected : Zone → Bool} {change : Zone → Zone}
    (same : ∀ zone ∈ db.zones, selected zone = true →
      (change zone).id = zone.id ∧ (change zone).volumeId = zone.volumeId ∧
        (change zone).entryCount = zone.entryCount ∧ (change zone).fileBytes = zone.fileBytes)
    (updated : db.updateZones selected change = .ok after) : Accounts after := by
  obtain ⟨rfl, -⟩ := updateZones_ok updated
  intro zone member
  obtain ⟨old, oldMember, rfl⟩ := List.mem_map.mp member
  have exact_before := accounts old oldMember
  unfold rewritten
  split
  · rename_i chosen
    obtain ⟨id, volume, count, bytes⟩ := same old oldMember chosen
    unfold Accounted entryCountOf fileBytesOf entriesOfZone at exact_before ⊢
    rw [id, volume, count, bytes]
    exact exact_before
  · exact exact_before

end Statements

end PostgreOS
