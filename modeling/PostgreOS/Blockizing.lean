/-
Moving the inline text of a zone to blocks.

The mapping pairs every entry that keeps its text in the row with a fresh object id.
Each pair becomes an object with the blocks of the text, and the entry refers to the
object from then on; the bytes of every file stay the same.
-/

import PostgreOS.Accounts
import PostgreOS.ContentStore

namespace PostgreOS

open Library.LineBlocks Library.Outcome Library.Table

def objectPairs (next : Uuid) (pending : List ZoneEntry) : List (Uuid × ZoneEntry) :=
  numbered next (pending.map fun entry objectId => (objectId, entry))

theorem objectPairs_fst (next : Uuid) (pending : List ZoneEntry) :
    (objectPairs next pending).map Prod.fst = List.range' next pending.length := by
  have ids := map_numbered (α := Uuid × ZoneEntry) Prod.fst next
    (pending.map fun entry objectId => (objectId, entry)) (by
      intro make member serial
      obtain ⟨entry, -, rfl⟩ := List.mem_map.mp member
      rfl)
  rwa [List.length_map] at ids

theorem objectPairs_snd (next : Uuid) (pending : List ZoneEntry) :
    (objectPairs next pending).map Prod.snd = pending := by
  have entries := map_numbered_const (α := Uuid × ZoneEntry) Prod.snd
    (fun (entry : ZoneEntry) objectId => (objectId, entry)) id (fun _ _ => rfl) next pending
  rwa [List.map_id] at entries

theorem objectPairs_bound {next : Uuid} {pending : List ZoneEntry} {pair : Uuid × ZoneEntry}
    (member : pair ∈ objectPairs next pending) :
    next ≤ pair.1 ∧ pair.1 < next + pending.length := by
  have inRange : pair.1 ∈ List.range' next pending.length := by
    rw [← objectPairs_fst]
    exact List.mem_map_of_mem member
  exact List.mem_range'_1.mp inRange

/-- The running transaction maps the inline texts of a zone to ids from `next` on. -/
def Mapped (db : Database) (volume : Uuid) (zone : NodeId) (next : Uuid) : Prop :=
  db.contentMapping = some (numbered next
    ((db.zoneEntries.filter (inlineText volume zone)).map fun entry objectId =>
      (entry.id, objectId)))

variable {db : Database} {volume : Uuid} {zone : NodeId} {next : Uuid}

theorem createContentMapping_ok {after : Database}
    (created : db.createContentMapping volume zone = .ok after) :
    after = { db with
      contentMapping := after.contentMapping
      nextUuid := db.nextUuid + (db.zoneEntries.filter (inlineText volume zone)).length } ∧
      Mapped after volume zone db.nextUuid := by
  unfold Database.createContentMapping at created
  split at created
  · cases created
  · cases created
    exact ⟨rfl, rfl⟩

theorem createContentMapping_of_none (volume : Uuid) (zone : NodeId)
    (fresh : db.contentMapping = none) :
    ∃ after, db.createContentMapping volume zone = .ok after := by
  unfold Database.createContentMapping
  rw [fresh]
  exact ⟨_, rfl⟩

theorem Mapped.mapping (mapped : Mapped db volume zone next) :
    db.contentMapping.getD [] =
      (objectPairs next (db.zoneEntries.filter (inlineText volume zone))).map fun pair =>
        (pair.2.id, pair.1) := by
  rw [mapped, objectPairs, numbered_map]
  rfl

theorem inlineText_iff {entry : ZoneEntry} :
    inlineText volume zone entry = true ↔ entry.volumeId = volume ∧ entry.zoneId = zone ∧
      ∃ content, entry.payload = .file (.text content) none := by
  unfold inlineText ZoneEntry.kind ZoneEntry.textContent ZoneEntry.contentObject
  rw [decide_eq_true_eq]
  cases payload : entry.payload with
  | file data reference =>
      cases data <;> cases reference <;> simp [Payload.kind]
  | directory => simp [Payload.kind]
  | symlink target => simp [Payload.kind]

theorem mappedEntries_eq (ids : (db.zoneEntries.map ZoneEntry.id).Nodup)
    (mapped : Mapped db volume zone next) :
    db.mappedEntries volume zone =
      objectPairs next (db.zoneEntries.filter (inlineText volume zone)) := by
  unfold Database.mappedEntries
  rw [mapped.mapping, List.flatMap_map]
  have single : ∀ pair ∈ objectPairs next (db.zoneEntries.filter (inlineText volume zone)),
      ((db.zoneEntries.filter fun entry => decide (entry.volumeId = volume ∧ entry.zoneId = zone ∧
        entry.id = pair.2.id)).map fun entry => (pair.1, entry)) = [pair] := by
    intro pair member
    have pending : pair.2 ∈ db.zoneEntries.filter (inlineText volume zone) := by
      rw [← objectPairs_snd next (db.zoneEntries.filter _)]
      exact List.mem_map_of_mem member
    obtain ⟨inTable, inline⟩ := List.mem_filter.mp pending
    obtain ⟨inVolume, inZone, -⟩ := inlineText_iff.mp inline
    rw [filter_eq_singleton ids inTable (by simp [inVolume, inZone])]
    · rfl
    · intro other _ chosen
      exact (of_decide_eq_true chosen).2.2
  rw [List.flatMap_congr single]
  exact List.flatMap_singleton' _

/-- The rows of one object among the rows of several. -/
theorem filter_flatten_blocks {items : List (Uuid × ZoneEntry)} {lists : List (List ContentBlock)}
    (related : Uuid × ZoneEntry → List ContentBlock → Prop)
    (each : List.Forall₂ (fun item list => (∀ block ∈ list, block.objectId = item.1) ∧
      related item list) items lists)
    (nodup : (items.map Prod.fst).Nodup) :
    ∀ item ∈ items, related item
      (lists.flatten.filter fun block => block.objectId = item.1) := by
  induction each with
  | nil => exact fun item member => absurd member List.not_mem_nil
  | @cons item list rest others fits later ih =>
      rw [List.map_cons, List.nodup_cons] at nodup
      intro chosen member
      rw [List.flatten_cons, List.filter_append]
      rcases List.mem_cons.mp member with rfl | inRest
      · have own : list.filter (fun block => decide (block.objectId = chosen.1)) = list := by
          rw [List.filter_eq_self]
          exact fun block blockMember => decide_eq_true (fits.1 block blockMember)
        have foreign : others.flatten.filter (fun block => decide (block.objectId = chosen.1)) = [] := by
          rw [List.filter_eq_nil_iff]
          intro block blockMember same
          obtain ⟨other, otherMember, inside⟩ := List.mem_flatten.mp blockMember
          obtain ⟨pair, pairMember, pairFits⟩ := exists_left_of_forall₂ _ later otherMember
          rw [decide_eq_true_eq, pairFits.1 block inside] at same
          exact nodup.1 (same ▸ List.mem_map_of_mem pairMember)
        rw [own, foreign, List.append_nil]
        exact fits.2
      · have foreign : list.filter (fun block => decide (block.objectId = chosen.1)) = [] := by
          rw [List.filter_eq_nil_iff]
          intro block blockMember same
          rw [decide_eq_true_eq, fits.1 block blockMember] at same
          exact nodup.1 (same ▸ List.mem_map_of_mem inRest)
        rw [foreign, List.nil_append]
        exact ih nodup.2 chosen inRest

/-- Every inline text of a sound table can be cut into blocks. -/
theorem mappedBlocks_ok (ids : (db.zoneEntries.map ZoneEntry.id).Nodup)
    (mapped : Mapped db volume zone next)
    (stored : ∀ entry ∈ db.zoneEntries, Stored db.contentObjects entry) (segment : Option Uuid) :
    ∃ blocks, db.mappedBlocks volume zone segment = .ok blocks ∧
      (∀ block ∈ blocks, block.segmentId = segment ∧ block.volumeId = volume ∧
        ∃ pair ∈ objectPairs next (db.zoneEntries.filter (inlineText volume zone)),
          block.objectId = pair.1) ∧
      ∀ pair ∈ objectPairs next (db.zoneEntries.filter (inlineText volume zone)),
        BlocksOf (pair.2.textContent.getD [])
          ((blocks.filter fun block => block.objectId = pair.1).map ContentBlock.toLineBlock) := by
  unfold Database.mappedBlocks
  rw [mappedEntries_eq ids mapped]
  obtain ⟨lists, done, each⟩ := exists_mapM
    (objectPairs next (db.zoneEntries.filter (inlineText volume zone)))
    (fun mapped : Uuid × ZoneEntry => do
      let split ← splitTextBlocks (mapped.2.textContent.getD []) 8192
      .ok (split.map fun block : LineBlock Char =>
        { toLineBlock := block
          objectId := mapped.1
          volumeId := volume
          segmentId := segment : ContentBlock }))
    (fun mapped list => (∀ block ∈ list, block.objectId = mapped.1) ∧
      ((∀ block ∈ list, block.segmentId = segment ∧ block.volumeId = volume) ∧
        BlocksOf (mapped.2.textContent.getD []) (list.map ContentBlock.toLineBlock))) (by
      intro pair member
      have pending : pair.2 ∈ db.zoneEntries.filter (inlineText volume zone) := by
        rw [← objectPairs_snd next (db.zoneEntries.filter _)]
        exact List.mem_map_of_mem member
      obtain ⟨inTable, inline⟩ := List.mem_filter.mp pending
      obtain ⟨-, -, content, payload⟩ := inlineText_iff.mp inline
      have clean := stored pair.2 inTable
      unfold Stored at clean
      rw [payload] at clean
      obtain ⟨split, cut, blocks⟩ := splitTextBlocks_ok clean.2 (by decide : 0 < 8192)
      have text : pair.2.textContent.getD [] = content := by
        rw [ZoneEntry.textContent, payload]
        rfl
      rw [text, cut]
      refine ⟨_, rfl, ?_, ?_, ?_⟩
      · intro block blockMember
        obtain ⟨line, -, rfl⟩ := List.mem_map.mp blockMember
        rfl
      · intro block blockMember
        obtain ⟨line, -, rfl⟩ := List.mem_map.mp blockMember
        exact ⟨rfl, rfl⟩
      · rw [List.map_map]
        change BlocksOf content (split.map fun line => line)
        rw [List.map_id']
        exact blocks)
  rw [done]
  refine ⟨lists.flatten, rfl, ?_, ?_⟩
  · intro block member
    obtain ⟨list, listMember, inside⟩ := List.mem_flatten.mp member
    obtain ⟨pair, pairMember, owned, placed, -⟩ := exists_left_of_forall₂ _ each listMember
    obtain ⟨segmentOk, volumeOk⟩ := placed block inside
    exact ⟨segmentOk, volumeOk, pair, pairMember, owned block inside⟩
  · intro pair member
    have nodup : ((objectPairs next (db.zoneEntries.filter (inlineText volume zone))).map
        Prod.fst).Nodup := by
      rw [objectPairs_fst]
      exact List.nodup_range'
    exact (filter_flatten_blocks (fun mapped list =>
      (∀ block ∈ list, block.segmentId = segment ∧ block.volumeId = volume) ∧
        BlocksOf (mapped.2.textContent.getD []) (list.map ContentBlock.toLineBlock))
      each nodup pair member).2

/-- The entry once its text is in the blocks of an object. -/
def inObject (object : Uuid) (entry : ZoneEntry) : ZoneEntry :=
  { entry with payload := .file (.text []) (some object) }

/-- The rows after the inline text of a zone has been moved to the objects of the pairs. -/
structure Detached (entries : List ZoneEntry) (volume : Uuid) (zone : NodeId)
    (pairs : List (Uuid × ZoneEntry)) (change : ZoneEntry → ZoneEntry) : Prop where
  kept : ∀ entry ∈ entries, inlineText volume zone entry = false → change entry = entry
  moved : ∀ entry ∈ entries, inlineText volume zone entry = true →
    ∃ object, (object, entry) ∈ pairs ∧ change entry = inObject object entry

/-- The assignments of the update at the end of both blockizing functions. -/
def detachedBy (mapping : List (NodeId × Uuid)) (entry : ZoneEntry) : ZoneEntry :=
  match mapping.lookup entry.id with
  | some object => detachText object entry
  | none => entry

/-- The update at the end of both blockizing functions succeeds and detaches the texts. -/
theorem detachMapped_ok (db : Database) (ids : (db.zoneEntries.map ZoneEntry.id).Nodup)
    (distinct : Distinct entryClash db.zoneEntries) (mapped : Mapped db volume zone next) :
    ∃ after selected change, db.detachMapped volume zone = .ok after ∧
      db.updateEntries selected change = .ok after ∧
      Detached db.zoneEntries volume zone
        (objectPairs next (db.zoneEntries.filter (inlineText volume zone)))
        (rewritten selected change) := by
  have mapping := mapped.mapping
  have keys : ((db.contentMapping.getD []).map Prod.fst) =
      (db.zoneEntries.filter (inlineText volume zone)).map ZoneEntry.id := by
    conv => rhs; rw [← objectPairs_snd next (db.zoneEntries.filter (inlineText volume zone))]
    rw [mapping, List.map_map, List.map_map]
    rfl
  have nodup : ((db.contentMapping.getD []).map Prod.fst).Nodup := by
    rw [keys]
    exact ids.sublist (List.filter_sublist.map ZoneEntry.id)
  unfold Database.detachMapped
  dsimp only
  obtain ⟨after, updated⟩ := updateEntries_of_same_keys db
    (fun entry => decide (entry.volumeId = volume ∧ entry.zoneId = zone ∧
      entry.id ∈ (db.contentMapping.getD []).map Prod.fst))
    (detachedBy (db.contentMapping.getD [])) distinct (by
      intro entry _ _ other
      unfold detachedBy
      split
      · unfold detachText
        split <;> rfl
      · rfl)
  refine ⟨after, _, _, updated, updated, ?_, ?_⟩
  · intro entry member outside
    apply rewritten_of_not_selected
    rw [decide_eq_false_iff_not]
    rintro ⟨-, -, listed⟩
    rw [keys] at listed
    obtain ⟨other, otherMember, same⟩ := List.mem_map.mp listed
    obtain ⟨inTable, inline⟩ := List.mem_filter.mp otherMember
    rw [List.inj_on_of_nodup_map ids inTable member same, outside] at inline
    cases inline
  · intro entry member inside
    obtain ⟨inVolume, inZone, content, payload⟩ := inlineText_iff.mp inside
    have pending : entry ∈ (objectPairs next
        (db.zoneEntries.filter (inlineText volume zone))).map Prod.snd := by
      rw [objectPairs_snd]
      exact List.mem_filter.mpr ⟨member, inside⟩
    obtain ⟨⟨object, paired⟩, pairMember, rfl⟩ := List.mem_map.mp pending
    change paired.payload = _ at payload
    refine ⟨object, pairMember, ?_⟩
    have listed : (paired.id, object) ∈ db.contentMapping.getD [] := by
      rw [mapping]
      exact List.mem_map.mpr ⟨_, pairMember, rfl⟩
    rw [rewritten_of_selected]
    · unfold detachedBy
      rw [lookup_eq_of_mem nodup listed]
      simp only [detachText, payload, inObject]
    · rw [decide_eq_true_eq]
      exact ⟨inVolume, inZone, List.mem_map.mpr ⟨_, listed, rfl⟩⟩

/-! ### What both functions do -/

/-- The facts that hold in every state, tree shape apart. -/
structure Sound (db : Database) : Prop where
  keys : Keys db
  accounts : Accounts db
  store : StoreSound db
  stored : ∀ entry ∈ db.zoneEntries, Stored db.contentObjects entry

/-- The inline texts of a zone have become objects and nothing else has changed. -/
structure Blockized (db after : Database) (volume : Uuid) (zone : NodeId)
    (change : ZoneEntry → ZoneEntry) : Prop where
  volumes : after.volumes = db.volumes
  zoneNodes : after.zoneNodes = db.zoneNodes
  zoneEntries : after.zoneEntries = db.zoneEntries.map change
  nextUuid : db.nextUuid ≤ after.nextUuid
  kept : ∀ entry ∈ db.zoneEntries, inlineText volume zone entry = false → change entry = entry
  moved : ∀ entry ∈ db.zoneEntries, inlineText volume zone entry = true →
    ∃ object, db.nextUuid ≤ object ∧ change entry = inObject object entry
  content : ∀ entry ∈ db.zoneEntries, after.contentOf (change entry) = db.contentOf entry
  blocks : ∀ object < db.nextUuid, after.blockRows object = db.blockRows object
  objects : ∀ object ∈ db.contentObjects, object ∈ after.contentObjects
  sound : Sound after

def pairObject (volume : Uuid) (segment : Option Uuid) (pair : Uuid × ZoneEntry) : ContentObject :=
  { id := pair.1, volumeId := volume, byteSize := pair.2.size, segmentId := segment }

theorem mappedObjects_eq (ids : (db.zoneEntries.map ZoneEntry.id).Nodup)
    (mapped : Mapped db volume zone next) (segment : Option Uuid) :
    db.mappedObjects volume zone segment =
      (objectPairs next (db.zoneEntries.filter (inlineText volume zone))).map
        (pairObject volume segment) := by
  unfold Database.mappedObjects
  rw [mappedEntries_eq ids mapped]
  rfl

theorem contentOf_object {after : Database} {entry : ZoneEntry} {object : Uuid} {content : Text}
    (blocks : BlocksOf content ((after.blockRows object).map ContentBlock.toLineBlock)) :
    after.contentOf (inObject object entry) = some (convertTo content) := by
  change some (convertTo (after.objectText object)) = _
  rw [objectText_eq blocks]

theorem contentOf_congr {after : Database} {entry : ZoneEntry}
    (same : ∀ object, entry.contentObject = some object →
      after.blockRows object = db.blockRows object) :
    after.contentOf entry = db.contentOf entry := by
  unfold Database.contentOf
  cases payload : entry.payload with
  | file data reference =>
      cases reference with
      | none => rfl
      | some object =>
          have rows := same object (by rw [ZoneEntry.contentObject, payload])
          simp only [objectText_congr rows]
  | directory => rfl
  | symlink target => rfl

section Detaching

variable {mid detached after : Database} {selected : ZoneEntry → Bool}
  {change : ZoneEntry → ZoneEntry}

theorem Detached.columns {entries : List ZoneEntry} {pairs : List (Uuid × ZoneEntry)}
    (detaches : Detached entries volume zone pairs change) {entry : ZoneEntry}
    (member : entry ∈ entries) :
    (change entry).id = entry.id ∧ (change entry).volumeId = entry.volumeId ∧
      (change entry).zoneId = entry.zoneId := by
  cases inline : inlineText volume zone entry with
  | false =>
      rw [detaches.kept entry member inline]
      exact ⟨rfl, rfl, rfl⟩
  | true =>
      obtain ⟨object, -, same⟩ := detaches.moved entry member inline
      rw [same]
      exact ⟨rfl, rfl, rfl⟩

theorem Detached.keys {pairs : List (Uuid × ZoneEntry)} (keys : Keys db) (same : SameTables db mid)
    (updated : mid.updateEntries selected change = .ok detached)
    (detaches : Detached db.zoneEntries volume zone pairs (rewritten selected change)) :
    Keys detached := by
  have columns {entry : ZoneEntry} (member : entry ∈ mid.zoneEntries)
      (chosen : selected entry = true) : (change entry).id = entry.id ∧
        (change entry).volumeId = entry.volumeId ∧ (change entry).zoneId = entry.zoneId := by
    have changed : rewritten selected change entry = change entry := rewritten_of_selected chosen
    rw [same.zoneEntries] at member
    rw [← changed]
    exact detaches.columns member
  refine Keys.updateEntries (keys.congr same) (fun entry member chosen => (columns member chosen).1) ?_
    updated
  intro entry member chosen
  obtain ⟨-, sameVolume, sameZone⟩ := columns member chosen
  rw [same.zoneEntries] at member
  obtain ⟨owner, ownerMember, inZone, inVolume⟩ := keys.entry_zone entry member
  refine ⟨owner, ?_, inZone.trans sameZone.symm, inVolume.trans sameVolume.symm⟩
  rw [Database.zoneNodes, same.zones]
  exact ownerMember

section Extended

variable {segment : Option Uuid} {plain bulk : List ContentBlock} {segments : List ContentSegment}
  (sound : Sound db)
  (detaches : Detached db.zoneEntries volume zone
    (objectPairs next (db.zoneEntries.filter (inlineText volume zone))) change)
  (extension : StoreExtension db after
    ((objectPairs next (db.zoneEntries.filter (inlineText volume zone))).map
      (pairObject volume segment)) plain bulk segments)

include sound detaches extension

/-- The bytes of an entry are the same before and after its text has become an object. -/
theorem Detached.content
    (texts : ∀ pair ∈ objectPairs next (db.zoneEntries.filter (inlineText volume zone)),
      BlocksOf (pair.2.textContent.getD [])
        (((plain ++ bulk).filter fun block => block.objectId = pair.1).map
          ContentBlock.toLineBlock)) {entry : ZoneEntry} (member : entry ∈ db.zoneEntries) :
    after.contentOf (change entry) = db.contentOf entry := by
  cases inline : inlineText volume zone entry with
  | false =>
      rw [detaches.kept entry member inline]
      apply contentOf_congr
      intro object refers
      obtain ⟨-, found, foundMember, rfl, -⟩ := (sound.stored entry member).object refers
      exact extension.blockRows_of_old (sound.store.object_bound found foundMember)
  | true =>
      obtain ⟨object, paired, same⟩ := detaches.moved entry member inline
      obtain ⟨-, -, content, payload⟩ := inlineText_iff.mp inline
      have blocks : BlocksOf (entry.textContent.getD [])
          (((plain ++ bulk).filter fun block => block.objectId = object).map
            ContentBlock.toLineBlock) := texts _ paired
      have rows : after.blockRows object =
          (plain ++ bulk).filter fun block => block.objectId = object :=
        extension.blockRows_of_new sound.store
          (List.mem_map_of_mem (f := pairObject volume segment) paired)
      rw [← rows] at blocks
      have spelled : entry.textContent.getD [] = content := by
        rw [ZoneEntry.textContent, payload]
        rfl
      rw [same, contentOf_object blocks, spelled, Database.contentOf, payload]
      rfl

theorem Detached.stored {entry : ZoneEntry} (member : entry ∈ db.zoneEntries) :
    Stored after.contentObjects (change entry) := by
  rw [extension.objects_eq]
  cases inline : inlineText volume zone entry with
  | false =>
      rw [detaches.kept entry member inline]
      exact (sound.stored entry member).mono fun object objectMember _ =>
        List.mem_append_left _ objectMember
  | true =>
      obtain ⟨object, paired, same⟩ := detaches.moved entry member inline
      obtain ⟨inVolume, -, -⟩ := inlineText_iff.mp inline
      rw [same]
      exact ⟨rfl, _, List.mem_append_right _ (List.mem_map_of_mem paired), rfl, inVolume.symm, rfl⟩

end Extended

/-- The objects of the pairs of a mapping with their blocks extend the store, and the
detached entries refer to them. -/
theorem Blockized.of_detached (segment : Option Uuid) (plain bulk : List ContentBlock)
    (segments : List ContentSegment) (sound : Sound db) (fresh : db.nextUuid ≤ next)
    (sameMid : SameTables db mid) (updated : mid.updateEntries selected change = .ok detached)
    (detaches : Detached db.zoneEntries volume zone
      (objectPairs next (db.zoneEntries.filter (inlineText volume zone)))
      (rewritten selected change))
    (sameAfter : SameTables detached after)
    (texts : ∀ pair ∈ objectPairs next (db.zoneEntries.filter (inlineText volume zone)),
      BlocksOf (pair.2.textContent.getD [])
        (((plain ++ bulk).filter fun block => block.objectId = pair.1).map
          ContentBlock.toLineBlock))
    (extension : StoreExtension db after
      ((objectPairs next (db.zoneEntries.filter (inlineText volume zone))).map
        (pairObject volume segment)) plain bulk segments) :
    Blockized db after volume zone (rewritten selected change) := by
  have shape := (updateEntries_ok updated).1
  have entries : after.zoneEntries = db.zoneEntries.map (rewritten selected change) := by
    rw [sameAfter.zoneEntries, shape, sameMid.zoneEntries]
  have nodes : after.zoneNodes = db.zoneNodes := by
    rw [Database.zoneNodes, sameAfter.zones, ← Database.zoneNodes, zoneNodes_updateEntries updated,
      Database.zoneNodes, sameMid.zones]
    rfl
  have keys : Keys after := (detaches.keys sound.keys sameMid updated).congr sameAfter
  have accounts : Accounts after :=
    Accounts.congr (Accounts.updateEntries (sound.accounts.congr sameMid) updated) sameAfter
  refine
    { volumes := by rw [sameAfter.volumes, shape, sameMid.volumes]
      zoneNodes := nodes
      zoneEntries := entries
      nextUuid := extension.bound
      kept := detaches.kept
      moved := ?_
      content := fun entry member => detaches.content sound extension texts member
      blocks := fun object before => extension.blockRows_of_old before
      objects := ?_
      sound := ⟨keys, accounts, extension.storeSound sound.store, ?_⟩ }
  · intro entry member inline
    obtain ⟨object, paired, same⟩ := detaches.moved entry member inline
    exact ⟨object, fresh.trans (objectPairs_bound paired).1, same⟩
  · intro object member
    rw [extension.objects_eq]
    exact List.mem_append_left _ member
  · intro changed member
    rw [entries] at member
    obtain ⟨entry, entryMember, rfl⟩ := List.mem_map.mp member
    exact detaches.stored sound extension entryMember

end Detaching

theorem pairObjects_blocks (plain bulk : List ContentBlock) {segment : Option Uuid}
    (stored : ∀ entry ∈ db.zoneEntries, Stored db.contentObjects entry)
    (texts : ∀ pair ∈ objectPairs next (db.zoneEntries.filter (inlineText volume zone)),
      BlocksOf (pair.2.textContent.getD [])
        (((plain ++ bulk).filter fun block => block.objectId = pair.1).map
          ContentBlock.toLineBlock)) :
    ∀ object ∈ (objectPairs next (db.zoneEntries.filter (inlineText volume zone))).map
        (pairObject volume segment), ∃ content,
      BlocksOf content (((plain ++ bulk).filter fun block => block.objectId = object.id).map
        ContentBlock.toLineBlock) ∧ octetLength content = object.byteSize := by
  intro object member
  obtain ⟨pair, paired, rfl⟩ := List.mem_map.mp member
  refine ⟨_, texts pair paired, ?_⟩
  have pending : pair.2 ∈ db.zoneEntries.filter (inlineText volume zone) := by
    rw [← objectPairs_snd next (db.zoneEntries.filter _)]
    exact List.mem_map_of_mem paired
  obtain ⟨inTable, inline⟩ := List.mem_filter.mp pending
  obtain ⟨-, -, content, payload⟩ := inlineText_iff.mp inline
  have clean := stored pair.2 inTable
  unfold Stored at clean
  rw [payload] at clean
  rw [ZoneEntry.textContent, payload]
  exact clean.1

/-- The new objects and their blocks in `content_blocks` extend the store. -/
theorem mapped_extension {created after : Database} {blocks : List ContentBlock} (sound : Sound db)
    (createdOk : db.createContentMapping volume zone = .ok created)
    (owned : ∀ block ∈ blocks, block.segmentId = none ∧ block.volumeId = volume ∧
      ∃ pair ∈ objectPairs db.nextUuid (db.zoneEntries.filter (inlineText volume zone)),
        block.objectId = pair.1)
    (texts : ∀ pair ∈ objectPairs db.nextUuid (db.zoneEntries.filter (inlineText volume zone)),
      BlocksOf (pair.2.textContent.getD [])
        (((blocks ++ ([] : List ContentBlock)).filter fun block => block.objectId = pair.1).map
          ContentBlock.toLineBlock))
    (shape : after = { created with
      zoneEntries := after.zoneEntries
      zones := after.zones
      contentObjects := created.contentObjects ++ created.mappedObjects volume zone none
      contentBlocks := created.contentBlocks ++ blocks }) :
    StoreExtension db after
      ((objectPairs db.nextUuid (db.zoneEntries.filter (inlineText volume zone))).map
        (pairObject volume none)) blocks [] [] := by
  obtain ⟨createdShape, mapped⟩ := createContentMapping_ok createdOk
  have ids : (created.zoneEntries.map ZoneEntry.id).Nodup := by
    rw [createdShape]
    exact sound.keys.entry_ids
  have objects : created.mappedObjects volume zone none =
      (objectPairs db.nextUuid (db.zoneEntries.filter (inlineText volume zone))).map
        (pairObject volume none) := by
    rw [mappedObjects_eq ids mapped, createdShape]
  have count : after.nextUuid =
      db.nextUuid + (db.zoneEntries.filter (inlineText volume zone)).length := by
    rw [shape, createdShape]
  refine
    { bound := by
        rw [count]
        exact Nat.le_add_right _ _
      objects_eq := by rw [shape, ← objects, createdShape]
      plain_eq := by rw [shape, createdShape]
      bulk_eq := by rw [shape, createdShape, List.append_nil]
      segments_eq := by rw [shape, createdShape, List.append_nil]
      tables_eq := by rw [shape, createdShape, List.map_nil, List.append_nil]
      staging := ?_
      object_fresh := ?_
      object_ids := ?_
      object_segment := ?_
      object_blocks := pairObjects_blocks _ _ sound.stored texts
      plain_object := ?_
      bulk_object := fun _ member => absurd member List.not_mem_nil
      segment_fresh := fun _ member => absurd member List.not_mem_nil
      segment_ids := List.nodup_nil
      segment_published := fun _ member => absurd member List.not_mem_nil }
  · rw [count, shape, createdShape]
    exact fun schema member =>
      Nat.lt_of_lt_of_le (sound.store.staging_bound schema member) (Nat.le_add_right _ _)
  · intro object member
    obtain ⟨pair, paired, rfl⟩ := List.mem_map.mp member
    rw [count]
    exact objectPairs_bound paired
  · rw [List.map_map]
    change ((objectPairs db.nextUuid _).map Prod.fst).Nodup
    rw [objectPairs_fst]
    exact List.nodup_range'
  · intro object member segment inSegment
    obtain ⟨pair, -, rfl⟩ := List.mem_map.mp member
    cases inSegment
  · intro block member
    obtain ⟨inSegment, -, pair, paired, owner⟩ := owned block member
    exact ⟨inSegment, _, List.mem_map_of_mem paired, owner.symm, rfl⟩

/-- `blockize_zone` succeeds once in a transaction and moves the texts to `content_blocks`. -/
theorem blockizeZone_ok (sound : Sound db) (unmapped : db.contentMapping = none)
    (volume : Uuid) (zone : NodeId) :
    ∃ after change, db.blockizeZone volume zone = .ok after ∧
      Blockized db after volume zone change := by
  obtain ⟨created, createdOk⟩ := createContentMapping_of_none volume zone unmapped
  obtain ⟨shape, mapped⟩ := createContentMapping_ok createdOk
  have createdEntries : created.zoneEntries = db.zoneEntries := by rw [shape]
  have ids : (created.zoneEntries.map ZoneEntry.id).Nodup := by
    rw [createdEntries]
    exact sound.keys.entry_ids
  obtain ⟨blocks, blocksOk, owned, texts⟩ := mappedBlocks_ok ids mapped (by
    rw [shape]
    exact sound.stored) none
  rw [createdEntries] at texts owned
  let mid : Database :=
    { created with
      contentObjects := created.contentObjects ++ created.mappedObjects volume zone none
      contentBlocks := created.contentBlocks ++ blocks }
  have midMapped : Mapped mid volume zone db.nextUuid := mapped
  have midEntries : mid.zoneEntries = db.zoneEntries := createdEntries
  have sameMid : SameTables db mid := by
    change SameTables db { created with
      contentObjects := created.contentObjects ++ created.mappedObjects volume zone none
      contentBlocks := created.contentBlocks ++ blocks }
    rw [shape]
    exact ⟨rfl, rfl, rfl, rfl, rfl⟩
  obtain ⟨detached, selected, change, detachOk, updated, detaches⟩ := detachMapped_ok mid ids (by
    rw [midEntries]
    exact sound.keys.entries_distinct) midMapped
  rw [midEntries] at detaches
  have detachedShape := (updateEntries_ok updated).1
  rw [← List.append_nil blocks] at texts
  refine ⟨detached, rewritten selected change, ?_, ?_⟩
  · unfold Database.blockizeZone
    rw [createdOk, ok_bind]
    dsimp only
    have blocksOk' : ({ created with
        contentObjects := created.contentObjects ++ created.mappedObjects volume zone none } :
          Database).mappedBlocks volume zone none = .ok blocks := blocksOk
    rw [blocksOk', ok_bind]
    exact detachOk
  · refine Blockized.of_detached none blocks [] [] sound (Nat.le_refl _) sameMid updated detaches
      (.refl detached) texts (mapped_extension sound createdOk owned texts ?_)
    rw [detachedShape]

theorem StoreExtension.nothing {after : Database} (bound : db.nextUuid ≤ after.nextUuid)
    (objects : after.contentObjects = db.contentObjects)
    (plain : after.contentBlocks = db.contentBlocks)
    (bulk : after.bulkContentBlocks = db.bulkContentBlocks)
    (segments : after.contentSegments = db.contentSegments)
    (tables : after.segmentTables = db.segmentTables)
    (staging : ∀ schema ∈ after.stagingSchemas, schema.1 < after.nextUuid) :
    StoreExtension db after [] [] [] [] where
  bound := bound
  objects_eq := by rw [objects, List.append_nil]
  plain_eq := by rw [plain, List.append_nil]
  bulk_eq := by rw [bulk, List.append_nil]
  segments_eq := by rw [segments, List.append_nil]
  tables_eq := by rw [tables, List.map_nil, List.append_nil]
  staging := staging
  object_fresh := fun _ member => absurd member List.not_mem_nil
  object_ids := List.nodup_nil
  object_segment := fun _ member => absurd member List.not_mem_nil
  object_blocks := fun _ member => absurd member List.not_mem_nil
  plain_object := fun _ member => absurd member List.not_mem_nil
  bulk_object := fun _ member => absurd member List.not_mem_nil
  segment_fresh := fun _ member => absurd member List.not_mem_nil
  segment_ids := List.nodup_nil
  segment_published := fun _ member => absurd member List.not_mem_nil

/-! ### A new segment -/

/-- The segment is prepared and the inline texts are mapped, but no text has moved yet. -/
structure SegmentMapped (db created : Database) (volume : Uuid) (zone : NodeId) : Prop where
  tables : SameTables db created
  mapped : Mapped created volume zone (db.nextUuid + 1)
  objects : created.contentObjects = db.contentObjects
  plain : created.contentBlocks = db.contentBlocks
  bulk : created.bulkContentBlocks = db.bulkContentBlocks
  segmentTables : created.segmentTables = db.segmentTables
  segments : created.contentSegments =
    db.contentSegments ++ [{ id := db.nextUuid, volumeId := volume, published := false }]
  staging : created.stagingSchemas = db.stagingSchemas ++ [(db.nextUuid, [])]
  count : created.nextUuid =
    db.nextUuid + 1 + (db.zoneEntries.filter (inlineText volume zone)).length

section NewSegment

variable {prepared created after : Database}

theorem segmentMapped_ok
    (preparedOk : Database.prepareContentSegment { db with nextUuid := db.nextUuid + 1 } volume
      db.nextUuid = .ok prepared)
    (createdOk : prepared.createContentMapping volume zone = .ok created) :
    SegmentMapped db created volume zone := by
  have preparedShape := prepareContentSegment_ok preparedOk
  obtain ⟨shape, mapped⟩ := createContentMapping_ok createdOk
  have next : prepared.nextUuid = db.nextUuid + 1 := by rw [preparedShape]
  rw [next] at mapped
  constructor
  case mapped => exact mapped
  case tables =>
    rw [shape, preparedShape]
    exact ⟨rfl, rfl, rfl, rfl, rfl⟩
  all_goals rw [shape, preparedShape]

namespace SegmentMapped

variable (sound : Sound db) (opened : SegmentMapped db created volume zone)

include opened

theorem ids (sound : Sound db) : (created.zoneEntries.map ZoneEntry.id).Nodup := by
  rw [opened.tables.zoneEntries]
  exact sound.keys.entry_ids

theorem bound : db.nextUuid < created.nextUuid := by
  rw [opened.count]
  exact Nat.lt_of_lt_of_le (Nat.lt_succ_self _) (Nat.le_add_right _ _)

include sound

theorem segments_without :
    created.contentSegments.filter (fun stored => decide (stored.id ≠ db.nextUuid)) =
      db.contentSegments := by
  have allOld : db.contentSegments.filter (fun stored => decide (stored.id ≠ db.nextUuid)) =
      db.contentSegments := by
    rw [List.filter_eq_self]
    exact fun stored member =>
      decide_eq_true (Nat.ne_of_lt (sound.store.segment_bound stored member))
  rw [opened.segments, List.filter_append, allOld]
  simp

/-- Where there is no text to move, the store stays as it was. -/
theorem nothing (empty : created.contentMapping.getD [] = []) :
    Blockized db { created with
      contentSegments := created.contentSegments.filter fun stored =>
        decide (stored.id ≠ db.nextUuid) } volume zone id := by
  have none : db.zoneEntries.filter (inlineText volume zone) = [] := by
    have pairs := opened.mapped.mapping
    rw [empty, opened.tables.zoneEntries] at pairs
    have noPairs := List.map_eq_nil_iff.mp pairs.symm
    have entries := objectPairs_snd (db.nextUuid + 1) (db.zoneEntries.filter (inlineText volume zone))
    rw [noPairs] at entries
    exact entries.symm
  have extension : StoreExtension db { created with
      contentSegments := created.contentSegments.filter fun stored =>
        decide (stored.id ≠ db.nextUuid) } [] [] [] [] := by
    refine .nothing (Nat.le_of_lt opened.bound) opened.objects opened.plain opened.bulk
      (opened.segments_without sound) opened.segmentTables ?_
    change ∀ schema ∈ created.stagingSchemas, schema.1 < created.nextUuid
    rw [opened.staging]
    intro schema member
    rcases List.mem_append.mp member with old | new
    · exact Nat.lt_trans (sound.store.staging_bound schema old) opened.bound
    · rw [List.mem_singleton.mp new]
      exact opened.bound
  have same : SameTables db { created with
      contentSegments := created.contentSegments.filter fun stored =>
        decide (stored.id ≠ db.nextUuid) } :=
    ⟨opened.tables.volumes, opened.tables.zones, opened.tables.zoneEntries,
      opened.tables.volumeTables, opened.tables.nextNode⟩
  refine
    { volumes := same.volumes
      zoneNodes := congrArg (List.map Zone.toZoneNode) same.zones
      zoneEntries := same.zoneEntries.trans (List.map_id _).symm
      nextUuid := extension.bound
      kept := fun _ _ _ => rfl
      moved := ?_
      content := ?_
      blocks := fun object before => extension.blockRows_of_old before
      objects := fun object member => opened.objects.symm ▸ member
      sound := ⟨sound.keys.congr same, sound.accounts.congr same,
        extension.storeSound sound.store, ?_⟩ }
  · intro entry member inline
    have listed := List.mem_filter.mpr ⟨member, inline⟩
    rw [none] at listed
    cases listed
  · intro entry member
    apply contentOf_congr
    intro object refers
    obtain ⟨-, found, foundMember, rfl, -⟩ := (sound.stored entry member).object refers
    exact extension.blockRows_of_old (sound.store.object_bound found foundMember)
  · rw [same.zoneEntries]
    intro entry member
    change Stored created.contentObjects entry
    rw [opened.objects]
    exact sound.stored entry member

theorem mappedBlocks : ∃ blocks,
    created.mappedBlocks volume zone (some db.nextUuid) = .ok blocks ∧
      (∀ block ∈ blocks, block.segmentId = some db.nextUuid ∧ block.volumeId = volume ∧
        ∃ pair ∈ objectPairs (db.nextUuid + 1) (db.zoneEntries.filter (inlineText volume zone)),
          block.objectId = pair.1) ∧
      ∀ pair ∈ objectPairs (db.nextUuid + 1) (db.zoneEntries.filter (inlineText volume zone)),
        BlocksOf (pair.2.textContent.getD [])
          ((blocks.filter fun block => block.objectId = pair.1).map ContentBlock.toLineBlock) := by
  have found := mappedBlocks_ok (opened.ids sound) opened.mapped (by
    rw [opened.tables.zoneEntries, opened.objects]
    exact sound.stored) (some db.nextUuid)
  rwa [opened.tables.zoneEntries] at found

theorem mappedObjects : created.mappedObjects volume zone (some db.nextUuid) =
    (objectPairs (db.nextUuid + 1) (db.zoneEntries.filter (inlineText volume zone))).map
      (pairObject volume (some db.nextUuid)) := by
  rw [mappedObjects_eq (opened.ids sound) opened.mapped, opened.tables.zoneEntries]

/-- The new objects, their blocks and the published segment extend the store. -/
theorem extension {blocks : List ContentBlock}
    (owned : ∀ block ∈ blocks, block.segmentId = some db.nextUuid ∧ block.volumeId = volume ∧
      ∃ pair ∈ objectPairs (db.nextUuid + 1) (db.zoneEntries.filter (inlineText volume zone)),
        block.objectId = pair.1)
    (texts : ∀ pair ∈ objectPairs (db.nextUuid + 1)
        (db.zoneEntries.filter (inlineText volume zone)),
      BlocksOf (pair.2.textContent.getD [])
        ((blocks.filter fun block => block.objectId = pair.1).map ContentBlock.toLineBlock))
    (shape : after = { created with
      zoneEntries := after.zoneEntries
      zones := after.zones
      contentObjects :=
        created.contentObjects ++ created.mappedObjects volume zone (some db.nextUuid)
      bulkContentBlocks := created.bulkContentBlocks ++ blocks
      segmentTables := created.segmentTables ++ [(publishedSegment volume db.nextUuid).table]
      stagingSchemas := db.stagingSchemas
      contentSegments := db.contentSegments ++ [publishedSegment volume db.nextUuid] }) :
    StoreExtension db after
      ((objectPairs (db.nextUuid + 1) (db.zoneEntries.filter (inlineText volume zone))).map
        (pairObject volume (some db.nextUuid))) [] blocks [publishedSegment volume db.nextUuid] := by
  have count : after.nextUuid =
      db.nextUuid + 1 + (db.zoneEntries.filter (inlineText volume zone)).length := by
    rw [shape]
    exact opened.count
  have bound : db.nextUuid < after.nextUuid := by
    rw [shape]
    exact opened.bound
  refine
    { bound := Nat.le_of_lt bound
      objects_eq := by rw [shape, ← opened.objects, ← opened.mappedObjects sound]
      plain_eq := by rw [shape, List.append_nil, ← opened.plain]
      bulk_eq := by rw [shape, ← opened.bulk]
      segments_eq := by rw [shape]
      tables_eq := by
        rw [shape, ← opened.segmentTables]
        rfl
      staging := ?_
      object_fresh := ?_
      object_ids := ?_
      object_segment := ?_
      object_blocks := pairObjects_blocks [] _ sound.stored texts
      plain_object := fun _ member => absurd member List.not_mem_nil
      bulk_object := ?_
      segment_fresh := ?_
      segment_ids := List.nodup_singleton _
      segment_published := ?_ }
  · rw [shape]
    exact fun schema member => Nat.lt_trans (sound.store.staging_bound schema member) opened.bound
  · intro object member
    obtain ⟨pair, paired, rfl⟩ := List.mem_map.mp member
    obtain ⟨lower, upper⟩ := objectPairs_bound paired
    rw [count]
    exact ⟨Nat.le_of_succ_le lower, upper⟩
  · rw [List.map_map]
    change ((objectPairs (db.nextUuid + 1) _).map Prod.fst).Nodup
    rw [objectPairs_fst]
    exact List.nodup_range'
  · intro object member segment inSegment
    obtain ⟨pair, -, rfl⟩ := List.mem_map.mp member
    exact ⟨_, List.mem_singleton_self _, Option.some.inj inSegment, rfl⟩
  · intro block member
    obtain ⟨inSegment, -, pair, paired, owner⟩ := owned block member
    rw [inSegment]
    exact ⟨by simp, _, List.mem_map_of_mem paired, owner.symm, rfl⟩
  · intro stored member
    rw [List.mem_singleton.mp member]
    exact ⟨Nat.le_refl _, bound⟩
  · intro stored member
    rw [List.mem_singleton.mp member]
    rfl

/-- The texts move to the blocks of the segment, and it is published. -/
theorem filled {blocks : List ContentBlock} {detached : Database}
    (blocksOk : created.mappedBlocks volume zone (some db.nextUuid) = .ok blocks)
    (detachOk : (Database.stageBlocks
      { created with
        contentObjects := created.contentObjects ++
          created.mappedObjects volume zone (some db.nextUuid) } db.nextUuid blocks).detachMapped
        volume zone = .ok detached)
    (published : detached.publishContentSegment volume db.nextUuid = .ok after) :
    ∃ change, Blockized db after volume zone change := by
  obtain ⟨found, foundOk, owned, texts⟩ := opened.mappedBlocks sound
  obtain rfl : found = blocks := Except.ok.inj (foundOk.symm.trans blocksOk)
  let mid : Database := Database.stageBlocks
    { created with
      contentObjects := created.contentObjects ++
        created.mappedObjects volume zone (some db.nextUuid) } db.nextUuid found
  have midMapped : Mapped mid volume zone (db.nextUuid + 1) := opened.mapped
  have midEntries : mid.zoneEntries = db.zoneEntries := opened.tables.zoneEntries
  have sameMid : SameTables db mid :=
    ⟨opened.tables.volumes, opened.tables.zones, opened.tables.zoneEntries,
      opened.tables.volumeTables, opened.tables.nextNode⟩
  obtain ⟨other, selected, change, otherOk, updated, detaches⟩ :=
    detachMapped_ok mid (opened.ids sound) (by
      rw [midEntries]
      exact sound.keys.entries_distinct) midMapped
  obtain rfl : other = detached := Except.ok.inj (otherOk.symm.trans detachOk)
  rw [midEntries] at detaches
  have otherShape := (updateEntries_ok updated).1
  have afterShape := publishContentSegment_ok db found
    (fun schema member => Nat.ne_of_lt (sound.store.staging_bound schema member))
    (fun stored member => Nat.ne_of_lt (sound.store.segment_bound stored member)) (by
    rw [otherShape]
    change created.stagingSchemas.map _ = _
    rw [opened.staging]) (by
    rw [otherShape]
    exact opened.segments) published
  have sameAfter : SameTables other after := by
    rw [afterShape]
    exact ⟨rfl, rfl, rfl, rfl, rfl⟩
  refine ⟨rewritten selected change, Blockized.of_detached (some db.nextUuid) [] found
    [publishedSegment volume db.nextUuid] sound (Nat.le_succ _) sameMid updated detaches sameAfter
    texts (opened.extension sound owned texts ?_)⟩
  rw [afterShape, otherShape]
  rfl

end SegmentMapped

theorem blockizeZoneSegment_ok (sound : Sound db)
    (done : db.blockizeZoneSegment volume zone = .ok after) :
    ∃ change, Blockized db after volume zone change := by
  unfold Database.blockizeZoneSegment at done
  dsimp only at done
  obtain ⟨prepared, preparedOk, done⟩ := bind_eq_ok.mp done
  obtain ⟨created, createdOk, done⟩ := bind_eq_ok.mp done
  have opened := segmentMapped_ok preparedOk createdOk
  split at done
  · rename_i empty
    obtain rfl := Except.ok.inj done
    exact ⟨id, opened.nothing sound empty⟩
  · obtain ⟨blocks, blocksOk, done⟩ := bind_eq_ok.mp done
    obtain ⟨detached, detachOk, published⟩ := bind_eq_ok.mp done
    exact opened.filled sound blocksOk detachOk published

end NewSegment

/-- `blockize_zone_segment` of a volume that exists succeeds. -/
theorem blockizeZoneSegment_exists (sound : Sound db) (unmapped : db.contentMapping = none)
    (known : volume ∈ db.volumes.map Volume.id) (zone : NodeId) :
    ∃ after, db.blockizeZoneSegment volume zone = .ok after := by
  let prepared : Database :=
    { db with
      nextUuid := db.nextUuid + 1
      contentSegments := db.contentSegments ++
        [{ id := db.nextUuid, volumeId := volume, published := false }]
      stagingSchemas := db.stagingSchemas ++ [(db.nextUuid, [])] }
  obtain ⟨created, createdOk⟩ : ∃ created, prepared.createContentMapping volume zone = .ok created :=
    createContentMapping_of_none volume zone unmapped
  obtain ⟨shape, mapped⟩ := createContentMapping_ok createdOk
  have ids : (created.zoneEntries.map ZoneEntry.id).Nodup := by
    rw [shape]
    exact sound.keys.entry_ids
  obtain ⟨blocks, blocksOk, owned, -⟩ := mappedBlocks_ok ids mapped (by
    rw [shape]
    exact sound.stored) (some db.nextUuid)
  let staged : Database := Database.stageBlocks
    { created with
      contentObjects := created.contentObjects ++
        created.mappedObjects volume zone (some db.nextUuid) } db.nextUuid blocks
  have stagedMapped : Mapped staged volume zone prepared.nextUuid := mapped
  obtain ⟨detached, selected, change, detachOk, updated, -⟩ := detachMapped_ok staged ids (by
    change Library.Table.Distinct entryClash created.zoneEntries
    rw [shape]
    exact sound.keys.entries_distinct) stagedMapped
  have freshStaging : ∀ schema ∈ db.stagingSchemas, schema.1 ≠ db.nextUuid :=
    fun schema member => Nat.ne_of_lt (sound.store.staging_bound schema member)
  obtain ⟨row, rowMember, isVolume⟩ := List.mem_map.mp known
  obtain ⟨after, publishOk⟩ : ∃ after, detached.publishContentSegment volume db.nextUuid = .ok after := by
    rw [(updateEntries_ok updated).1]
    refine publishContentSegment_exists freshStaging ?_ ?_
      (fun block member => ⟨(owned block member).1, (owned block member).2.1⟩) ?_
    · change _ ∈ created.contentSegments
      rw [shape]
      exact List.mem_append_right _ (List.mem_singleton_self _)
    · change created.stagingSchemas.map _ = _
      rw [shape]
      exact staging_of_fresh freshStaging blocks
    · change volume ∈ created.volumeTables
      rw [shape, ← isVolume]
      exact sound.keys.volume_table row rowMember
  unfold Database.blockizeZoneSegment Database.prepareContentSegment
  dsimp only
  rw [if_neg (not_not.mpr known), ok_bind]
  change ∃ after, (prepared.createContentMapping volume zone >>= _) = Except.ok after
  rw [createdOk, ok_bind]
  split
  · exact ⟨_, rfl⟩
  · change ∃ after, (created.mappedBlocks volume zone (some db.nextUuid) >>= _) = Except.ok after
    rw [blocksOk, ok_bind]
    change ∃ after, (staged.detachMapped volume zone >>= _) = Except.ok after
    rw [detachOk, ok_bind]
    exact ⟨after, publishOk⟩

end PostgreOS
