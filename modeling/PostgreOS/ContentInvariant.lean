/-
The content store along runs.

Whatever sequence of operations led to a state, the blocks behind every entry tile its
text, and a later call keeps the blocks of every object that an entry still refers to.
-/

import PostgreOS.Soundness

namespace PostgreOS

open Library.LineBlocks

/-- Blocks in reading order: numbered from zero, with the bytes and the line feeds before
each of them, all but the last ending a line, of `size` bytes together. -/
structure Tiling (blocks : List ContentBlock) (size : Nat) : Prop where
  ordinal : ∀ index (bound : index < blocks.length), blocks[index].ordinal = index
  offset : ∀ index (bound : index < blocks.length),
    blocks[index].offset = ((blocks.take index).map fun block => octetLength block.body).sum
  firstLine : ∀ index (bound : index < blocks.length),
    blocks[index].firstLine =
      1 + ((blocks.take index).map fun block => block.body.count '\n').sum
  endsLine : ∀ index (bound : index < blocks.length), index + 1 < blocks.length →
    EndsLine '\n' blocks[index].body
  total : (blocks.map fun block => octetLength block.body).sum = size

theorem count_text (blocks : List (LineBlock Char)) :
    (text blocks).count '\n' = (blocks.map fun block => block.body.count '\n').sum := by
  unfold text
  induction blocks with
  | nil => rfl
  | cons block rest ih => rw [List.flatMap_cons, List.count_append, ih, List.map_cons, List.sum_cons]

/-- The blocks of a text tile it. -/
theorem tiling_of_blocksOf {content : Text} {blocks : List ContentBlock}
    (blocksOf : BlocksOf content (blocks.map ContentBlock.toLineBlock)) :
    Tiling blocks (octetLength content) := by
  have row (index : Nat) (bound : index < blocks.length) :=
    blocksOf.1.at_index index (by rwa [List.length_map])
  have sizes (several : List ContentBlock) :
      totalSize octetLength (several.map ContentBlock.toLineBlock) =
        (several.map fun block => octetLength block.body).sum := by
    rw [totalSize, List.map_map]
    rfl
  refine ⟨?_, ?_, ?_, ?_, ?_⟩
  · intro index bound
    obtain ⟨ordinal, -⟩ := row index bound
    rw [List.getElem_map, Nat.zero_add] at ordinal
    exact ordinal
  · intro index bound
    obtain ⟨-, offset, -⟩ := row index bound
    rw [List.getElem_map, Nat.zero_add, ← List.map_take, sizes] at offset
    exact offset
  · intro index bound
    obtain ⟨-, -, line, -⟩ := row index bound
    rw [List.getElem_map, ← List.map_take, count_text, List.map_map] at line
    exact line
  · intro index bound more
    obtain ⟨-, -, -, ends⟩ := row index bound
    rw [List.getElem_map] at ends
    exact ends (by rwa [List.length_map])
  · rw [← sizes]
    exact blocksOf.2.2

/-- In every reachable state the blocks behind an entry tile its text, and every call keeps
the blocks of the objects that an entry refers to afterwards. -/
theorem content_blocks_invariant {db : Database} (reachable : ReachableDatabase db) :
    (∀ entry ∈ db.zoneEntries, ∀ object, entry.contentObject = some object →
      entry.kind = .file ∧ Tiling (db.objectBlocks object) entry.size) ∧
    ∀ op after, Step db op after → ∀ stored ∈ db.contentObjects, ∀ entry ∈ after.zoneEntries,
      entry.contentObject = some stored.id →
        after.blockRows stored.id = db.blockRows stored.id := by
  have committed := committed_of_reachable reachable
  have sound := committed.sound
  constructor
  · intro entry member object refers
    obtain ⟨payload, found, foundMember, rfl, -, size⟩ := (sound.stored entry member).object refers
    obtain ⟨content, blocksOf, bytes⟩ := sound.store.object_blocks found foundMember
    refine ⟨by rw [ZoneEntry.kind, payload]; rfl, ?_⟩
    rw [objectBlocks_eq_blockRows blocksOf, ← size, ← bytes]
    exact tiling_of_blocksOf blocksOf
  · intro op after step stored storedMember entry member refers
    obtain ⟨-, kept⟩ := committed.step step
    exact kept.blocks entry member stored.id (sound.store.object_bound stored storedMember) refers

/-- A written file and its copy share the blocks of one object. -/
def copiedCalls : List Op :=
  [.createVolume 7 ['v'] 0, .writeFile 7 ['/', 'a'] [104, 105, 10] 420 1,
    .copy 7 ['/', 'a'] ['/', 'b'] false 2]

theorem content_blocks_of_copy :
    (Database.empty.calls copiedCalls).zoneEntries.map ZoneEntry.contentObject = [some 1, some 1] ∧
    (∀ entry ∈ (Database.empty.calls copiedCalls).zoneEntries, ∀ object,
      entry.contentObject = some object →
        entry.kind = .file ∧
          Tiling ((Database.empty.calls copiedCalls).objectBlocks object) entry.size) :=
  ⟨by decide +kernel, (content_blocks_invariant (reachable_calls copiedCalls)).1⟩

end PostgreOS
