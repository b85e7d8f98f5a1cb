/-
Reading a range of a sequence that is stored in consecutive pieces.

Each piece is stored with the length of everything before it. A range of the sequence
is the concatenation of what the pieces have in it; pieces outside the range have
nothing in it and need not be read.
-/

import Mathlib.Data.List.Basic

namespace Library.BlockRanges

variable {β : Type*}

/-- The pieces follow each other from `offset` on. -/
def Consecutive : Nat → List (Nat × List β) → Prop
  | _, [] => True
  | offset, piece :: rest => piece.1 = offset ∧ Consecutive (offset + piece.2.length) rest

/-- The positions from `start` to before `stop` of a piece. -/
def inRange (start stop : Nat) (piece : Nat × List β) : List β :=
  (piece.2.drop (start - piece.1)).take (stop - max start piece.1)

theorem inRange_of_stop_le {start stop : Nat} {piece : Nat × List β} (later : stop ≤ piece.1) :
    inRange start stop piece = [] := by
  unfold inRange
  have none : stop - max start piece.1 = 0 := by omega
  rw [none, List.take_zero]

theorem inRange_of_le_start {start stop : Nat} {piece : Nat × List β}
    (earlier : piece.1 + piece.2.length ≤ start) : inRange start stop piece = [] := by
  unfold inRange
  rw [List.drop_eq_nil_of_le (by omega), List.take_nil]

theorem flatMap_inRange {start stop offset : Nat} {pieces : List (Nat × List β)}
    (consecutive : Consecutive offset pieces) :
    pieces.flatMap (inRange start stop) =
      ((pieces.flatMap Prod.snd).drop (start - offset)).take (stop - max start offset) := by
  induction pieces generalizing offset with
  | nil => simp
  | cons piece rest ih =>
      obtain ⟨rfl, later⟩ := consecutive
      rw [List.flatMap_cons, List.flatMap_cons, ih later, List.drop_append, List.take_append,
        List.length_drop]
      have skipped : start - piece.1 - piece.2.length = start - (piece.1 + piece.2.length) := by
        omega
      have taken : stop - max start piece.1 - (piece.2.length - (start - piece.1)) =
          stop - max start (piece.1 + piece.2.length) := by
        omega
      rw [skipped, taken]
      rfl

theorem flatMap_inRange_filter {start stop offset : Nat} {pieces : List (Nat × List β)}
    (consecutive : Consecutive offset pieces) (keep : Nat × List β → Bool)
    (dropped : ∀ piece ∈ pieces, keep piece = false → inRange start stop piece = []) :
    (pieces.filter keep).flatMap (inRange start stop) =
      ((pieces.flatMap Prod.snd).drop (start - offset)).take (stop - max start offset) := by
  rw [← flatMap_inRange consecutive]
  clear consecutive
  induction pieces with
  | nil => rfl
  | cons piece rest ih =>
      have later := ih fun other member => dropped other (List.mem_cons_of_mem piece member)
      cases kept : keep piece with
      | true => rw [List.filter_cons_of_pos kept, List.flatMap_cons, List.flatMap_cons, later]
      | false =>
          rw [List.filter_cons_of_neg (by rw [kept]; decide), List.flatMap_cons, later,
            dropped piece List.mem_cons_self kept, List.nil_append]

end Library.BlockRanges
