/-
Length-prefixed frames on a byte stream.

A frame is the length of its payload as four bytes, most significant first, and the
payload. Reading a stream that starts with a written frame gives the value back and
leaves what follows the frame.
-/

import Mathlib.Data.List.Nodup
import Mathlib.Tactic.NormNum

namespace Library.Frames

def bigEndian (number : Nat) : List UInt8 :=
  [UInt8.ofNat (number / 2 ^ 24), UInt8.ofNat (number / 2 ^ 16), UInt8.ofNat (number / 2 ^ 8),
    UInt8.ofNat number]

def ofBigEndian (bytes : List UInt8) : Nat :=
  bytes.foldl (fun number byte => number * 2 ^ 8 + byte.toNat) 0

theorem bigEndian_length (number : Nat) : (bigEndian number).length = 4 := rfl

theorem ofBigEndian_bigEndian {number : Nat} (small : number < 2 ^ 32) :
    ofBigEndian (bigEndian number) = number := by
  simp only [ofBigEndian, bigEndian, List.foldl_cons, List.foldl_nil, UInt8.toNat_ofNat']
  omega

/-- A serializer, which may reject a value, and a parser, which says how many bytes of
its input it has used. -/
structure Codec (α : Type) where
  encode : α → Option (List UInt8)
  decode : List UInt8 → Option (α × Nat)
  decode_encode : ∀ value payload, encode value = some payload →
    decode payload = some (value, payload.length)

/-- The codec of one value. -/
def Codec.single {α : Type} [DecidableEq α] (value : α) (bytes : List UInt8) : Codec α where
  encode := fun other => if other = value then some bytes else none
  decode := fun payload => if payload = bytes then some (value, bytes.length) else none
  decode_encode := by
    intro other payload encoded
    split at encoded
    · rename_i same
      rw [← Option.some.inj encoded, if_pos rfl, same]
    · cases encoded

/-- The codec of the values of a table. -/
def Codec.table {α : Type} [DecidableEq α] (entries : List (α × List UInt8))
    (unique : (entries.map Prod.snd).Nodup) : Codec α where
  encode := fun value => (entries.find? fun entry => entry.1 = value).map Prod.snd
  decode := fun payload => (entries.find? fun entry => entry.2 = payload).map fun entry =>
    (entry.1, entry.2.length)
  decode_encode := by
    intro value payload encoded
    obtain ⟨entry, found, rfl⟩ := Option.map_eq_some_iff.mp encoded
    have same := List.find?_some found
    have member := List.mem_of_find?_eq_some found
    obtain ⟨other, foundAgain⟩ : ∃ other, entries.find? (fun other => other.2 = entry.2) = some other :=
      Option.isSome_iff_exists.mp (List.find?_isSome.mpr ⟨entry, member, decide_eq_true rfl⟩)
    have sameBytes : other.2 = entry.2 := by simpa using List.find?_some foundAgain
    obtain rfl := List.inj_on_of_nodup_map unique (List.mem_of_find?_eq_some foundAgain) member
      sameBytes
    rw [foundAgain, Option.map_some]
    rw [decide_eq_true_iff] at same
    rw [same]

inductive FrameError where
  | tooLarge (length : Nat)
  | encode
  | decode
  deriving DecidableEq, Repr

variable {α : Type}

/-- The bytes of the frame of a value. -/
def writeFrame (codec : Codec α) (limit : Nat) (value : α) : Except FrameError (List UInt8) :=
  match codec.encode value with
  | none => .error .encode
  | some payload =>
      if limit < payload.length then .error (.tooLarge payload.length)
      else if 2 ^ 32 ≤ payload.length then .error (.tooLarge payload.length)
      else .ok (bigEndian payload.length ++ payload)

/-- What the head of a stream gives: too few bytes so far, a frame that is no value, or
a value; with the bytes that are left. -/
inductive Reading (α : Type) where
  | incomplete
  | failed (error : FrameError) (rest : List UInt8)
  | value (value : α) (rest : List UInt8)
  deriving DecidableEq, Repr

def readFrame (codec : Codec α) (limit : Nat) (input : List UInt8) : Reading α :=
  if input.length < 4 then .incomplete
  else
    let length := ofBigEndian (input.take 4)
    if limit < length then .failed (.tooLarge length) (input.drop 4)
    else if input.length < 4 + length then .incomplete
    else
      let rest := input.drop (4 + length)
      match codec.decode ((input.drop 4).take length) with
      | none => .failed .decode rest
      | some (value, consumed) =>
          if consumed ≠ length then .failed .decode rest else .value value rest

theorem readFrame_nil (codec : Codec α) (limit : Nat) : readFrame codec limit [] = .incomplete := rfl

theorem writeFrame_ok {codec : Codec α} {limit : Nat} {value : α} {bytes : List UInt8}
    (written : writeFrame codec limit value = .ok bytes) :
    ∃ payload, codec.encode value = some payload ∧ payload.length ≤ limit ∧
      payload.length < 2 ^ 32 ∧ bytes = bigEndian payload.length ++ payload := by
  unfold writeFrame at written
  split at written
  · cases written
  · rename_i payload encoded
    split at written
    · cases written
    · rename_i fits
      split at written
      · cases written
      · rename_i narrow
        exact ⟨payload, encoded, Nat.not_lt.mp fits, Nat.not_le.mp narrow,
          (Except.ok.inj written).symm⟩

theorem readFrame_writeFrame {codec : Codec α} {limit : Nat} {value : α} {bytes : List UInt8}
    (written : writeFrame codec limit value = .ok bytes) (rest : List UInt8) :
    readFrame codec limit (bytes ++ rest) = .value value rest := by
  obtain ⟨payload, encoded, fits, narrow, rfl⟩ := writeFrame_ok written
  have head : ((bigEndian payload.length ++ payload) ++ rest).take 4 = bigEndian payload.length := by
    rw [List.append_assoc]
    exact List.take_left' (bigEndian_length _)
  have tail : ((bigEndian payload.length ++ payload) ++ rest).drop 4 = payload ++ rest := by
    rw [List.append_assoc]
    exact List.drop_left' (bigEndian_length _)
  have total : ((bigEndian payload.length ++ payload) ++ rest).length =
      4 + payload.length + rest.length := by
    rw [List.length_append, List.length_append, bigEndian_length]
  unfold readFrame
  rw [if_neg (by omega)]
  dsimp only
  rw [head, ofBigEndian_bigEndian narrow, if_neg (by omega), if_neg (by omega), ← List.drop_drop,
    tail, List.take_left' rfl, List.drop_left' rfl, codec.decode_encode value payload encoded]
  dsimp only
  rw [if_neg (not_not.mpr rfl)]

/-! ### Streams of frames -/

/-- A stream that accepts all writes after one more value, and whether it was written. The
length is known and checked before the first byte is written. -/
def writeFrameTo (codec : Codec α) (limit : Nat) (stream : List UInt8) (value : α) :
    List UInt8 × Except FrameError Unit :=
  match writeFrame codec limit value with
  | .error error => (stream, .error error)
  | .ok bytes => (stream ++ bytes, .ok ())

/-- Values written in turn; one that is refused does not stop the next. -/
def writeFrames (codec : Codec α) (limit : Nat) :
    List UInt8 → List α → List UInt8 × List (Except FrameError Unit)
  | stream, [] => (stream, [])
  | stream, value :: rest =>
      let written := writeFrameTo codec limit stream value
      let later := writeFrames codec limit written.1 rest
      (later.1, written.2 :: later.2)

/-- The values of a number of frames and the bytes after them. -/
def readFrames (codec : Codec α) (limit : Nat) : Nat → List UInt8 → Option (List α × List UInt8)
  | 0, input => some ([], input)
  | count + 1, input =>
      match readFrame codec limit input with
      | .value value rest =>
          (readFrames codec limit count rest).map fun later => (value :: later.1, later.2)
      | _ => none

section Streams

variable {codec : Codec α} {limit : Nat} {value : α} {payload stream : List UInt8}

theorem writeFrameTo_error_iff (narrow : limit < 2 ^ 32)
    (encoded : codec.encode value = some payload) (stream : List UInt8) :
    (∃ error, (writeFrameTo codec limit stream value).2 = .error error) ↔ limit < payload.length := by
  unfold writeFrameTo writeFrame
  rw [encoded]
  dsimp only
  by_cases long : limit < payload.length
  · rw [if_pos long]
    exact iff_of_true ⟨_, rfl⟩ long
  · rw [if_neg long, if_neg (by omega)]
    exact iff_of_false (fun ⟨_, failed⟩ => by cases failed) long

theorem writeFrameTo_of_error {error : FrameError}
    (refused : (writeFrameTo codec limit stream value).2 = .error error) :
    (writeFrameTo codec limit stream value).1 = stream := by
  unfold writeFrameTo at refused ⊢
  split
  · rfl
  · rename_i bytes written
    rw [written] at refused
    cases refused

theorem writeFrames_fst (stream : List UInt8) (values : List α) :
    (writeFrames codec limit stream values).1 =
      stream ++ values.flatMap fun value => ((writeFrame codec limit value).toOption).getD [] := by
  induction values generalizing stream with
  | nil => exact (List.append_nil stream).symm
  | cons value rest ih =>
      change (writeFrames codec limit (writeFrameTo codec limit stream value).1 rest).1 = _
      rw [ih, List.flatMap_cons, ← List.append_assoc]
      congr 1
      unfold writeFrameTo
      split
      · rename_i error refused
        rw [refused]
        exact (List.append_nil stream).symm
      · rename_i bytes written
        rw [written]
        rfl

theorem writeFrames_snd (stream : List UInt8) (values : List α) :
    (writeFrames codec limit stream values).2 =
      values.map fun value => (writeFrame codec limit value).map fun _ => () := by
  induction values generalizing stream with
  | nil => rfl
  | cons value rest ih =>
      change (writeFrameTo codec limit stream value).2 ::
        (writeFrames codec limit (writeFrameTo codec limit stream value).1 rest).2 = _
      rw [ih, List.map_cons]
      congr 1
      unfold writeFrameTo
      split
      · rename_i error refused
        rw [refused]
        rfl
      · rename_i bytes written
        rw [written]
        rfl

theorem readFrames_written (codec : Codec α) (limit : Nat) (values : List α) (rest : List UInt8) :
    readFrames codec limit (values.filter fun value => (writeFrame codec limit value).isOk).length
        ((values.flatMap fun value => ((writeFrame codec limit value).toOption).getD []) ++ rest) =
      some (values.filter fun value => (writeFrame codec limit value).isOk, rest) := by
  induction values with
  | nil => rfl
  | cons value later ih =>
      rw [List.flatMap_cons, List.filter_cons, List.append_assoc]
      cases written : writeFrame codec limit value with
      | error error => exact ih
      | ok bytes =>
          change readFrames codec limit (_ + 1) (bytes ++ _) = _
          rw [readFrames, readFrame_writeFrame written]
          dsimp only
          rw [ih]
          rfl

/-- A value that is read took its whole payload. -/
theorem payload_of_readFrame {input rest : List UInt8}
    (read : readFrame codec limit input = .value value rest) :
    ∃ header payload, input = header ++ payload ++ rest ∧ header.length = 4 ∧
      ofBigEndian header = payload.length ∧ codec.decode payload = some (value, payload.length) := by
  unfold readFrame at read
  split at read
  · cases read
  · rename_i long
    dsimp only at read
    split at read
    · cases read
    · split at read
      · cases read
      · rename_i complete
        split at read
        · cases read
        · rename_i decoded used found
          split at read
          · cases read
          · rename_i exactly
            obtain ⟨rfl, rfl⟩ := Reading.value.inj read
            rw [not_not] at exactly
            have size : ((input.drop 4).take (ofBigEndian (input.take 4))).length =
                ofBigEndian (input.take 4) := by
              rw [List.length_take, List.length_drop]
              omega
            refine ⟨input.take 4, (input.drop 4).take (ofBigEndian (input.take 4)), ?_, ?_,
              size.symm, ?_⟩
            · rw [List.append_assoc, ← List.drop_drop, List.take_append_drop,
                List.take_append_drop]
            · rw [List.length_take]
              omega
            · rw [size, found, exactly]

end Streams

end Library.Frames
