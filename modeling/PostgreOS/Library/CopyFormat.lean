/-
The binary format of PostgreSQL's `COPY`.

A stream is a header, tuples and a trailer. The header is a signature of eleven bytes, a
word of flags and the length of an extension area. A tuple is the number of its fields and
each field with its length before it, `-1` for NULL. The trailer is a number of fields that
is `-1`. All numbers are big-endian. A reader gets the written tuples back and stops right
after the trailer.
-/

import Mathlib.Data.Int.Basic
import Mathlib.Tactic.NormNum
import PostgreOS.Library.Frames

namespace Library.CopyFormat

open Library.Frames

/-- `width` bytes, most significant first. -/
def toBytes : Nat → Nat → List UInt8
  | 0, _ => []
  | width + 1, number => UInt8.ofNat (number / 2 ^ (8 * width)) :: toBytes width number

theorem toBytes_length (width number : Nat) : (toBytes width number).length = width := by
  induction width with
  | zero => rfl
  | succ width ih => rw [toBytes, List.length_cons, ih]

theorem foldl_toBytes (width number upper : Nat) :
    (toBytes width number).foldl (fun number byte => number * 2 ^ 8 + byte.toNat) upper =
      upper * 2 ^ (8 * width) + number % 2 ^ (8 * width) := by
  induction width generalizing upper with
  | zero => simp [toBytes, Nat.mod_one]
  | succ width ih =>
      rw [toBytes, List.foldl_cons, ih, UInt8.toNat_ofNat']
      have power : 2 ^ (8 * (width + 1)) = 2 ^ (8 * width) * 2 ^ 8 := by
        rw [← Nat.pow_add]
        congr 1
      rw [power, Nat.mod_mul, Nat.add_mul, Nat.mul_assoc, Nat.mul_comm (2 ^ 8) (2 ^ (8 * width)),
        Nat.mul_comm (2 ^ (8 * width)) (number / 2 ^ (8 * width) % 2 ^ 8)]
      omega

theorem ofBigEndian_toBytes {width number : Nat} (small : number < 2 ^ (8 * width)) :
    ofBigEndian (toBytes width number) = number := by
  rw [ofBigEndian, foldl_toBytes, Nat.zero_mul, Nat.zero_add, Nat.mod_eq_of_lt small]

def ofInt (width : Nat) (value : Int) : List UInt8 :=
  toBytes width (BitVec.ofInt (8 * width) value).toNat

def toInt (bytes : List UInt8) : Int :=
  (BitVec.ofNat (8 * bytes.length) (ofBigEndian bytes)).toInt

theorem ofInt_length (width : Nat) (value : Int) : (ofInt width value).length = width :=
  toBytes_length width _

theorem toInt_ofInt {width : Nat} {value : Int} (low : -(2 ^ (8 * width - 1)) ≤ value)
    (high : value < 2 ^ (8 * width - 1)) (wide : 0 < width) :
    toInt (ofInt width value) = value := by
  unfold toInt
  rw [ofInt_length, ofInt, ofBigEndian_toBytes (BitVec.isLt _), BitVec.ofNat_toNat,
    BitVec.setWidth_eq]
  exact BitVec.toInt_ofInt_eq_self (by omega) low high

/-! ### Tuples -/

/-- The value of a column: NULL, or its bytes. -/
abbrev Field := Option (List UInt8)

def readFields : Nat → List UInt8 → Option (List Field × List UInt8)
  | 0, input => some ([], input)
  | count + 1, input =>
      if input.length < 4 then none
      else
        let size := toInt (input.take 4)
        let data := input.drop 4
        if size = -1 then
          (readFields count data).map fun (fields, rest) => (none :: fields, rest)
        else if size < 0 ∨ data.length < size.toNat then none
        else
          (readFields count (data.drop size.toNat)).map fun (fields, rest) =>
            (some (data.take size.toNat) :: fields, rest)

theorem readFields_length {count : Nat} {input rest : List UInt8} {fields : List Field}
    (read : readFields count input = some (fields, rest)) : rest.length ≤ input.length := by
  induction count generalizing input fields with
  | zero =>
      obtain ⟨-, rfl⟩ := Prod.mk.inj (Option.some.inj read)
      exact Nat.le_refl _
  | succ count ih =>
      rw [readFields] at read
      split at read
      · cases read
      · dsimp only at read
        split at read
        · obtain ⟨⟨later, left⟩, readLater, same⟩ := Option.map_eq_some_iff.mp read
          obtain ⟨-, rfl⟩ := Prod.mk.inj same
          have shorter := ih readLater
          rw [List.length_drop] at shorter
          omega
        · split at read
          · cases read
          · obtain ⟨⟨later, left⟩, readLater, same⟩ := Option.map_eq_some_iff.mp read
            obtain ⟨-, rfl⟩ := Prod.mk.inj same
            have shorter := ih readLater
            rw [List.length_drop, List.length_drop] at shorter
            omega

/-- The tuples up to the trailer, and what follows it. -/
def readTuples (input : List UInt8) : Option (List (List Field) × List UInt8) :=
  if _short : input.length < 2 then none
  else
    let count := toInt (input.take 2)
    if count = -1 then some ([], input.drop 2)
    else if count < 0 then none
    else
      match _read : readFields count.toNat (input.drop 2) with
      | none => none
      | some (fields, rest) =>
          (readTuples rest).map fun (tuples, left) => (fields :: tuples, left)
  termination_by input.length
  decreasing_by
    have shorter := readFields_length _read
    rw [List.length_drop] at shorter
    omega

def writeField (value : List UInt8) : List UInt8 :=
  ofInt 4 value.length ++ value

def writeTuple (fields : List (List UInt8)) : List UInt8 :=
  ofInt 2 fields.length ++ fields.flatMap writeField

def trailer : List UInt8 := ofInt 2 (-1)

theorem readFields_writeField (fields : List (List UInt8)) (rest : List UInt8)
    (small : ∀ value ∈ fields, value.length < 2 ^ 31) :
    readFields fields.length (fields.flatMap writeField ++ rest) = some (fields.map some, rest) := by
  induction fields with
  | nil => rfl
  | cons value later ih =>
      have narrow := small value List.mem_cons_self
      have shape : (value :: later).flatMap writeField ++ rest =
          ofInt 4 value.length ++ (value ++ (later.flatMap writeField ++ rest)) := by
        rw [List.flatMap_cons, writeField, List.append_assoc, List.append_assoc]
      have size : toInt (ofInt 4 value.length) = value.length :=
        toInt_ofInt (by omega) (by norm_num; omega) (by decide)
      have long : ¬ (ofInt 4 value.length ++ (value ++ (later.flatMap writeField ++ rest))).length <
          4 := by
        rw [List.length_append, ofInt_length]
        omega
      rw [List.length_cons, shape, readFields, if_neg long]
      dsimp only
      rw [List.take_left' (ofInt_length 4 _), List.drop_left' (ofInt_length 4 _), size,
        if_neg (by omega), if_neg, Int.toNat_natCast, List.take_left, List.drop_left,
        ih fun other member => small other (List.mem_cons_of_mem value member)]
      · rfl
      · rw [List.length_append]
        omega

theorem readTuples_trailer (rest : List UInt8) : readTuples (trailer ++ rest) = some ([], rest) := by
  have count : toInt trailer = -1 := by decide
  have length : trailer.length = 2 := ofInt_length 2 (-1)
  have long : ¬ (trailer ++ rest).length < 2 := by
    rw [List.length_append, length]
    omega
  rw [readTuples, dif_neg long]
  dsimp only
  rw [List.take_left' length, List.drop_left' length, count, if_pos rfl]

theorem readTuples_writeTuple (fields : List (List UInt8)) (rest : List UInt8)
    (few : fields.length < 2 ^ 15) (small : ∀ value ∈ fields, value.length < 2 ^ 31) :
    readTuples (writeTuple fields ++ rest) =
      (readTuples rest).map fun (tuples, left) => (fields.map some :: tuples, left) := by
  have count : toInt (ofInt 2 fields.length) = fields.length :=
    toInt_ofInt (by omega) (by norm_num; omega) (by decide)
  have long : ¬ (writeTuple fields ++ rest).length < 2 := by
    rw [writeTuple, List.append_assoc, List.length_append, ofInt_length]
    omega
  rw [readTuples, dif_neg long]
  dsimp only
  rw [writeTuple, List.append_assoc, List.take_left' (ofInt_length 2 _),
    List.drop_left' (ofInt_length 2 _), count, if_neg (by omega), if_neg (by omega),
    Int.toNat_natCast, readFields_writeField fields rest small]

/-! ### Streams -/

/-- `PGCOPY`, a line feed, `\377`, a carriage return, a line feed and a zero byte. -/
def signature : List UInt8 := [80, 71, 67, 79, 80, 89, 10, 255, 13, 10, 0]

/-- The tuples of a stream, and what follows it. The upper half of the flags is for flags that
a reader must know; none is known. -/
def readStream (input : List UInt8) : Option (List (List Field) × List UInt8) :=
  let flags := ofBigEndian ((input.drop 11).take 4)
  let extension := toInt ((input.drop 15).take 4)
  if input.length < 19 ∨ input.take 11 ≠ signature ∨ 2 ^ 16 ≤ flags ∨ extension < 0 ∨
      input.length < 19 + extension.toNat then
    none
  else readTuples (input.drop (19 + extension.toNat))

def header : List UInt8 := signature ++ [0, 0, 0, 0] ++ [0, 0, 0, 0]

theorem readStream_header (rest : List UInt8) : readStream (header ++ rest) = readTuples rest := by
  have length : (header ++ rest).length = 19 + rest.length := List.length_append
  have start : (header ++ rest).take 11 = signature := rfl
  have flags : ((header ++ rest).drop 11).take 4 = [0, 0, 0, 0] := rfl
  have extension : ((header ++ rest).drop 15).take 4 = [0, 0, 0, 0] := rfl
  have zero : toInt [0, 0, 0, 0] = 0 := by decide
  have none : ofBigEndian [0, 0, 0, 0] = 0 := by decide
  unfold readStream
  dsimp only
  rw [length, start, flags, extension, zero, none, if_neg]
  · rfl
  · simp

end Library.CopyFormat
