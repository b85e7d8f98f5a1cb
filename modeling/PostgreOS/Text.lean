/-
Text and byte strings of the database, with the PostgreSQL string functions that
the schema calls.

Text is a list of characters and `length` counts characters; `octet_length`
counts the bytes of the UTF-8 form. Character positions are one-based and a
missing character has position zero, as `strpos` reports it. The default
collation of the path columns is "C", which orders UTF-8 text by code points.
-/

import Mathlib.Data.Char
import Mathlib.Data.List.Basic
import Mathlib.Data.List.Infix
import Mathlib.Data.List.Lex

namespace PostgreOS

abbrev Text := List Char

abbrev Bytes := List UInt8

/-- `convert_to(text, 'UTF8')`. -/
def convertTo (text : Text) : Bytes :=
  text.flatMap String.utf8EncodeChar

/-- `convert_from(data, 'UTF8')`; `none` is the error
`character_not_in_repertoire`, raised for malformed UTF-8 and for NUL bytes. -/
def convertFrom (data : Bytes) : Option Text :=
  match data.toByteArray.utf8Decode? with
  | some characters => if '\x00' ∈ characters.toList then none else some characters.toList
  | none => none

/-- `std::str::from_utf8`. -/
def fromUtf8 (data : Bytes) : Option Text :=
  data.toByteArray.utf8Decode?.map Array.toList

/-- `octet_length(text)`. -/
def octetLength (text : Text) : Nat :=
  (convertTo text).length

/-- `strpos(text, symbol)` for a one-character needle. -/
def strpos (text : Text) (symbol : Char) : Nat :=
  if symbol ∈ text then text.idxOf symbol + 1 else 0

/-- `left(text, count)`; a negative count drops characters at the end. -/
def left (text : Text) (count : Int) : Text :=
  if 0 ≤ count then text.take count.toNat else text.take (text.length - (-count).toNat)

/-- `right(text, count)`; a negative count drops characters at the start. -/
def right (text : Text) (count : Int) : Text :=
  if 0 ≤ count then text.drop (text.length - count.toNat) else text.drop (-count).toNat

/-- `substr(text, start)` for a positive one-based start. -/
def substr (text : Text) (start : Nat) : Text :=
  text.drop (start - 1)

/-- `trim(leading symbol FROM text)`. -/
def trimLeading (symbol : Char) (text : Text) : Text :=
  text.dropWhile (· == symbol)

/-- `replace(text, symbol, replacement)` for a one-character pattern. -/
def replaceChar (symbol : Char) (replacement : Text) (text : Text) : Text :=
  text.flatMap fun other => if other = symbol then replacement else [other]

theorem replaceChar_append (symbol : Char) (replacement first second : Text) :
    replaceChar symbol replacement (first ++ second) =
      replaceChar symbol replacement first ++ replaceChar symbol replacement second :=
  List.flatMap_append

theorem replaceChar_cons (symbol : Char) (replacement : Text) (other : Char) (rest : Text) :
    replaceChar symbol replacement (other :: rest) =
      replaceChar symbol replacement [other] ++ replaceChar symbol replacement rest :=
  replaceChar_append symbol replacement [other] rest

def collateC (first second : Text) : Bool :=
  decide (first ≤ second)

/-- An error raised by a statement or by `RAISE EXCEPTION`: the SQLSTATE, the
message format and the values of its placeholders. -/
structure PgError where
  errcode : String
  message : String
  arguments : List Text
  deriving DecidableEq, Repr

/-- The outcome of a function that may raise. -/
abbrev Result (α : Type) := Except PgError α

def raise {α : Type} (errcode message : String) (arguments : List Text) : Result α :=
  .error { errcode := errcode, message := message, arguments := arguments }

/-! ### UTF-8 -/

@[simp] theorem convertTo_nil : convertTo [] = [] := rfl

@[simp] theorem convertTo_append (first second : Text) :
    convertTo (first ++ second) = convertTo first ++ convertTo second := by
  simp [convertTo]

theorem convertTo_cons (symbol : Char) (text : Text) :
    convertTo (symbol :: text) = String.utf8EncodeChar symbol ++ convertTo text := rfl

@[simp] theorem octetLength_append (first second : Text) :
    octetLength (first ++ second) = octetLength first + octetLength second := by
  simp [octetLength]

private theorem utf8Decode_convertTo (text : Text) :
    (convertTo text).toByteArray.utf8Decode? = some text.toArray :=
  List.utf8Decode?_utf8Encode (l := text)

theorem convertFrom_convertTo {text : Text} (noNul : '\x00' ∉ text) :
    convertFrom (convertTo text) = some text := by
  unfold convertFrom
  rw [utf8Decode_convertTo]
  simp [noNul]

theorem fromUtf8_eq_some_iff (data : Bytes) (text : Text) :
    fromUtf8 data = some text ↔ convertTo text = data := by
  unfold fromUtf8
  constructor
  · intro decoded
    obtain ⟨characters, found, rfl⟩ := Option.map_eq_some_iff.mp decoded
    have present : data.toByteArray.utf8Decode?.isSome = true := by rw [found]; rfl
    have encoded := ByteArray.utf8Encode_get_utf8Decode? (b := data.toByteArray) (h := present)
    simp only [found, Option.get_some] at encoded
    have lists := congrArg (fun bytes => bytes.data.toList) encoded
    simpa [List.utf8Encode, convertTo] using lists
  · rintro rfl
    rw [utf8Decode_convertTo]
    rfl

theorem convertFrom_eq_some_iff (data : Bytes) (text : Text) :
    convertFrom data = some text ↔ convertTo text = data ∧ '\x00' ∉ text := by
  constructor
  · intro decoded
    unfold convertFrom at decoded
    split at decoded
    · rename_i characters found
      split at decoded
      · cases decoded
      · rename_i noNul
        obtain rfl := Option.some.inj decoded
        refine ⟨(fromUtf8_eq_some_iff data _).mp ?_, noNul⟩
        rw [fromUtf8, found]
        rfl
    · cases decoded
  · rintro ⟨rfl, noNul⟩
    exact convertFrom_convertTo noNul

theorem convertTo_injective {first second : Text} (same : convertTo first = convertTo second) :
    first = second := by
  have decoded := utf8Decode_convertTo first
  rw [same, utf8Decode_convertTo second] at decoded
  simpa using (Option.some.inj decoded).symm

def newlineByte : UInt8 := 10

@[simp] theorem convertTo_newline : convertTo ['\n'] = [newlineByte] := by decide

/-- No other character has an ASCII byte in its encoding. -/
theorem asciiByte_notMem_utf8EncodeChar {byte : UInt8} (ascii : byte.toNat < 128) {symbol : Char}
    (other : symbol.val.toNat ≠ byte.toNat) : byte ∉ String.utf8EncodeChar symbol := by
  have bound : symbol.val.toNat < 1114112 := by
    rcases symbol.valid with small | ⟨-, large⟩
    · exact Nat.lt_trans small (by decide)
    · exact large
  have apart (value : Nat) (small : value < 256) (differs : value ≠ byte.toNat) :
      byte ≠ UInt8.ofNat value := by
    intro same
    have values := congrArg UInt8.toNat same
    rw [UInt8.toNat_ofNat'] at values
    omega
  unfold String.utf8EncodeChar
  simp only
  split
  · simp only [List.mem_singleton]
    exact apart _ (by omega) other
  · split
    · simp only [List.mem_cons, List.not_mem_nil, or_false, not_or]
      exact ⟨apart _ (by omega) (by omega), apart _ (by omega) (by omega)⟩
    · split
      · simp only [List.mem_cons, List.not_mem_nil, or_false, not_or]
        exact ⟨apart _ (by omega) (by omega), apart _ (by omega) (by omega),
          apart _ (by omega) (by omega)⟩
      · simp only [List.mem_cons, List.not_mem_nil, or_false, not_or]
        exact ⟨apart _ (by omega) (by omega), apart _ (by omega) (by omega),
          apart _ (by omega) (by omega), apart _ (by omega) (by omega)⟩

theorem newlineByte_notMem_utf8EncodeChar {symbol : Char} (other : symbol ≠ '\n') :
    newlineByte ∉ String.utf8EncodeChar symbol :=
  asciiByte_notMem_utf8EncodeChar (by decide) fun same =>
    other (Char.ext (UInt32.toNat_inj.mp same))

theorem zero_mem_convertTo {text : Text} : 0 ∈ convertTo text ↔ '\x00' ∈ text := by
  constructor
  · intro member
    obtain ⟨symbol, inText, inCode⟩ := List.mem_flatMap.mp member
    by_cases nul : symbol = '\x00'
    · rwa [← nul]
    · exact absurd inCode (asciiByte_notMem_utf8EncodeChar (by decide) fun same =>
        nul (Char.ext (UInt32.toNat_inj.mp same)))
  · intro member
    exact List.mem_flatMap.mpr ⟨'\x00', member, by decide⟩

theorem utf8EncodeChar_ascii {symbol : Char} (ascii : symbol.val.toNat < 128) :
    String.utf8EncodeChar symbol = [UInt8.ofNat symbol.val.toNat] := by
  unfold String.utf8EncodeChar
  simp only
  rw [if_pos (by omega)]

/-- A cut of the bytes around an ASCII byte is a cut of the text. -/
theorem convertTo_split_ascii {symbol : Char} (ascii : symbol.val.toNat < 128) (text : Text)
    (before after : Bytes)
    (cut : convertTo text = before ++ UInt8.ofNat symbol.val.toNat :: after) :
    ∃ front back, text = front ++ symbol :: back ∧ convertTo front = before ∧
      convertTo back = after := by
  induction text generalizing before with
  | nil => simp at cut
  | cons head rest ih =>
      rw [convertTo_cons] at cut
      by_cases same : head = symbol
      · subst head
        rw [utf8EncodeChar_ascii ascii, List.singleton_append] at cut
        cases before with
        | nil => exact ⟨[], rest, rfl, rfl, (List.cons.inj cut).2⟩
        | cons byte more =>
            obtain ⟨rfl, sameRest⟩ := List.cons.inj cut
            obtain ⟨front, back, rfl, hFront, hBack⟩ := ih more sameRest
            refine ⟨symbol :: front, back, rfl, ?_, hBack⟩
            rw [convertTo_cons, utf8EncodeChar_ascii ascii, hFront, List.singleton_append]
      · rcases List.append_eq_append_iff.mp cut with ⟨extra, hBefore, hRest⟩ | ⟨extra, hSymbol, hTail⟩
        · obtain ⟨front, back, rfl, hFront, hBack⟩ := ih extra hRest
          exact ⟨head :: front, back, rfl, by rw [convertTo_cons, hFront, hBefore], hBack⟩
        · cases extra with
          | nil =>
              rw [List.nil_append] at hTail
              rw [List.append_nil] at hSymbol
              obtain ⟨front, back, rfl, hFront, hBack⟩ := ih [] hTail.symm
              exact ⟨head :: front, back, rfl, by rw [convertTo_cons, hFront, hSymbol,
                List.append_nil], hBack⟩
          | cons byte more =>
              exfalso
              obtain ⟨rfl, -⟩ := List.cons.inj hTail
              have code : (UInt8.ofNat symbol.val.toNat).toNat = symbol.val.toNat := by
                rw [UInt8.toNat_ofNat']
                omega
              refine asciiByte_notMem_utf8EncodeChar (by rwa [code]) (fun equal => ?_)
                (hSymbol ▸ List.mem_append_right before List.mem_cons_self)
              rw [code] at equal
              exact same (Char.ext (UInt32.toNat_inj.mp equal))

theorem convertTo_split_newline (text : Text) (before after : Bytes)
    (cut : convertTo text = before ++ newlineByte :: after) :
    ∃ front back, text = front ++ '\n' :: back ∧ convertTo front = before ∧
      convertTo back = after :=
  @convertTo_split_ascii '\n' (by decide) text before after cut

theorem convertTo_cut_ascii {word text : Text} (ascii : ∀ symbol ∈ word, symbol.val.toNat < 128)
    {after : Bytes} (cut : convertTo text = convertTo word ++ after) :
    ∃ back, text = word ++ back ∧ convertTo back = after := by
  induction word generalizing text with
  | nil => exact ⟨text, rfl, cut⟩
  | cons symbol rest ih =>
      rw [List.forall_mem_cons] at ascii
      rw [convertTo_cons, utf8EncodeChar_ascii ascii.1, List.singleton_append] at cut
      obtain ⟨front, more, rfl, empty, hRest⟩ := convertTo_split_ascii ascii.1 text [] _ cut
      obtain rfl : front = [] := convertTo_injective empty
      obtain ⟨back, rfl, hBack⟩ := ih ascii.2 hRest
      exact ⟨back, rfl, hBack⟩

theorem convertTo_split_word {word text : Text} (some : word ≠ [])
    (ascii : ∀ symbol ∈ word, symbol.val.toNat < 128) {before after : Bytes}
    (cut : convertTo text = before ++ (convertTo word ++ after)) :
    ∃ front back, text = front ++ (word ++ back) ∧ convertTo front = before ∧
      convertTo back = after := by
  cases word with
  | nil => exact absurd rfl some
  | cons symbol rest =>
      rw [List.forall_mem_cons] at ascii
      rw [convertTo_cons, utf8EncodeChar_ascii ascii.1, List.singleton_append] at cut
      obtain ⟨front, more, rfl, hFront, hRest⟩ := convertTo_split_ascii ascii.1 text before _ cut
      obtain ⟨back, rfl, hBack⟩ := convertTo_cut_ascii ascii.2 hRest
      exact ⟨front, back, rfl, hFront, hBack⟩

theorem code_of_mem_utf8EncodeChar {symbol : Char} {byte : UInt8}
    (member : byte ∈ String.utf8EncodeChar symbol) (ascii : byte.toNat < 128) :
    symbol.val.toNat = byte.toNat := by
  by_contra other
  exact asciiByte_notMem_utf8EncodeChar ascii other member

theorem utf8EncodeChar_append_inj {first second : Char} {rest more : Bytes}
    (same : String.utf8EncodeChar first ++ rest = String.utf8EncodeChar second ++ more) :
    first = second ∧ rest = more := by
  have decoded (symbol : Char) (after : Bytes) :
      (String.utf8EncodeChar symbol ++ after).toByteArray.utf8DecodeChar? 0 = some symbol := by
    rw [List.toByteArray_append]
    exact ByteArray.utf8DecodeChar?_utf8EncodeChar_append
  have symbols := decoded first rest
  rw [same, decoded second more] at symbols
  obtain rfl := Option.some.inj symbols
  exact ⟨rfl, List.append_cancel_left same⟩

theorem first_of_utf8EncodeChar {first second : Char} {front back more : Bytes}
    (inside : String.utf8EncodeChar first = front ++ back) (some : back ≠ [])
    (begins : back <+: String.utf8EncodeChar second ++ more) : front = [] := by
  obtain ⟨byte, rest, rfl⟩ := List.exists_cons_of_ne_nil some
  have head : (String.utf8EncodeChar second)[0]? = Option.some byte := by
    obtain ⟨first, tail, code⟩ := List.exists_cons_of_ne_nil (@String.utf8EncodeChar_ne_nil second)
    rw [code] at begins ⊢
    rw [(List.cons_prefix_cons.mp begins).1]
    rfl
  obtain ⟨bound, atZero⟩ := List.getElem?_eq_some_iff.mp head
  have isFirst : byte.IsUTF8FirstByte := by
    rw [← atZero]
    exact UInt8.isUTF8FirstByte_getElem_utf8EncodeChar.mpr rfl
  have place : (String.utf8EncodeChar first)[front.length]? = Option.some byte := by
    rw [inside]
    simp
  obtain ⟨inBound, there⟩ := List.getElem?_eq_some_iff.mp place
  rw [← there] at isFirst
  exact List.eq_nil_of_length_eq_zero (UInt8.isUTF8FirstByte_getElem_utf8EncodeChar.mp isFirst)

theorem prefix_of_convertTo {word text : Text} (isPrefix : convertTo word <+: convertTo text) :
    word <+: text := by
  induction word generalizing text with
  | nil => exact List.nil_prefix
  | cons symbol word ih =>
      obtain ⟨after, whole⟩ := isPrefix
      rw [convertTo_cons, List.append_assoc] at whole
      cases text with
      | nil =>
          have some_ : String.utf8EncodeChar symbol ≠ [] := String.utf8EncodeChar_ne_nil
          exact absurd (List.append_eq_nil_iff.mp whole).1 some_
      | cons head rest =>
          obtain ⟨rfl, sameRest⟩ := utf8EncodeChar_append_inj whole
          rw [List.prefix_cons_inj]
          exact ih ⟨after, sameRest⟩

/-- The bytes of a text begin at a character only. -/
theorem convertTo_infix_iff {word text : Text} :
    convertTo word <:+: convertTo text ↔ word <:+: text := by
  constructor
  · rintro ⟨before, after, whole⟩
    cases word with
    | nil => exact List.nil_infix
    | cons symbol word =>
        induction text generalizing before with
        | nil =>
            have some_ : convertTo (symbol :: word) ≠ [] := by
              rw [convertTo_cons]
              exact List.append_ne_nil_of_left_ne_nil String.utf8EncodeChar_ne_nil _
            exact absurd (List.append_eq_nil_iff.mp (List.append_eq_nil_iff.mp whole).1).2 some_
        | cons head rest ih =>
            cases before with
            | nil =>
                rw [List.nil_append] at whole
                exact (prefix_of_convertTo ⟨after, whole⟩).isInfix
            | cons byte more =>
                rw [convertTo_cons head, List.append_assoc] at whole
                rcases List.append_eq_append_iff.mp whole with
                  ⟨extra, code, behind⟩ | ⟨extra, front, behind⟩
                · by_cases none_ : extra = []
                  · rw [none_, List.nil_append] at behind
                    exact List.infix_cons (ih [] behind)
                  · have begins : extra <+: String.utf8EncodeChar symbol ++ (convertTo word ++ after) := by
                      rw [← List.append_assoc, ← convertTo_cons, behind]
                      exact List.prefix_append _ _
                    cases first_of_utf8EncodeChar code none_ begins
                · exact List.infix_cons (ih extra (by rw [List.append_assoc, behind]))
  · rintro ⟨before, after, rfl⟩
    exact ⟨convertTo before, convertTo after, by rw [convertTo_append, convertTo_append]⟩
end PostgreOS
