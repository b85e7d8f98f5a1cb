/-
The SQL `LIKE` matcher with its default escape character.

In a pattern `%` stands for any run of characters, `_` for one character, and a
backslash makes the next pattern character literal. A prefix test written as
`LIKE prefix || '/%'` is therefore a prefix test only for prefixes without these
three characters; the lemmas below say what holds for every prefix and what
holds for plain ones.
-/

import Mathlib.Data.List.Basic
import Mathlib.Data.List.Infix

namespace Library.LikePattern

/-- `text LIKE pattern`. An escape at the very end of a pattern matches nothing. -/
def like : List Char → List Char → Bool
  | [], text => text.isEmpty
  | '%' :: pattern, text => text.tails.any (like pattern)
  | '_' :: pattern, text =>
      match text with
      | [] => false
      | _ :: rest => like pattern rest
  | ['\\'], _ => false
  | '\\' :: literal :: pattern, text =>
      match text with
      | [] => false
      | symbol :: rest => symbol == literal && like pattern rest
  | literal :: pattern, text =>
      match text with
      | [] => false
      | symbol :: rest => symbol == literal && like pattern rest

def special (symbol : Char) : Bool :=
  symbol == '%' || symbol == '_' || symbol == '\\'

def Plain (text : List Char) : Prop :=
  ∀ symbol ∈ text, special symbol = false

instance (text : List Char) : Decidable (Plain text) :=
  List.decidableBAll (fun symbol => special symbol = false) text

theorem consumes_iff {literal symbol : Char} {rest : List Char} {accepts : List Char → Bool} :
    (symbol == literal && accepts rest) = true ↔
      ∃ tail, symbol :: rest = literal :: tail ∧ accepts tail = true := by
  simp only [Bool.and_eq_true, beq_iff_eq, List.cons.injEq]
  constructor
  · rintro ⟨rfl, matched⟩
    exact ⟨rest, ⟨rfl, rfl⟩, matched⟩
  · rintro ⟨tail, ⟨rfl, rfl⟩, matched⟩
    exact ⟨rfl, matched⟩

theorem like_percent (pattern text : List Char) :
    like ('%' :: pattern) text = true ↔ ∃ tail, tail <:+ text ∧ like pattern tail = true := by
  simp [like, List.any_eq_true, List.mem_tails]

theorem like_percent_end (text : List Char) : like ['%'] text = true :=
  (like_percent [] text).mpr ⟨[], List.nil_suffix, rfl⟩

theorem like_literal (literal : Char) (plain : special literal = false)
    (pattern text : List Char) :
    like (literal :: pattern) text = true ↔
      ∃ rest, text = literal :: rest ∧ like pattern rest = true := by
  simp only [special, Bool.or_eq_false_iff, beq_eq_false_iff_ne, ne_eq] at plain
  obtain ⟨⟨noPercent, noUnderscore⟩, noEscape⟩ := plain
  cases text with
  | nil =>
      rw [like]
      · simp
      all_goals simp_all
  | cons symbol rest =>
      rw [like]
      · exact consumes_iff
      all_goals simp_all

theorem like_plain_append {stem : List Char} (plain : Plain stem) (pattern text : List Char) :
    like (stem ++ pattern) text = true ↔
      ∃ rest, text = stem ++ rest ∧ like pattern rest = true := by
  induction stem generalizing text with
  | nil => simp
  | cons head tail ih =>
      have plainHead : special head = false := plain head List.mem_cons_self
      have plainTail : Plain tail := fun symbol member =>
        plain symbol (List.mem_cons_of_mem head member)
      rw [List.cons_append, like_literal head plainHead]
      constructor
      · rintro ⟨rest, rfl, matched⟩
        obtain ⟨back, rfl, accepted⟩ := (ih plainTail rest).mp matched
        exact ⟨back, rfl, accepted⟩
      · rintro ⟨back, rfl, accepted⟩
        exact ⟨tail ++ back, rfl, (ih plainTail _).mpr ⟨back, rfl, accepted⟩⟩

theorem like_prefix_of_plain {stem : List Char} (plain : Plain stem) (text : List Char) :
    like (stem ++ ['%']) text = true ↔ stem <+: text := by
  rw [like_plain_append plain]
  constructor
  · rintro ⟨rest, rfl, -⟩
    exact List.prefix_append stem rest
  · rintro ⟨rest, rfl⟩
    exact ⟨rest, rfl, like_percent_end rest⟩

theorem like_underscore (pattern text : List Char) :
    like ('_' :: pattern) text = true ↔
      ∃ symbol rest, text = symbol :: rest ∧ like pattern rest = true := by
  cases text <;> simp [like]

theorem like_escape (literal : Char) (pattern text : List Char) :
    like ('\\' :: literal :: pattern) text = true ↔
      ∃ rest, text = literal :: rest ∧ like pattern rest = true := by
  cases text with
  | nil => simp [like]
  | cons symbol rest =>
      rw [like]
      exact consumes_iff

/-! ### Escaped literals -/

def escapeLike (text : List Char) : List Char :=
  text.flatMap fun symbol => if special symbol then ['\\', symbol] else [symbol]

theorem like_escaped_append (stem pattern text : List Char) :
    like (escapeLike stem ++ pattern) text = true ↔
      ∃ rest, text = stem ++ rest ∧ like pattern rest = true := by
  induction stem generalizing text with
  | nil => simp [escapeLike]
  | cons head tail ih =>
      have first : like (escapeLike (head :: tail) ++ pattern) text = true ↔
          ∃ rest, text = head :: rest ∧ like (escapeLike tail ++ pattern) rest = true := by
        cases plain : special head with
        | true =>
            have shape : escapeLike (head :: tail) ++ pattern =
                '\\' :: head :: (escapeLike tail ++ pattern) := by
              simp [escapeLike, plain]
            rw [shape, like_escape]
        | false =>
            have shape : escapeLike (head :: tail) ++ pattern =
                head :: (escapeLike tail ++ pattern) := by
              simp [escapeLike, plain]
            rw [shape, like_literal head plain]
      rw [first]
      constructor
      · rintro ⟨rest, rfl, matched⟩
        obtain ⟨back, rfl, accepted⟩ := (ih rest).mp matched
        exact ⟨back, rfl, accepted⟩
      · rintro ⟨back, rfl, accepted⟩
        exact ⟨tail ++ back, rfl, (ih _).mpr ⟨back, rfl, accepted⟩⟩

/-- The pattern ends in an escape with nothing behind it, which is an error when a match gets
there. -/
def unfinished : List Char → Bool
  | [] => false
  | ['\\'] => true
  | '\\' :: _ :: pattern => unfinished pattern
  | _ :: pattern => unfinished pattern

theorem unfinished_literal {literal : Char} (other : literal ≠ '\\') (pattern : List Char) :
    unfinished (literal :: pattern) = unfinished pattern := by
  rw [unfinished]
  all_goals simp_all

theorem unfinished_escaped_append (stem pattern : List Char) :
    unfinished (escapeLike stem ++ pattern) = unfinished pattern := by
  induction stem with
  | nil => rfl
  | cons head tail ih =>
      rw [escapeLike, List.flatMap_cons, List.append_assoc, ← escapeLike]
      split
      · rw [List.cons_append, List.singleton_append, unfinished, ih]
      · rename_i plain
        have other : head ≠ '\\' := by
          rintro rfl
          exact plain rfl
        rw [List.singleton_append, unfinished_literal other, ih]

theorem like_contains (literal text : List Char) :
    like ('%' :: (escapeLike literal ++ ['%'])) text = true ↔ literal <:+: text := by
  rw [like_percent]
  constructor
  · rintro ⟨tail, ⟨front, rfl⟩, matched⟩
    obtain ⟨rest, rfl, -⟩ := (like_escaped_append literal ['%'] tail).mp matched
    exact ⟨front, rest, (List.append_assoc front literal rest)⟩
  · rintro ⟨front, rest, rfl⟩
    refine ⟨literal ++ rest, ⟨front, (List.append_assoc front literal rest).symm⟩, ?_⟩
    exact (like_escaped_append literal ['%'] _).mpr ⟨rest, rfl, like_percent_end rest⟩

/-- Every plain character of a pattern matches one occurrence of itself, so a
match has at least as many of them as its pattern. -/
theorem count_le_of_like (symbol : Char) (plain : special symbol = false)
    (pattern text : List Char) (matched : like pattern text = true) :
    pattern.count symbol ≤ text.count symbol := by
  have distinct := plain
  simp only [special, Bool.or_eq_false_iff, beq_eq_false_iff_ne, ne_eq] at distinct
  obtain ⟨⟨noPercent, noUnderscore⟩, noEscape⟩ := distinct
  -- An escape consumes two pattern characters, hence the induction on the length.
  induction size : pattern.length using Nat.strong_induction_on generalizing pattern text with
  | _ size ih =>
      subst size
      cases pattern with
      | nil => exact Nat.zero_le _
      | cons head pattern =>
          by_cases percent : head = '%'
          · subst head
            obtain ⟨tail, isSuffix, accepted⟩ := (like_percent pattern text).mp matched
            rw [List.count_cons_of_ne (fun same => noPercent same.symm)]
            exact (ih pattern.length (by simp) pattern tail accepted rfl).trans
              (isSuffix.sublist.count_le symbol)
          by_cases underscore : head = '_'
          · subst head
            obtain ⟨skipped, rest, rfl, accepted⟩ := (like_underscore pattern text).mp matched
            rw [List.count_cons_of_ne (fun same => noUnderscore same.symm)]
            exact (ih pattern.length (by simp) pattern rest accepted rfl).trans
              ((List.sublist_cons_self skipped rest).count_le symbol)
          by_cases escape : head = '\\'
          · subst head
            cases pattern with
            | nil => simp [like] at matched
            | cons literal pattern =>
                obtain ⟨rest, rfl, accepted⟩ := (like_escape literal pattern text).mp matched
                have shorter := ih pattern.length (by simp only [List.length_cons]; omega) pattern rest accepted rfl
                rw [List.count_cons_of_ne (fun same => noEscape same.symm)]
                simp only [List.count_cons]
                omega
          · have literal : special head = false := by simp [special, percent, underscore, escape]
            obtain ⟨rest, rfl, accepted⟩ := (like_literal head literal pattern text).mp matched
            have shorter := ih pattern.length (by simp) pattern rest accepted rfl
            simp only [List.count_cons]
            omega

/-- What follows a match of a pattern that ends in `%` is matched too. The character before
the `%` keeps an escape away from it. -/
theorem like_append_of_percent {final : Char} (plain : special final = false)
    (stem text more : List Char) (matched : like (stem ++ [final, '%']) text = true) :
    like (stem ++ [final, '%']) (text ++ more) = true := by
  induction size : stem.length using Nat.strong_induction_on generalizing stem text with
  | _ size ih =>
      subst size
      cases stem with
      | nil =>
          obtain ⟨rest, rfl, -⟩ := (like_literal final plain ['%'] text).mp matched
          exact (like_literal final plain ['%'] _).mpr ⟨rest ++ more, rfl, like_percent_end _⟩
      | cons head stem =>
          by_cases percent : head = '%'
          · subst head
            obtain ⟨tail, ⟨front, rfl⟩, accepted⟩ := (like_percent _ text).mp matched
            refine (like_percent _ _).mpr ⟨tail ++ more, ⟨front, (List.append_assoc _ _ _).symm⟩, ?_⟩
            exact ih stem.length (by simp) stem tail accepted rfl
          by_cases underscore : head = '_'
          · subst head
            obtain ⟨skipped, rest, rfl, accepted⟩ := (like_underscore _ text).mp matched
            exact (like_underscore _ _).mpr
              ⟨skipped, rest ++ more, rfl, ih stem.length (by simp) stem rest accepted rfl⟩
          by_cases escape : head = '\\'
          · subst head
            cases stem with
            | nil =>
                obtain ⟨rest, rfl, accepted⟩ := (like_escape final ['%'] text).mp matched
                exact (like_escape final ['%'] _).mpr ⟨rest ++ more, rfl, like_percent_end _⟩
            | cons literal stem =>
                obtain ⟨rest, rfl, accepted⟩ := (like_escape literal _ text).mp matched
                refine (like_escape literal _ _).mpr ⟨rest ++ more, rfl, ?_⟩
                exact ih stem.length (by simp only [List.length_cons]; omega) stem rest accepted rfl
          · have literal : special head = false := by simp [special, percent, underscore, escape]
            obtain ⟨rest, rfl, accepted⟩ := (like_literal head literal _ text).mp matched
            exact (like_literal head literal _ _).mpr
              ⟨rest ++ more, rfl, ih stem.length (by simp) stem rest accepted rfl⟩

end Library.LikePattern
