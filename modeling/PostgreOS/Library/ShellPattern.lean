/-
Shell patterns without bracket expressions.

In a pattern `*` stands for any run of characters, `?` for one character, and a backslash makes
the next pattern character literal. A backslash at the very end matches nothing.
-/

import PostgreOS.Library.LikePattern

namespace Library.ShellPattern

open Library.LikePattern

def glob : List Char → List Char → Bool
  | [], text => text.isEmpty
  | '*' :: pattern, text => text.tails.any (glob pattern)
  | '?' :: pattern, text =>
      match text with
      | [] => false
      | _ :: rest => glob pattern rest
  | ['\\'], _ => false
  | '\\' :: literal :: pattern, text =>
      match text with
      | [] => false
      | symbol :: rest => symbol == literal && glob pattern rest
  | literal :: pattern, text =>
      match text with
      | [] => false
      | symbol :: rest => symbol == literal && glob pattern rest

theorem glob_star (pattern text : List Char) :
    glob ('*' :: pattern) text = true ↔ ∃ tail, tail <:+ text ∧ glob pattern tail = true := by
  simp [glob, List.any_eq_true, List.mem_tails]

theorem glob_question (pattern text : List Char) :
    glob ('?' :: pattern) text = true ↔
      ∃ symbol rest, text = symbol :: rest ∧ glob pattern rest = true := by
  cases text <;> simp [glob]

theorem glob_escape (literal : Char) (pattern text : List Char) :
    glob ('\\' :: literal :: pattern) text = true ↔
      ∃ rest, text = literal :: rest ∧ glob pattern rest = true := by
  cases text with
  | nil => simp [glob]
  | cons symbol rest =>
      rw [glob]
      exact consumes_iff

theorem glob_literal {literal : Char} (noStar : literal ≠ '*') (noQuestion : literal ≠ '?')
    (noEscape : literal ≠ '\\') (pattern text : List Char) :
    glob (literal :: pattern) text = true ↔
      ∃ rest, text = literal :: rest ∧ glob pattern rest = true := by
  cases text with
  | nil =>
      rw [glob]
      · simp
      all_goals simp_all
  | cons symbol rest =>
      rw [glob]
      · exact consumes_iff
      all_goals simp_all

/-- The characters of the text are those of the pattern and `x`. -/
def DrawnFrom (pattern text : List Char) : Prop :=
  ∀ symbol ∈ text, symbol ∈ pattern ∨ symbol = 'x'

section DrawnFrom

variable {head : Char} {pattern text : List Char} (drawn : DrawnFrom pattern text)

include drawn

theorem DrawnFrom.later : DrawnFrom (head :: pattern) text :=
  fun symbol member => (drawn symbol member).imp_left (List.mem_cons_of_mem head)

theorem DrawnFrom.wildcard : DrawnFrom (head :: pattern) ('x' :: text) :=
  List.forall_mem_cons.mpr ⟨Or.inr rfl, drawn.later⟩

theorem DrawnFrom.literal : DrawnFrom (head :: pattern) (head :: text) :=
  List.forall_mem_cons.mpr ⟨Or.inl List.mem_cons_self, drawn.later⟩

end DrawnFrom

/-- A pattern that matches something matches a text with at most half of its backslashes: each
of them needs another one in the pattern. -/
theorem exists_few_escapes (pattern text : List Char) (matched : glob pattern text = true) :
    ∃ few, glob pattern few = true ∧ 2 * few.count '\\' ≤ pattern.count '\\' ∧
      (pattern ≠ [] → few ≠ []) ∧ DrawnFrom pattern few := by
  -- An escape consumes two pattern characters, hence the induction on the length.
  induction size : pattern.length using Nat.strong_induction_on generalizing pattern text with
  | _ size ih =>
      subst size
      cases pattern with
      | nil => exact ⟨[], rfl, Nat.le_refl 0, fun some => some, List.forall_mem_nil _⟩
      | cons head pattern =>
          have shorter : pattern.length < (head :: pattern).length := Nat.lt_succ_self _
          by_cases star : head = '*'
          · subst head
            obtain ⟨tail, -, accepted⟩ := (glob_star pattern text).mp matched
            obtain ⟨few, found, count, -, drawn⟩ := ih _ shorter pattern tail accepted rfl
            refine ⟨'x' :: few, (glob_star pattern _).mpr ⟨few, List.suffix_cons 'x' few, found⟩, ?_,
              fun _ => List.cons_ne_nil _ _, drawn.wildcard⟩
            rwa [List.count_cons_of_ne (by decide), List.count_cons_of_ne (by decide)]
          by_cases question : head = '?'
          · subst head
            obtain ⟨symbol, tail, -, accepted⟩ := (glob_question pattern text).mp matched
            obtain ⟨few, found, count, -, drawn⟩ := ih _ shorter pattern tail accepted rfl
            refine ⟨'x' :: few, (glob_question pattern _).mpr ⟨'x', few, rfl, found⟩, ?_,
              fun _ => List.cons_ne_nil _ _, drawn.wildcard⟩
            rwa [List.count_cons_of_ne (by decide), List.count_cons_of_ne (by decide)]
          by_cases escape : head = '\\'
          · subst head
            cases pattern with
            | nil => simp [glob] at matched
            | cons literal pattern =>
                obtain ⟨tail, -, accepted⟩ := (glob_escape literal pattern text).mp matched
                obtain ⟨few, found, count, -, drawn⟩ := ih pattern.length
                  (by simp only [List.length_cons]; omega) pattern tail accepted rfl
                refine ⟨literal :: few, (glob_escape literal pattern _).mpr ⟨few, rfl, found⟩, ?_,
                  fun _ => List.cons_ne_nil _ _, drawn.literal.later⟩
                rw [List.count_cons_self, List.count_cons, List.count_cons]
                split <;> omega
          · obtain ⟨tail, -, accepted⟩ := (glob_literal star question escape pattern text).mp matched
            obtain ⟨few, found, count, -, drawn⟩ := ih _ shorter pattern tail accepted rfl
            refine ⟨head :: few, (glob_literal star question escape pattern _).mpr
              ⟨few, rfl, found⟩, ?_, fun _ => List.cons_ne_nil _ _, drawn.literal⟩
            rwa [List.count_cons_of_ne escape, List.count_cons_of_ne escape]

/-- A text has every character that the pattern asks for, escaped or not. -/
theorem mem_of_glob {symbol : Char} (noStar : symbol ≠ '*') (noQuestion : symbol ≠ '?')
    (noEscape : symbol ≠ '\\') (pattern text : List Char) (matched : glob pattern text = true)
    (member : symbol ∈ pattern) : symbol ∈ text := by
  induction size : pattern.length using Nat.strong_induction_on generalizing pattern text with
  | _ size ih =>
      subst size
      cases pattern with
      | nil => cases member
      | cons head pattern =>
          have shorter : pattern.length < (head :: pattern).length := Nat.lt_succ_self _
          by_cases star : head = '*'
          · subst head
            obtain ⟨tail, isSuffix, accepted⟩ := (glob_star pattern text).mp matched
            have later := (List.mem_cons.mp member).resolve_left noStar
            exact isSuffix.subset (ih _ shorter pattern tail accepted later rfl)
          by_cases question : head = '?'
          · subst head
            obtain ⟨other, tail, rfl, accepted⟩ := (glob_question pattern text).mp matched
            have later := (List.mem_cons.mp member).resolve_left noQuestion
            exact List.mem_cons_of_mem other (ih _ shorter pattern tail accepted later rfl)
          by_cases escape : head = '\\'
          · subst head
            cases pattern with
            | nil => simp [glob] at matched
            | cons literal pattern =>
                obtain ⟨tail, rfl, accepted⟩ := (glob_escape literal pattern text).mp matched
                rcases List.mem_cons.mp ((List.mem_cons.mp member).resolve_left noEscape) with
                  rfl | later
                · exact List.mem_cons_self
                · exact List.mem_cons_of_mem literal (ih pattern.length
                    (by simp only [List.length_cons]; omega) pattern tail accepted later rfl)
          · obtain ⟨tail, rfl, accepted⟩ :=
              (glob_literal star question escape pattern text).mp matched
            rcases List.mem_cons.mp member with rfl | later
            · exact List.mem_cons_self
            · exact List.mem_cons_of_mem head (ih _ shorter pattern tail accepted later rfl)

end Library.ShellPattern
