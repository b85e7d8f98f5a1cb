/-
The name patterns of `find`.

The schema turns a shell pattern into a `LIKE` pattern by five replacements, one character after
the other. The wildcards and the characters that only `LIKE` treats specially come out right; a
backslash becomes a literal backslash, whereas in a shell pattern it escapes what follows it.
-/

import PostgreOS.Find
import PostgreOS.Library.ShellPattern

namespace PostgreOS

open Library.LikePattern Library.Segments Library.ShellPattern

theorem namePatternText_cons (symbol : Char) (pattern : Text) :
    namePatternText (symbol :: pattern) = namePatternText [symbol] ++ namePatternText pattern := by
  rw [← List.singleton_append]
  unfold namePatternText
  simp only [replaceChar_append]

section Symbols

variable {symbol : Char} (pattern name : Text)

theorem like_namePattern_star :
    like (namePatternText ('*' :: pattern)) name = true ↔
      ∃ tail, tail <:+ name ∧ like (namePatternText pattern) tail = true := by
  have wildcard : namePatternText ['*'] = ['%'] := by decide
  rw [namePatternText_cons, wildcard]
  exact like_percent _ name

theorem like_namePattern_question :
    like (namePatternText ('?' :: pattern)) name = true ↔
      ∃ other rest, name = other :: rest ∧ like (namePatternText pattern) rest = true := by
  have wildcard : namePatternText ['?'] = ['_'] := by decide
  rw [namePatternText_cons, wildcard]
  exact like_underscore _ name

theorem like_namePattern_literal (noStar : symbol ≠ '*') (noQuestion : symbol ≠ '?') :
    like (namePatternText (symbol :: pattern)) name = true ↔
      ∃ rest, name = symbol :: rest ∧ like (namePatternText pattern) rest = true := by
  rw [namePatternText_cons]
  cases plain : special symbol with
  | true =>
      have escaped : namePatternText [symbol] = ['\\', symbol] := by
        simp only [special, Bool.or_eq_true, beq_iff_eq] at plain
        rcases plain with (rfl | rfl) | rfl <;> decide
      rw [escaped]
      exact like_escape symbol _ name
  | false =>
      have itself : namePatternText [symbol] = [symbol] := by
        have noPercent : symbol ≠ '%' := fun same => by subst same; cases plain
        have noUnderscore : symbol ≠ '_' := fun same => by subst same; cases plain
        have noEscape : symbol ≠ '\\' := fun same => by subst same; cases plain
        simp [namePatternText, replaceChar, noStar, noQuestion, noPercent, noUnderscore, noEscape]
      rw [itself]
      exact like_literal symbol plain _ name

end Symbols

theorem like_namePattern_eq_glob {pattern : Text} (free : '\\' ∉ pattern) (name : Text) :
    like (namePatternText pattern) name = true ↔ glob pattern name = true := by
  induction pattern generalizing name with
  | nil => exact Iff.rfl
  | cons symbol pattern ih =>
      obtain ⟨noEscape, later⟩ := not_or.mp fun found => free (List.mem_cons.mpr found)
      have rest := ih later
      by_cases star : symbol = '*'
      · subst symbol
        rw [like_namePattern_star, glob_star]
        simp only [rest]
      by_cases question : symbol = '?'
      · subst symbol
        rw [like_namePattern_question, glob_question]
        simp only [rest]
      · rw [like_namePattern_literal pattern name star question,
          glob_literal star question (Ne.symm noEscape)]
        simp only [rest]

/-! ### Patterns with backslashes -/

theorem count_le_of_like_namePattern {symbol : Char} (noStar : symbol ≠ '*')
    (noQuestion : symbol ≠ '?') (pattern name : Text)
    (matched : like (namePatternText pattern) name = true) :
    pattern.count symbol ≤ name.count symbol := by
  induction pattern generalizing name with
  | nil => exact Nat.zero_le _
  | cons head pattern ih =>
      by_cases star : head = '*'
      · subst head
        obtain ⟨tail, isSuffix, accepted⟩ := (like_namePattern_star pattern name).mp matched
        rw [List.count_cons_of_ne noStar.symm]
        exact (ih tail accepted).trans (isSuffix.sublist.count_le _)
      by_cases question : head = '?'
      · subst head
        obtain ⟨other, rest, rfl, accepted⟩ := (like_namePattern_question pattern name).mp matched
        rw [List.count_cons_of_ne noQuestion.symm]
        exact (ih rest accepted).trans ((List.sublist_cons_self other rest).count_le _)
      · obtain ⟨rest, rfl, accepted⟩ :=
          (like_namePattern_literal pattern name star question).mp matched
        have shorter := ih rest accepted
        rw [List.count_cons, List.count_cons]
        omega

theorem exists_like_namePattern (pattern : Text) :
    ∃ name, like (namePatternText pattern) name = true ∧ (pattern ≠ [] → name ≠ []) ∧
      DrawnFrom pattern name := by
  induction pattern with
  | nil => exact ⟨[], rfl, fun some => some, List.forall_mem_nil _⟩
  | cons head pattern ih =>
      obtain ⟨name, accepted, -, drawn⟩ := ih
      by_cases star : head = '*'
      · subst head
        exact ⟨'x' :: name, (like_namePattern_star pattern _).mpr
          ⟨name, List.suffix_cons 'x' name, accepted⟩, fun _ => List.cons_ne_nil _ _,
          drawn.wildcard⟩
      by_cases question : head = '?'
      · subst head
        exact ⟨'x' :: name, (like_namePattern_question pattern _).mpr ⟨'x', name, rfl, accepted⟩,
          fun _ => List.cons_ne_nil _ _, drawn.wildcard⟩
      · exact ⟨head :: name, (like_namePattern_literal pattern _ star question).mpr
          ⟨name, rfl, accepted⟩, fun _ => List.cons_ne_nil _ _, drawn.literal⟩

theorem segment_of_pattern {pattern name : Text} (noSlash : '/' ∉ pattern) (nonempty : name ≠ [])
    (drawn : DrawnFrom pattern name) : Segment '/' name := by
  refine ⟨nonempty, fun slash => ?_⟩
  rcases drawn '/' slash with member | same
  · exact noSlash member
  · exact absurd same (by decide)

/-- The test on names is the shell pattern for every file name if and only if the pattern has no
backslash, or a slash, with which it matches no file name. -/
theorem nameMatches_glob_iff (pattern : Text) :
    (∀ name, Segment '/' name →
      (nameMatches (some pattern) name = true ↔ glob pattern name = true)) ↔
        '\\' ∉ pattern ∨ '/' ∈ pattern := by
  unfold nameMatches
  dsimp only
  constructor
  · intro agree
    by_contra neither
    obtain ⟨escapes, noSlash⟩ := not_or.mp neither
    rw [not_not] at escapes
    have nonempty : pattern ≠ [] := List.ne_nil_of_mem escapes
    -- What the code accepts, the shell pattern accepts; then also a name with fewer backslashes.
    obtain ⟨name, accepted, someName, drawn⟩ := exists_like_namePattern pattern
    have matched := (agree name (segment_of_pattern noSlash (someName nonempty) drawn)).mp accepted
    obtain ⟨few, found, half, someFew, drawnFew⟩ := exists_few_escapes pattern name matched
    have taken := (agree few (segment_of_pattern noSlash (someFew nonempty) drawnFew)).mpr found
    have all : pattern.count '\\' ≤ few.count '\\' :=
      count_le_of_like_namePattern (by decide) (by decide) pattern few taken
    have positive : 0 < pattern.count '\\' := List.count_pos_iff.mpr escapes
    omega
  · rintro (free | slash) name segment
    · exact like_namePattern_eq_glob free name
    · constructor
      · intro accepted
        have all : pattern.count '/' ≤ name.count '/' :=
          count_le_of_like_namePattern (by decide) (by decide) pattern name accepted
        exact absurd (List.count_pos_iff.mp ((List.count_pos_iff.mpr slash).trans_le all)) segment.2
      · intro matched
        exact absurd (mem_of_glob (by decide) (by decide) (by decide) pattern name matched slash)
          segment.2

/-- The pattern `\*` matches the name `*` in the shell. -/
theorem nameMatches_not_glob :
    ¬ ∀ pattern name : Text, '[' ∉ pattern → ']' ∉ pattern → Segment '/' name →
      (nameMatches (some pattern) name = true ↔ glob pattern name = true) := by
  intro every
  have agree := every ['\\', '*'] ['*'] (by decide) (by decide) (by decide)
  have rejected : nameMatches (some ['\\', '*']) ['*'] = false := by decide
  rw [agree.mpr (by decide)] at rejected
  cases rejected

end PostgreOS
