/-
The lines of a text.

The lines are what lies between the terminators. A text in pieces, all but the last of which
end with a terminator, has the lines of the pieces.
-/

import PostgreOS.Library.LineBlocks

namespace Library.Lines

open Library.LineBlocks

variable {α : Type*} [DecidableEq α] {newline : α} {body line : List α}

omit [DecidableEq α] in
theorem infix_of_mem_intercalate {separator : List α} {lines : List (List α)} (member : line ∈ lines) :
    line <:+: separator.intercalate lines := by
  induction lines with
  | nil => exact absurd member List.not_mem_nil
  | cons first rest ih =>
      cases rest with
      | nil =>
          simp only [List.mem_singleton.mp member, List.intercalate_singleton, List.infix_refl]
      | cons second more =>
          rw [List.intercalate_cons_cons]
          rcases List.mem_cons.mp member with rfl | later
          · rw [List.append_assoc]
            exact List.infix_append_left
          · exact (ih later).trans List.infix_append_right

theorem infix_of_mem_splitOn (member : line ∈ body.splitOn newline) : line <:+: body := by
  have inside : line <:+: [newline].intercalate (body.splitOn newline) :=
    infix_of_mem_intercalate member
  rwa [List.intercalate_splitOn] at inside

theorem splitOn_of_terminated {lines : List (List α)} (closed : ∀ line ∈ lines, newline ∉ line) :
    (lines.flatMap fun line => line ++ [newline]).splitOn newline = lines ++ [[]] := by
  induction lines with
  | nil => exact List.splitOn_nil newline
  | cons line rest ih =>
      have here := closed line List.mem_cons_self
      have later := ih fun other member => closed other (List.mem_cons_of_mem line member)
      rw [List.flatMap_cons, List.append_assoc, List.singleton_append,
        List.splitOn_append_cons_self_of_not_mem here, later, List.cons_append]

/-- The lines of a text with their terminators; only the last one may lack it. -/
def linesOf (newline : α) : List α → List (List α)
  | [] => []
  | symbol :: rest =>
      if symbol = newline then [symbol] :: linesOf newline rest
      else
        match linesOf newline rest with
        | [] => [[symbol]]
        | line :: later => (symbol :: line) :: later

@[simp] theorem linesOf_nil : linesOf newline [] = [] := rfl

theorem linesOf_newline (rest : List α) :
    linesOf newline (newline :: rest) = [newline] :: linesOf newline rest := by
  rw [linesOf, if_pos rfl]

theorem linesOf_ne_nil (nonempty : body ≠ []) : linesOf newline body ≠ [] := by
  cases body with
  | nil => exact absurd rfl nonempty
  | cons symbol rest =>
      rw [linesOf]
      split
      · exact List.cons_ne_nil _ _
      · split
        · exact List.cons_ne_nil _ _
        · exact List.cons_ne_nil _ _

theorem linesOf_cons {symbol : α} (other : symbol ≠ newline) {later : List (List α)}
    (lines : linesOf newline body = line :: later) :
    linesOf newline (symbol :: body) = (symbol :: line) :: later := by
  rw [linesOf, if_neg other, lines]

theorem linesOf_append_free {front : List α} (free : newline ∉ front) (nonempty : front ≠ [])
    (body : List α) :
    linesOf newline (front ++ body) =
      match linesOf newline body with
      | [] => [front]
      | line :: later => (front ++ line) :: later := by
  induction front with
  | nil => exact absurd rfl nonempty
  | cons symbol rest ih =>
      obtain ⟨other, later⟩ := not_or.mp fun found => free (List.mem_cons.mpr found)
      rw [List.cons_append, linesOf, if_neg (Ne.symm other)]
      by_cases last : rest = []
      · rw [last, List.nil_append]
        rfl
      · rw [ih later last]
        cases linesOf newline body with
        | nil => rfl
        | cons line more => rfl

theorem linesOf_of_notMem (free : newline ∉ line) (nonempty : line ≠ []) :
    linesOf newline line = [line] := by
  have whole := linesOf_append_free free nonempty []
  rwa [List.append_nil] at whole

theorem linesOf_append_newline (front rest : List α) :
    linesOf newline (front ++ newline :: rest) =
      linesOf newline (front ++ [newline]) ++ linesOf newline rest := by
  induction front with
  | nil => rw [List.nil_append, List.nil_append, linesOf_newline, linesOf_newline]; rfl
  | cons symbol front ih =>
      rw [List.cons_append, List.cons_append]
      by_cases same : symbol = newline
      · rw [same, linesOf_newline, linesOf_newline, ih, List.cons_append]
      · have some : linesOf newline (front ++ [newline]) ≠ [] := linesOf_ne_nil (by simp)
        obtain ⟨line, later, lines⟩ := List.exists_cons_of_ne_nil some
        rw [lines, List.cons_append] at ih
        rw [linesOf_cons same lines, linesOf_cons same ih, List.cons_append]

theorem linesOf_append {front : List α} (ends : EndsLine newline front) (rest : List α) :
    linesOf newline (front ++ rest) = linesOf newline front ++ linesOf newline rest := by
  obtain ⟨before, rfl⟩ := ends
  rw [List.append_assoc, List.singleton_append, linesOf_append_newline]

theorem linesOf_append_cons (free : newline ∉ line) (rest : List α) :
    linesOf newline (line ++ newline :: rest) = (line ++ [newline]) :: linesOf newline rest := by
  rw [linesOf_append_newline]
  have single : linesOf newline (line ++ [newline]) = [line ++ [newline]] := by
    induction line with
    | nil => rw [List.nil_append, linesOf_newline, linesOf_nil]
    | cons symbol line ih =>
        obtain ⟨other, later⟩ := not_or.mp fun found => free (List.mem_cons.mpr found)
        exact linesOf_cons (Ne.symm other) (ih later)
  rw [single, List.singleton_append]

theorem flatten_linesOf (body : List α) : (linesOf newline body).flatten = body := by
  induction body with
  | nil => rfl
  | cons symbol rest ih =>
      by_cases same : symbol = newline
      · rw [same, linesOf_newline, List.flatten_cons, ih, List.singleton_append]
      · cases lines : linesOf newline rest with
        | nil =>
            rw [lines, List.flatten_nil] at ih
            rw [linesOf, if_neg same, lines, ← ih]
            rfl
        | cons line later =>
            rw [lines, List.flatten_cons] at ih
            rw [linesOf_cons same lines, List.flatten_cons, List.cons_append, ih]

theorem length_linesOf (ends : EndsLine newline body) :
    (linesOf newline body).length = body.count newline := by
  obtain ⟨front, rfl⟩ := ends
  induction front with
  | nil => rw [List.nil_append, linesOf_newline, linesOf_nil, List.count_singleton_self]; rfl
  | cons symbol front ih =>
      rw [List.cons_append, List.count_cons, ← ih]
      by_cases same : symbol = newline
      · rw [same, linesOf_newline, List.length_cons, if_pos (by simp)]
      · have some : linesOf newline (front ++ [newline]) ≠ [] := linesOf_ne_nil (by simp)
        obtain ⟨line, later, lines⟩ := List.exists_cons_of_ne_nil some
        rw [linesOf_cons same lines, lines, if_neg (by simpa using same)]
        rfl

def lineText (newline : α) (line : List α) : List α :=
  line.takeWhile (· ≠ newline)

theorem lineText_newline (rest : List α) : lineText newline (newline :: rest) = [] :=
  List.takeWhile_cons_of_neg (by simp)

theorem lineText_cons {symbol : α} (other : symbol ≠ newline) :
    lineText newline (symbol :: line) = symbol :: lineText newline line :=
  List.takeWhile_cons_of_pos (by simpa using other)

theorem lineText_closed : newline ∉ lineText newline line := by
  intro member
  have other := List.all_eq_true.mp (List.all_takeWhile (p := (· ≠ newline)) (l := line)) newline member
  simp at other

theorem line_of_mem_linesOf (member : line ∈ linesOf newline body) :
    line = lineText newline line ++ [newline] ∨ line = lineText newline line := by
  induction body generalizing line with
  | nil => exact absurd member List.not_mem_nil
  | cons symbol rest ih =>
      by_cases same : symbol = newline
      · rw [same, linesOf_newline] at member
        rcases List.mem_cons.mp member with rfl | later
        · left
          rw [lineText_newline, List.nil_append]
        · exact ih later
      · cases lines : linesOf newline rest with
        | nil =>
            rw [linesOf, if_neg same, lines, List.mem_singleton] at member
            subst member
            right
            rw [lineText_cons same]
            rfl
        | cons first later =>
            rw [linesOf_cons same lines] at member
            rcases List.mem_cons.mp member with rfl | inRest
            · rw [lineText_cons same, List.cons_append, List.cons.injEq, List.cons.injEq]
              rcases ih (lines ▸ List.mem_cons_self) with closed | open_
              · exact Or.inl ⟨rfl, closed⟩
              · exact Or.inr ⟨rfl, open_⟩
            · exact ih (lines ▸ List.mem_cons_of_mem first inRest)

theorem not_endsLine_of_bare (bare : line = lineText newline line) : ¬ EndsLine newline line := by
  rintro ⟨front, same⟩
  have closed : newline ∉ line := by
    rw [bare]
    exact lineText_closed
  exact closed (same ▸ List.mem_append_right front List.mem_cons_self)

theorem lineText_of_notMem (free : newline ∉ line) (rest : List α) :
    lineText newline (line ++ newline :: rest) = line := by
  induction line with
  | nil => exact lineText_newline rest
  | cons symbol line ih =>
      obtain ⟨other, later⟩ := not_or.mp fun found => free (List.mem_cons.mpr found)
      rw [List.cons_append, lineText_cons (Ne.symm other), ih later]

theorem lineText_of_bare (free : newline ∉ line) : lineText newline line = line := by
  induction line with
  | nil => rfl
  | cons symbol line ih =>
      obtain ⟨other, later⟩ := not_or.mp fun found => free (List.mem_cons.mpr found)
      rw [lineText_cons (Ne.symm other), ih later]

def lineTexts (newline : α) (body : List α) : List (List α) :=
  (linesOf newline body).map (lineText newline)

theorem lineTexts_append_cons (free : newline ∉ line) (rest : List α) :
    lineTexts newline (line ++ newline :: rest) = line :: lineTexts newline rest := by
  rw [lineTexts, linesOf_append_cons free, List.map_cons, lineText_of_notMem free]
  rfl

theorem lineTexts_append {front : List α} (ends : EndsLine newline front) (rest : List α) :
    lineTexts newline (front ++ rest) = lineTexts newline front ++ lineTexts newline rest := by
  rw [lineTexts, linesOf_append ends, List.map_append]
  rfl

theorem lineTexts_of_terminated {lines : List (List α)} (closed : ∀ line ∈ lines, newline ∉ line) :
    lineTexts newline (lines.flatMap fun line => line ++ [newline]) = lines := by
  induction lines with
  | nil => rfl
  | cons line rest ih =>
      obtain ⟨here, later⟩ := List.forall_mem_cons.mp closed
      rw [List.flatMap_cons, List.append_assoc, List.singleton_append, lineTexts_append_cons here,
        ih later]

theorem notMem_of_mem_lineTexts (member : line ∈ lineTexts newline body) : newline ∉ line := by
  obtain ⟨whole, -, rfl⟩ := List.mem_map.mp member
  exact lineText_closed

theorem splitOn_eq_lineTexts (body : List α) :
    body.splitOn newline = lineTexts newline body ∨
      body.splitOn newline = lineTexts newline body ++ [[]] := by
  induction size : body.length using Nat.strong_induction_on generalizing body with
  | _ size ih =>
      subst size
      by_cases present : newline ∈ body
      · obtain ⟨front, rest, rfl, free⟩ := List.eq_append_cons_of_mem present
        have shorter : rest.length < (front ++ newline :: rest).length := by
          rw [List.length_append, List.length_cons]
          omega
        rw [List.splitOn_append_cons_self_of_not_mem free, lineTexts_append_cons free]
        rcases ih rest.length shorter rest rfl with same | longer
        · exact Or.inl (by rw [same])
        · exact Or.inr (by rw [longer, List.cons_append])
      · by_cases empty : body = []
        · subst empty
          right
          rw [List.splitOn_nil]
          rfl
        · left
          rw [List.splitOn_eq_singleton present, lineTexts, linesOf_of_notMem present empty,
            List.map_singleton, lineText_of_bare present]

theorem filter_splitOn {wanted : List α → Bool} (nonempty : wanted [] = false) (body : List α) :
    (body.splitOn newline).filter wanted = (lineTexts newline body).filter wanted := by
  rcases @splitOn_eq_lineTexts _ _ newline body with same | longer
  · rw [same]
  · rw [longer, List.filter_append, List.filter_cons_of_neg (by simp [nonempty]), List.filter_nil,
      List.append_nil]

theorem filter_zipIdx_splitOn {wanted : List α → Bool} (nonempty : wanted [] = false)
    (body : List α) (first : Nat) :
    ((body.splitOn newline).zipIdx first).filter (fun line => wanted line.1) =
      ((lineTexts newline body).zipIdx first).filter fun line => wanted line.1 := by
  rcases @splitOn_eq_lineTexts _ _ newline body with same | longer
  · rw [same]
  · rw [longer, List.zipIdx_append, List.filter_append, List.zipIdx_singleton,
      List.filter_cons_of_neg (by simp [nonempty]), List.filter_nil, List.append_nil]

theorem infix_of_mem_lineTexts (member : line ∈ lineTexts newline body) : line <:+: body := by
  obtain ⟨whole, inLines, rfl⟩ := List.mem_map.mp member
  refine (List.takeWhile_prefix _).isInfix.trans ?_
  have inside := List.infix_of_mem_flatten inLines
  rwa [flatten_linesOf] at inside

theorem zipIdx_linesOf_append {front : List α} (ends : EndsLine newline front) (rest : List α)
    (first : Nat) :
    (linesOf newline (front ++ rest)).zipIdx first =
      (linesOf newline front).zipIdx first ++
        (linesOf newline rest).zipIdx (first + front.count newline) := by
  rw [linesOf_append ends, List.zipIdx_append, length_linesOf ends]

theorem mem_splitOn_text {size : List α → Nat} {ordinal offset first : Nat}
    {blocks : List (LineBlock α)} (chain : ChainFrom newline size ordinal offset first blocks)
    (nonempty : line ≠ []) (member : line ∈ (text blocks).splitOn newline) :
    ∃ block ∈ blocks, line ∈ block.body.splitOn newline := by
  induction blocks generalizing ordinal offset first with
  | nil =>
      rw [text, List.flatMap_nil, List.splitOn_nil, List.mem_singleton] at member
      exact absurd member nonempty
  | cons block rest ih =>
      obtain ⟨-, -, -, ends, later⟩ := chain
      rw [text_cons] at member
      by_cases last : rest = []
      · subst last
        rw [text, List.flatMap_nil, List.append_nil] at member
        exact ⟨block, List.mem_cons_self, member⟩
      · obtain ⟨front, body⟩ := ends last
        rw [body, List.append_assoc, List.singleton_append, List.splitOn_append_cons_self,
          List.mem_append] at member
        rcases member with here | inRest
        · refine ⟨block, List.mem_cons_self, ?_⟩
          rw [body, List.splitOn_append_cons_self]
          exact List.mem_append_left _ here
        · obtain ⟨found, foundMember, inside⟩ := ih later inRest
          exact ⟨found, List.mem_cons_of_mem block foundMember, inside⟩

end Library.Lines
