/-
Unix paths as sequences of components.

A path starts at the root, at `.` or at its first part; between slashes, empty parts and
parts that are `.` are passed over. A prefix is removed component by component, and what
follows it is the text of the remaining parts, without such parts at its ends.
-/

import Mathlib.Data.List.DropRight
import Mathlib.Data.List.Infix
import PostgreOS.Library.Segments

namespace Library.StdPath

inductive PathComponent where
  | rootDir
  | curDir
  | parentDir
  | normal (name : List Char)
  deriving DecidableEq, Repr

/-- A part between slashes. -/
def parseComponent (part : List Char) : Option PathComponent :=
  if part = [] ∨ part = ['.'] then none
  else if part = ['.', '.'] then some .parentDir
  else some (.normal part)

def blank (part : List Char) : Bool :=
  (parseComponent part).isNone

/-- The root or the leading `.` of a path, and the rest of its text. -/
def splitStart : List Char → Option PathComponent × List Char
  | '/' :: rest => (some .rootDir, rest)
  | ['.'] => (some .curDir, [])
  | '.' :: '/' :: rest => (some .curDir, '/' :: rest)
  | path => (none, path)

def startText : Option PathComponent → List Char
  | some .rootDir => ['/']
  | some .curDir => ['.']
  | _ => []

def bodyComponents (body : List Char) : List PathComponent :=
  (body.splitOn '/').filterMap parseComponent

/-- `Path::components`. -/
def components (path : List Char) : List PathComponent :=
  (splitStart path).1.toList ++ bodyComponents (splitStart path).2

/-- The parts that are left after those of some components. -/
def dropComponents : List PathComponent → List (List Char) → Option (List (List Char))
  | [], parts => some parts
  | _ :: _, [] => none
  | wanted :: rest, part :: parts =>
      match parseComponent part with
      | none => dropComponents (wanted :: rest) parts
      | some found => if found = wanted then dropComponents rest parts else none

def trimmed (parts : List (List Char)) : List Char :=
  ['/'].intercalate ((parts.dropWhile blank).rdropWhile blank)

/-- `Path::strip_prefix`; below the empty path nothing is cut off at the left. -/
def stripPrefix (path base : List Char) : Option (List Char) :=
  match components base, splitStart path with
  | [], (start, body) =>
      some (startText start ++ ['/'].intercalate ((body.splitOn '/').rdropWhile blank))
  | wanted :: rest, (some start, body) =>
      if start = wanted then (dropComponents rest (body.splitOn '/')).map trimmed else none
  | wanted, (none, body) => (dropComponents wanted (body.splitOn '/')).map trimmed

/-- `Path::starts_with`. -/
def startsWith (path base : List Char) : Bool :=
  (stripPrefix path base).isSome

theorem parseComponent_of_blank {part : List Char} (isBlank : blank part = true) :
    parseComponent part = none :=
  Option.isNone_iff_eq_none.mp isBlank

theorem filterMap_dropWhile_blank (parts : List (List Char)) :
    (parts.dropWhile blank).filterMap parseComponent = parts.filterMap parseComponent := by
  induction parts with
  | nil => rfl
  | cons part rest ih =>
      cases isBlank : blank part with
      | true =>
          rw [List.dropWhile_cons_of_pos isBlank, ih,
            List.filterMap_cons_none (parseComponent_of_blank isBlank)]
      | false => rw [List.dropWhile_cons_of_neg (by simp [isBlank])]

theorem filterMap_rdropWhile_blank (parts : List (List Char)) :
    (parts.rdropWhile blank).filterMap parseComponent = parts.filterMap parseComponent := by
  unfold List.rdropWhile
  rw [List.filterMap_reverse, filterMap_dropWhile_blank, List.filterMap_reverse, List.reverse_reverse]

theorem bodyComponents_intercalate {parts : List (List Char)} (free : ∀ part ∈ parts, '/' ∉ part) :
    bodyComponents (['/'].intercalate parts) = parts.filterMap parseComponent := by
  unfold bodyComponents
  by_cases empty : parts = []
  · subst empty
    rfl
  · rw [List.splitOn_intercalate '/' free empty]

theorem bodyComponents_cons_slash (body : List Char) :
    bodyComponents ('/' :: body) = bodyComponents body := by
  have split := List.splitOn_append_cons_self (a := '/') [] body
  rw [List.nil_append, List.splitOn_nil] at split
  unfold bodyComponents
  rw [split]
  rfl

/-! ### Removing a prefix -/

theorem dropComponents_eq_some {wanted : List PathComponent} {parts left : List (List Char)}
    (found : dropComponents wanted parts = some left) :
    left <:+ parts ∧ parts.filterMap parseComponent = wanted ++ left.filterMap parseComponent := by
  induction parts generalizing wanted with
  | nil =>
      cases wanted with
      | nil =>
          obtain rfl := Option.some.inj found
          exact ⟨List.suffix_refl [], rfl⟩
      | cons first rest => cases found
  | cons part parts ih =>
      cases wanted with
      | nil =>
          obtain rfl := Option.some.inj found
          exact ⟨List.suffix_refl _, rfl⟩
      | cons first rest =>
          unfold dropComponents at found
          cases parsed : parseComponent part with
          | none =>
              rw [parsed] at found
              obtain ⟨ends, same⟩ := ih found
              exact ⟨ends.trans (List.suffix_cons part parts),
                (List.filterMap_cons_none parsed).trans same⟩
          | some component =>
              rw [parsed] at found
              dsimp only at found
              split at found
              · rename_i equal
                obtain ⟨ends, same⟩ := ih found
                refine ⟨ends.trans (List.suffix_cons part parts), ?_⟩
                rw [List.filterMap_cons_some parsed, same, equal, List.cons_append]
              · cases found

theorem dropComponents_of_prefix {wanted : List PathComponent} {parts : List (List Char)}
    (begins : wanted <+: parts.filterMap parseComponent) :
    ∃ left, dropComponents wanted parts = some left := by
  induction parts generalizing wanted with
  | nil =>
      obtain rfl := List.prefix_nil.mp begins
      exact ⟨[], rfl⟩
  | cons part parts ih =>
      cases wanted with
      | nil => exact ⟨_, rfl⟩
      | cons first rest =>
          unfold dropComponents
          cases parsed : parseComponent part with
          | none =>
              rw [List.filterMap_cons_none parsed] at begins
              exact ih begins
          | some component =>
              rw [List.filterMap_cons_some parsed, List.cons_prefix_cons] at begins
              dsimp only
              rw [if_pos begins.1.symm]
              exact ih begins.2

theorem bodyComponents_trimmed {parts : List (List Char)} (free : ∀ part ∈ parts, '/' ∉ part) :
    bodyComponents (trimmed parts) = parts.filterMap parseComponent := by
  unfold trimmed
  rw [bodyComponents_intercalate, filterMap_rdropWhile_blank, filterMap_dropWhile_blank]
  intro part member
  have inMiddle := (List.rdropWhile_prefix blank _).subset member
  exact free part ((List.dropWhile_suffix blank).subset inMiddle)

theorem mem_of_mem_trimmed {symbol : Char} {parts : List (List Char)}
    (member : symbol ∈ trimmed parts) : symbol = '/' ∨ ∃ part ∈ parts, symbol ∈ part := by
  rcases Library.Segments.mem_of_mem_intercalate member with slash | ⟨part, inMiddle, inPart⟩
  · exact Or.inl (List.mem_singleton.mp slash)
  · exact Or.inr ⟨part, (List.dropWhile_suffix blank).subset
      ((List.rdropWhile_prefix blank _).subset inMiddle), inPart⟩

def PathComponent.isStart : PathComponent → Bool
  | .rootDir => true
  | .curDir => true
  | _ => false

theorem isStart_parseComponent {part : List Char} {component : PathComponent}
    (parsed : parseComponent part = some component) : component.isStart = false := by
  unfold parseComponent at parsed
  split at parsed
  · cases parsed
  · split at parsed
    · rw [← Option.some.inj parsed]
      rfl
    · rw [← Option.some.inj parsed]
      rfl

theorem filter_bodyComponents (body : List Char) :
    (bodyComponents body).filter (fun component => !component.isStart) = bodyComponents body := by
  rw [List.filter_eq_self]
  intro component member
  obtain ⟨part, -, parsed⟩ := List.mem_filterMap.mp member
  rw [isStart_parseComponent parsed]
  rfl

theorem isStart_splitStart {path : List Char} {start : PathComponent}
    (first : (splitStart path).1 = some start) : start.isStart = true := by
  unfold splitStart at first
  split at first
  · rw [← Option.some.inj first]
    rfl
  · rw [← Option.some.inj first]
    rfl
  · rw [← Option.some.inj first]
    rfl
  · cases first

theorem components_of_splitStart {path body : List Char} {start : Option PathComponent}
    (split : splitStart path = (start, body)) :
    components path = start.toList ++ bodyComponents body := by
  unfold components
  rw [split]

theorem components_cons_slash (body : List Char) :
    components ('/' :: body) = .rootDir :: bodyComponents body := rfl

theorem head_of_rootDir {path : List Char} {rest : List PathComponent}
    (starts : components path = .rootDir :: rest) : path.head? = some '/' := by
  have startsBody (body : List Char) : bodyComponents body ≠ .rootDir :: rest := by
    intro same
    obtain ⟨part, -, parsed⟩ := List.mem_filterMap.mp (same ▸ List.mem_cons_self)
    cases isStart_parseComponent parsed
  unfold components splitStart at starts
  split at starts
  · rfl
  · cases (List.cons.inj starts).1
  · cases (List.cons.inj starts).1
  · exact absurd starts (startsBody _)

theorem startText_append (path : List Char) :
    startText (splitStart path).1 ++ (splitStart path).2 = path := by
  unfold splitStart
  split <;> rfl

theorem mem_of_mem_part {symbol : Char} {body part : List Char} (member : part ∈ body.splitOn '/')
    (inPart : symbol ∈ part) : symbol ∈ body := by
  have inText : symbol ∈ ['/'].intercalate (body.splitOn '/') :=
    Library.Segments.mem_intercalate member inPart
  rwa [List.intercalate_splitOn] at inText

/-- What follows a prefix has the components that follow those of the prefix. -/
structure Stripped (path base relative : List Char) : Prop where
  left : ∃ rest, components path = components base ++ rest ∧
    bodyComponents relative = rest.filter fun component => !component.isStart
  symbols : ∀ symbol ∈ relative, symbol = '/' ∨ symbol ∈ path

theorem stripped_of_dropped {path base body : List Char} {start : Option PathComponent}
    {wanted : List PathComponent} {left : List (List Char)} (split : splitStart path = (start, body))
    (here : components base = start.toList ++ wanted)
    (dropped : dropComponents wanted (body.splitOn '/') = some left) :
    Stripped path base (trimmed left) := by
  obtain ⟨ends, same⟩ := dropComponents_eq_some dropped
  have free : ∀ part ∈ left, '/' ∉ part := fun part member =>
    Library.Segments.notMem_of_mem_splitOn '/' body part (ends.subset member)
  have text := startText_append path
  rw [split] at text
  constructor
  · refine ⟨left.filterMap parseComponent, ?_, ?_⟩
    · rw [components_of_splitStart split, bodyComponents, same, ← List.append_assoc, ← here]
    · rw [bodyComponents_trimmed free, ← bodyComponents_intercalate free, filter_bodyComponents]
  · intro symbol member
    rcases mem_of_mem_trimmed member with slash | ⟨part, inLeft, inPart⟩
    · exact Or.inl slash
    · rw [← text]
      exact Or.inr (List.mem_append_right _ (mem_of_mem_part (ends.subset inLeft) inPart))

theorem bodyComponents_dot {text body : List Char} (start : text <+: body)
    (slash : body = [] ∨ ∃ rest, body = '/' :: rest) :
    bodyComponents ('.' :: text) = bodyComponents text := by
  cases text with
  | nil => decide
  | cons symbol rest =>
      rcases slash with rfl | ⟨more, rfl⟩
      · exact absurd (List.prefix_nil.mp start) (List.cons_ne_nil symbol rest)
      · obtain ⟨rfl, -⟩ := List.cons_prefix_cons.mp start
        have free : '/' ∉ ['.'] := by decide
        have split := List.splitOn_append_cons_self_of_not_mem free rest
        rw [bodyComponents_cons_slash]
        unfold bodyComponents
        rw [← List.singleton_append, split]
        rfl

/-- The text after a start is empty or begins with a slash, unless it is the whole path. -/
theorem splitStart_cases {path body : List Char} {start : Option PathComponent}
    (split : splitStart path = (start, body)) :
    start = none ∨ start = some .rootDir ∨
      start = some .curDir ∧ (body = [] ∨ ∃ rest, body = '/' :: rest) := by
  unfold splitStart at split
  split at split
  · exact Or.inr (Or.inl (Prod.mk.inj split).1.symm)
  · obtain ⟨rfl, rfl⟩ := Prod.mk.inj split
    exact Or.inr (Or.inr ⟨rfl, Or.inl rfl⟩)
  · obtain ⟨rfl, rfl⟩ := Prod.mk.inj split
    exact Or.inr (Or.inr ⟨rfl, Or.inr ⟨_, rfl⟩⟩)
  · exact Or.inl (Prod.mk.inj split).1.symm

/-- Below the empty path the text keeps its start. -/
theorem stripped_of_empty {path base body : List Char} {start : Option PathComponent}
    (split : splitStart path = (start, body)) (here : components base = []) :
    Stripped path base
      (startText start ++ ['/'].intercalate ((body.splitOn '/').rdropWhile blank)) := by
  have kept := List.rdropWhile_prefix blank (body.splitOn '/')
  have text := startText_append path
  rw [split] at text
  have begins : ['/'].intercalate ((body.splitOn '/').rdropWhile blank) <+: body := by
    have inText := Library.Segments.intercalate_prefix ['/'] kept
    rwa [List.intercalate_splitOn] at inText
  have same : bodyComponents (['/'].intercalate ((body.splitOn '/').rdropWhile blank)) =
      bodyComponents body := by
    rw [bodyComponents_intercalate, filterMap_rdropWhile_blank]
    · rfl
    · exact fun part member =>
        Library.Segments.notMem_of_mem_splitOn '/' body part (kept.subset member)
  constructor
  · refine ⟨components path, by rw [here, List.nil_append], ?_⟩
    have started : start.toList.filter (fun component => !component.isStart) = [] := by
      cases start with
      | none => rfl
      | some component =>
          have isStart := isStart_splitStart (congrArg Prod.fst split)
          simp [isStart]
    rw [components_of_splitStart split, List.filter_append, started, List.nil_append,
      filter_bodyComponents, ← same]
    rcases splitStart_cases split with rfl | rfl | ⟨rfl, slash⟩
    · rfl
    · exact bodyComponents_cons_slash _
    · exact bodyComponents_dot begins slash
  · intro symbol member
    rw [← text]
    exact Or.inr ((List.prefix_append_right_inj _).mpr begins |>.subset member)

theorem stripped_of_stripPrefix {path base relative : List Char}
    (found : stripPrefix path base = some relative) : Stripped path base relative := by
  unfold stripPrefix at found
  split at found
  · rename_i here split
    rw [← Option.some.inj found]
    exact stripped_of_empty split here
  · rename_i wanted rest start body here split
    split at found
    · rename_i same
      obtain ⟨left, dropped, rfl⟩ := Option.map_eq_some_iff.mp found
      exact stripped_of_dropped split (by rw [here, same]; rfl) dropped
    · cases found
  · rename_i split _
    obtain ⟨left, dropped, rfl⟩ := Option.map_eq_some_iff.mp found
    exact stripped_of_dropped split rfl dropped

theorem startsWith_iff (path base : List Char) :
    startsWith path base = true ↔ components base <+: components path := by
  constructor
  · intro starts
    obtain ⟨relative, found⟩ := Option.isSome_iff_exists.mp starts
    obtain ⟨⟨rest, same, -⟩, -⟩ := stripped_of_stripPrefix found
    exact ⟨rest, same.symm⟩
  · intro begins
    unfold startsWith stripPrefix
    split
    · rfl
    · rename_i wanted rest start body here split
      rw [here, components_of_splitStart split, Option.toList_some, List.singleton_append,
        List.cons_prefix_cons] at begins
      obtain ⟨left, dropped⟩ := dropComponents_of_prefix begins.2
      rw [if_pos begins.1.symm, dropped]
      rfl
    · rename_i split _
      rw [components_of_splitStart split] at begins
      obtain ⟨left, dropped⟩ := dropComponents_of_prefix begins
      rw [dropped]
      rfl

end Library.StdPath
