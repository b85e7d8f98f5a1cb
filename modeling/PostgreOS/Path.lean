/-
Canonical paths and the path functions of the schema.

A canonical path is `/` or a sequence of components, each preceded by a slash.
Zones store absolute paths and entries store paths relative to their zone. The
functions below are the SQL functions on text; the theorems give their meaning
on lists of components, where being an ancestor is being a list prefix.
-/

import PostgreOS.Library.Outcome
import PostgreOS.Library.Segments
import PostgreOS.Text

namespace PostgreOS

open Library.Outcome Library.Segments

/-- The regular expression `^[^/]+(/[^/]+)*$`. -/
def matchesRelative (input : Text) : Bool :=
  (input.splitOn '/').all fun part => !part.isEmpty

/-- The regular expression `(^|/)\.\.?(/|$)`. -/
def hasDotPart (input : Text) : Bool :=
  (input.splitOn '/').any fun part => part == ['.'] || part == ['.', '.']

/-- The paths that `pgos_private.assert_path` lets through. -/
def acceptedPath (input : Text) : Bool :=
  input == ['/'] ||
    (match input with
      | '/' :: rest => matchesRelative rest
      | _ => false) && !hasDotPart input

/-- `pgos_private.assert_path`. -/
def assertPath (input : Text) : Result Text :=
  if acceptedPath input then .ok input
  else raise "22023" "invalid normalized path: %" [input]

/-- `pgos_private.absolute_path`. -/
def absolutePath (zonePath relativePath : Text) : Text :=
  if relativePath = [] then zonePath
  else if zonePath = ['/'] then '/' :: relativePath
  else zonePath ++ '/' :: relativePath

/-- `pgos_private.ancestor_paths`, shortest first. -/
def ancestorPaths (input : Text) : List Text :=
  let value := (trimLeading '/' input).splitOn '/'
  let deepest := if input = ['/'] then 0 else value.length
  (List.range (deepest + 1)).map fun depth =>
    if depth = 0 then ['/'] else '/' :: ['/'].intercalate (value.take depth)

/-- `pgos_private.name_of`. -/
def nameOf (input : Text) : Text :=
  if input = ['/'] then [] else right input ((strpos input.reverse '/' : Int) - 1)

/-- `pgos_private.parent_of`; the root has no parent. -/
def parentOf (input : Text) : Option Text :=
  if input = ['/'] then none
  else if strpos (substr input 2) '/' = 0 then some ['/']
  else some (left input ((input.length : Int) - strpos input.reverse '/'))

/-- `pgos_private.relative_name`. -/
def relativeName (input : Text) : Text :=
  right input ((strpos ('/' :: input).reverse '/' : Int) - 1)

/-- `pgos_private.relative_parent`. -/
def relativeParent (input : Text) : Text :=
  if strpos input '/' = 0 then []
  else left input ((input.length : Int) - strpos input.reverse '/')

/-- The relative path of a child: `CASE WHEN parent = '' THEN name ELSE parent || '/' || name END`. -/
def childRelative (parent name : Text) : Text :=
  if parent = [] then name else parent ++ '/' :: name

/-- `path` begins with `root || '/'`. -/
def Below (root path : Text) : Prop :=
  root ++ ['/'] <+: path

instance (root path : Text) : Decidable (Below root path) :=
  inferInstanceAs (Decidable (_ <+: _))

/-- `path` is `root` or lies below it. -/
def AtOrBelow (root path : Text) : Prop :=
  path = root ∨ Below root path

instance (root path : Text) : Decidable (AtOrBelow root path) :=
  inferInstanceAs (Decidable (_ ∨ _))

theorem atOrBelow_iff {root path : Text} :
    AtOrBelow root path ↔ root ++ ['/'] <+: path ++ ['/'] := by
  unfold AtOrBelow Below
  rw [List.prefix_concat_iff]
  constructor
  · rintro (rfl | below)
    · exact Or.inl rfl
    · exact Or.inr below
  · rintro (same | below)
    · exact Or.inl (List.append_cancel_right same).symm
    · exact Or.inr below

theorem not_below_self (path : Text) : ¬ Below path path := by
  intro below
  have longer := below.length_le
  rw [List.length_append, List.length_singleton] at longer
  omega

theorem AtOrBelow.comparable {first second path : Text} (hFirst : AtOrBelow first path)
    (hSecond : AtOrBelow second path) : AtOrBelow first second ∨ AtOrBelow second first := by
  rw [atOrBelow_iff] at hFirst hSecond
  rw [atOrBelow_iff, atOrBelow_iff]
  exact List.prefix_or_prefix_of_prefix hFirst hSecond

theorem atOrBelow_append_iff {root suffix : Text} :
    AtOrBelow root (root ++ suffix) ↔ suffix = [] ∨ ['/'] <+: suffix := by
  unfold AtOrBelow Below
  rw [List.append_right_eq_self, List.prefix_append_right_inj]

theorem AtOrBelow.suffix {root path : Text} (below : AtOrBelow root path) :
    ∃ suffix, (suffix = [] ∨ ['/'] <+: suffix) ∧ path = root ++ suffix := by
  rcases below with here | ⟨rest, whole⟩
  · exact ⟨[], Or.inl rfl, by rw [List.append_nil, here]⟩
  · exact ⟨'/' :: rest, Or.inr ⟨rest, rfl⟩, by rw [← whole, List.append_assoc]; rfl⟩

theorem absolutePath_append {zonePath relative : Text} (nonempty : relative ≠ []) (suffix : Text) :
    absolutePath zonePath (relative ++ suffix) = absolutePath zonePath relative ++ suffix := by
  unfold absolutePath
  rw [if_neg (by simp [nonempty]), if_neg nonempty]
  split
  · rfl
  · rw [List.append_assoc]
    rfl

/-! ### Components -/

def Component (name : Text) : Prop :=
  Segment '/' name ∧ name ≠ ['.'] ∧ name ≠ ['.', '.']

instance (name : Text) : Decidable (Component name) :=
  inferInstanceAs (Decidable (_ ∧ _))

def Components (names : List Text) : Prop :=
  ∀ name ∈ names, Component name

instance (names : List Text) : Decidable (Components names) :=
  inferInstanceAs (Decidable (∀ name ∈ names, Component name))

def pathText (names : List Text) : Text :=
  if names = [] then ['/'] else render '/' names

def relativeText (names : List Text) : Text :=
  (render '/' names).drop 1

def CanonicalPath (path : Text) : Prop :=
  acceptedPath path = true

instance (path : Text) : Decidable (CanonicalPath path) :=
  inferInstanceAs (Decidable (_ = true))

def CanonicalRelative (path : Text) : Prop :=
  matchesRelative path = true ∧ hasDotPart path = false

instance (path : Text) : Decidable (CanonicalRelative path) :=
  inferInstanceAs (Decidable (_ ∧ _))

theorem Components.segments {names : List Text} (valid : Components names) :
    AllSegments '/' names :=
  fun name member => (valid name member).1

theorem Components.append {left right : List Text} (hLeft : Components left)
    (hRight : Components right) : Components (left ++ right) := by
  intro name member
  rcases List.mem_append.mp member with found | found
  · exact hLeft name found
  · exact hRight name found

theorem Components.of_prefix {left whole : List Text} (valid : Components whole)
    (isPrefix : left <+: whole) : Components left :=
  fun name member => valid name (isPrefix.subset member)

theorem Components.left {left right : List Text} (valid : Components (left ++ right)) :
    Components left :=
  fun name member => valid name (List.mem_append_left right member)

theorem Components.right {left right : List Text} (valid : Components (left ++ right)) :
    Components right :=
  fun name member => valid name (List.mem_append_right left member)

theorem components_nil : Components [] := by
  intro name member
  cases member

theorem components_singleton {name : Text} (valid : Component name) : Components [name] := by
  intro other member
  rw [List.mem_singleton.mp member]
  exact valid

@[simp] theorem pathText_nil : pathText [] = ['/'] := rfl

theorem pathText_of_ne_nil {names : List Text} (nonempty : names ≠ []) :
    pathText names = render '/' names :=
  if_neg nonempty

@[simp] theorem relativeText_nil : relativeText [] = [] := rfl

theorem render_eq_cons_relativeText {names : List Text} (nonempty : names ≠ []) :
    render '/' names = '/' :: relativeText names := by
  cases names with
  | nil => exact absurd rfl nonempty
  | cons name rest => simp [relativeText]

theorem slash_mem_pathText (names : List Text) : '/' ∈ pathText names := by
  by_cases empty : names = []
  · rw [empty, pathText_nil]
    exact List.mem_cons_self
  · rw [pathText_of_ne_nil empty, render_eq_cons_relativeText empty]
    exact List.mem_cons_self

theorem relativeText_eq_intercalate (names : List Text) :
    relativeText names = ['/'].intercalate names := by
  by_cases empty : names = []
  · subst names
    rfl
  · rw [relativeText, render_eq_cons_intercalate '/' empty]
    rfl

theorem relativeText_ne_nil {names : List Text} (valid : Components names)
    (nonempty : names ≠ []) : relativeText names ≠ [] := by
  cases names with
  | nil => exact absurd rfl nonempty
  | cons name rest =>
      have first := (valid name List.mem_cons_self).1.1
      simp [relativeText, first]

theorem relativeText_eq_nil_iff {names : List Text} (valid : Components names) :
    relativeText names = [] ↔ names = [] := by
  constructor
  · intro empty
    by_contra nonempty
    exact relativeText_ne_nil valid nonempty empty
  · rintro rfl
    rfl

theorem pathText_ne_root {names : List Text} (valid : Components names) (nonempty : names ≠ []) :
    pathText names ≠ ['/'] := by
  rw [pathText_of_ne_nil nonempty, render_eq_cons_relativeText nonempty]
  intro same
  exact relativeText_ne_nil valid nonempty (List.cons.inj same).2

theorem pathText_eq_root_iff {names : List Text} (valid : Components names) :
    pathText names = ['/'] ↔ names = [] := by
  constructor
  · intro same
    by_contra nonempty
    exact pathText_ne_root valid nonempty same
  · rintro rfl
    rfl

theorem pathText_injective {left right : List Text} (hLeft : Components left)
    (hRight : Components right) (same : pathText left = pathText right) : left = right := by
  by_cases leftEmpty : left = []
  · subst leftEmpty
    exact ((pathText_eq_root_iff hRight).mp same.symm).symm
  · by_cases rightEmpty : right = []
    · subst rightEmpty
      exact (pathText_eq_root_iff hLeft).mp same
    · rw [pathText_of_ne_nil leftEmpty, pathText_of_ne_nil rightEmpty] at same
      exact render_injective '/' hLeft.segments hRight.segments same

theorem relativeText_injective {left right : List Text} (hLeft : Components left)
    (hRight : Components right) (same : relativeText left = relativeText right) :
    left = right := by
  by_cases leftEmpty : left = []
  · subst leftEmpty
    exact ((relativeText_eq_nil_iff hRight).mp same.symm).symm
  · by_cases rightEmpty : right = []
    · subst rightEmpty
      exact (relativeText_eq_nil_iff hLeft).mp same
    · apply render_injective '/' hLeft.segments hRight.segments
      rw [render_eq_cons_relativeText leftEmpty, render_eq_cons_relativeText rightEmpty, same]

theorem splitOn_relativeText {names : List Text} (valid : Components names)
    (nonempty : names ≠ []) : (relativeText names).splitOn '/' = names := by
  rw [relativeText_eq_intercalate]
  exact List.splitOn_intercalate '/' (fun name member => (valid name member).1.2) nonempty

theorem splitOn_cons_slash (rest : Text) : ('/' :: rest).splitOn '/' = [] :: rest.splitOn '/' := by
  have split := List.splitOn_append_cons_self (a := '/') [] rest
  rwa [List.nil_append, List.splitOn_nil] at split

theorem canonicalRelative_iff (path : Text) :
    CanonicalRelative path ↔ ∃ names, Components names ∧ names ≠ [] ∧ path = relativeText names := by
  constructor
  · rintro ⟨parts, noDots⟩
    refine ⟨path.splitOn '/', ?_, List.splitOn_ne_nil '/' path, ?_⟩
    · intro part member
      simp only [matchesRelative, List.all_eq_true, Bool.not_eq_eq_eq_not, Bool.not_true,
        List.isEmpty_eq_false_iff] at parts
      simp only [hasDotPart, List.any_eq_false, Bool.or_eq_true, beq_iff_eq, not_or] at noDots
      exact ⟨⟨parts part member, notMem_of_mem_splitOn '/' path part member⟩, noDots part member⟩
    · rw [relativeText_eq_intercalate, List.intercalate_splitOn]
  · rintro ⟨names, valid, nonempty, rfl⟩
    unfold CanonicalRelative matchesRelative hasDotPart
    rw [splitOn_relativeText valid nonempty]
    constructor
    · simp only [List.all_eq_true, Bool.not_eq_eq_eq_not, Bool.not_true,
        List.isEmpty_eq_false_iff]
      exact fun name member => (valid name member).1.1
    · simp only [List.any_eq_false, Bool.or_eq_true, beq_iff_eq, not_or]
      exact fun name member => (valid name member).2

theorem canonicalPath_iff (path : Text) :
    CanonicalPath path ↔ ∃ names, Components names ∧ path = pathText names := by
  unfold CanonicalPath acceptedPath
  constructor
  · intro accepted
    by_cases root : path = ['/']
    · exact ⟨[], components_nil, root⟩
    · cases path with
      | nil => simp at accepted
      | cons symbol rest =>
          by_cases slash : symbol = '/'
          · subst slash
            have relative : CanonicalRelative rest := by
              simp only [beq_iff_eq, root, Bool.or_eq_true, Bool.and_eq_true, false_or,
                Bool.not_eq_eq_eq_not, Bool.not_true] at accepted
              refine ⟨accepted.1, ?_⟩
              have dots := accepted.2
              unfold hasDotPart at dots ⊢
              rw [splitOn_cons_slash] at dots
              simpa using dots
            obtain ⟨names, valid, nonempty, rfl⟩ := (canonicalRelative_iff rest).mp relative
            refine ⟨names, valid, ?_⟩
            rw [pathText_of_ne_nil nonempty, render_eq_cons_relativeText nonempty]
          · exfalso
            simp only [beq_iff_eq, root, Bool.or_eq_true, Bool.and_eq_true, false_or] at accepted
            have notSlash := accepted.1
            split at notSlash
            · rename_i found
              exact slash (List.cons.inj found).1
            · cases notSlash
  · rintro ⟨names, valid, rfl⟩
    by_cases empty : names = []
    · subst empty
      rfl
    · have relative := (canonicalRelative_iff (relativeText names)).mpr ⟨names, valid, empty, rfl⟩
      rw [pathText_of_ne_nil empty, render_eq_cons_relativeText empty]
      simp only [Bool.or_eq_true, Bool.and_eq_true, Bool.not_eq_eq_eq_not, Bool.not_true]
      right
      refine ⟨relative.1, ?_⟩
      have dots := relative.2
      unfold hasDotPart at dots ⊢
      rw [splitOn_cons_slash]
      simpa using dots

theorem canonicalPath_pathText {names : List Text} (valid : Components names) :
    CanonicalPath (pathText names) :=
  (canonicalPath_iff _).mpr ⟨names, valid, rfl⟩

theorem canonicalRelative_relativeText {names : List Text} (valid : Components names)
    (nonempty : names ≠ []) : CanonicalRelative (relativeText names) :=
  (canonicalRelative_iff _).mpr ⟨names, valid, nonempty, rfl⟩

@[simp] theorem assertPath_of_canonical {path : Text} (canonical : CanonicalPath path) :
    assertPath path = .ok path :=
  if_pos canonical

theorem assertPath_eq_ok {path clean : Text} (accepted : assertPath path = .ok clean) :
    clean = path ∧ CanonicalPath path := by
  unfold assertPath at accepted
  split at accepted
  · rename_i canonical
    exact ⟨(Except.ok.inj accepted).symm, canonical⟩
  · cases accepted

theorem mapM_assertPath_eq_ok {paths cleanPaths : List Text} :
    paths.mapM assertPath = .ok cleanPaths ↔
      cleanPaths = paths ∧ ∀ path ∈ paths, CanonicalPath path := by
  rw [mapM_eq_ok]
  constructor
  · intro each
    induction each with
    | nil => exact ⟨rfl, fun path member => absurd member List.not_mem_nil⟩
    | cons accepted _ ih =>
        obtain ⟨rfl, canonical⟩ := assertPath_eq_ok accepted
        obtain ⟨rfl, others⟩ := ih
        exact ⟨rfl, List.forall_mem_cons.mpr ⟨canonical, others⟩⟩
  · rintro ⟨rfl, canonical⟩
    induction cleanPaths with
    | nil => exact .nil
    | cons path rest ih =>
        obtain ⟨accepted, others⟩ := List.forall_mem_cons.mp canonical
        exact .cons (assertPath_of_canonical accepted) (ih others)

/-! ### The SQL functions on component lists -/

theorem absolutePath_texts {zone relative : List Text} (hZone : Components zone)
    (hRelative : Components relative) :
    absolutePath (pathText zone) (relativeText relative) = pathText (zone ++ relative) := by
  unfold absolutePath
  by_cases empty : relative = []
  · subst empty
    simp
  · rw [if_neg (relativeText_ne_nil hRelative empty)]
    have whole : zone ++ relative ≠ [] := by simp [empty]
    rw [pathText_of_ne_nil whole, render_append, render_eq_cons_relativeText empty]
    by_cases root : zone = []
    · subst root
      rfl
    · rw [if_neg (pathText_ne_root hZone root), pathText_of_ne_nil root]

@[simp] theorem relativeText_singleton (name : Text) : relativeText [name] = name := by
  simp [relativeText]

theorem absolutePath_name {names : List Text} {name : Text} (valid : Components names)
    (named : Component name) :
    absolutePath (pathText names) name = pathText (names ++ [name]) := by
  have joined := absolutePath_texts valid (components_singleton named)
  rwa [relativeText_singleton] at joined

theorem childRelative_texts {parent : List Text} {name : Text} (hParent : Components parent) :
    childRelative (relativeText parent) name = relativeText (parent ++ [name]) := by
  unfold childRelative
  by_cases empty : parent = []
  · subst empty
    simp [relativeText]
  · rw [if_neg (relativeText_ne_nil hParent empty)]
    have whole := render_eq_cons_relativeText empty
    unfold relativeText
    rw [render_append, whole]
    simp [relativeText]

theorem strpos_eq_zero_iff (text : Text) (symbol : Char) :
    strpos text symbol = 0 ↔ symbol ∉ text := by
  unfold strpos
  split <;> simp_all

private theorem strpos_reverse {front name : Text} (free : '/' ∉ name) :
    strpos (front ++ '/' :: name).reverse '/' = name.length + 1 := by
  have shape : (front ++ '/' :: name).reverse = name.reverse ++ '/' :: front.reverse := by simp
  rw [shape]
  unfold strpos
  rw [if_pos (by simp), List.idxOf_append_of_notMem (by simpa using free)]
  simp

private theorem right_of_length (front name : Text) :
    right (front ++ name) (name.length : Int) = name := by
  unfold right
  rw [if_pos (by omega)]
  simp

private theorem left_of_length (front rest : Text) :
    left (front ++ rest) (((front ++ rest).length : Int) - (rest.length : Int)) = front := by
  unfold left
  rw [if_pos (by simp)]
  have count : (((front ++ rest).length : Int) - (rest.length : Int)).toNat = front.length := by
    simp
  rw [count]
  simp

theorem nameOf_pathText {front : List Text} {name : Text} (valid : Components (front ++ [name])) :
    nameOf (pathText (front ++ [name])) = name := by
  have free : '/' ∉ name := (valid name (by simp)).1.2
  unfold nameOf
  rw [if_neg (pathText_ne_root valid (by simp)), pathText_of_ne_nil (by simp), render_append,
    render_cons, render_nil, List.append_nil, strpos_reverse free]
  have count : ((name.length + 1 : Nat) : Int) - 1 = (name.length : Int) := by omega
  rw [count]
  have split : render '/' front ++ '/' :: name = (render '/' front ++ ['/']) ++ name := by simp
  rw [split, right_of_length]

theorem parentOf_pathText {front : List Text} {name : Text} (valid : Components (front ++ [name])) :
    parentOf (pathText (front ++ [name])) = some (pathText front) := by
  have free : '/' ∉ name := (valid name (by simp)).1.2
  unfold parentOf
  rw [if_neg (pathText_ne_root valid (by simp)), pathText_of_ne_nil (by simp), render_append,
    render_cons, render_nil, List.append_nil, strpos_reverse free]
  by_cases root : front = []
  · subst root
    rw [if_pos]
    · rfl
    · rw [strpos_eq_zero_iff]
      simpa [substr] using free
  · rw [if_neg]
    · rw [pathText_of_ne_nil root]
      have count : ((name.length + 1 : Nat) : Int) = ((('/' :: name : Text)).length : Int) := by simp
      rw [count, left_of_length]
    · rw [render_eq_cons_relativeText root, strpos_eq_zero_iff]
      simp [substr]

theorem canonicalPath_of_parentOf {path parent : Text} (canonical : CanonicalPath path)
    (above : parentOf path = some parent) : CanonicalPath parent := by
  obtain ⟨names, valid, rfl⟩ := (canonicalPath_iff path).mp canonical
  rcases List.eq_nil_or_concat' names with rfl | ⟨front, name, rfl⟩
  · cases above
  · rw [parentOf_pathText valid] at above
    obtain rfl := Option.some.inj above
    exact canonicalPath_pathText valid.left

theorem parentOf_root_child {name : Text} (named : name ≠ []) (free : '/' ∉ name) :
    parentOf ('/' :: name) = some ['/'] := by
  have notRoot : '/' :: name ≠ ['/'] := by simpa using named
  have plain : strpos (substr ('/' :: name) 2) '/' = 0 := by
    rw [strpos_eq_zero_iff]
    simpa [substr] using free
  unfold parentOf
  rw [if_neg notRoot, if_pos plain]

theorem parentOf_child {front name : Text} (nonempty : front ≠ []) (free : '/' ∉ name) :
    parentOf (front ++ '/' :: name) = some front := by
  have deep : strpos (substr (front ++ '/' :: name) 2) '/' ≠ 0 := by
    rw [Ne, strpos_eq_zero_iff, not_not]
    cases front with
    | nil => exact absurd rfl nonempty
    | cons symbol rest => simp [substr]
  have notRoot : front ++ '/' :: name ≠ ['/'] := by
    intro same
    rw [same] at deep
    exact deep rfl
  have count : ((name.length + 1 : Nat) : Int) = ((('/' :: name : Text)).length : Int) := by simp
  unfold parentOf
  rw [if_neg notRoot, if_neg deep, strpos_reverse free, count, left_of_length]

theorem relativeName_relativeText {front : List Text} {name : Text}
    (valid : Components (front ++ [name])) :
    relativeName (relativeText (front ++ [name])) = name := by
  have free : '/' ∉ name := (valid name (by simp)).1.2
  unfold relativeName
  rw [← render_eq_cons_relativeText (by simp), render_append, render_cons, render_nil,
    List.append_nil, strpos_reverse free]
  have count : ((name.length + 1 : Nat) : Int) - 1 = (name.length : Int) := by omega
  rw [count]
  by_cases root : front = []
  · subst root
    simp only [List.nil_append, relativeText, render_cons, render_nil, List.append_nil,
      List.drop_succ_cons, List.drop_zero]
    exact right_of_length [] name
  · have split : relativeText (front ++ [name]) = (relativeText front ++ ['/']) ++ name := by
      unfold relativeText
      rw [render_append, render_eq_cons_relativeText root]
      simp [relativeText]
    rw [split, right_of_length]

theorem relativeParent_relativeText {front : List Text} {name : Text}
    (valid : Components (front ++ [name])) :
    relativeParent (relativeText (front ++ [name])) = relativeText front := by
  have free : '/' ∉ name := (valid name (by simp)).1.2
  unfold relativeParent
  by_cases root : front = []
  · subst root
    rw [if_pos]
    · rfl
    · rw [strpos_eq_zero_iff]
      simpa [relativeText] using free
  · have split : relativeText (front ++ [name]) = relativeText front ++ '/' :: name := by
      unfold relativeText
      rw [render_append, render_eq_cons_relativeText root]
      simp [relativeText]
    rw [split, if_neg (by simp [strpos_eq_zero_iff]), strpos_reverse free]
    have count : ((name.length + 1 : Nat) : Int) = ((('/' :: name : Text)).length : Int) := by simp
    rw [count, left_of_length]

theorem trimLeading_pathText {names : List Text} (valid : Components names) :
    trimLeading '/' (pathText names) = relativeText names := by
  cases names with
  | nil => rfl
  | cons name rest =>
      rw [pathText_of_ne_nil (List.cons_ne_nil name rest),
        render_eq_cons_relativeText (List.cons_ne_nil name rest)]
      obtain ⟨⟨nonempty, free⟩, -⟩ := valid name List.mem_cons_self
      cases name with
      | nil => exact absurd rfl nonempty
      | cons symbol more =>
          have other : symbol ≠ '/' := fun same => free (by simp [same])
          simp [trimLeading, relativeText, other]

theorem ancestorPaths_pathText {names : List Text} (valid : Components names) :
    ancestorPaths (pathText names) =
      (List.range (names.length + 1)).map fun depth => pathText (names.take depth) := by
  unfold ancestorPaths
  dsimp only
  rw [trimLeading_pathText valid]
  by_cases empty : names = []
  · subst empty
    rfl
  · rw [if_neg (pathText_ne_root valid empty), splitOn_relativeText valid empty]
    apply List.map_congr_left
    intro depth _
    cases depth with
    | zero => rfl
    | succ depth =>
        have nonempty : names.take (depth + 1) ≠ [] := by simp [empty]
        rw [if_neg (Nat.succ_ne_zero depth), pathText_of_ne_nil nonempty,
          render_eq_cons_intercalate '/' nonempty]

theorem mem_ancestorPaths_iff {names : List Text} (valid : Components names) (path : Text) :
    path ∈ ancestorPaths (pathText names) ↔ ∃ front, front <+: names ∧ path = pathText front := by
  rw [ancestorPaths_pathText valid]
  simp only [List.mem_map, List.mem_range]
  constructor
  · rintro ⟨depth, -, rfl⟩
    exact ⟨names.take depth, List.take_prefix depth names, rfl⟩
  · rintro ⟨front, isPrefix, rfl⟩
    refine ⟨front.length, Nat.lt_succ_of_le isPrefix.length_le, ?_⟩
    rw [← List.prefix_iff_eq_take.mp isPrefix]

theorem ancestorPaths_concat {names : List Text} {name : Text}
    (valid : Components (names ++ [name])) :
    ancestorPaths (pathText (names ++ [name])) =
      ancestorPaths (pathText names) ++ [pathText (names ++ [name])] := by
  rw [ancestorPaths_pathText valid, ancestorPaths_pathText valid.left, List.length_append,
    List.length_singleton, List.range_succ, List.map_append, List.map_singleton]
  congr 1
  · apply List.map_congr_left
    intro depth inRange
    rw [List.take_append_of_le_length (Nat.lt_succ_iff.mp (List.mem_range.mp inRange))]
  · rw [List.take_of_length_le (by simp)]

theorem below_pathText_iff {root names : List Text} (hRoot : Components root)
    (hNames : Components names) (nonempty : root ≠ []) :
    Below (pathText root) (pathText names) ↔ root <+: names ∧ root ≠ names := by
  unfold Below
  rw [pathText_of_ne_nil nonempty]
  by_cases empty : names = []
  · subst empty
    constructor
    · intro isPrefix
      have longer := isPrefix.length_le
      rw [render_eq_cons_relativeText nonempty] at longer
      simp at longer
    · rintro ⟨isPrefix, -⟩
      exact absurd (List.prefix_nil.mp isPrefix) nonempty
  · rw [pathText_of_ne_nil empty]
    exact render_boundary_prefix_iff '/' hRoot.segments hNames.segments

theorem atOrBelow_pathText_iff {root names : List Text} (hRoot : Components root)
    (hNames : Components names) (nonempty : root ≠ []) :
    AtOrBelow (pathText root) (pathText names) ↔ root <+: names := by
  unfold AtOrBelow
  rw [below_pathText_iff hRoot hNames nonempty]
  constructor
  · rintro (same | ⟨isPrefix, -⟩)
    · rw [pathText_injective hNames hRoot same]
    · exact isPrefix
  · intro isPrefix
    by_cases same : root = names
    · exact Or.inl (by rw [same])
    · exact Or.inr ⟨isPrefix, same⟩

theorem below_relativeText_iff {root names : List Text} (hRoot : Components root)
    (hNames : Components names) (nonempty : root ≠ []) :
    Below (relativeText root) (relativeText names) ↔ root <+: names ∧ root ≠ names := by
  unfold Below
  rw [← render_boundary_prefix_iff '/' hRoot.segments hNames.segments]
  by_cases empty : names = []
  · subst empty
    constructor
    · intro isPrefix
      have longer := isPrefix.length_le
      simp at longer
    · intro isPrefix
      have longer := isPrefix.length_le
      simp at longer
  · rw [render_eq_cons_relativeText nonempty, render_eq_cons_relativeText empty,
      List.cons_append, List.cons_prefix_cons, and_iff_right rfl]

theorem atOrBelow_relativeText_iff {root names : List Text} (hRoot : Components root)
    (hNames : Components names) (nonempty : root ≠ []) :
    AtOrBelow (relativeText root) (relativeText names) ↔ root <+: names := by
  unfold AtOrBelow
  rw [below_relativeText_iff hRoot hNames nonempty]
  constructor
  · rintro (same | ⟨isPrefix, -⟩)
    · rw [relativeText_injective hNames hRoot same]
    · exact isPrefix
  · intro isPrefix
    by_cases same : root = names
    · exact Or.inl (by rw [same])
    · exact Or.inr ⟨isPrefix, same⟩

end PostgreOS
