/-
Normal forms of paths.

The clients resolve `.`, `..` and empty parts with a stack before a path reaches SQL;
`assert_path` rejects what is left of them with regular expressions. Both have the same
canonical paths.
-/

import PostgreOS.Find
import PostgreOS.Library.Resolution

namespace PostgreOS

open Library.Outcome Library.Resolution

/-- Where a part of a path leads. -/
def stepOf (part : Text) : PathStep Text :=
  if part = [] ∨ part = ['.'] then .stay
  else if part = ['.', '.'] then .up
  else .down part

def pathSteps (path : Text) : List (PathStep Text) :=
  (path.splitOn '/').map stepOf

def pathNames (path : Text) : List Text :=
  (path.splitOn '/').filter fun part => part ≠ []

theorem stepOf_component {name : Text} (valid : Component name) : stepOf name = .down name := by
  unfold stepOf
  rw [if_neg (not_or.mpr ⟨valid.1.1, valid.2.1⟩), if_neg valid.2.2]

theorem map_stepOf_components {names : List Text} (valid : Components names) :
    names.map stepOf = names.map .down :=
  List.map_congr_left fun name member => stepOf_component (valid name member)

theorem eq_of_stepOf_down {part name : Text} (down : stepOf part = .down name) :
    part = name ∧ name ≠ [] ∧ name ≠ ['.'] ∧ name ≠ ['.', '.'] := by
  unfold stepOf at down
  split at down
  · cases down
  · split at down
    · cases down
    · obtain rfl := PathStep.down.inj down
      simp_all

theorem normalizeParts_eq (stack parts : List Text) :
    normalizeParts stack parts = resolve stack.reverse (parts.map stepOf) := by
  induction parts generalizing stack with
  | nil => rfl
  | cons part rest ih =>
      unfold normalizeParts
      rw [List.map_cons, stepOf]
      split
      · rw [ih, resolve_stay]
      · split
        · cases stack with
          | nil => rfl
          | cons top lower =>
              rw [resolve_up (by simp), List.reverse_cons, List.dropLast_concat]
              exact ih lower
        · rw [ih, resolve_down, List.reverse_cons]

/-! ### What `normalize` returns -/

section Resolved

variable {path : Text} {names : List Text} (found : resolve [] (pathSteps path) = some names)

include found

theorem part_of_resolved {name : Text} (member : name ∈ names) :
    name ∈ path.splitOn '/' ∧ Component name := by
  have down := (mem_of_resolve found member).resolve_left List.not_mem_nil
  obtain ⟨part, inPath, step⟩ := List.mem_map.mp down
  obtain ⟨rfl, nonempty, notHere, notUp⟩ := eq_of_stepOf_down step
  exact ⟨inPath, ⟨nonempty, Library.Segments.notMem_of_mem_splitOn '/' path part inPath⟩, notHere, notUp⟩

theorem components_of_resolved : Components names :=
  fun _ member => (part_of_resolved found member).2

theorem mem_of_mem_resolved {name : Text} {symbol : Char} (member : name ∈ names)
    (inName : symbol ∈ name) : symbol ∈ path := by
  have inText : symbol ∈ ['/'].intercalate (path.splitOn '/') :=
    Library.Segments.mem_intercalate (part_of_resolved found member).1 inName
  rwa [List.intercalate_splitOn] at inText

end Resolved

def resolvedPath (steps : List (PathStep Text)) : Result Text :=
  (resolve [] steps).elim (raise "" "path escapes the volume root" []) fun names =>
    .ok (pathText names)

theorem resolvedPath_eq_ok_iff {steps : List (PathStep Text)} {path : Text} :
    resolvedPath steps = .ok path ↔ ∃ names, resolve [] steps = some names ∧ pathText names = path := by
  unfold resolvedPath
  cases resolve [] steps with
  | none => simp [raise]
  | some names => simp

theorem resolvedPath_isOk_iff (steps : List (PathStep Text)) :
    (∃ path, resolvedPath steps = .ok path) ↔ Inside steps := by
  rw [← resolve_isSome_iff_inside]
  unfold resolvedPath
  cases resolve [] steps with
  | none => simp [raise]
  | some names => simp

theorem normalize_of_absolute {path : Text} (absolute : path.head? = some '/')
    (noNul : '\x00' ∉ path) : normalize path = resolvedPath (pathSteps path) := by
  unfold normalize resolvedPath
  have steps : resolve ([] : List Text).reverse ((path.splitOn '/').map stepOf) =
      resolve [] (pathSteps path) := rfl
  rw [if_neg (not_not.mpr absolute), if_neg noNul, normalizeParts_eq, steps]
  cases found : resolve [] (pathSteps path) with
  | none => rfl
  | some names =>
      cases names with
      | nil => rfl
      | cons name rest =>
          have nonempty : name :: rest ≠ [] := List.cons_ne_nil name rest
          dsimp only [Option.elim]
          rw [pathText_of_ne_nil nonempty, Library.Segments.render_eq_cons_intercalate '/' nonempty]

theorem normalize_eq_ok_iff {path normal : Text} :
    normalize path = .ok normal ↔ path.head? = some '/' ∧ '\x00' ∉ path ∧
      ∃ names, resolve [] (pathSteps path) = some names ∧ normal = pathText names := by
  by_cases absolute : path.head? = some '/'
  · by_cases noNul : '\x00' ∉ path
    · rw [normalize_of_absolute absolute noNul, resolvedPath_eq_ok_iff]
      simp [absolute, noNul, eq_comm]
    · unfold normalize
      rw [if_neg (not_not.mpr absolute), if_pos (not_not.mp noNul)]
      simp [raise, noNul]
  · unfold normalize
    rw [if_pos absolute]
    simp [raise, absolute]

theorem canonicalPath_of_normalize {target path : Text} (normal : normalize target = .ok path) :
    CanonicalPath path := by
  obtain ⟨-, -, names, found, rfl⟩ := normalize_eq_ok_iff.mp normal
  exact canonicalPath_pathText (components_of_resolved found)

section Canonical

variable {names : List Text} (valid : Components names)

include valid

theorem splitOn_pathText (nonempty : names ≠ []) : (pathText names).splitOn '/' = [] :: names := by
  rw [pathText_of_ne_nil nonempty, render_eq_cons_relativeText nonempty, splitOn_cons_slash,
    splitOn_relativeText valid nonempty]

theorem pathNames_pathText : pathNames (pathText names) = names := by
  by_cases empty : names = []
  · subst empty
    decide
  · unfold pathNames
    rw [splitOn_pathText valid empty, List.filter_cons_of_neg (by simp), List.filter_eq_self]
    intro name member
    exact decide_eq_true (valid name member).1.1

theorem resolve_pathText : resolve [] (pathSteps (pathText names)) = some names := by
  by_cases empty : names = []
  · subst empty
    decide
  · unfold pathSteps
    rw [splitOn_pathText valid empty, List.map_cons, map_stepOf_components valid]
    exact resolve_downs [] names

theorem normalize_pathText (noNul : '\x00' ∉ pathText names) :
    normalize (pathText names) = .ok (pathText names) := by
  refine normalize_eq_ok_iff.mpr ⟨?_, noNul, names, resolve_pathText valid, rfl⟩
  by_cases empty : names = []
  · rw [empty]
    rfl
  · rw [pathText_of_ne_nil empty, render_eq_cons_relativeText empty]
    rfl

end Canonical

theorem noNul_of_resolved {path : Text} {names : List Text} (noNul : '\x00' ∉ path)
    (found : resolve [] (pathSteps path) = some names) : '\x00' ∉ pathText names := by
  by_cases empty : names = []
  · subst empty
    decide
  · rw [pathText_of_ne_nil empty]
    intro member
    obtain ⟨name, inNames, inName⟩ := List.mem_flatMap.mp member
    rcases List.mem_cons.mp inName with impossible | inName
    · cases impossible
    · exact noNul (mem_of_mem_resolved found inNames inName)

/-- `normalize` fails on relative paths and on paths that lead above the root. Otherwise it
resolves the path to one that `assert_path` accepts, and these are the paths that it leaves
as they are. -/
theorem normalize_canonical {path : Text} (noNul : '\x00' ∉ path) :
    ((∃ failure, normalize path = .error failure) ↔ path.head? ≠ some '/' ∨
      ∃ front, front <+: pathSteps path ∧ downs front < ups front) ∧
    (∀ normal, normalize path = .ok normal → assertPath normal = .ok normal ∧
      resolve [] (pathSteps path) = some (pathNames normal) ∧ normalize normal = .ok normal) ∧
    ((∃ accepted, assertPath path = .ok accepted) ↔ normalize path = .ok path) := by
  refine ⟨?_, ?_, ?_⟩
  · rw [← not_inside_iff, ← resolve_isSome_iff_inside]
    by_cases absolute : path.head? = some '/'
    · rw [normalize_of_absolute absolute noNul]
      unfold resolvedPath
      cases resolve [] (pathSteps path) with
      | none => simp [raise]
      | some names => simp [absolute]
    · unfold normalize
      rw [if_pos absolute]
      simp [raise, absolute]
  · intro normal done
    obtain ⟨-, -, names, found, rfl⟩ := normalize_eq_ok_iff.mp done
    have valid := components_of_resolved found
    rw [pathNames_pathText valid]
    exact ⟨assertPath_of_canonical (canonicalPath_pathText valid), found,
      normalize_pathText valid (noNul_of_resolved noNul found)⟩
  · constructor
    · rintro ⟨accepted, same⟩
      obtain ⟨-, canonical⟩ := assertPath_eq_ok same
      obtain ⟨names, valid, rfl⟩ := (canonicalPath_iff path).mp canonical
      exact normalize_pathText valid noNul
    · intro fixed
      exact ⟨path, assertPath_of_canonical (canonicalPath_of_normalize fixed)⟩

/-- Dots, repeated slashes and a name of three dots. -/
theorem normalize_canonical_of_dots : ∃ normal,
    normalize ['/', 'a', '/', '/', '.', '/', '.', '.', '.', '/'] = .ok normal ∧
      assertPath normal = .ok normal ∧ pathNames normal = [['a'], ['.', '.', '.']] := by
  have noNul : '\x00' ∉ ['/', 'a', '/', '/', '.', '/', '.', '.', '.', '/'] := by decide
  have done : normalize ['/', 'a', '/', '/', '.', '/', '.', '.', '.', '/'] =
      .ok ['/', 'a', '/', '.', '.', '.'] := by decide
  obtain ⟨accepted, resolved, -⟩ := (normalize_canonical noNul).2.1 _ done
  have names : resolve [] (pathSteps ['/', 'a', '/', '/', '.', '/', '.', '.', '.', '/']) =
      some [['a'], ['.', '.', '.']] := by decide
  exact ⟨_, done, accepted, Option.some.inj (resolved.symm.trans names)⟩

end PostgreOS
