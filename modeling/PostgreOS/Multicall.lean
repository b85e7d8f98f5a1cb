/-
Paths of the standard-name tools.

The tools take paths of the host below the mount. A path is mapped by removing the mount
component by component and resolving the rest; a path is shown with the mount in front.
An invocation is taken over when its paths start with the components of the mount.
-/

import PostgreOS.Library.StdPath
import PostgreOS.Normalizing
import PostgreOS.RequiredLiterals

namespace PostgreOS

open Library.Outcome Library.Resolution Library.StdPath

/-- `map_path`; the mount is `PGOS_MOUNT`, or `/data`. -/
def mapPath (mount input : Text) (multicall : Bool) : Result Text :=
  if !multicall then normalize input
  else
    match stripPrefix input mount with
    | none => raise "" "path % is outside PostgreOS mount %" [input, mount]
    | some relative => normalize ('/' :: relative)

/-- `display_prefix`. -/
def displayPrefix (mount : Text) (multicall : Bool) : Text :=
  if multicall then mount.rdropWhile (· = '/') else []

/-- `display_path`. -/
def displayPath (mount path : Text) (multicall : Bool) : Text :=
  displayPrefix mount multicall ++ path

/-! ### Components as steps -/

def componentStep : PathComponent → PathStep Text
  | .rootDir => .stay
  | .curDir => .stay
  | .parentDir => .up
  | .normal name => .down name

theorem stepOf_eq (part : Text) :
    stepOf part = ((parseComponent part).map componentStep).getD .stay := by
  unfold stepOf parseComponent
  split
  · rfl
  · split
    · rfl
    · rfl

theorem resolve_pathSteps (place : List Text) (body : Text) :
    resolve place (pathSteps body) = resolve place ((bodyComponents body).map componentStep) := by
  unfold pathSteps bodyComponents
  induction body.splitOn '/' generalizing place with
  | nil => rfl
  | cons part rest ih =>
      rw [List.map_cons, stepOf_eq]
      cases parsed : parseComponent part with
      | none =>
          rw [List.filterMap_cons_none parsed]
          exact ih place
      | some component =>
          rw [List.filterMap_cons_some parsed, List.map_cons, resolve_cons, resolve_cons]
          simp only [ih]
          rfl

theorem resolve_filter_isStart (place : List Text) (components : List PathComponent) :
    resolve place ((components.filter fun component => !component.isStart).map componentStep) =
      resolve place (components.map componentStep) := by
  apply resolve_filter_map
  intro component start
  cases component with
  | rootDir => rfl
  | curDir => rfl
  | parentDir => cases start
  | normal name => cases start

theorem normalize_components {path : Text} (absolute : path.head? = some '/')
    (noNul : '\x00' ∉ path) :
    normalize path = resolvedPath ((components path).map componentStep) := by
  obtain ⟨body, rfl⟩ := List.head?_eq_some_iff.mp absolute
  rw [normalize_of_absolute absolute noNul]
  unfold resolvedPath
  rw [resolve_pathSteps, bodyComponents_cons_slash]
  rfl

theorem mapPath_of_components {mount input : Text} {rest : List PathComponent}
    (noNul : '\x00' ∉ input) (under : components input = components mount ++ rest) :
    mapPath mount input true = resolvedPath (rest.map componentStep) := by
  have starts := (startsWith_iff input mount).mpr ⟨rest, under.symm⟩
  obtain ⟨relative, found⟩ := Option.isSome_iff_exists.mp starts
  obtain ⟨⟨others, same, left⟩, symbols⟩ := stripped_of_stripPrefix found
  obtain rfl := List.append_cancel_left (same.symm.trans under)
  have relativeNul : '\x00' ∉ '/' :: relative := by
    intro member
    rcases List.mem_cons.mp member with impossible | inRelative
    · cases impossible
    · rcases symbols _ inRelative with impossible | inInput
      · cases impossible
      · exact noNul inInput
  unfold mapPath
  rw [if_neg (by simp), found]
  dsimp only
  rw [normalize_of_absolute rfl relativeNul]
  unfold resolvedPath
  rw [resolve_pathSteps, bodyComponents_cons_slash, left, resolve_filter_isStart]

theorem resolve_normal (place names : List Text) (steps : List PathComponent) :
    resolve place ((names.map PathComponent.normal ++ steps).map componentStep) =
      resolve (place ++ names) (steps.map componentStep) := by
  rw [List.map_append, List.map_map, resolve_append]
  change (resolve place (names.map .down)).bind _ = _
  rw [resolve_downs]
  rfl

theorem mapPath_outside {mount input : Text} (outside : ¬ components mount <+: components input) :
    mapPath mount input true = raise "" "path % is outside PostgreOS mount %" [input, mount] := by
  rw [← startsWith_iff, startsWith, Bool.not_eq_true, Option.isSome_eq_false_iff,
    Option.isNone_iff_eq_none] at outside
  unfold mapPath
  rw [if_neg (by simp), outside]

theorem bodyComponents_slashes (body : Text) (count : Nat) :
    bodyComponents (body ++ List.replicate count '/') = bodyComponents body := by
  induction count with
  | zero => rw [List.replicate_zero, List.append_nil]
  | succ count ih =>
      rw [List.replicate_succ', ← List.append_assoc, ← ih]
      unfold bodyComponents
      rw [List.splitOn_append_cons_self, List.splitOn_nil, List.filterMap_append]
      exact List.append_nil _

section Texts

variable {names : List Text} (valid : Components names)

include valid

theorem bodyComponents_relativeText : bodyComponents (relativeText names) = names.map .normal := by
  by_cases empty : names = []
  · subst empty
    decide
  · unfold bodyComponents
    rw [splitOn_relativeText valid empty, ← List.filterMap_eq_map]
    apply List.filterMap_congr
    intro name member
    obtain ⟨⟨nonempty, -⟩, notHere, notUp⟩ := valid name member
    unfold parseComponent
    rw [if_neg (not_or.mpr ⟨nonempty, notHere⟩), if_neg notUp]
    rfl

theorem components_slashes (count : Nat) :
    components (pathText names ++ List.replicate count '/') = .rootDir :: names.map .normal := by
  obtain ⟨body, same, inBody⟩ : ∃ body, pathText names = '/' :: body ∧
      bodyComponents body = names.map .normal := by
    refine ⟨relativeText names, ?_, bodyComponents_relativeText valid⟩
    by_cases empty : names = []
    · subst empty
      rfl
    · rw [pathText_of_ne_nil empty, render_eq_cons_relativeText empty]
  rw [same, List.cons_append, components_cons_slash, bodyComponents_slashes, inBody]

theorem rdropWhile_render :
    (Library.Segments.render '/' names).rdropWhile (· = '/') = Library.Segments.render '/' names := by
  rcases List.eq_nil_or_concat' names with rfl | ⟨front, last, rfl⟩
  · rfl
  · obtain ⟨nonempty, free⟩ := (valid last (List.mem_append_right front List.mem_cons_self)).1
    rw [List.rdropWhile_eq_self_iff]
    intro some ends
    have same : (Library.Segments.render '/' (front ++ [last])).getLast some =
        last.getLast nonempty := by
      simp [Library.Segments.render, nonempty]
    rw [same] at ends
    exact free (of_decide_eq_true ends ▸ List.getLast_mem nonempty)

theorem displayPrefix_slashes (count : Nat) :
    displayPrefix (pathText names ++ List.replicate count '/') true =
      Library.Segments.render '/' names := by
  have cut : (pathText names ++ List.replicate count '/').rdropWhile (· = '/') =
      (pathText names).rdropWhile (· = '/') := by
    induction count with
    | zero => rw [List.replicate_zero, List.append_nil]
    | succ count ih =>
        rw [List.replicate_succ', ← List.append_assoc, List.rdropWhile_concat_pos _ _ _ (by simp), ih]
  unfold displayPrefix
  rw [if_pos rfl, cut]
  by_cases empty : names = []
  · subst empty
    decide
  · rw [pathText_of_ne_nil empty, rdropWhile_render valid]

end Texts

theorem render_append_pathText (names rest : List Text) :
    ∃ count, Library.Segments.render '/' names ++ pathText rest =
        pathText (names ++ rest) ++ List.replicate count '/' ∧ count ≤ 1 := by
  by_cases top : rest = []
  · subst top
    by_cases root : names = []
    · subst root
      exact ⟨0, rfl, Nat.zero_le 1⟩
    · refine ⟨1, ?_, Nat.le_refl 1⟩
      rw [List.append_nil, pathText_of_ne_nil root]
      rfl
  · refine ⟨0, ?_, Nat.zero_le 1⟩
    rw [pathText_of_ne_nil top, pathText_of_ne_nil (List.append_ne_nil_of_right_ne_nil names top),
      Library.Segments.render_append, List.replicate_zero, List.append_nil]

/-- Mapping a shown path gives it back; what is mapped to a path normalizes to the path shown,
up to a slash at its end. -/
theorem mapPath_displayPath {mount root path : Text} (canonicalRoot : CanonicalPath root)
    (trailing : ∃ count, mount = root ++ List.replicate count '/') (canonical : CanonicalPath path)
    (mountNul : '\x00' ∉ mount) (pathNul : '\x00' ∉ path) :
    mapPath mount (displayPath mount path true) true = .ok path ∧
    ∀ argument, '\x00' ∉ argument → mapPath mount argument true = .ok path →
      ∃ normal, normalize argument = .ok normal ∧
        (displayPath mount path true = normal ∨ displayPath mount path true = normal ++ ['/']) := by
  obtain ⟨names, valid, rfl⟩ := (canonicalPath_iff root).mp canonicalRoot
  obtain ⟨rest, restValid, rfl⟩ := (canonicalPath_iff path).mp canonical
  obtain ⟨count, rfl⟩ := trailing
  have shown : displayPath (pathText names ++ List.replicate count '/') (pathText rest) true =
      Library.Segments.render '/' names ++ pathText rest := by
    unfold displayPath
    rw [displayPrefix_slashes valid]
  have mountComponents := components_slashes valid count
  obtain ⟨ending, text, short⟩ := render_append_pathText names rest
  constructor
  · have noNul : '\x00' ∉ displayPath (pathText names ++ List.replicate count '/') (pathText rest)
        true := by
      intro member
      rcases List.mem_append.mp member with inPrefix | inPath
      · exact mountNul ((List.rdropWhile_prefix _ _).subset inPrefix)
      · exact pathNul inPath
    have under : components (displayPath (pathText names ++ List.replicate count '/')
        (pathText rest) true) = components (pathText names ++ List.replicate count '/') ++
          (rest.map .normal ++ []) := by
      rw [shown, text, components_slashes (valid.append restValid), mountComponents,
        List.map_append, List.append_nil, List.cons_append]
    rw [mapPath_of_components noNul under]
    exact resolvedPath_eq_ok_iff.mpr ⟨rest, resolve_normal [] rest [], rfl⟩
  · intro argument noNul mapped
    have begins : components (pathText names ++ List.replicate count '/') <+: components argument := by
      by_contra outside
      rw [mapPath_outside outside] at mapped
      cases mapped
    obtain ⟨others, same⟩ := begins
    rw [mapPath_of_components noNul same.symm] at mapped
    obtain ⟨found, resolved, samePath⟩ := resolvedPath_eq_ok_iff.mp mapped
    rw [mountComponents] at same
    have whole : resolve [] ((components argument).map componentStep) = some (names ++ found) := by
      rw [← same, List.cons_append, List.map_cons]
      change resolve [] (.stay :: _) = _
      rw [resolve_stay, resolve_normal, List.nil_append]
      have below := resolve_below names resolved
      rwa [List.append_nil] at below
    refine ⟨pathText (names ++ found), ?_, ?_⟩
    · rw [normalize_components (head_of_rootDir same.symm) noNul]
      exact resolvedPath_eq_ok_iff.mpr ⟨_, whole, rfl⟩
    · obtain ⟨ending, text, short⟩ := render_append_pathText names found
      rw [shown, ← samePath, text]
      rcases Nat.le_one_iff_eq_zero_or_eq_one.mp short with rfl | rfl
      · exact Or.inl (List.append_nil _)
      · exact Or.inr rfl

/-- A mount with a slash at its end. -/
theorem mapPath_displayPath_of_slash :
    mapPath "/data/".toList (displayPath "/data/".toList ['/'] true) true = .ok ['/'] ∧
      ∃ normal, normalize "/data/a/..".toList = .ok normal ∧
        (displayPath "/data/".toList ['/'] true = normal ∨
          displayPath "/data/".toList ['/'] true = normal ++ ['/']) := by
  have canonical : CanonicalPath "/data".toList := by decide
  obtain ⟨back, shown⟩ := mapPath_displayPath canonical
    (⟨1, rfl⟩ : ∃ count, "/data/".toList = "/data".toList ++ List.replicate count '/')
    (by decide : CanonicalPath ['/']) (by decide) (by decide)
  exact ⟨back, shown "/data/a/..".toList (by decide) (by decide)⟩

/-! ### Which invocations are taken over -/

/-- What `pgos` reads of its surroundings. -/
structure Environment where
  /-- `env::var`. -/
  var : String → Option Text
  isDirectory : Text → Bool
  isFile : Text → Bool

def Environment.mount (environment : Environment) : Text :=
  (environment.var "PGOS_MOUNT").getD "/data".toList

structure GrepArgs where
  fixedStrings : Bool
  extendedRegexp : Bool
  recursive : Bool
  includes : List Text
  lineNumber : Bool
  wordRegexp : Bool
  pattern : Text
  path : Text

/-- The commands; the administrative ones are not tools of their own. -/
inductive Command where
  | cp (recursive : Bool) (source destination : Text)
  | rm (recursive force : Bool) (paths : List Text)
  | find (path : Text) (name kind : Option Text)
  | grep (options : GrepArgs)
  | locate (pattern : Text)
  | du (summarize : Bool) (path : Text)
  | administrative

/-- `unicode_word_locale`. -/
def unicodeWordLocale (environment : Environment) : Bool :=
  let values := ["LC_ALL", "LC_CTYPE", "LANG"].filterMap environment.var
  match values.find? fun value => value ≠ [] with
  | none => false
  | some locale => locale = "C.UTF-8".toList ∨ locale = "C.utf8".toList

/-- The suffix of an include pattern. -/
def includeSuffix : Text → Option Text
  | '*' :: '.' :: rest =>
      if rest ≠ [] ∧ rest.all Char.isAlphanum then some ('.' :: rest) else none
  | _ => none

/-- `include_suffixes`. -/
def includeSuffixes (patterns : List Text) : Option (List Text) :=
  patterns.mapM includeSuffix

section Commands

variable {Look : Type} (calls : RegexCalls Look) (environment : Environment)

/-- `command_paths_are_mounted`. -/
def commandPathsAreMounted (command : Command) : Bool :=
  let underMount := fun path => startsWith path environment.mount
  match command with
  | .cp recursive source destination => recursive && underMount source && underMount destination
  | .rm recursive _ paths => recursive && paths.all underMount
  | .find path _ _ => underMount path
  | .du summarize path => summarize && underMount path
  | .grep options =>
      underMount options.path &&
        (options.recursive && environment.isDirectory options.path ||
          !options.recursive && environment.isFile options.path && options.includes.isEmpty) &&
        (!options.wordRegexp || unicodeWordLocale environment) &&
        (includeSuffixes options.includes).isSome &&
        (!options.recursive && !options.lineNumber && options.includes.isEmpty &&
            (gnuRequiredLiterals calls options.pattern options.fixedStrings
              options.extendedRegexp).isSome ||
          (gnuPattern calls options.pattern options.fixedStrings options.extendedRegexp
            options.wordRegexp).isSome)
  | .locate _ => true
  | .administrative => false

/-- The paths that a tool passes to `map_path`. -/
def Command.mappedPaths : Command → List Text
  | .cp _ source destination => [source, destination]
  | .rm _ _ paths => paths
  | .find path _ _ => [path]
  | .du _ path => [path]
  | .grep options => [options.path]
  | .locate _ => []
  | .administrative => []

variable {calls environment}

theorem underMount_of_mounted {command : Command}
    (mounted : commandPathsAreMounted calls environment command = true) :
    ∀ path ∈ command.mappedPaths, startsWith path environment.mount = true := by
  unfold commandPathsAreMounted at mounted
  unfold Command.mappedPaths
  cases command with
  | cp recursive source destination => simp_all
  | rm recursive force paths => simp_all
  | find path name kind => simp_all
  | grep options => simp_all
  | locate pattern => simp
  | du summarize path => simp_all
  | administrative => simp

end Commands

/-- After the mount, no beginning of the path goes up more often than down. -/
def StaysInside (mount path : Text) : Prop :=
  ∀ rest, components path = components mount ++ rest → Inside (rest.map componentStep)

theorem mapPath_isOk_iff {mount path : Text} (noNul : '\x00' ∉ path) :
    (startsWith path mount = true → ∃ mapped, mapPath mount path true = .ok mapped) ↔
      StaysInside mount path := by
  rw [startsWith_iff]
  constructor
  · intro maps rest same
    rw [← resolvedPath_isOk_iff, ← mapPath_of_components noNul same]
    exact maps ⟨rest, same.symm⟩
  · rintro stays ⟨rest, same⟩
    rw [mapPath_of_components noNul same.symm, resolvedPath_isOk_iff]
    exact stays rest same.symm

/-- Paths and invocations that are taken over are mapped exactly where `..` does not lead
out of the mount. -/
theorem mounted_paths_map_iff (environment : Environment) :
    (∀ path, '\x00' ∉ path →
      ((startsWith path environment.mount = true →
          ∃ mapped, mapPath environment.mount path true = .ok mapped) ↔
        StaysInside environment.mount path)) ∧
    ∀ (Look : Type) (calls : RegexCalls Look) (command : Command),
      (∀ path ∈ command.mappedPaths, '\x00' ∉ path) →
      ((commandPathsAreMounted calls environment command = true →
          ∀ path ∈ command.mappedPaths, ∃ mapped, mapPath environment.mount path true = .ok mapped) ↔
        (commandPathsAreMounted calls environment command = true →
          ∀ path ∈ command.mappedPaths, StaysInside environment.mount path)) := by
  constructor
  · exact fun path noNul => mapPath_isOk_iff noNul
  · intro Look calls command noNul
    refine imp_congr_right fun mounted => forall₂_congr fun path member => ?_
    rw [← mapPath_isOk_iff (noNul path member)]
    simp [underMount_of_mounted mounted path member]

/-- An environment in which nothing is set. -/
def bareEnvironment : Environment :=
  { var := fun _ => none
    isDirectory := fun _ => false
    isFile := fun _ => false }

/-- `rm -r /data/../etc` is taken over and fails. -/
theorem mounted_path_escapes :
    (∀ (Look : Type) (calls : RegexCalls Look), commandPathsAreMounted calls bareEnvironment
      (.rm true false ["/data/../etc".toList]) = true) ∧
    mapPath bareEnvironment.mount "/data/../etc".toList true =
      raise "" "path escapes the volume root" [] := by
  constructor
  · intro Look calls
    change (true && ["/data/../etc".toList].all fun path => startsWith path "/data".toList) = true
    decide
  · decide

end PostgreOS
