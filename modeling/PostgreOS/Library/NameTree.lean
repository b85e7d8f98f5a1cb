/-
Trees of names.

Lists of names lead to values. A subtree can be read, cut off, and grafted at another place. In
a closed tree everything hangs below values that can hold something.
-/

import Mathlib.Data.List.Infix

namespace Library

variable {σ α : Type}

/-- The values that are found along lists of names. -/
abbrev NameTree (σ α : Type) := List σ → Option α

namespace NameTree

variable {tree other : NameTree σ α} {path source destination names : List σ}

def branch (tree : NameTree σ α) (path : List σ) : NameTree σ α :=
  fun names => tree (path ++ names)

theorem branch_apply : tree.branch path names = tree (path ++ names) := rfl

/-- Everything but the root hangs below a value that can hold something. -/
def Closed (inner : α → Prop) (tree : NameTree σ α) : Prop :=
  ∀ names name value, tree (names ++ [name]) = some value →
    ∃ above, tree names = some above ∧ inner above

variable [DecidableEq σ]

def cut (tree : NameTree σ α) (path : List σ) : NameTree σ α :=
  fun names => if path <+: names then none else tree names

def graft (tree : NameTree σ α) (path : List σ) (other : NameTree σ α) : NameTree σ α :=
  fun names => if path <+: names then other (names.drop path.length) else tree names

/-- The subtree at `source` goes to `destination`. -/
def move (tree : NameTree σ α) (source destination : List σ) : NameTree σ α :=
  (tree.cut source).graft destination (tree.branch source)

/-- The subtree at `source` is repeated at `destination`. -/
def copy (tree : NameTree σ α) (source destination : List σ) : NameTree σ α :=
  tree.graft destination (tree.branch source)

theorem cut_inside (inside : path <+: names) : tree.cut path names = none :=
  if_pos inside

theorem cut_outside (outside : ¬ path <+: names) : tree.cut path names = tree names :=
  if_neg outside

theorem graft_append (tree : NameTree σ α) (path : List σ) (other : NameTree σ α)
    (names : List σ) : tree.graft path other (path ++ names) = other names := by
  rw [graft, if_pos (List.prefix_append path names), List.drop_left]

theorem graft_outside (outside : ¬ path <+: names) :
    tree.graft path other names = tree names :=
  if_neg outside

end NameTree

end Library
