/-
Rows in the order of a key.

Rows whose keys differ have one order only. So groups of rows that are in order, one after the
other, are what sorting all their rows gives, and leaving rows out commutes with sorting.
-/

import Mathlib.Data.List.Sort

namespace Library.Ordering

variable {ι α κ : Type*} [LinearOrder κ] {key : α → κ}

theorem eq_of_perm {sorted rows : List α}
    (ordered : sorted.Pairwise fun first second => key first ≤ key second)
    (strict : rows.Pairwise fun first second => key first < key second)
    (perm : sorted.Perm rows) : sorted = rows := by
  have keys : (rows.map key).Nodup := List.pairwise_map.mpr (strict.imp fun less => less.ne)
  have weak : rows.Pairwise fun first second => key first ≤ key second :=
    strict.imp fun less => less.le
  refine List.Perm.eq_of_pairwise ?_ ordered weak perm
  intro first second firstMember secondMember before after
  exact List.inj_on_of_nodup_map keys (perm.mem_iff.mp firstMember) secondMember
    (le_antisymm before after)

theorem pairwise_groups {groups : List ι} {rows : ι → List α}
    (inside : ∀ group ∈ groups, (rows group).Pairwise fun first second => key first < key second)
    (across : groups.Pairwise fun before after =>
      ∀ first ∈ rows before, ∀ second ∈ rows after, key first < key second) :
    (groups.flatMap rows).Pairwise fun first second => key first < key second :=
  List.pairwise_flatMap.mpr ⟨inside, across⟩

variable {inOrder : α → α → Prop} [DecidableRel inOrder]

theorem ordered_insertionSort (byKey : ∀ first second, inOrder first second ↔ key first ≤ key second)
    (rows : List α) :
    (rows.insertionSort inOrder).Pairwise fun first second => key first ≤ key second := by
  have total : Std.Total inOrder := ⟨fun first second => by
    rw [byKey, byKey]
    exact le_total _ _⟩
  have transitive : IsTrans α inOrder := ⟨fun first second third before after => by
    rw [byKey] at before after ⊢
    exact before.trans after⟩
  exact (List.pairwise_insertionSort inOrder rows).imp fun {first second} ordered =>
    (byKey first second).mp ordered

theorem filter_insertionSort (byKey : ∀ first second, inOrder first second ↔ key first ≤ key second)
    {all rows : List α} {keep : α → Bool} (perm : (all.filter keep).Perm rows)
    (strict : rows.Pairwise fun first second => key first < key second) :
    (all.insertionSort inOrder).filter keep = rows :=
  eq_of_perm ((ordered_insertionSort byKey all).filter keep) strict
    (((List.perm_insertionSort inOrder all).filter keep).trans perm)

end Library.Ordering
