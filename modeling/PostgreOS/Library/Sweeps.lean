/-
Removing named rows, one after the other or in one statement.

A name has at most one row, and the row goes together with what its name sweeps, unless rows
that hold it are left. One after the other, the removals see what the earlier ones have left;
a single statement sees the rows before the first. The rules below say when both do the same.
-/

import Mathlib.Data.List.Nodup
import Mathlib.Data.List.Infix
import Mathlib.Data.List.Perm.Subperm
import Mathlib.Order.BooleanAlgebra.Set

namespace Library.Sweeps

theorem forall_split_concat {α : Type} {items : List α} {last : α} {holds : List α → α → Prop} :
    (∀ front item back, items ++ [last] = front ++ item :: back → holds front item) ↔
      (∀ front item back, items = front ++ item :: back → holds front item) ∧ holds items last := by
  constructor
  · intro every
    refine ⟨?_, every items last [] rfl⟩
    rintro front item back rfl
    exact every front item (back ++ [last]) (by rw [List.append_assoc, List.cons_append])
  · rintro ⟨every, atLast⟩ front item back same
    rcases List.eq_nil_or_concat' back with rfl | ⟨before, other, rfl⟩
    · obtain ⟨rfl, rfl⟩ := List.append_inj' same rfl |>.imp id List.singleton_inj.mp
      exact atLast
    · rw [← List.cons_append, ← List.append_assoc] at same
      obtain ⟨whole, -⟩ := List.append_inj' same rfl
      exact every front item before whole

theorem nodup_of_split {α : Type} {items : List α}
    (fresh : ∀ front item back, items = front ++ item :: back → item ∉ front) : items.Nodup := by
  induction items using List.reverseRecOn with
  | nil => exact List.nodup_nil
  | append_singleton items last ih =>
      rw [forall_split_concat] at fresh
      rw [List.nodup_append]
      refine ⟨ih fresh.1, List.nodup_singleton last, ?_⟩
      intro item member other here same
      rw [same, List.mem_singleton.mp here] at member
      exact fresh.2 member

theorem fresh_of_nodup {α : Type} {items front back : List α} {item : α} (distinct : items.Nodup)
    (split : items = front ++ item :: back) : item ∉ front := by
  rw [split, List.nodup_append] at distinct
  exact fun member => distinct.2.2 item member item List.mem_cons_self rfl

/-- Names of rows, with what goes with a row and what keeps it. -/
structure Sweeper (Name Row : Type) where
  /-- The rows before the first removal. -/
  all : Set Row
  named : Name → Row → Prop
  swept : Name → Set Row
  held : Name → Set Row
  /-- The holding rows of which a single statement knows. -/
  seen : Name → Set Row
  named_all : ∀ {name row}, named name row → row ∈ all
  swept_all : ∀ {name}, swept name ⊆ all
  held_all : ∀ {name}, held name ⊆ all
  row_unique : ∀ {name first second}, named name first → named name second → first = second
  name_unique : ∀ {first second row}, named first row → named second row → first = second
  self : ∀ {name row}, named name row → row ∈ swept name
  held_named : ∀ {name row}, row ∈ held name → ∃ own, named name own
  seen_held : ∀ {name}, seen name ⊆ held name
  held_seen : ∀ {name other row}, row ∈ held name → named other row → row ∈ seen name

namespace Sweeper

variable {Name Row : Type} (sweeper : Sweeper Name Row)

def listed (names : List Name) : Set Row :=
  {row | ∃ name ∈ names, sweeper.named name row}

def sweeps (names : List Name) : Set Row :=
  {row | ∃ name ∈ names, row ∈ sweeper.swept name}

open Classical in
/-- The removal of one name among the rows that are left. -/
noncomputable def step (force : Bool) (left : Set Row) (name : Name) : Option (Set Row) :=
  if ∃ row ∈ left, sweeper.named name row then
    if ∀ row ∈ sweeper.held name, row ∉ left then some (left \ sweeper.swept name) else none
  else if force then some left else none

noncomputable def run (force : Bool) (names : List Name) : Option (Set Row) :=
  names.foldlM (sweeper.step force) sweeper.all

def chosen (names : List Name) : Set Row :=
  {row | ∃ name ∈ names, sweeper.named name row ∧ sweeper.seen name = ∅}

def Complete (names : List Name) : Prop :=
  names.Nodup ∧ ∀ name ∈ names, ∃ row, sweeper.named name row

open Classical in
/-- All removals in a single statement. -/
noncomputable def bulk (force : Bool) (names : List Name) : Option (Set Row) :=
  if force = true ∨ sweeper.Complete names ∧ ∀ name ∈ names, sweeper.seen name = ∅ then
    some (sweeper.all \ sweeper.chosen names)
  else none

variable {sweeper} {force : Bool} {names : List Name} {name : Name} {rest : Set Row}

theorem run_concat (names : List Name) (last : Name) :
    sweeper.run force (names ++ [last]) =
      (sweeper.run force names).bind fun left => sweeper.step force left last := by
  unfold run
  rw [List.foldlM_append]
  congr 1
  funext left
  exact bind_pure (sweeper.step force left last)

theorem sweeps_concat (names : List Name) (last : Name) :
    sweeper.sweeps (names ++ [last]) = sweeper.sweeps names ∪ sweeper.swept last := by
  ext row
  simp [sweeps, or_and_right, exists_or]

theorem listed_mono {fewer more : List Name} (subset : fewer ⊆ more) :
    sweeper.listed fewer ⊆ sweeper.listed more :=
  fun _ ⟨name, member, named⟩ => ⟨name, subset member, named⟩

theorem sweeps_mono {fewer more : List Name} (subset : fewer ⊆ more) :
    sweeper.sweeps fewer ⊆ sweeper.sweeps more :=
  fun _ ⟨name, member, swept⟩ => ⟨name, subset member, swept⟩

theorem listed_subset_sweeps : sweeper.listed names ⊆ sweeper.sweeps names :=
  fun _ ⟨name, member, named⟩ => ⟨name, member, sweeper.self named⟩

theorem sweeps_all : sweeper.sweeps names ⊆ sweeper.all :=
  fun _ ⟨_, _, swept⟩ => sweeper.swept_all swept

theorem listed_all : sweeper.listed names ⊆ sweeper.all :=
  fun _ ⟨_, _, named⟩ => sweeper.named_all named

theorem chosen_subset_listed : sweeper.chosen names ⊆ sweeper.listed names :=
  fun _ ⟨name, member, named, _⟩ => ⟨name, member, named⟩

theorem seen_of_chosen {row : Row} (named : sweeper.named name row)
    (taken : row ∈ sweeper.chosen names) : sweeper.seen name = ∅ := by
  obtain ⟨other, -, otherNamed, free⟩ := taken
  rw [sweeper.name_unique named otherNamed]
  exact free

theorem held_of_seen (free : sweeper.seen name = ∅) (covered : sweeper.held name ⊆ sweeper.listed names) :
    sweeper.held name = ∅ := by
  rw [Set.eq_empty_iff_forall_notMem] at free ⊢
  intro row holds
  obtain ⟨other, -, named⟩ := covered holds
  exact free row (sweeper.held_seen holds named)

theorem seen_of_held (free : sweeper.held name = ∅) : sweeper.seen name = ∅ :=
  Set.subset_empty_iff.mp (free ▸ sweeper.seen_held)

theorem left_eq_iff {first second : Set Row} (hFirst : first ⊆ sweeper.all)
    (hSecond : second ⊆ sweeper.all) :
    sweeper.all \ first = sweeper.all \ second ↔ first = second := by
  constructor
  · intro same
    rw [← Set.sdiff_sdiff_cancel_left hFirst, same, Set.sdiff_sdiff_cancel_left hSecond]
  · rintro rfl
    rfl

theorem held_free_iff {gone : Set Row} :
    (∀ row ∈ sweeper.held name, row ∉ sweeper.all \ gone) ↔ sweeper.held name ⊆ gone := by
  constructor
  · intro apart row holds
    by_contra stays
    exact apart row holds ⟨sweeper.held_all holds, stays⟩
  · intro covered row holds left
    exact left.2 (covered holds)

theorem exists_left_iff {gone : Set Row} :
    (∃ row ∈ sweeper.all \ gone, sweeper.named name row) ↔ ∃ row ∉ gone, sweeper.named name row := by
  constructor
  · rintro ⟨row, left, named⟩
    exact ⟨row, left.2, named⟩
  · rintro ⟨row, stays, named⟩
    exact ⟨row, ⟨sweeper.named_all named, stays⟩, named⟩

theorem step_of_left {gone : Set Row} (left : ∃ row ∉ gone, sweeper.named name row)
    (free : sweeper.held name ⊆ gone) :
    sweeper.step force (sweeper.all \ gone) name = some (sweeper.all \ (gone ∪ sweeper.swept name)) := by
  unfold step
  rw [if_pos (exists_left_iff.mpr left), if_pos (held_free_iff.mpr free), Set.sdiff_sdiff]

theorem step_of_held {gone : Set Row} (left : ∃ row ∉ gone, sweeper.named name row)
    (held : ¬ sweeper.held name ⊆ gone) : sweeper.step force (sweeper.all \ gone) name = none := by
  unfold step
  rw [if_pos (exists_left_iff.mpr left), if_neg fun free => held (held_free_iff.mp free)]

theorem step_of_gone {gone : Set Row} (missing : ¬ ∃ row ∉ gone, sweeper.named name row) :
    sweeper.step force (sweeper.all \ gone) name =
      if force then some (sweeper.all \ gone) else none := by
  unfold step
  rw [if_neg fun left => missing (exists_left_iff.mp left)]

/-- There are as many chosen rows as names if and only if each name has one of its own. -/
theorem length_chosen_iff {rows : List Row} (distinct : rows.Nodup)
    (same : ∀ row, row ∈ rows ↔ row ∈ sweeper.chosen names) :
    rows.length = names.length ↔
      sweeper.Complete names ∧ ∀ name ∈ names, sweeper.seen name = ∅ := by
  have each : ∀ row : {row // row ∈ rows}, ∃ name ∈ names, sweeper.named name row := by
    intro row
    obtain ⟨name, member, named, -⟩ := (same row).mp row.2
    exact ⟨name, member, named⟩
  choose owner inNames owns using each
  have owners : (rows.attach.map owner).Nodup := by
    refine List.Nodup.map_on ?_ (List.nodup_attach.mpr distinct)
    intro first _ second _ equal
    exact Subtype.ext (sweeper.row_unique (owns first) (equal ▸ owns second))
  have subset : rows.attach.map owner ⊆ names := by
    intro name member
    obtain ⟨row, -, rfl⟩ := List.mem_map.mp member
    exact inNames row
  have length : (rows.attach.map owner).length = rows.length := by
    rw [List.length_map, List.length_attach]
  constructor
  · intro count
    have all := (owners.subperm subset).perm_of_length_le (by rw [length, count])
    have found : ∀ name ∈ names, ∃ row, sweeper.named name row ∧ row ∈ sweeper.chosen names := by
      intro name member
      obtain ⟨row, -, rfl⟩ := List.mem_map.mp (all.mem_iff.mpr member)
      exact ⟨row, owns row, (same row).mp row.2⟩
    refine ⟨⟨all.nodup_iff.mp owners, fun name member => ?_⟩, fun name member => ?_⟩
    · obtain ⟨row, named, -⟩ := found name member
      exact ⟨row, named⟩
    · obtain ⟨row, named, taken⟩ := found name member
      exact seen_of_chosen named taken
  · rintro ⟨⟨apart, found⟩, free⟩
    rw [← length]
    apply List.Perm.length_eq
    rw [List.perm_ext_iff_of_nodup owners apart]
    intro name
    refine ⟨fun member => subset member, fun member => ?_⟩
    obtain ⟨row, named⟩ := found name member
    have taken : row ∈ rows := (same row).mpr ⟨name, member, named, free name member⟩
    refine List.mem_map.mpr ⟨⟨row, taken⟩, List.mem_attach _ _, ?_⟩
    exact sweeper.name_unique (owns ⟨row, taken⟩) named

theorem run_strict : sweeper.run false names = some rest ↔
    (∀ front name back, names = front ++ name :: back →
      (∃ row ∉ sweeper.sweeps front, sweeper.named name row) ∧
        sweeper.held name ⊆ sweeper.sweeps front) ∧
      rest = sweeper.all \ sweeper.sweeps names := by
  induction names using List.reverseRecOn generalizing rest with
  | nil =>
      have nothing : sweeper.sweeps [] = ∅ := by simp [sweeps]
      rw [nothing, Set.sdiff_empty]
      simp [run, eq_comm]
  | append_singleton names last ih =>
      rw [run_concat, Option.bind_eq_some_iff, forall_split_concat, sweeps_concat]
      constructor
      · rintro ⟨left, ran, stepped⟩
        obtain ⟨earlier, rfl⟩ := ih.mp ran
        by_cases found : ∃ row ∉ sweeper.sweeps names, sweeper.named last row
        · by_cases free : sweeper.held last ⊆ sweeper.sweeps names
          · rw [step_of_left found free] at stepped
            exact ⟨⟨earlier, found, free⟩, (Option.some.inj stepped).symm⟩
          · rw [step_of_held found free] at stepped
            cases stepped
        · rw [step_of_gone found] at stepped
          cases stepped
      · rintro ⟨⟨earlier, found, free⟩, rfl⟩
        exact ⟨_, ih.mpr ⟨earlier, rfl⟩, step_of_left found free⟩

theorem complete_of_run (ran : sweeper.run false names = some rest) : sweeper.Complete names := by
  obtain ⟨every, -⟩ := run_strict.mp ran
  constructor
  · apply nodup_of_split
    intro front name back split earlier
    obtain ⟨⟨row, stays, named⟩, -⟩ := every front name back split
    exact stays ⟨name, earlier, sweeper.self named⟩
  · intro name member
    obtain ⟨front, back, split⟩ := List.append_of_mem member
    obtain ⟨⟨row, -, named⟩, -⟩ := every front name back split
    exact ⟨row, named⟩

theorem chosen_eq_listed (free : ∀ name ∈ names, sweeper.seen name = ∅) :
    sweeper.chosen names = sweeper.listed names := by
  apply Set.Subset.antisymm chosen_subset_listed
  rintro row ⟨name, member, named⟩
  exact ⟨name, member, named, free name member⟩

/-- No name has a holding row, and none sweeps more than the names so far. -/
def Bare (sweeper : Sweeper Name Row) (names : List Name) : Prop :=
  ∀ front name back, names = front ++ name :: back →
    sweeper.held name = ∅ ∧ sweeper.swept name ⊆ sweeper.listed (front ++ [name])

/-- The single statement sees a holding row, and one after the other the removals meet a row
that is gone or held. -/
def Stuck (sweeper : Sweeper Name Row) (names : List Name) : Prop :=
  (∃ name ∈ names, sweeper.seen name ≠ ∅) ∧
    ∃ front name back, names = front ++ name :: back ∧
      ((∀ row, sweeper.named name row → row ∈ sweeper.sweeps front) ∨
        ¬ sweeper.held name ⊆ sweeper.sweeps front)

theorem Bare.sweeps_eq (bare : sweeper.Bare names) : sweeper.sweeps names = sweeper.listed names := by
  apply Set.Subset.antisymm _ listed_subset_sweeps
  rintro row ⟨name, member, swept⟩
  obtain ⟨front, back, split⟩ := List.append_of_mem member
  refine listed_mono ?_ ((bare front name back split).2 swept)
  rw [split]
  simp

theorem Bare.run (bare : sweeper.Bare names) (complete : sweeper.Complete names) :
    sweeper.run false names = some (sweeper.all \ sweeper.listed names) := by
  refine run_strict.mpr ⟨?_, by rw [bare.sweeps_eq]⟩
  intro front name back split
  have member : name ∈ names := by
    rw [split]
    simp
  obtain ⟨row, named⟩ := complete.2 name member
  refine ⟨⟨row, ?_, named⟩, ?_⟩
  · rintro ⟨other, earlier, swept⟩
    obtain ⟨before, after, rfl⟩ := List.append_of_mem earlier
    have here : names = before ++ other :: (after ++ name :: back) := by
      rw [split, List.append_assoc, List.cons_append]
    obtain ⟨third, thirdMember, thirdNamed⟩ := (bare before other _ here).2 swept
    rw [← sweeper.name_unique named thirdNamed] at thirdMember
    apply fresh_of_nodup complete.1 split
    rcases List.mem_append.mp thirdMember with inFront | same
    · exact List.mem_append_left _ inFront
    · rw [List.mem_singleton.mp same]
      exact List.mem_append_right _ List.mem_cons_self
  · rw [(bare front name back split).1]
    exact Set.empty_subset _

/-- Without `force` a single statement does what the removals one after the other do. -/
theorem bulk_eq_run_strict : sweeper.bulk false names = sweeper.run false names ↔
    (sweeper.Complete names → sweeper.Bare names ∨ sweeper.Stuck names) := by
  unfold bulk
  constructor
  · intro agree complete
    by_cases free : ∀ name ∈ names, sweeper.seen name = ∅
    · rw [if_pos (Or.inr ⟨complete, free⟩), chosen_eq_listed free] at agree
      obtain ⟨every, same⟩ := run_strict.mp agree.symm
      rw [left_eq_iff listed_all sweeps_all] at same
      refine Or.inl fun front name back split => ⟨?_, ?_⟩
      · have member : name ∈ names := by
          rw [split]
          simp
        have fewer : front ⊆ names := by
          rw [split]
          exact List.subset_append_left _ _
        apply held_of_seen (free name member)
        rw [same]
        exact (every front name back split).2.trans (sweeps_mono fewer)
      · intro row swept
        have inSweeps : row ∈ sweeper.sweeps names := ⟨name, by rw [split]; simp, swept⟩
        obtain ⟨other, member, named⟩ := same ▸ inSweeps
        rw [split, List.mem_append, List.mem_cons] at member
        rcases member with inFront | rfl | inBack
        · exact ⟨other, List.mem_append_left _ inFront, named⟩
        · exact ⟨other, List.mem_append_right _ List.mem_cons_self, named⟩
        · -- A later name would find its row gone.
          obtain ⟨before, after, rfl⟩ := List.append_of_mem inBack
          have later : names = (front ++ name :: before) ++ other :: after := by
            rw [split, List.append_assoc, List.cons_append]
          obtain ⟨⟨found, stays, foundNamed⟩, -⟩ := every _ other after later
          rw [← sweeper.row_unique named foundNamed] at stays
          exact absurd ⟨name, by simp, swept⟩ stays
    · rw [if_neg fun either => free (either.resolve_left Bool.false_ne_true).2] at agree
      rw [not_forall] at free
      obtain ⟨name, free⟩ := free
      rw [Classical.not_imp] at free
      refine Or.inr ⟨⟨name, free⟩, ?_⟩
      by_contra every
      have passes : ∀ front name back, names = front ++ name :: back →
          (∃ row ∉ sweeper.sweeps front, sweeper.named name row) ∧
            sweeper.held name ⊆ sweeper.sweeps front := by
        intro front name back split
        by_contra fails
        refine every ⟨front, name, back, split, ?_⟩
        rw [not_and_or] at fails
        refine fails.imp_left fun missing row named => ?_
        by_contra stays
        exact missing ⟨row, stays, named⟩
      rw [run_strict.mpr ⟨passes, rfl⟩] at agree
      cases agree
  · intro either
    by_cases complete : sweeper.Complete names
    · rcases either complete with bare | ⟨⟨name, member, holds⟩, front, last, back, split, fails⟩
      · have free : ∀ name ∈ names, sweeper.seen name = ∅ := by
          intro name member
          obtain ⟨front, back, split⟩ := List.append_of_mem member
          exact seen_of_held (bare front name back split).1
        rw [if_pos (Or.inr ⟨complete, free⟩), chosen_eq_listed free, bare.run complete]
      · rw [if_neg fun either => holds ((either.resolve_left Bool.false_ne_true).2 name member)]
        cases ran : sweeper.run false names with
        | none => rfl
        | some rest =>
            obtain ⟨⟨row, stays, named⟩, free⟩ := (run_strict.mp ran).1 front last back split
            rcases fails with gone | held
            · exact absurd (gone row named) stays
            · exact absurd free held
    · rw [if_neg fun either => complete (either.resolve_left Bool.false_ne_true).1]
      cases ran : sweeper.run false names with
      | none => rfl
      | some rest => exact absurd (complete_of_run ran) complete

/-! ### Runs that pass over missing rows -/

open Classical in
/-- The rows that are gone after some names, each of which has its sweep if its row is there. -/
noncomputable def gone (sweeper : Sweeper Name Row) (names : List Name) : Set Row :=
  names.foldl (fun before name =>
    if ∃ row ∉ before, sweeper.named name row then before ∪ sweeper.swept name else before) ∅

def Standing (sweeper : Sweeper Name Row) (front : List Name) (name : Name) : Prop :=
  ∃ row ∉ sweeper.gone front, sweeper.named name row

theorem gone_concat_of_standing {front : List Name} (standing : sweeper.Standing front name) :
    sweeper.gone (front ++ [name]) = sweeper.gone front ∪ sweeper.swept name := by
  unfold gone
  rw [List.foldl_append]
  exact if_pos standing

theorem gone_concat_of_missing {front : List Name} (missing : ¬ sweeper.Standing front name) :
    sweeper.gone (front ++ [name]) = sweeper.gone front := by
  unfold gone
  rw [List.foldl_append]
  exact if_neg missing

theorem gone_nil : sweeper.gone [] = ∅ := rfl

/-- Removals with `force` find nothing that holds the rows that are there. -/
theorem run_forced : sweeper.run true names = some rest ↔
    (∀ front name back, names = front ++ name :: back →
      sweeper.Standing front name → sweeper.held name ⊆ sweeper.gone front) ∧
      rest = sweeper.all \ sweeper.gone names := by
  induction names using List.reverseRecOn generalizing rest with
  | nil =>
      rw [gone_nil, Set.sdiff_empty]
      simp [run, eq_comm]
  | append_singleton names last ih =>
      rw [run_concat, Option.bind_eq_some_iff, forall_split_concat]
      by_cases found : sweeper.Standing names last
      · rw [gone_concat_of_standing found]
        constructor
        · rintro ⟨left, ran, stepped⟩
          obtain ⟨earlier, rfl⟩ := ih.mp ran
          by_cases free : sweeper.held last ⊆ sweeper.gone names
          · rw [step_of_left found free] at stepped
            exact ⟨⟨earlier, fun _ => free⟩, (Option.some.inj stepped).symm⟩
          · rw [step_of_held found free] at stepped
            cases stepped
        · rintro ⟨⟨earlier, free⟩, rfl⟩
          exact ⟨_, ih.mpr ⟨earlier, rfl⟩, step_of_left found (free found)⟩
      · rw [gone_concat_of_missing found]
        constructor
        · rintro ⟨left, ran, stepped⟩
          obtain ⟨earlier, rfl⟩ := ih.mp ran
          rw [step_of_gone found, if_pos rfl] at stepped
          exact ⟨⟨earlier, fun standing => absurd standing found⟩, (Option.some.inj stepped).symm⟩
        · rintro ⟨⟨earlier, -⟩, rfl⟩
          refine ⟨_, ih.mpr ⟨earlier, rfl⟩, ?_⟩
          rw [step_of_gone found, if_pos rfl]

theorem gone_subset_sweeps : sweeper.gone names ⊆ sweeper.sweeps names := by
  induction names using List.reverseRecOn with
  | nil => exact Set.empty_subset _
  | append_singleton names last ih =>
      rw [sweeps_concat]
      by_cases found : sweeper.Standing names last
      · rw [gone_concat_of_standing found]
        exact Set.union_subset_union_left _ ih
      · rw [gone_concat_of_missing found]
        exact ih.trans Set.subset_union_left

theorem gone_subset_append (front back : List Name) : sweeper.gone front ⊆ sweeper.gone (front ++ back) := by
  induction back using List.reverseRecOn with
  | nil => rw [List.append_nil]
  | append_singleton back last ih =>
      rw [← List.append_assoc]
      by_cases found : sweeper.Standing (front ++ back) last
      · rw [gone_concat_of_standing found]
        exact ih.trans Set.subset_union_left
      · rw [gone_concat_of_missing found]
        exact ih

theorem listed_subset_gone : sweeper.listed names ⊆ sweeper.gone names := by
  rintro row ⟨name, member, named⟩
  obtain ⟨front, back, rfl⟩ := List.append_of_mem member
  rw [← List.singleton_append, ← List.append_assoc]
  apply gone_subset_append
  by_cases found : sweeper.Standing front name
  · rw [gone_concat_of_standing found]
    exact Or.inr (sweeper.self named)
  · rw [gone_concat_of_missing found]
    by_contra stays
    exact found ⟨row, stays, named⟩

theorem swept_subset_gone {front back : List Name} (split : names = front ++ name :: back)
    (standing : sweeper.Standing front name) : sweeper.swept name ⊆ sweeper.gone names := by
  rw [split, ← List.singleton_append, ← List.append_assoc]
  refine Set.Subset.trans ?_ (gone_subset_append (front ++ [name]) back)
  rw [gone_concat_of_standing standing]
  exact Set.subset_union_right

theorem gone_subset_listed (within : ∀ front name back, names = front ++ name :: back →
    sweeper.Standing front name → sweeper.swept name ⊆ sweeper.listed names) :
    sweeper.gone names ⊆ sweeper.listed names := by
  have each : ∀ front back, names = front ++ back → sweeper.gone front ⊆ sweeper.listed names := by
    intro front
    induction front using List.reverseRecOn with
    | nil => exact fun _ _ => Set.empty_subset _
    | append_singleton front last ih =>
        intro back split
        rw [List.append_assoc, List.singleton_append] at split
        by_cases found : sweeper.Standing front last
        · rw [gone_concat_of_standing found]
          exact Set.union_subset (ih _ split) (within front last back split found)
        · rw [gone_concat_of_missing found]
          exact ih _ split
  exact each names [] (List.append_nil names).symm

/-- With `force` a single statement does what the removals one after the other do. -/
theorem bulk_eq_run_forced : sweeper.bulk true names = sweeper.run true names ↔
    (∀ name ∈ names, sweeper.seen name = ∅) ∧
      ∀ front name back, names = front ++ name :: back → sweeper.Standing front name →
        sweeper.held name = ∅ ∧ sweeper.swept name ⊆ sweeper.listed names := by
  have bulkEq : sweeper.bulk true names = some (sweeper.all \ sweeper.chosen names) :=
    if_pos (Or.inl rfl)
  rw [bulkEq, eq_comm, run_forced,
    left_eq_iff (chosen_subset_listed.trans listed_all) (gone_subset_sweeps.trans sweeps_all)]
  constructor
  · rintro ⟨free, same⟩
    have seen : ∀ name ∈ names, sweeper.seen name = ∅ := by
      intro name member
      rw [Set.eq_empty_iff_forall_notMem]
      intro row holds
      obtain ⟨own, named⟩ := sweeper.held_named (sweeper.seen_held holds)
      have taken : own ∈ sweeper.chosen names := same ▸ listed_subset_gone ⟨name, member, named⟩
      rw [seen_of_chosen named taken] at holds
      exact holds
    have fewer : sweeper.gone names ⊆ sweeper.listed names := same ▸ chosen_subset_listed
    refine ⟨seen, fun front name back split standing => ⟨?_, ?_⟩⟩
    · have earlier : sweeper.gone front ⊆ sweeper.gone names := by
        rw [split]
        exact gone_subset_append front (name :: back)
      exact held_of_seen (seen name (by rw [split]; simp))
        ((free front name back split standing).trans (earlier.trans fewer))
    · exact (swept_subset_gone split standing).trans fewer
  · rintro ⟨seen, each⟩
    constructor
    · intro front name back split standing
      rw [(each front name back split standing).1]
      exact Set.empty_subset _
    · rw [chosen_eq_listed seen]
      apply Set.Subset.antisymm listed_subset_gone
      exact gone_subset_listed fun front name back split standing =>
        (each front name back split standing).2

end Sweeper

end Library.Sweeps
