/-
Statements on one table with a unique constraint.

A table is the list of its rows in storage order. The constraint is given by a
relation saying when two rows carry the same key. An update visits the rows in
storage order and compares each new row with every other current row, so a
transient conflict fails the statement even when the final table would be
consistent. Serial numbers are handed out to inserted rows in order.
-/

import Mathlib.Algebra.BigOperators.Group.List.Basic
import Mathlib.Algebra.Ring.Int.Defs
import Mathlib.Data.List.Basic
import Mathlib.Data.List.MinMax
import Mathlib.Data.List.Range

namespace Library.Table

variable {α β : Type*}

def Distinct (clash : α → α → Bool) (rows : List α) : Prop :=
  rows.Pairwise fun first second => clash first second = false

instance (clash : α → α → Bool) (rows : List α) : Decidable (Distinct clash rows) :=
  inferInstanceAs (Decidable (List.Pairwise _ _))

/-- `INSERT` of some rows; `none` is a unique violation. -/
def insertRows (clash : α → α → Bool) (added rows : List α) : Option (List α) :=
  if Distinct clash (rows ++ added) then some (rows ++ added) else none

/-- `UPDATE` with the rows before the current one already written. -/
def updateFrom (clash : α → α → Bool) (selected : α → Bool) (change : α → α) :
    List α → List α → Option (List α)
  | written, [] => some written
  | written, row :: rest =>
      if selected row then
        if (written ++ rest).any (clash (change row)) then none
        else updateFrom clash selected change (written ++ [change row]) rest
      else updateFrom clash selected change (written ++ [row]) rest

/-- `UPDATE` of the selected rows; `none` is a unique violation. -/
def updateRows (clash : α → α → Bool) (selected : α → Bool) (change : α → α)
    (rows : List α) : Option (List α) :=
  updateFrom clash selected change [] rows

def rewritten (selected : α → Bool) (change : α → α) (row : α) : α :=
  if selected row then change row else row

theorem rewritten_of_selected {selected : α → Bool} {change : α → α} {row : α}
    (chosen : selected row = true) : rewritten selected change row = change row :=
  if_pos chosen

theorem rewritten_of_not_selected {selected : α → Bool} {change : α → α} {row : α}
    (kept : selected row = false) : rewritten selected change row = row := by
  simp [rewritten, kept]

theorem mem_map_rewritten {selected : α → Bool} {change : α → α} {rows : List α} {row : α} :
    row ∈ rows.map (rewritten selected change) ↔
      (row ∈ rows ∧ selected row = false) ∨ ∃ old ∈ rows, selected old = true ∧ change old = row := by
  rw [List.mem_map]
  constructor
  · rintro ⟨old, member, rfl⟩
    cases chosen : selected old with
    | false =>
        rw [rewritten_of_not_selected chosen]
        exact Or.inl ⟨member, chosen⟩
    | true =>
        rw [rewritten_of_selected chosen]
        exact Or.inr ⟨old, member, chosen, rfl⟩
  · rintro (⟨member, chosen⟩ | ⟨old, member, chosen, rfl⟩)
    · exact ⟨row, member, rewritten_of_not_selected chosen⟩
    · exact ⟨old, member, rewritten_of_selected chosen⟩

theorem insertRows_eq_some_iff (clash : α → α → Bool) (added rows result : List α) :
    insertRows clash added rows = some result ↔
      result = rows ++ added ∧ Distinct clash (rows ++ added) := by
  unfold insertRows
  split
  · rename_i distinct
    rw [Option.some.injEq]
    exact ⟨fun same => ⟨same.symm, distinct⟩, fun both => both.1.symm⟩
  · rename_i clashing
    simp only [reduceCtorEq, false_iff]
    exact fun both => clashing both.2

theorem updateFrom_eq_some (clash : α → α → Bool) (selected : α → Bool) (change : α → α)
    (written rows result : List α)
    (updated : updateFrom clash selected change written rows = some result) :
    result = written ++ rows.map (rewritten selected change) := by
  induction rows generalizing written with
  | nil =>
      simp only [updateFrom, Option.some.injEq] at updated
      simp [updated]
  | cons row rest ih =>
      simp only [updateFrom] at updated
      split at updated
      · rename_i chosen
        split at updated
        · cases updated
        · rw [ih _ updated, List.map_cons, rewritten, if_pos chosen, List.append_assoc]
          rfl
      · rename_i kept
        rw [ih _ updated, List.map_cons, rewritten, if_neg kept, List.append_assoc]
        rfl

theorem updateRows_eq_some {clash : α → α → Bool} {selected : α → Bool} {change : α → α}
    {rows result : List α} (updated : updateRows clash selected change rows = some result) :
    result = rows.map (rewritten selected change) := by
  simpa using updateFrom_eq_some clash selected change [] rows result updated

private theorem distinct_middle (clash : α → α → Bool)
    (symmetric : ∀ first second, clash first second = clash second first)
    (before after : List α) (row : α) :
    Distinct clash (before ++ row :: after) ↔
      Distinct clash (before ++ after) ∧ ∀ other ∈ before ++ after, clash row other = false := by
  simp only [Distinct, List.pairwise_append, List.pairwise_cons, List.mem_cons, List.mem_append]
  constructor
  · rintro ⟨hBefore, ⟨hRow, hAfter⟩, cross⟩
    refine ⟨⟨hBefore, hAfter, fun first hFirst second hSecond =>
      cross first hFirst second (Or.inr hSecond)⟩, ?_⟩
    rintro other (member | member)
    · rw [symmetric]
      exact cross other member row (Or.inl rfl)
    · exact hRow other member
  · rintro ⟨⟨hBefore, hAfter, cross⟩, apart⟩
    refine ⟨hBefore, ⟨fun other member => apart other (Or.inr member), hAfter⟩, ?_⟩
    rintro first hFirst second (rfl | hSecond)
    · rw [symmetric]
      exact apart first (Or.inl hFirst)
    · exact cross first hFirst second hSecond

/-- An update keeps the constraint: every row it writes was compared with all
the others. -/
theorem updateFrom_distinct (clash : α → α → Bool)
    (symmetric : ∀ first second, clash first second = clash second first)
    (selected : α → Bool) (change : α → α) (written rows result : List α)
    (distinct : Distinct clash (written ++ rows))
    (updated : updateFrom clash selected change written rows = some result) :
    Distinct clash result := by
  induction rows generalizing written with
  | nil =>
      simp only [updateFrom, Option.some.injEq] at updated
      rw [← updated]
      simpa using distinct
  | cons row rest ih =>
      have apart := (distinct_middle clash symmetric written rest row).mp distinct
      simp only [updateFrom] at updated
      split at updated
      · split at updated
        · cases updated
        · rename_i noClash
          refine ih _ ?_ updated
          rw [List.append_assoc]
          refine (distinct_middle clash symmetric written rest (change row)).mpr ⟨apart.1, ?_⟩
          intro other member
          simp only [List.any_eq_true, not_exists, not_and, Bool.not_eq_true] at noClash
          exact noClash other member
      · refine ih _ ?_ updated
        rw [List.append_assoc]
        exact distinct

theorem updateRows_distinct {clash : α → α → Bool}
    (symmetric : ∀ first second, clash first second = clash second first)
    {selected : α → Bool} {change : α → α} {rows result : List α}
    (distinct : Distinct clash rows)
    (updated : updateRows clash selected change rows = some result) :
    Distinct clash result :=
  updateFrom_distinct clash symmetric selected change [] rows result distinct updated

/-- An update that leaves the keys alone meets no conflict. -/
theorem updateFrom_of_same_keys (clash : α → α → Bool)
    (symmetric : ∀ first second, clash first second = clash second first)
    (selected : α → Bool) (change : α → α) (written rows : List α)
    (same : ∀ row ∈ rows, selected row = true → ∀ other, clash (change row) other = clash row other)
    (distinct : Distinct clash (written ++ rows)) :
    updateFrom clash selected change written rows =
      some (written ++ rows.map (rewritten selected change)) := by
  induction rows generalizing written with
  | nil => simp [updateFrom]
  | cons row rest ih =>
      have apart := (distinct_middle clash symmetric written rest row).mp distinct
      have later : ∀ other ∈ rest, selected other = true →
          ∀ third, clash (change other) third = clash other third :=
        fun other member => same other (List.mem_cons_of_mem row member)
      simp only [updateFrom]
      split
      · rename_i chosen
        have rowSame := same row List.mem_cons_self chosen
        rw [if_neg]
        · rw [ih _ later]
          · rw [List.map_cons, rewritten_of_selected chosen, List.append_assoc]
            rfl
          · rw [List.append_assoc]
            refine (distinct_middle clash symmetric written rest (change row)).mpr ⟨apart.1, ?_⟩
            intro other member
            rw [rowSame]
            exact apart.2 other member
        · simp only [List.any_eq_true, not_exists, not_and, Bool.not_eq_true]
          intro other member
          rw [rowSame]
          exact apart.2 other member
      · rename_i kept
        rw [ih _ later]
        · rw [List.map_cons, rewritten_of_not_selected (by simpa using kept), List.append_assoc]
          rfl
        · rw [List.append_assoc]
          exact distinct

theorem updateRows_of_same_keys {clash : α → α → Bool}
    (symmetric : ∀ first second, clash first second = clash second first)
    {selected : α → Bool} {change : α → α} {rows : List α}
    (same : ∀ row ∈ rows, selected row = true → ∀ other, clash (change row) other = clash row other)
    (distinct : Distinct clash rows) :
    updateRows clash selected change rows = some (rows.map (rewritten selected change)) :=
  updateFrom_of_same_keys clash symmetric selected change [] rows same distinct

/-- An update of rows that keep clear of the rows after them, and of the rows before them as
those have become, meets no conflict. -/
theorem updateFrom_of_apart (clash : α → α → Bool) (selected : α → Bool) (change : α → α)
    (written rows : List α)
    (apart : rows.Pairwise fun first second =>
      (selected first = true → clash (change first) second = false) ∧
        (selected second = true → clash (change second) (rewritten selected change first) = false))
    (before : ∀ row ∈ rows, selected row = true → ∀ other ∈ written, clash (change row) other = false) :
    updateFrom clash selected change written rows =
      some (written ++ rows.map (rewritten selected change)) := by
  induction rows generalizing written with
  | nil => simp [updateFrom]
  | cons row rest ih =>
      obtain ⟨here, later⟩ := List.pairwise_cons.mp apart
      have next : ∀ other ∈ rest, selected other = true →
          ∀ third ∈ written ++ [rewritten selected change row], clash (change other) third = false := by
        intro other member chosen third inWritten
        rcases List.mem_append.mp inWritten with old | new
        · exact before other (List.mem_cons_of_mem row member) chosen third old
        · rw [List.mem_singleton.mp new]
          exact (here other member).2 chosen
      simp only [updateFrom]
      split
      · rename_i chosen
        rw [rewritten_of_selected chosen] at next
        rw [if_neg]
        · rw [ih _ later next, List.map_cons, rewritten_of_selected chosen, List.append_assoc]
          rfl
        · simp only [List.any_eq_true, not_exists, not_and, Bool.not_eq_true]
          intro other member
          rcases List.mem_append.mp member with old | new
          · exact before row List.mem_cons_self chosen other old
          · exact (here other new).1 chosen
      · rename_i kept
        rw [rewritten_of_not_selected (by simpa using kept)] at next
        rw [ih _ later next, List.map_cons, rewritten_of_not_selected (by simpa using kept),
          List.append_assoc]
        rfl

theorem updateRows_of_apart {clash : α → α → Bool}
    (symmetric : ∀ first second, clash first second = clash second first)
    {selected : α → Bool} {change : α → α} {rows : List α}
    (distinct : Distinct clash rows)
    (apart : ∀ row ∈ rows, selected row = true → ∀ other ∈ rows, clash row other = false →
      clash (change row) other = false ∧
        (selected other = true → clash (change row) (change other) = false)) :
    updateRows clash selected change rows = some (rows.map (rewritten selected change)) := by
  refine updateFrom_of_apart clash selected change [] rows ?_
    fun _ _ _ _ impossible => absurd impossible List.not_mem_nil
  refine List.Pairwise.imp_of_mem ?_ distinct
  intro first second hFirst hSecond clear
  have mirrored : clash second first = false := by rw [symmetric, clear]
  refine ⟨fun chosen => (apart first hFirst chosen second hSecond clear).1, fun chosen => ?_⟩
  obtain ⟨old, new⟩ := apart second hSecond chosen first hFirst mirrored
  unfold rewritten
  split
  · exact new ‹_›
  · exact old

theorem Distinct.filter {clash : α → α → Bool} {rows : List α} (distinct : Distinct clash rows)
    (keep : α → Bool) : Distinct clash (rows.filter keep) :=
  List.Pairwise.sublist List.filter_sublist distinct

theorem Distinct.eq_of_clash {clash : α → α → Bool} {rows : List α}
    (symmetric : ∀ first second, clash first second = clash second first)
    (distinct : Distinct clash rows) {first second : α}
    (hFirst : first ∈ rows) (hSecond : second ∈ rows) (same : clash first second = true) :
    first = second := by
  by_contra different
  have mirrored : Std.Symm fun left right => clash left right = false :=
    ⟨fun left right apart => by rw [symmetric]; exact apart⟩
  have apart := List.Pairwise.forall distinct hFirst hSecond different
  rw [apart] at same
  cases same

theorem filter_eq_singleton {key : α → β} {rows : List α} (nodup : (rows.map key).Nodup) {row : α}
    (member : row ∈ rows) {keep : α → Bool} (kept : keep row = true)
    (alone : ∀ other ∈ rows, keep other = true → key other = key row) :
    rows.filter keep = [row] := by
  induction rows with
  | nil => cases member
  | cons head rest ih =>
      rw [List.map_cons, List.nodup_cons] at nodup
      have later : ∀ other ∈ rest, keep other = true → key other = key row :=
        fun other inRest => alone other (List.mem_cons_of_mem head inRest)
      rcases List.mem_cons.mp member with rfl | inRest
      · rw [List.filter_cons_of_pos kept]
        have none : rest.filter keep = [] := by
          rw [List.filter_eq_nil_iff]
          intro other inRest chosen
          exact nodup.1 (later other inRest chosen ▸ List.mem_map_of_mem inRest)
        rw [none]
      · rw [List.filter_cons_of_neg]
        · exact ih nodup.2 inRest later
        · intro chosen
          exact nodup.1 (alone head List.mem_cons_self chosen ▸ List.mem_map_of_mem inRest)

theorem filter_rewritten_eq_singleton {keep selected : α → Bool} {change : α → α}
    (kept : ∀ row, keep (change row) = keep row) {rows : List α} {row : α}
    (only : rows.filter keep = [row]) (chosen : selected row = true) :
    (rows.map (rewritten selected change)).filter keep = [change row] := by
  have same : keep ∘ rewritten selected change = keep := by
    funext other
    rw [Function.comp_apply, rewritten]
    split
    · exact kept other
    · rfl
  rw [List.filter_map, same, only, List.map_singleton, rewritten, if_pos chosen]

theorem argmax_map (key : β → Nat) (change : α → β) (rows : List α) :
    (rows.map change).argmax key = (rows.argmax fun row => key (change row)).map change := by
  induction rows using List.reverseRecOn with
  | nil => rfl
  | append_singleton rows last ih =>
      rw [List.map_append, List.map_singleton, List.argmax_concat, List.argmax_concat, ih]
      cases rows.argmax fun row => key (change row) with
      | none => rfl
      | some best =>
          dsimp only [Option.map_some]
          split <;> rfl

theorem length_filter_or (first second : α → Bool) (rows : List α) :
    (rows.filter fun row => first row || second row).length =
      (rows.filter first).length + ((rows.filter fun row => !first row).filter second).length := by
  induction rows with
  | nil => rfl
  | cons row rest ih =>
      cases hFirst : first row <;> cases hSecond : second row <;>
        simp [hFirst, hSecond, ih, Nat.add_assoc, Nat.add_comm, Nat.add_left_comm]

/-! ### Serial numbers -/

def numbered : Nat → List (Nat → α) → List α
  | _, [] => []
  | next, make :: rest => make next :: numbered (next + 1) rest

@[simp] theorem numbered_length (next : Nat) (makers : List (Nat → α)) :
    (numbered next makers).length = makers.length := by
  induction makers generalizing next with
  | nil => rfl
  | cons make rest ih => simp [numbered, ih]

theorem mem_numbered {next : Nat} {makers : List (Nat → α)} {row : α}
    (member : row ∈ numbered next makers) :
    ∃ make ∈ makers, ∃ serial, next ≤ serial ∧ serial < next + makers.length ∧
      row = make serial := by
  induction makers generalizing next with
  | nil => cases member
  | cons make rest ih =>
      rcases List.mem_cons.mp member with rfl | later
      · exact ⟨make, List.mem_cons_self, next, Nat.le_refl _, by simp, rfl⟩
      · obtain ⟨other, found, serial, lower, upper, same⟩ := ih later
        refine ⟨other, List.mem_cons_of_mem _ found, serial, by omega, ?_, same⟩
        simp only [List.length_cons]
        omega

theorem exists_mem_numbered (next : Nat) {makers : List (Nat → α)} {make : Nat → α}
    (member : make ∈ makers) : ∃ serial, next ≤ serial ∧ make serial ∈ numbered next makers := by
  induction makers generalizing next with
  | nil => cases member
  | cons head rest ih =>
      rcases List.mem_cons.mp member with rfl | later
      · exact ⟨next, Nat.le_refl _, List.mem_cons_self⟩
      · obtain ⟨serial, lower, found⟩ := ih (next + 1) later
        exact ⟨serial, by omega, List.mem_cons_of_mem _ found⟩

theorem numbered_append (next : Nat) (first second : List (Nat → α)) :
    numbered next (first ++ second) =
      numbered next first ++ numbered (next + first.length) second := by
  induction first generalizing next with
  | nil => rfl
  | cons make rest ih =>
      rw [List.cons_append, numbered, numbered, ih, List.cons_append, List.length_cons,
        Nat.add_assoc, Nat.add_comm 1]

theorem pairwise_numbered {related : α → α → Prop} {makerRelated : (Nat → α) → (Nat → α) → Prop}
    {makers : List (Nat → α)}
    (same : ∀ first ∈ makers, ∀ second ∈ makers, ∀ serial later, serial < later →
      (related (first serial) (second later) ↔ makerRelated first second)) (next : Nat) :
    (numbered next makers).Pairwise related ↔ makers.Pairwise makerRelated := by
  induction makers generalizing next with
  | nil => exact iff_of_true .nil .nil
  | cons make rest ih =>
      have others := ih (fun first hFirst second hSecond =>
        same first (List.mem_cons_of_mem make hFirst) second (List.mem_cons_of_mem make hSecond))
        (next + 1)
      rw [numbered, List.pairwise_cons, List.pairwise_cons, others]
      refine and_congr_left fun _ => ?_
      constructor
      · intro each other member
        obtain ⟨serial, above, numberedMember⟩ := exists_mem_numbered (next + 1) member
        exact (same make List.mem_cons_self other (List.mem_cons_of_mem make member) next serial
          (by omega)).mp (each _ numberedMember)
      · intro each row member
        obtain ⟨other, otherMember, serial, above, -, rfl⟩ := mem_numbered member
        exact (same make List.mem_cons_self other (List.mem_cons_of_mem make otherMember) next serial
          (by omega)).mpr (each other otherMember)

theorem map_numbered (serialOf : α → Nat) (next : Nat) (makers : List (Nat → α))
    (carries : ∀ make ∈ makers, ∀ serial, serialOf (make serial) = serial) :
    (numbered next makers).map serialOf = List.range' next makers.length := by
  induction makers generalizing next with
  | nil => rfl
  | cons make rest ih =>
      simp only [numbered, List.map_cons, List.length_cons, List.range'_succ]
      rw [carries make List.mem_cons_self,
        ih (next + 1) (fun other member => carries other (List.mem_cons_of_mem _ member))]

theorem map_numbered_const {γ : Type*} (column : α → β) (source : γ → Nat → α) (value : γ → β)
    (same : ∀ item serial, column (source item serial) = value item) (next : Nat)
    (items : List γ) : (numbered next (items.map source)).map column = items.map value := by
  induction items generalizing next with
  | nil => rfl
  | cons item rest ih => simp [numbered, same, ih]

theorem numbered_map {γ : Type*} (convert : α → β) (next : Nat) (items : List γ)
    (make : γ → Nat → α) :
    (numbered next (items.map make)).map convert =
      numbered next (items.map fun item serial => convert (make item serial)) := by
  induction items generalizing next with
  | nil => rfl
  | cons item rest ih => simp [numbered, ih]

theorem lookup_eq_of_mem [BEq α] [LawfulBEq α] {rows : List (α × β)}
    (nodup : (rows.map Prod.fst).Nodup) {key : α} {value : β} (member : (key, value) ∈ rows) :
    rows.lookup key = some value := by
  induction rows with
  | nil => cases member
  | cons head rest ih =>
      obtain ⟨headKey, headValue⟩ := head
      rw [List.map_cons, List.nodup_cons] at nodup
      rcases List.mem_cons.mp member with same | later
      · obtain ⟨rfl, rfl⟩ := Prod.mk.inj same
        simp
      · have different : (key == headKey) = false := by
          rw [beq_eq_false_iff_ne]
          rintro rfl
          exact nodup.1 (List.mem_map.mpr ⟨_, later, rfl⟩)
        rw [List.lookup_cons, different]
        exact ih nodup.2 later

/-- A join with the rows found for each of some distinct keys. -/
theorem join_distinct [DecidableEq α] (find : α → Option β) {keys : List α} (nodup : keys.Nodup)
    {key : α} (member : key ∈ keys) :
    (keys.filterMap fun other => (find other).map fun row => (other, row)).filter
        (fun row => decide (row.1 = key)) =
      ((find key).map fun row => (key, row)).toList := by
  have missing (others : List α) (absent : key ∉ others) :
      (others.filterMap fun other => (find other).map fun row => (other, row)).filter
        (fun row => decide (row.1 = key)) = [] := by
    rw [List.filter_eq_nil_iff]
    intro row found same
    obtain ⟨other, otherMember, made⟩ := List.mem_filterMap.mp found
    obtain ⟨value, -, rfl⟩ := Option.map_eq_some_iff.mp made
    exact absent (of_decide_eq_true same ▸ otherMember)
  induction keys with
  | nil => cases member
  | cons head rest ih =>
      rw [List.nodup_cons] at nodup
      rw [List.filterMap_cons]
      by_cases same : head = key
      · subst same
        cases found : find head with
        | none => exact missing rest nodup.1
        | some row =>
            change List.filter _ ((head, row) :: _) = _
            rw [List.filter_cons_of_pos (by simp), missing rest nodup.1]
            rfl
      · have later := ih nodup.2 ((List.mem_cons.mp member).resolve_left (Ne.symm same))
        cases found : find head with
        | none => exact later
        | some row =>
            change List.filter _ ((head, row) :: _) = _
            rw [List.filter_cons_of_neg (by simpa using same)]
            exact later

def total (weight : α → Int) (rows : List α) : Int :=
  (rows.map weight).sum

@[simp] theorem total_nil (weight : α → Int) : total weight [] = 0 := rfl

@[simp] theorem total_cons (weight : α → Int) (row : α) (rows : List α) :
    total weight (row :: rows) = weight row + total weight rows := by
  simp [total]

@[simp] theorem total_append (weight : α → Int) (first second : List α) :
    total weight (first ++ second) = total weight first + total weight second := by
  simp [total]

theorem total_filter_add (weight : α → Int) (keep : α → Bool) (rows : List α) :
    total weight (rows.filter keep) + total weight (rows.filter fun row => !keep row) =
      total weight rows := by
  induction rows with
  | nil => rfl
  | cons row rest ih =>
      cases chosen : keep row <;> simp only [List.filter_cons, chosen, if_true, Bool.not_true,
        Bool.not_false, Bool.false_eq_true, if_false, total_cons] <;> omega

theorem total_rewritten (weight : α → Int) (selected : α → Bool) (change : α → α)
    (rows : List α) :
    total weight (rows.map (rewritten selected change)) =
      total weight rows - total weight (rows.filter selected) +
        total weight ((rows.filter selected).map change) := by
  induction rows with
  | nil => rfl
  | cons row rest ih =>
      cases chosen : selected row with
      | false =>
          rw [List.map_cons, rewritten_of_not_selected chosen, List.filter_cons_of_neg (by simp [chosen]),
            total_cons, total_cons, ih]
          omega
      | true =>
          rw [List.map_cons, rewritten_of_selected chosen, List.filter_cons_of_pos chosen,
            List.map_cons, total_cons, total_cons, total_cons, total_cons, ih]
          omega

theorem total_congr {weight other : α → Int} {rows : List α}
    (same : ∀ row ∈ rows, weight row = other row) : total weight rows = total other rows := by
  unfold total
  rw [List.map_congr_left same]

theorem total_filter (weight : α → Int) (keep : α → Bool) (rows : List α) :
    total weight (rows.filter keep) = total (fun row => if keep row then weight row else 0) rows := by
  induction rows with
  | nil => rfl
  | cons row rest ih =>
      cases chosen : keep row <;>
        simp [chosen, ih]

theorem total_flatMap (weight : α → Int) (parts : β → List α) (groups : List β) :
    total weight (groups.flatMap parts) = total (fun group => total weight (parts group)) groups := by
  induction groups with
  | nil => rfl
  | cons group rest ih => rw [List.flatMap_cons, total_append, total_cons, ih]

theorem total_add (first second : α → Int) (rows : List α) :
    total (fun row => first row + second row) rows = total first rows + total second rows := by
  induction rows with
  | nil => rfl
  | cons row rest ih =>
      rw [total_cons, total_cons, total_cons, ih]
      omega

theorem total_comm (weight : α → β → Int) (rows : List α) (columns : List β) :
    total (fun row => total (weight row) columns) rows =
      total (fun column => total (fun row => weight row column) rows) columns := by
  induction columns with
  | nil => simp [total]
  | cons column rest ih =>
      simp only [total_cons]
      rw [total_add, ih]

theorem length_eq_total (rows : List α) : (rows.length : Int) = total (fun _ => 1) rows := by
  induction rows with
  | nil => rfl
  | cons row rest ih =>
      rw [total_cons, ← ih, List.length_cons]
      omega

theorem total_nonneg {weight : α → Int} {rows : List α} (positive : ∀ row ∈ rows, 0 ≤ weight row) :
    0 ≤ total weight rows := by
  induction rows with
  | nil => exact Int.le_refl 0
  | cons row rest ih =>
      rw [List.forall_mem_cons] at positive
      have others := ih positive.2
      rw [total_cons]
      omega

theorem total_eq_zero_iff {weight : α → Int} {rows : List α} (positive : ∀ row ∈ rows, 0 ≤ weight row) :
    total weight rows = 0 ↔ ∀ row ∈ rows, weight row = 0 := by
  induction rows with
  | nil => simp
  | cons row rest ih =>
      rw [List.forall_mem_cons] at positive
      have others : 0 ≤ total weight rest := total_nonneg positive.2
      rw [total_cons, List.forall_mem_cons, ← ih positive.2]
      omega

end Library.Table
