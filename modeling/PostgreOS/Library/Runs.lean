/-
Runs of neighbouring symbols with a property.

A run found in a part of a list is a run of the whole list; a list whose symbols all have the
property is one run, and so is a concatenation of such lists. A word is a token of a list where
no symbol with the property stands next to it.
-/

import Mathlib.Data.List.Infix
import Mathlib.Data.List.TakeWhile

namespace Library.Runs

variable {α β : Type*}

/-- `count` neighbouring symbols have the property. -/
def HasRun (property : α → Prop) (count : Nat) (symbols : List α) : Prop :=
  ∃ run, run <:+: symbols ∧ count ≤ run.length ∧ ∀ symbol ∈ run, property symbol

variable {property : α → Prop} {count fewer : Nat} {symbols part : List α}

theorem hasRun_zero (property : α → Prop) (symbols : List α) : HasRun property 0 symbols :=
  ⟨[], List.nil_infix, Nat.zero_le _, fun _ member => absurd member List.not_mem_nil⟩

theorem HasRun.mono (run : HasRun property count symbols) (atMost : fewer ≤ count) :
    HasRun property fewer symbols := by
  obtain ⟨symbols, inside, long, all⟩ := run
  exact ⟨symbols, inside, Nat.le_trans atMost long, all⟩

theorem HasRun.widen (run : HasRun property count part) (inside : part <:+: symbols) :
    HasRun property count symbols := by
  obtain ⟨symbols, within, long, all⟩ := run
  exact ⟨symbols, within.trans inside, long, all⟩

theorem hasRun_of_forall (all : ∀ symbol ∈ symbols, property symbol) (long : count ≤ symbols.length) :
    HasRun property count symbols :=
  ⟨symbols, List.infix_refl symbols, long, all⟩

theorem HasRun.length_le (run : HasRun property count symbols) : count ≤ symbols.length := by
  obtain ⟨symbols, inside, long, -⟩ := run
  exact Nat.le_trans long inside.length_le

theorem hasRun_cons_iff [DecidablePred property] (symbol : α) (rest : List α) :
    HasRun property count (symbol :: rest) ↔
      count ≤ ((symbol :: rest).takeWhile fun other => decide (property other)).length ∨
        HasRun property count rest := by
  constructor
  · rintro ⟨run, inside, long, all⟩
    rcases List.infix_cons_iff.mp inside with ⟨later, split⟩ | within
    · left
      have taken : run.takeWhile (fun other => decide (property other)) = run := by
        rw [List.takeWhile_eq_self_iff]
        exact fun other member => decide_eq_true (all other member)
      rw [← split, List.takeWhile_append, taken, if_pos rfl, List.length_append]
      exact Nat.le_trans long (Nat.le_add_right _ _)
    · exact Or.inr ⟨run, within, long, all⟩
  · rintro (long | run)
    · refine ⟨_, (List.takeWhile_prefix _).isInfix, long, ?_⟩
      intro other member
      have chosen := List.mem_takeWhile_imp member
      rwa [decide_eq_true_eq] at chosen
    · exact run.widen (List.infix_cons (List.infix_refl rest))

def findRun (property : α → Prop) [DecidablePred property] (count : Nat) (symbols : List α) : Bool :=
  symbols.tails.any fun rest => count ≤ (rest.takeWhile fun other => decide (property other)).length

theorem findRun_iff [DecidablePred property] :
    findRun property count symbols = true ↔ HasRun property count symbols := by
  unfold findRun
  induction symbols with
  | nil =>
      constructor
      · intro none
        refine (hasRun_zero property []).mono ?_
        simpa using none
      · intro run
        simpa using run.length_le
  | cons symbol rest ih => rw [List.tails_cons, List.any_cons, Bool.or_eq_true, decide_eq_true_eq, ih,
      hasRun_cons_iff]

instance [DecidablePred property] : Decidable (HasRun property count symbols) :=
  decidable_of_iff _ findRun_iff

/-! ### Tokens -/

def StartsOutside (property : α → Prop) (symbols : List α) : Prop :=
  ∀ symbol ∈ symbols.head?, ¬ property symbol

def EndsOutside (property : α → Prop) (symbols : List α) : Prop :=
  ∀ symbol ∈ symbols.getLast?, ¬ property symbol

/-- The word occurs with no symbol of the property next to it. -/
def HasToken (property : α → Prop) (word symbols : List α) : Prop :=
  ∃ front back, symbols = front ++ word ++ back ∧ EndsOutside property front ∧
    StartsOutside property back

section Tokens

variable {first second word : List α}

instance [DecidablePred property] : Decidable (StartsOutside property symbols) :=
  inferInstanceAs (Decidable (∀ symbol ∈ symbols.head?, ¬ property symbol))

instance [DecidablePred property] : Decidable (EndsOutside property symbols) :=
  inferInstanceAs (Decidable (∀ symbol ∈ symbols.getLast?, ¬ property symbol))

theorem startsOutside_nil (property : α → Prop) : StartsOutside property [] :=
  fun _ member => absurd member (Option.not_mem_none _)

theorem endsOutside_nil (property : α → Prop) : EndsOutside property [] :=
  fun _ member => absurd member (Option.not_mem_none _)

theorem startsOutside_append_iff (some : first ≠ []) :
    StartsOutside property (first ++ second) ↔ StartsOutside property first := by
  cases first with
  | nil => exact absurd rfl some
  | cons symbol rest => exact Iff.rfl

theorem endsOutside_append_iff (some : second ≠ []) :
    EndsOutside property (first ++ second) ↔ EndsOutside property second := by
  unfold EndsOutside
  rw [List.getLast?_append_of_ne_nil first some]

theorem startsOutside_append (here : StartsOutside property first)
    (later : first = [] → StartsOutside property second) : StartsOutside property (first ++ second) := by
  by_cases empty : first = []
  · subst empty
    exact later rfl
  · exact (startsOutside_append_iff empty).mpr here

theorem endsOutside_append (here : EndsOutside property second)
    (earlier : second = [] → EndsOutside property first) : EndsOutside property (first ++ second) := by
  by_cases empty : second = []
  · rw [empty, List.append_nil]
    exact earlier empty
  · exact (endsOutside_append_iff empty).mpr here

theorem StartsOutside.mono {stronger : α → Prop} (here : StartsOutside property symbols)
    (implied : ∀ symbol, stronger symbol → property symbol) : StartsOutside stronger symbols :=
  fun symbol member stands => here symbol member (implied symbol stands)

theorem EndsOutside.mono {stronger : α → Prop} (here : EndsOutside property symbols)
    (implied : ∀ symbol, stronger symbol → property symbol) : EndsOutside stronger symbols :=
  fun symbol member stands => here symbol member (implied symbol stands)

/-- Whether the word is a token at some place of the list. -/
def findToken [DecidableEq α] (property : α → Prop) [DecidablePred property] (word symbols : List α) :
    Bool :=
  (List.range (symbols.length + 1)).any fun place =>
    decide (EndsOutside property (symbols.take place) ∧ word <+: symbols.drop place ∧
      StartsOutside property ((symbols.drop place).drop word.length))

theorem findToken_iff [DecidableEq α] [DecidablePred property] :
    findToken property word symbols = true ↔ HasToken property word symbols := by
  unfold findToken
  rw [List.any_eq_true]
  constructor
  · rintro ⟨place, -, found⟩
    obtain ⟨before, ⟨rest, split⟩, after⟩ := of_decide_eq_true found
    rw [← split, List.drop_left] at after
    refine ⟨symbols.take place, rest, ?_, before, after⟩
    rw [List.append_assoc, split, List.take_append_drop]
  · rintro ⟨front, back, rfl, before, after⟩
    refine ⟨front.length, ?_, decide_eq_true ?_⟩
    · rw [List.mem_range, List.append_assoc, List.length_append]
      omega
    · rw [List.append_assoc, List.take_left, List.drop_left, List.drop_left]
      exact ⟨before, List.prefix_append word back, after⟩

instance [DecidableEq α] [DecidablePred property] : Decidable (HasToken property word symbols) :=
  decidable_of_iff _ findToken_iff

end Tokens

end Library.Runs
