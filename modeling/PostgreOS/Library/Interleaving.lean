/-
Two clients that update a shared value by reading and writing it.

Each client prepares, reads the value, and writes what it makes of the value it read.
Schedules interleave these steps. An update is lost when both clients read before
either has written.
-/

import Mathlib.Data.List.Induction
import Mathlib.Logic.Function.Basic

namespace Library.Interleaving

variable {α : Type*}

inductive Phase (α : Type*) where
  | idle
  | ready
  | holding (value : α)
  | finished

structure Shared (α : Type*) where
  value : α
  phase : Bool → Phase α

/-- The next step of a client; `update` is what it makes of the value. -/
def advance (update : Bool → α → α) (state : Shared α) (client : Bool) : Shared α :=
  match state.phase client with
  | .idle => { state with phase := Function.update state.phase client .ready }
  | .ready => { state with phase := Function.update state.phase client (.holding state.value) }
  | .holding value =>
      { value := update client value, phase := Function.update state.phase client .finished }
  | .finished => state

def run (update : Bool → α → α) (start : α) (schedule : List Bool) : Shared α :=
  schedule.foldl (advance update) { value := start, phase := fun _ => .idle }

theorem client_cases (client mover : Bool) : client = mover ∨ client = !mover := by
  cases client <;> cases mover <;> simp

/-- `client` makes its step number `done` while the other has made fewer than `fewer`. -/
def Before (schedule : List Bool) (client : Bool) (done fewer : Nat) : Prop :=
  ∃ early, early <+: schedule ∧ done ≤ early.count client ∧ early.count (!client) < fewer

theorem before_concat {schedule : List Bool} {client mover : Bool} {done fewer : Nat} :
    Before (schedule ++ [mover]) client done fewer ↔ Before schedule client done fewer ∨
      done ≤ (schedule ++ [mover]).count client ∧ (schedule ++ [mover]).count (!client) < fewer := by
  unfold Before
  constructor
  · rintro ⟨early, isPrefix, counts⟩
    rcases List.prefix_concat_iff.mp isPrefix with rfl | shorter
    · exact Or.inr counts
    · exact Or.inl ⟨early, shorter, counts⟩
  · rintro (⟨early, isPrefix, counts⟩ | counts)
    · exact ⟨early, isPrefix.trans (List.prefix_append _ _), counts⟩
    · exact ⟨_, List.prefix_rfl, counts⟩

theorem Before.count {schedule : List Bool} {client : Bool} {done fewer : Nat}
    (before : Before schedule client done fewer) : done ≤ schedule.count client := by
  obtain ⟨early, isPrefix, enough, -⟩ := before
  exact Nat.le_trans enough (isPrefix.sublist.count_le client)

theorem before_of_count {schedule : List Bool} {client : Bool} {done fewer : Nat}
    (enough : done ≤ schedule.count client) (few : schedule.count (!client) < fewer) :
    Before schedule client done fewer :=
  ⟨schedule, List.prefix_rfl, enough, few⟩

theorem not_before_of_before {schedule : List Bool} {client : Bool} {done : Nat}
    (other : Before schedule (!client) done done) : ¬ Before schedule client done done := by
  rintro ⟨early, isPrefix, enough, few⟩
  obtain ⟨late, latePrefix, lateEnough, lateFew⟩ := other
  rw [Bool.not_not] at lateFew
  rcases List.prefix_or_prefix_of_prefix isPrefix latePrefix with shorter | shorter
  · have := shorter.sublist.count_le client
    omega
  · have := shorter.sublist.count_le (!client)
    omega

theorem count_concat_self (schedule : List Bool) (client : Bool) :
    (schedule ++ [client]).count client = schedule.count client + 1 := by
  rw [List.count_append, List.count_singleton_self]

theorem count_concat_other (schedule : List Bool) (client : Bool) :
    (schedule ++ [client]).count (!client) = schedule.count (!client) := by
  rw [List.count_append, List.count_singleton]
  cases client <;> rfl

open Classical in
noncomputable def seen (update : Bool → α → α) (start : α) (schedule : List Bool)
    (client : Bool) : α :=
  if Before schedule (!client) 3 2 then update (!client) start else start

theorem seen_concat (update : Bool → α → α) (start : α) {schedule : List Bool} {client : Bool}
    (mover : Bool) (read : 2 ≤ schedule.count client) :
    seen update start (schedule ++ [mover]) client = seen update start schedule client := by
  have same : Before (schedule ++ [mover]) (!client) 3 2 ↔ Before schedule (!client) 3 2 := by
    rw [before_concat, Bool.not_not]
    refine ⟨fun either => either.resolve_right ?_, Or.inl⟩
    rintro ⟨-, few⟩
    rw [List.count_append] at few
    omega
  unfold seen
  by_cases before : Before schedule (!client) 3 2
  · rw [if_pos (same.mpr before), if_pos before]
  · rw [if_neg (mt same.mp before), if_neg before]

/-- What the counts of a schedule say about the state it leads to. -/
structure Tracks (update : Bool → α → α) (start : α) (schedule : List Bool) (state : Shared α) :
    Prop where
  idle : ∀ client, schedule.count client = 0 → state.phase client = .idle
  ready : ∀ client, schedule.count client = 1 → state.phase client = .ready
  holding : ∀ client, schedule.count client = 2 →
    state.phase client = .holding (seen update start schedule client)
  finished : ∀ client, 3 ≤ schedule.count client → state.phase client = .finished
  untouched : (∀ client, schedule.count client < 3) → state.value = start
  once : ∀ client, 3 ≤ schedule.count client → schedule.count (!client) < 3 →
    state.value = update client start
  twice : ∀ client, 3 ≤ schedule.count (!client) → Before schedule client 3 3 →
    state.value = update (!client) (seen update start schedule (!client))

section Step

variable {update : Bool → α → α} {start : α} {schedule : List Bool} {state : Shared α}
  {mover : Bool}

/-- Steps other than writes keep the value, and what the counts say about it. -/
theorem Tracks.value_concat (tracks : Tracks update start schedule state) (mover : Bool)
    (quiet : schedule.count mover ≠ 2) {next : Shared α} (value : next.value = state.value) :
    ((∀ client, (schedule ++ [mover]).count client < 3) → next.value = start) ∧
    (∀ client, 3 ≤ (schedule ++ [mover]).count client →
      (schedule ++ [mover]).count (!client) < 3 → next.value = update client start) ∧
    ∀ client, 3 ≤ (schedule ++ [mover]).count (!client) → Before (schedule ++ [mover]) client 3 3 →
      next.value = update (!client) (seen update start (schedule ++ [mover]) (!client)) := by
  have self := count_concat_self schedule mover
  have other := count_concat_other schedule mover
  have crossed : ∀ client, 3 ≤ (schedule ++ [mover]).count client ↔ 3 ≤ schedule.count client := by
    intro client
    rcases client_cases client mover with rfl | rfl
    · omega
    · omega
  rw [value]
  refine ⟨?_, ?_, ?_⟩
  · intro few
    apply tracks.untouched
    intro client
    have := few client
    have := crossed client
    omega
  · intro client enough few
    have := crossed (!client)
    exact tracks.once client ((crossed client).mp enough) (by omega)
  · intro client enough before
    have finished := (crossed (!client)).mp enough
    rw [seen_concat update start mover (by omega)]
    apply tracks.twice client finished
    refine (before_concat.mp before).elim id ?_
    rintro ⟨-, few⟩
    omega

/-- The phase of the client that moves decides the phases after the step. -/
theorem Tracks.of_mover (tracks : Tracks update start schedule state) {next : Shared α}
    (others : next.phase (!mover) = state.phase (!mover))
    (ready : schedule.count mover = 0 → next.phase mover = .ready)
    (holding : schedule.count mover = 1 →
      next.phase mover = .holding (seen update start (schedule ++ [mover]) mover))
    (finished : 2 ≤ schedule.count mover → next.phase mover = .finished)
    (untouched : (∀ client, (schedule ++ [mover]).count client < 3) → next.value = start)
    (once : ∀ client, 3 ≤ (schedule ++ [mover]).count client →
      (schedule ++ [mover]).count (!client) < 3 → next.value = update client start)
    (twice : ∀ client, 3 ≤ (schedule ++ [mover]).count (!client) →
      Before (schedule ++ [mover]) client 3 3 →
        next.value = update (!client) (seen update start (schedule ++ [mover]) (!client))) :
    Tracks update start (schedule ++ [mover]) next := by
  have self := count_concat_self schedule mover
  have other := count_concat_other schedule mover
  refine ⟨?_, ?_, ?_, ?_, untouched, once, twice⟩
  · intro client count
    rcases client_cases client mover with rfl | rfl
    · omega
    · rw [others]
      exact tracks.idle _ (by omega)
  · intro client count
    rcases client_cases client mover with rfl | rfl
    · exact ready (by omega)
    · rw [others]
      exact tracks.ready _ (by omega)
  · intro client count
    rcases client_cases client mover with rfl | rfl
    · exact holding (by omega)
    · rw [others, seen_concat update start mover (by omega)]
      exact tracks.holding _ (by omega)
  · intro client count
    rcases client_cases client mover with rfl | rfl
    · exact finished (by omega)
    · rw [others]
      exact tracks.finished _ (by omega)

theorem Tracks.value_eq_seen (tracks : Tracks update start schedule state)
    (reading : schedule.count mover = 1) :
    state.value = seen update start (schedule ++ [mover]) mover := by
  have self := count_concat_self schedule mover
  unfold seen
  by_cases wrote : 3 ≤ schedule.count (!mover)
  · have before : Before (schedule ++ [mover]) (!mover) 3 2 := by
      refine before_concat.mpr (Or.inl (before_of_count wrote ?_))
      rw [Bool.not_not]
      omega
    rw [if_pos before]
    refine tracks.once (!mover) wrote ?_
    rw [Bool.not_not]
    omega
  · have notBefore : ¬ Before (schedule ++ [mover]) (!mover) 3 2 := by
      intro before
      have enough := before.count
      rw [count_concat_other] at enough
      exact wrote enough
    rw [if_neg notBefore]
    apply tracks.untouched
    intro client
    rcases client_cases client mover with rfl | rfl
    · omega
    · omega

/-- One step. -/
theorem Tracks.advance (tracks : Tracks update start schedule state) (mover : Bool) :
    Tracks update start (schedule ++ [mover]) (advance update state mover) := by
  have self := count_concat_self schedule mover
  have other := count_concat_other schedule mover
  have different : (!mover) ≠ mover := by cases mover <;> decide
  unfold Interleaving.advance
  obtain zero | one | two | many : schedule.count mover = 0 ∨ schedule.count mover = 1 ∨
      schedule.count mover = 2 ∨ 3 ≤ schedule.count mover := by omega
  · rw [tracks.idle mover zero]
    obtain ⟨untouched, once, twice⟩ := tracks.value_concat mover (by omega) rfl
    refine tracks.of_mover (Function.update_of_ne different _ _) ?_ ?_ ?_ untouched once twice
    · exact fun _ => Function.update_self _ _ _
    · intro impossible
      omega
    · intro impossible
      omega
  · rw [tracks.ready mover one]
    obtain ⟨untouched, once, twice⟩ := tracks.value_concat mover (by omega) rfl
    refine tracks.of_mover (Function.update_of_ne different _ _) ?_ ?_ ?_ untouched once twice
    · intro impossible
      omega
    · intro _
      rw [← tracks.value_eq_seen one]
      exact Function.update_self _ _ _
    · intro impossible
      omega
  · rw [tracks.holding mover two]
    refine tracks.of_mover (Function.update_of_ne different _ _) ?_ ?_ ?_ ?_ ?_ ?_
    · intro impossible
      omega
    · intro impossible
      omega
    · exact fun _ => Function.update_self _ _ _
    · intro few
      have := few mover
      omega
    · -- The other client has not written, so the start is what was read.
      intro client enough few
      rcases client_cases client mover with rfl | rfl
      · have unread : ¬ Before schedule (!client) 3 2 := fun before => by
          have := before.count
          omega
        unfold seen
        rw [if_neg unread]
      · rw [Bool.not_not] at few
        omega
    · intro client enough before
      rcases client_cases client mover with rfl | rfl
      · -- The mover writes last, so it was not before the other.
        rcases before_concat.mp before with early | ⟨-, few⟩
        · have := early.count
          omega
        · omega
      · rw [Bool.not_not, seen_concat update start mover (by omega)]
  · rw [tracks.finished mover many]
    obtain ⟨untouched, once, twice⟩ := tracks.value_concat mover (by omega) rfl
    refine tracks.of_mover rfl ?_ ?_ ?_ untouched once twice
    · intro impossible
      omega
    · intro impossible
      omega
    · exact fun _ => tracks.finished mover many

end Step

theorem tracks_nil (update : Bool → α → α) (start : α) :
    Tracks update start [] { value := start, phase := fun _ => .idle } := by
  refine ⟨fun _ _ => rfl, ?_, ?_, ?_, fun _ => rfl, ?_, ?_⟩
  all_goals
    intro client count
    simp at count

theorem tracks_run (update : Bool → α → α) (start : α) (schedule : List Bool) :
    Tracks update start schedule (run update start schedule) := by
  induction schedule using List.reverseRecOn with
  | nil => exact tracks_nil update start
  | append_singleton schedule mover ih =>
      unfold run
      rw [List.foldl_append]
      exact ih.advance mover

section Outcome

variable {update : Bool → α → α} {start : α} {schedule : List Bool} {client : Bool}

theorem run_of_serial (finished : 3 ≤ schedule.count (!client))
    (serial : Before schedule client 3 2) :
    (run update start schedule).value = update (!client) (update client start) := by
  have tracks := tracks_run update start schedule
  have later : Before schedule client 3 3 := by
    obtain ⟨early, isPrefix, enough, few⟩ := serial
    exact ⟨early, isPrefix, enough, Nat.lt_of_lt_of_le few (by omega)⟩
  rw [tracks.twice client finished later]
  unfold seen
  rw [Bool.not_not, if_pos serial]

theorem run_of_lost (finished : 3 ≤ schedule.count (!client))
    (first : Before schedule client 3 3) (overlap : ¬ Before schedule client 3 2) :
    (run update start schedule).value = update (!client) start := by
  have tracks := tracks_run update start schedule
  rw [tracks.twice client finished first]
  unfold seen
  rw [Bool.not_not, if_neg overlap]

theorem exists_first (finished : ∀ client, 3 ≤ schedule.count client) :
    ∃ client, Before schedule client 3 3 := by
  induction schedule using List.reverseRecOn with
  | nil =>
      have := finished true
      simp at this
  | append_singleton schedule mover ih =>
      by_cases both : ∀ client, 3 ≤ schedule.count client
      · obtain ⟨client, before⟩ := ih both
        exact ⟨client, before_concat.mpr (Or.inl before)⟩
      · have other := count_concat_other schedule mover
        have self := count_concat_self schedule mover
        have few : schedule.count mover < 3 := by
          by_contra enough
          apply both
          intro client
          have := finished client
          rcases client_cases client mover with rfl | rfl
          · omega
          · omega
        refine ⟨!mover, before_concat.mpr (Or.inl (before_of_count ?_ ?_))⟩
        · have := finished (!mover)
          omega
        · rw [Bool.not_not]
          exact few

end Outcome

end Library.Interleaving
