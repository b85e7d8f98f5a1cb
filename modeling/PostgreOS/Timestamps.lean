/-
How `to_timestamp` rounds.

Seconds and nanoseconds are added as doubles, which have about a quarter of a microsecond of
room for the seconds of our time. There the result is less than a microsecond off, so a whole
number of microseconds is stored exactly. Whole seconds are stored exactly for much longer.
-/

import PostgreOS.Operations.Directories

namespace PostgreOS

open Library.Rounding

/-- Seconds of the years from 1932 to 2037, and nanoseconds. -/
structure Recent (seconds nanoseconds : Int) : Prop where
  lower : -1200000000 ≤ seconds
  upper : seconds < 2147483647
  fraction : 0 ≤ nanoseconds ∧ nanoseconds < 1000000000

section Recent

variable {seconds nanoseconds : Int}

theorem doublePrecision_intCast {n : Int} (short : |n| < 9007199254740992) :
    doublePrecision n = n :=
  nearest_intCast short

theorem doublePrecision_near {x error : ℚ} {exponent : ℤ} (below : |x| < 2 ^ exponent)
    (half : (2 : ℚ) ^ (exponent - (53 : ℕ)) / 2 ≤ error) :
    -error ≤ doublePrecision x - x ∧ doublePrecision x - x ≤ error :=
  abs_le.mp ((abs_nearest_sub_le below).trans half)

theorem epochNumber_near (recent : Recent seconds nanoseconds) :
    |epochNumber seconds nanoseconds - (seconds + nanoseconds / 1000000000)| ≤
      1 / 2 ^ 23 + 1 / 2 ^ 54 := by
  obtain ⟨lower, upper, fraction⟩ := recent
  have start : (-1200000000 : ℚ) ≤ seconds := by exact_mod_cast lower
  have finish : (seconds : ℚ) ≤ 2147483646 := by exact_mod_cast Int.lt_add_one_iff.mp upper
  have nonneg : (0 : ℚ) ≤ nanoseconds := by exact_mod_cast fraction.1
  have below : (nanoseconds : ℚ) ≤ 999999999 := by exact_mod_cast Int.lt_add_one_iff.mp fraction.2
  have part : |(nanoseconds : ℚ) / 1000000000| < 2 ^ (0 : ℤ) := by
    rw [abs_of_nonneg (by positivity), zpow_zero]
    linarith
  obtain ⟨partLower, partUpper⟩ := doublePrecision_near part
    (show (2 : ℚ) ^ ((0 : ℤ) - (53 : ℕ)) / 2 ≤ 1 / 2 ^ 54 by norm_num)
  have total : |(seconds : ℚ) + doublePrecision (nanoseconds / 1000000000)| < 2 ^ (31 : ℤ) := by
    rw [abs_lt]
    norm_num at partLower partUpper ⊢
    constructor <;> linarith
  obtain ⟨totalLower, totalUpper⟩ := doublePrecision_near total
    (show (2 : ℚ) ^ ((31 : ℤ) - (53 : ℕ)) / 2 ≤ 1 / 2 ^ 23 by norm_num)
  unfold epochNumber
  rw [doublePrecision_intCast (n := seconds) (by rw [abs_lt]; omega),
    doublePrecision_intCast (n := nanoseconds) (by rw [abs_lt]; omega), abs_le]
  constructor <;> linarith

/-- A recent time is stored to the microsecond. -/
theorem timestampOf_near (recent : Recent seconds nanoseconds) :
    |timestampOf seconds nanoseconds * 1000 - (seconds * 1000000000 + nanoseconds)| < 1000 := by
  obtain ⟨sumLower, sumUpper⟩ := abs_le.mp (epochNumber_near recent)
  obtain ⟨lower, upper, fraction⟩ := recent
  have start : (-1200000000 : ℚ) ≤ seconds := by exact_mod_cast lower
  have finish : (seconds : ℚ) ≤ 2147483646 := by exact_mod_cast Int.lt_add_one_iff.mp upper
  have nonneg : (0 : ℚ) ≤ nanoseconds := by exact_mod_cast fraction.1
  have below : (nanoseconds : ℚ) ≤ 999999999 := by exact_mod_cast Int.lt_add_one_iff.mp fraction.2
  have since : |epochNumber seconds nanoseconds - 946684800| < 2 ^ (31 : ℤ) := by
    rw [abs_lt]
    norm_num at sumLower sumUpper ⊢
    constructor <;> linarith
  obtain ⟨sinceLower, sinceUpper⟩ := doublePrecision_near since
    (show (2 : ℚ) ^ ((31 : ℤ) - (53 : ℕ)) / 2 ≤ 1 / 2 ^ 23 by norm_num)
  have scaled : |doublePrecision (epochNumber seconds nanoseconds - 946684800) * 1000000| <
      2 ^ (51 : ℤ) := by
    rw [abs_lt]
    norm_num at sumLower sumUpper sinceLower sinceUpper ⊢
    constructor <;> linarith
  obtain ⟨scaledLower, scaledUpper⟩ := doublePrecision_near scaled
    (show (2 : ℚ) ^ ((51 : ℤ) - (53 : ℕ)) / 2 ≤ 1 / 8 by norm_num)
  obtain ⟨roundedLower, roundedUpper⟩ := abs_le.mp (abs_roundEven_sub_le (doublePrecision
    (doublePrecision (epochNumber seconds nanoseconds - 946684800) * 1000000)))
  have near : |((timestampOf seconds nanoseconds * 1000 -
      (seconds * 1000000000 + nanoseconds) : Int) : ℚ)| < (1000 : Int) := by
    unfold timestampOf
    rw [abs_lt]
    push_cast
    norm_num at sumLower sumUpper sinceLower sinceUpper scaledLower scaledUpper
    constructor <;> linarith
  exact_mod_cast near

theorem toTimestamp_of_recent (recent : Recent seconds nanoseconds) :
    toTimestamp seconds nanoseconds = .ok (timestampOf seconds nanoseconds) := by
  obtain ⟨sumLower, sumUpper⟩ := abs_le.mp (epochNumber_near recent)
  obtain ⟨nearLower, nearUpper⟩ := abs_lt.mp (timestampOf_near recent)
  obtain ⟨lower, upper, fraction⟩ := recent
  have start : (-1200000000 : ℚ) ≤ seconds := by exact_mod_cast lower
  have finish : (seconds : ℚ) ≤ 2147483646 := by exact_mod_cast Int.lt_add_one_iff.mp upper
  have nonneg : (0 : ℚ) ≤ nanoseconds := by exact_mod_cast fraction.1
  have below : (nanoseconds : ℚ) ≤ 999999999 := by exact_mod_cast Int.lt_add_one_iff.mp fraction.2
  norm_num at sumLower sumUpper
  unfold toTimestamp
  rw [if_neg, if_neg (by omega)]
  rw [not_or, not_lt, not_le]
  constructor <;> linarith

theorem toTimestamp_of_microseconds (recent : Recent seconds nanoseconds)
    (whole : nanoseconds % 1000 = 0) :
    toTimestamp seconds nanoseconds = .ok (seconds * 1000000 + nanoseconds / 1000) := by
  obtain ⟨nearLower, nearUpper⟩ := abs_lt.mp (timestampOf_near recent)
  have exact : timestampOf seconds nanoseconds = seconds * 1000000 + nanoseconds / 1000 := by
    omega
  rw [toTimestamp_of_recent recent, exact]

end Recent

/-! ### Whole seconds -/

/-- The microseconds from the year 2000 to a whole second are a double. -/
def CarriedSecond (seconds : Int) : Prop :=
  doublePrecision (((seconds - 946684800) * 1000000 : Int) : ℚ) =
    ((seconds - 946684800) * 1000000 : Int)

instance (seconds : Int) : Decidable (CarriedSecond seconds) :=
  inferInstanceAs (Decidable (_ = _))

theorem carriedSecond_of_le {seconds : Int} (near : |seconds - 946684800| ≤ 576460752303) :
    CarriedSecond seconds := by
  have digits : |15625 * (seconds - 946684800)| < 2 ^ 53 := by
    obtain ⟨lower, upper⟩ := abs_le.mp near
    rw [abs_lt]
    omega
  have short := nearest_eq_self digits 6
  have split : (((seconds - 946684800) * 1000000 : Int) : ℚ) =
      ((15625 * (seconds - 946684800) : Int) : ℚ) * 2 ^ (6 : ℤ) := by
    push_cast
    ring
  unfold CarriedSecond doublePrecision
  rw [split]
  exact short

/-- A whole second that is carried is stored exactly. -/
theorem toTimestamp_of_carried {seconds : Int} (carried : CarriedSecond seconds)
    (lower : -210866803200 ≤ seconds) (upper : seconds < 9224318016000) :
    toTimestamp seconds 0 = .ok (seconds * 1000000) := by
  have start : (-210866803200 : ℚ) ≤ seconds := by exact_mod_cast lower
  have finish : (seconds : ℚ) < 9224318016000 := by exact_mod_cast upper
  have number : epochNumber seconds 0 = seconds := by
    have none : doublePrecision (doublePrecision ((0 : Int) : ℚ) / 1000000000) = 0 := by
      unfold doublePrecision
      rw [Int.cast_zero, nearest_zero, zero_div, nearest_zero]
    have kept : doublePrecision (seconds : ℚ) = seconds :=
      doublePrecision_intCast (abs_lt.mpr ⟨by omega, by omega⟩)
    unfold epochNumber
    rw [none, kept, add_zero, kept]
  have since : doublePrecision ((seconds : ℚ) - 946684800) = ((seconds - 946684800 : Int) : ℚ) := by
    have kept := doublePrecision_intCast (n := seconds - 946684800) (by rw [abs_lt]; omega)
    push_cast at kept ⊢
    exact kept
  have time : timestampOf seconds 0 = seconds * 1000000 := by
    unfold timestampOf
    unfold CarriedSecond at carried
    push_cast at carried
    rw [number, since]
    push_cast
    rw [carried]
    have whole : ((seconds : ℚ) - 946684800) * 1000000 =
        (((seconds - 946684800) * 1000000 : Int) : ℚ) := by
      push_cast
      rfl
    rw [whole, roundEven_intCast]
    ring
  unfold toTimestamp
  rw [number, time, if_neg, if_neg (by omega)]
  rw [not_or, not_lt, not_le]
  exact ⟨start, finish⟩

end PostgreOS
