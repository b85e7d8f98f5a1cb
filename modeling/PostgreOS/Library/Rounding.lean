/-
Rounding to a number of binary digits.

A floating-point number is an integer times a power of two whose integer has at most so many
digits. A result is the nearest such number, and of two equally near ones the one whose last
digit is even. Exponents are not bounded.
-/

import Mathlib.Data.Int.Log
import Mathlib.Data.Rat.Floor
import Mathlib.Tactic.Linarith
import Mathlib.Tactic.Ring

namespace Library.Rounding

def roundEven (x : ℚ) : ℤ :=
  let below := ⌊x⌋
  if x - below < 1 / 2 then below
  else if 1 / 2 < x - below then below + 1
  else if below % 2 = 0 then below
  else below + 1

theorem abs_roundEven_sub_le (x : ℚ) : |(roundEven x : ℚ) - x| ≤ 1 / 2 := by
  have lower := Int.floor_le x
  have upper := Int.lt_floor_add_one x
  unfold roundEven
  dsimp only
  rw [abs_le]
  split
  · constructor <;> linarith
  · split
    · push_cast
      constructor <;> linarith
    · split
      · constructor <;> linarith
      · push_cast
        constructor <;> linarith

theorem roundEven_eq {x : ℚ} {n : ℤ} (near : |x - n| < 1 / 2) : roundEven x = n := by
  have rounded := abs_le.mp (abs_roundEven_sub_le x)
  obtain ⟨lower, upper⟩ := abs_lt.mp near
  have below : ((roundEven x : ℤ) : ℚ) < ((n + 1 : ℤ) : ℚ) := by
    push_cast
    linarith
  have above : ((n : ℤ) : ℚ) < ((roundEven x + 1 : ℤ) : ℚ) := by
    push_cast
    linarith
  have first : roundEven x < n + 1 := Int.cast_lt.mp below
  have second : n < roundEven x + 1 := Int.cast_lt.mp above
  omega

@[simp] theorem roundEven_intCast (n : ℤ) : roundEven (n : ℚ) = n :=
  roundEven_eq (by simp)

/-! ### The nearest number -/

def lastPlace (digits : ℕ) (x : ℚ) : ℚ :=
  2 ^ (Int.log 2 |x| + 1 - digits)

def nearest (digits : ℕ) (x : ℚ) : ℚ :=
  roundEven (x / lastPlace digits x) * lastPlace digits x

theorem lastPlace_pos (digits : ℕ) (x : ℚ) : 0 < lastPlace digits x :=
  zpow_pos (by norm_num) _

@[simp] theorem nearest_zero (digits : ℕ) : nearest digits 0 = 0 := by
  unfold nearest
  rw [zero_div, ← Int.cast_zero, roundEven_intCast, Int.cast_zero, zero_mul]

theorem abs_nearest_sub_le_lastPlace (digits : ℕ) (x : ℚ) :
    |nearest digits x - x| ≤ lastPlace digits x / 2 := by
  have positive := lastPlace_pos digits x
  have rounded := abs_roundEven_sub_le (x / lastPlace digits x)
  have scaled : nearest digits x - x =
      (roundEven (x / lastPlace digits x) - x / lastPlace digits x) * lastPlace digits x := by
    unfold nearest
    rw [sub_mul, div_mul_cancel₀ x positive.ne']
  rw [scaled, abs_mul, abs_of_pos positive]
  calc |(roundEven (x / lastPlace digits x) : ℚ) - x / lastPlace digits x| * lastPlace digits x
      ≤ 1 / 2 * lastPlace digits x := mul_le_mul_of_nonneg_right rounded positive.le
    _ = lastPlace digits x / 2 := by ring

theorem abs_nearest_sub_le {digits : ℕ} {x : ℚ} {exponent : ℤ} (below : |x| < 2 ^ exponent) :
    |nearest digits x - x| ≤ 2 ^ (exponent - digits) / 2 := by
  by_cases zero : x = 0
  · rw [zero, nearest_zero, sub_zero, abs_zero]
    exact (half_pos (zpow_pos (by norm_num) _)).le
  · have log : Int.log 2 |x| < exponent :=
      (Int.lt_zpow_iff_log_lt (by norm_num) (abs_pos.mpr zero)).mp (by exact_mod_cast below)
    have place : lastPlace digits x ≤ 2 ^ (exponent - digits) :=
      zpow_le_zpow_right₀ (by norm_num) (by omega)
    exact (abs_nearest_sub_le_lastPlace digits x).trans (by linarith)

/-- An integer with so many digits, times a power of two, is its own rounding. -/
theorem nearest_eq_self {digits : ℕ} {m : ℤ} (short : |m| < 2 ^ digits) (exponent : ℤ) :
    nearest digits (m * 2 ^ exponent) = m * 2 ^ exponent := by
  by_cases zero : m = 0
  · rw [zero, Int.cast_zero, zero_mul, nearest_zero]
  · have power : (0 : ℚ) < 2 ^ exponent := zpow_pos (by norm_num) _
    have nonzero : (m : ℚ) * 2 ^ exponent ≠ 0 :=
      mul_ne_zero (Int.cast_ne_zero.mpr zero) power.ne'
    have below : |(m : ℚ) * 2 ^ exponent| < 2 ^ ((digits : ℤ) + exponent) := by
      rw [abs_mul, abs_of_pos power, zpow_add₀ (by norm_num), zpow_natCast]
      refine mul_lt_mul_of_pos_right ?_ power
      exact_mod_cast short
    have log : Int.log 2 |(m : ℚ) * 2 ^ exponent| < digits + exponent :=
      (Int.lt_zpow_iff_log_lt (by norm_num) (abs_pos.mpr nonzero)).mp (by exact_mod_cast below)
    obtain ⟨shift, shifted⟩ := Int.eq_ofNat_of_zero_le
      (show 0 ≤ exponent - (Int.log 2 |(m : ℚ) * 2 ^ exponent| + 1 - digits) by omega)
    have split : (2 : ℚ) ^ exponent =
        ((2 ^ shift : ℤ) : ℚ) * lastPlace digits (m * 2 ^ exponent) := by
      unfold lastPlace
      push_cast
      rw [← zpow_natCast, ← zpow_add₀ (by norm_num), ← shifted]
      congr 1
      omega
    have whole : (m : ℚ) * 2 ^ exponent / lastPlace digits (m * 2 ^ exponent) =
        ((m * 2 ^ shift : ℤ) : ℚ) := by
      rw [div_eq_iff (lastPlace_pos digits _).ne']
      conv_lhs => rw [split]
      push_cast
      ring
    unfold nearest
    rw [whole, roundEven_intCast, ← whole, div_mul_cancel₀ _ (lastPlace_pos digits _).ne']

theorem nearest_intCast {digits : ℕ} {m : ℤ} (short : |m| < 2 ^ digits) :
    nearest digits (m : ℚ) = m := by
  have same := nearest_eq_self short 0
  rwa [zpow_zero, mul_one] at same

end Library.Rounding
