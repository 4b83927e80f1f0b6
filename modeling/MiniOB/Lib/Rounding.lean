import Mathlib

/-!
# Rounding to floating point numbers

A rational number is rounded to the nearest one with a significand of `p` bits, and to the even
one of two that are equally near. Exponents have no bounds. Rounding leaves the numbers with such
a significand as they are, and its relative error is at most `2 ^ (-p)`.
-/

namespace Rounding

/-! ### Rounding to integers -/

/-- The nearest integer, and the even one of two. -/
def nearest (x : ℚ) : ℤ :=
  if Int.fract x < 1 / 2 then ⌊x⌋
  else if 1 / 2 < Int.fract x then ⌊x⌋ + 1
  else if ⌊x⌋ % 2 = 0 then ⌊x⌋
  else ⌊x⌋ + 1

theorem nearest_intCast (n : ℤ) : nearest n = n := by
  rw [nearest, Int.fract_intCast, if_pos (by norm_num), Int.floor_intCast]

theorem abs_nearest_sub_le (x : ℚ) : |nearest x - x| ≤ 1 / 2 := by
  have hfloor := Int.self_sub_floor x
  have hpos := Int.fract_nonneg x
  have hlt := Int.fract_lt_one x
  rw [nearest, abs_le]
  split_ifs with hlow hhigh heven
  · constructor <;> linarith
  · push_cast
    constructor <;> linarith
  · constructor <;> linarith
  · push_cast
    constructor <;> linarith

/-! ### Rounding to a significand -/

/-- The exponent of the last bit of a significand of `p` bits for `x`. -/
def lastBit (p : ℕ) (x : ℚ) : ℤ := Int.log 2 |x| - p + 1

/-- The nearest number with a significand of `p` bits. -/
def roundTo (p : ℕ) (x : ℚ) : ℚ := nearest (x / 2 ^ lastBit p x) * 2 ^ lastBit p x

theorem abs_roundTo_sub_le (p : ℕ) (x : ℚ) : |roundTo p x - x| ≤ |x| / 2 ^ p := by
  by_cases hx : x = 0
  · subst hx
    simp [roundTo, nearest]
  have hpos : (0 : ℚ) < 2 ^ lastBit p x := by positivity
  have herror := abs_nearest_sub_le (x / 2 ^ lastBit p x)
  have hsplit : roundTo p x - x =
      (nearest (x / 2 ^ lastBit p x) - x / 2 ^ lastBit p x) * 2 ^ lastBit p x := by
    rw [roundTo, sub_mul, div_mul_cancel₀ _ hpos.ne']
  have hlog : (2 : ℚ) ^ Int.log 2 |x| ≤ |x| :=
    mod_cast Int.zpow_log_le_self (R := ℚ) (b := 2) (by norm_num) (abs_pos.mpr hx)
  have hbit : (2 : ℚ) ^ lastBit p x = 2 ^ Int.log 2 |x| / 2 ^ p * 2 := by
    rw [lastBit, zpow_add₀ two_ne_zero, zpow_sub₀ two_ne_zero, zpow_natCast, zpow_one]
  calc |roundTo p x - x|
      = |nearest (x / 2 ^ lastBit p x) - x / 2 ^ lastBit p x| * 2 ^ lastBit p x := by
        rw [hsplit, abs_mul, abs_of_pos hpos]
    _ ≤ 1 / 2 * 2 ^ lastBit p x := mul_le_mul_of_nonneg_right herror hpos.le
    _ = 2 ^ Int.log 2 |x| / 2 ^ p := by rw [hbit]; ring
    _ ≤ |x| / 2 ^ p := div_le_div_of_nonneg_right hlog (by positivity)

/-- A number with a significand of `p` bits is left as it is. -/
theorem roundTo_of_significand {p : ℕ} {m e : ℤ} (hm : |m| < 2 ^ p) :
  roundTo p (m * 2 ^ e) = m * 2 ^ e
  := by
  by_cases hzero : m = 0
  · subst hzero
    simp [roundTo, nearest]
  have hpos : (0 : ℚ) < |(m : ℚ) * 2 ^ e| := abs_pos.mpr (by positivity)
  have hlog : Int.log 2 |(m : ℚ) * 2 ^ e| < p + e := by
    rw [← Int.lt_zpow_iff_log_lt (by norm_num) hpos, abs_mul, abs_of_pos (by positivity : (0 : ℚ) < 2 ^ e)]
    push_cast
    rw [zpow_add₀ two_ne_zero, zpow_natCast]
    exact mul_lt_mul_of_pos_right (mod_cast hm) (by positivity)
  obtain ⟨k, hk⟩ : ∃ k : ℕ, e = lastBit p (m * 2 ^ e) + k :=
    ⟨(e - lastBit p (m * 2 ^ e)).toNat, by rw [lastBit]; omega⟩
  have hquotient : (m : ℚ) * 2 ^ e / 2 ^ lastBit p (m * 2 ^ e) = ((m * 2 ^ k : ℤ) : ℚ) := by
    set b := lastBit p (m * 2 ^ e)
    rw [hk, zpow_add₀ two_ne_zero, zpow_natCast]
    push_cast
    field_simp
  rw [roundTo, hquotient, nearest_intCast]
  conv_rhs => rw [hk, zpow_add₀ two_ne_zero, zpow_natCast]
  push_cast
  ring

theorem roundTo_intCast {p : ℕ} {n : ℤ} (hn : |n| < 2 ^ p) : roundTo p n = n := by
  have hround := roundTo_of_significand (e := 0) hn
  simpa using hround

/-! ### Quotients -/

/-- Cutting down a quotient of integers that has been rounded gives the quotient without rest:
the error is less than the distance of a quotient with a rest to the next integer. -/
theorem floor_roundTo_div {p : ℕ} {a b : ℤ} (ha : 0 ≤ a) (hb : 0 < b) (hsmall : a < 2 ^ p) :
  ⌊roundTo p (a / b)⌋ = a / b
  := by
  have hb' : (0 : ℚ) < b := mod_cast hb
  have hdiv : (a : ℚ) = b * (a / b : ℤ) + (a % b : ℤ) := mod_cast (Int.mul_ediv_add_emod a b).symm
  have hmod := Int.emod_nonneg a hb.ne'
  have hlt := Int.emod_lt_of_pos a hb
  by_cases hrest : a % b = 0
  · have hquotient : (a : ℚ) / b = ((a / b : ℤ) : ℚ) := by
      rw [hrest, Int.cast_zero, add_zero] at hdiv
      rw [div_eq_iff hb'.ne', mul_comm]
      exact hdiv
    have hbound : |a / b| < 2 ^ p := by
      rw [abs_of_nonneg (Int.ediv_nonneg ha hb.le)]
      exact (Int.ediv_le_self b ha).trans_lt hsmall
    rw [hquotient, roundTo_intCast hbound, Int.floor_intCast]
  · have herror := abs_roundTo_sub_le p ((a : ℚ) / b)
    have hquotient : (a : ℚ) / b = (a / b : ℤ) + (a % b : ℤ) / b := by
      rw [div_eq_iff hb'.ne', add_mul, div_mul_cancel₀ _ hb'.ne', mul_comm]
      exact hdiv
    have hless : |(a : ℚ) / b| / 2 ^ p < 1 / b := by
      rw [abs_of_nonneg (by positivity), div_div, div_lt_div_iff₀ (by positivity) hb', one_mul,
        mul_comm]
      exact mul_lt_mul_of_pos_left (mod_cast hsmall) hb'
    have hlow : (1 : ℚ) / b ≤ (a % b : ℤ) / b := by
      apply div_le_div_of_nonneg_right _ hb'.le
      exact_mod_cast (show 1 ≤ a % b by omega)
    have hhigh : ((a % b : ℤ) : ℚ) / b ≤ 1 - 1 / b := by
      rw [le_sub_iff_add_le, ← add_div, div_le_one hb']
      exact_mod_cast (show a % b + 1 ≤ b by omega)
    obtain ⟨hlower, hupper⟩ := abs_le.mp herror
    rw [Int.floor_eq_iff]
    constructor <;> linarith

end Rounding
