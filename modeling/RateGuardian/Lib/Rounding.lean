import Mathlib.Algebra.Order.Floor.Ring
import Mathlib.Algebra.Order.Field.Basic
import Mathlib.Algebra.Group.Int.Even
import Mathlib.Data.Int.Log

/-!
# RateGuardian.Lib.Rounding

**Rounding, to a number of decimals and to a floating-point number.** Both go to the nearest value
and on a tie to the even neighbour, and both come down to `roundHalfEven`, the rounding to an
integer, on a rescaled argument:

* `roundTo` rescales by a power of ten, and is what a `round(x, digits)` does with the exact value
  of its argument; and
* `binary64` rescales by the unit in the last place, and is what every arithmetic operation on
  doubles does with the exact result.

What is used of either is that it does not cross integers. A value between two integers is rounded
to a value between them: `le_roundTo` and `roundTo_le` for the decimals, `binary64_nonneg` and
`binary64_le` for the doubles, there for zero and for an integer that is itself a double.
-/

namespace RateGuardian.Lib

variable {K : Type*} [Field K] [LinearOrder K] [IsStrictOrderedRing K] [FloorRing K]

/-- The nearest integer, and the even one of two that are equally near. -/
def roundHalfEven (x : K) : ℤ :=
  if Int.fract x * 2 < 1 then ⌊x⌋
  else if 1 < Int.fract x * 2 then ⌊x⌋ + 1
  else if Even ⌊x⌋ then ⌊x⌋ else ⌊x⌋ + 1

/-- The nearest decimal fraction with so many digits after the point. -/
def roundTo (digits : ℕ) (x : K) : K := roundHalfEven (x * 10 ^ digits) / 10 ^ digits

/-- The unit in the last place of a double: its significand has 53 bits, and the first of them is
worth the largest power of two that is not above the number. -/
def ulp (x : K) : K := 2 ^ (Int.log 2 |x| - 52)

/-- The nearest double. The range of the exponents is not bounded here, so that nothing overflows
and there are no subnormal numbers. -/
def binary64 (x : K) : K := if x = 0 then 0 else roundHalfEven (x / ulp x) * ulp x

variable {x : K} {n : ℤ}

/-- Rounding to an integer stays at the floor, or goes up from strictly above it. -/
theorem roundHalfEven_cases (x : K) :
    roundHalfEven x = ⌊x⌋ ∨ (roundHalfEven x = ⌊x⌋ + 1 ∧ 0 < Int.fract x) := by
  by_cases hlow : Int.fract x * 2 < 1
  · exact Or.inl (if_pos hlow)
  · have hpos : 0 < Int.fract x := by
      by_contra hneg
      have hzero : Int.fract x = 0 := le_antisymm (not_lt.mp hneg) (Int.fract_nonneg x)
      rw [hzero, zero_mul] at hlow
      exact hlow one_pos
    rw [roundHalfEven, if_neg hlow]
    split
    · exact Or.inr ⟨rfl, hpos⟩
    · split
      · exact Or.inl rfl
      · exact Or.inr ⟨rfl, hpos⟩

theorem le_roundHalfEven (h : (n : K) ≤ x) : n ≤ roundHalfEven x := by
  have hfloor : n ≤ ⌊x⌋ := Int.le_floor.mpr h
  rcases roundHalfEven_cases x with heq | ⟨heq, -⟩
  · rw [heq]
    exact hfloor
  · rw [heq]
    exact hfloor.trans (Int.le_add_one le_rfl)

theorem roundHalfEven_le (h : x ≤ n) : roundHalfEven x ≤ n := by
  have hfloor : ⌊x⌋ ≤ n := Int.cast_le.mp ((Int.floor_le x).trans h)
  rcases roundHalfEven_cases x with heq | ⟨heq, hpos⟩
  · rw [heq]
    exact hfloor
  · -- `x` is strictly above its floor, and `n` is not below `x`
    have hlt : (⌊x⌋ : K) < n := (sub_pos.mp hpos).trans_le h
    rw [heq]
    exact Int.add_one_le_of_lt (Int.cast_lt.mp hlt)

theorem le_roundTo (digits : ℕ) (h : (n : K) ≤ x) : (n : K) ≤ roundTo digits x := by
  have hpow : (0 : K) < 10 ^ digits := pow_pos (by norm_num) digits
  have hscaled : ((n * 10 ^ digits : ℤ) : K) ≤ x * 10 ^ digits := by
    push_cast
    exact mul_le_mul_of_nonneg_right h hpow.le
  rw [roundTo, le_div_iff₀ hpow]
  have hround := Int.cast_le (R := K) |>.mpr (le_roundHalfEven hscaled)
  push_cast at hround
  exact hround

theorem roundTo_le (digits : ℕ) (h : x ≤ n) : roundTo digits x ≤ n := by
  have hpow : (0 : K) < 10 ^ digits := pow_pos (by norm_num) digits
  have hscaled : x * 10 ^ digits ≤ ((n * 10 ^ digits : ℤ) : K) := by
    push_cast
    exact mul_le_mul_of_nonneg_right h hpow.le
  rw [roundTo, div_le_iff₀ hpow]
  have hround := Int.cast_le (R := K) |>.mpr (roundHalfEven_le hscaled)
  push_cast at hround
  exact hround

/-! ### Doubles -/

theorem ulp_pos (x : K) : 0 < ulp x := zpow_pos (by norm_num) _

/-- A positive number is not below the power of two that its unit is taken from. -/
theorem zpow_le_of_pos (h : 0 < x) : (2 : K) ^ Int.log 2 |x| ≤ x := by
  have hlog := Int.zpow_log_le_self (b := 2) (r := x) one_lt_two h
  rw [abs_of_pos h]
  exact_mod_cast hlog

/-- In units of a number below `2 ^ 53`, integers are integers. -/
theorem exists_units (n : ℤ) (h : 0 < x) (hlt : x < 2 ^ 53) : ∃ m : ℤ, (m : K) * ulp x = n := by
  have hlog : Int.log 2 |x| ≤ 52 := by
    by_contra hlarge
    have hpow : (2 : K) ^ (53 : ℤ) ≤ 2 ^ Int.log 2 |x| :=
      zpow_le_zpow_right₀ one_le_two (by omega)
    have hle : (2 : K) ^ (53 : ℤ) ≤ x := hpow.trans (zpow_le_of_pos h)
    exact absurd hlt (not_lt.mpr (by exact_mod_cast hle))
  obtain ⟨k, hk⟩ := Int.eq_ofNat_of_zero_le (sub_nonneg.mpr hlog)
  refine ⟨n * 2 ^ k, ?_⟩
  have hexp : Int.log 2 |x| - 52 = -(k : ℤ) := by omega
  have htwo : (2 : K) ^ k ≠ 0 := pow_ne_zero k two_ne_zero
  rw [ulp, hexp, zpow_neg, zpow_natCast]
  push_cast
  field_simp

/-- Rounding to a double does not go below zero, which is a double. -/
theorem binary64_nonneg (h : 0 ≤ x) : 0 ≤ binary64 x := by
  rcases h.eq_or_lt with heq | hpos
  · rw [binary64, if_pos heq.symm]
  · have hscaled : ((0 : ℤ) : K) ≤ x / ulp x := by
      rw [Int.cast_zero]
      exact (div_pos hpos (ulp_pos x)).le
    rw [binary64, if_neg hpos.ne']
    exact mul_nonneg (Int.cast_nonneg (le_roundHalfEven hscaled)) (ulp_pos x).le

/-- Rounding to a double does not go above an integer that has at most 53 bits. -/
theorem binary64_le (hn : n < 2 ^ 53) (h0 : 0 ≤ x) (h : x ≤ n) : binary64 x ≤ n := by
  rcases h0.eq_or_lt with heq | hpos
  · rw [binary64, if_pos heq.symm]
    exact h0.trans h
  · have hlt : x < 2 ^ 53 := h.trans_lt (by exact_mod_cast hn)
    obtain ⟨m, hm⟩ := exists_units n hpos hlt
    have hscaled : x / ulp x ≤ m := by
      rw [div_le_iff₀ (ulp_pos x), hm]
      exact h
    have hround : (roundHalfEven (x / ulp x) : K) ≤ m := Int.cast_le.mpr (roundHalfEven_le hscaled)
    rw [binary64, if_neg hpos.ne']
    calc (roundHalfEven (x / ulp x) : K) * ulp x ≤ m * ulp x :=
          mul_le_mul_of_nonneg_right hround (ulp_pos x).le
      _ = n := hm

end RateGuardian.Lib
