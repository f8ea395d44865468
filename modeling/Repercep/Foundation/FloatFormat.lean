import Mathlib
import Repercep.Foundation.Rounding
set_option autoImplicit false

/-!
# Rounding to a binary floating-point format

A number is rounded to a multiple of its unit in the last place, a power of two that follows
the number down to the least exponent of the format and no further.
-/

namespace Repercep.Foundation

/-- The digits after the leading one, and the least exponent of a normal number. -/
structure FloatFormat where
  digits : Nat
  minExponent : Int

namespace FloatFormat

variable {F : Type} [Field F] [LinearOrder F] [FloorRing F] [IsStrictOrderedRing F]

/-- The unit in the last place. -/
def ulp (fmt : FloatFormat) (x : F) : F :=
  ((2 : Nat) : F) ^ (max (Int.log 2 |x|) fmt.minExponent - fmt.digits)

/-- The nearest number of the format, the even one at a tie. -/
def round (fmt : FloatFormat) (x : F) : F :=
  roundEven (x / fmt.ulp x) * fmt.ulp x

theorem ulp_pos (fmt : FloatFormat) (x : F) : 0 < fmt.ulp x :=
  zpow_pos (Nat.cast_pos.mpr Nat.two_pos) _

/-- The unit is relative to the number, or that of the least exponent. -/
theorem ulp_le (fmt : FloatFormat) {x : F} (hx : x ≠ 0) :
    fmt.ulp x ≤ |x| / 2 ^ fmt.digits + 2 ^ (fmt.minExponent - fmt.digits) := by
  have hrelative : (0 : F) ≤ |x| / 2 ^ fmt.digits := by positivity
  have hleast : (0 : F) ≤ 2 ^ (fmt.minExponent - fmt.digits) := by positivity
  rw [ulp, Nat.cast_ofNat]
  rcases le_total (Int.log 2 |x|) fmt.minExponent with hsub | hnormal
  · rw [max_eq_right hsub]
    exact le_add_of_nonneg_left hrelative
  · have hlog : (2 : F) ^ Int.log 2 |x| ≤ |x| := by
      exact_mod_cast Int.zpow_log_le_self (b := 2) (by norm_num) (abs_pos.mpr hx)
    rw [max_eq_left hnormal, zpow_sub₀ two_ne_zero, zpow_natCast]
    refine le_add_of_le_of_nonneg ?_ hleast
    exact div_le_div_of_nonneg_right hlog (by positivity)

/-- Rounding is half a unit off at most. -/
theorem round_error (fmt : FloatFormat) (x : F) :
    |fmt.round x - x| ≤ |x| / 2 ^ (fmt.digits + 1) + 2 ^ (fmt.minExponent - fmt.digits) / 2 := by
  by_cases hx : x = 0
  · have hzero : fmt.round x = 0 := by
      have hround : roundEven (0 : F) = 0 := by exact_mod_cast roundEven_intCast (F := F) 0
      rw [round, hx, zero_div, hround, Int.cast_zero, zero_mul]
    rw [hzero, hx, sub_zero, abs_zero, zero_div, zero_add]
    positivity
  · calc |fmt.round x - x| ≤ fmt.ulp x / 2 := roundEven_scaled (fmt.ulp_pos x) x
      _ ≤ (|x| / 2 ^ fmt.digits + 2 ^ (fmt.minExponent - fmt.digits)) / 2 :=
          div_le_div_of_nonneg_right (fmt.ulp_le hx) zero_le_two
      _ = |x| / 2 ^ (fmt.digits + 1) + 2 ^ (fmt.minExponent - fmt.digits) / 2 := by
          rw [add_div, div_div, pow_succ]

end FloatFormat

end Repercep.Foundation
