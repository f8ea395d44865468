import Mathlib
set_option autoImplicit false

/-!
# Rounding to the nearest integer

Halfway between two integers the even one is taken.
-/

namespace Repercep.Foundation

variable {F : Type} [Field F] [LinearOrder F] [FloorRing F]

/-- The nearest integer, the even one at a tie. -/
def roundEven (x : F) : Int :=
  let n := ⌊x⌋
  if x - n < 1 / 2 then n
  else if 1 / 2 < x - n then n + 1
  else if n % 2 = 0 then n
  else n + 1

variable [IsStrictOrderedRing F]

theorem roundEven_error (x : F) : |(roundEven x : F) - x| ≤ 1 / 2 := by
  have hlow := Int.floor_le x
  have hhigh := Int.lt_floor_add_one x
  rw [roundEven, abs_le]
  split
  · exact ⟨by linarith, by linarith⟩
  · split
    · rw [Int.cast_add, Int.cast_one]
      exact ⟨by linarith, by linarith⟩
    · split
      · exact ⟨by linarith, by linarith⟩
      · rw [Int.cast_add, Int.cast_one]
        exact ⟨by linarith, by linarith⟩

/-- Only zero is nearest to a number less than a half. -/
theorem roundEven_small {x : F} (h : |x| < 1 / 2) : roundEven x = 0 := by
  have herror := abs_le.mp (roundEven_error x)
  have hx := abs_lt.mp h
  have hlow : ((-1 : Int) : F) < (roundEven x : F) := by
    rw [Int.cast_neg, Int.cast_one]
    linarith
  have hhigh : (roundEven x : F) < ((1 : Int) : F) := by
    rw [Int.cast_one]
    linarith
  have hlow' := Int.cast_lt.mp hlow
  have hhigh' := Int.cast_lt.mp hhigh
  omega

theorem roundEven_intCast (n : Int) : roundEven (n : F) = n := by
  have herror := abs_le.mp (roundEven_error (n : F))
  have hlow : ((n - 1 : Int) : F) < (roundEven (n : F) : F) := by
    rw [Int.cast_sub, Int.cast_one]
    linarith
  have hhigh : (roundEven (n : F) : F) < ((n + 1 : Int) : F) := by
    rw [Int.cast_add, Int.cast_one]
    linarith
  have hlow' := Int.cast_lt.mp hlow
  have hhigh' := Int.cast_lt.mp hhigh
  omega

/-- On a grid of step `h`, the nearest point is half a step away at most. -/
theorem roundEven_scaled {h : F} (hh : 0 < h) (x : F) :
    |(roundEven (x / h) : F) * h - x| ≤ h / 2 := by
  have hpull : (roundEven (x / h) : F) * h - x = ((roundEven (x / h) : F) - x / h) * h := by
    rw [sub_mul, div_mul_cancel₀ x (ne_of_gt hh)]
  rw [hpull, abs_mul, abs_of_pos hh]
  calc |(roundEven (x / h) : F) - x / h| * h ≤ 1 / 2 * h :=
        mul_le_mul_of_nonneg_right (roundEven_error (x / h)) hh.le
    _ = h / 2 := one_div_mul_eq_div 2 h

theorem roundEven_mono {x y : F} (h : x ≤ y) : roundEven x ≤ roundEven y := by
  by_contra hlt
  have hstep : ((roundEven y + 1 : Int) : F) ≤ (roundEven x : F) :=
    Int.cast_le.mpr (by omega)
  rw [Int.cast_add, Int.cast_one] at hstep
  -- two integers apart by one, both within a half: the same number halfway between them
  have hx := (abs_le.mp (roundEven_error x)).2
  have hy := (abs_le.mp (roundEven_error y)).1
  have hxy : x = y := le_antisymm h (by linarith)
  rw [hxy] at hlt
  exact hlt le_rfl

/-- Rounding stays between two integers. -/
theorem roundEven_mem {x : F} {a b : Int} (ha : (a : F) ≤ x) (hb : x ≤ (b : F)) :
    a ≤ roundEven x ∧ roundEven x ≤ b := by
  constructor
  · have hmono := roundEven_mono ha
    rwa [roundEven_intCast] at hmono
  · have hmono := roundEven_mono hb
    rwa [roundEven_intCast] at hmono

end Repercep.Foundation
