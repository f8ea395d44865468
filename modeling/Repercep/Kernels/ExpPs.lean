import Mathlib
import Repercep.Foundation.Rounding
set_option autoImplicit false

/-!
# The vectorised exponential of the AMX kernels

`exp_ps` clamps its argument from below, splits it at the nearest power of two and takes a
polynomial in what is left; the arguments it gets are never positive, so the power is one a
float can hold.  Here it is read over exact arithmetic, its constants as they are written.
The clamp makes it positive everywhere, at minus infinity too.
-/

namespace Repercep.Kernels

open Foundation

/-- What the literal 2 needs of every field, under one name. -/
theorem atLeastTwo_two : Nat.AtLeastTwo 2 := ⟨le_rfl⟩

attribute [local instance] atLeastTwo_two

variable {F : Type} [Field F] [LinearOrder F] [FloorRing F]

/-- The least argument `exp_ps` looks at. -/
def xMin : F :=
  -87.336544

/-- The polynomial for the fractional part. -/
def expPoly (g : F) : F :=
  let p : F := 0.00133335581
  let p := p * g + 0.00961812910
  let p := p * g + 0.05550410866
  let p := p * g + 0.24022650695
  let p := p * g + 0.5
  let p := p * g + 1
  p * g + 1

/-- What the clamp leaves of an argument. -/
def clampMin : WithBot F → F
  | ⊥ => xMin
  | (x : F) => max x xMin

/-- `exp_ps`, on one lane. -/
def expPs (x : WithBot F) : F :=
  let y : F := clampMin x * 1.44269504088896341
  let n := roundEven y
  let f := y - (n : F)
  let g := f * 0.69314718056
  expPoly g * (2 : F) ^ n

section Positive

variable [IsStrictOrderedRing F]

omit [FloorRing F] in
theorem abs_horner_le {a g A c : F} (ha : |a| ≤ A) (hg : |g| ≤ 7 / 20) (hc : 0 ≤ c) :
    |a * g + c| ≤ A * (7 / 20) + c :=
  calc |a * g + c| ≤ |a * g| + |c| := abs_add_le _ _
    _ = |a| * |g| + c := by rw [abs_mul, abs_of_nonneg hc]
    _ ≤ A * (7 / 20) + c :=
      add_le_add_left (mul_le_mul ha hg (abs_nonneg g) ((abs_nonneg a).trans ha)) c

omit [FloorRing F] in
/-- The polynomial near zero. -/
theorem expPoly_bounds {g : F} (hg : |g| ≤ 7 / 20) : 0 < expPoly g ∧ expPoly g ≤ 2 := by
  have h₀ : |(0.00133335581 : F)| ≤ 1 / 500 := by
    rw [abs_of_nonneg (by norm_num)]
    norm_num
  have h₁ := abs_horner_le h₀ hg (c := 0.00961812910) (by norm_num)
  have h₂ := abs_horner_le h₁ hg (c := 0.05550410866) (by norm_num)
  have h₃ := abs_horner_le h₂ hg (c := 0.24022650695) (by norm_num)
  have h₄ := abs_horner_le h₃ hg (c := 0.5) (by norm_num)
  have h₅ := abs_horner_le h₄ hg (c := 1) zero_le_one
  have h₆ := abs_le.mp (abs_horner_le h₅ hg (le_refl 0))
  rw [expPoly]
  constructor
  · norm_num at h₆ ⊢
    linarith [h₆.1]
  · norm_num at h₆ ⊢
    linarith [h₆.2]

/-- `exp_ps` in the parts it splits its argument into. -/
theorem expPs_split (x : WithBot F) :
    ∃ (n : Int) (g : F), |(n : F) - clampMin x * 1.44269504088896341| ≤ 1 / 2 ∧ |g| ≤ 7 / 20 ∧
      expPs x = expPoly g * 2 ^ n := by
  have herror := roundEven_error (clampMin x * 1.44269504088896341)
  refine ⟨_, _, herror, ?_, rfl⟩
  rw [abs_mul, abs_sub_comm, abs_of_nonneg (show (0 : F) ≤ 0.69314718056 by norm_num)]
  calc |(roundEven (clampMin x * 1.44269504088896341 : F) : F) -
        clampMin x * 1.44269504088896341| * 0.69314718056
      ≤ 1 / 2 * 0.69314718056 := mul_le_mul_of_nonneg_right herror (by norm_num)
    _ ≤ 7 / 20 := by norm_num

/-- No score, minus infinity included, gets the weight zero. -/
theorem expPs_pos (x : WithBot F) : 0 < expPs x := by
  obtain ⟨n, g, -, hg, hx⟩ := expPs_split x
  rw [hx]
  exact mul_pos (expPoly_bounds hg).1 (zpow_pos two_pos n)

/-- The weight of minus infinity is small all the same. -/
theorem expPs_bot_lt : (expPs ⊥ : F) * 127 < 1 / 2 := by
  obtain ⟨n, g, hn, hg, hx⟩ := expPs_split (⊥ : WithBot F)
  have hn' := (abs_le.mp hn).2
  have hsmall : (n : F) < ((-125 : Int) : F) := by
    have hclamp : clampMin (⊥ : WithBot F) = -87.336544 := rfl
    rw [hclamp] at hn'
    push_cast
    norm_num at hn' ⊢
    linarith
  have hpower : (2 : F) ^ n ≤ 2 ^ (-125 : Int) :=
    zpow_le_zpow_right₀ one_le_two (Int.cast_lt.mp hsmall).le
  rw [hx]
  calc expPoly g * 2 ^ n * 127 ≤ 2 * 2 ^ (-125 : Int) * 127 := by
        gcongr
        exact (expPoly_bounds hg).2
    _ < 1 / 2 := by norm_num

theorem expPs_zero : expPs ((0 : F) : WithBot F) = 1 := by
  have hclamp : clampMin ((0 : F) : WithBot F) = 0 := by
    have hmin : (-87.336544 : F) ≤ 0 := by norm_num
    exact max_eq_left hmin
  have hround : roundEven (0 : F) = 0 := by
    have hzero := roundEven_intCast (F := F) 0
    rwa [Int.cast_zero] at hzero
  rw [expPs, hclamp, zero_mul, hround, Int.cast_zero, sub_zero, zero_mul, zpow_zero, mul_one,
    expPoly]
  norm_num

end Positive

end Repercep.Kernels
