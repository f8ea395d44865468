import Mathlib
import Repercep.Foundation.Tolerance
import Repercep.Kernels.ExpPs
set_option autoImplicit false

/-!
# How close the vectorised exponential is

The polynomial `exp_ps` evaluates is meant to be the exponential's, but its coefficients from
the cube on are those of the powers of two.  It is as accurate as the comments say in a small
window around zero only, and `exp_ps` where its argument is that close to a multiple of
`log 2`; below the clamp it is never the zero they promise.
-/

namespace Repercep.Kernels

open Foundation Set

attribute [local instance] atLeastTwo_two

section Statement

variable {F : Type} [Field F] [LinearOrder F]

/-- The exponential's Taylor sum to degree ten. -/
def expTaylor (g : F) : F :=
  ∑ m ∈ Finset.range 11, g ^ m / (m.factorial : F)

/-- Two units in the last place, to the bit. -/
def expTolerance : F :=
  1 / 2 ^ 21

/-- The polynomial is the exponential's to the tolerance. -/
def PolyAccurate (g : F) : Prop :=
  |expPoly g - expTaylor g| ≤ expTolerance * |expTaylor g|

/-- `exp_ps` is the exponential to the tolerance, and zero below the clamp. -/
def WeightAccurate : WithBot ℝ → Prop
  | ⊥ => expPs (⊥ : WithBot ℝ) = 0
  | (x : ℝ) =>
    (x < xMin → expPs (x : WithBot ℝ) = 0) ∧
      (xMin ≤ x → |expPs (x : WithBot ℝ) - Real.exp x| ≤ expTolerance * Real.exp x)

end Statement

/-- An interval around a point, with its ends between 0.018 and 0.0195 away. -/
structure NarrowWindow (c : ℝ) where
  left : ℝ
  right : ℝ
  left_near : 0.018 < c - left ∧ c - left < 0.0195
  right_near : 0.018 < right - c ∧ right - c < 0.0195

/-- A point lies in a window. -/
def NarrowWindow.Has {c : ℝ} (w : NarrowWindow c) (x : ℝ) : Prop := w.left ≤ x ∧ x ≤ w.right

/-! ## The polynomial and its derivative -/

/-- The derivative of the polynomial, by the same steps. -/
def expPolyDeriv (g : ℝ) : ℝ :=
  1 + 2 * 0.5 * g + 3 * 0.24022650695 * g ^ 2 + 4 * 0.05550410866 * g ^ 3 +
    5 * 0.00961812910 * g ^ 4 + 6 * 0.00133335581 * g ^ 5

theorem expPoly_expand (g : ℝ) :
    expPoly g = 1 + g + 0.5 * g ^ 2 + 0.24022650695 * g ^ 3 + 0.05550410866 * g ^ 4 +
      0.00961812910 * g ^ 5 + 0.00133335581 * g ^ 6 := by
  rw [expPoly]
  ring

/-- One step of Horner's rule under the derivative. -/
theorem hasDerivAt_horner {p : ℝ → ℝ} {p' g : ℝ} (hp : HasDerivAt p p' g) (c : ℝ) :
    HasDerivAt (fun g => p g * g + c) (p' * g + p g) g := by
  have hstep := (hp.mul (hasDerivAt_id g)).add_const c
  rwa [id_eq, mul_one] at hstep

theorem hasDerivAt_expPoly (g : ℝ) : HasDerivAt expPoly (expPolyDeriv g) g := by
  have h₀ := hasDerivAt_const g (0.00133335581 : ℝ)
  have h₁ := hasDerivAt_horner h₀ 0.00961812910
  have h₂ := hasDerivAt_horner h₁ 0.05550410866
  have h₃ := hasDerivAt_horner h₂ 0.24022650695
  have h₄ := hasDerivAt_horner h₃ 0.5
  have h₅ := hasDerivAt_horner h₄ 1
  have h₆ := hasDerivAt_horner h₅ 1
  refine h₆.congr_deriv ?_
  rw [expPolyDeriv]
  ring

/-- The powers of a small number. -/
theorem small_powers {g : ℝ} (hg : |g| ≤ 7 / 20) (m : Nat) : |g ^ m| ≤ (7 / 20) ^ m := by
  rw [abs_pow]
  exact pow_le_pow_left₀ (abs_nonneg g) hg m

/-- The derivative is ahead of the polynomial, as the cube's coefficient is too large. -/
theorem expPolyDeriv_ahead {g : ℝ} (hg : |g| ≤ 7 / 20) :
    expPoly g + g ^ 2 / 5 ≤ expPolyDeriv g := by
  have h₁ := abs_le.mp (small_powers hg 1)
  have h₂ := abs_le.mp (small_powers hg 2)
  have h₃ := abs_le.mp (small_powers hg 3)
  have h₄ := abs_le.mp (small_powers hg 4)
  have hrest : 0 ≤ 0.02067952085 - 0.01821007231 * g ^ 1 - 0.00741346316 * g ^ 2 -
      0.00161799424 * g ^ 3 - 0.00133335581 * g ^ 4 := by
    norm_num at h₁ h₂ h₃ h₄ ⊢
    linarith
  have hsplit : expPolyDeriv g - expPoly g - g ^ 2 / 5 =
      g ^ 2 * (0.02067952085 - 0.01821007231 * g ^ 1 - 0.00741346316 * g ^ 2 -
        0.00161799424 * g ^ 3 - 0.00133335581 * g ^ 4) := by
    rw [expPolyDeriv, expPoly_expand]
    ring
  have hproduct := mul_nonneg (sq_nonneg g) hrest
  linarith

theorem expPolyDeriv_pos {g : ℝ} (hg : |g| ≤ 7 / 20) : 0 < expPolyDeriv g :=
  calc 0 < expPoly g := (expPoly_bounds hg).1
    _ ≤ expPoly g + g ^ 2 / 5 := le_add_of_nonneg_right (by positivity)
    _ ≤ expPolyDeriv g := expPolyDeriv_ahead hg

theorem continuous_expPoly : Continuous (expPoly : ℝ → ℝ) :=
  continuous_iff_continuousAt.mpr fun g => (hasDerivAt_expPoly g).continuousAt

theorem expPoly_strictMonoOn : StrictMonoOn (expPoly : ℝ → ℝ) (Icc (-(7 / 20)) (7 / 20)) := by
  refine strictMonoOn_of_deriv_pos (convex_Icc _ _) continuous_expPoly.continuousOn ?_
  intro g hg
  rw [(hasDerivAt_expPoly g).deriv]
  have hIn := interior_subset hg
  exact expPolyDeriv_pos (abs_le.mpr hIn)

/-! ## Against the Taylor sum -/

/-- A Taylor sum's derivative is the sum one shorter. -/
theorem hasDerivAt_taylor (n : Nat) (g : ℝ) :
    HasDerivAt (fun g : ℝ => ∑ m ∈ Finset.range (n + 1), g ^ m / (m.factorial : ℝ))
      (∑ m ∈ Finset.range n, g ^ m / (m.factorial : ℝ)) g := by
  induction n with
  | zero =>
      have hconst := hasDerivAt_const g (1 : ℝ)
      simpa using hconst
  | succ n ih =>
      have hterm : HasDerivAt (fun g : ℝ => g ^ (n + 1) / ((n + 1).factorial : ℝ))
          (g ^ n / (n.factorial : ℝ)) g := by
        refine ((hasDerivAt_pow (n + 1) g).div_const ((n + 1).factorial : ℝ)).congr_deriv ?_
        rw [Nat.factorial_succ, Nat.add_sub_cancel]
        push_cast
        field_simp
      rw [Finset.sum_range_succ]
      refine (ih.add hterm).congr_of_eventuallyEq ?_
      exact Filter.Eventually.of_forall fun x => Finset.sum_range_succ _ (n + 1)

theorem expTaylor_near {g : ℝ} (hg : |g| ≤ 7 / 20) : |Real.exp g - expTaylor g| ≤ 1 / 10 ^ 9 := by
  have hbound := Real.exp_bound (hg.trans (by norm_num)) (n := 11) (by norm_num)
  have hpow := small_powers hg 11
  rw [abs_pow] at hpow
  refine hbound.trans ?_
  calc |g| ^ 11 * (((11 : Nat).succ : ℝ) / (((11 : Nat).factorial : ℝ) * ((11 : Nat) : ℝ)))
      ≤ (7 / 20) ^ 11 * (((11 : Nat).succ : ℝ) / (((11 : Nat).factorial : ℝ) * ((11 : Nat) : ℝ))) :=
        mul_le_mul_of_nonneg_right hpow (by positivity)
    _ ≤ 1 / 10 ^ 9 := by norm_num [Nat.factorial]

theorem expTaylor_pos {g : ℝ} (hg : |g| ≤ 7 / 20) : 0 < expTaylor g := by
  have hnear := abs_le.mp (expTaylor_near hg)
  have hexp := Real.add_one_le_exp g
  have hlow := (abs_le.mp hg).1
  norm_num at hnear
  linarith [hnear.2]

/-- The ratio of the polynomial to the Taylor sum increases. -/
theorem polyRatio_strictMonoOn :
    StrictMonoOn (fun g : ℝ => expPoly g / expTaylor g) (Icc (0 - 0.3466) (0 + 0.3466)) := by
  have hsmall : ∀ g ∈ Icc (0 - 0.3466 : ℝ) (0 + 0.3466), |g| ≤ 7 / 20 := by
    intro g hg
    rw [abs_le]
    constructor
    · linarith [hg.1]
    · linarith [hg.2]
  have hderiv : ∀ g ∈ Icc (0 - 0.3466 : ℝ) (0 + 0.3466),
      HasDerivAt (fun g : ℝ => expPoly g / expTaylor g)
        ((expPolyDeriv g * expTaylor g -
          expPoly g * ∑ m ∈ Finset.range 10, g ^ m / (m.factorial : ℝ)) / expTaylor g ^ 2) g := by
    intro g hg
    have hne := ne_of_gt (expTaylor_pos (hsmall g hg))
    exact (hasDerivAt_expPoly g).div (hasDerivAt_taylor 10 g) hne
  refine strictMonoOn_of_deriv_pos_off (c := 0) (by norm_num) ?_ ?_
  · intro g hg
    exact (hderiv g hg).continuousAt.continuousWithinAt
  · intro g hg hne
    have hIn := Ioo_subset_Icc_self hg
    have hg' := hsmall g hIn
    have htaylor := expTaylor_pos hg'
    have hlast : expTaylor g =
        ∑ m ∈ Finset.range 10, g ^ m / (m.factorial : ℝ) + g ^ 10 / 3628800 := by
      rw [expTaylor, Finset.sum_range_succ]
      norm_num [Nat.factorial]
    have hsquare : 0 < g ^ 2 / 5 := by positivity
    have hpoly := (expPoly_bounds hg').1
    have hahead : 0 < (expPolyDeriv g - expPoly g) * expTaylor g :=
      mul_pos (by linarith [expPolyDeriv_ahead hg']) htaylor
    have htail : 0 ≤ expPoly g * (g ^ 10 / 3628800) := by positivity
    rw [(hderiv g hIn).deriv]
    refine div_pos ?_ (by positivity)
    calc 0 < (expPolyDeriv g - expPoly g) * expTaylor g + expPoly g * (g ^ 10 / 3628800) :=
          add_pos_of_pos_of_nonneg hahead htail
      _ = expPolyDeriv g * expTaylor g -
            expPoly g * ∑ m ∈ Finset.range 10, g ^ m / (m.factorial : ℝ) := by
          rw [hlast]
          ring

/-- Where the polynomial is as close to the Taylor sum as it should be. -/
theorem exists_polyWindow :
    ∃ w : NarrowWindow 0, ∀ g : ℝ, |g| ≤ 0.3466 → (PolyAccurate g ↔ w.Has g) := by
  have hcont : ContinuousOn (fun g : ℝ => expPoly g / expTaylor g)
      (Icc (0 - 0.3466) (0 + 0.3466)) := by
    refine continuous_expPoly.continuousOn.div ?_ ?_
    · exact (continuous_iff_continuousAt.mpr fun g =>
        (hasDerivAt_taylor 10 g).continuousAt).continuousOn
    · intro g hg
      refine ne_of_gt (expTaylor_pos (abs_le.mpr ⟨?_, ?_⟩))
      · linarith [hg.1]
      · linarith [hg.2]
  obtain ⟨a, b, ha, hb, hab⟩ := @exists_tolerance _ 0 0.3466 0.018 0.0195 expTolerance
    (by norm_num) (by norm_num) (by norm_num) polyRatio_strictMonoOn hcont
    (by norm_num [expPoly, expTaylor, expTolerance, Finset.sum_range_succ, Nat.factorial])
    (by norm_num [expPoly, expTaylor, expTolerance, Finset.sum_range_succ, Nat.factorial])
    (by norm_num [expPoly, expTaylor, expTolerance, Finset.sum_range_succ, Nat.factorial])
    (by norm_num [expPoly, expTaylor, expTolerance, Finset.sum_range_succ, Nat.factorial])
  refine ⟨⟨a, b, ha, hb⟩, ?_⟩
  intro g hg
  have hbounds := abs_le.mp hg
  rw [NarrowWindow.Has, ← hab g ⟨by linarith [hbounds.1], by linarith [hbounds.2]⟩, PolyAccurate]
  have htaylor := expTaylor_pos (hg.trans (by norm_num))
  have hdiv : expPoly g / expTaylor g - 1 = (expPoly g - expTaylor g) / expTaylor g := by
    field_simp
  rw [hdiv, abs_div, div_le_iff₀ (abs_pos.mpr (ne_of_gt htaylor))]

/-! ## Against the exponential -/

/-- What is left of an argument when `n` powers of two are taken out of it. -/
def reduced (n : Int) (x : ℝ) : ℝ :=
  (x * 1.44269504088896341 - n) * 0.69314718056

/-- The weight `n` powers of two give, over the exponential. -/
noncomputable def weightRatio (n : Int) (x : ℝ) : ℝ :=
  expPoly (reduced n x) * 2 ^ n / Real.exp x

theorem two_zpow_eq_exp (n : Int) : (2 : ℝ) ^ n = Real.exp (n * Real.log 2) := by
  rw [mul_comm, Real.exp_mul, Real.exp_log two_pos, Real.rpow_intCast]

/-- The decimals of the reduction are the logarithm's nearly enough. -/
theorem reduced_near {n : Int} {x : ℝ} (hn : -126 ≤ n ∧ n ≤ 0)
    (hx : |x - n * Real.log 2| ≤ 0.3466) :
    |reduced n x - (x - n * Real.log 2)| ≤ 35 / 10 ^ 9 := by
  have hlow := Real.log_two_gt_d9
  have hhigh := Real.log_two_lt_d9
  have hn' : |(n : ℝ)| ≤ 126 := by
    rw [abs_le]
    exact ⟨by exact_mod_cast hn.1, by linarith [show (n : ℝ) ≤ 0 by exact_mod_cast hn.2]⟩
  have hlog : |(Real.log 2 * 1.44269504088896341 - 1) * 0.69314718056| ≤ 27 / 10 ^ 11 := by
    rw [abs_le]
    constructor
    · linarith
    · linarith
  have hfactor : |(1.44269504088896341 * 0.69314718056 - 1 : ℝ)| ≤ 1 / 10 ^ 12 := by
    rw [abs_le]
    norm_num
  have hsplit : reduced n x - (x - n * Real.log 2) =
      (x - n * Real.log 2) * (1.44269504088896341 * 0.69314718056 - 1) +
        n * ((Real.log 2 * 1.44269504088896341 - 1) * 0.69314718056) := by
    rw [reduced]
    ring
  rw [hsplit]
  calc |(x - n * Real.log 2) * (1.44269504088896341 * 0.69314718056 - 1) +
        n * ((Real.log 2 * 1.44269504088896341 - 1) * 0.69314718056)|
      ≤ |x - n * Real.log 2| * |(1.44269504088896341 * 0.69314718056 - 1 : ℝ)| +
          |(n : ℝ)| * |(Real.log 2 * 1.44269504088896341 - 1) * 0.69314718056| := by
        rw [← abs_mul, ← abs_mul]
        exact abs_add_le _ _
    _ ≤ 0.3466 * (1 / 10 ^ 12) + 126 * (27 / 10 ^ 11) := by gcongr
    _ ≤ 35 / 10 ^ 9 := by norm_num

theorem reduced_small {n : Int} {x : ℝ} (hn : -126 ≤ n ∧ n ≤ 0)
    (hx : |x - n * Real.log 2| ≤ 0.3466) : |reduced n x| ≤ 7 / 20 := by
  have hnear := reduced_near hn hx
  calc |reduced n x| = |reduced n x - (x - n * Real.log 2) + (x - n * Real.log 2)| := by
        rw [sub_add_cancel]
    _ ≤ |reduced n x - (x - n * Real.log 2)| + |x - n * Real.log 2| := abs_add_le _ _
    _ ≤ 35 / 10 ^ 9 + 0.3466 := add_le_add hnear hx
    _ ≤ 7 / 20 := by norm_num

theorem hasDerivAt_weightRatio (n : Int) (x : ℝ) :
    HasDerivAt (weightRatio n)
      ((expPolyDeriv (reduced n x) * (1.44269504088896341 * 0.69314718056) -
        expPoly (reduced n x)) * (2 ^ n / Real.exp x)) x := by
  have hreduced : HasDerivAt (reduced n) (1.44269504088896341 * 0.69314718056) x := by
    have hlinear := (((hasDerivAt_id x).mul_const 1.44269504088896341).sub_const
      (n : ℝ)).mul_const 0.69314718056
    rwa [one_mul] at hlinear
  have hpoly := ((hasDerivAt_expPoly (reduced n x)).comp x hreduced).mul_const ((2 : ℝ) ^ n)
  refine (hpoly.div (Real.hasDerivAt_exp x) (Real.exp_ne_zero x)).congr_deriv ?_
  have hexp := Real.exp_ne_zero x
  simp only [Function.comp_apply]
  field_simp

/-- Over the exponential, the weight increases as long as the same powers are taken out. -/
theorem weightRatio_strictMonoOn {n : Int} (hn : -126 ≤ n ∧ n ≤ 0) :
    StrictMonoOn (weightRatio n)
      (Icc (n * Real.log 2 - 0.3466) (n * Real.log 2 + 0.3466)) := by
  refine strictMonoOn_of_deriv_pos (convex_Icc _ _) ?_ ?_
  · intro x _
    exact (hasDerivAt_weightRatio n x).continuousAt.continuousWithinAt
  · intro x hx
    have hIn := interior_subset hx
    have hnear : |x - n * Real.log 2| ≤ 0.3466 := by
      rw [abs_le]
      exact ⟨by linarith [hIn.1], by linarith [hIn.2]⟩
    have hsmall := reduced_small hn hnear
    have hahead := expPolyDeriv_ahead hsmall
    have hpos := expPolyDeriv_pos hsmall
    have hsquare : 0 ≤ reduced n x ^ 2 / 5 := by positivity
    rw [(hasDerivAt_weightRatio n x).deriv]
    refine mul_pos ?_ (by positivity)
    norm_num at hpos ⊢
    linarith

/-- Next to a multiple of `log 2`, the ratio is the polynomial over the exponential. -/
theorem weightRatio_eq (n : Int) (u : ℝ) :
    weightRatio n (n * Real.log 2 + u) =
      expPoly (reduced n (n * Real.log 2 + u)) / Real.exp u := by
  have hexp := Real.exp_ne_zero (n * Real.log 2)
  have hexp' := Real.exp_ne_zero u
  rw [weightRatio, two_zpow_eq_exp, Real.exp_add]
  field_simp

/-- Five terms enclose the exponential of a number that is small enough. -/
theorem exp_five {u : ℝ} (hu : |u| ≤ 0.02) :
    |Real.exp u - (1 + u + u ^ 2 / 2 + u ^ 3 / 6 + u ^ 4 / 24)| ≤ 1 / 10 ^ 10 := by
  have hbound := Real.exp_bound (hu.trans (by norm_num)) (n := 5) (by norm_num)
  have hsum : ∑ m ∈ Finset.range 5, u ^ m / (m.factorial : ℝ) =
      1 + u + u ^ 2 / 2 + u ^ 3 / 6 + u ^ 4 / 24 := by
    norm_num [Finset.sum_range_succ, Nat.factorial]
  rw [hsum] at hbound
  refine hbound.trans ?_
  have hpow : |u| ^ 5 ≤ 0.02 ^ 5 := pow_le_pow_left₀ (abs_nonneg u) hu 5
  calc |u| ^ 5 * (((5 : Nat).succ : ℝ) / (((5 : Nat).factorial : ℝ) * ((5 : Nat) : ℝ)))
      ≤ 0.02 ^ 5 * (((5 : Nat).succ : ℝ) / (((5 : Nat).factorial : ℝ) * ((5 : Nat) : ℝ))) :=
        mul_le_mul_of_nonneg_right hpow (by positivity)
    _ ≤ 1 / 10 ^ 10 := by norm_num [Nat.factorial]

/-- The ratio is below what the polynomial a little further on is over the exponential. -/
theorem weightRatio_lt {n : Int} (hn : -126 ≤ n ∧ n ≤ 0) {u v : ℝ} (hu : |u| ≤ 0.02)
    (hv : expPoly (u + 35 / 10 ^ 9) <
      v * (1 + u + u ^ 2 / 2 + u ^ 3 / 6 + u ^ 4 / 24 - 1 / 10 ^ 10)) (hpos : 0 ≤ v) :
    weightRatio n (n * Real.log 2 + u) < v := by
  have hnear : |n * Real.log 2 + u - n * Real.log 2| ≤ 0.3466 := by
    rw [add_sub_cancel_left]
    exact hu.trans (by norm_num)
  have hsmall := abs_le.mp (reduced_small hn hnear)
  have hclose := (abs_le.mp (reduced_near hn hnear)).2
  rw [add_sub_cancel_left] at hclose
  have hubounds := abs_le.mp hu
  have hmono : expPoly (reduced n (n * Real.log 2 + u)) ≤ expPoly (u + 35 / 10 ^ 9) := by
    refine expPoly_strictMonoOn.monotoneOn hsmall ⟨?_, ?_⟩ (by linarith)
    · norm_num at hubounds ⊢
      linarith [hubounds.1]
    · norm_num at hubounds ⊢
      linarith [hubounds.2]
  have hexp := (abs_le.mp (exp_five hu)).1
  rw [weightRatio_eq, div_lt_iff₀ (Real.exp_pos u)]
  calc expPoly (reduced n (n * Real.log 2 + u)) ≤ expPoly (u + 35 / 10 ^ 9) := hmono
    _ < v * (1 + u + u ^ 2 / 2 + u ^ 3 / 6 + u ^ 4 / 24 - 1 / 10 ^ 10) := hv
    _ ≤ v * Real.exp u := mul_le_mul_of_nonneg_left (by linarith) hpos

/-- It is above what the polynomial a little before is over the exponential. -/
theorem lt_weightRatio {n : Int} (hn : -126 ≤ n ∧ n ≤ 0) {u v : ℝ} (hu : |u| ≤ 0.02)
    (hv : v * (1 + u + u ^ 2 / 2 + u ^ 3 / 6 + u ^ 4 / 24 + 1 / 10 ^ 10) <
      expPoly (u - 35 / 10 ^ 9)) (hpos : 0 ≤ v) :
    v < weightRatio n (n * Real.log 2 + u) := by
  have hnear : |n * Real.log 2 + u - n * Real.log 2| ≤ 0.3466 := by
    rw [add_sub_cancel_left]
    exact hu.trans (by norm_num)
  have hsmall := abs_le.mp (reduced_small hn hnear)
  have hclose := (abs_le.mp (reduced_near hn hnear)).1
  rw [add_sub_cancel_left] at hclose
  have hubounds := abs_le.mp hu
  have hmono : expPoly (u - 35 / 10 ^ 9) ≤ expPoly (reduced n (n * Real.log 2 + u)) := by
    refine expPoly_strictMonoOn.monotoneOn ⟨?_, ?_⟩ hsmall (by linarith)
    · norm_num at hubounds ⊢
      linarith [hubounds.1]
    · norm_num at hubounds ⊢
      linarith [hubounds.2]
  have hexp := (abs_le.mp (exp_five hu)).2
  rw [weightRatio_eq, lt_div_iff₀ (Real.exp_pos u)]
  calc v * Real.exp u
      ≤ v * (1 + u + u ^ 2 / 2 + u ^ 3 / 6 + u ^ 4 / 24 + 1 / 10 ^ 10) :=
        mul_le_mul_of_nonneg_left (by linarith) hpos
    _ < expPoly (u - 35 / 10 ^ 9) := hv
    _ ≤ expPoly (reduced n (n * Real.log 2 + u)) := hmono

/-- Where the weight `n` powers of two give is as close to the exponential as it should be. -/
theorem weightRatio_window {n : Int} (hn : -126 ≤ n ∧ n ≤ 0) :
    ∃ w : NarrowWindow (n * Real.log 2),
      ∀ x ∈ Icc (n * Real.log 2 - 0.3466) (n * Real.log 2 + 0.3466),
        |weightRatio n x - 1| ≤ expTolerance ↔ w.Has x := by
  have hcont : ContinuousOn (weightRatio n)
      (Icc (n * Real.log 2 - 0.3466) (n * Real.log 2 + 0.3466)) := fun x _ =>
    (hasDerivAt_weightRatio n x).continuousAt.continuousWithinAt
  have hinner : |(0.018 : ℝ)| ≤ 0.02 := by norm_num [abs_of_pos]
  have houter : |(0.0195 : ℝ)| ≤ 0.02 := by norm_num [abs_of_pos]
  have hbelow : (0 : ℝ) ≤ 1 - expTolerance := by norm_num [expTolerance]
  have habove : (0 : ℝ) ≤ 1 + expTolerance := by norm_num [expTolerance]
  -- the ratio crosses either end of the tolerance between the two distances
  have hlow : weightRatio n (n * Real.log 2 - 0.0195) < 1 - expTolerance := by
    rw [sub_eq_add_neg]
    exact weightRatio_lt hn (by rwa [abs_neg]) (by norm_num [expPoly, expTolerance]) hbelow
  have hlow' : 1 - expTolerance < weightRatio n (n * Real.log 2 - 0.018) := by
    rw [sub_eq_add_neg (_ * _)]
    exact lt_weightRatio hn (by rwa [abs_neg]) (by norm_num [expPoly, expTolerance]) hbelow
  have hhigh : weightRatio n (n * Real.log 2 + 0.018) < 1 + expTolerance :=
    weightRatio_lt hn hinner (by norm_num [expPoly, expTolerance]) habove
  have hhigh' : 1 + expTolerance < weightRatio n (n * Real.log 2 + 0.0195) :=
    lt_weightRatio hn houter (by norm_num [expPoly, expTolerance]) habove
  obtain ⟨a, b, ha, hb, hab⟩ := exists_tolerance (by norm_num) (by norm_num) (by norm_num)
    (weightRatio_strictMonoOn hn) hcont hlow hlow' hhigh hhigh'
  exact ⟨⟨a, b, ha, hb⟩, hab⟩

/-- The window of any power of two; of those that no weight has, some window. -/
theorem exists_weightWindow (n : Int) :
    ∃ w : NarrowWindow (n * Real.log 2), (-126 ≤ n ∧ n ≤ 0) →
      ∀ x ∈ Icc (n * Real.log 2 - 0.3466) (n * Real.log 2 + 0.3466),
        |weightRatio n x - 1| ≤ expTolerance ↔ w.Has x := by
  by_cases hn : -126 ≤ n ∧ n ≤ 0
  · obtain ⟨w, hw⟩ := weightRatio_window hn
    exact ⟨w, fun _ => hw⟩
  · have hwidth : (0.018 : ℝ) < 0.019 ∧ (0.019 : ℝ) < 0.0195 := by norm_num
    refine ⟨⟨n * Real.log 2 - 0.019, n * Real.log 2 + 0.019, ?_, ?_⟩, fun h => absurd h hn⟩
    · rwa [sub_sub_cancel]
    · rwa [add_sub_cancel_left]

/-- Above the clamp, `exp_ps` is the weight its own rounding gives. -/
theorem expPs_above {x : ℝ} (hmin : xMin ≤ x) :
    expPs (x : WithBot ℝ) =
      expPoly (reduced (roundEven (x * 1.44269504088896341)) x) *
        2 ^ roundEven (x * 1.44269504088896341) := by
  have hclamp : clampMin (x : WithBot ℝ) = x := max_eq_left hmin
  rw [expPs, hclamp, reduced]

/-- The powers of two a score difference can have. -/
theorem roundEven_range {x : ℝ} (hmin : xMin ≤ x) (hx : x ≤ 0) :
    -126 ≤ roundEven (x * 1.44269504088896341) ∧ roundEven (x * 1.44269504088896341) ≤ 0 := by
  rw [xMin] at hmin
  refine roundEven_mem ?_ ?_
  · push_cast
    linarith
  · push_cast
    linarith

/-- A score difference is within half a power of two of the one that is taken out. -/
theorem near_roundEven {x : ℝ} (hmin : xMin ≤ x) (hx : x ≤ 0) :
    |x - roundEven (x * 1.44269504088896341) * Real.log 2| ≤ 0.3466 := by
  obtain ⟨hn, hn'⟩ := roundEven_range hmin hx
  have herror := abs_le.mp (roundEven_error (x * 1.44269504088896341))
  generalize roundEven (x * 1.44269504088896341) = n at *
  have hlow := Real.log_two_gt_d9
  have hhigh := Real.log_two_lt_d9
  have hnR : (-126 : ℝ) ≤ n := by exact_mod_cast hn
  have hnR' : (n : ℝ) ≤ 0 := by exact_mod_cast hn'
  have hlogLow : (n : ℝ) * 0.6931471808 ≤ n * Real.log 2 :=
    mul_le_mul_of_nonpos_left hhigh.le hnR'
  have hlogHigh : (n : ℝ) * Real.log 2 ≤ n * 0.6931471803 :=
    mul_le_mul_of_nonpos_left hlow.le hnR'
  rw [abs_le]
  constructor
  · linarith [herror.2]
  · linarith [herror.1]

/-- Close to a multiple of `log 2`, that is the multiple the rounding takes out. -/
theorem roundEven_of_near {n : Int} {x : ℝ} (hn : -126 ≤ n ∧ n ≤ 0)
    (hx : |x - n * Real.log 2| ≤ 0.02) : roundEven (x * 1.44269504088896341) = n := by
  have herror := abs_le.mp (roundEven_error (x * 1.44269504088896341))
  have hnear := abs_le.mp (reduced_near hn (hx.trans (by norm_num)))
  have hx' := abs_le.mp hx
  rw [reduced] at hnear
  norm_num at hnear hx'
  have hlow : ((n - 1 : Int) : ℝ) < (roundEven (x * 1.44269504088896341) : ℝ) := by
    push_cast
    linarith [herror.1, hnear.1]
  have hhigh : (roundEven (x * 1.44269504088896341) : ℝ) < ((n + 1 : Int) : ℝ) := by
    push_cast
    linarith [herror.2, hnear.2]
  have hlow' := Int.cast_lt.mp hlow
  have hhigh' := Int.cast_lt.mp hhigh
  omega

/-- Being close to the exponential, in terms of the ratio. -/
theorem weightAccurate_iff_ratio {x : ℝ} (hmin : xMin ≤ x) :
    WeightAccurate x ↔
      |weightRatio (roundEven (x * 1.44269504088896341)) x - 1| ≤ expTolerance := by
  have hexp := Real.exp_pos x
  have hdiv : weightRatio (roundEven (x * 1.44269504088896341)) x - 1 =
      (expPs (x : WithBot ℝ) - Real.exp x) / Real.exp x := by
    rw [expPs_above hmin, weightRatio]
    field_simp
  rw [hdiv, abs_div, abs_of_pos hexp, div_le_iff₀ hexp]
  constructor
  · intro h
    exact h.2 hmin
  · intro h
    exact ⟨fun hlt => absurd hmin (not_le_of_gt hlt), fun _ => h⟩

theorem not_weightAccurate_bot : ¬ WeightAccurate ⊥ :=
  ne_of_gt (expPs_pos ⊥)

/-- The ends for the polynomial: where its error is the tolerance. -/
noncomputable def polyWindow : NarrowWindow 0 := exists_polyWindow.choose

/-- The ends for the weights with `n` powers of two. -/
noncomputable def weightWindow (n : Int) : NarrowWindow (n * Real.log 2) :=
  (exists_weightWindow n).choose

theorem weightAccurate_iff {x : ℝ} (hmin : xMin ≤ x) (hx : x ≤ 0) :
    WeightAccurate x ↔ ∃ n : Int, (-126 ≤ n ∧ n ≤ 0) ∧ (weightWindow n).Has x := by
  have hrange := roundEven_range hmin hx
  have hnear := abs_le.mp (near_roundEven hmin hx)
  have hwindow := (exists_weightWindow _).choose_spec hrange x
    ⟨by linarith [hnear.1], by linarith [hnear.2]⟩
  rw [weightAccurate_iff_ratio hmin, hwindow]
  constructor
  · intro h
    exact ⟨_, hrange, h⟩
  · rintro ⟨n, hn, hhas⟩
    have hclose : |x - n * Real.log 2| ≤ 0.02 := by
      rw [abs_le]
      constructor
      · linarith [hhas.1, (weightWindow n).left_near.2]
      · linarith [hhas.2, (weightWindow n).right_near.2]
    rw [roundEven_of_near hn hclose]
    exact hhas

/-- Below the clamp no weight is zero. -/
theorem not_weightAccurate_of_lt {x : ℝ} (hmin : x < xMin) : ¬ WeightAccurate x := fun h =>
  ne_of_gt (expPs_pos (x : WithBot ℝ)) (h.1 hmin)

/-- Where `exp_ps` is as accurate as its comments say: the polynomial in a window around zero
of less than a fiftieth to either side, the weight in such a window around each multiple of
`log 2`, and below the clamp nowhere. -/
theorem expPs_accuracy {g x : ℝ} (hg : |g| ≤ 0.3466) (hx : x ≤ 0) :
    (PolyAccurate g ↔ polyWindow.Has g) ∧
    (WeightAccurate x ↔
      xMin ≤ x ∧ ∃ n : Int, (-126 ≤ n ∧ n ≤ 0) ∧ (weightWindow n).Has x) ∧
    ¬ WeightAccurate ⊥ := by
  refine ⟨exists_polyWindow.choose_spec g hg, ?_, not_weightAccurate_bot⟩
  rcases lt_or_ge x xMin with hlow | hmin
  · exact iff_of_false (not_weightAccurate_of_lt hlow) fun h => absurd h.1 (not_le_of_gt hlow)
  · rw [weightAccurate_iff hmin hx, and_iff_right hmin]

/-- A hundredth is in the polynomial's window, where there is an error but a small one, and a
tenth is not; `-0.7` is in the window around `-log 2`, and `-100` is below the clamp. -/
theorem expPs_accuracy_points :
    (PolyAccurate (0.01 : ℝ) ∧ expPoly (0.01 : ℝ) ≠ expTaylor 0.01) ∧ ¬ PolyAccurate (0.1 : ℝ) ∧
      WeightAccurate (-0.7 : ℝ) ∧ ¬ WeightAccurate (-100 : ℝ) := by
  obtain ⟨hinside, hweight, -⟩ := expPs_accuracy (g := 0.01) (x := -0.7) (by norm_num [abs_of_pos])
    (by norm_num)
  obtain ⟨houtside, hbelow, -⟩ := expPs_accuracy (g := 0.1) (x := -100) (by norm_num [abs_of_pos])
    (by norm_num)
  have hleft := polyWindow.left_near
  have hright := polyWindow.right_near
  refine ⟨⟨hinside.mpr ⟨by linarith, by linarith⟩, ?_⟩, ?_, ?_, ?_⟩
  · norm_num [expPoly, expTaylor, Finset.sum_range_succ, Nat.factorial]
  · intro haccurate
    linarith [(houtside.mp haccurate).2]
  · refine hweight.mpr ⟨by norm_num [xMin], -1, by decide, ?_⟩
    have hlow := Real.log_two_gt_d9
    have hhigh := Real.log_two_lt_d9
    have hends := (weightWindow (-1)).left_near
    have hends' := (weightWindow (-1)).right_near
    norm_num at hends hends'
    exact ⟨by linarith, by linarith⟩
  · intro haccurate
    exact absurd (hbelow.mp haccurate).1 (by norm_num [xMin])

/-- At half of `log 2` the polynomial is off by thousands of times the tolerance, and minus
infinity has a weight. -/
theorem expPs_inaccurate :
    ¬ PolyAccurate (0.3466 : ℚ) ∧ expPs (⊥ : WithBot ℚ) ≠ 0 := by
  refine ⟨?_, ne_of_gt (expPs_pos ⊥)⟩
  rw [PolyAccurate, not_le, expTolerance]
  norm_num [expPoly, expTaylor, Finset.sum_range_succ, Nat.factorial, abs_of_pos]

end Repercep.Kernels
