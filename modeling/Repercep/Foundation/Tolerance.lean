import Mathlib
set_option autoImplicit false

/-!
# Where an increasing function is close to one

A function that increases with a derivative which vanishes at one point at most is within a
tolerance of one on exactly one interval, and bounds on its values bound the interval's ends.
-/

namespace Repercep.Foundation

open Set

/-- One point where the derivative vanishes does not stop a function from increasing. -/
theorem strictMonoOn_of_deriv_pos_off {f : ℝ → ℝ} {a b c : ℝ} (hc : c ∈ Icc a b)
    (hcont : ContinuousOn f (Icc a b)) (hderiv : ∀ x ∈ Ioo a b, x ≠ c → 0 < deriv f x) :
    StrictMonoOn f (Icc a b) := by
  have hleft : StrictMonoOn f (Icc a c) := by
    refine strictMonoOn_of_deriv_pos (convex_Icc a c)
      (hcont.mono (Icc_subset_Icc_right hc.2)) ?_
    intro x hx
    rw [interior_Icc] at hx
    exact hderiv x ⟨hx.1, hx.2.trans_le hc.2⟩ (ne_of_lt hx.2)
  have hright : StrictMonoOn f (Icc c b) := by
    refine strictMonoOn_of_deriv_pos (convex_Icc c b)
      (hcont.mono (Icc_subset_Icc_left hc.1)) ?_
    intro x hx
    rw [interior_Icc] at hx
    exact hderiv x ⟨hc.1.trans_lt hx.1, hx.2⟩ (ne_of_gt hx.1)
  have hunion := hleft.union hright (isGreatest_Icc hc.1) (isLeast_Icc hc.2)
  rwa [Icc_union_Icc_eq_Icc hc.1 hc.2] at hunion

/-- The interval on which an increasing function is close to one. -/
theorem exists_tolerance {f : ℝ → ℝ} {c r s t ε : ℝ} (hs : 0 ≤ s) (hst : s ≤ t) (htr : t ≤ r)
    (hmono : StrictMonoOn f (Icc (c - r) (c + r)))
    (hcont : ContinuousOn f (Icc (c - r) (c + r)))
    (hlow : f (c - t) < 1 - ε) (hlow' : 1 - ε < f (c - s))
    (hhigh : f (c + s) < 1 + ε) (hhigh' : 1 + ε < f (c + t)) :
    ∃ a b, (s < c - a ∧ c - a < t) ∧ (s < b - c ∧ b - c < t) ∧
      ∀ x ∈ Icc (c - r) (c + r), |f x - 1| ≤ ε ↔ a ≤ x ∧ x ≤ b := by
  have hsubLow : Icc (c - t) (c - s) ⊆ Icc (c - r) (c + r) :=
    Icc_subset_Icc (by linarith) (by linarith)
  have hsubHigh : Icc (c + s) (c + t) ⊆ Icc (c - r) (c + r) :=
    Icc_subset_Icc (by linarith) (by linarith)
  obtain ⟨a, ha, hfa⟩ :=
    intermediate_value_Ioo (by linarith) (hcont.mono hsubLow) ⟨hlow, hlow'⟩
  obtain ⟨b, hb, hfb⟩ :=
    intermediate_value_Ioo (by linarith) (hcont.mono hsubHigh) ⟨hhigh, hhigh'⟩
  have haIn := hsubLow (Ioo_subset_Icc_self ha)
  have hbIn := hsubHigh (Ioo_subset_Icc_self hb)
  refine ⟨a, b, ⟨by linarith [ha.2], by linarith [ha.1]⟩,
    ⟨by linarith [hb.1], by linarith [hb.2]⟩, ?_⟩
  intro x hx
  rw [← hmono.le_iff_le haIn hx, ← hmono.le_iff_le hx hbIn, hfa, hfb, abs_le]
  constructor
  · intro h
    exact ⟨by linarith [h.1], by linarith [h.2]⟩
  · intro h
    exact ⟨by linarith [h.1], by linarith [h.2]⟩

end Repercep.Foundation
