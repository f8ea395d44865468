import Mathlib
import Repercep.Foundation.OnlineSoftmax
set_option autoImplicit false

/-!
# Softmax in one pass, inexactly

What becomes of a softmax-weighted mean when its weights are only right up to a factor, and of
the one-pass form when the weighted sum of a tile is only right up to a share of the tile's
weights.  Neither error grows with the number of scores or of tiles.
-/

namespace Repercep.Foundation

variable {F : Type} [Field F] [LinearOrder F] [IsStrictOrderedRing F]

/-! ## Products -/

/-- Two products of approximations are as close as their factors. -/
theorem abs_mul_sub_mul_le {a a' b b' ea eb A B : F} (ha : |a' - a| ≤ ea) (hb : |b' - b| ≤ eb)
    (hA : |a| ≤ A) (hB : |b'| ≤ B) : |a' * b' - a * b| ≤ ea * B + A * eb := by
  have hsplit : a' * b' - a * b = (a' - a) * b' + a * (b' - b) := by ring
  have hea : 0 ≤ ea := (abs_nonneg _).trans ha
  have hA' : 0 ≤ A := (abs_nonneg _).trans hA
  calc |a' * b' - a * b| = |(a' - a) * b' + a * (b' - b)| := by rw [hsplit]
    _ ≤ |(a' - a) * b'| + |a * (b' - b)| := abs_add_le _ _
    _ = |a' - a| * |b'| + |a| * |b' - b| := by rw [abs_mul, abs_mul]
    _ ≤ ea * B + A * eb :=
        add_le_add (mul_le_mul ha hB (abs_nonneg _) hea) (mul_le_mul hA hb (abs_nonneg _) hA')

/-- A sum of `n` terms, each within `c`. -/
theorem abs_sum_range_le {n : Nat} {f : Nat → F} {c : F} (h : ∀ j < n, |f j| ≤ c) :
    |∑ j ∈ Finset.range n, f j| ≤ n * c := by
  calc |∑ j ∈ Finset.range n, f j| ≤ ∑ j ∈ Finset.range n, |f j| :=
        Finset.abs_sum_le_sum_abs _ _
    _ ≤ ∑ _j ∈ Finset.range n, c :=
        Finset.sum_le_sum fun j hj => h j (Finset.mem_range.mp hj)
    _ = n * c := by rw [Finset.sum_const, Finset.card_range, nsmul_eq_mul]

/-- A weight is a share of all of them. -/
theorem abs_le_sum_range {n j : Nat} {p : Nat → F} (hp : ∀ k < n, 0 ≤ p k) (hj : j < n) :
    |p j| ≤ ∑ k ∈ Finset.range n, p k := by
  rw [abs_of_nonneg (hp j hj)]
  exact Finset.single_le_sum (fun k hk => hp k (Finset.mem_range.mp hk)) (Finset.mem_range.mpr hj)

/-! ## Weights right up to a factor -/

section Factor

variable {n : Nat} {w w' v : Nat → F} {r A : F}

/-- The share of each weight is right up to the square of the factor. -/
theorem abs_share_sub_le (hr : 1 ≤ r) {x x' W W' : F} (hx : 0 ≤ x) (hx' : 0 ≤ x') (hW : 0 < W)
    (hW' : 0 < W') (hlow : x ≤ r * x') (hhigh : x' ≤ r * x) (hLow : W ≤ r * W')
    (hHigh : W' ≤ r * W) : |x' / W' - x / W| ≤ (r ^ 2 - 1) * (x / W) := by
  have hr₀ : 0 < r := zero_lt_one.trans_le hr
  have hup : x' / W' ≤ r ^ 2 * (x / W) := by
    rw [← mul_div_assoc, div_le_div_iff₀ hW' hW]
    calc x' * W ≤ r * x * (r * W') := mul_le_mul hhigh hLow hW.le (mul_nonneg hr₀.le hx)
      _ = r ^ 2 * x * W' := by ring
  have hdown : x / W ≤ r ^ 2 * (x' / W') := by
    rw [← mul_div_assoc, div_le_div_iff₀ hW hW']
    calc x * W' ≤ r * x' * (r * W) := mul_le_mul hlow hHigh hW'.le (mul_nonneg hr₀.le hx')
      _ = r ^ 2 * x' * W := by ring
  have hshare : 0 ≤ x / W := div_nonneg hx hW.le
  have hsq : 1 ≤ r ^ 2 := one_le_pow₀ hr
  rw [abs_le]
  constructor
  · -- a share that lost all it can is still over the square of the factor
    have hlost : x / W - x' / W' ≤ (r ^ 2 - 1) * (x' / W') := by linarith
    rcases le_total (x' / W') (x / W) with hless | hmore
    · have hle := mul_le_mul_of_nonneg_left hless (sub_nonneg.mpr hsq)
      linarith
    · have hnonneg := mul_nonneg (sub_nonneg.mpr hsq) hshare
      linarith
  · linarith

/-- A mean with such weights. -/
theorem abs_mean_sub_le (hr : 1 ≤ r) (hw : ∀ j < n, 0 ≤ w j) (hw' : ∀ j < n, 0 ≤ w' j)
    (hpos : 0 < ∑ j ∈ Finset.range n, w j) (hlow : ∀ j < n, w j ≤ r * w' j)
    (hhigh : ∀ j < n, w' j ≤ r * w j) (hv : ∀ j < n, |v j| ≤ A) :
    |(∑ j ∈ Finset.range n, w' j * v j) / ∑ j ∈ Finset.range n, w' j -
      (∑ j ∈ Finset.range n, w j * v j) / ∑ j ∈ Finset.range n, w j| ≤ (r ^ 2 - 1) * A := by
  have hLow : ∑ j ∈ Finset.range n, w j ≤ r * ∑ j ∈ Finset.range n, w' j := by
    rw [Finset.mul_sum]
    exact Finset.sum_le_sum fun j hj => hlow j (Finset.mem_range.mp hj)
  have hHigh : ∑ j ∈ Finset.range n, w' j ≤ r * ∑ j ∈ Finset.range n, w j := by
    rw [Finset.mul_sum]
    exact Finset.sum_le_sum fun j hj => hhigh j (Finset.mem_range.mp hj)
  have hpos' : 0 < ∑ j ∈ Finset.range n, w' j :=
    pos_of_mul_pos_right (hpos.trans_le hLow) (zero_le_one.trans hr)
  generalize hW : ∑ j ∈ Finset.range n, w j = W at hLow hHigh hpos ⊢
  generalize ∑ j ∈ Finset.range n, w' j = W' at hLow hHigh hpos' ⊢
  have hterm : ∀ j ∈ Finset.range n,
      |(w' j / W' - w j / W) * v j| ≤ (r ^ 2 - 1) * A * (w j / W) := by
    intro j hj
    have hj := Finset.mem_range.mp hj
    have hshare := abs_share_sub_le hr (hw j hj) (hw' j hj) hpos hpos' (hlow j hj) (hhigh j hj)
      hLow hHigh
    rw [abs_mul]
    calc |w' j / W' - w j / W| * |v j| ≤ (r ^ 2 - 1) * (w j / W) * A :=
          mul_le_mul hshare (hv j hj) (abs_nonneg _) ((abs_nonneg _).trans hshare)
      _ = (r ^ 2 - 1) * A * (w j / W) := by ring
  calc |(∑ j ∈ Finset.range n, w' j * v j) / W' - (∑ j ∈ Finset.range n, w j * v j) / W|
      = |∑ j ∈ Finset.range n, (w' j / W' - w j / W) * v j| := by
        rw [Finset.sum_div, Finset.sum_div, ← Finset.sum_sub_distrib]
        refine congrArg abs (Finset.sum_congr rfl fun j _ => ?_)
        ring
    _ ≤ ∑ j ∈ Finset.range n, |(w' j / W' - w j / W) * v j| := Finset.abs_sum_le_sum_abs _ _
    _ ≤ ∑ j ∈ Finset.range n, (r ^ 2 - 1) * A * (w j / W) := Finset.sum_le_sum hterm
    _ = (r ^ 2 - 1) * A := by
        rw [← Finset.mul_sum, ← Finset.sum_div, hW, div_self (ne_of_gt hpos), mul_one]

end Factor

/-! ## Weighted sums right up to a share of the weights -/

namespace RowState

variable {δ : Type} {e : WithBot F → F} {s : Nat → WithBot F} {v : Nat → δ → F} {n : Nat}
  {st : RowState F δ} {c : F} {d : δ}

/-- The state is that of the first `n` scores and values, but for its weighted sum at `d`,
which is `c` times the sum of the weights off at most. -/
def Near (e : WithBot F → F) (s : Nat → WithBot F) (v : Nat → δ → F) (c : F) (d : δ) (n : Nat)
    (st : RowState F δ) : Prop :=
  ∃ acc, Tracks e s v n ⟨st.max, st.sum, acc⟩ ∧ |st.acc d - acc d| ≤ c * st.sum

theorem near_start : Near e s v c d 0 (start : RowState F δ) :=
  ⟨fun _ => 0, tracks_start, by simp [start]⟩

omit [IsStrictOrderedRing F] in
theorem Near.max_eq (h : Near e s v c d n st) : st.max = (Finset.range n).sup s := by
  obtain ⟨acc, htracks, -⟩ := h
  exact htracks.max

variable (he : IsExp e)
include he

/-- A tile taken in, its own weighted sum off likewise. -/
theorem Near.absorb (h : Near e s v c d n st) {w : Nat} {weighted : (Nat → F) → δ → F}
    (hweighted : ∀ p : Nat → F, (∀ j < w, 0 ≤ p j) →
      |weighted p d - ∑ j ∈ Finset.range w, p j * v (n + j) d| ≤ c * ∑ j ∈ Finset.range w, p j)
    {m : F} (hm : (Finset.range (n + w)).sup s = (m : WithBot F)) :
    ∃ st', st.absorb e e w (fun j => s (n + j)) weighted = some st' ∧
      Near e s v c d (n + w) st' := by
  obtain ⟨acc, htracks, hnear⟩ := h
  let sums : (Nat → F) → δ → F := fun p d => ∑ j ∈ Finset.range w, p j * v (n + j) d
  have hsums : ∀ p d, sums p d = ∑ j ∈ Finset.range w, p j * v (n + j) d := fun _ _ => rfl
  obtain ⟨tracked, hrun, htracks', -⟩ := htracks.absorb he hsums hm
  obtain ⟨m', hmax, hstate⟩ := absorb_eq_some hrun
  refine ⟨_, absorb_eq hmax, tracked.acc, ?_, ?_⟩
  · rw [hstate] at htracks' ⊢
    exact htracks'
  · let p := weights e (fun j => s (n + j)) m'
    have hp : ∀ j < w, 0 ≤ p j := fun j _ => he.nonneg _
    have halpha := he.nonneg (below m' st.max)
    have hscaled : |e (below m' st.max) * (st.acc d - acc d)| ≤
        e (below m' st.max) * (c * st.sum) := by
      rw [abs_mul, abs_of_nonneg halpha]
      exact mul_le_mul_of_nonneg_left hnear halpha
    rw [hstate]
    change |e (below m' st.max) * st.acc d + weighted p d -
      (e (below m' st.max) * acc d + ∑ j ∈ Finset.range w, p j * v (n + j) d)| ≤
        c * (e (below m' st.max) * st.sum + ∑ j ∈ Finset.range w, p j)
    calc |e (below m' st.max) * st.acc d + weighted p d -
          (e (below m' st.max) * acc d + ∑ j ∈ Finset.range w, p j * v (n + j) d)|
        = |e (below m' st.max) * (st.acc d - acc d) +
            (weighted p d - ∑ j ∈ Finset.range w, p j * v (n + j) d)| := by
          congr 1
          ring
      _ ≤ |e (below m' st.max) * (st.acc d - acc d)| +
            |weighted p d - ∑ j ∈ Finset.range w, p j * v (n + j) d| := abs_add_le _ _
      _ ≤ e (below m' st.max) * (c * st.sum) + c * ∑ j ∈ Finset.range w, p j :=
          add_le_add hscaled (hweighted p hp)
      _ = c * (e (below m' st.max) * st.sum + ∑ j ∈ Finset.range w, p j) := by ring

/-- The weighted sum over the sum of the weights is `c` off the softmax row at most. -/
theorem Near.finish (h : Near e s v c d n st) {m : F} (hm : st.max = m) :
    0 < st.sum ∧ |st.acc d * (1 / st.sum) - softmaxRow e n s v d| ≤ c := by
  obtain ⟨acc, htracks, hnear⟩ := h
  let tracked : RowState F δ := ⟨st.max, st.sum, acc⟩
  have hmax : tracked.max = m := hm
  have hsum : 0 < st.sum := (htracks.sum_pos he hmax : 0 < tracked.sum)
  have hexact : acc d * (1 / st.sum) = softmaxRow e n s v d :=
    (htracks.finish he hmax d : tracked.acc d * (1 / tracked.sum) = _)
  refine ⟨hsum, ?_⟩
  rw [← hexact, ← sub_mul, abs_mul, abs_of_pos (one_div_pos.mpr hsum),
    mul_one_div, div_le_iff₀ hsum]
  exact hnear

end RowState

end Repercep.Foundation
