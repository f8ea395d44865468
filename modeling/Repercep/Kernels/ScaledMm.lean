import Mathlib
import Repercep.Foundation.FloatFormat
import Repercep.Foundation.SoftmaxError
import Repercep.Kernels.Fp8Flash
import Repercep.Kernels.Int8Accuracy
set_option autoImplicit false

/-!
# Attention by two FP8 products

`attention/fp8_scaled_mm.py`: the scores are a product of queries and keys in FP8, each row
with a scale of its own, and the output is a product of the softmax weights and the values,
again in FP8.  The product of two scaled tensors is PyTorch's.  Arithmetic is exact, but for
the casts to FP8.
-/

namespace Repercep.Kernels

open Foundation
open FlashBf16 (rowOfHead)
open FlashInt8 (absmax absmax_le_iff)
open Fp8Flash (MathLib)

namespace ScaledMm

/-! ## The operator -/

/-- `torch.float8_e4m3fnuz`. -/
def float8E4m3fnuz : FloatFormat where
  digits := 3
  minExponent := -7

section Operator

variable {F : Type} [Field F] [LinearOrder F] [FloorRing F]

/-- `torch._scaled_grouped_mm`, of one group: `K` is the length of the rows of both operands,
the second one given by its rows before the transposition. -/
abbrev ScaledGroupedMm (F : Type) : Type :=
  Nat → (Nat → Nat → F) → (Nat → Nat → F) → (Nat → F) → (Nat → F) → Nat → Nat → F

/-- `_rowwise_quantize`, of one row of `n` elements: the FP8 values, and the scale that
recovers the magnitude. -/
def rowwiseQuantize (n : Nat) (f : Nat → F) : (Nat → F) × F :=
  let fp8Max : F := (240 : Nat)
  let target := 0.95 * fp8Max
  let amax := max (absmax n f) 0.000001
  let quantMul := target / amax
  let dequant := amax / target
  (fun j => float8E4m3fnuz.round (min (max (f j * quantMul) (-fp8Max)) fp8Max), dequant)

/-- The product of two tensors, quantised row by row. -/
def product (mm : ScaledGroupedMm F) (n : Nat) (a b : Nat → Nat → F) : Nat → Nat → F :=
  mm n (fun i => (rowwiseQuantize n (a i)).1) (fun j => (rowwiseQuantize n (b j)).1)
    (fun i => (rowwiseQuantize n (a i)).2) fun j => (rowwiseQuantize n (b j)).2

/-- The softmax weights of a row of scores. -/
def softmax (exp : WithBot F → F) (n : Nat) (s : Nat → WithBot F) (j : Nat) : F :=
  exp (s j) / ∑ k ∈ Finset.range n, exp (s k)

/-- One head: `sq` queries, `skv` keys and values, of `d` features. -/
def headOutput (math : MathLib F) (mm : ScaledGroupedMm F) (skv d : Nat) (causal : Bool) (scale : F)
    (q k v : Nat → Nat → F) (i c : Nat) : F :=
  let scores := fun i j => product mm d q k i j * scale
  -- `triu(1)` masks the keys after the query
  let scores := fun i j =>
    if causal ∧ i + 1 ≤ j then ⊥ else (scores i j : WithBot F)
  let p := fun i => softmax math.exp skv (scores i)
  let vReordered := fun c j => v j c
  product mm skv p vReordered i c

/-- `FP8ScaledMMAttention.__call__`, on tensors given by their elements in row-major order. -/
def call (math : MathLib F) (mm : ScaledGroupedMm F) (sq skv d : Nat) (q k v : Nat → F)
    (causal : Bool) (scale : Option F) (a : Nat) : F :=
  let scale := scale.getD (1 / math.sqrt d)
  let bh := a / d / sq
  headOutput math mm skv d causal scale (rowOfHead sq d q bh) (rowOfHead skv d k bh)
    (rowOfHead skv d v bh) (a / d % sq) (a % d)

/-- What PyTorch documents of the product. -/
def Documented (mm : ScaledGroupedMm F) : Prop :=
  ∀ n a b sa sb i j, mm n a b sa sb i j = sa i * sb j * ∑ k ∈ Finset.range n, a i k * b j k

end Operator

/-! ## Quantised rows -/

section Rows

variable {F : Type} [Field F] [LinearOrder F] [FloorRing F] [IsStrictOrderedRing F]

/-- Rows quantised for a magnitude `x`, which is not below the least one, are off by a
sixteenth of each element and a share of the magnitude. -/
theorem near_quantized {n j : Nat} {f : Nat → F} {x : F} (hx : 0.000001 ≤ x)
    (hf : ∀ j < n, |f j| ≤ x) (hj : j < n) :
    |(rowwiseQuantize n f).2 * (rowwiseQuantize n f).1 j - f j| ≤ |f j| / 16 + x / 466944 := by
  have hamax : max (absmax n f) 0.000001 ≤ x :=
    max_le (absmax_le_iff.mpr ⟨(abs_nonneg _).trans (hf j hj), hf⟩) hx
  have hrow : |f j| ≤ max (absmax n f) 0.000001 :=
    ((absmax_le_iff.mp (le_refl (absmax n f))).2 j hj).trans (le_max_left _ _)
  have hpos : 0 < max (absmax n f) (0.000001 : F) := lt_max_of_lt_right (by norm_num)
  unfold rowwiseQuantize
  dsimp only
  rw [Nat.cast_ofNat]
  generalize max (absmax n f) (0.000001 : F) = amax at hamax hrow hpos ⊢
  have hscaled : |f j * (0.95 * 240 / amax)| ≤ 228 := by
    rw [abs_mul, abs_of_pos (show 0 < 0.95 * 240 / amax by positivity), mul_div_assoc',
      div_le_iff₀ hpos]
    linarith
  obtain ⟨hlow, hhigh⟩ := abs_le.mp hscaled
  have hleast : amax / (0.95 * 240) / 2048 ≤ x / 466944 := by
    linarith
  -- the headroom keeps the clamp from binding
  rw [max_eq_left (by linarith), min_eq_left (by linarith)]
  have hdequant : 0 < amax / (0.95 * 240) := by positivity
  have hback : amax / (0.95 * 240) * (f j * (0.95 * 240 / amax)) = f j := by
    field_simp
  generalize f j * (0.95 * 240 / amax) = y at hback ⊢
  generalize amax / (0.95 * 240) = dequant at hdequant hback hleast ⊢
  have hround := float8E4m3fnuz.round_error y
  have hy : dequant * |y| = |f j| := by
    rw [← hback, abs_mul, abs_of_pos hdequant]
  calc |dequant * float8E4m3fnuz.round y - f j|
      = dequant * |float8E4m3fnuz.round y - y| := by
        rw [← hback, ← mul_sub, abs_mul, abs_of_pos hdequant]
    _ ≤ dequant * (|y| / 2 ^ (3 + 1) + 2 ^ (-7 - (3 : Nat) : Int) / 2) :=
        mul_le_mul_of_nonneg_left hround hdequant.le
    _ = dequant * |y| / 16 + dequant / 2048 := by ring
    _ ≤ |f j| / 16 + x / 466944 := by
        rw [hy]
        linarith

/-- The relative error of a quantised row, for its largest magnitude. -/
def rowError : F :=
  29185 / 466944

theorem near_row {n j : Nat} {f : Nat → F} {x : F} (hx : 0.000001 ≤ x) (hf : ∀ j < n, |f j| ≤ x)
    (hj : j < n) :
    |(rowwiseQuantize n f).2 * (rowwiseQuantize n f).1 j - f j| ≤ rowError * x ∧
      |(rowwiseQuantize n f).2 * (rowwiseQuantize n f).1 j| ≤ (1 + rowError) * x := by
  have herror : |(rowwiseQuantize n f).2 * (rowwiseQuantize n f).1 j - f j| ≤ rowError * x := by
    refine (near_quantized hx hf hj).trans ?_
    have hle := hf j hj
    unfold rowError
    linarith
  refine ⟨herror, ?_⟩
  have hsplit := abs_add_le ((rowwiseQuantize n f).2 * (rowwiseQuantize n f).1 j - f j) (f j)
  rw [sub_add_cancel] at hsplit
  linarith [hf j hj]

omit [IsStrictOrderedRing F] in
theorem product_eq {mm : ScaledGroupedMm F} (hmm : Documented mm) (n : Nat) (a b : Nat → Nat → F)
    (i j : Nat) : product mm n a b i j = ∑ k ∈ Finset.range n,
      (rowwiseQuantize n (a i)).2 * (rowwiseQuantize n (a i)).1 k *
        ((rowwiseQuantize n (b j)).2 * (rowwiseQuantize n (b j)).1 k) := by
  rw [product, hmm, Finset.mul_sum]
  refine Finset.sum_congr rfl fun k _ => ?_
  ring

/-- The product of two rows. -/
theorem near_product {mm : ScaledGroupedMm F} (hmm : Documented mm) {n i j : Nat}
    {a b : Nat → Nat → F} {x y : F} (hx : 0.000001 ≤ x) (hy : 0.000001 ≤ y)
    (ha : ∀ k < n, |a i k| ≤ x) (hb : ∀ k < n, |b j k| ≤ y) :
    |product mm n a b i j - ∑ k ∈ Finset.range n, a i k * b j k| ≤
      n * ((2 * rowError + rowError ^ 2) * (x * y)) := by
  rw [product_eq hmm, ← Finset.sum_sub_distrib]
  refine abs_sum_range_le fun k hk => ?_
  calc _ ≤ rowError * x * ((1 + rowError) * y) + x * (rowError * y) :=
        abs_mul_sub_mul_le (near_row hx ha hk).1 (near_row hy hb hk).1 (ha k hk) (near_row hy hb hk).2
    _ = (2 * rowError + rowError ^ 2) * (x * y) := by ring

/-- The product of a row of weights and a row of values: the weights of the FP8 format are
off by a share of each, and by its least step. -/
theorem near_weighted {mm : ScaledGroupedMm F} (hmm : Documented mm) {n i j : Nat}
    {p v : Nat → Nat → F} {z : F} (hz : 0.000001 ≤ z) (hp : ∀ k < n, 0 ≤ p i k)
    (hsum : ∑ k ∈ Finset.range n, p i k = 1) (hv : ∀ k < n, |v j k| ≤ z) :
    |product mm n p v i j - ∑ k ∈ Finset.range n, p i k * v j k| ≤
      ((1 / 16 + n / 466944) * (1 + rowError) + rowError) * z := by
  have hone : ∀ k < n, |p i k| ≤ 1 := fun k hk => (abs_le_sum_range hp hk).trans_eq hsum
  have hterm : ∀ k ∈ Finset.range n,
      |(rowwiseQuantize n (p i)).2 * (rowwiseQuantize n (p i)).1 k *
          ((rowwiseQuantize n (v j)).2 * (rowwiseQuantize n (v j)).1 k) - p i k * v j k| ≤
        (p i k / 16 + 1 / 466944) * ((1 + rowError) * z) + p i k * (rowError * z) := by
    intro k hk
    have hk := Finset.mem_range.mp hk
    have hweight := near_quantized (by norm_num) hone hk
    rw [abs_of_nonneg (hp k hk)] at hweight
    exact abs_mul_sub_mul_le hweight (near_row hz hv hk).1 (le_of_eq (abs_of_nonneg (hp k hk)))
      (near_row hz hv hk).2
  rw [product_eq hmm, ← Finset.sum_sub_distrib]
  calc _ ≤ ∑ k ∈ Finset.range n,
          ((p i k / 16 + 1 / 466944) * ((1 + rowError) * z) + p i k * (rowError * z)) :=
        (Finset.abs_sum_le_sum_abs _ _).trans (Finset.sum_le_sum hterm)
    _ = ((∑ k ∈ Finset.range n, p i k) / 16 + n / 466944) * ((1 + rowError) * z) +
          (∑ k ∈ Finset.range n, p i k) * (rowError * z) := by
        rw [Finset.sum_add_distrib, ← Finset.sum_mul, ← Finset.sum_mul, Finset.sum_add_distrib,
          ← Finset.sum_div, Finset.sum_const, Finset.card_range, nsmul_eq_mul, mul_one_div]
    _ = ((1 / 16 + n / 466944) * (1 + rowError) + rowError) * z := by
        rw [hsum]
        ring

end Rows

/-! ## The whole operator -/

theorem sum_softmax {n : Nat} {s : Nat → WithBot ℝ}
    (hpos : 0 < ∑ k ∈ Finset.range n, realExp (s k)) :
    ∑ k ∈ Finset.range n, softmax realExp n s k = 1 := by
  unfold softmax
  rw [← Finset.sum_div, div_self (ne_of_gt hpos)]

/-- One head is close to softmax attention. -/
theorem headOutput_near {mm : ScaledGroupedMm ℝ} (hmm : Documented mm) {skv d i c : Nat}
    (hskv : 0 < skv) (hc : c < d) (causal : Bool) (scale : ℝ) {q k v : Nat → Nat → ℝ} {x y z : ℝ}
    (hx : 0.000001 ≤ x) (hy : 0.000001 ≤ y) (hz : 0.000001 ≤ z) (hq : ∀ c < d, |q i c| ≤ x)
    (hk : ∀ j < skv, ∀ c < d, |k j c| ≤ y) (hv : ∀ j < skv, ∀ c < d, |v j c| ≤ z) :
    |headOutput ⟨realExp, Real.sqrt⟩ mm skv d causal scale q k v i c -
        attention skv d scale causal q k v i c| ≤
      ((1 / 16 + skv / 466944) * (1 + rowError) + rowError +
        (Real.exp (2 * (|scale| * (d * ((2 * rowError + rowError ^ 2) * (x * y))))) - 1)) * z := by
  let scores := fun j => product mm d q k i j * scale
  have hscores : ∀ j < skv, |scores j - scale * ∑ c ∈ Finset.range d, q i c * k j c| ≤
      |scale| * (d * ((2 * rowError + rowError ^ 2) * (x * y))) := by
    intro j hj
    have hproduct := near_product hmm hx hy hq (hk j hj)
    change |product mm d q k i j * scale - scale * _| ≤ _
    rw [mul_comm (product mm d q k i j), ← mul_sub, abs_mul]
    exact mul_le_mul_of_nonneg_left hproduct (abs_nonneg scale)
  have hshift := FlashInt8.softmaxRow_near hskv causal i hscores fun j hj => hv j hj c hc
  have hpos := FlashInt8.sum_exp_maskedScore_pos hskv causal i scores
  have hweighted := near_weighted hmm (n := skv) (i := i) (j := c)
    (p := fun i => softmax realExp skv fun j =>
      maskedScore causal i j (product mm d q k i j * scale)) (v := fun c j => v j c) hz
    (fun j _ => div_nonneg (realExp_isExp.nonneg _) hpos.le) (sum_softmax hpos)
    fun j hj => hv j hj c hc
  have hmean : ∑ j ∈ Finset.range skv, softmax realExp skv
      (fun j => maskedScore causal i j (scores j)) j * v j c =
        softmaxRow realExp skv (fun j => maskedScore causal i j (scores j)) v c := by
    unfold softmax softmaxRow
    rw [Finset.sum_div]
    exact Finset.sum_congr rfl fun j _ => div_mul_eq_mul_div _ _ _
  change |product mm skv _ _ i c - softmaxRow realExp skv
    (fun j => maskedScore causal i j (scale * ∑ c ∈ Finset.range d, q i c * k j c)) v c| ≤ _
  calc _ ≤ ((1 / 16 + skv / 466944) * (1 + rowError) + rowError) * z +
          (Real.exp (2 * (|scale| * (d * ((2 * rowError + rowError ^ 2) * (x * y))))) - 1) * z := by
        refine (abs_sub_le _ _ _).trans (add_le_add hweighted ?_)
        rw [hmean]
        exact hshift
    _ = _ := by ring

/-- The operator is close to softmax attention, for every batch, head, number of queries and
of keys, mask and scale, and whatever bounds a query row, the keys and the values.  The
weights are a row of `skv` casts, so their error grows with the number of keys. -/
theorem call_near_attention {mm : ScaledGroupedMm ℝ} (hmm : Documented mm) {sq skv d : Nat}
    (hskv : 0 < skv) (q k v : Nat → ℝ) (causal : Bool) (scale : Option ℝ) (bh : Nat) {i c : Nat}
    (hi : i < sq) (hc : c < d) {x y z : ℝ} (hx : 0.000001 ≤ x) (hy : 0.000001 ≤ y)
    (hz : 0.000001 ≤ z) (hq : ∀ c < d, |rowOfHead sq d q bh i c| ≤ x)
    (hk : ∀ j < skv, ∀ c < d, |rowOfHead skv d k bh j c| ≤ y)
    (hv : ∀ j < skv, ∀ c < d, |rowOfHead skv d v bh j c| ≤ z) :
    |call ⟨realExp, Real.sqrt⟩ mm sq skv d q k v causal scale ((bh * sq + i) * d + c) -
        attention skv d (scale.getD (1 / Real.sqrt d)) causal (rowOfHead sq d q bh)
          (rowOfHead skv d k bh) (rowOfHead skv d v bh) i c| ≤
      ((1 / 16 + skv / 466944) * (1 + rowError) + rowError +
        (Real.exp (2 * (|scale.getD (1 / Real.sqrt d)| *
          (d * ((2 * rowError + rowError ^ 2) * (x * y))))) - 1)) * z := by
  have hrow : ((bh * sq + i) * d + c) / d = bh * sq + i := by
    rw [Nat.mul_comm, Nat.mul_add_div (by omega), Nat.div_eq_of_lt hc, Nat.add_zero]
  have hcolumn : ((bh * sq + i) * d + c) % d = c := by
    rw [Nat.mul_add_mod_of_lt hc]
  have hhead : (bh * sq + i) / sq = bh := by
    rw [Nat.mul_comm, Nat.mul_add_div (by omega), Nat.div_eq_of_lt hi, Nat.add_zero]
  have hquery : (bh * sq + i) % sq = i := by
    rw [Nat.mul_add_mod_of_lt hi]
  rw [call, hrow, hcolumn, hhead, hquery]
  exact headOutput_near hmm hskv hc causal _ hx hy hz hq hk hv

/-- The product of the documentation. -/
noncomputable def documentedMm : ScaledGroupedMm ℝ :=
  fun n a b sa sb i j => sa i * sb j * ∑ k ∈ Finset.range n, a i k * b j k

theorem call_near_attention_ones :
    |call ⟨realExp, Real.sqrt⟩ documentedMm 16 32 64 (fun _ => 1) (fun _ => 1) (fun _ => 1) true
        none ((2 * 16 + 5) * 64 + 3) -
        attention 32 64 ((none : Option ℝ).getD (1 / Real.sqrt (64 : Nat))) true
          (rowOfHead 16 64 (fun _ => 1) 2) (rowOfHead 32 64 (fun _ => 1) 2)
          (rowOfHead 32 64 (fun _ => 1) 2) 5 3| ≤
      ((1 / 16 + (32 : Nat) / 466944) * (1 + rowError) + rowError +
        (Real.exp (2 * (|(none : Option ℝ).getD (1 / Real.sqrt (64 : Nat))| *
          ((64 : Nat) * ((2 * rowError + rowError ^ 2) * (1 * 1))))) - 1)) * 1 :=
  call_near_attention (fun _ _ _ _ _ _ _ => rfl) (by norm_num) _ _ _ true none 2 (by norm_num)
    (by norm_num) (by norm_num) (by norm_num) (by norm_num) (fun _ _ => by simp [rowOfHead])
    (fun _ _ _ _ => by simp [rowOfHead]) (fun _ _ _ _ => by simp [rowOfHead])

end ScaledMm

end Repercep.Kernels
