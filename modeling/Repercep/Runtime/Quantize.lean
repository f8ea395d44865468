import Mathlib
import Repercep.Foundation.Rounding
set_option autoImplicit false

/-!
# Weights in INT8

The per-channel symmetric scheme of `runtime/quantize.py`: each row of a weight has one scale,
its largest magnitude, kept away from zero, over 127.  Arithmetic is exact and the casts
between float types change nothing.
-/

namespace Repercep.Runtime

open Foundation

namespace Quantize

variable {F ι : Type} [Field F] [LinearOrder F] {outFeatures inFeatures : Nat}

theorem atLeastTwo_127 : Nat.AtLeastTwo 127 := ⟨by decide⟩

attribute [local instance] atLeastTwo_127

/-- A weight of two axes, quantised by rows. -/
structure QuantizedLinear (F : Type) (outFeatures inFeatures : Nat) where
  qweight : Fin outFeatures → Fin inFeatures → Int8
  scale : Fin outFeatures → F
  bias : Option (Fin outFeatures → F)

/-- The largest magnitude of a row, with the floor under it. -/
def rowMax (row : Fin inFeatures → F) : F :=
  max (Finset.univ.fold max 0 fun i => |row i|) 0.00000001

/-- The scale of a row: its largest magnitude is coded by 127. -/
def rowScale (row : Fin inFeatures → F) : F :=
  rowMax row / 127

/-- `quantize_linear_symmetric`; a row without columns has no largest magnitude. -/
def quantizeLinearSymmetric [FloorRing F] (weight : Fin outFeatures → Fin inFeatures → F)
    (bias : Option (Fin outFeatures → F)) : Option (QuantizedLinear F outFeatures inFeatures) :=
  if inFeatures = 0 then
    none
  else
    some
      { qweight := fun j i =>
          Int8.ofInt (min (max (roundEven (weight j i / rowScale (weight j))) (-128)) 127)
        scale := fun j => rowScale (weight j)
        bias := bias }

/-- `dequantize_linear`. -/
def dequantizeLinear (q : QuantizedLinear F outFeatures inFeatures) (j : Fin outFeatures)
    (i : Fin inFeatures) : F :=
  ((q.qweight j i).toInt : F) * q.scale j

/-- `torch.nn.functional.linear`, over any leading axes. -/
def linear (x : ι → Fin inFeatures → F) (w : Fin outFeatures → Fin inFeatures → F)
    (bias : Option (Fin outFeatures → F)) (a : ι) (j : Fin outFeatures) : F :=
  (∑ i, x a i * w j i) + match bias with
    | none => 0
    | some b => b j

/-- The `forward` of a `QuantizedLinearModule`. -/
def forward (q : QuantizedLinear F outFeatures inFeatures) (x : ι → Fin inFeatures → F) :
    ι → Fin outFeatures → F :=
  linear x (dequantizeLinear q) q.bias

/-- The `from_linear` of a `QuantizedLinearModule`. -/
def fromLinear [FloorRing F] (weight : Fin outFeatures → Fin inFeatures → F)
    (bias : Option (Fin outFeatures → F)) : Option (QuantizedLinear F outFeatures inFeatures) :=
  quantizeLinearSymmetric weight bias

section Bounds

variable [IsStrictOrderedRing F]

theorem rowScale_pos (row : Fin inFeatures → F) : 0 < rowScale row := by
  refine div_pos (lt_max_of_lt_right ?_) ?_
  · norm_num
  · norm_num

/-- An entry is at most 127 scales away from zero. -/
theorem abs_div_rowScale_le (row : Fin inFeatures → F) (i : Fin inFeatures) :
    |row i / rowScale row| ≤ 127 := by
  have hpos := rowScale_pos row
  have hentry : |row i| ≤ rowMax row :=
    le_max_of_le_left ((Finset.le_fold_max _).mpr (Or.inr ⟨i, Finset.mem_univ i, le_rfl⟩))
  have hscale : 127 * rowScale row = rowMax row := by
    rw [rowScale]
    field_simp
  rw [abs_div, abs_of_pos hpos, div_le_iff₀ hpos, hscale]
  exact hentry

variable [FloorRing F]

/-- The clamp changes nothing, and a byte holds what it leaves. -/
theorem qweight_toInt (row : Fin inFeatures → F) (i : Fin inFeatures) :
    -127 ≤ roundEven (row i / rowScale row) ∧ roundEven (row i / rowScale row) ≤ 127 ∧
      (Int8.ofInt (min (max (roundEven (row i / rowScale row)) (-128)) 127)).toInt =
        roundEven (row i / rowScale row) := by
  obtain ⟨hlow, hhigh⟩ := abs_le.mp (abs_div_rowScale_le row i)
  obtain ⟨hlow', hhigh'⟩ := roundEven_mem (x := row i / rowScale row) (a := -127) (b := 127)
    (by exact_mod_cast hlow) (by exact_mod_cast hhigh)
  refine ⟨hlow', hhigh', ?_⟩
  rw [max_eq_left (by omega), min_eq_left hhigh', Int8.toInt_ofInt_of_le (by omega) (by omega)]

omit [FloorRing F] in
theorem abs_linear_sub_le {x : ι → Fin inFeatures → F}
    {w w' : Fin outFeatures → Fin inFeatures → F} (bias : Option (Fin outFeatures → F)) {a : ι}
    {j : Fin outFeatures} {c : F} (hc : ∀ i, |w' j i - w j i| ≤ c) :
    |linear x w' bias a j - linear x w bias a j| ≤ c * ∑ i, |x a i| := by
  rw [linear.eq_def, linear.eq_def, add_sub_add_right_eq_sub, ← Finset.sum_sub_distrib, Finset.mul_sum]
  refine (Finset.abs_sum_le_sum_abs _ _).trans (Finset.sum_le_sum fun i _ => ?_)
  rw [← mul_sub, abs_mul, mul_comm c]
  exact mul_le_mul_of_nonneg_left (hc i) (abs_nonneg _)

/-- Every weight with a column, rows of zeros and tiny rows included, is quantised into
[-127, 127] by its rows' scales, which are positive, no entry off by more than half of its
row's; so no output of the quantised module is off by more than that times the input's `L1`
norm. -/
theorem quantize_bounds (hin : 0 < inFeatures) (weight : Fin outFeatures → Fin inFeatures → F)
    (bias : Option (Fin outFeatures → F)) :
    ∃ q, quantizeLinearSymmetric weight bias = some q ∧ fromLinear weight bias = some q ∧
      ∀ j, q.scale j = rowScale (weight j) ∧ 0 < q.scale j ∧
        (∀ i, -127 ≤ (q.qweight j i).toInt ∧ (q.qweight j i).toInt ≤ 127 ∧
          |dequantizeLinear q j i - weight j i| ≤ q.scale j / 2) ∧
        ∀ {ι : Type} (x : ι → Fin inFeatures → F) (a : ι),
          |forward q x a j - linear x weight bias a j| ≤ q.scale j / 2 * ∑ i, |x a i| := by
  have hquantized : quantizeLinearSymmetric weight bias = some _ := if_neg (ne_of_gt hin)
  refine ⟨_, hquantized, hquantized, ?_⟩
  intro j
  have herror : ∀ i, |((Int8.ofInt (min (max (roundEven (weight j i / rowScale (weight j)))
      (-128)) 127)).toInt : F) * rowScale (weight j) - weight j i| ≤ rowScale (weight j) / 2 := by
    intro i
    rw [(qweight_toInt (weight j) i).2.2]
    exact roundEven_scaled (rowScale_pos (weight j)) (weight j i)
  refine ⟨rfl, rowScale_pos (weight j), ?_, fun x a => abs_linear_sub_le bias herror⟩
  intro i
  obtain ⟨hlow, hhigh, hbyte⟩ := qweight_toInt (weight j) i
  refine ⟨?_, ?_, herror i⟩
  · exact hbyte ▸ hlow
  · exact hbyte ▸ hhigh

/-- A row of zeros and a tiny one. -/
theorem quantize_bounds_tiny :
    ∃ q, quantizeLinearSymmetric ![![(0 : ℚ), 0], ![1 / 10 ^ 12, -1 / 10 ^ 13]] none = some q ∧
      q.scale 0 = rowScale ![(0 : ℚ), 0] ∧ 0 < q.scale 0 ∧
        |dequantizeLinear q 1 0 - 1 / 10 ^ 12| ≤ q.scale 1 / 2 := by
  obtain ⟨q, hq, -, hspec⟩ :=
    quantize_bounds Nat.two_pos ![![(0 : ℚ), 0], ![1 / 10 ^ 12, -1 / 10 ^ 13]] none
  exact ⟨q, hq, (hspec 0).1, (hspec 0).2.1, ((hspec 1).2.2.1 0).2.2⟩

end Bounds

end Quantize

end Repercep.Runtime
