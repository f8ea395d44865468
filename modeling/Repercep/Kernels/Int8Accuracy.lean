import Mathlib
import Repercep.Foundation.SoftmaxError
import Repercep.Kernels.Attention
import Repercep.Kernels.Int8Rows
set_option autoImplicit false

/-!
# How far the INT8 kernel is from softmax attention

Bytes times a scale are a 254th of the largest magnitude off.  For the scores that is a
shift, which the softmax turns into a factor; for the weights and the values it is a share of
the weights summed, in every tile.  So the whole is off by a bound that no number of keys
makes larger.  Arithmetic is exact otherwise, and the exponentials are the real one.
-/

namespace Repercep.Kernels

open Foundation
open FlashBf16 (rowOfHead)

namespace FlashInt8

/-! ## Bytes and their scale -/

section Bytes

variable {F : Type} [Field F] [LinearOrder F] [FloorRing F] [IsStrictOrderedRing F]

theorem toInt8_eq {x : F} (hx : |x| ≤ 127) :
    (toInt8 x).toInt = roundEven x ∧ |((toInt8 x).toInt : F)| ≤ 127 := by
  obtain ⟨hlow, hhigh⟩ := abs_le.mp hx
  have hmem : -127 ≤ roundEven x ∧ roundEven x ≤ 127 :=
    roundEven_mem (by push_cast; exact hlow) (by push_cast; exact hhigh)
  have hbyte : (toInt8 x).toInt = roundEven x := by
    rw [toInt8, max_eq_left hmem.1, min_eq_left hmem.2]
    exact Int8.toInt_ofInt_of_le (by omega) (by omega)
  rw [hbyte, abs_le]
  exact ⟨rfl, by exact_mod_cast hmem.1, by exact_mod_cast hmem.2⟩

/-- A number of magnitude `a` at most, as a byte for the largest magnitude `a`. -/
theorem scaled_byte {x a : F} (hx : |x| ≤ a) :
    |scaleOf a * ((toInt8 (x * (1 / scaleOf a))).toInt : F) - x| ≤ a / 254 ∧
      |scaleOf a * ((toInt8 (x * (1 / scaleOf a))).toInt : F)| ≤ a := by
  rcases lt_or_eq_of_le ((abs_nonneg x).trans hx) with ha | ha
  · have hscale : scaleOf a = a / 127 := if_pos ha
    have hpos : 0 < a / 127 := div_pos ha (by norm_num)
    have hle : |x / (a / 127)| ≤ 127 := by
      rw [abs_div, abs_of_pos hpos, div_le_iff₀ hpos]
      linarith
    obtain ⟨hbyte, hbound⟩ := toInt8_eq hle
    rw [hscale, mul_one_div]
    constructor
    · have herror := roundEven_scaled hpos x
      rw [hbyte, mul_comm]
      linarith
    · rw [abs_mul, abs_of_pos hpos]
      calc a / 127 * |((toInt8 (x / (a / 127))).toInt : F)| ≤ a / 127 * 127 :=
            mul_le_mul_of_nonneg_left hbound hpos.le
        _ = a := div_mul_cancel₀ a (by norm_num)
  · -- a row of zeros has the scale one
    have hzero : x = 0 := abs_eq_zero.mp (le_antisymm (ha ▸ hx) (abs_nonneg x))
    have hbyte : (toInt8 (0 : F)).toInt = 0 := by
      rw [(toInt8_eq (by simp)).1]
      exact_mod_cast roundEven_intCast (F := F) 0
    rw [hzero, ← ha, zero_mul, hbyte]
    simp

/-- A row's bytes times its scale, where `a` bounds the row. -/
theorem near_row {n j : Nat} {f : Nat → F} {a : F} (hf : ∀ j < n, |f j| ≤ a) (hj : j < n) :
    |rowScale n f * ((rowInt8 n f j).toInt : F) - f j| ≤ a / 254 ∧
      |rowScale n f * ((rowInt8 n f j).toInt : F)| ≤ a := by
  have hle : absmax n f ≤ a :=
    absmax_le_iff.mpr ⟨(abs_nonneg _).trans (hf j hj), hf⟩
  obtain ⟨herror, hbound⟩ := scaled_byte ((absmax_le_iff.mp (le_refl (absmax n f))).2 j hj)
  refine ⟨herror.trans ?_, hbound.trans hle⟩
  exact div_le_div_of_nonneg_right hle (by norm_num)

/-- A tile's bytes times its scale. -/
theorem near_tile {D n d : Nat} {v : Nat → Nat → F} {a : F} (hv : ∀ n < 32, ∀ d < D, |v n d| ≤ a)
    (hn : n < 32) (hd : d < D) :
    |tileScale D v * ((tileInt8 D v n d).toInt : F) - v n d| ≤ a / 254 ∧
      |tileScale D v * ((tileInt8 D v n d).toInt : F)| ≤ a := by
  have hle : tileAbsmax D v ≤ a :=
    tileAbsmax_le_iff.mpr ⟨(abs_nonneg _).trans (hv n hn d hd), hv⟩
  obtain ⟨herror, hbound⟩ :=
    scaled_byte ((tileAbsmax_le_iff.mp (le_refl (tileAbsmax D v))).2 n hn d hd)
  refine ⟨herror.trans ?_, hbound.trans hle⟩
  exact div_le_div_of_nonneg_right hle (by norm_num)

omit [FloorRing F] [LinearOrder F] [IsStrictOrderedRing F] in
/-- A product of rows of bytes, scaled. -/
theorem dotInt8_scaled (n : Nat) (a b : Nat → Int8) (sa sb : F) :
    (dotInt8 n a b : F) * (sa * sb) =
      ∑ j ∈ Finset.range n, sa * ((a j).toInt : F) * (sb * ((b j).toInt : F)) := by
  rw [dotInt8, Int.cast_sum, Finset.sum_mul]
  refine Finset.sum_congr rfl fun j _ => ?_
  push_cast
  ring

/-- A score, from the bytes of both rows. -/
theorem near_score {D : Nat} (smScale : F) {a b : Nat → F} {A B : F} (ha : ∀ c < D, |a c| ≤ A)
    (hb : ∀ c < D, |b c| ≤ B) :
    |scoreInt8 D smScale a b - smScale * ∑ c ∈ Finset.range D, a c * b c| ≤
      |smScale| * (D * (A * B / 127)) := by
  have hscore : scoreInt8 D smScale a b = smScale * ∑ c ∈ Finset.range D,
      rowScale D a * ((rowInt8 D a c).toInt : F) * (rowScale D b * ((rowInt8 D b c).toInt : F)) := by
    rw [← dotInt8_scaled, scoreInt8]
    ring
  have hterm : ∀ c < D, |rowScale D a * ((rowInt8 D a c).toInt : F) *
      (rowScale D b * ((rowInt8 D b c).toInt : F)) - a c * b c| ≤ A * B / 127 := by
    intro c hc
    have hproduct := abs_mul_sub_mul_le (near_row ha hc).1 (near_row hb hc).1 (ha c hc)
      (near_row hb hc).2
    calc _ ≤ A / 254 * B + A * (B / 254) := hproduct
      _ = A * B / 127 := by ring
  rw [hscore, ← mul_sub, ← Finset.sum_sub_distrib, abs_mul]
  exact mul_le_mul_of_nonneg_left (abs_sum_range_le hterm) (abs_nonneg smScale)

/-- A tile's weighted sum, from the bytes of the weights and of the values: a share of the
weights off. -/
theorem near_weighted {D d kvt : Nat} {v : Nat → Nat → F} {A : F}
    (hv : ∀ n < 32, ∀ d < D, |v (kvt * 32 + n) d| ≤ A) (hd : d < D) {p : Nat → F}
    (hp : ∀ j < 32, 0 ≤ p j) :
    |weightedInt8 D v kvt p d - ∑ j ∈ Finset.range 32, p j * v (kvt * 32 + j) d| ≤
      33 / 254 * A * ∑ j ∈ Finset.range 32, p j := by
  let P := ∑ j ∈ Finset.range 32, p j
  have hle : ∀ j < 32, |p j| ≤ P := fun j hj => abs_le_sum_range hp hj
  have hterm : ∀ j ∈ Finset.range 32, |rowScale 32 p * ((rowInt8 32 p j).toInt : F) *
      (tileScale D (fun n => v (kvt * 32 + n)) *
        ((tileInt8 D (fun n => v (kvt * 32 + n)) j d).toInt : F)) - p j * v (kvt * 32 + j) d| ≤
      P / 254 * A + p j * (A / 254) := by
    intro j hj
    have hj := Finset.mem_range.mp hj
    exact abs_mul_sub_mul_le (near_row hle hj).1 (near_tile hv hj hd).1
      (le_of_eq (abs_of_nonneg (hp j hj))) (near_tile hv hj hd).2
  rw [weightedInt8, dotInt8_scaled, ← Finset.sum_sub_distrib]
  calc _ ≤ ∑ j ∈ Finset.range 32, (P / 254 * A + p j * (A / 254)) :=
        (Finset.abs_sum_le_sum_abs _ _).trans (Finset.sum_le_sum hterm)
    _ = 32 * (P / 254 * A) + P * (A / 254) := by
        rw [Finset.sum_add_distrib, Finset.sum_const, Finset.card_range, nsmul_eq_mul,
          ← Finset.sum_mul, Nat.cast_ofNat]
    _ = 33 / 254 * A * P := by ring

end Bytes

/-! ## One row -/

section Row

variable {F : Type} [Field F] [LinearOrder F] [IsStrictOrderedRing F]

/-- A query's loop whose tiles' weighted sums are a share of the weights off computes its
softmax row up to that share. -/
theorem attendRow_near {e : WithBot F → F} (he : IsExp e) (isCausal : Bool) {sKv i : Nat}
    (hs : 32 ∣ sKv) (hi : i < sKv) (s : Nat → F) (v : Nat → Nat → F) {c : F} {d : Nat}
    {weighted : Nat → (Nat → F) → Nat → F}
    (hweighted : ∀ kvt < sKv / 32, ∀ p : Nat → F, (∀ j < 32, 0 ≤ p j) →
      |weighted kvt p d - ∑ j ∈ Finset.range 32, p j * v (kvt * 32 + j) d| ≤
        c * ∑ j ∈ Finset.range 32, p j) :
    ∃ r, attendRow ⟨e, e⟩ isCausal sKv i s weighted = some r ∧
      |rowOutput r d - softmaxRow e sKv (fun j => maskedScore isCausal i j (s j)) v d| ≤ c := by
  obtain ⟨r, n, m, hrun, hnear, hm, hn, hmasked⟩ := attendRow_run (e := ⟨e, e⟩) weighted
    (I := RowState.Near e (fun j => maskedScore isCausal i j (s j)) v c d) hs hi
    RowState.near_start fun k hk r m hr hm => hr.absorb he (hweighted k hk) hm
  obtain ⟨hsum, herror⟩ := hnear.finish he (hnear.max_eq.trans hm)
  refine ⟨r, hrun, ?_⟩
  rw [rowOutput, if_pos hsum, softmaxRow_masked he hn hmasked]
  exact herror

end Row

/-! ## The kernel -/

section Operator

variable {B H S D : Nat}

/-- The first key is visible. -/
theorem sum_exp_maskedScore_pos {n : Nat} (hn : 0 < n) (isCausal : Bool) (i : Nat) (s : Nat → ℝ) :
    0 < ∑ j ∈ Finset.range n, realExp (maskedScore isCausal i j (s j)) := by
  refine Finset.sum_pos' (fun j _ => realExp_isExp.nonneg _) ⟨0, Finset.mem_range.mpr hn, ?_⟩
  rw [maskedScore_zero]
  exact Real.exp_pos _

/-- Scores that are `x` off at most shift the softmax row by a factor. -/
theorem softmaxRow_near {n : Nat} (hn : 0 < n) (isCausal : Bool) (i : Nat) {s s' : Nat → ℝ}
    {v : Nat → Nat → ℝ} {d : Nat} {x A : ℝ} (hs : ∀ j < n, |s' j - s j| ≤ x)
    (hv : ∀ j < n, |v j d| ≤ A) :
    |softmaxRow realExp n (fun j => maskedScore isCausal i j (s' j)) v d -
      softmaxRow realExp n (fun j => maskedScore isCausal i j (s j)) v d| ≤
        (Real.exp (2 * x) - 1) * A := by
  have hx : 0 ≤ x := (abs_nonneg _).trans (hs 0 hn)
  have hfactor : ∀ {a b : ℝ}, a - b ≤ x → ∀ j, realExp (maskedScore isCausal i j a) ≤
      Real.exp x * realExp (maskedScore isCausal i j b) := by
    intro a b hab j
    unfold maskedScore
    split
    · rw [realExp_isExp.bot, mul_zero]
    · change Real.exp a ≤ Real.exp x * Real.exp b
      rw [← Real.exp_add]
      exact Real.exp_le_exp.mpr (by linarith)
  have hmean := abs_mean_sub_le (Real.one_le_exp hx)
    (fun j _ => realExp_isExp.nonneg (maskedScore isCausal i j (s j)))
    (fun j _ => realExp_isExp.nonneg (maskedScore isCausal i j (s' j)))
    (sum_exp_maskedScore_pos hn isCausal i s)
    (fun j hj => hfactor (by have h := abs_le.mp (hs j hj); linarith) j)
    (fun j hj => hfactor (by have h := abs_le.mp (hs j hj); linarith) j) hv
  rw [← Real.exp_nat_mul] at hmean
  exact_mod_cast hmean

/-- The INT8 kernel is close to softmax attention: for every shape it accepts, scale and mask,
and whatever bounds a query row, the keys and the values, each element it writes is within a
bound that depends on these, the features and the scale, and not on how many keys there are. -/
theorem flashAttnInt8_near_attention (mode : Overflow) (hS : 0 < S) (hS' : 32 ∣ S)
    (hD : D = 64 ∨ D = 128) (Q K V : Nat → ℝ) (smScale : ℝ) (isCausal : Bool) :
    ∃ O, flashAttnInt8 mode ⟨realExp, realExp⟩ B H S D (Buffer.ofFn (B * H * S * D) Q)
        (Buffer.ofFn (B * H * S * D) K) (Buffer.ofFn (B * H * S * D) V) smScale isCausal =
          some O ∧
      ∀ b < B, ∀ h < H, ∀ i < S, ∀ x y z : ℝ,
        (∀ c < D, |rowOfHead S D Q (b * H + h) i c| ≤ x) →
        (∀ j < S, ∀ c < D, |rowOfHead S D K (b * H + h) j c| ≤ y) →
        (∀ j < S, ∀ d < D, |rowOfHead S D V (b * H + h) j d| ≤ z) →
        ∀ d < D, ∃ o, O.load (((b * H + h) * S + i) * D + d) = some o ∧
          |o - attention S D smScale isCausal (rowOfHead S D Q (b * H + h))
              (rowOfHead S D K (b * H + h)) (rowOfHead S D V (b * H + h)) i d| ≤
            (33 / 254 + (Real.exp (2 * (|smScale| * (D * (x * y / 127)))) - 1)) * z := by
  obtain ⟨O, hrun, -, hrows⟩ := flashAttnInt8_eq (B := B) (H := H) mode ⟨realExp, realExp⟩ hS hS' hD
    Q K V smScale isCausal
  refine ⟨O, hrun, ?_⟩
  intro b hb h hh i hi x y z hx hy hz d hd
  obtain ⟨r, hr, hload⟩ := hrows b hb h hh i hi
  refine ⟨rowOutput r d, hload d hd, ?_⟩
  obtain ⟨r', hr', hnear⟩ := attendRow_near realExp_isExp isCausal hS' hi
    (fun j => scoreInt8 D smScale (rowOfHead S D Q (b * H + h) i) (rowOfHead S D K (b * H + h) j))
    (rowOfHead S D V (b * H + h)) (d := d) (c := 33 / 254 * z) fun kvt hkvt p hp =>
      near_weighted (fun n hn d hd => hz (kvt * 32 + n) (by omega) d hd) hd hp
  cases hr.symm.trans hr'
  have hscores := softmaxRow_near hS isCausal i
    (fun j hj => near_score smScale hx (hy j hj)) fun j hj => hz j hj d hd
  have hattention : attention S D smScale isCausal (rowOfHead S D Q (b * H + h))
      (rowOfHead S D K (b * H + h)) (rowOfHead S D V (b * H + h)) i d =
        softmaxRow realExp S (fun j => maskedScore isCausal i j (smScale *
          ∑ c ∈ Finset.range D, rowOfHead S D Q (b * H + h) i c *
            rowOfHead S D K (b * H + h) j c)) (rowOfHead S D V (b * H + h)) d := rfl
  rw [hattention]
  calc _ ≤ 33 / 254 * z + (Real.exp (2 * (|smScale| * (D * (x * y / 127)))) - 1) * z :=
        (abs_sub_le _ _ _).trans (add_le_add hnear hscores)
    _ = _ := by ring

/-- A head of two tiles under a causal mask: a row of the second tile of queries, which sees the
first tile of keys and a part of the second. -/
theorem flashAttnInt8_near_attention_twoTiles :
    let Q : Nat → ℝ := fun a => if a % 2 = 0 then 1 else -2
    let K : Nat → ℝ := fun a => if a % 64 = 0 then -1 else 1 / 2
    let V : Nat → ℝ := fun a => if a / 64 % 2 = 0 then 3 else -3
    ∃ O, flashAttnInt8 .traps ⟨realExp, realExp⟩ 1 1 64 64 (Buffer.ofFn (1 * 1 * 64 * 64) Q)
        (Buffer.ofFn (1 * 1 * 64 * 64) K) (Buffer.ofFn (1 * 1 * 64 * 64) V) (1 / 8) true = some O ∧
      ∃ o, O.load (((0 * 1 + 0) * 64 + 40) * 64 + 63) = some o ∧
        |o - attention 64 64 (1 / 8) true (rowOfHead 64 64 Q (0 * 1 + 0))
            (rowOfHead 64 64 K (0 * 1 + 0)) (rowOfHead 64 64 V (0 * 1 + 0)) 40 63| ≤
          (33 / 254 + (Real.exp (2 * (|1 / 8| * ((64 : Nat) * (2 * 1 / 127)))) - 1)) * 3 := by
  intro Q K V
  obtain ⟨O, hrun, hrows⟩ := flashAttnInt8_near_attention (B := 1) (H := 1) (S := 64) .traps
    (by decide) (by decide) (Or.inl rfl) Q K V (1 / 8) true
  refine ⟨O, hrun, hrows 0 (by decide) 0 (by decide) 40 (by decide) 2 1 3 ?_ ?_ ?_ 63 (by decide)⟩
  · intro c _
    simp only [rowOfHead, Q]
    split <;> norm_num
  · intro j _ c _
    simp only [rowOfHead, K]
    split <;> norm_num
  · intro j _ d _
    simp only [rowOfHead, V]
    split <;> norm_num

end Operator

end FlashInt8

end Repercep.Kernels
