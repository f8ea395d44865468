import Mathlib
import Repercep.Kernels.CausalTiles
set_option autoImplicit false

/-!
# Later values of a query's own tile

How far the isolation of earlier rows goes: the rows after a query, up to the end of its tile,
are masked in the scores, but their values still count.  In the `BF16` kernel a masked weight
is not zero; in the `INT8` kernel the scale of the tile is that of all its values.
-/

namespace Repercep.Kernels

open Foundation
open FlashBf16 (rowOfHead dot)

/-! ## One value -/

section Cell

variable {F : Type} [Field F] {S D i : Nat}

/-- A tensor with `x` in row `i` of the first head, in the first column, and zero elsewhere. -/
def cell (D i : Nat) (x : F) (a : Nat) : F :=
  if a = i * D then x else 0

theorem rowOfHead_cell (hi : i < S) (x : F) {bh j d : Nat} (hj : j < S) (hd : d < D) :
    rowOfHead S D (cell D i x) bh j d = if bh = 0 ∧ j = i ∧ d = 0 then x else 0 := by
  refine if_congr ?_ rfl rfl
  constructor
  · intro h
    have h' : (bh * S + j) * D + d = (0 * S + i) * D + 0 := by rw [h]; ring
    obtain ⟨hrow, hd'⟩ := rowMajor_injective hd (by omega) h'
    obtain ⟨hbh, hj'⟩ := rowMajor_injective hj hi hrow
    exact ⟨hbh, hj', hd'⟩
  · intro h
    obtain ⟨rfl, rfl, rfl⟩ := h
    ring

/-- Rows before the value are the same with and without it. -/
theorem agreeTo_cell {B H n : Nat} (hn : n ≤ i) (hi : i < S) (x : F) (t : Nat → F) :
    AgreeTo B H S D n t fun a => t a + cell D i x a := by
  intro b _ h _ j hj d hd
  have hzero : rowOfHead S D (cell D i x) (b * H + h) j d = 0 := by
    rw [rowOfHead_cell hi x (hj.trans (hn.trans_lt hi)) hd, if_neg (by omega)]
  exact (congrArg (t _ + ·) hzero).trans (add_zero _)

end Cell

/-- Runs with the same rows have the same row outputs, in the first head say. -/
theorem SameRows.rowOutput {F : Type} [Field F] [LinearOrder F] {B H S D n : Nat}
    {run run' : Option (Buffer F)} {row row' : Nat → Nat → Option (RowState F Nat)}
    (h : SameRows B H S D n run run')
    (hrun : ∃ O, run = some O ∧ O.size = B * H * S * D ∧ ∀ b < B, ∀ h < H, ∀ i < S, ∃ r,
      row (b * H + h) i = some r ∧
        ∀ d < D, O.load (((b * H + h) * S + i) * D + d) = some (rowOutput r d))
    (hrun' : ∃ O, run' = some O ∧ O.size = B * H * S * D ∧ ∀ b < B, ∀ h < H, ∀ i < S, ∃ r,
      row' (b * H + h) i = some r ∧
        ∀ d < D, O.load (((b * H + h) * S + i) * D + d) = some (rowOutput r d))
    (hB : 0 < B) (hH : 0 < H) {i d : Nat} (hi : i < S) (hin : i < n) (hd : d < D)
    {r r' : RowState F Nat} (hr : row 0 i = some r) (hr' : row' 0 i = some r') :
    rowOutput r d = rowOutput r' d := by
  obtain ⟨O, O', hO, hO', hsame⟩ := h
  obtain ⟨O₁, hO₁, -, hrows⟩ := hrun
  obtain ⟨O₁', hO₁', -, hrows'⟩ := hrun'
  cases hO.symm.trans hO₁
  cases hO'.symm.trans hO₁'
  obtain ⟨x, hx, hx'⟩ := hsame 0 hB 0 hH i hin d hd
  obtain ⟨s, hs, hload⟩ := hrows 0 hB 0 hH i hi
  obtain ⟨s', hs', hload'⟩ := hrows' 0 hB 0 hH i hi
  rw [Nat.zero_mul] at hs hs'
  cases hr.symm.trans hs
  cases hr'.symm.trans hs'
  have hleft : some (Kernels.rowOutput r d) = some x := (hload d hd).symm.trans hx
  have hright : some (Kernels.rowOutput r' d) = some x := (hload' d hd).symm.trans hx'
  exact Option.some_inj.mp (hleft.trans hright.symm)

/-- The exponentials of the kernels, the library's taken to be the real one. -/
noncomputable def kernelExps : Exponentials ℝ where
  stdExp := realExp
  expPs := expPs

/-! ## The weight of a masked value -/

section Bf16

variable {B H S D i : Nat}

theorem FlashBf16.headRow_zeroKeys {S D bh i : Nat} (hi : i < S) (hS : 32 ∣ S) (Q V : Nat → ℝ)
    (smScale : ℝ) {d : Nat}
    (hearlier : ∀ kvt < i / 32, ∀ p,
      FlashBf16.weightedValues (rowOfHead S D V bh) kvt p d = 0) :
    ∃ r, FlashBf16.headRow kernelExps S D Q (fun _ => 0) V smScale true bh i = some r ∧
      0 < r.sum ∧ r.acc d = FlashBf16.weightedValues (rowOfHead S D V bh) (i / 32)
        (fun j => expPs (maskedScore true i (i / 32 * 32 + j) 0)) d := by
  have hzero : (fun j => dot D (rowOfHead S D Q bh) (rowOfHead S D (fun _ => 0) bh) i j * smScale) =
      fun _ => 0 := by
    funext j
    rw [dot, Finset.sum_eq_zero fun d _ => mul_zero _, zero_mul]
  rw [FlashBf16.headRow, hzero]
  exact attendRow_zero realExp_isExp.nonneg expPs_pos hi hS hearlier

/-- The weighted sum of one value. -/
theorem FlashBf16.weightedValues_cell (hS : 32 ∣ S) (hi : i + 1 < S) (hlast : i % 32 ≠ 31)
    (x : ℝ) {kvt : Nat}
    (hkvt : kvt ≤ i / 32) (hD : 0 < D) (p : Nat → ℝ) :
    FlashBf16.weightedValues (rowOfHead S D (fun a => 0 + cell D (i + 1) x a) 0) kvt p 0 =
      if kvt = i / 32 then p (i % 32 + 1) * x else 0 := by
  have hcell : ∀ j < 32, rowOfHead S D (fun a => 0 + cell D (i + 1) x a) 0 (kvt * 32 + j) 0 =
      if kvt = i / 32 ∧ j = i % 32 + 1 then x else 0 := by
    intro j hj
    have hinside : kvt * 32 + j < S := by omega
    refine (zero_add _).trans ((rowOfHead_cell hi x hinside hD).trans ?_)
    exact if_congr (by omega) rfl rfl
  rw [FlashBf16.weightedValues]
  split
  · next hown =>
      rw [Finset.sum_eq_single_of_mem (i % 32 + 1) (Finset.mem_range.mpr (by omega)),
        hcell _ (by omega), if_pos ⟨hown, rfl⟩]
      intro j hj hne
      rw [hcell j (Finset.mem_range.mp hj), if_neg fun h => hne h.2, mul_zero]
  · next hother =>
      refine Finset.sum_eq_zero fun j hj => ?_
      rw [hcell j (Finset.mem_range.mp hj), if_neg fun h => hother h.1, mul_zero]

/-- A value after row `i` in its tile changes row `i` of the `BF16` kernel's output: its weight
is the one that minus infinity gets. -/
theorem FlashBf16.not_sameRows (hB : 0 < B) (hH : 0 < H) (hS' : 32 ∣ S) (hD : D = 64 ∨ D = 128)
    (Q : Nat → ℝ) (smScale : ℝ) (hi : i < S) (hlast : i % 32 ≠ 31) :
    ¬ SameRows B H S D (i + 1)
      (FlashBf16.flashAttnBf16 kernelExps B H S D (Buffer.ofFn (B * H * S * D) Q)
        (Buffer.ofFn (B * H * S * D) fun _ => 0) (Buffer.ofFn (B * H * S * D) fun _ => 0)
        smScale true)
      (FlashBf16.flashAttnBf16 kernelExps B H S D (Buffer.ofFn (B * H * S * D) Q)
        (Buffer.ofFn (B * H * S * D) fun _ => 0)
        (Buffer.ofFn (B * H * S * D) fun a => 0 + cell D (i + 1) 1 a) smScale true) := by
  intro hsame
  have hS : 0 < S := by omega
  have hnext : i + 1 < S := by omega
  have hcolumns : 0 < D := by omega
  have hnone : ∀ kvt p, FlashBf16.weightedValues (rowOfHead S D (fun _ => (0 : ℝ)) 0) kvt p 0 = 0 :=
    fun kvt p => Finset.sum_eq_zero fun j _ => mul_zero _
  obtain ⟨r, hr, -, hacc⟩ := FlashBf16.headRow_zeroKeys hi hS' Q (fun _ => 0) smScale
    fun kvt _ p => hnone kvt p
  obtain ⟨r', hr', hsum', hacc'⟩ := FlashBf16.headRow_zeroKeys hi hS' Q
    (fun a => 0 + cell D (i + 1) 1 a) smScale (fun kvt hkvt p => by
      rw [FlashBf16.weightedValues_cell hS' hnext hlast 1 hkvt.le hcolumns, if_neg hkvt.ne])
  have hout := hsame.rowOutput
    (FlashBf16.flashAttnBf16_eq kernelExps hS hS' hD Q (fun _ => 0) (fun _ => 0) smScale true)
    (FlashBf16.flashAttnBf16_eq kernelExps hS hS' hD Q (fun _ => 0)
      (fun a => 0 + cell D (i + 1) 1 a) smScale true) hB hH hi (Nat.lt_succ_self i) hcolumns
    hr hr'
  rw [FlashBf16.weightedValues_cell hS' hnext hlast 1 le_rfl hcolumns, if_pos rfl, mul_one] at hacc'
  have hleft : rowOutput r 0 = 0 := by
    rw [rowOutput, hacc, hnone, zero_mul]
  have hright : 0 < rowOutput r' 0 := by
    rw [rowOutput, hacc', if_pos hsum']
    exact mul_pos (expPs_pos _) (one_div_pos.mpr hsum')
  exact hright.ne (hleft.symm.trans hout)

end Bf16

/-! ## The scale of a tile -/

section Int8

namespace FlashInt8

section Bytes

variable {F : Type} [Field F] [LinearOrder F]

theorem absmax_eq {n : Nat} {f : Nat → F} {c : F} (hle : ∀ j < n, |f j| ≤ c) {j : Nat} (hj : j < n)
    (hc : |f j| = c) (hpos : 0 ≤ c) : absmax n f = c :=
  le_antisymm (absmax_le_iff.mpr ⟨hpos, hle⟩) (hc ▸ (absmax_le_iff.mp le_rfl).2 j hj)

theorem tileAbsmax_eq {D : Nat} {v : Nat → Nat → F} {c : F}
    (hle : ∀ n < 32, ∀ d < D, |v n d| ≤ c) {n d : Nat} (hn : n < 32) (hd : d < D)
    (hc : |v n d| = c) (hpos : 0 ≤ c) : tileAbsmax D v = c :=
  le_antisymm (tileAbsmax_le_iff.mpr ⟨hpos, hle⟩) (hc ▸ (tileAbsmax_le_iff.mp le_rfl).2 n hn d hd)

variable [FloorRing F] [IsStrictOrderedRing F]

theorem toInt8_small {x : F} (h : |x| < 1 / 2) : toInt8 x = 0 := by
  rw [toInt8, roundEven_small h]
  rfl

theorem toInt8_last : toInt8 (127 : F) = 127 := by
  have hround : roundEven (127 : F) = 127 := by
    have hcast := roundEven_intCast (F := F) 127
    rwa [show ((127 : Int) : F) = 127 by norm_num] at hcast
  rw [toInt8, hround]
  rfl

/-- A tile whose values are zero in a column gives nothing there. -/
theorem weightedInt8_zero {D : Nat} {v : Nat → Nat → F} {kvt d : Nat}
    (h : ∀ j < 32, v (kvt * 32 + j) d = 0) (p : Nat → F) : weightedInt8 D v kvt p d = 0 := by
  have hbyte : ∀ j < 32, tileInt8 D (fun n => v (kvt * 32 + n)) j d = 0 := by
    intro j hj
    rw [tileInt8, h j hj, zero_mul]
    exact toInt8_small (by rw [abs_zero]; exact one_half_pos)
  have hdot : dotInt8 32 (rowInt8 32 p) (fun j => tileInt8 D (fun n => v (kvt * 32 + n)) j d) =
      0 := dotInt8_eq_zero fun j hj => Or.inr (hbyte j hj)
  rw [weightedInt8, hdot, Int.cast_zero, zero_mul]

end Bytes

section Own

variable {D i : Nat}

/-- The weights of a query's own tile when all its visible scores are zero. -/
noncomputable def ownWeights (i j : Nat) : ℝ :=
  expPs (maskedScore true i (i / 32 * 32 + j) 0)

theorem ownWeights_own (i : Nat) : ownWeights i (i % 32) = 1 := by
  rw [ownWeights, Nat.div_add_mod', maskedScore, if_neg fun h => Nat.lt_irrefl i h.2]
  exact expPs_zero

theorem ownWeights_next (i : Nat) : ownWeights i (i % 32 + 1) = expPs ⊥ := by
  rw [ownWeights, maskedScore, if_pos ⟨rfl, by omega⟩]

theorem abs_ownWeights_le (i j : Nat) : |ownWeights i j| ≤ 1 := by
  rw [ownWeights, abs_of_pos (expPs_pos _), maskedScore]
  split
  · have hsmall : (expPs ⊥ : ℝ) * 127 < 1 / 2 := expPs_bot_lt
    linarith
  · exact le_of_eq expPs_zero

theorem rowScale_ownWeights (i : Nat) : rowScale 32 (ownWeights i) = 1 / 127 := by
  have habsmax : absmax 32 (ownWeights i) = 1 :=
    absmax_eq (fun j _ => abs_ownWeights_le i j) (Nat.mod_lt i (by decide))
      (by rw [ownWeights_own, abs_one]) zero_le_one
  rw [rowScale, habsmax, scaleOf, if_pos one_pos]

/-- The query's own weight fills the range of a byte. -/
theorem rowInt8_own (i : Nat) : rowInt8 32 (ownWeights i) (i % 32) = 127 := by
  rw [rowInt8, rowScale_ownWeights, ownWeights_own, one_div_one_div, one_mul, toInt8_last]

/-- The weight of minus infinity is too small for a byte. -/
theorem rowInt8_next (i : Nat) : rowInt8 32 (ownWeights i) (i % 32 + 1) = 0 := by
  rw [rowInt8, rowScale_ownWeights, ownWeights_next, one_div_one_div]
  refine toInt8_small ?_
  rw [abs_of_pos (mul_pos (expPs_pos _) (by norm_num))]
  exact expPs_bot_lt

/-- One value, at the query itself, comes through. -/
theorem weightedInt8_alone {v : Nat → Nat → ℝ} (hD : 0 < D)
    (hv : ∀ n < 32, ∀ d < D, v (i / 32 * 32 + n) d = if n = i % 32 ∧ d = 0 then 1 else 0) :
    weightedInt8 D v (i / 32) (ownWeights i) 0 = 1 := by
  have hi : i % 32 < 32 := Nat.mod_lt i (by decide)
  have hown : v (i / 32 * 32 + i % 32) 0 = 1 := by
    rw [hv _ hi 0 hD, if_pos ⟨rfl, rfl⟩]
  have habsmax : tileAbsmax D (fun n => v (i / 32 * 32 + n)) = 1 := by
    refine tileAbsmax_eq (fun n hn d hd => ?_) hi hD (by rw [hown, abs_one]) zero_le_one
    rw [hv n hn d hd]
    split
    · exact abs_one.le
    · exact abs_zero.trans_le zero_le_one
  have hscale : tileScale D (fun n => v (i / 32 * 32 + n)) = 1 / 127 := by
    rw [tileScale, habsmax, scaleOf, if_pos one_pos]
  have hbyte : ∀ j < 32, tileInt8 D (fun n => v (i / 32 * 32 + n)) j 0 =
      if j = i % 32 then 127 else 0 := by
    intro j hj
    rw [tileInt8, hscale, hv j hj 0 hD]
    split
    · next h => rw [if_pos h.1, one_div_one_div, one_mul, toInt8_last]
    · next h =>
        rw [if_neg fun hown => h ⟨hown, rfl⟩, zero_mul]
        exact toInt8_small (by norm_num)
  have hdot : dotInt8 32 (rowInt8 32 (ownWeights i))
      (fun j => tileInt8 D (fun n => v (i / 32 * 32 + n)) j 0) = 127 * 127 := by
    rw [dotInt8_congr hbyte, dotInt8, Finset.sum_eq_single_of_mem _ (Finset.mem_range.mpr hi),
      rowInt8_own, if_pos rfl]
    · rfl
    · intro j _ hne
      rw [if_neg hne]
      exact mul_zero _
  rw [weightedInt8, hdot, rowScale_ownWeights, hscale]
  norm_num

/-- Beside a value that is large enough, in a row that is masked, it is lost. -/
theorem weightedInt8_lost {v : Nat → Nat → ℝ} (hD : 0 < D) (hlast : i % 32 ≠ 31)
    (hv : ∀ n < 32, ∀ d < D, v (i / 32 * 32 + n) d =
      (if n = i % 32 ∧ d = 0 then 1 else 0) + if n = i % 32 + 1 ∧ d = 0 then 1000 else 0) :
    weightedInt8 D v (i / 32) (ownWeights i) 0 = 0 := by
  have hi : i % 32 + 1 < 32 := by omega
  have hnext : v (i / 32 * 32 + (i % 32 + 1)) 0 = 1000 := by
    rw [hv _ hi 0 hD, if_neg (by omega), if_pos ⟨rfl, rfl⟩, zero_add]
  have habsmax : tileAbsmax D (fun n => v (i / 32 * 32 + n)) = 1000 := by
    refine tileAbsmax_eq (fun n hn d hd => ?_) hi hD (by rw [hnext]; norm_num) (by norm_num)
    rw [hv n hn d hd]
    split
    · next h =>
        rw [if_neg (by omega)]
        norm_num
    · split
      · norm_num
      · norm_num
  have hscale : tileScale D (fun n => v (i / 32 * 32 + n)) = 1000 / 127 := by
    rw [tileScale, habsmax, scaleOf, if_pos (by norm_num)]
  have hdot : dotInt8 32 (rowInt8 32 (ownWeights i))
      (fun j => tileInt8 D (fun n => v (i / 32 * 32 + n)) j 0) = 0 := by
    refine dotInt8_eq_zero fun j hj => ?_
    by_cases hj' : j = i % 32 + 1
    · exact Or.inl (hj' ▸ rowInt8_next i)
    · refine Or.inr ?_
      have hother : ¬ (j = i % 32 + 1 ∧ 0 = 0) := fun h => hj' h.1
      rw [tileInt8, hscale, hv j hj 0 hD, if_neg hother, add_zero]
      refine toInt8_small ?_
      split
      · norm_num
      · norm_num
  rw [weightedInt8, hdot, Int.cast_zero, zero_mul]

end Own

section Rows

variable {B H S D i : Nat}

theorem headRow_zeroKeys (bh : Nat) (hi : i < S) (hS : 32 ∣ S) (Q V : Nat → ℝ) (smScale : ℝ)
    {d : Nat} (hearlier : ∀ kvt < i / 32, ∀ p, weightedInt8 D (rowOfHead S D V bh) kvt p d = 0) :
    ∃ r, headRow kernelExps S D Q (fun _ => 0) V smScale true bh i = some r ∧ 0 < r.sum ∧
      r.acc d = weightedInt8 D (rowOfHead S D V bh) (i / 32) (ownWeights i) d := by
  have hzero : (fun j => scoreInt8 D smScale (rowOfHead S D Q bh i)
      (rowOfHead S D (fun _ => 0) bh j)) = fun _ => 0 := by
    funext j
    have hdot : dotInt8 D (rowInt8 D (rowOfHead S D Q bh i))
        (rowInt8 D (rowOfHead S D (fun _ => (0 : ℝ)) bh j)) = 0 := by
      refine dotInt8_eq_zero fun d _ => Or.inr ?_
      rw [rowInt8, rowOfHead, zero_mul]
      exact toInt8_small (by norm_num)
    rw [scoreInt8, hdot, Int.cast_zero, zero_mul]
  rw [headRow, hzero]
  exact attendRow_zero realExp_isExp.nonneg expPs_pos hi hS hearlier

/-- A large value after row `i` in its tile changes row `i` of the `INT8` kernel's output: the
scale of the tile leaves nothing of the row's own value. -/
theorem not_sameRows (mode : Overflow) (hB : 0 < B) (hH : 0 < H) (hS' : 32 ∣ S)
    (hD : D = 64 ∨ D = 128) (Q : Nat → ℝ) (smScale : ℝ) (hi : i < S) (hlast : i % 32 ≠ 31) :
    ¬ SameRows B H S D (i + 1)
      (flashAttnInt8 mode kernelExps B H S D (Buffer.ofFn (B * H * S * D) Q)
        (Buffer.ofFn (B * H * S * D) fun _ => 0) (Buffer.ofFn (B * H * S * D) (cell D i 1))
        smScale true)
      (flashAttnInt8 mode kernelExps B H S D (Buffer.ofFn (B * H * S * D) Q)
        (Buffer.ofFn (B * H * S * D) fun _ => 0)
        (Buffer.ofFn (B * H * S * D) fun a => cell D i 1 a + cell D (i + 1) 1000 a)
        smScale true) := by
  intro hsame
  have hS : 0 < S := by omega
  have hcolumns : 0 < D := by omega
  have hinside : ∀ kvt ≤ i / 32, ∀ n < 32, kvt * 32 + n < S := by
    intro kvt hkvt n hn
    omega
  have hone : ∀ kvt ≤ i / 32, ∀ n < 32, ∀ d < D,
      rowOfHead S D (cell D i (1 : ℝ)) 0 (kvt * 32 + n) d =
        if kvt = i / 32 ∧ n = i % 32 ∧ d = 0 then 1 else 0 := by
    intro kvt hkvt n hn d hd
    rw [rowOfHead_cell hi 1 (hinside kvt hkvt n hn) hd]
    exact if_congr (by omega) rfl rfl
  have hother : ∀ kvt ≤ i / 32, ∀ n < 32, ∀ d < D,
      rowOfHead S D (cell D (i + 1) (1000 : ℝ)) 0 (kvt * 32 + n) d =
        if kvt = i / 32 ∧ n = i % 32 + 1 ∧ d = 0 then 1000 else 0 := by
    intro kvt hkvt n hn d hd
    rw [rowOfHead_cell (by omega) 1000 (hinside kvt hkvt n hn) hd]
    exact if_congr (by omega) rfl rfl
  have hboth : ∀ kvt ≤ i / 32, ∀ n < 32, ∀ d < D,
      rowOfHead S D (fun a => cell D i (1 : ℝ) a + cell D (i + 1) 1000 a) 0 (kvt * 32 + n) d =
        (if kvt = i / 32 ∧ n = i % 32 ∧ d = 0 then 1 else 0) +
          if kvt = i / 32 ∧ n = i % 32 + 1 ∧ d = 0 then 1000 else 0 := by
    intro kvt hkvt n hn d hd
    rw [← hone kvt hkvt n hn d hd, ← hother kvt hkvt n hn d hd]
    rfl
  obtain ⟨r, hr, hsum, hacc⟩ := headRow_zeroKeys 0 (d := 0) hi hS' Q (cell D i 1) smScale
    fun kvt hkvt p => weightedInt8_zero (fun n hn => by
      rw [hone kvt hkvt.le n hn 0 hcolumns, if_neg fun h => hkvt.ne h.1]) p
  obtain ⟨r', hr', -, hacc'⟩ := headRow_zeroKeys 0 (d := 0) hi hS' Q
    (fun a => cell D i 1 a + cell D (i + 1) 1000 a) smScale
    fun kvt hkvt p => weightedInt8_zero (fun n hn => by
      rw [hboth kvt hkvt.le n hn 0 hcolumns, if_neg fun h => hkvt.ne h.1,
        if_neg fun h => hkvt.ne h.1, add_zero]) p
  have hout := hsame.rowOutput
    (flashAttnInt8_eq mode kernelExps hS hS' hD Q (fun _ => 0) (cell D i 1) smScale true)
    (flashAttnInt8_eq mode kernelExps hS hS' hD Q (fun _ => 0)
      (fun a => cell D i 1 a + cell D (i + 1) 1000 a) smScale true) hB hH hi (Nat.lt_succ_self i)
    hcolumns hr hr'
  rw [weightedInt8_alone hcolumns fun n hn d hd => by
    rw [hone _ le_rfl n hn d hd]
    exact if_congr (and_iff_right rfl) rfl rfl] at hacc
  rw [weightedInt8_lost hcolumns hlast fun n hn d hd => by
    rw [hboth _ le_rfl n hn d hd]
    exact congrArg₂ (· + ·) (if_congr (and_iff_right rfl) rfl rfl)
      (if_congr (and_iff_right rfl) rfl rfl)] at hacc'
  have hleft : 0 < rowOutput r 0 := by
    rw [rowOutput, hacc, if_pos hsum, one_mul]
    exact one_div_pos.mpr hsum
  have hright : rowOutput r' 0 = 0 := by
    rw [rowOutput, hacc', zero_mul]
  exact hleft.ne' (hout.trans hright)

end Rows

end FlashInt8

end Int8

/-! ## Both kernels -/

section Both

variable {B H S D : Nat}

/-- Under a causal mask, with the kernels' own exponential and quantisation, the output rows up
to `i` do not depend on the keys after `i`, nor on the values after the tile of thirty-two rows
that `i` is in. -/
theorem futureRows_ignored (mode : Overflow) (hS : 0 < S) (hS' : 32 ∣ S) (hD : D = 64 ∨ D = 128)
    (Q : Nat → ℝ) (smScale : ℝ) {i : Nat} (hi : i < S) {K V K' V' : Nat → ℝ}
    (hK : AgreeTo B H S D (i + 1) K K') (hV : AgreeTo B H S D ((i / 32 + 1) * 32) V V') :
    SameRows B H S D (i + 1)
      (FlashBf16.flashAttnBf16 kernelExps B H S D (Buffer.ofFn (B * H * S * D) Q)
        (Buffer.ofFn (B * H * S * D) K) (Buffer.ofFn (B * H * S * D) V) smScale true)
      (FlashBf16.flashAttnBf16 kernelExps B H S D (Buffer.ofFn (B * H * S * D) Q)
        (Buffer.ofFn (B * H * S * D) K') (Buffer.ofFn (B * H * S * D) V') smScale true) ∧
    SameRows B H S D (i + 1)
      (FlashInt8.flashAttnInt8 mode kernelExps B H S D (Buffer.ofFn (B * H * S * D) Q)
        (Buffer.ofFn (B * H * S * D) K) (Buffer.ofFn (B * H * S * D) V) smScale true)
      (FlashInt8.flashAttnInt8 mode kernelExps B H S D (Buffer.ofFn (B * H * S * D) Q)
        (Buffer.ofFn (B * H * S * D) K') (Buffer.ofFn (B * H * S * D) V') smScale true) :=
  ⟨FlashBf16.sameRows kernelExps hS hS' hD Q smScale hi hK hV,
    FlashInt8.sameRows kernelExps hS hS' hD Q smScale hi hK hV mode⟩

/-- The last row of the first tile of two: all of the second tile may differ. -/
theorem futureRows_ignored_tile :
    SameRows 1 1 64 64 32
      (FlashBf16.flashAttnBf16 kernelExps 1 1 64 64 (Buffer.ofFn (1 * 1 * 64 * 64) fun _ => 1)
        (Buffer.ofFn (1 * 1 * 64 * 64) fun _ => 1) (Buffer.ofFn (1 * 1 * 64 * 64) fun _ => 1) 1
        true)
      (FlashBf16.flashAttnBf16 kernelExps 1 1 64 64 (Buffer.ofFn (1 * 1 * 64 * 64) fun _ => 1)
        (Buffer.ofFn (1 * 1 * 64 * 64) fun a => if a < 32 * 64 then 1 else 2)
        (Buffer.ofFn (1 * 1 * 64 * 64) fun a => if a < 32 * 64 then 1 else 3) 1 true) :=
  (futureRows_ignored (B := 1) (H := 1) (S := 64) (D := 64) .wraps (by decide) (by decide)
    (Or.inl rfl) (fun _ => 1) 1 (show 31 < 64 by decide)
    (fun b hb h hh j hj d hd => by
      rw [rowOfHead, rowOfHead, if_pos (by omega)])
    (fun b hb h hh j hj d hd => by
      rw [rowOfHead, rowOfHead, if_pos (by omega)])).1

/-- Agreement up to row `i` is not enough: in one head of one tile, the first output row
follows the second row of values, in both kernels. -/
theorem futureRows_leak :
    (AgreeTo 1 1 32 64 1 (fun _ => 0) (fun a => 0 + cell 64 1 (1 : ℝ) a) ∧
      ¬ SameRows 1 1 32 64 1
        (FlashBf16.flashAttnBf16 kernelExps 1 1 32 64 (Buffer.ofFn (1 * 1 * 32 * 64) fun _ => 1)
          (Buffer.ofFn (1 * 1 * 32 * 64) fun _ => 0) (Buffer.ofFn (1 * 1 * 32 * 64) fun _ => 0) 1
          true)
        (FlashBf16.flashAttnBf16 kernelExps 1 1 32 64 (Buffer.ofFn (1 * 1 * 32 * 64) fun _ => 1)
          (Buffer.ofFn (1 * 1 * 32 * 64) fun _ => 0)
          (Buffer.ofFn (1 * 1 * 32 * 64) fun a => 0 + cell 64 1 1 a) 1 true)) ∧
    AgreeTo 1 1 32 64 1 (cell 64 0 (1 : ℝ)) (fun a => cell 64 0 1 a + cell 64 1 1000 a) ∧
      ¬ SameRows 1 1 32 64 1
        (FlashInt8.flashAttnInt8 .wraps kernelExps 1 1 32 64
          (Buffer.ofFn (1 * 1 * 32 * 64) fun _ => 1) (Buffer.ofFn (1 * 1 * 32 * 64) fun _ => 0)
          (Buffer.ofFn (1 * 1 * 32 * 64) (cell 64 0 1)) 1 true)
        (FlashInt8.flashAttnInt8 .wraps kernelExps 1 1 32 64
          (Buffer.ofFn (1 * 1 * 32 * 64) fun _ => 1) (Buffer.ofFn (1 * 1 * 32 * 64) fun _ => 0)
          (Buffer.ofFn (1 * 1 * 32 * 64) fun a => cell 64 0 1 a + cell 64 1 1000 a) 1 true) :=
  ⟨⟨agreeTo_cell le_rfl (by decide) 1 _, FlashBf16.not_sameRows (by decide) (by decide)
      (Nat.dvd_refl 32) (Or.inl rfl) (fun _ => 1) 1 (by decide) (by decide)⟩,
    agreeTo_cell le_rfl (by decide) 1000 _, FlashInt8.not_sameRows .wraps (by decide) (by decide)
      (Nat.dvd_refl 32) (Or.inl rfl) (fun _ => 1) 1 (by decide) (by decide)⟩

/-- The rows up to `i` are isolated from all that comes after `i` exactly when `i` is the last
row of its tile, in both kernels. -/
theorem isolated_iff_last (mode : Overflow) (hB : 0 < B) (hH : 0 < H) (hS : 0 < S) (hS' : 32 ∣ S)
    (hD : D = 64 ∨ D = 128) (Q : Nat → ℝ) (smScale : ℝ) {i : Nat} (hi : i < S) :
    ((∀ K V K' V' : Nat → ℝ, AgreeTo B H S D (i + 1) K K' → AgreeTo B H S D (i + 1) V V' →
      SameRows B H S D (i + 1)
        (FlashBf16.flashAttnBf16 kernelExps B H S D (Buffer.ofFn (B * H * S * D) Q)
          (Buffer.ofFn (B * H * S * D) K) (Buffer.ofFn (B * H * S * D) V) smScale true)
        (FlashBf16.flashAttnBf16 kernelExps B H S D (Buffer.ofFn (B * H * S * D) Q)
          (Buffer.ofFn (B * H * S * D) K') (Buffer.ofFn (B * H * S * D) V') smScale true)) ↔
      i % 32 = 31) ∧
    ((∀ K V K' V' : Nat → ℝ, AgreeTo B H S D (i + 1) K K' → AgreeTo B H S D (i + 1) V V' →
      SameRows B H S D (i + 1)
        (FlashInt8.flashAttnInt8 mode kernelExps B H S D (Buffer.ofFn (B * H * S * D) Q)
          (Buffer.ofFn (B * H * S * D) K) (Buffer.ofFn (B * H * S * D) V) smScale true)
        (FlashInt8.flashAttnInt8 mode kernelExps B H S D (Buffer.ofFn (B * H * S * D) Q)
          (Buffer.ofFn (B * H * S * D) K') (Buffer.ofFn (B * H * S * D) V') smScale true)) ↔
      i % 32 = 31) := by
  have hend : i % 32 = 31 → (i / 32 + 1) * 32 = i + 1 := fun h => by omega
  constructor
  · constructor
    · intro h
      by_contra hlast
      exact FlashBf16.not_sameRows hB hH hS' hD Q smScale hi hlast
        (h _ _ _ _ (fun _ _ _ _ _ _ _ _ => rfl) (agreeTo_cell le_rfl (by omega) 1 _))
    · intro hlast K V K' V' hK hV
      exact FlashBf16.sameRows kernelExps hS hS' hD Q smScale hi hK ((hend hlast).symm ▸ hV)
  · constructor
    · intro h
      by_contra hlast
      exact FlashInt8.not_sameRows mode hB hH hS' hD Q smScale hi hlast
        (h _ _ _ _ (fun _ _ _ _ _ _ _ _ => rfl) (agreeTo_cell le_rfl (by omega) 1000 _))
    · intro hlast K V K' V' hK hV
      exact FlashInt8.sameRows kernelExps hS hS' hD Q smScale hi hK ((hend hlast).symm ▸ hV) mode

end Both

end Repercep.Kernels
