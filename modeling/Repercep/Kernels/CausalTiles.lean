import Mathlib
import Repercep.Kernels.AttentionBf16
import Repercep.Kernels.ExpPs
import Repercep.Kernels.Int8Rows
set_option autoImplicit false

/-!
# What later rows can change under a causal mask

Two runs of a kernel on the same queries are compared.  A masked score is minus infinity
whatever the key is, so later keys never count.  Later values do not count either from the
next key tile on; those in a query's own tile do, through the tile's scale and through
weights that are small but not zero.
-/

namespace Repercep.Kernels

open Foundation
open FlashBf16 (rowOfHead dot)

/-! ## Two runs of one row -/

section Rows

variable {F : Type} [Field F] [LinearOrder F]

/-- Two states of a row that differ at most beyond the first `D` weighted sums. -/
structure SameTo (D : Nat) (r r' : RowState F Nat) : Prop where
  max : r'.max = r.max
  sum : r'.sum = r.sum
  acc : ∀ d < D, r'.acc d = r.acc d

variable {e : Exponentials F} {D i sKv : Nat} {s s' : Nat → F}
  {weighted weighted' : Nat → (Nat → F) → Nat → F}

/-- One tile with the same scores and weighted sums. -/
theorem SameTo.absorb {stdExp expPs : WithBot F → F} {w : Nat} {masked : Nat → WithBot F}
    {wsum wsum' : (Nat → F) → Nat → F} (hwsum : ∀ p, ∀ d < D, wsum' p d = wsum p d)
    {r r' out : RowState F Nat} (hsame : SameTo D r r')
    (hrun : r.absorb stdExp expPs w masked wsum = some out) :
    ∃ out', r'.absorb stdExp expPs w masked wsum' = some out' ∧ SameTo D out out' := by
  obtain ⟨m, hm, hout⟩ := RowState.absorb_eq_some hrun
  refine ⟨_, RowState.absorb_eq (hsame.max ▸ hm), ?_⟩
  rw [hout]
  refine ⟨rfl, ?_, ?_⟩
  · change stdExp (below m r'.max) * r'.sum + _ = stdExp (below m r.max) * r.sum + _
    rw [hsame.max, hsame.sum]
  · intro d hd
    change stdExp (below m r'.max) * r'.acc d + wsum' _ d =
      stdExp (below m r.max) * r.acc d + wsum _ d
    rw [hsame.max, hsame.acc d hd, hwsum _ d hd]

/-- Tiles with the same scores and weighted sums. -/
theorem absorbTiles_sameTo {masked : Nat → WithBot F} {tiles : List Nat}
    (hweighted : ∀ kvt ∈ tiles, ∀ p, ∀ d < D, weighted' kvt p d = weighted kvt p d)
    {r r' out : RowState F Nat} (hsame : SameTo D r r')
    (hrun : absorbTiles e masked weighted tiles r = some out) :
    ∃ out', absorbTiles e masked weighted' tiles r' = some out' ∧ SameTo D out out' := by
  induction tiles generalizing r r' with
  | nil =>
      cases hrun
      exact ⟨r', rfl, hsame⟩
  | cons kvt tiles ih =>
      obtain ⟨r₁, hfirst, hrest⟩ := Option.bind_eq_some_iff.mp hrun
      obtain ⟨r₁', hfirst', hsame₁⟩ := hsame.absorb (hweighted kvt List.mem_cons_self) hfirst
      obtain ⟨out', hrest', hout⟩ := ih
        (fun kvt' hmem => hweighted kvt' (List.mem_cons_of_mem kvt hmem)) hsame₁ hrest
      exact ⟨out', Option.bind_eq_some_iff.mpr ⟨r₁', hfirst', hrest'⟩, hout⟩

/-- Under a causal mask a row needs the scores up to its own, and the weighted sums of the tiles
up to its own. -/
theorem attendRow_sameTo (hs : ∀ j ≤ i, s' j = s j)
    (hweighted : ∀ kvt ≤ i / 32, ∀ p, ∀ d < D, weighted' kvt p d = weighted kvt p d)
    {r : RowState F Nat} (hrun : attendRow e true sKv i s weighted = some r) :
    ∃ r', attendRow e true sKv i s' weighted' = some r' ∧ SameTo D r r' := by
  have hmasked : (fun j => maskedScore true i j (s' j)) = fun j => maskedScore true i j (s j) := by
    funext j
    rw [maskedScore, maskedScore]
    split
    · rfl
    · next hvisible => rw [hs j (by simpa using hvisible)]
  rw [attendRow, hmasked]
  refine absorbTiles_sameTo (fun kvt hmem => hweighted kvt ?_) ⟨rfl, rfl, fun _ _ => rfl⟩ hrun
  have hreached := (keyTiles_reached hmem).2 rfl
  omega

theorem SameTo.rowOutput {r r' : RowState F Nat} (h : SameTo D r r') {d : Nat} (hd : d < D) :
    rowOutput r' d = rowOutput r d := by
  rw [Kernels.rowOutput, Kernels.rowOutput, h.sum, h.acc d hd]

/-- A row all of whose visible scores are zero, and whose earlier tiles give nothing to the
weighted sum `d`, leaves there what its own tile gives. -/
theorem attendRow_zero [IsStrictOrderedRing F] (hstdExp : ∀ x, 0 ≤ e.stdExp x)
    (hexpPs : ∀ x, 0 < e.expPs x) (hi : i < sKv) (hsKv : 32 ∣ sKv) {d : Nat}
    (hearlier : ∀ kvt < i / 32, ∀ p, weighted kvt p d = 0) :
    ∃ r, attendRow e true sKv i (fun _ => 0) weighted = some r ∧ 0 < r.sum ∧
      r.acc d = weighted (i / 32)
        (fun j => e.expPs (maskedScore true i (i / 32 * 32 + j) 0)) d := by
  have hbelow : ∀ j, below (0 : F) (maskedScore true i j 0) = maskedScore true i j 0 := by
    intro j
    rw [maskedScore]
    split
    · rfl
    · exact congrArg WithBot.some (sub_zero 0)
  have hstep : ∀ k (r : RowState F Nat), k < i / 32 + 1 →
      ((r.max = ⊥ ∨ r.max = (0 : F)) ∧ 0 ≤ r.sum ∧ (0 < k → 0 < r.sum) ∧
        r.acc d = if k = i / 32 + 1 then weighted (i / 32)
          (fun j => e.expPs (maskedScore true i (i / 32 * 32 + j) 0)) d else 0) →
      ∃ r', r.absorb e.stdExp e.expPs 32 (fun j => maskedScore true i (k * 32 + j) 0)
          (weighted k) = some r' ∧
        ((r'.max = ⊥ ∨ r'.max = (0 : F)) ∧ 0 ≤ r'.sum ∧ (0 < k + 1 → 0 < r'.sum) ∧
          r'.acc d = if k + 1 = i / 32 + 1 then weighted (i / 32)
            (fun j => e.expPs (maskedScore true i (i / 32 * 32 + j) 0)) d else 0) := by
    intro k r hk hr
    obtain ⟨hmax, hsum, -, hacc⟩ := hr
    have hfirst : maskedScore true i (k * 32 + 0) (0 : F) = (0 : F) := if_neg (by omega)
    have hsup : (Finset.range 32).sup (fun j => maskedScore true i (k * 32 + j) (0 : F)) =
        ((0 : F) : WithBot F) := by
      apply le_antisymm
      · refine Finset.sup_le fun j _ => ?_
        rw [maskedScore]
        split
        · exact bot_le
        · exact le_rfl
      · exact hfirst.symm.trans_le
          (Finset.le_sup (f := fun j => maskedScore true i (k * 32 + j) (0 : F))
            (Finset.mem_range.mpr (by decide)))
    have hm : max r.max ((Finset.range 32).sup fun j => maskedScore true i (k * 32 + j) (0 : F)) =
        ((0 : F) : WithBot F) := by
      rw [hsup]
      rcases hmax with hbot | hzero
      · rw [hbot, max_eq_right bot_le]
      · rw [hzero, max_self]
    have hweights : RowState.weights e.expPs (fun j => maskedScore true i (k * 32 + j) (0 : F)) 0 =
        fun j => e.expPs (maskedScore true i (k * 32 + j) 0) := by
      funext j
      rw [RowState.weights, hbelow]
    have hpositive : 0 < (r.rescaled e.stdExp e.expPs 32
        (fun j => maskedScore true i (k * 32 + j) (0 : F)) 0).sum := by
      refine add_pos_of_nonneg_of_pos (mul_nonneg (hstdExp _) hsum) ?_
      exact Finset.sum_pos (fun j _ => hexpPs _) ⟨0, Finset.mem_range.mpr (by decide)⟩
    refine ⟨_, RowState.absorb_eq hm, Or.inr rfl, hpositive.le, fun _ => hpositive, ?_⟩
    change e.stdExp _ * r.acc d + weighted k _ d = _
    rw [hacc, if_neg (Nat.ne_of_lt hk), mul_zero, zero_add, hweights]
    split
    · next hlast => rw [Nat.succ_injective hlast]
    · next hearly => rw [hearlier k (by omega)]
  have htiles : min (sKv / 32) (i / 32 * 32 / 32 + 1) = i / 32 + 1 := by omega
  rw [attendRow, keyTiles_eq true (Nat.dvd_mul_left 32 _), if_pos rfl, htiles, absorbTiles]
  obtain ⟨r, hrun, -, -, hsum, hacc⟩ := foldlM_range
    (I := fun k (r : RowState F Nat) => (r.max = ⊥ ∨ r.max = (0 : F)) ∧ 0 ≤ r.sum ∧
      (0 < k → 0 < r.sum) ∧ r.acc d = if k = i / 32 + 1 then weighted (i / 32)
        (fun j => e.expPs (maskedScore true i (i / 32 * 32 + j) 0)) d else 0)
    (s := RowState.start) ⟨Or.inl rfl, le_rfl, fun h => absurd h (Nat.lt_irrefl 0),
      (if_neg (Nat.succ_ne_zero (i / 32)).symm).symm⟩ hstep
  exact ⟨r, hrun, hsum (Nat.succ_pos _), hacc.trans (if_pos rfl)⟩

end Rows

/-! ## Two runs of a kernel -/

section Runs

variable {F : Type} [Field F] [LinearOrder F] {e : Exponentials F} {S D bh i : Nat}
  {Q K V K' V' : Nat → F} {smScale : F}

theorem FlashBf16.headRow_sameTo
    (hK : ∀ j ≤ i, ∀ d < D, rowOfHead S D K' bh j d = rowOfHead S D K bh j d)
    (hV : ∀ j < (i / 32 + 1) * 32, ∀ d < D, rowOfHead S D V' bh j d = rowOfHead S D V bh j d)
    {r : RowState F Nat} (hrun : FlashBf16.headRow e S D Q K V smScale true bh i = some r) :
    ∃ r', FlashBf16.headRow e S D Q K' V' smScale true bh i = some r' ∧ SameTo D r r' := by
  refine attendRow_sameTo (fun j hj => ?_) (fun kvt hkvt p d hd => ?_) hrun
  · refine congrArg (· * smScale) (Finset.sum_congr rfl fun d hd => ?_)
    rw [hK j hj d (Finset.mem_range.mp hd)]
  · refine Finset.sum_congr rfl fun j hj => ?_
    have hj := Finset.mem_range.mp hj
    rw [hV _ (by omega) d hd]

theorem FlashInt8.absmax_congr {n : Nat} {f f' : Nat → F} (h : ∀ j < n, f' j = f j) :
    FlashInt8.absmax n f' = FlashInt8.absmax n f :=
  Finset.fold_congr fun j hj => congrArg abs (h j (Finset.mem_range.mp hj))

variable [FloorRing F]

theorem FlashInt8.scoreInt8_congr {a b b' : Nat → F} (h : ∀ d < D, b' d = b d) :
    FlashInt8.scoreInt8 D smScale a b' = FlashInt8.scoreInt8 D smScale a b := by
  have hscale : FlashInt8.rowScale D b' = FlashInt8.rowScale D b :=
    congrArg FlashInt8.scaleOf (FlashInt8.absmax_congr h)
  have hdot : FlashInt8.dotInt8 D (FlashInt8.rowInt8 D a) (FlashInt8.rowInt8 D b') =
      FlashInt8.dotInt8 D (FlashInt8.rowInt8 D a) (FlashInt8.rowInt8 D b) := by
    refine FlashInt8.dotInt8_congr fun d hd => ?_
    rw [FlashInt8.rowInt8, FlashInt8.rowInt8, hscale, h d hd]
  rw [FlashInt8.scoreInt8, FlashInt8.scoreInt8, hscale, hdot]

theorem FlashInt8.weightedInt8_congr {v v' : Nat → Nat → F} {kvt : Nat}
    (h : ∀ n < 32, ∀ d < D, v' (kvt * 32 + n) d = v (kvt * 32 + n) d) (p : Nat → F) {d : Nat}
    (hd : d < D) : FlashInt8.weightedInt8 D v' kvt p d = FlashInt8.weightedInt8 D v kvt p d := by
  have hscale : FlashInt8.tileScale D (fun n => v' (kvt * 32 + n)) =
      FlashInt8.tileScale D fun n => v (kvt * 32 + n) :=
    congrArg FlashInt8.scaleOf
      (Finset.fold_congr fun n hn => FlashInt8.absmax_congr (h n (Finset.mem_range.mp hn)))
  have hdot : FlashInt8.dotInt8 32 (FlashInt8.rowInt8 32 p)
        (fun j => FlashInt8.tileInt8 D (fun n => v' (kvt * 32 + n)) j d) =
      FlashInt8.dotInt8 32 (FlashInt8.rowInt8 32 p)
        fun j => FlashInt8.tileInt8 D (fun n => v (kvt * 32 + n)) j d := by
    refine FlashInt8.dotInt8_congr fun j hj => ?_
    rw [FlashInt8.tileInt8, FlashInt8.tileInt8, hscale, h j hj d hd]
  rw [FlashInt8.weightedInt8, FlashInt8.weightedInt8, hscale, hdot]

theorem FlashInt8.headRow_sameTo
    (hK : ∀ j ≤ i, ∀ d < D, rowOfHead S D K' bh j d = rowOfHead S D K bh j d)
    (hV : ∀ j < (i / 32 + 1) * 32, ∀ d < D, rowOfHead S D V' bh j d = rowOfHead S D V bh j d)
    {r : RowState F Nat} (hrun : FlashInt8.headRow e S D Q K V smScale true bh i = some r) :
    ∃ r', FlashInt8.headRow e S D Q K' V' smScale true bh i = some r' ∧ SameTo D r r' :=
  attendRow_sameTo (fun j hj => FlashInt8.scoreInt8_congr (hK j hj))
    (fun kvt hkvt p _ hd => FlashInt8.weightedInt8_congr
      (fun n hn => hV _ (by omega)) p hd) hrun

end Runs

section Isolation

variable {B H S D : Nat}

/-- Two tensors with the same first `n` rows in every head. -/
def AgreeTo {F : Type} (B H S D n : Nat) (t t' : Nat → F) : Prop :=
  ∀ b < B, ∀ h < H, ∀ j < n, ∀ d < D,
    rowOfHead S D t' (b * H + h) j d = rowOfHead S D t (b * H + h) j d

/-- Two runs that end with the same first `n` output rows in every head. -/
def SameRows {F : Type} (B H S D n : Nat) (run run' : Option (Buffer F)) : Prop :=
  ∃ O O', run = some O ∧ run' = some O' ∧ ∀ b < B, ∀ h < H, ∀ j < n, ∀ d < D,
    ∃ x, O.load (((b * H + h) * S + j) * D + d) = some x ∧
      O'.load (((b * H + h) * S + j) * D + d) = some x

/-- A kernel whose rows are those of loops over row states. -/
theorem sameRows_of_sameTo {F : Type} [Field F] [LinearOrder F] {n : Nat} (hn : n ≤ S)
    {run run' : Option (Buffer F)} {row row' : Nat → Nat → Option (RowState F Nat)}
    (hrun : ∃ O, run = some O ∧ O.size = B * H * S * D ∧ ∀ b < B, ∀ h < H, ∀ i < S, ∃ r,
      row (b * H + h) i = some r ∧
        ∀ d < D, O.load (((b * H + h) * S + i) * D + d) = some (rowOutput r d))
    (hrun' : ∃ O, run' = some O ∧ O.size = B * H * S * D ∧ ∀ b < B, ∀ h < H, ∀ i < S, ∃ r,
      row' (b * H + h) i = some r ∧
        ∀ d < D, O.load (((b * H + h) * S + i) * D + d) = some (rowOutput r d))
    (hsame : ∀ b < B, ∀ h < H, ∀ i < n, ∀ r, row (b * H + h) i = some r →
      ∃ r', row' (b * H + h) i = some r' ∧ SameTo D r r') : SameRows B H S D n run run' := by
  obtain ⟨O, hO, -, hrows⟩ := hrun
  obtain ⟨O', hO', -, hrows'⟩ := hrun'
  refine ⟨O, O', hO, hO', ?_⟩
  intro b hb h hh i hi d hd
  obtain ⟨r, hr, hload⟩ := hrows b hb h hh i (hi.trans_le hn)
  obtain ⟨r', hr', hload'⟩ := hrows' b hb h hh i (hi.trans_le hn)
  obtain ⟨r'', hr'', hsame⟩ := hsame b hb h hh i hi r hr
  cases hr'.symm.trans hr''
  exact ⟨rowOutput r d, hload d hd, (hload' d hd).trans (congrArg some (hsame.rowOutput hd))⟩

section Kernels

variable {F : Type} [Field F] [LinearOrder F] (e : Exponentials F) (hS : 0 < S) (hS' : 32 ∣ S)
  (hD : D = 64 ∨ D = 128) (Q : Nat → F) (smScale : F) {i : Nat} (hi : i < S)
  {K V K' V' : Nat → F} (hK : AgreeTo B H S D (i + 1) K K')
  (hV : AgreeTo B H S D ((i / 32 + 1) * 32) V V')
include hS hS' hD hi hK hV

theorem FlashBf16.sameRows :
    SameRows B H S D (i + 1)
      (FlashBf16.flashAttnBf16 e B H S D (Buffer.ofFn (B * H * S * D) Q)
        (Buffer.ofFn (B * H * S * D) K) (Buffer.ofFn (B * H * S * D) V) smScale true)
      (FlashBf16.flashAttnBf16 e B H S D (Buffer.ofFn (B * H * S * D) Q)
        (Buffer.ofFn (B * H * S * D) K') (Buffer.ofFn (B * H * S * D) V') smScale true) := by
  refine sameRows_of_sameTo hi (FlashBf16.flashAttnBf16_eq e hS hS' hD Q K V smScale true)
    (FlashBf16.flashAttnBf16_eq e hS hS' hD Q K' V' smScale true) ?_
  intro b hb h hh i' hi' r hr
  exact FlashBf16.headRow_sameTo (fun j hj => hK b hb h hh j (by omega))
    (fun j hj => hV b hb h hh j (by omega)) hr

theorem FlashInt8.sameRows [FloorRing F] (mode : Overflow) :
    SameRows B H S D (i + 1)
      (FlashInt8.flashAttnInt8 mode e B H S D (Buffer.ofFn (B * H * S * D) Q)
        (Buffer.ofFn (B * H * S * D) K) (Buffer.ofFn (B * H * S * D) V) smScale true)
      (FlashInt8.flashAttnInt8 mode e B H S D (Buffer.ofFn (B * H * S * D) Q)
        (Buffer.ofFn (B * H * S * D) K') (Buffer.ofFn (B * H * S * D) V') smScale true) := by
  refine sameRows_of_sameTo hi (FlashInt8.flashAttnInt8_eq mode e hS hS' hD Q K V smScale true)
    (FlashInt8.flashAttnInt8_eq mode e hS hS' hD Q K' V' smScale true) ?_
  intro b hb h hh i' hi' r hr
  exact FlashInt8.headRow_sameTo (fun j hj => hK b hb h hh j (by omega))
    (fun j hj => hV b hb h hh j (by omega)) hr

end Kernels

end Isolation

end Repercep.Kernels
