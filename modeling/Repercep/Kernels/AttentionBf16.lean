import Mathlib
import Repercep.Kernels.Attention
import Repercep.Kernels.KeyLoop
import Repercep.Kernels.Packing
set_option autoImplicit false

/-!
# The BF16 kernel computes softmax attention

The kernel's run refines the loop over row states: after each key tile the buffers hold the
rows' states.  With the ideal exponential in place of both of the kernel's, the rows it
writes are those of softmax attention.
-/

namespace Repercep.Kernels

open Foundation

namespace FlashBf16

section Tile

variable {F : Type} [Field F] [LinearOrder F]

/-- The accumulators hold the states of the rows, and the scratch buffers have their sizes. -/
structure Scratch.Holds (D : Nat) (st : Scratch F) (r : Nat → RowState F Nat) : Prop where
  rowMax : st.rowMax.size = 32
  rowSum : st.rowSum.size = 32
  oAcc : st.oAcc.size = 32 * 128
  sScratch : st.sScratch.size = 16 * 16 * 2 * 2
  pPack : st.pPack.size = 32 * 32
  max : ∀ i < 32, st.rowMax.load i = some (r i).max
  sum : ∀ i < 32, st.rowSum.load i = some (r i).sum
  acc : ∀ i < 32, ∀ d < D, st.oAcc.load (i * D + d) = some ((r i).acc d)

/-- The weighted sums of a tile's values. -/
def weightedValues (v : Nat → Nat → F) (kvt : Nat) (p : Nat → F) (d : Nat) : F :=
  ∑ j ∈ Finset.range 32, p j * v (kvt * 32 + j) d

variable {e : Exponentials F} {x : QTile F} {q k v : Nat → Nat → F}

/-- One pass of the key loop takes one tile in, in every row. -/
theorem keyTile_eq {kvt : Nat} (h : x.Reads kvt q k v) (hD : 32 ∣ x.D) (hD' : x.D ≤ 128)
    (hq : 32 ∣ x.qStart) (hreached : x.isCausal → kvt * 32 < x.qStart + 32) {st : Scratch F}
    {r r' : Nat → RowState F Nat} (hst : st.Holds x.D r)
    (habsorb : ∀ i < 32, (r i).absorb e.stdExp e.expPs 32
      (fun j => score x q k i (kvt * 32 + j)) (weightedValues v kvt) = some (r' i)) :
    ∃ st', keyTile e x st kvt = some st' ∧ st'.Holds x.D r' := by
  have hD₁ : 16 ∣ x.D := Nat.dvd_trans (by decide) hD
  obtain ⟨sScratch', hscoreRun, hscoreSize, hscores⟩ := scoreTiles_eq h hD hst.sScratch
  obtain ⟨m, hm⟩ := RowState.absorb_rows habsorb
  have hsized₀ : Softmax.Sized ⟨st.rowMax, st.rowSum, st.oAcc, Buffer.uninit (32 * 32)⟩ :=
    ⟨hst.rowMax, hst.rowSum, hst.oAcc, rfl⟩
  obtain ⟨soft, hsoftRun, hsized, hsoft⟩ := softmaxPass_eq e hD₁ hD'
    (fun i hi => scoreRow_eq hscores hq hreached hi) (fun i hi => (hm i hi).1) hsized₀
    fun i hi => ⟨hst.max i hi, hst.sum i hi, hst.acc i hi⟩
  obtain ⟨pPack', hpackRun, hpackSize, hp⟩ := packP_eq (fun i hi => (hsoft i hi).2) hst.pPack
  obtain ⟨oAcc', haddRun, haddSize, hacc⟩ := addPV_eq h hD₁ hD' hp hsized.oAcc
    fun i hi => (hsoft i hi).1.acc
  refine ⟨⟨soft.rowMax, soft.rowSum, oAcc', sScratch', pPack'⟩, ?_,
    ⟨hsized.rowMax, hsized.rowSum, haddSize, hscoreSize, hpackSize, ?_, ?_, ?_⟩⟩
  · simp only [keyTile, hscoreRun, hsoftRun, hpackRun, haddRun, Option.bind_eq_bind,
      Option.bind_some]
    rfl
  · intro i hi
    rw [(hm i hi).2]
    exact (hsoft i hi).1.max
  · intro i hi
    rw [(hm i hi).2]
    exact (hsoft i hi).1.sum
  · intro i hi d hd
    rw [(hm i hi).2]
    exact hacc i hi d hd

omit [Field F] [LinearOrder F] in
/-- Only the thirty-two rows of the tile count. -/
theorem Scratch.Holds.congr {D : Nat} {st : Scratch F} {r r' : Nat → RowState F Nat}
    (h : st.Holds D r) (hsame : ∀ i < 32, r i = r' i) : st.Holds D r' where
  rowMax := h.rowMax
  rowSum := h.rowSum
  oAcc := h.oAcc
  sScratch := h.sScratch
  pPack := h.pPack
  max := fun i hi => hsame i hi ▸ h.max i hi
  sum := fun i hi => hsame i hi ▸ h.sum i hi
  acc := fun i hi => hsame i hi ▸ h.acc i hi

/-- The whole key loop, from the start. -/
theorem keyLoop_eq (hD : 32 ∣ x.D) (hD' : x.D ≤ 128) (hq : 32 ∣ x.qStart)
    (h : ∀ kvt < x.sKv / 32, x.Reads kvt q k v) {r : Nat → RowState F Nat}
    (hr : ∀ i < 32, attendRow e x.isCausal x.sKv (x.qStart + i)
      (fun j => dot x.D q k i j * x.smScale) (weightedValues v) = some (r i)) :
    ∃ st, keyLoop e x = some st ∧ st.Holds x.D r := by
  obtain ⟨oAcc, hstart, hsize, hzero⟩ := startAcc_eq (F := F) hD'
  have hinit : Scratch.Holds x.D ⟨startMax, startSum, oAcc, Buffer.uninit (16 * 16 * 2 * 2),
      Buffer.uninit (32 * 32)⟩ (fun _ => (RowState.start : RowState F Nat)) :=
    ⟨rfl, rfl, hsize, rfl, rfl, fun i hi => Buffer.load_ofFn _ hi,
      fun i hi => Buffer.load_ofFn _ hi, hzero⟩
  have hrows : ∀ i < 32, absorbTiles e (score x q k i) (weightedValues v)
      (keyTiles x.isCausal x.sKv x.qStart) RowState.start = some (r i) := by
    intro i hi
    have hrow := hr i hi
    rw [attendRow_eq hq hi] at hrow
    exact hrow
  obtain ⟨st, hrun, hst⟩ := keyTiles_refine (keyTile e x) (Scratch.Holds x.D)
    (fun _ _ _ => Scratch.Holds.congr)
    (fun kvt hmem _ _ _ => keyTile_eq (h kvt (keyTiles_reached hmem).1) hD hD' hq
      (keyTiles_reached hmem).2) hinit hrows
  refine ⟨st, ?_, hst⟩
  rw [keyLoop, hstart]
  exact hrun

/-- A query tile's rows are written, and nothing else. -/
theorem processQTile_eq (hD : 32 ∣ x.D) (hD' : x.D ≤ 128) (hq : 32 ∣ x.qStart)
    (h : ∀ kvt < x.sKv / 32, x.Reads kvt q k v) {r : Nat → RowState F Nat}
    (hr : ∀ i < 32, attendRow e x.isCausal x.sKv (x.qStart + i)
      (fun j => dot x.D q k i j * x.smScale) (weightedValues v) = some (r i))
    {oTilePtr : Nat} {O : Buffer F} (hsize : oTilePtr + 32 * x.D ≤ O.size) :
    ∃ O', processQTile e x oTilePtr O = some O' ∧ O'.size = O.size ∧
      (∀ i < 32, ∀ d < x.D, O'.load (oTilePtr + (i * x.D + d)) = some (rowOutput (r i) d)) ∧
      ∀ a, (∀ i < 32, ∀ d < x.D, oTilePtr + (i * x.D + d) ≠ a) → O'.load a = O.load a := by
  obtain ⟨st, hrun, hst⟩ := keyLoop_eq hD hD' hq h hr
  obtain ⟨O', hfinish, hspec⟩ := finishRows_eq hD hst.sum hst.acc hsize
  refine ⟨O', ?_, hspec⟩
  rw [processQTile, hrun]
  exact hfinish

end Tile

/-! ## The whole operator -/

section Operator

variable {F : Type} [Field F] [LinearOrder F] {B H S D : Nat}

/-- The loop of one row of one head. -/
def headRow (e : Exponentials F) (S D : Nat) (Q K V : Nat → F) (smScale : F) (isCausal : Bool)
    (bh i : Nat) : Option (RowState F Nat) :=
  attendRow e isCausal S i
    (fun j => dot D (rowOfHead S D Q bh) (rowOfHead S D K bh) i j * smScale)
    (weightedValues (rowOfHead S D V bh))

/-- Whatever the exponentials, every row of the output is what its own loop leaves. -/
theorem flashAttnBf16_eq (e : Exponentials F) (hS : 0 < S) (hS' : 32 ∣ S) (hD : D = 64 ∨ D = 128)
    (Q K V : Nat → F) (smScale : F) (isCausal : Bool) :
    ∃ O, flashAttnBf16 e B H S D (Buffer.ofFn (B * H * S * D) Q) (Buffer.ofFn (B * H * S * D) K)
        (Buffer.ofFn (B * H * S * D) V) smScale isCausal = some O ∧ O.size = B * H * S * D ∧
      ∀ b < B, ∀ h < H, ∀ i < S, ∃ r,
        headRow e S D Q K V smScale isCausal (b * H + h) i = some r ∧
        ∀ d < D, O.load (((b * H + h) * S + i) * D + d) = some (rowOutput r d) := by
  have heven : 2 ∣ D := by omega
  obtain ⟨Kpk, hKpk, -, -⟩ := packKForAmxB_eq (B := B) (H := H) (S := S)
    (Nat.mod_eq_zero_of_dvd heven) fun a ha => Buffer.load_ofFn K ha
  obtain ⟨Vp, hVp, -, -⟩ := packVPairs_eq (B := B) (H := H) (D := D)
    (Nat.mod_eq_zero_of_dvd (Nat.dvd_trans (by decide) hS')) fun a ha => Buffer.load_ofFn V ha
  have hrows : ∀ bh i, ∃ r, headRow e S D Q K V smScale isCausal bh i = some r :=
    fun bh i => attendRow_isSome e isCausal S i _ _
  choose r hr using hrows
  obtain ⟨O, hrun, hsize, hrows⟩ := queryTiles_eq (B := B) (H := H) (D := D)
    (fun b h qt O => processQTile e
      (qTile H S D (Buffer.ofFn (B * H * S * D) Q) Kpk Vp smScale isCausal b h qt)
      (((b * H + h) * S + qt * 32) * D) O) (fun bh i d => rowOutput (r bh i) d) hS' (by
    intro b hb h hh qt hqt O hfits
    have hreads : ∀ kvt < S / 32, (qTile H S D (Buffer.ofFn (B * H * S * D) Q) Kpk Vp smScale
        isCausal b h qt).Reads kvt (fun i => rowOfHead S D Q (b * H + h) (qt * 32 + i))
        (rowOfHead S D K (b * H + h)) (rowOfHead S D V (b * H + h)) := fun kvt hkvt =>
      reads_of_sameIn hS' heven hKpk hVp hb hh hqt hkvt ⟨rfl, fun _ _ => rfl⟩
        ⟨rfl, fun _ _ => rfl⟩ ⟨rfl, fun _ _ => rfl⟩ smScale isCausal
    exact processQTile_eq
      (x := qTile H S D (Buffer.ofFn (B * H * S * D) Q) Kpk Vp smScale isCausal b h qt)
      (show 32 ∣ D by omega) (show D ≤ 128 by omega) (Nat.dvd_mul_left 32 qt) hreads
      (fun i _ => hr (b * H + h) (qt * 32 + i)) hfits)
  refine ⟨O, ?_, hsize, fun b hb h hh i hi =>
    ⟨r (b * H + h) i, hr _ _, hrows b hb h hh i hi⟩⟩
  rw [flashAttnBf16, if_neg (by omega), hKpk, hVp]
  exact hrun

/-- A row's loop with the real exponential. -/
theorem headRow_ideal {S D : Nat} (hS : 32 ∣ S) (Q K V : Nat → ℝ) (smScale : ℝ) (isCausal : Bool)
    (bh : Nat) {i : Nat} (hi : i < S) :
    ∃ r, headRow ⟨realExp, realExp⟩ S D Q K V smScale isCausal bh i = some r ∧ 0 < r.sum ∧
      ∀ d, rowOutput r d = attention S D smScale isCausal (rowOfHead S D Q bh)
        (rowOfHead S D K bh) (rowOfHead S D V bh) i d := by
  obtain ⟨r, hrun, hsum, hrow⟩ := attendRow_ideal realExp_isExp isCausal hS hi
    (fun j => dot D (rowOfHead S D Q bh) (rowOfHead S D K bh) i j * smScale) (rowOfHead S D V bh)
  refine ⟨r, hrun, hsum, ?_⟩
  intro d
  rw [hrow, attention]
  congr 1
  funext j
  rw [maskedScore, mul_comm, dot]

/-- The kernel computes softmax attention, with the real exponential for both of its own:
for every shape it accepts, scale and mask, each row it writes is that row of
`softmax (scale * Q Kᵀ + mask) V`.  No row's sum of weights is zero, and the early exit skips
no tile with a visible key. -/
theorem flashAttnBf16_eq_attention (hS : 0 < S) (hS' : 32 ∣ S) (hD : D = 64 ∨ D = 128)
    (Q K V : Nat → ℝ) (smScale : ℝ) (isCausal : Bool) :
    (∃ O, flashAttnBf16 ⟨realExp, realExp⟩ B H S D (Buffer.ofFn (B * H * S * D) Q)
        (Buffer.ofFn (B * H * S * D) K) (Buffer.ofFn (B * H * S * D) V) smScale isCausal =
          some O ∧
      ∀ b < B, ∀ h < H, ∀ i < S, ∀ d < D, O.load (((b * H + h) * S + i) * D + d) =
        some (attention S D smScale isCausal (rowOfHead S D Q (b * H + h))
          (rowOfHead S D K (b * H + h)) (rowOfHead S D V (b * H + h)) i d)) ∧
    ∀ Kpk Vp, packKForAmxB B H S D (Buffer.ofFn (B * H * S * D) K) = some Kpk →
      packVPairs B H S D (Buffer.ofFn (B * H * S * D) V) = some Vp →
      ∀ b < B, ∀ h < H, ∀ qt < S / 32, ∃ st, keyLoop ⟨realExp, realExp⟩
          (qTile H S D (Buffer.ofFn (B * H * S * D) Q) Kpk Vp smScale isCausal b h qt) = some st ∧
        ∀ i < 32, (∃ l, st.rowSum.load i = some l ∧ 0 < l) ∧
          ∀ j < S, (isCausal → j ≤ qt * 32 + i) → j / 32 ∈ keyTiles isCausal S (qt * 32) := by
  constructor
  · obtain ⟨O, hrun, -, hrows⟩ := flashAttnBf16_eq (B := B) (H := H) ⟨realExp, realExp⟩ hS hS' hD
      Q K V smScale isCausal
    refine ⟨O, hrun, ?_⟩
    intro b hb h hh i hi d hd
    obtain ⟨r, hr, hload⟩ := hrows b hb h hh i hi
    obtain ⟨r', hr', -, hrow⟩ := headRow_ideal hS' Q K V smScale isCausal (b * H + h) hi
    cases hr.symm.trans hr'
    rw [hload d hd, hrow]
  · intro Kpk Vp hKpk hVp b hb h hh qt hqt
    have hreads : ∀ kvt < S / 32, (qTile H S D (Buffer.ofFn (B * H * S * D) Q) Kpk Vp smScale
        isCausal b h qt).Reads kvt (fun i => rowOfHead S D Q (b * H + h) (qt * 32 + i))
        (rowOfHead S D K (b * H + h)) (rowOfHead S D V (b * H + h)) := fun kvt hkvt =>
      reads_of_sameIn hS' (by omega) hKpk hVp hb hh hqt hkvt ⟨rfl, fun _ _ => rfl⟩
        ⟨rfl, fun _ _ => rfl⟩ ⟨rfl, fun _ _ => rfl⟩ smScale isCausal
    have hrows : ∀ i, ∃ r, i < 32 → headRow ⟨realExp, realExp⟩ S D Q K V smScale isCausal
        (b * H + h) (qt * 32 + i) = some r ∧ 0 < r.sum := by
      intro i
      by_cases hi : i < 32
      · obtain ⟨r, hr, hsum, -⟩ := headRow_ideal (D := D) hS' Q K V smScale isCausal
          (b * H + h) (show qt * 32 + i < S by omega)
        exact ⟨r, fun _ => ⟨hr, hsum⟩⟩
      · exact ⟨RowState.start, fun hi' => absurd hi' hi⟩
    obtain ⟨r, hr⟩ := Classical.axiomOfChoice hrows
    obtain ⟨st, hrun, hst⟩ := keyLoop_eq
      (x := qTile H S D (Buffer.ofFn (B * H * S * D) Q) Kpk Vp smScale isCausal b h qt)
      (show 32 ∣ D by omega) (show D ≤ 128 by omega) (Nat.dvd_mul_left 32 qt) hreads
      fun i hi => (hr i hi).1
    refine ⟨st, hrun, ?_⟩
    intro i hi
    exact ⟨⟨(r i).sum, hst.sum i hi, (hr i hi).2⟩, fun j hj hvisible =>
      visible_reached hS' (Nat.dvd_mul_left 32 qt) hi hj hvisible⟩

/-- A head of two tiles under a causal mask.  In the second tile of queries the key loop goes
over both tiles of keys, the second of which holds keys that the row does not see. -/
theorem flashAttnBf16_eq_attention_twoTiles :
    let Q : Nat → ℝ := fun a => (a % 7 : Nat)
    let K : Nat → ℝ := fun a => (a % 5 : Nat)
    let V : Nat → ℝ := fun a => a
    ∃ O Kpk Vp, flashAttnBf16 ⟨realExp, realExp⟩ 1 1 64 64 (Buffer.ofFn (1 * 1 * 64 * 64) Q)
        (Buffer.ofFn (1 * 1 * 64 * 64) K) (Buffer.ofFn (1 * 1 * 64 * 64) V) (1 / 8) true = some O ∧
      O.load (((0 * 1 + 0) * 64 + 40) * 64 + 63) =
        some (attention 64 64 (1 / 8) true (rowOfHead 64 64 Q (0 * 1 + 0))
          (rowOfHead 64 64 K (0 * 1 + 0)) (rowOfHead 64 64 V (0 * 1 + 0)) 40 63) ∧
      packKForAmxB 1 1 64 64 (Buffer.ofFn (1 * 1 * 64 * 64) K) = some Kpk ∧
      packVPairs 1 1 64 64 (Buffer.ofFn (1 * 1 * 64 * 64) V) = some Vp ∧
      ∃ st, keyLoop ⟨realExp, realExp⟩ (qTile 1 64 64 (Buffer.ofFn (1 * 1 * 64 * 64) Q) Kpk Vp
          (1 / 8) true 0 0 1) = some st ∧
        (∃ l, st.rowSum.load 8 = some l ∧ 0 < l) ∧
        3 / 32 ∈ keyTiles true 64 (1 * 32) ∧ 40 / 32 ∈ keyTiles true 64 (1 * 32) := by
  intro Q K V
  obtain ⟨⟨O, hrun, hrows⟩, htiles⟩ := flashAttnBf16_eq_attention (B := 1) (H := 1) (S := 64)
    (by decide) (by decide) (Or.inl rfl) Q K V (1 / 8) true
  obtain ⟨Kpk, hKpk, -, -⟩ := packKForAmxB_eq (B := 1) (H := 1) (S := 64) (D := 64) (by decide)
    fun a ha => Buffer.load_ofFn K ha
  obtain ⟨Vp, hVp, -, -⟩ := packVPairs_eq (B := 1) (H := 1) (S := 64) (D := 64) (by decide)
    fun a ha => Buffer.load_ofFn V ha
  obtain ⟨st, hloop, hst⟩ := htiles Kpk Vp hKpk hVp 0 (by decide) 0 (by decide) 1 (by decide)
  have hrow := hst 8 (by decide)
  exact ⟨O, Kpk, Vp, hrun, hrows 0 (by decide) 0 (by decide) 40 (by decide) 63 (by decide), hKpk,
    hVp, st, hloop, hrow.1, hrow.2 3 (by decide) (fun _ => by decide),
    hrow.2 40 (by decide) (fun _ => by decide)⟩

end Operator

end FlashBf16

end Repercep.Kernels
