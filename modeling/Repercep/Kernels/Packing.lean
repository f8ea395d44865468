import Mathlib
import Repercep.Kernels.FlashBf16
set_option autoImplicit false

/-!
# Packed operands and tile products

What the packed layouts hold, and that the tile loads and products over them are the matrix
products of the tiles: the scores as the softmax step reads them back, and the weighted
values added to the accumulator.
-/

namespace Repercep.Kernels

open Foundation

namespace FlashBf16

section Layouts

variable {F : Type} {B H S D : Nat}

/-- The packed `K`: feature `2 c + j` of key `s` of head `bh`. -/
theorem packKForAmxB_eq (hD : D % 2 = 0) {K : Buffer F} {k : Nat → F}
    (hK : ∀ a < B * H * S * D, K.load a = some (k a)) :
    ∃ Kpk, packKForAmxB B H S D K = some Kpk ∧ Kpk.size = B * H * (D / 2) * S * 2 ∧
      ∀ bh < B * H, ∀ c < D / 2, ∀ s < S, ∀ j < 2,
        Kpk.load (((bh * (D / 2) + c) * S + s) * 2 + j) =
          some (k ((bh * S + s) * D + (2 * c + j))) := by
  have hrun : packKForAmxB B H S D K = (Buffer.uninit (B * H * (D / 2) * S * 2)).copy K
      (List.range (B * H) ×ˢ List.range S ×ˢ counter D 2 ×ˢ List.range 2)
      (fun p => p.1 * S * D + p.2.1 * D + p.2.2.1 + p.2.2.2)
      (fun p => p.1 * (D / 2) * S * 2 + p.2.2.1 / 2 * S * 2 + p.2.1 * 2 + p.2.2.2) := by
    rw [packKForAmxB, if_neg (by omega)]
    simp only [Buffer.copy, foldlM_product]
  have htarget : ∀ bh c s j, bh * (D / 2) * S * 2 + c * S * 2 + s * 2 + j =
      ((bh * (D / 2) + c) * S + s) * 2 + j := by
    intro bh c s j
    ring
  have hmem : ∀ {bh s d j}, (bh, s, d, j) ∈
      List.range (B * H) ×ˢ List.range S ×ˢ counter D 2 ×ˢ List.range 2 ↔
        bh < B * H ∧ s < S ∧ (d < D ∧ 2 ∣ d) ∧ j < 2 := by
    intro bh s d j
    simp only [List.mem_product, List.mem_range, mem_counter Nat.two_pos]
  have hsource : ∀ p ∈ List.range (B * H) ×ˢ List.range S ×ˢ counter D 2 ×ˢ List.range 2,
      K.load (p.1 * S * D + p.2.1 * D + p.2.2.1 + p.2.2.2) =
        some (k ((p.1 * S + p.2.1) * D + (p.2.2.1 + p.2.2.2))) := by
    rintro ⟨bh, s, d, j⟩ hp
    obtain ⟨hbh, hs, ⟨hd, heven⟩, hj⟩ := hmem.mp hp
    have haddress : bh * S * D + s * D + d + j = (bh * S + s) * D + (d + j) := by ring
    dsimp only
    rw [haddress, hK _ (lt_mul_of_lt (lt_mul_of_lt hbh hs) (by omega))]
  have hinside : ∀ p ∈ List.range (B * H) ×ˢ List.range S ×ˢ counter D 2 ×ˢ List.range 2,
      p.1 * (D / 2) * S * 2 + p.2.2.1 / 2 * S * 2 + p.2.1 * 2 + p.2.2.2 <
        (Buffer.uninit (B * H * (D / 2) * S * 2) : Buffer F).size := by
    rintro ⟨bh, s, d, j⟩ hp
    obtain ⟨hbh, hs, ⟨hd, heven⟩, hj⟩ := hmem.mp hp
    dsimp only
    rw [htarget]
    exact address_lt hbh (by omega) hs hj
  have hinjective : ∀ p ∈ List.range (B * H) ×ˢ List.range S ×ˢ counter D 2 ×ˢ List.range 2,
      ∀ q ∈ List.range (B * H) ×ˢ List.range S ×ˢ counter D 2 ×ˢ List.range 2,
      p.1 * (D / 2) * S * 2 + p.2.2.1 / 2 * S * 2 + p.2.1 * 2 + p.2.2.2 =
        q.1 * (D / 2) * S * 2 + q.2.2.1 / 2 * S * 2 + q.2.1 * 2 + q.2.2.2 → p = q := by
    rintro ⟨bh, s, d, j⟩ hp ⟨bh', s', d', j'⟩ hq h
    obtain ⟨hbh, hs, ⟨hd, heven⟩, hj⟩ := hmem.mp hp
    obtain ⟨hbh', hs', ⟨hd', heven'⟩, hj'⟩ := hmem.mp hq
    dsimp only at h
    rw [htarget, htarget] at h
    obtain ⟨h₁, h₂, h₃, h₄⟩ := address_injective₄ (by omega) hs hj (by omega) hs' hj' h
    rw [h₁, h₃, h₄, show d = d' by omega]
  obtain ⟨Kpk, hcopy, hsize, hnew, -⟩ := Buffer.copy_eq hsource
    (List.nodup_range.product (List.nodup_range.product
      ((nodup_counter Nat.two_pos).product List.nodup_range))) hinside hinjective
  refine ⟨Kpk, hrun.trans hcopy, hsize, ?_⟩
  intro bh hbh c hc s hs j hj
  have hcell := hnew (bh, s, 2 * c, j)
    (hmem.mpr ⟨hbh, hs, ⟨by omega, Nat.dvd_mul_right 2 c⟩, hj⟩)
  dsimp only at hcell
  rw [Nat.mul_div_cancel_left c Nat.two_pos, htarget] at hcell
  exact hcell

/-- The packed `V`: feature `d` of key `2 k + j` of head `bh`. -/
theorem packVPairs_eq (hS : S % 2 = 0) {V : Buffer F} {v : Nat → F}
    (hV : ∀ a < B * H * S * D, V.load a = some (v a)) :
    ∃ Vp, packVPairs B H S D V = some Vp ∧ Vp.size = B * H * (S / 2) * D * 2 ∧
      ∀ bh < B * H, ∀ k < S / 2, ∀ d < D, ∀ j < 2,
        Vp.load (((bh * (S / 2) + k) * D + d) * 2 + j) =
          some (v ((bh * S + (2 * k + j)) * D + d)) := by
  have hrun : packVPairs B H S D V = (Buffer.uninit (B * H * (S / 2) * D * 2)).copy V
      (List.range (B * H) ×ˢ List.range (S / 2) ×ˢ List.range D ×ˢ List.range 2)
      (fun p => p.1 * S * D + (2 * p.2.1 + p.2.2.2) * D + p.2.2.1)
      (fun p => p.1 * (S / 2) * D * 2 + p.2.1 * D * 2 + p.2.2.1 * 2 + p.2.2.2) := by
    rw [packVPairs, if_neg (by omega)]
    simp only [Buffer.copy, foldlM_product]
  have htarget : ∀ bh k d j, bh * (S / 2) * D * 2 + k * D * 2 + d * 2 + j =
      ((bh * (S / 2) + k) * D + d) * 2 + j := by
    intro bh k d j
    ring
  have hmem : ∀ {bh k d j}, (bh, k, d, j) ∈
      List.range (B * H) ×ˢ List.range (S / 2) ×ˢ List.range D ×ˢ List.range 2 ↔
        bh < B * H ∧ k < S / 2 ∧ d < D ∧ j < 2 := by
    intro bh k d j
    simp only [List.mem_product, List.mem_range]
  have hsource : ∀ p ∈ List.range (B * H) ×ˢ List.range (S / 2) ×ˢ List.range D ×ˢ List.range 2,
      V.load (p.1 * S * D + (2 * p.2.1 + p.2.2.2) * D + p.2.2.1) =
        some (v ((p.1 * S + (2 * p.2.1 + p.2.2.2)) * D + p.2.2.1)) := by
    rintro ⟨bh, k, d, j⟩ hp
    obtain ⟨hbh, hk, hd, hj⟩ := hmem.mp hp
    have haddress : bh * S * D + (2 * k + j) * D + d = (bh * S + (2 * k + j)) * D + d := by ring
    dsimp only
    rw [haddress, hV _ (lt_mul_of_lt (lt_mul_of_lt hbh (by omega)) hd)]
  have hinside : ∀ p ∈ List.range (B * H) ×ˢ List.range (S / 2) ×ˢ List.range D ×ˢ List.range 2,
      p.1 * (S / 2) * D * 2 + p.2.1 * D * 2 + p.2.2.1 * 2 + p.2.2.2 <
        (Buffer.uninit (B * H * (S / 2) * D * 2) : Buffer F).size := by
    rintro ⟨bh, k, d, j⟩ hp
    obtain ⟨hbh, hk, hd, hj⟩ := hmem.mp hp
    dsimp only
    rw [htarget]
    exact address_lt hbh hk hd hj
  have hinjective : ∀ p ∈ List.range (B * H) ×ˢ List.range (S / 2) ×ˢ List.range D ×ˢ List.range 2,
      ∀ q ∈ List.range (B * H) ×ˢ List.range (S / 2) ×ˢ List.range D ×ˢ List.range 2,
      p.1 * (S / 2) * D * 2 + p.2.1 * D * 2 + p.2.2.1 * 2 + p.2.2.2 =
        q.1 * (S / 2) * D * 2 + q.2.1 * D * 2 + q.2.2.1 * 2 + q.2.2.2 → p = q := by
    rintro ⟨bh, k, d, j⟩ hp ⟨bh', k', d', j'⟩ hq h
    obtain ⟨hbh, hk, hd, hj⟩ := hmem.mp hp
    obtain ⟨hbh', hk', hd', hj'⟩ := hmem.mp hq
    dsimp only at h
    rw [htarget, htarget] at h
    obtain ⟨h₁, h₂, h₃, h₄⟩ := address_injective₄ hk hd hj hk' hd' hj' h
    rw [h₁, h₂, h₃, h₄]
  obtain ⟨Vp, hcopy, hsize, hnew, -⟩ := Buffer.copy_eq hsource
    (List.nodup_range.product (List.nodup_range.product
      (List.nodup_range.product List.nodup_range))) hinside hinjective
  refine ⟨Vp, hrun.trans hcopy, hsize, ?_⟩
  intro bh hbh k hk d hd j hj
  have hcell := hnew (bh, k, d, j) (hmem.mpr ⟨hbh, hk, hd, hj⟩)
  dsimp only at hcell
  rw [htarget] at hcell
  exact hcell

end Layouts

/-! ## The scores -/

section Scores

variable {F : Type} [Field F]

/-- What one key tile needs of the operands: the queries `q`, and the keys `k` and values `v`
of the tile. -/
structure QTile.Reads (x : QTile F) (kvt : Nat) (q k v : Nat → Nat → F) : Prop where
  queries : ∀ i < 32, ∀ d < x.D, x.Q.load (x.qTilePtr + (i * x.D + d)) = some (q i d)
  keys : ∀ c < x.D / 2, ∀ n < 32, ∀ j < 2,
    x.Kpk.load (x.kPkPtr + ((c * x.sKv + (kvt * 32 + n)) * 2 + j)) =
      some (k (kvt * 32 + n) (2 * c + j))
  values : ∀ p < 16, ∀ d < x.D, ∀ j < 2,
    x.Vp.load (x.vPPtr + (((kvt * 16 + p) * x.D + d) * 2 + j)) =
      some (v (kvt * 32 + (2 * p + j)) d)

/-- A query times a key. -/
def dot (D : Nat) (q k : Nat → Nat → F) (i j : Nat) : F :=
  ∑ d ∈ Finset.range D, q i d * k j d

variable {x : QTile F} {kvt : Nat} {q k v : Nat → Nat → F}

theorem scoreTile_eq (h : x.Reads kvt q k v) (hD : 32 ∣ x.D) {qh kh : Nat} (hqh : qh < 2)
    (hkh : kh < 2) :
    scoreTile x (kvt * 32) qh kh = some fun m n : Fin 16 =>
      dot x.D q k (qh * 16 + m) (kvt * 32 + (kh * 16 + n)) := by
  have hstep : ∀ dc ∈ List.range (x.D / 32), ∀ tmmS : Tile 16 F, (do
      let tmmQ ← tileLoadd 32 2 x.Q (x.qTilePtr + qh * 16 * x.D + dc * 32) (x.D * 2)
      let tmmK ← tileLoadd 32 2 x.Kpk
        (x.kPkPtr + dc * 16 * x.sKv * 2 + (kvt * 32 + kh * 16) * 2) (x.sKv * 2 * 2)
      return tdpbf16ps tmmS tmmQ tmmK) = some (tmmS + fun m n : Fin 16 =>
        ∑ j ∈ Finset.range 32, q (qh * 16 + m) (dc * 32 + j) *
          k (kvt * 32 + (kh * 16 + n)) (dc * 32 + j)) := by
    intro dc hdc tmmS
    have hchunk : dc * 32 + 32 ≤ x.D := by
      have hlt := List.mem_range.mp hdc
      omega
    have hQ : tileLoadd 32 2 x.Q (x.qTilePtr + qh * 16 * x.D + dc * 32) (x.D * 2) =
        some fun (m : Fin 16) (c : Fin 32) => q (qh * 16 + m) (dc * 32 + c) := by
      refine (tileLoadd_eq_some Nat.two_pos).mpr fun m c => ?_
      have haddress : x.qTilePtr + qh * 16 * x.D + dc * 32 + m * x.D + c =
          x.qTilePtr + ((qh * 16 + m) * x.D + (dc * 32 + c)) := by ring
      rw [haddress, h.queries _ (by omega) _ (by omega)]
    have hK : tileLoadd 32 2 x.Kpk
        (x.kPkPtr + dc * 16 * x.sKv * 2 + (kvt * 32 + kh * 16) * 2) (x.sKv * 2 * 2) =
        some fun (r : Fin 16) (c : Fin 32) =>
          k (kvt * 32 + (kh * 16 + c / 2)) (dc * 32 + (2 * r + c % 2)) := by
      refine (tileLoadd_eq_some Nat.two_pos).mpr fun r c => ?_
      have haddress : x.kPkPtr + dc * 16 * x.sKv * 2 + (kvt * 32 + kh * 16) * 2 +
          r * (x.sKv * 2) + c = x.kPkPtr + (((dc * 16 + r) * x.sKv +
            (kvt * 32 + (kh * 16 + c / 2))) * 2 + c % 2) :=
        calc _ = x.kPkPtr + ((dc * 16 + r) * x.sKv * 2 + (kvt * 32 + kh * 16) * 2 + c) := by ring
          _ = x.kPkPtr + ((dc * 16 + r) * x.sKv * 2 + (kvt * 32 + kh * 16) * 2 +
              (c / 2 * 2 + c % 2)) := by rw [Nat.div_add_mod' c.val 2]
          _ = _ := by ring
      have hfeature : 2 * (dc * 16 + r.val) + c % 2 = dc * 32 + (2 * r + c % 2) := by omega
      rw [haddress, h.keys _ (by omega) _ (by omega) _ (Nat.mod_lt _ Nat.two_pos), hfeature]
    rw [hQ, hK]
    exact congrArg some (tdpbf16ps_packed tmmS
      (fun m c => q (qh * 16 + m) (dc * 32 + c))
      (fun f n => k (kvt * 32 + (kh * 16 + n)) (dc * 32 + f)))
  rw [scoreTile]
  refine (foldlM_add hstep 0).trans (congrArg some ?_)
  funext m n
  rw [zero_add, Pi.list_sum_apply, Pi.list_sum_apply, List.map_map, List.map_map, dot]
  refine (sum_tiles (x.D / 32) 32 fun d =>
    q (qh * 16 + m) d * k (kvt * 32 + (kh * 16 + n)) d).trans ?_
  rw [Nat.div_mul_cancel hD]

/-- The four blocks, as the softmax step reads them back. -/
theorem scoreTiles_eq (h : x.Reads kvt q k v) (hD : 32 ∣ x.D) {sScratch : Buffer F}
    (hsize : sScratch.size = 16 * 16 * 2 * 2) :
    ∃ sScratch', scoreTiles x (kvt * 32) sScratch = some sScratch' ∧
      sScratch'.size = 16 * 16 * 2 * 2 ∧
      ∀ qh < 2, ∀ kh < 2, ∀ m < 16, ∀ n < 16,
        sScratch'.load ((qh * 2 + kh) * (16 * 16) + m * 16 + n) =
          some (dot x.D q k (qh * 16 + m) (kvt * 32 + (kh * 16 + n))) := by
  have hstep : ∀ p ∈ List.range 2 ×ˢ List.range 2, ∀ b : Buffer F, b.size = sScratch.size →
      (∀ c : Fin 16 × Fin 16, b.load ((p.1 * 2 + p.2) * (16 * 16) + c.1 * 16 + c.2) =
        sScratch.load ((p.1 * 2 + p.2) * (16 * 16) + c.1 * 16 + c.2)) →
      ∃ b', (do
          let tmmS ← scoreTile x (kvt * 32) p.1 p.2
          tileStored 4 tmmS b ((p.1 * 2 + p.2) * (16 * 16)) (16 * 4)) = some b' ∧
        b'.size = b.size ∧
        (∀ c : Fin 16 × Fin 16, b'.load ((p.1 * 2 + p.2) * (16 * 16) + c.1 * 16 + c.2) =
          some (dot x.D q k (p.1 * 16 + c.1) (kvt * 32 + (p.2 * 16 + c.2)))) ∧
        ∀ a, (∀ c : Fin 16 × Fin 16, (p.1 * 2 + p.2) * (16 * 16) + c.1 * 16 + c.2 ≠ a) →
          b'.load a = b.load a := by
    rintro ⟨qh, kh⟩ hp b hb _
    obtain ⟨hqh, hkh⟩ := List.mem_product.mp hp
    rw [List.mem_range] at hqh hkh
    obtain ⟨b', hstored, hsize', hnew, hkept⟩ := tileStored_eq (show 0 < 4 by decide)
      (fun m n : Fin 16 => dot x.D q k (qh * 16 + m) (kvt * 32 + (kh * 16 + n))) le_rfl
      (show (qh * 2 + kh) * (16 * 16) + 15 * 16 + 16 ≤ b.size by omega)
    refine ⟨b', ?_, hsize', fun c => hnew c.1 c.2, fun a hnone => hkept a fun m n => hnone (m, n)⟩
    dsimp only
    rw [scoreTile_eq h hD hqh hkh]
    exact hstored
  obtain ⟨b', hrun, hsize', hnew, -⟩ := Buffer.foldlM_owned
    (List.nodup_range.product List.nodup_range)
    (by
      rintro ⟨qh, kh⟩ hp ⟨qh', kh'⟩ hp' c c' hsame
      obtain ⟨hqh, hkh⟩ := List.mem_product.mp hp
      obtain ⟨hqh', hkh'⟩ := List.mem_product.mp hp'
      rw [List.mem_range] at hqh hkh hqh' hkh'
      refine Prod.ext ?_ ?_
      · dsimp only at hsame ⊢
        omega
      · dsimp only at hsame ⊢
        omega) hstep
  refine ⟨b', ?_, hsize'.trans hsize, ?_⟩
  · rw [scoreTiles, foldlM_product]
    exact hrun
  · intro qh hqh kh hkh m hm n hn
    exact hnew (qh, kh) (List.mem_product.mpr ⟨List.mem_range.mpr hqh, List.mem_range.mpr hkh⟩)
      (⟨m, hm⟩, ⟨n, hn⟩)

/-- The score of key `j` for query `i` of the tile. -/
def score (x : QTile F) (q k : Nat → Nat → F) (i j : Nat) : WithBot F :=
  maskedScore x.isCausal (x.qStart + i) j (dot x.D q k i j * x.smScale)

theorem scoreRow_eq {sScratch : Buffer F}
    (hscores : ∀ qh < 2, ∀ kh < 2, ∀ m < 16, ∀ n < 16,
      sScratch.load ((qh * 2 + kh) * (16 * 16) + m * 16 + n) =
        some (dot x.D q k (qh * 16 + m) (kvt * 32 + (kh * 16 + n))))
    (hq : 32 ∣ x.qStart) (hreached : x.isCausal → kvt * 32 < x.qStart + 32) {i : Nat}
    (hi : i < 32) :
    scoreRow x (kvt * 32) sScratch i =
      some (fun lane : Fin 16 => score x q k i (kvt * 32 + lane),
        fun lane : Fin 16 => score x q k i (kvt * 32 + (16 + lane))) := by
  have hrow : i / 16 * 16 + i % 16 = i := Nat.div_add_mod' i 16
  have hload : ∀ kh < 2, loadVec 16 sScratch ((i / 16 * 2 + kh) * (16 * 16) + i % 16 * 16) =
      some fun lane : Fin 16 => dot x.D q k i (kvt * 32 + (kh * 16 + lane)) := by
    intro kh hkh
    refine loadVec_eq_some.mpr fun lane => ?_
    rw [hscores (i / 16) (by omega) kh hkh (i % 16) (Nat.mod_lt _ (by decide)) lane lane.isLt, hrow]
  have hlow := maskLanes_eq (Nat.dvd_mul_left 32 kvt) hq hi (Nat.zero_le 16) hreached
    fun lane : Fin 16 => dot x.D q k i (kvt * 32 + (0 * 16 + lane)) * x.smScale
  have hhigh := maskLanes_eq (Nat.dvd_mul_left 32 kvt) hq hi (le_refl 16) hreached
    fun lane : Fin 16 => dot x.D q k i (kvt * 32 + (1 * 16 + lane)) * x.smScale
  simp only [Nat.add_zero, Nat.zero_mul, Nat.zero_add] at hlow
  simp only [Nat.one_mul, Nat.add_assoc] at hhigh
  simp only [scoreRow, hload 0 (by decide), hload 1 (by decide), Option.bind_eq_bind,
    Option.bind_some, Nat.zero_mul, Nat.one_mul, Nat.zero_add, hlow, hhigh]
  rfl

end Scores

/-! ## The weighted values -/

section Values

variable {F : Type} [Field F] {x : QTile F} {kvt : Nat} {q k v p : Nat → Nat → F}

omit [Field F] in
/-- The weights are stored as they are. -/
theorem packP_eq {pFp32 pPack : Buffer F}
    (hp : ∀ i < 32, ∀ j < 32, pFp32.load (i * 32 + j) = some (p i j))
    (hsize : pPack.size = 32 * 32) :
    ∃ pPack', packP pFp32 pPack = some pPack' ∧ pPack'.size = 32 * 32 ∧
      ∀ i < 32, ∀ j < 32, pPack'.load (i * 32 + j) = some (p i j) := by
  have hstep : ∀ i ∈ List.range 32, ∀ b : Buffer F, b.size = pPack.size →
      (∀ j : Fin 32, b.load (i * 32 + j) = pPack.load (i * 32 + j)) →
      ∃ b', (do
          let pLo ← loadVec 16 pFp32 (i * 32 + 0)
          let pHi ← loadVec 16 pFp32 (i * 32 + 16)
          storeVec b (i * 32) (Fin.append pLo pHi)) = some b' ∧ b'.size = b.size ∧
        (∀ j : Fin 32, b'.load (i * 32 + j) = some (p i j)) ∧
        ∀ a, (∀ j : Fin 32, i * 32 + j ≠ a) → b'.load a = b.load a := by
    intro i hmem b hb _
    have hi := List.mem_range.mp hmem
    have hlow : loadVec 16 pFp32 (i * 32 + 0) = some fun lane : Fin 16 => p i lane :=
      loadVec_eq_some.mpr fun lane => hp i hi lane (by omega)
    have hhigh : loadVec 16 pFp32 (i * 32 + 16) = some fun lane : Fin 16 => p i (16 + lane) := by
      refine loadVec_eq_some.mpr fun lane => ?_
      rw [Nat.add_assoc]
      exact hp i hi (16 + lane) (by omega)
    have happend : Fin.append (fun lane : Fin 16 => p i lane)
        (fun lane : Fin 16 => p i (16 + lane)) = fun j : Fin 32 => p i j := by
      funext j
      refine Fin.addCases (fun lane => ?_) (fun lane => ?_) j
      · rw [Fin.append_left]
        rfl
      · rw [Fin.append_right]
        rfl
    obtain ⟨b', hstored, hsize', hnew, hkept⟩ := storeVec_eq (fun j : Fin 32 => p i j)
      (show i * 32 + 32 ≤ b.size by omega)
    refine ⟨b', ?_, hsize', hnew, hkept⟩
    rw [hlow, hhigh, Option.bind_eq_bind, Option.bind_some, Option.bind_some, happend]
    exact hstored
  obtain ⟨b', hrun, hsize', hnew, -⟩ := Buffer.foldlM_owned List.nodup_range
    (fun i _ i' _ j j' hsame => (rowMajor_injective j.isLt j'.isLt hsame).1) hstep
  exact ⟨b', hrun, hsize'.trans hsize, fun i hi j hj =>
    hnew i (List.mem_range.mpr hi) ⟨j, hj⟩⟩

/-- The weighted values of the tile, added to the accumulator. -/
theorem addPV_eq (h : x.Reads kvt q k v) (hD : 16 ∣ x.D) (hD' : x.D ≤ 128)
    {pPack oAcc : Buffer F} {acc : Nat → Nat → F}
    (hp : ∀ i < 32, ∀ j < 32, pPack.load (i * 32 + j) = some (p i j))
    (hsize : oAcc.size = 32 * 128)
    (hacc : ∀ i < 32, ∀ d < x.D, oAcc.load (i * x.D + d) = some (acc i d)) :
    ∃ oAcc', addPV x (kvt * 32) pPack oAcc = some oAcc' ∧ oAcc'.size = 32 * 128 ∧
      ∀ i < 32, ∀ d < x.D, oAcc'.load (i * x.D + d) =
        some (acc i d + ∑ j ∈ Finset.range 32, p i j * v (kvt * 32 + j) d) := by
  have hcell : ∀ qh dt r c, qh * 16 * x.D + dt * 16 + r * x.D + c =
      (qh * 16 + r) * x.D + (dt * 16 + c) := by
    intro qh dt r c
    ring
  have hfits : ∀ {dt c}, dt < x.D / 16 → c < 16 → dt * 16 + c < x.D := by
    intro dt c hdt hc
    omega
  have hrows : 2 * 16 * x.D ≤ oAcc.size := by
    rw [hsize]
    exact Nat.mul_le_mul_left _ hD'
  obtain ⟨oAcc', hrun, hsize', hnew⟩ := tileLoop_eq
    (fun b qh dt => do
      let tmmO ← tileLoadd 16 4 b (qh * 16 * x.D + dt * 16) (x.D * 4)
      let tmmP ← tileLoadd 32 2 pPack (qh * 16 * 32) (32 * 2)
      let tmmV ← tileLoadd 32 2 x.Vp
        (x.vPPtr + kvt * 32 / 2 * x.D * 2 + dt * 16 * 2) (x.D * 2 * 2)
      tileStored 4 (tdpbf16ps tmmO tmmP tmmV) b (qh * 16 * x.D + dt * 16) (x.D * 4))
    (fun i d => acc i d + ∑ j ∈ Finset.range 32, p i j * v (kvt * 32 + j) d)
    (show 0 < 4 by decide) hD hrows (by
      intro qh hqh dt hdt b hold
      have hO : tileLoadd 16 4 b (qh * 16 * x.D + dt * 16) (x.D * 4) =
          some fun r c : Fin 16 => acc (qh * 16 + r) (dt * 16 + c) := by
        refine (tileLoadd_eq_some (by decide)).mpr fun r c => ?_
        rw [hcell, hold r c, hacc _ (by omega) _ (hfits hdt c.isLt)]
      have hP : tileLoadd 32 2 pPack (qh * 16 * 32) (32 * 2) =
          some fun (r : Fin 16) (c : Fin 32) => p (qh * 16 + r) c := by
        refine (tileLoadd_eq_some Nat.two_pos).mpr fun r c => ?_
        rw [← Nat.add_mul, hp _ (by omega) _ c.isLt]
      have hV : tileLoadd 32 2 x.Vp (x.vPPtr + kvt * 32 / 2 * x.D * 2 + dt * 16 * 2)
          (x.D * 2 * 2) = some fun (r : Fin 16) (c : Fin 32) =>
            v (kvt * 32 + (2 * r + c % 2)) (dt * 16 + c / 2) := by
        refine (tileLoadd_eq_some Nat.two_pos).mpr fun r c => ?_
        have hhalf : kvt * 32 / 2 = kvt * 16 := by omega
        have haddress : x.vPPtr + kvt * 16 * x.D * 2 + dt * 16 * 2 + r * (x.D * 2) + c =
            x.vPPtr + (((kvt * 16 + r) * x.D + (dt * 16 + c / 2)) * 2 + c % 2) :=
          calc _ = x.vPPtr + ((kvt * 16 + r) * x.D * 2 + dt * 16 * 2 + c) := by ring
            _ = x.vPPtr + ((kvt * 16 + r) * x.D * 2 + dt * 16 * 2 + (c / 2 * 2 + c % 2)) := by
              rw [Nat.div_add_mod' c.val 2]
            _ = _ := by ring
        rw [hhalf, haddress, h.values _ r.isLt _ (hfits hdt (by omega)) _
          (Nat.mod_lt _ Nat.two_pos)]
      rw [hO, hP, hV]
      exact congrArg (tileStored 4 · b (qh * 16 * x.D + dt * 16) (x.D * 4))
        (tdpbf16ps_packed (fun r c : Fin 16 => acc (qh * 16 + r) (dt * 16 + c))
          (fun r j => p (qh * 16 + r) j) fun j c => v (kvt * 32 + j) (dt * 16 + c)))
  exact ⟨oAcc', hrun, hsize'.trans hsize, hnew⟩

end Values

/-! ## The tiles of the whole tensors -/

section Tensors

/-- The elements of a tile of thirty-two queries of head `bh`, in a `(B, H, S, D)` tensor. -/
def queryCells (S D bh qt : Nat) : Set Nat :=
  {a | ∃ i < 32, ∃ d < D, a = (bh * S + (qt * 32 + i)) * D + d}

/-- The elements of a tile of thirty-two keys of head `bh`, in the packed `K`. -/
def keyCells (S D bh kvt : Nat) : Set Nat :=
  {a | ∃ c < D / 2, ∃ n < 32, ∃ j < 2, a = ((bh * (D / 2) + c) * S + (kvt * 32 + n)) * 2 + j}

/-- Those of the same keys' values, in the packed `V`. -/
def valueCells (S D bh kvt : Nat) : Set Nat :=
  {a | ∃ p < 16, ∃ d < D, ∃ j < 2, a = ((bh * (S / 2) + (kvt * 16 + p)) * D + d) * 2 + j}

/-- Two buffers of one size with the same content in some cells. -/
def SameIn {F : Type} (cells : Set Nat) (b b' : Buffer F) : Prop :=
  b'.size = b.size ∧ ∀ a ∈ cells, b'.load a = b.load a

variable {F : Type} [Field F] {B H S D : Nat}

/-- Row `i` of head `bh` of a tensor. -/
def rowOfHead (S D : Nat) (t : Nat → F) (bh i d : Nat) : F :=
  t ((bh * S + i) * D + d)

omit [Field F] in
/-- One tile of queries and one tile of keys need only their own elements. -/
theorem reads_of_sameIn (hS : 32 ∣ S) (hD : 2 ∣ D) {Q K V : Nat → F} {Kpk Vp Q' Kpk' Vp' : Buffer F}
    (hKpk : packKForAmxB B H S D (Buffer.ofFn (B * H * S * D) K) = some Kpk)
    (hVp : packVPairs B H S D (Buffer.ofFn (B * H * S * D) V) = some Vp) {b h qt kvt : Nat}
    (hb : b < B) (hh : h < H) (hqt : qt < S / 32) (hkvt : kvt < S / 32)
    (hQ' : SameIn (queryCells S D (b * H + h) qt) (Buffer.ofFn (B * H * S * D) Q) Q')
    (hKpk' : SameIn (keyCells S D (b * H + h) kvt) Kpk Kpk')
    (hVp' : SameIn (valueCells S D (b * H + h) kvt) Vp Vp') (smScale : F) (isCausal : Bool) :
    (qTile H S D Q' Kpk' Vp' smScale isCausal b h qt).Reads kvt
      (fun i => rowOfHead S D Q (b * H + h) (qt * 32 + i)) (rowOfHead S D K (b * H + h))
      (rowOfHead S D V (b * H + h)) := by
  have hbh : b * H + h < B * H := lt_mul_of_lt hb hh
  have hrow : ∀ i < 32, qt * 32 + i < S := fun i hi => by omega
  have hkey : ∀ n < 32, kvt * 32 + n < S := fun n hn => by omega
  obtain ⟨Kpk₁, hrunK, -, hK⟩ := packKForAmxB_eq (B := B) (H := H) (S := S)
    (Nat.mod_eq_zero_of_dvd hD)
    fun a ha => Buffer.load_ofFn K ha
  obtain ⟨Vp₁, hrunV, -, hV⟩ := packVPairs_eq (B := B) (H := H) (D := D)
    (Nat.mod_eq_zero_of_dvd (Nat.dvd_trans (by decide) hS)) fun a ha => Buffer.load_ofFn V ha
  cases hrunK.symm.trans hKpk
  cases hrunV.symm.trans hVp
  refine ⟨?_, ?_, ?_⟩
  · intro i hi d (hd : d < D)
    have haddress : ((b * H + h) * S + qt * 32) * D + (i * D + d) =
        ((b * H + h) * S + (qt * 32 + i)) * D + d := by ring
    rw [qTile, haddress, hQ'.2 _ ⟨i, hi, d, hd, rfl⟩,
      Buffer.load_ofFn Q (lt_mul_of_lt (lt_mul_of_lt hbh (hrow i hi)) hd), rowOfHead]
  · intro c (hc : c < D / 2) n hn j hj
    have haddress : (b * H + h) * (D / 2) * S * 2 + ((c * S + (kvt * 32 + n)) * 2 + j) =
        (((b * H + h) * (D / 2) + c) * S + (kvt * 32 + n)) * 2 + j := by ring
    rw [qTile, haddress, hKpk'.2 _ ⟨c, hc, n, hn, j, hj, rfl⟩,
      hK _ hbh c hc _ (hkey n hn) j hj, rowOfHead]
  · intro p hp d (hd : d < D) j hj
    have haddress : (b * H + h) * (S / 2) * D * 2 + (((kvt * 16 + p) * D + d) * 2 + j) =
        (((b * H + h) * (S / 2) + (kvt * 16 + p)) * D + d) * 2 + j := by ring
    have hpair : 2 * (kvt * 16 + p) + j = kvt * 32 + (2 * p + j) := by ring
    rw [qTile, haddress, hVp'.2 _ ⟨p, hp, d, hd, j, hj, rfl⟩,
      hV _ hbh _ (by omega) d hd j hj, hpair, rowOfHead]

/-- The packed layouts, loads and products are exact.  For every head, tile of queries and
tile of keys, with nothing in the operands but that tile of queries, the tile's keys and
their values, every load and store is inside its buffer; the score scratch holds the product
of the queries and the keys, in the blocks that the softmax step loads; and the accumulator
has the product of the weights and the values added. -/
theorem tileProducts_exact (hS : 32 ∣ S) (hD : D = 64 ∨ D = 128)
    (Q K V : Nat → F) (smScale : F) (isCausal : Bool) :
    ∃ Kpk Vp, packKForAmxB B H S D (Buffer.ofFn (B * H * S * D) K) = some Kpk ∧
      packVPairs B H S D (Buffer.ofFn (B * H * S * D) V) = some Vp ∧
      ∀ b < B, ∀ h < H, ∀ qt < S / 32, ∀ kvt < S / 32, ∀ Q' Kpk' Vp' : Buffer F,
        SameIn (queryCells S D (b * H + h) qt) (Buffer.ofFn (B * H * S * D) Q) Q' →
        SameIn (keyCells S D (b * H + h) kvt) Kpk Kpk' →
        SameIn (valueCells S D (b * H + h) kvt) Vp Vp' →
        (∀ sScratch : Buffer F, sScratch.size = 16 * 16 * 2 * 2 →
          ∃ sScratch', scoreTiles (qTile H S D Q' Kpk' Vp' smScale isCausal b h qt) (kvt * 32)
              sScratch = some sScratch' ∧
            ∀ i < 32, ∀ kh < 2,
              loadVec 16 sScratch' ((i / 16 * 2 + kh) * (16 * 16) + i % 16 * 16) =
                some fun lane : Fin 16 => ∑ d ∈ Finset.range D,
                  Q (((b * H + h) * S + (qt * 32 + i)) * D + d) *
                    K (((b * H + h) * S + (kvt * 32 + (kh * 16 + lane))) * D + d)) ∧
        ∀ (pPack oAcc : Buffer F) (p acc : Nat → Nat → F),
          (∀ i < 32, ∀ j < 32, pPack.load (i * 32 + j) = some (p i j)) →
          oAcc.size = 32 * 128 →
          (∀ i < 32, ∀ d < D, oAcc.load (i * D + d) = some (acc i d)) →
          ∃ oAcc', addPV (qTile H S D Q' Kpk' Vp' smScale isCausal b h qt) (kvt * 32) pPack
              oAcc = some oAcc' ∧
            ∀ i < 32, ∀ d < D, oAcc'.load (i * D + d) =
              some (acc i d + ∑ j ∈ Finset.range 32,
                p i j * V (((b * H + h) * S + (kvt * 32 + j)) * D + d)) := by
  have heven : 2 ∣ D := by omega
  obtain ⟨Kpk, hKpk, -, -⟩ := packKForAmxB_eq (B := B) (H := H) (S := S)
    (Nat.mod_eq_zero_of_dvd heven) fun a ha => Buffer.load_ofFn K ha
  obtain ⟨Vp, hVp, -, -⟩ := packVPairs_eq (B := B) (H := H) (D := D)
    (Nat.mod_eq_zero_of_dvd (Nat.dvd_trans (by decide) hS)) fun a ha => Buffer.load_ofFn V ha
  refine ⟨Kpk, Vp, hKpk, hVp, ?_⟩
  intro b hb h hh qt hqt kvt hkvt Q' Kpk' Vp' hQ' hKpk' hVp'
  have hreads := reads_of_sameIn hS heven hKpk hVp hb hh hqt hkvt hQ' hKpk' hVp' smScale isCausal
  constructor
  · intro sScratch hsize
    obtain ⟨sScratch', hrun, -, hscores⟩ := scoreTiles_eq hreads (show 32 ∣ D by omega) hsize
    refine ⟨sScratch', hrun, ?_⟩
    intro i hi kh hkh
    refine loadVec_eq_some.mpr fun lane => ?_
    rw [hscores (i / 16) (by omega) kh hkh (i % 16) (Nat.mod_lt _ (by decide)) lane lane.isLt,
      Nat.div_add_mod' i 16]
    rfl
  · intro pPack oAcc p acc hp hsize hacc
    obtain ⟨oAcc', hrun, -, hsum⟩ := addPV_eq hreads (show 16 ∣ D by omega)
      (show D ≤ 128 by omega) hp hsize hacc
    exact ⟨oAcc', hrun, hsum⟩

/-- The second head's second tiles, among two heads of sixty-four tokens.  The keys have one
feature that is not zero and the other queries are overwritten; each score is that feature of
the query times the key's, and a row of weights is multiplied with the tile's values. -/
theorem tileProducts_exact_secondTiles :
    let K : Nat → ℚ := fun a => if a % 64 = 5 then (a / 64 : Nat) else 0
    ∃ Kpk Vp, packKForAmxB 1 2 64 64 (Buffer.ofFn (1 * 2 * 64 * 64) K) = some Kpk ∧
      packVPairs 1 2 64 64 (Buffer.ofFn (1 * 2 * 64 * 64) fun a => (a : ℚ)) = some Vp ∧
      let x := qTile 2 64 64 (Buffer.ofFn (1 * 2 * 64 * 64) fun a => if a < 6144 then 0 else (a : ℚ))
        Kpk Vp 1 true 0 1 1
      (∃ sScratch, scoreTiles x (1 * 32) (Buffer.uninit (16 * 16 * 2 * 2)) = some sScratch ∧
        loadVec 16 sScratch ((5 / 16 * 2 + 1) * (16 * 16) + 5 % 16 * 16) =
          some fun lane : Fin 16 => 6469 * (112 + ((lane : Nat) : ℚ))) ∧
      ∃ oAcc, addPV x (1 * 32) (Buffer.ofFn (32 * 32) fun a => (a : ℚ))
          (Buffer.ofFn (32 * 128) fun _ => 1000) = some oAcc ∧
        oAcc.load (3 * 64 + 9) = some 25668952 := by
  intro K
  obtain ⟨Kpk, Vp, hKpk, hVp, htiles⟩ := tileProducts_exact (B := 1) (H := 2) (S := 64) (D := 64)
    (by decide) (Or.inl rfl) (fun a => (a : ℚ)) K (fun a => (a : ℚ)) 1 true
  have hqueries : SameIn (queryCells 64 64 (0 * 2 + 1) 1)
      (Buffer.ofFn (1 * 2 * 64 * 64) fun a => (a : ℚ))
      (Buffer.ofFn (1 * 2 * 64 * 64) fun a => if a < 6144 then 0 else (a : ℚ)) := by
    refine ⟨rfl, ?_⟩
    rintro a ⟨i, hi, d, hd, rfl⟩
    rw [Buffer.load_ofFn _ (by omega), Buffer.load_ofFn _ (by omega), if_neg (by omega)]
  obtain ⟨hscores, hsums⟩ := htiles 0 (by decide) 1 (by decide) 1 (by decide) 1 (by decide) _ Kpk Vp
    hqueries ⟨rfl, fun _ _ => rfl⟩ ⟨rfl, fun _ _ => rfl⟩
  refine ⟨Kpk, Vp, hKpk, hVp, ?_, ?_⟩
  · obtain ⟨sScratch, hrun, hlanes⟩ := hscores (Buffer.uninit (16 * 16 * 2 * 2)) rfl
    refine ⟨sScratch, hrun, ?_⟩
    rw [hlanes 5 (by decide) 1 (by decide)]
    refine congrArg some (funext fun lane => ?_)
    rw [Finset.sum_eq_single_of_mem 5 (Finset.mem_range.mpr (by decide))]
    · have hkey : (((0 * 2 + 1) * 64 + (1 * 32 + (1 * 16 + (lane : Nat)))) * 64 + 5) / 64 =
          112 + lane := by omega
      rw [show K _ = _ from if_pos (by omega), hkey]
      push_cast
      ring
    · intro d hd hother
      rw [show K _ = _ from if_neg (by have := Finset.mem_range.mp hd; omega), mul_zero]
  · obtain ⟨oAcc, hrun, hsum⟩ := hsums (Buffer.ofFn (32 * 32) fun a => (a : ℚ))
      (Buffer.ofFn (32 * 128) fun _ => 1000) (fun i j => ((i * 32 + j : Nat) : ℚ)) (fun _ _ => 1000)
      (fun i hi j hj => Buffer.load_ofFn _ (by omega)) rfl
      (fun i hi d hd => Buffer.load_ofFn _ (by omega))
    refine ⟨oAcc, hrun, ?_⟩
    rw [hsum 3 (by decide) 9 (by decide)]
    norm_num [Finset.sum_range_succ]

end Tensors

end FlashBf16

end Repercep.Kernels
