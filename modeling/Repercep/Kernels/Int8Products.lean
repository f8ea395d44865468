import Mathlib
import Repercep.Kernels.FlashInt8
set_option autoImplicit false

/-!
# Packed bytes and their products

The packed and padded operands of the `INT8` kernel, and that the tile products over them are
the products of the matrices of bytes, whatever the bytes are and whatever the buffers held
before.  The padding is zero on both sides.
-/

namespace Repercep.Kernels

open Foundation

/-- The first rows of a buffer are those of a matrix, row-major. -/
def HoldsRows {α : Type} (b : Buffer α) (rows columns : Nat) (x : Nat → Nat → α) : Prop :=
  ∀ i < rows, ∀ j < columns, b.load (i * columns + j) = some (x i j)

namespace FlashInt8

/-! ## Packing and padding -/

section Packing

variable {D : Nat}

theorem packKt_eq (hD : 4 ∣ D) {ktI8 ktPacked : Buffer Int8} {k : Nat → Nat → Int8}
    (hk : HoldsRows ktI8 32 D k) (hsize : 32 * D ≤ ktPacked.size) :
    ∃ ktPacked', packKt D ktI8 ktPacked = some ktPacked' ∧ ktPacked'.size = ktPacked.size ∧
      ∀ dg < D / 4, ∀ n < 32, ∀ j < 4,
        ktPacked'.load ((dg * 32 + n) * 4 + j) = some (k n (4 * dg + j)) :=
  Buffer.copyBlock_eq (fun dg n j => n * D + 4 * dg + j)
    (fun dg hdg n hn j hj => by rw [Nat.add_assoc, hk n hn _ (by omega)]) (by omega)

theorem packInt8B_eq {kIn nOut : Nat} (hkIn : 4 ∣ kIn) {src dst : Buffer Int8}
    {b : Nat → Nat → Int8} (hb : HoldsRows src kIn nOut b) (hsize : kIn * nOut ≤ dst.size) :
    ∃ dst', packInt8B src kIn nOut dst = some dst' ∧ dst'.size = dst.size ∧
      ∀ kg < kIn / 4, ∀ n < nOut, ∀ j < 4,
        dst'.load ((kg * nOut + n) * 4 + j) = some (b (4 * kg + j) n) := by
  refine Buffer.copyBlock_eq (fun kg n j => (4 * kg + j) * nOut + n)
    (fun kg hkg n hn j hj => hb _ (by omega) n hn) ?_
  obtain ⟨groups, rfl⟩ := hkIn
  rw [Nat.mul_div_cancel_left groups (by decide)]
  exact (by ring : groups * nOut * 4 = 4 * groups * nOut).trans_le hsize

/-- A matrix filled up with zeros: columns from `n` on, or rows. -/
def padded (n : Nat) (x : Nat → Int8) (j : Nat) : Int8 :=
  if j < n then x j else 0

theorem padP_eq {pI8 : Buffer Int8} {p : Nat → Nat → Int8} (hp : HoldsRows pI8 32 32 p) :
    ∃ pAmx, padP pI8 = some pAmx ∧ HoldsRows pAmx 32 64 fun i => padded 32 (p i) := by
  obtain ⟨zeros, hzeros, hzerosSize, hzero⟩ := Buffer.scatter_const_eq
    (b := Buffer.uninit (32 * 64)) (0 : Int8) (le_refl (32 * 64))
  have hmem : ∀ {i j}, (i, j) ∈ List.range 32 ×ˢ List.range 32 ↔ i < 32 ∧ j < 32 := by
    intro i j
    rw [List.mem_product, List.mem_range, List.mem_range]
  obtain ⟨pAmx, hrun, -, hnew, hkept⟩ := @Buffer.copy_eq Int8 (Nat × Nat) zeros pI8
    (List.range 32 ×ˢ List.range 32) (fun t => t.1 * 32 + t.2) (fun t => t.1 * 64 + t.2)
    (fun t => p t.1 t.2)
    (by
      intro ⟨i, j⟩ ht
      exact hp i (hmem.mp ht).1 j (hmem.mp ht).2)
    (List.nodup_range.product List.nodup_range)
    (by
      intro ⟨i, j⟩ ht
      obtain ⟨hi, hj⟩ := hmem.mp ht
      rw [hzerosSize]
      exact lt_mul_of_lt hi (hj.trans (by decide)))
    (by
      intro ⟨i, j⟩ ht ⟨i', j'⟩ ht' hsame
      obtain ⟨-, hj⟩ := hmem.mp ht
      obtain ⟨-, hj'⟩ := hmem.mp ht'
      obtain ⟨hii, hjj⟩ := rowMajor_injective (hj.trans (by decide)) (hj'.trans (by decide)) hsame
      exact Prod.ext hii hjj)
  refine ⟨pAmx, ?_, ?_⟩
  · rw [padP, hzeros, Option.bind_eq_bind, Option.bind_some, ← hrun]
    simp only [Buffer.copy, foldlM_product]
  · intro i hi j hj
    change _ = some (if j < 32 then p i j else 0)
    split
    · next hlow => exact hnew (i, j) (hmem.mpr ⟨hi, hlow⟩)
    · next hhigh =>
        rw [hkept _ fun t ht hsame => ?_, hzero _ (lt_mul_of_lt hi hj)]
        obtain ⟨i', j'⟩ := t
        obtain ⟨-, hj'⟩ := hmem.mp ht
        obtain ⟨-, hjj⟩ := rowMajor_injective (hj'.trans (by decide)) hj hsame
        exact hhigh (hjj ▸ hj')

theorem padV_eq (hD : D ≤ 128) {vPacked : Buffer Int8} {v : Nat → Nat → Int8}
    (hv : ∀ kg < 8, ∀ d < D, ∀ j < 4,
      vPacked.load ((kg * D + d) * 4 + j) = some (v (4 * kg + j) d)) :
    ∃ vAmx, padV D vPacked = some vAmx ∧ ∀ kg < 16, ∀ d < D, ∀ j < 4,
      vAmx.load ((kg * D + d) * 4 + j) = some (padded 32 (fun n => v n d) (4 * kg + j)) := by
  obtain ⟨zeros, hzeros, hzerosSize, hzero⟩ := Buffer.scatter_const_eq
    (b := Buffer.uninit (16 * 128 * 4)) (0 : Int8) (show 16 * D * 4 ≤ 16 * 128 * 4 by omega)
  have hsplit : ∀ a, a / 4 / D * D + a / 4 % D = a / 4 ∧ a / 4 * 4 + a % 4 = a :=
    fun a => ⟨Nat.div_add_mod' _ _, Nat.div_add_mod' _ _⟩
  obtain ⟨vAmx, hrun, -, hnew, hkept⟩ := @Buffer.copy_eq Int8 Nat zeros vPacked
    (List.range (32 / 4 * D * 4)) id id (fun a => v (4 * (a / 4 / D) + a % 4) (a / 4 % D))
    (by
      intro a ha
      have ha := List.mem_range.mp ha
      have hpos : 0 < D := by omega
      have hrow : a / 4 / D < 8 := by
        rw [Nat.div_lt_iff_lt_mul hpos]
        omega
      have hcell := hv _ hrow _ (Nat.mod_lt (a / 4) hpos) _ (Nat.mod_lt a (show 0 < 4 by decide))
      rw [(hsplit a).1, (hsplit a).2] at hcell
      exact hcell)
    List.nodup_range
    (by
      intro a ha
      have ha := List.mem_range.mp ha
      rw [hzerosSize]
      change a < 16 * 128 * 4
      omega)
    (fun _ _ _ _ hsame => hsame)
  refine ⟨vAmx, ?_, ?_⟩
  · rw [padV, hzeros]
    exact hrun
  · intro kg hkg d hd j hj
    have hpos : 0 < D := by omega
    have hrow : ((kg * D + d) * 4 + j) / 4 = kg * D + d := by omega
    have hmod : ((kg * D + d) * 4 + j) % 4 = j := by omega
    have hgroup : (kg * D + d) / D = kg := by
      rw [Nat.mul_comm, Nat.mul_add_div hpos, Nat.div_eq_of_lt hd, Nat.add_zero]
    have hcolumn : (kg * D + d) % D = d := by
      rw [Nat.mul_comm, Nat.mul_add_mod, Nat.mod_eq_of_lt hd]
    rw [padded]
    split
    · next hlow =>
        have hcell := hnew ((kg * D + d) * 4 + j)
          (List.mem_range.mpr (lt_mul_of_lt (lt_mul_of_lt (show kg < 8 by omega) hd) hj))
        rw [hrow, hmod, hgroup, hcolumn] at hcell
        exact hcell
    · next hhigh =>
        have hpast : 8 * D ≤ kg * D := Nat.mul_le_mul_right D (by omega)
        rw [hkept _ fun a ha hsame => ?_,
          hzero _ (lt_mul_of_lt (lt_mul_of_lt hkg hd) hj)]
        have ha := List.mem_range.mp ha
        change a = (kg * D + d) * 4 + j at hsame
        omega

end Packing

/-! ## The products -/

section Products

variable {mode : Overflow} {D : Nat} {q k p v : Nat → Nat → Int8}

/-- The product of two rows of bytes. -/
def dotInt8 (n : Nat) (a b : Nat → Int8) : Int :=
  ∑ j ∈ Finset.range n, (a j).toInt * (b j).toInt

theorem abs_dotInt8_le (n : Nat) (a b : Nat → Int8) : |dotInt8 n a b| ≤ n * 2 ^ 14 :=
  calc |dotInt8 n a b| ≤ ∑ j ∈ Finset.range n, |(a j).toInt * (b j).toInt| :=
        Finset.abs_sum_le_sum_abs _ _
    _ ≤ ∑ _j ∈ Finset.range n, 2 ^ 14 := Finset.sum_le_sum fun j _ => abs_toInt_mul _ _
    _ = n * 2 ^ 14 := by rw [Finset.sum_const, Finset.card_range, nsmul_eq_mul]

theorem dotInt8_congr {n : Nat} {a b b' : Nat → Int8} (hb : ∀ j < n, b' j = b j) :
    dotInt8 n a b' = dotInt8 n a b := by
  refine Finset.sum_congr rfl fun j hj => ?_
  rw [hb j (Finset.mem_range.mp hj)]

/-- A product with zero wherever one side is zero. -/
theorem dotInt8_eq_zero {n : Nat} {a b : Nat → Int8} (h : ∀ j < n, a j = 0 ∨ b j = 0) :
    dotInt8 n a b = 0 := by
  refine Finset.sum_eq_zero fun j hj => ?_
  rcases h j (Finset.mem_range.mp hj) with ha | hb
  · rw [ha]
    exact zero_mul _
  · rw [hb]
    exact mul_zero _

/-- What is filled up does not count. -/
theorem dotInt8_padded (a b : Nat → Int8) :
    dotInt8 64 (padded 32 a) (padded 32 b) = dotInt8 32 a b := by
  have hlow : ∀ j ∈ Finset.range 32, (padded 32 a j).toInt * (padded 32 b j).toInt =
      (a j).toInt * (b j).toInt := by
    intro j hj
    rw [padded, padded, if_pos (Finset.mem_range.mp hj), if_pos (Finset.mem_range.mp hj)]
  have hhigh : ∀ j ∈ Finset.range 32,
      (padded 32 a (32 + j)).toInt * (padded 32 b (32 + j)).toInt = 0 := by
    intro j _
    rw [padded, if_neg (by omega)]
    exact zero_mul _
  rw [dotInt8, show 64 = 32 + 32 from rfl, Finset.sum_range_add, Finset.sum_congr rfl hlow,
    Finset.sum_eq_zero hhigh, add_zero]
  rfl

theorem scoreTile_eq (hD : 64 ∣ D) (hD' : D ≤ 128) {qI8 ktPacked : Buffer Int8}
    (hq : HoldsRows qI8 32 D q)
    (hk : ∀ dg < D / 4, ∀ n < 32, ∀ j < 4,
      ktPacked.load ((dg * 32 + n) * 4 + j) = some (k n (4 * dg + j)))
    {qh kh : Nat} (hqh : qh < 2) (hkh : kh < 2) :
    scoreTile mode D qI8 ktPacked qh kh = some fun m n : Fin 16 =>
      dotInt8 D (q (qh * 16 + m)) (k (kh * 16 + n)) := by
  have hstep : ∀ dc (tmmS : Tile 16 Int), dc < D / 64 →
      tmmS = (fun m n : Fin 16 => dotInt8 (dc * 64) (q (qh * 16 + m)) (k (kh * 16 + n))) →
      ∃ tmmS', (do
          let tmmQ ← tileLoadd 64 1 qI8 (qh * 16 * D + dc * 64) (D * 1)
          let tmmK ← tileLoadd 64 1 ktPacked (dc * 16 * 32 * 4 + kh * 16 * 4) (32 * 4 * 1)
          tdpbssd mode tmmS tmmQ tmmK) = some tmmS' ∧
        tmmS' = fun m n : Fin 16 =>
          dotInt8 ((dc + 1) * 64) (q (qh * 16 + m)) (k (kh * 16 + n)) := by
    intro dc tmmS hdc htmmS
    have hchunk : dc * 64 + 64 ≤ D := by omega
    have hQ : tileLoadd 64 1 qI8 (qh * 16 * D + dc * 64) (D * 1) =
        some fun (m : Fin 16) (c : Fin 64) => q (qh * 16 + m) (dc * 64 + c) := by
      refine (tileLoadd_eq_some Nat.one_pos).mpr fun m c => ?_
      have haddress : qh * 16 * D + dc * 64 + m * D + c =
          (qh * 16 + m) * D + (dc * 64 + c) := by ring
      rw [haddress, hq _ (by omega) _ (by omega)]
    have hK : tileLoadd 64 1 ktPacked (dc * 16 * 32 * 4 + kh * 16 * 4) (32 * 4 * 1) =
        some fun (r : Fin 16) (c : Fin 64) =>
          k (kh * 16 + c / 4) (dc * 64 + (4 * r + c % 4)) := by
      refine (tileLoadd_eq_some Nat.one_pos).mpr fun r c => ?_
      have haddress : dc * 16 * 32 * 4 + kh * 16 * 4 + r * (32 * 4) + c =
          ((dc * 16 + r) * 32 + (kh * 16 + c / 4)) * 4 + c % 4 := by omega
      have hfeature : 4 * (dc * 16 + r.val) + c % 4 = dc * 64 + (4 * r + c % 4) := by omega
      rw [haddress, hk _ (by omega) _ (by omega) _ (Nat.mod_lt _ (by decide)), hfeature]
    have hsmall : ∀ m n : Fin 16, |tmmS m n| < 2 ^ 30 := by
      intro m n
      rw [htmmS]
      refine (abs_dotInt8_le _ _ _).trans_lt ?_
      have hrest : ((dc * 64 : Nat) : Int) ≤ 64 := by omega
      omega
    refine ⟨_, ?_, rfl⟩
    rw [hQ, hK, Option.bind_eq_bind, Option.bind_some, Option.bind_some]
    rw [tdpbssd_packed hsmall (fun m c => q (qh * 16 + m) (dc * 64 + c))
      (fun f n => k (kh * 16 + n) (dc * 64 + f)), htmmS]
    refine congrArg some (funext fun m => funext fun n => ?_)
    rw [Nat.succ_mul, dotInt8, Finset.sum_range_add]
    rfl
  obtain ⟨tmmS', hrun, htmmS'⟩ := foldlM_range (s := (0 : Tile 16 Int))
    (I := fun dc tmmS => tmmS = fun m n : Fin 16 =>
      dotInt8 (dc * 64) (q (qh * 16 + m)) (k (kh * 16 + n)))
    (by
      funext m n
      rw [Nat.zero_mul]
      rfl) hstep
  rw [Nat.div_mul_cancel hD] at htmmS'
  rw [scoreTile, hrun, htmmS']

/-- The scores of a tile are the products of the queries and the keys. -/
theorem scoreTiles_eq (mode : Overflow) (hD : 64 ∣ D) (hD' : D ≤ 128) {qI8 ktPacked : Buffer Int8}
    (hq : HoldsRows qI8 32 D q)
    (hk : ∀ dg < D / 4, ∀ n < 32, ∀ j < 4,
      ktPacked.load ((dg * 32 + n) * 4 + j) = some (k n (4 * dg + j)))
    {sScratch : Buffer Int} (hsize : sScratch.size = 32 * 32) :
    ∃ sScratch', scoreTiles mode D qI8 ktPacked sScratch = some sScratch' ∧
      sScratch'.size = sScratch.size ∧
      HoldsRows sScratch' 32 32 fun i j => dotInt8 D (q i) (k j) := by
  refine tileLoop_eq (R := 2) (fun b qh kh => do
    let tmmS ← scoreTile mode D qI8 ktPacked qh kh
    tileStored 4 tmmS b (qh * 16 * 32 + kh * 16) (32 * 4)) (fun i j => dotInt8 D (q i) (k j))
    (show 0 < 4 by decide) (show 16 ∣ 32 by decide) hsize.ge ?_
  intro qh hqh kh hkh b _
  rw [scoreTile_eq hD hD' hq hk hqh hkh]
  rfl

theorem outputTile_eq {pAmx vAmx : Buffer Int8} (hp : HoldsRows pAmx 32 64 fun i => padded 32 (p i))
    (hv : ∀ kg < 16, ∀ d < D, ∀ j < 4,
      vAmx.load ((kg * D + d) * 4 + j) = some (padded 32 (fun n => v n d) (4 * kg + j)))
    {qh dt : Nat} (hqh : qh < 2) (hdt : dt < D / 16) :
    outputTile mode D pAmx vAmx qh dt = some fun m n : Fin 16 =>
      dotInt8 32 (p (qh * 16 + m)) fun j => v j (dt * 16 + n) := by
  have hP : tileLoadd 64 1 pAmx (qh * 16 * 64) (64 * 1) =
      some fun (m : Fin 16) (c : Fin 64) => padded 32 (p (qh * 16 + m)) c := by
    refine (tileLoadd_eq_some Nat.one_pos).mpr fun m c => ?_
    rw [← Nat.add_mul, hp _ (by omega) _ c.isLt]
  have hV : tileLoadd 64 1 vAmx (dt * 16 * 4) (D * 4 * 1) =
      some fun (r : Fin 16) (c : Fin 64) =>
        padded 32 (fun j => v j (dt * 16 + c / 4)) (4 * r + c % 4) := by
    refine (tileLoadd_eq_some Nat.one_pos).mpr fun r c => ?_
    have haddress : dt * 16 * 4 + r * (D * 4) + c =
        (r * D + (dt * 16 + c / 4)) * 4 + c % 4 :=
      calc _ = r * D * 4 + dt * 16 * 4 + c := by ring
        _ = r * D * 4 + dt * 16 * 4 + (c / 4 * 4 + c % 4) := by rw [Nat.div_add_mod' c.val 4]
        _ = _ := by ring
    rw [haddress, hv _ r.isLt _ (by omega) _ (Nat.mod_lt _ (by decide))]
  rw [outputTile, hP, hV, Option.bind_eq_bind, Option.bind_some, Option.bind_some]
  have hzero : ∀ m n : Fin 16, |(0 : Tile 16 Int) m n| < 2 ^ 30 := by
    intro m n
    change |(0 : Int)| < 2 ^ 30
    decide
  rw [tdpbssd_packed hzero (fun m c => padded 32 (p (qh * 16 + m)) c)
    (fun j n => padded 32 (fun j => v j (dt * 16 + n)) j), zero_add]
  refine congrArg some (funext fun m => funext fun n => ?_)
  exact dotInt8_padded (p (qh * 16 + m)) fun j => v j (dt * 16 + n)

/-- The weighted values of a tile are the products of the weights and the values. -/
theorem outputTiles_eq (mode : Overflow) (hD : 16 ∣ D) (hD' : D ≤ 128) {pI8 vPacked : Buffer Int8}
    (hp : HoldsRows pI8 32 32 p)
    (hv : ∀ kg < 8, ∀ d < D, ∀ j < 4,
      vPacked.load ((kg * D + d) * 4 + j) = some (v (4 * kg + j) d))
    {oScratch : Buffer Int} (hsize : oScratch.size = 32 * 128) :
    ∃ oScratch', outputTiles mode D pI8 vPacked oScratch = some oScratch' ∧
      oScratch'.size = oScratch.size ∧
      HoldsRows oScratch' 32 D fun i d => dotInt8 32 (p i) fun j => v j d := by
  obtain ⟨pAmx, hpadP, hpAmx⟩ := padP_eq hp
  obtain ⟨vAmx, hpadV, hvAmx⟩ := padV_eq hD' hv
  have hrows : 2 * 16 * D ≤ oScratch.size := by
    rw [hsize]
    exact Nat.mul_le_mul_left _ hD'
  obtain ⟨oScratch', hrun, hsize', hnew⟩ := tileLoop_eq (fun b qh dt => do
    let tmmO ← outputTile mode D pAmx vAmx qh dt
    tileStored 4 tmmO b (qh * 16 * D + dt * 16) (D * 4))
    (fun i d => dotInt8 32 (p i) fun j => v j d) (show 0 < 4 by decide) hD hrows (by
      intro qh hqh dt hdt b _
      rw [outputTile_eq hpAmx hvAmx hqh hdt]
      rfl)
  refine ⟨oScratch', ?_, hsize', hnew⟩
  rw [outputTiles, hpadP, hpadV]
  exact hrun

end Products

end FlashInt8

end Repercep.Kernels
