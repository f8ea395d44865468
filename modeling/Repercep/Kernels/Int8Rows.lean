import Mathlib
import Repercep.Kernels.Int8Products
import Repercep.Kernels.KeyLoop
import Repercep.Kernels.Packing
set_option autoImplicit false

/-!
# The rows of the INT8 kernel

The kernel's run refines the loop over row states, with the scores and weighted sums that the
quantised operands give.  It does so whatever the scratch buffers held before each key tile,
so also where they held nothing.
-/

namespace Repercep.Kernels

open Foundation
open FlashBf16 (rowOfHead)

namespace FlashInt8

/-! ## Quantised rows -/

section Quantise

variable {F : Type} [Field F] [LinearOrder F] {ι : Type}

/-- The largest magnitude of the first `n` numbers. -/
def absmax (n : Nat) (f : Nat → F) : F :=
  (Finset.range n).fold max 0 fun j => |f j|

theorem absmax_le_iff {n : Nat} {f : Nat → F} {c : F} :
    absmax n f ≤ c ↔ 0 ≤ c ∧ ∀ j < n, |f j| ≤ c := by
  rw [absmax, Finset.fold_max_le]
  simp only [Finset.mem_range]

/-- The largest magnitude of thirty-two rows. -/
def tileAbsmax (D : Nat) (v : Nat → Nat → F) : F :=
  (Finset.range 32).fold max 0 fun n => absmax D (v n)

theorem tileAbsmax_le_iff {D : Nat} {v : Nat → Nat → F} {c : F} :
    tileAbsmax D v ≤ c ↔ 0 ≤ c ∧ ∀ n < 32, ∀ d < D, |v n d| ≤ c := by
  rw [tileAbsmax, Finset.fold_max_le]
  simp only [Finset.mem_range, absmax_le_iff]
  exact and_congr_right fun hc => forall₂_congr fun n _ => and_iff_right hc

omit [Field F] in
/-- A loop that looks for the largest of what its iterations see. -/
theorem foldlM_largest {f : F → ι → Option F} {P : ι → F → Prop} {xs : List ι}
    (hstep : ∀ x ∈ xs, ∀ m, ∃ m', f m x = some m' ∧ ∀ c, m' ≤ c ↔ m ≤ c ∧ P x c) (m : F) :
    ∃ m', xs.foldlM f m = some m' ∧ ∀ c, m' ≤ c ↔ m ≤ c ∧ ∀ x ∈ xs, P x c := by
  induction xs generalizing m with
  | nil => exact ⟨m, rfl, fun c => by simp⟩
  | cons x xs ih =>
      obtain ⟨m₁, hx, hm₁⟩ := hstep x List.mem_cons_self m
      obtain ⟨m', hrest, hm'⟩ := ih (fun y hy => hstep y (List.mem_cons_of_mem x hy)) m₁
      refine ⟨m', by rw [List.foldlM_cons, hx]; exact hrest, fun c => ?_⟩
      rw [hm' c, hm₁ c, List.forall_mem_cons, and_assoc]

theorem rowAbsmax_eq {src : Buffer F} {row D : Nat} (hD : 16 ∣ D) {f : Nat → F}
    (hsrc : ∀ d < D, src.load (row + d) = some (f d)) (m : F) :
    ∃ m', rowAbsmax src row D m = some m' ∧
      ∀ c, m' ≤ c ↔ m ≤ c ∧ ∀ d < D, |f d| ≤ c := by
  have hstep : ∀ d ∈ counter D 16, ∀ m, ∃ m', (do
      let fp ← loadVec 16 src (row + d)
      return if reduceMaxAbs fp > m then reduceMaxAbs fp else m) = some m' ∧
      ∀ c, m' ≤ c ↔ m ≤ c ∧ ∀ lane : Fin 16, |f (d + lane)| ≤ c := by
    intro d hd m
    have hload : loadVec 16 src (row + d) = some fun lane : Fin 16 => f (d + lane) := by
      refine loadVec_eq_some.mpr fun lane => ?_
      rw [Nat.add_assoc, hsrc _ (counter_inside (by decide) hD hd lane.isLt)]
    have hlanes : ∀ c, reduceMaxAbs (fun lane : Fin 16 => f (d + lane)) ≤ c ↔
        ∀ lane : Fin 16, |f (d + lane)| ≤ c := by
      intro c
      rw [reduceMaxAbs, Finset.sup'_le_iff]
      exact ⟨fun h lane => h lane (Finset.mem_univ lane), fun h lane _ => h lane⟩
    refine ⟨_, by rw [hload]; rfl, fun c => ?_⟩
    rw [← hlanes c]
    split
    · next hlarger => exact ⟨fun h => ⟨hlarger.le.trans h, h⟩, fun h => h.2⟩
    · next hsmaller => exact ⟨fun h => ⟨h, (not_lt.mp hsmaller).trans h⟩, fun h => h.1⟩
  obtain ⟨m', hrun, hm'⟩ := foldlM_largest hstep m
  refine ⟨m', hrun, fun c => ?_⟩
  rw [hm' c]
  refine and_congr_right fun _ => ⟨fun h d hd => ?_, fun h d hd lane => ?_⟩
  · obtain ⟨hmem, hsplit⟩ := counter_cover (show 0 < 16 by decide) hd
    have hlane := h _ hmem ⟨d % 16, Nat.mod_lt _ (by decide)⟩
    rwa [hsplit] at hlane
  · exact h _ (counter_inside (by decide) hD hd lane.isLt)

/-- A row's scale. -/
def rowScale (n : Nat) (f : Nat → F) : F :=
  scaleOf (absmax n f)

/-- The scale of a tile of thirty-two rows. -/
def tileScale (D : Nat) (v : Nat → Nat → F) : F :=
  scaleOf (tileAbsmax D v)

theorem vTileScale_eq {V : Buffer F} {vTile D : Nat} (hD : 16 ∣ D) {v : Nat → Nat → F}
    (hv : ∀ n < 32, ∀ d < D, V.load (vTile + n * D + d) = some (v n d)) :
    vTileScale V vTile D = some (tileScale D v) := by
  have hstep : ∀ n ∈ List.range 32, ∀ m, ∃ m', rowAbsmax V (vTile + n * D) D m = some m' ∧
      ∀ c, m' ≤ c ↔ m ≤ c ∧ ∀ d < D, |v n d| ≤ c :=
    fun n hn m => rowAbsmax_eq hD (hv n (List.mem_range.mp hn)) m
  obtain ⟨m', hrun, hm'⟩ := foldlM_largest hstep 0
  have hsame : m' = tileAbsmax D v := by
    refine eq_of_forall_ge_iff fun c => ?_
    rw [hm' c, tileAbsmax_le_iff]
    simp only [List.mem_range]
  rw [vTileScale, hrun, hsame]
  rfl

variable [FloorRing F]

/-- A row's bytes. -/
def rowInt8 (n : Nat) (f : Nat → F) (j : Nat) : Int8 :=
  toInt8 (f j * (1 / rowScale n f))

/-- A tile's bytes. -/
def tileInt8 (D : Nat) (v : Nat → Nat → F) (n d : Nat) : Int8 :=
  toInt8 (v n d * (1 / tileScale D v))

theorem quantizeRow_eq (inv : F) {src : Buffer F} {row D out : Nat} (hD : 16 ∣ D) {f : Nat → F}
    (hsrc : ∀ d < D, src.load (row + d) = some (f d)) {dst : Buffer Int8}
    (hsize : out + D ≤ dst.size) :
    ∃ dst', quantizeRow inv src row D dst out = some dst' ∧ dst'.size = dst.size ∧
      (∀ d < D, dst'.load (out + d) = some (toInt8 (f d * inv))) ∧
      ∀ a, (∀ d < D, out + d ≠ a) → dst'.load a = dst.load a := by
  refine vecLoop_eq _ (fun d => toInt8 (f d * inv)) (by decide) hD hsize ?_
  intro d hd c _
  have hload : loadVec 16 src (row + d) = some fun lane : Fin 16 => f (d + lane) := by
    refine loadVec_eq_some.mpr fun lane => ?_
    rw [Nat.add_assoc, hsrc _ (counter_inside (by decide) hD hd lane.isLt)]
  rw [hload]
  rfl

/-- Each row is quantised by its own scale. -/
theorem quantizeRows_eq {src : Buffer F} (base : Nat) {mRows D : Nat} (hD : 16 ∣ D)
    {f : Nat → Nat → F}
    (hsrc : ∀ i < mRows, ∀ d < D, src.load (base + i * D + d) = some (f i d))
    {dst : Buffer Int8} {scales : Buffer F} (hdst : mRows * D ≤ dst.size)
    (hscales : mRows ≤ scales.size) :
    ∃ out, quantizeRows src base mRows D dst scales = some out ∧ out.1.size = dst.size ∧
      out.2.size = scales.size ∧ HoldsRows out.1 mRows D (fun i => rowInt8 D (f i)) ∧
      ∀ i < mRows, out.2.load i = some (rowScale D (f i)) := by
  have hstep : ∀ i ∈ List.range mRows, ∀ out : Buffer Int8 × Buffer F,
      out.1.size = dst.size ∧ out.2.size = scales.size →
      (Unit → (fun d : Fin D => out.1.load (i * D + d), out.2.load i) =
        (fun d : Fin D => dst.load (i * D + d), scales.load i)) →
      ∃ out', (do
          let m ← rowAbsmax src (base + i * D) D 0
          let scales ← out.2.store i (scaleOf m)
          let dst ← quantizeRow (1 / scaleOf m) src (base + i * D) D out.1 (i * D)
          return (dst, scales)) = some out' ∧
        (out'.1.size = dst.size ∧ out'.2.size = scales.size) ∧
        (Unit → (fun d : Fin D => out'.1.load (i * D + d), out'.2.load i) =
          (fun d : Fin D => some (rowInt8 D (f i) d), some (rowScale D (f i)))) ∧
        ∀ i', (Unit → i ≠ i') → (fun d : Fin D => out'.1.load (i' * D + d), out'.2.load i') =
          (fun d : Fin D => out.1.load (i' * D + d), out.2.load i') := by
    intro i hmem out hout _
    have hi := List.mem_range.mp hmem
    obtain ⟨m, habsmax, hm⟩ := rowAbsmax_eq hD (hsrc i hi) 0
    have hscale : m = absmax D (f i) := by
      refine eq_of_forall_ge_iff fun c => ?_
      rw [hm c, absmax_le_iff]
    obtain ⟨scales', hstore, hscalesSize, hscalesNew, hscalesKept⟩ :=
      Buffer.store_eq (b := out.2) (i := i) (by omega) (scaleOf m)
    obtain ⟨dst', hrow, hdstSize, hdstNew, hdstKept⟩ :=
      quantizeRow_eq (1 / scaleOf m) hD (hsrc i hi) (show i * D + D ≤ out.1.size by
        rw [hout.1, ← Nat.succ_mul]
        exact (Nat.mul_le_mul_right D hi).trans hdst)
    refine ⟨(dst', scales'), ?_, ⟨hdstSize.trans hout.1, hscalesSize.trans hout.2⟩, ?_, ?_⟩
    · simp only [habsmax, hstore, hrow, Option.bind_eq_bind, Option.bind_some]
      rfl
    · intro _
      rw [hscale] at hscalesNew hdstNew
      exact Prod.ext (funext fun d => hdstNew d d.isLt) hscalesNew
    · intro i' hne
      refine Prod.ext (funext fun d => ?_) (hscalesKept i' (hne ()).symm)
      exact hdstKept _ fun d' hd' hsame =>
        hne () (rowMajor_injective hd' d.isLt hsame).1
  obtain ⟨out, hrun, hsizes, hnew, -⟩ := @Foundation.foldlM_owned _ _ _ _ _ _
    (fun out : Buffer Int8 × Buffer F => out.1.size = dst.size ∧ out.2.size = scales.size)
    (fun out i => (fun d : Fin D => out.1.load (i * D + d), out.2.load i)) (fun i (_ : Unit) => i)
    (fun i _ => (fun d : Fin D => some (rowInt8 D (f i) d), some (rowScale D (f i)))) _
    (dst, scales) List.nodup_range (fun i _ i' _ _ _ hsame => hsame) hstep ⟨rfl, rfl⟩
  refine ⟨out, hrun, hsizes.1, hsizes.2, ?_, ?_⟩
  · intro i hi d hd
    exact congrFun (congrArg Prod.fst (hnew i (List.mem_range.mpr hi) ())) ⟨d, hd⟩
  · intro i hi
    exact congrArg Prod.snd (hnew i (List.mem_range.mpr hi) ())

/-- A tile of values is quantised by one scale. -/
theorem quantizeV_eq {V : Buffer F} {vTile D : Nat} (hD : 16 ∣ D) {v : Nat → Nat → F}
    (hv : ∀ n < 32, ∀ d < D, V.load (vTile + n * D + d) = some (v n d)) {vI8 : Buffer Int8}
    (hsize : 32 * D ≤ vI8.size) :
    ∃ vI8', quantizeV (1 / tileScale D v) V vTile D vI8 = some vI8' ∧ vI8'.size = vI8.size ∧
      HoldsRows vI8' 32 D (tileInt8 D v) := by
  have hstep : ∀ n ∈ List.range 32, ∀ b : Buffer Int8, b.size = vI8.size →
      (∀ d : Fin D, b.load (n * D + d) = vI8.load (n * D + d)) →
      ∃ b', quantizeRow (1 / tileScale D v) V (vTile + n * D) D b (n * D) = some b' ∧
        b'.size = b.size ∧ (∀ d : Fin D, b'.load (n * D + d) = some (tileInt8 D v n d)) ∧
        ∀ a, (∀ d : Fin D, n * D + d ≠ a) → b'.load a = b.load a := by
    intro n hmem b hb _
    have hn := List.mem_range.mp hmem
    obtain ⟨b', hrow, hsize', hnew, hkept⟩ :=
      quantizeRow_eq (1 / tileScale D v) hD (hv n hn) (show n * D + D ≤ b.size by
        rw [hb, ← Nat.succ_mul]
        exact (Nat.mul_le_mul_right D hn).trans hsize)
    exact ⟨b', hrow, hsize', fun d => hnew d d.isLt, fun a hnone =>
      hkept a fun d hd => hnone ⟨d, hd⟩⟩
  obtain ⟨vI8', hrun, hsize', hnew, -⟩ := Buffer.foldlM_owned List.nodup_range
    (fun n _ n' _ d d' hsame => (rowMajor_injective d.isLt d'.isLt hsame).1) hstep
  exact ⟨vI8', hrun, hsize', fun n hn d hd => hnew n (List.mem_range.mpr hn) ⟨d, hd⟩⟩

end Quantise

/-! ## One tile of queries -/

section Tile

variable {F : Type} [Field F] [LinearOrder F] [FloorRing F]

/-- What one key tile needs of the tensors: the keys `k` and values `v` of the tile. -/
structure QTile.Reads (x : QTile F) (kvt : Nat) (k v : Nat → Nat → F) : Prop where
  keys : ∀ n < 32, ∀ d < x.D,
    x.K.load (x.kFullPtr + kvt * 32 * x.D + n * x.D + d) = some (k (kvt * 32 + n) d)
  values : ∀ n < 32, ∀ d < x.D,
    x.V.load (x.vFullPtr + kvt * 32 * x.D + n * x.D + d) = some (v (kvt * 32 + n) d)

/-- The quantised queries of the tile. -/
structure HoldsQueries (D : Nat) (out : Buffer Int8 × Buffer F) (q : Nat → Nat → F) : Prop where
  bytes : HoldsRows out.1 32 D fun i => rowInt8 D (q i)
  scales : ∀ i < 32, out.2.load i = some (rowScale D (q i))

/-- A query's score for a key, from their bytes. -/
def scoreInt8 (D : Nat) (smScale : F) (a b : Nat → F) : F :=
  (dotInt8 D (rowInt8 D a) (rowInt8 D b) : F) * (rowScale D a * smScale * rowScale D b)

/-- The weighted sums of a tile's values, from the bytes of both. -/
def weightedInt8 (D : Nat) (v : Nat → Nat → F) (kvt : Nat) (p : Nat → F) (d : Nat) : F :=
  (dotInt8 32 (rowInt8 32 p) (fun j => tileInt8 D (fun n => v (kvt * 32 + n)) j d) : F) *
    (rowScale 32 p * tileScale D fun n => v (kvt * 32 + n))

/-- The score of key `j` for query `i` of the tile. -/
def score (x : QTile F) (q k : Nat → Nat → F) (i j : Nat) : WithBot F :=
  maskedScore x.isCausal (x.qStart + i) j (scoreInt8 x.D x.smScale (q i) (k j))

variable {x : QTile F} {kvt : Nat} {q k v : Nat → Nat → F}

theorem scoreRow_eq {qScales kScales : Buffer F} {sScratch : Buffer Int}
    (hqScales : ∀ i < 32, qScales.load i = some (rowScale x.D (q i)))
    (hkScales : ∀ n < 32, kScales.load n = some (rowScale x.D (k (kvt * 32 + n))))
    (hscores : HoldsRows sScratch 32 32 fun i n =>
      dotInt8 x.D (rowInt8 x.D (q i)) (rowInt8 x.D (k (kvt * 32 + n))))
    (hq : 32 ∣ x.qStart) (hreached : x.isCausal → kvt * 32 < x.qStart + 32) {i : Nat}
    (hi : i < 32) :
    scoreRow x (kvt * 32) qScales kScales sScratch i =
      some (fun lane : Fin 16 => score x q k i (kvt * 32 + lane),
        fun lane : Fin 16 => score x q k i (kvt * 32 + (16 + lane))) := by
  have hload : ∀ offset ≤ 16, loadVec 16 sScratch (i * 32 + offset) =
      some fun lane : Fin 16 => dotInt8 x.D (rowInt8 x.D (q i))
        (rowInt8 x.D (k (kvt * 32 + (offset + lane)))) := by
    intro offset hoffset
    refine loadVec_eq_some.mpr fun lane => ?_
    rw [Nat.add_assoc, hscores i hi _ (by omega)]
  have hscale : ∀ offset ≤ 16, loadVec 16 kScales offset =
      some fun lane : Fin 16 => rowScale x.D (k (kvt * 32 + (offset + lane))) := by
    intro offset hoffset
    exact loadVec_eq_some.mpr fun lane => hkScales _ (by omega)
  have hmask : ∀ offset ≤ 16, maskLanes (x.isCausal && decide (kvt * 32 + 32 > x.qStart))
      (kvt * 32 + offset) (x.qStart + i) (fun lane : Fin 16 =>
        scoreInt8 x.D x.smScale (q i) (k (kvt * 32 + (offset + lane)))) =
      fun lane : Fin 16 => score x q k i (kvt * 32 + (offset + lane)) := by
    intro offset hoffset
    rw [maskLanes_eq (Nat.dvd_mul_left 32 kvt) hq hi hoffset hreached]
    simp only [Nat.add_assoc]
    rfl
  have hlow := hmask 0 (Nat.zero_le 16)
  have hhigh := hmask 16 (le_refl 16)
  rw [scoreRow, hqScales i hi, hload 0 (Nat.zero_le 16), hload 16 (le_refl 16),
    hscale 0 (Nat.zero_le 16), hscale 16 (le_refl 16)]
  simp only [scoreInt8, Nat.zero_add, Nat.add_zero] at hlow hhigh
  simp only [Option.bind_eq_bind, Option.bind_some, Nat.zero_add, hlow, hhigh]
  rfl

omit [LinearOrder F] [FloorRing F] in
/-- The products scaled back and added to the accumulator. -/
theorem addO_eq {D : Nat} (vScale : F) (hD : 16 ∣ D) (hD' : D ≤ 128) {pScales oAcc : Buffer F}
    {oScratch : Buffer Int} {scales : Nat → F} {t : Nat → Nat → Int}
    {acc : Nat → Nat → F} (hscales : ∀ i < 32, pScales.load i = some (scales i))
    (ht : HoldsRows oScratch 32 D t) (hsize : oAcc.size = 32 * 128)
    (hacc : HoldsRows oAcc 32 D acc) :
    ∃ oAcc', addO D pScales vScale oScratch oAcc = some oAcc' ∧ oAcc'.size = 32 * 128 ∧
      HoldsRows oAcc' 32 D fun i d => acc i d + (t i d : F) * (scales i * vScale) := by
  have hstep : ∀ i ∈ List.range 32, ∀ b : Buffer F, b.size = oAcc.size →
      (∀ d : Fin D, b.load (i * D + d) = oAcc.load (i * D + d)) →
      ∃ b', (do
          let pScale ← pScales.load i
          (counter D 16).foldlM (fun oAcc d => do
            let raw ← loadVec 16 oScratch (i * D + d)
            let prev ← loadVec 16 oAcc (i * D + d)
            storeVec oAcc (i * D + d) fun lane => prev lane + (raw lane : F) * (pScale * vScale))
              b) = some b' ∧ b'.size = b.size ∧
        (∀ d : Fin D, b'.load (i * D + d) =
          some (acc i d + (t i d : F) * (scales i * vScale))) ∧
        ∀ a, (∀ d : Fin D, i * D + d ≠ a) → b'.load a = b.load a := by
    intro i hmem b hb hold
    have hi := List.mem_range.mp hmem
    have hend : i * D + D ≤ b.size := by
      have hrow : (i + 1) * D ≤ 32 * D := Nat.mul_le_mul_right D hi
      rw [Nat.succ_mul] at hrow
      omega
    obtain ⟨b', hrun, hsize', hnew, hkept⟩ := vecLoop_eq (fun oAcc d => do
        let raw ← loadVec 16 oScratch (i * D + d)
        let prev ← loadVec 16 oAcc (i * D + d)
        storeVec oAcc (i * D + d) fun lane => prev lane + (raw lane : F) * (scales i * vScale))
      (fun d => acc i d + (t i d : F) * (scales i * vScale)) (show 0 < 16 by decide) hD hend (by
      intro d hd c hc
      have hinside : ∀ lane : Fin 16, d + lane < D :=
        fun lane => counter_inside (by decide) hD hd lane.isLt
      have hraw : loadVec 16 oScratch (i * D + d) = some fun lane : Fin 16 => t i (d + lane) := by
        refine loadVec_eq_some.mpr fun lane => ?_
        rw [Nat.add_assoc, ht i hi _ (hinside lane)]
      have hprev : loadVec 16 c (i * D + d) = some fun lane : Fin 16 => acc i (d + lane) := by
        refine loadVec_eq_some.mpr fun lane => ?_
        have hcell := hold ⟨d + lane, hinside lane⟩
        rw [hc lane, Nat.add_assoc, hcell, hacc i hi _ (hinside lane)]
      rw [hraw, hprev]
      rfl)
    refine ⟨b', ?_, hsize', fun d => hnew d d.isLt, fun a hnone =>
      hkept a fun d hd => hnone ⟨d, hd⟩⟩
    rw [hscales i hi]
    exact hrun
  obtain ⟨oAcc', hrun, hsize', hnew, -⟩ := Buffer.foldlM_owned List.nodup_range
    (fun i _ i' _ d d' hsame => (rowMajor_injective d.isLt d'.isLt hsame).1) hstep
  exact ⟨oAcc', hrun, hsize'.trans hsize, fun i hi d hd =>
    hnew i (List.mem_range.mpr hi) ⟨d, hd⟩⟩

/-- The buffers have their sizes. -/
structure Scratch.Sized (st : Scratch F) : Prop where
  rowMax : st.rowMax.size = 32
  rowSum : st.rowSum.size = 32
  oAcc : st.oAcc.size = 32 * 128
  ktI8 : st.ktI8.size = 32 * 128
  ktPacked : st.ktPacked.size = 32 * 128
  kScales : st.kScales.size = 32
  vI8 : st.vI8.size = 32 * 128
  vPacked : st.vPacked.size = 32 * 128
  pI8 : st.pI8.size = 32 * 32
  pScales : st.pScales.size = 32
  sScratch : st.sScratch.size = 32 * 32
  oScratch : st.oScratch.size = 32 * 128
  pFp32 : st.pFp32.size = 32 * 32

/-- The accumulators hold the states of the rows. -/
structure Scratch.Holds (D : Nat) (st : Scratch F) (r : Nat → RowState F Nat) : Prop where
  sized : st.Sized
  max : ∀ i < 32, st.rowMax.load i = some (r i).max
  sum : ∀ i < 32, st.rowSum.load i = some (r i).sum
  acc : ∀ i < 32, ∀ d < D, st.oAcc.load (i * D + d) = some ((r i).acc d)

omit [Field F] [LinearOrder F] [FloorRing F] in
/-- Only the thirty-two rows of the tile count. -/
theorem Scratch.Holds.congr {D : Nat} {st : Scratch F} {r r' : Nat → RowState F Nat}
    (h : st.Holds D r) (hsame : ∀ i < 32, r i = r' i) : st.Holds D r' where
  sized := h.sized
  max := fun i hi => hsame i hi ▸ h.max i hi
  sum := fun i hi => hsame i hi ▸ h.sum i hi
  acc := fun i hi => hsame i hi ▸ h.acc i hi

omit [Field F] [LinearOrder F] [FloorRing F] in
/-- What the scratch buffers hold does not count. -/
theorem Scratch.Holds.unwritten {D : Nat} {st : Scratch F} {r : Nat → RowState F Nat}
    (h : st.Holds D r) : (Scratch.unwritten st.rowMax st.rowSum st.oAcc).Holds D r where
  sized := ⟨h.sized.rowMax, h.sized.rowSum, h.sized.oAcc, rfl, rfl, rfl, rfl, rfl, rfl, rfl, rfl,
    rfl, rfl⟩
  max := h.max
  sum := h.sum
  acc := h.acc

/-- One pass of the key loop takes one tile in, in every row. -/
theorem keyTile_eq (mode : Overflow) {e : Exponentials F} (h : x.Reads kvt k v) (hD : 64 ∣ x.D)
    (hD' : x.D ≤ 128) (hq : 32 ∣ x.qStart) (hreached : x.isCausal → kvt * 32 < x.qStart + 32)
    {out : Buffer Int8 × Buffer F} (hout : HoldsQueries x.D out q) {st : Scratch F}
    {r r' : Nat → RowState F Nat} (hst : st.Holds x.D r)
    (habsorb : ∀ i < 32, (r i).absorb e.stdExp e.expPs 32
      (fun j => score x q k i (kvt * 32 + j)) (weightedInt8 x.D v kvt) = some (r' i)) :
    ∃ st', keyTile mode e x out st kvt = some st' ∧ st'.Holds x.D r' := by
  have hD₁ : 16 ∣ x.D := Nat.dvd_trans (by decide) hD
  have hrows : 32 * x.D ≤ 32 * 128 := Nat.mul_le_mul_left 32 hD'
  obtain ⟨kOut, hkRun, hkSize, hkScalesSize, hkBytes, hkScales⟩ :=
    quantizeRows_eq _ hD₁ h.keys (hrows.trans_eq hst.sized.ktI8.symm) hst.sized.kScales.ge
  have hvScale := vTileScale_eq hD₁ h.values
  obtain ⟨vI8, hvRun, hvSize, hvBytes⟩ :=
    quantizeV_eq hD₁ h.values (hrows.trans_eq hst.sized.vI8.symm)
  obtain ⟨ktPacked, hpackK, hktSize, hkt⟩ := packKt_eq (Nat.dvd_trans (by decide) hD) hkBytes
    (hrows.trans_eq hst.sized.ktPacked.symm)
  obtain ⟨vPacked, hpackV, hvpSize, hvp⟩ := packInt8B_eq (show 4 ∣ 32 by decide) hvBytes
    (hrows.trans_eq hst.sized.vPacked.symm)
  obtain ⟨sScratch, hscoreRun, hscoreSize, hscores⟩ :=
    scoreTiles_eq mode hD hD' hout.bytes hkt hst.sized.sScratch
  obtain ⟨m, hm⟩ := RowState.absorb_rows habsorb
  have hsized₀ : Softmax.Sized ⟨st.rowMax, st.rowSum, st.oAcc, st.pFp32⟩ :=
    ⟨hst.sized.rowMax, hst.sized.rowSum, hst.sized.oAcc, hst.sized.pFp32⟩
  obtain ⟨soft, hsoftRun, hsized, hsoft⟩ := softmaxPass_eq e hD₁ hD'
    (fun i hi => scoreRow_eq hout.scales hkScales hscores hq hreached hi)
    (fun i hi => (hm i hi).1) hsized₀ fun i hi => ⟨hst.max i hi, hst.sum i hi, hst.acc i hi⟩
  obtain ⟨pOut, hpRun, hpSize, hpScalesSize, hpBytes, hpScales⟩ := quantizeRows_eq 0
    (show 16 ∣ 32 by decide) (fun i hi j hj => by rw [Nat.zero_add]; exact (hsoft i hi).2 j hj)
    hst.sized.pI8.ge hst.sized.pScales.ge
  obtain ⟨oScratch, hoRun, hoSize, ho⟩ :=
    outputTiles_eq mode hD₁ hD' hpBytes hvp hst.sized.oScratch
  obtain ⟨oAcc, haddRun, haddSize, hacc⟩ := addO_eq
    (tileScale x.D fun n => v (kvt * 32 + n)) hD₁ hD' hpScales ho hsized.oAcc
    fun i hi => (hsoft i hi).1.acc
  refine ⟨⟨soft.rowMax, soft.rowSum, oAcc, kOut.1, ktPacked, kOut.2, vI8, vPacked, pOut.1, pOut.2,
    sScratch, oScratch, soft.pFp32⟩, ?_, ⟨⟨hsized.rowMax, hsized.rowSum, haddSize,
    hkSize.trans hst.sized.ktI8, hktSize.trans hst.sized.ktPacked, hkScalesSize.trans hst.sized.kScales,
    hvSize.trans hst.sized.vI8, hvpSize.trans hst.sized.vPacked, hpSize.trans hst.sized.pI8,
    hpScalesSize.trans hst.sized.pScales, hscoreSize.trans hst.sized.sScratch,
    hoSize.trans hst.sized.oScratch, hsized.pFp32⟩, ?_, ?_, ?_⟩⟩
  · simp only [keyTile, quantizeRowsBf16ToInt8, quantizeRowsFp32ToInt8, hkRun, hvScale, hvRun,
      hpackK, hpackV, hscoreRun, hsoftRun, hpRun, hoRun, haddRun, Option.bind_eq_bind,
      Option.bind_some]
    rfl
  · intro i hi
    rw [(hm i hi).2]
    exact (hsoft i hi).1.max
  · intro i hi
    rw [(hm i hi).2]
    exact (hsoft i hi).1.sum
  · intro i hi d hd
    rw [(hm i hi).2]
    exact hacc i hi d hd

/-- The queries are quantised before the loop. -/
theorem quantizeQ_eq (hD : 16 ∣ x.D) (hD' : x.D ≤ 128)
    (hQ : ∀ i < 32, ∀ d < x.D, x.Q.load (x.qTilePtr + i * x.D + d) = some (q i d)) :
    ∃ out, quantizeQ x = some out ∧ HoldsQueries x.D out q := by
  obtain ⟨out, hrun, -, -, hbytes, hscales⟩ := quantizeRows_eq x.qTilePtr hD hQ
    (show 32 * x.D ≤ (Buffer.uninit (32 * 128)).size from Nat.mul_le_mul_left 32 hD')
    (show 32 ≤ (Buffer.uninit 32).size from le_rfl)
  exact ⟨out, hrun, hbytes, hscales⟩

/-- Where the rows' loops end, so does a loop over the key tiles from the start whose passes
each take one tile in. -/
theorem keyTiles_run {f : Scratch F → Nat → Option (Scratch F)} {e : Exponentials F}
    (hD' : x.D ≤ 128) (hq : 32 ∣ x.qStart)
    (hf : ∀ kvt ∈ keyTiles x.isCausal x.sKv x.qStart, ∀ (st : Scratch F)
      (r r' : Nat → RowState F Nat), st.Holds x.D r →
      (∀ i < 32, (r i).absorb e.stdExp e.expPs 32 (fun j => score x q k i (kvt * 32 + j))
        (weightedInt8 x.D v kvt) = some (r' i)) → ∃ st', f st kvt = some st' ∧ st'.Holds x.D r')
    {r : Nat → RowState F Nat}
    (hr : ∀ i < 32, attendRow e x.isCausal x.sKv (x.qStart + i)
      (fun j => scoreInt8 x.D x.smScale (q i) (k j)) (weightedInt8 x.D v) = some (r i)) :
    ∃ oAcc st, startAcc x.D = some oAcc ∧
      (keyTiles x.isCausal x.sKv x.qStart).foldlM f (Scratch.unwritten startMax startSum oAcc) =
        some st ∧ st.Holds x.D r := by
  obtain ⟨oAcc, hstart, hsize, hzero⟩ := startAcc_eq (F := F) hD'
  have hinit : Scratch.Holds x.D (Scratch.unwritten startMax startSum oAcc)
      (fun _ => (RowState.start : RowState F Nat)) :=
    ⟨⟨rfl, rfl, hsize, rfl, rfl, rfl, rfl, rfl, rfl, rfl, rfl, rfl, rfl⟩,
      fun i hi => Buffer.load_ofFn _ hi, fun i hi => Buffer.load_ofFn _ hi, hzero⟩
  have hrows : ∀ i < 32, absorbTiles e (score x q k i) (weightedInt8 x.D v)
      (keyTiles x.isCausal x.sKv x.qStart) RowState.start = some (r i) := by
    intro i hi
    have hrow := hr i hi
    rw [attendRow_eq hq hi] at hrow
    exact hrow
  obtain ⟨st, hrun, hst⟩ := keyTiles_refine f (Scratch.Holds x.D)
    (fun _ _ _ => Scratch.Holds.congr) hf hinit hrows
  exact ⟨oAcc, st, hstart, hrun, hst⟩

/-- A query tile's rows are written, and nothing else. -/
theorem processQTile_eq (mode : Overflow) {e : Exponentials F} (hD : 64 ∣ x.D) (hD' : x.D ≤ 128)
    (hq : 32 ∣ x.qStart)
    (hQ : ∀ i < 32, ∀ d < x.D, x.Q.load (x.qTilePtr + i * x.D + d) = some (q i d))
    (h : ∀ kvt < x.sKv / 32, x.Reads kvt k v) {r : Nat → RowState F Nat}
    (hr : ∀ i < 32, attendRow e x.isCausal x.sKv (x.qStart + i)
      (fun j => scoreInt8 x.D x.smScale (q i) (k j)) (weightedInt8 x.D v) = some (r i))
    {oTilePtr : Nat} {O : Buffer F} (hsize : oTilePtr + 32 * x.D ≤ O.size) :
    ∃ O', processQTile mode e x oTilePtr O = some O' ∧ O'.size = O.size ∧
      (∀ i < 32, ∀ d < x.D, O'.load (oTilePtr + (i * x.D + d)) = some (rowOutput (r i) d)) ∧
      ∀ a, (∀ i < 32, ∀ d < x.D, oTilePtr + (i * x.D + d) ≠ a) → O'.load a = O.load a := by
  obtain ⟨out, hquantize, hout⟩ := quantizeQ_eq (Nat.dvd_trans (by decide) hD) hD' hQ
  obtain ⟨oAcc, st, hstart, hrun, hst⟩ := keyTiles_run hD' hq
    (fun kvt hmem st r r' => keyTile_eq mode (h kvt (keyTiles_reached hmem).1) hD hD' hq
      (keyTiles_reached hmem).2 hout) hr
  obtain ⟨O', hfinish, hspec⟩ := finishRows_eq (Nat.dvd_trans (by decide) hD) hst.sum hst.acc hsize
  refine ⟨O', ?_, hspec⟩
  rw [processQTile, keyLoop, hstart, hquantize, Option.bind_eq_bind, Option.bind_eq_bind,
    Option.bind_some, Option.bind_eq_bind, Option.bind_some, hrun]
  exact hfinish

end Tile

/-! ## The whole operator -/

section Operator

variable {F : Type} [Field F] [LinearOrder F] [FloorRing F] {B H S D : Nat}

/-- The loop of one row of one head. -/
def headRow (e : Exponentials F) (S D : Nat) (Q K V : Nat → F) (smScale : F) (isCausal : Bool)
    (bh i : Nat) : Option (RowState F Nat) :=
  attendRow e isCausal S i
    (fun j => scoreInt8 D smScale (rowOfHead S D Q bh i) (rowOfHead S D K bh j))
    (weightedInt8 D (rowOfHead S D V bh))

omit [Field F] [LinearOrder F] [FloorRing F] in
/-- A row of a head of a tensor, at its offset. -/
theorem load_rowOfHead (t : Nat → F) {b h tile n d : Nat} (hb : b < B) (hh : h < H)
    (htile : tile < S / 32) (hn : n < 32) (hd : d < D) :
    (Buffer.ofFn (B * H * S * D) t).load ((b * H + h) * S * D + tile * 32 * D + n * D + d) =
      some (rowOfHead S D t (b * H + h) (tile * 32 + n) d) := by
  have haddress : (b * H + h) * S * D + tile * 32 * D + n * D + d =
      ((b * H + h) * S + (tile * 32 + n)) * D + d := by ring
  rw [haddress, Buffer.load_ofFn t (address_lt hb hh (by omega) hd), rowOfHead]

omit [Field F] [LinearOrder F] [FloorRing F] in
theorem reads_qTile (Q : Buffer F) (K V : Nat → F) (smScale : F) (isCausal : Bool) {b h : Nat}
    (hb : b < B) (hh : h < H) (qt : Nat) {kvt : Nat} (hkvt : kvt < S / 32) :
    (qTile H S D Q (Buffer.ofFn (B * H * S * D) K) (Buffer.ofFn (B * H * S * D) V) smScale
      isCausal b h qt).Reads kvt (rowOfHead S D K (b * H + h)) (rowOfHead S D V (b * H + h)) where
  keys := fun _ hn _ hd => load_rowOfHead K hb hh hkvt hn hd
  values := fun _ hn _ hd => load_rowOfHead V hb hh hkvt hn hd

omit [Field F] [LinearOrder F] [FloorRing F] in
theorem reads_queries (Q : Nat → F) (K V : Buffer F) (smScale : F) (isCausal : Bool) {b h qt : Nat}
    (hb : b < B) (hh : h < H) (hqt : qt < S / 32) :
    ∀ i < 32, ∀ d < D,
      (qTile H S D (Buffer.ofFn (B * H * S * D) Q) K V smScale isCausal b h qt).Q.load
        ((qTile H S D (Buffer.ofFn (B * H * S * D) Q) K V smScale isCausal b h qt).qTilePtr +
          i * D + d) = some (rowOfHead S D Q (b * H + h) (qt * 32 + i) d) := by
  intro i hi d hd
  rw [← load_rowOfHead Q hb hh hqt hi hd, qTile, Nat.add_mul ((b * H + h) * S)]

/-- Whatever the exponentials, and whatever a 32-bit sum out of range would do, every row of
the output is what its own loop leaves. -/
theorem flashAttnInt8_eq (mode : Overflow) (e : Exponentials F) (hS : 0 < S) (hS' : 32 ∣ S)
    (hD : D = 64 ∨ D = 128) (Q K V : Nat → F) (smScale : F) (isCausal : Bool) :
    ∃ O, flashAttnInt8 mode e B H S D (Buffer.ofFn (B * H * S * D) Q)
        (Buffer.ofFn (B * H * S * D) K) (Buffer.ofFn (B * H * S * D) V) smScale isCausal =
          some O ∧ O.size = B * H * S * D ∧
      ∀ b < B, ∀ h < H, ∀ i < S, ∃ r,
        headRow e S D Q K V smScale isCausal (b * H + h) i = some r ∧
        ∀ d < D, O.load (((b * H + h) * S + i) * D + d) = some (rowOutput r d) := by
  have hrows : ∀ bh i, ∃ r, headRow e S D Q K V smScale isCausal bh i = some r :=
    fun bh i => attendRow_isSome e isCausal S i _ _
  choose r hr using hrows
  obtain ⟨O, hrun, hsize, hrows⟩ := queryTiles_eq (B := B) (H := H) (D := D)
    (fun b h qt O => processQTile mode e
      (qTile H S D (Buffer.ofFn (B * H * S * D) Q) (Buffer.ofFn (B * H * S * D) K)
        (Buffer.ofFn (B * H * S * D) V) smScale isCausal b h qt)
      (((b * H + h) * S + qt * 32) * D) O) (fun bh i d => rowOutput (r bh i) d) hS' (by
    intro b hb h hh qt hqt O hfits
    exact processQTile_eq mode
      (x := qTile H S D (Buffer.ofFn (B * H * S * D) Q) (Buffer.ofFn (B * H * S * D) K)
        (Buffer.ofFn (B * H * S * D) V) smScale isCausal b h qt)
      (show 64 ∣ D by omega) (show D ≤ 128 by omega) (Nat.dvd_mul_left 32 qt)
      (reads_queries Q _ _ smScale isCausal hb hh hqt)
      (fun kvt hkvt => reads_qTile _ K V smScale isCausal hb hh qt hkvt)
      (fun i _ => hr (b * H + h) (qt * 32 + i)) hfits)
  refine ⟨O, ?_, hsize, fun b hb h hh i hi =>
    ⟨r (b * H + h) i, hr _ _, hrows b hb h hh i hi⟩⟩
  rw [flashAttnInt8, if_neg (by omega)]
  exact hrun

/-- The tile products over bytes are exact, and no 32-bit sum leaves its range, since the
products also exist where such a sum traps.  For whatever bytes the queries, keys, values and
weights hold, and whatever is in the other buffers, the packed and padded operands give the
products of the matrices, and the padding is zero on both sides.  In the kernel's run every
element read was written for the current key tile, the accumulators and the queries aside: with
the scratch buffers made unwritten before each key tile, the loop still ends, and in the same
accumulators. -/
theorem int8Products_exact (mode : Overflow) (hD : D = 64 ∨ D = 128) :
    (∀ (qI8 ktI8 vI8 pI8 ktPacked vPacked : Buffer Int8) (sScratch oScratch : Buffer Int)
      (q k v p : Nat → Nat → Int8), HoldsRows qI8 32 D q → HoldsRows ktI8 32 D k →
      HoldsRows vI8 32 D v → HoldsRows pI8 32 32 p → ktPacked.size = 32 * 128 →
      vPacked.size = 32 * 128 → sScratch.size = 32 * 32 → oScratch.size = 32 * 128 →
      ∃ ktPacked' vPacked' pAmx vAmx sScratch' oScratch',
        packKt D ktI8 ktPacked = some ktPacked' ∧ packInt8B vI8 32 D vPacked = some vPacked' ∧
        padP pI8 = some pAmx ∧ padV D vPacked' = some vAmx ∧
        scoreTiles mode D qI8 ktPacked' sScratch = some sScratch' ∧
        outputTiles mode D pI8 vPacked' oScratch = some oScratch' ∧
        (∀ i < 32, ∀ j < 64, 32 ≤ j → pAmx.load (i * 64 + j) = some 0) ∧
        (∀ kg < 16, 8 ≤ kg → ∀ d < D, ∀ j < 4, vAmx.load ((kg * D + d) * 4 + j) = some 0) ∧
        (∀ i < 32, ∀ j < 32, sScratch'.load (i * 32 + j) =
          some (∑ d ∈ Finset.range D, (q i d).toInt * (k j d).toInt)) ∧
        ∀ i < 32, ∀ d < D, oScratch'.load (i * D + d) =
          some (∑ j ∈ Finset.range 32, (p i j).toInt * (v j d).toInt)) ∧
    ∀ (e : Exponentials F) (Q K V : Nat → F) (smScale : F) (isCausal : Bool),
      ∀ b < B, ∀ h < H, ∀ qt < S / 32, ∀ x, x = qTile H S D (Buffer.ofFn (B * H * S * D) Q)
        (Buffer.ofFn (B * H * S * D) K) (Buffer.ofFn (B * H * S * D) V) smScale isCausal b h qt →
      ∃ q oAcc st st', quantizeQ x = some q ∧ startAcc D = some oAcc ∧
        (keyTiles isCausal S (qt * 32)).foldlM (fun st kvt =>
            keyTile mode e x q (Scratch.unwritten st.rowMax st.rowSum st.oAcc) kvt)
          (Scratch.unwritten startMax startSum oAcc) = some st ∧
        keyLoop mode e x = some st' ∧
        ∀ i < 32, st'.rowMax.load i = st.rowMax.load i ∧ st'.rowSum.load i = st.rowSum.load i ∧
          ∀ d < D, st'.oAcc.load (i * D + d) = st.oAcc.load (i * D + d) := by
  have hD₁ : 64 ∣ D ∧ 16 ∣ D ∧ 4 ∣ D ∧ D ≤ 128 := by omega
  obtain ⟨hD₆₄, hD₁₆, hD₄, hD'⟩ := hD₁
  constructor
  · intro qI8 ktI8 vI8 pI8 ktPacked vPacked sScratch oScratch q k v p hq hk hv hp hktSize hvSize
      hsSize hoSize
    have hrows : 32 * D ≤ 32 * 128 := Nat.mul_le_mul_left 32 hD'
    obtain ⟨ktPacked', hpackK, -, hkt⟩ := packKt_eq hD₄ hk (hrows.trans_eq hktSize.symm)
    obtain ⟨vPacked', hpackV, -, hvp⟩ :=
      packInt8B_eq (show 4 ∣ 32 by decide) hv (hrows.trans_eq hvSize.symm)
    obtain ⟨pAmx, hpadP, hpAmx⟩ := padP_eq hp
    obtain ⟨vAmx, hpadV, hvAmx⟩ := padV_eq hD' hvp
    obtain ⟨sScratch', hscores, -, hs⟩ := scoreTiles_eq mode hD₆₄ hD' hq hkt hsSize
    obtain ⟨oScratch', houtput, -, ho⟩ := outputTiles_eq mode hD₁₆ hD' hp hvp hoSize
    refine ⟨ktPacked', vPacked', pAmx, vAmx, sScratch', oScratch', hpackK, hpackV, hpadP, hpadV,
      hscores, houtput, ?_, ?_, hs, ho⟩
    · intro i hi j hj hpad
      rw [hpAmx i hi j hj]
      exact congrArg some (if_neg (Nat.not_lt.mpr hpad))
    · intro kg hkg hpad d hd j hj
      rw [hvAmx kg hkg d hd j hj]
      exact congrArg some (if_neg (by omega))
  · intro e Q K V smScale isCausal b hb h hh qt hqt x hx
    have hq : ∀ i < 32, ∀ d < x.D, x.Q.load (x.qTilePtr + i * x.D + d) =
        some (rowOfHead S D Q (b * H + h) (qt * 32 + i) d) := by
      rw [hx]
      exact reads_queries Q _ _ smScale isCausal hb hh hqt
    obtain ⟨out, hquantize, hout⟩ := quantizeQ_eq (hx ▸ hD₁₆) (hx ▸ hD') hq
    have hpass : ∀ kvt ∈ keyTiles x.isCausal x.sKv x.qStart, ∀ (st : Scratch F)
        (r r' : Nat → RowState F Nat), st.Holds x.D r →
        (∀ i < 32, (r i).absorb e.stdExp e.expPs 32 (fun j => score x
          (fun i => rowOfHead S D Q (b * H + h) (qt * 32 + i)) (rowOfHead S D K (b * H + h)) i
            (kvt * 32 + j)) (weightedInt8 x.D (rowOfHead S D V (b * H + h)) kvt) = some (r' i)) →
        ∃ st', keyTile mode e x out st kvt = some st' ∧ st'.Holds x.D r' := by
      intro kvt hmem st r r'
      have hreached := keyTiles_reached hmem
      have hreads : x.Reads kvt (rowOfHead S D K (b * H + h)) (rowOfHead S D V (b * H + h)) := by
        have hkvt := hreached.1
        rw [hx] at hkvt ⊢
        exact reads_qTile _ K V smScale isCausal hb hh qt hkvt
      exact keyTile_eq mode hreads (hx ▸ hD₆₄) (hx ▸ hD') (hx ▸ Nat.dvd_mul_left 32 qt)
        hreached.2 hout
    choose r hr using fun i => attendRow_isSome e x.isCausal x.sKv (x.qStart + i)
      (fun j => scoreInt8 x.D x.smScale (rowOfHead S D Q (b * H + h) (qt * 32 + i))
        (rowOfHead S D K (b * H + h) j)) (weightedInt8 x.D (rowOfHead S D V (b * H + h)))
    obtain ⟨oAcc, st', hstart, hrun', hst'⟩ := keyTiles_run (hx ▸ hD')
      (hx ▸ Nat.dvd_mul_left 32 qt) hpass fun i _ => hr i
    obtain ⟨oAcc₁, st, hstart₁, hrun, hst⟩ := keyTiles_run (hx ▸ hD')
      (hx ▸ Nat.dvd_mul_left 32 qt)
      (f := fun st kvt => keyTile mode e x out (Scratch.unwritten st.rowMax st.rowSum st.oAcc) kvt)
      (fun kvt hmem st r r' hst => hpass kvt hmem _ r r' hst.unwritten) fun i _ => hr i
    cases hstart.symm.trans hstart₁
    have hloop : keyLoop mode e x = some st' := by
      rw [keyLoop, hstart, hquantize]
      exact hrun'
    have hsame : ∀ i < 32, st'.rowMax.load i = st.rowMax.load i ∧
        st'.rowSum.load i = st.rowSum.load i ∧
        ∀ d < x.D, st'.oAcc.load (i * x.D + d) = st.oAcc.load (i * x.D + d) :=
      fun i hi => ⟨(hst'.max i hi).trans (hst.max i hi).symm,
        (hst'.sum i hi).trans (hst.sum i hi).symm,
        fun d hd => (hst'.acc i hi d hd).trans (hst.acc i hi d hd).symm⟩
    rw [hx] at hstart hrun hsame
    exact ⟨out, oAcc, st, st', hquantize, hstart, hx ▸ hrun, hloop, hsame⟩

/-- Sixty-four features of the least byte, where a sum out of range would trap. -/
theorem int8Products_exact_least :
    ∃ ktPacked sScratch,
      packKt 64 (Buffer.ofFn (32 * 64) fun _ => -128) (Buffer.uninit (32 * 128)) = some ktPacked ∧
      scoreTiles .traps 64 (Buffer.ofFn (32 * 64) fun _ => -128) ktPacked
        (Buffer.uninit (32 * 32)) = some sScratch ∧
      sScratch.load (31 * 32 + 31) = some (64 * 2 ^ 14) := by
  have hrows : ∀ columns, HoldsRows (Buffer.ofFn (32 * columns) fun _ => (-128 : Int8)) 32 columns
      fun _ _ => -128 :=
    fun columns i hi j hj => Buffer.load_ofFn _ (lt_mul_of_lt hi hj)
  obtain ⟨ktPacked, -, -, -, sScratch, -, hpack, -, -, -, hscores, -, -, -, hsum, -⟩ :=
    (int8Products_exact (F := ℚ) (B := 1) (H := 1) (S := 32) .traps (Or.inl rfl)).1 _ _ _ _
      (Buffer.uninit (32 * 128)) (Buffer.uninit (32 * 128)) (Buffer.uninit (32 * 32))
      (Buffer.uninit (32 * 128)) _ _ _ _ (hrows 64) (hrows 64) (hrows 64) (hrows 32) rfl rfl rfl
      rfl
  refine ⟨ktPacked, sScratch, hpack, hscores, ?_⟩
  rw [hsum 31 (by decide) 31 (by decide), Finset.sum_const, Finset.card_range]
  rfl

end Operator

end FlashInt8

end Repercep.Kernels
