import Mathlib
import Repercep.Kernels.ExpPs
import Repercep.Kernels.SoftmaxPass
set_option autoImplicit false

/-!
# Flash attention on AMX, INT8

The same loops as the `BF16` kernel's, with both products over bytes: the queries, the keys,
the values and the weights are quantised on the way, the values by one scale for a whole key
tile, the rest by one for each row.  The scratch buffers live across key tiles and keep what
the last one left.  A pointer is an offset into its tensor's buffer.
-/

namespace Repercep.Kernels

open Foundation

namespace FlashInt8

/-! ## Quantisation -/

section Quantise

variable {F : Type} [Field F] [LinearOrder F] [FloorRing F]

/-- `reduce_max_abs_ps`. -/
def reduceMaxAbs (fp : Fin 16 → F) : F :=
  Finset.univ.sup' Finset.univ_nonempty fun lane => |fp lane|

/-- The largest magnitude of a row, and of what was seen before it. -/
def rowAbsmax (src : Buffer F) (row D : Nat) (absmax : F) : Option F :=
  (counter D 16).foldlM (fun absmax d => do
    let fp ← loadVec 16 src (row + d)
    let localMax := reduceMaxAbs fp
    return if localMax > absmax then localMax else absmax) absmax

/-- The scale that takes the largest magnitude to the end of the range. -/
def scaleOf (absmax : F) : F :=
  if absmax > 0 then absmax / 127 else 1

/-- Rounded, clamped and narrowed. -/
def toInt8 (x : F) : Int8 :=
  Int8.ofInt (min (max (roundEven x) (-127)) 127)

/-- A row times `inv`, as bytes. -/
def quantizeRow (inv : F) (src : Buffer F) (row D : Nat) (dst : Buffer Int8) (out : Nat) :
    Option (Buffer Int8) :=
  (counter D 16).foldlM (fun dst d => do
    let fp ← loadVec 16 src (row + d)
    storeVec dst (out + d) fun lane => toInt8 (fp lane * inv)) dst

/-- Each row by its own scale. -/
def quantizeRows (src : Buffer F) (base mRows D : Nat) (dst : Buffer Int8) (scales : Buffer F) :
    Option (Buffer Int8 × Buffer F) :=
  (List.range mRows).foldlM (fun out i => do
    let absmax ← rowAbsmax src (base + i * D) D 0
    let scale := scaleOf absmax
    let scales ← out.2.store i scale
    let dst ← quantizeRow (1 / scale) src (base + i * D) D out.1 (i * D)
    return (dst, scales)) (dst, scales)

/-- `quantize_rows_bf16_to_int8`. -/
def quantizeRowsBf16ToInt8 (src : Buffer F) (base mRows D : Nat) (dst : Buffer Int8)
    (scales : Buffer F) : Option (Buffer Int8 × Buffer F) :=
  quantizeRows src base mRows D dst scales

/-- `quantize_rows_fp32_to_int8`. -/
def quantizeRowsFp32ToInt8 (src : Buffer F) (base mRows D : Nat) (dst : Buffer Int8)
    (scales : Buffer F) : Option (Buffer Int8 × Buffer F) :=
  quantizeRows src base mRows D dst scales

/-- The scale of a tile of values. -/
def vTileScale (V : Buffer F) (vTile D : Nat) : Option F := do
  let vTileAbsmax ← (List.range 32).foldlM (fun absmax n => rowAbsmax V (vTile + n * D) D absmax) 0
  return scaleOf vTileAbsmax

/-- A tile of values, as bytes. -/
def quantizeV (vInvScale : F) (V : Buffer F) (vTile D : Nat) (vI8 : Buffer Int8) :
    Option (Buffer Int8) :=
  (List.range 32).foldlM (fun vI8 n =>
    quantizeRow vInvScale V (vTile + n * D) D vI8 (n * D)) vI8

end Quantise

/-! ## Packing -/

/-- The keys, four neighbouring features of a key side by side: `(D/4, 32, 4)`. -/
def packKt (D : Nat) (ktI8 ktPacked : Buffer Int8) : Option (Buffer Int8) :=
  (List.range (D / 4)).foldlM (fun ktPacked dg =>
    (List.range 32).foldlM (fun ktPacked n =>
      ktPacked.copy ktI8 (List.range 4) (fun j => n * D + 4 * dg + j)
        (fun j => (dg * 32 + n) * 4 + j)) ktPacked) ktPacked

/-- `pack_int8_B`: four neighbouring rows' entries of a column side by side. -/
def packInt8B (src : Buffer Int8) (kIn nOut : Nat) (dst : Buffer Int8) : Option (Buffer Int8) :=
  (List.range (kIn / 4)).foldlM (fun dst kg =>
    (List.range nOut).foldlM (fun dst n =>
      dst.copy src (List.range 4) (fun j => (4 * kg + j) * nOut + n)
        (fun j => (kg * nOut + n) * 4 + j)) dst) dst

/-- The weights, each row filled up with zeros to a whole tile row. -/
def padP (pI8 : Buffer Int8) : Option (Buffer Int8) := do
  let pAmx ← (Buffer.uninit (32 * 64)).scatter (List.range (32 * 64)) id fun _ => 0
  (List.range 32).foldlM (fun pAmx i =>
    pAmx.copy pI8 (List.range 32) (fun j => i * 32 + j) (fun j => i * 64 + j)) pAmx

/-- The packed values, filled up with zeros to sixteen tile rows. -/
def padV (D : Nat) (vPacked : Buffer Int8) : Option (Buffer Int8) := do
  let vAmx ← (Buffer.uninit (16 * 128 * 4)).scatter (List.range (16 * D * 4)) id fun _ => 0
  vAmx.copy vPacked (List.range (32 / 4 * D * 4)) id id

/-! ## The products -/

/-- Sixteen queries against sixteen keys, over the features in chunks of sixty-four. -/
def scoreTile (mode : Overflow) (D : Nat) (qI8 ktPacked : Buffer Int8) (qh kh : Nat) :
    Option (Tile 16 Int) :=
  (List.range (D / 64)).foldlM (fun tmmS dc => do
    let qp := qh * 16 * D + dc * 64
    let kp := dc * 16 * 32 * 4 + kh * 16 * 4
    let tmmQ ← tileLoadd 64 1 qI8 qp (D * 1)
    let tmmK ← tileLoadd 64 1 ktPacked kp (32 * 4 * 1)
    tdpbssd mode tmmS tmmQ tmmK) 0

/-- The scores of the tile, before scaling. -/
def scoreTiles (mode : Overflow) (D : Nat) (qI8 ktPacked : Buffer Int8) (sScratch : Buffer Int) :
    Option (Buffer Int) :=
  (List.range 2).foldlM (fun sScratch qh =>
    (List.range 2).foldlM (fun sScratch kh => do
      let tmmS ← scoreTile mode D qI8 ktPacked qh kh
      tileStored 4 tmmS sScratch (qh * 16 * 32 + kh * 16) (32 * 4)) sScratch) sScratch

/-- Sixteen rows of weights against sixteen features of the values. -/
def outputTile (mode : Overflow) (D : Nat) (pAmx vAmx : Buffer Int8) (qh dt : Nat) :
    Option (Tile 16 Int) := do
  let tmmP ← tileLoadd 64 1 pAmx (qh * 16 * 64) (64 * 1)
  let tmmV ← tileLoadd 64 1 vAmx (dt * 16 * 4) (D * 4 * 1)
  tdpbssd mode 0 tmmP tmmV

/-- The weighted values of the tile, before scaling. -/
def outputTiles (mode : Overflow) (D : Nat) (pI8 vPacked : Buffer Int8) (oScratch : Buffer Int) :
    Option (Buffer Int) := do
  let pAmx ← padP pI8
  let vAmx ← padV D vPacked
  (List.range 2).foldlM (fun oScratch qh =>
    (List.range (D / 16)).foldlM (fun oScratch dt => do
      let tmmO ← outputTile mode D pAmx vAmx qh dt
      tileStored 4 tmmO oScratch (qh * 16 * D + dt * 16) (D * 4)) oScratch) oScratch

/-! ## One tile of queries -/

/-- The arguments of `process_q_tile`, its output aside. -/
structure QTile (F : Type) where
  Q : Buffer F
  qTilePtr : Nat
  K : Buffer F
  kFullPtr : Nat
  V : Buffer F
  vFullPtr : Nat
  sKv : Nat
  D : Nat
  qStart : Nat
  smScale : F
  isCausal : Bool

/-- The accumulators and scratch buffers that live across key tiles. -/
structure Scratch (F : Type) where
  rowMax : Buffer (WithBot F)
  rowSum : Buffer F
  oAcc : Buffer F
  ktI8 : Buffer Int8
  ktPacked : Buffer Int8
  kScales : Buffer F
  vI8 : Buffer Int8
  vPacked : Buffer Int8
  pI8 : Buffer Int8
  pScales : Buffer F
  sScratch : Buffer Int
  oScratch : Buffer Int
  pFp32 : Buffer F

/-- The scratch buffers with nothing in them. -/
def Scratch.unwritten {F : Type} (rowMax : Buffer (WithBot F)) (rowSum oAcc : Buffer F) :
    Scratch F where
  rowMax := rowMax
  rowSum := rowSum
  oAcc := oAcc
  ktI8 := Buffer.uninit (32 * 128)
  ktPacked := Buffer.uninit (32 * 128)
  kScales := Buffer.uninit 32
  vI8 := Buffer.uninit (32 * 128)
  vPacked := Buffer.uninit (32 * 128)
  pI8 := Buffer.uninit (32 * 32)
  pScales := Buffer.uninit 32
  sScratch := Buffer.uninit (32 * 32)
  oScratch := Buffer.uninit (32 * 128)
  pFp32 := Buffer.uninit (32 * 32)

section Tile

variable {F : Type} [Field F] [LinearOrder F] [FloorRing F]

/-- A row of scores as the softmax step reads it, scaled and masked. -/
def scoreRow (x : QTile F) (kStart : Nat) (qScales kScales : Buffer F) (sScratch : Buffer Int)
    (i : Nat) : Option ((Fin 16 → WithBot F) × (Fin 16 → WithBot F)) := do
  let qScale ← qScales.load i
  let qs := qScale * x.smScale
  let sLo ← loadVec 16 sScratch (i * 32 + 0)
  let sHi ← loadVec 16 sScratch (i * 32 + 16)
  let ksLo ← loadVec 16 kScales 0
  let ksHi ← loadVec 16 kScales 16
  let needsMask := x.isCausal && decide (kStart + 32 > x.qStart)
  return (maskLanes needsMask kStart (x.qStart + i) fun lane => (sLo lane : F) * (qs * ksLo lane),
    maskLanes needsMask (kStart + 16) (x.qStart + i) fun lane =>
      (sHi lane : F) * (qs * ksHi lane))

/-- The weighted values added to the accumulator, scaled back. -/
def addO (D : Nat) (pScales : Buffer F) (vScale : F) (oScratch : Buffer Int) (oAcc : Buffer F) :
    Option (Buffer F) :=
  (List.range 32).foldlM (fun oAcc i => do
    let pScale ← pScales.load i
    let perRow := pScale * vScale
    (counter D 16).foldlM (fun oAcc d => do
      let raw ← loadVec 16 oScratch (i * D + d)
      let prev ← loadVec 16 oAcc (i * D + d)
      storeVec oAcc (i * D + d) fun lane => prev lane + (raw lane : F) * perRow) oAcc) oAcc

/-- One pass of the key loop, with the tile's queries and their scales. -/
def keyTile (mode : Overflow) (e : Exponentials F) (x : QTile F) (q : Buffer Int8 × Buffer F)
    (st : Scratch F) (kvt : Nat) : Option (Scratch F) := do
  let kStart := kvt * 32
  let vTile := x.vFullPtr + kStart * x.D
  let k ← quantizeRowsBf16ToInt8 x.K (x.kFullPtr + kStart * x.D) 32 x.D st.ktI8 st.kScales
  let vScale ← vTileScale x.V vTile x.D
  let vI8 ← quantizeV (1 / vScale) x.V vTile x.D st.vI8
  let ktPacked ← packKt x.D k.1 st.ktPacked
  let vPacked ← packInt8B vI8 32 x.D st.vPacked
  let sScratch ← scoreTiles mode x.D q.1 ktPacked st.sScratch
  let soft ← softmaxPass e x.D (scoreRow x kStart q.2 k.2 sScratch)
    ⟨st.rowMax, st.rowSum, st.oAcc, st.pFp32⟩
  let p ← quantizeRowsFp32ToInt8 soft.pFp32 0 32 32 st.pI8 st.pScales
  let oScratch ← outputTiles mode x.D p.1 vPacked st.oScratch
  let oAcc ← addO x.D p.2 vScale oScratch soft.oAcc
  return ⟨soft.rowMax, soft.rowSum, oAcc, k.1, ktPacked, k.2, vI8, vPacked, p.1, p.2, sScratch,
    oScratch, soft.pFp32⟩

/-- The queries of the tile, quantised once. -/
def quantizeQ (x : QTile F) : Option (Buffer Int8 × Buffer F) :=
  quantizeRowsBf16ToInt8 x.Q x.qTilePtr 32 x.D (Buffer.uninit (32 * 128)) (Buffer.uninit 32)

/-- The key loop. -/
def keyLoop (mode : Overflow) (e : Exponentials F) (x : QTile F) : Option (Scratch F) := do
  let oAcc ← startAcc x.D
  let q ← quantizeQ x
  (keyTiles x.isCausal x.sKv x.qStart).foldlM (keyTile mode e x q)
    (Scratch.unwritten startMax startSum oAcc)

/-- One query tile: the loop over its keys, and the division of its rows. -/
def processQTile (mode : Overflow) (e : Exponentials F) (x : QTile F) (oTilePtr : Nat)
    (O : Buffer F) : Option (Buffer F) := do
  let st ← keyLoop mode e x
  finishRows x.D st.rowSum st.oAcc oTilePtr O

/-! ## The whole operator -/

/-- The arguments of one tile of queries of one head. -/
def qTile (H S D : Nat) (Q K V : Buffer F) (smScale : F) (isCausal : Bool) (b h qt : Nat) :
    QTile F where
  Q := Q
  qTilePtr := ((b * H + h) * S + qt * 32) * D
  K := K
  kFullPtr := (b * H + h) * S * D
  V := V
  vFullPtr := (b * H + h) * S * D
  sKv := S
  D := D
  qStart := qt * 32
  smScale := smScale
  isCausal := isCausal

/-- `flash_attn_int8`; the shapes it refuses have no result. -/
def flashAttnInt8 (mode : Overflow) (e : Exponentials F) (B H S D : Nat) (Q K V : Buffer F)
    (smScale : F) (isCausal : Bool) : Option (Buffer F) :=
  if ¬ (D = 64 ∨ D = 128) ∨ ¬ (S ≥ 32 ∧ S % 32 = 0) then
    none
  else
    (List.range B).foldlM (fun O b =>
      (List.range H).foldlM (fun O h =>
        (List.range (S / 32)).foldlM (fun O qt =>
          processQTile mode e (qTile H S D Q K V smScale isCausal b h qt)
            (((b * H + h) * S + qt * 32) * D) O) O) O)
      (Buffer.uninit (B * H * S * D))

end Tile

end FlashInt8

end Repercep.Kernels
