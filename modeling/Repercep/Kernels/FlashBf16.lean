import Mathlib
import Repercep.Kernels.SoftmaxPass
set_option autoImplicit false

/-!
# Flash attention on AMX, BF16

The operands are `(B, H, S, D)` tensors, contiguous.  `K` and `V` are packed once, in the
pairs the tile product wants; then each head and each tile of thirty-two queries runs over
the key tiles.  A pointer is an offset into its tensor's buffer.
-/

namespace Repercep.Kernels

open Foundation

namespace FlashBf16

/-! ## Packing -/

section Packing

variable {F : Type}

/-- `K`, two neighbouring features of a key side by side: `(B, H, D/2, S, 2)`. -/
def packKForAmxB (B H S D : Nat) (K : Buffer F) : Option (Buffer F) :=
  if D % 2 ≠ 0 then
    none
  else
    (List.range (B * H)).foldlM (fun Kp bh =>
      (List.range S).foldlM (fun Kp s =>
        (counter D 2).foldlM (fun Kp d =>
          let src := bh * S * D
          let dst := bh * (D / 2) * S * 2
          let slot := dst + d / 2 * S * 2 + s * 2
          Kp.copy K (List.range 2) (fun j => src + s * D + d + j) (fun j => slot + j)) Kp) Kp)
      (Buffer.uninit (B * H * (D / 2) * S * 2))

/-- `V`, two neighbouring keys' feature side by side: `(B, H, S/2, D, 2)`. -/
def packVPairs (B H S D : Nat) (V : Buffer F) : Option (Buffer F) :=
  if S % 2 ≠ 0 then
    none
  else
    (List.range (B * H)).foldlM (fun Vp bh =>
      (List.range (S / 2)).foldlM (fun Vp k =>
        (List.range D).foldlM (fun Vp d =>
          let src := bh * S * D
          let dst := bh * (S / 2) * D * 2
          let out := dst + k * D * 2
          Vp.copy V (List.range 2) (fun j => src + (2 * k + j) * D + d)
            (fun j => out + d * 2 + j)) Vp) Vp)
      (Buffer.uninit (B * H * (S / 2) * D * 2))

end Packing

/-! ## One tile of queries -/

/-- The arguments of `process_q_tile`, its output aside. -/
structure QTile (F : Type) where
  Q : Buffer F
  qTilePtr : Nat
  Kpk : Buffer F
  kPkPtr : Nat
  Vp : Buffer F
  vPPtr : Nat
  sKv : Nat
  D : Nat
  qStart : Nat
  smScale : F
  isCausal : Bool

/-- The accumulators and scratch buffers that live across key tiles. -/
structure Scratch (F : Type) where
  rowMax : Buffer (WithBot F)
  rowSum : Buffer F
  oAcc : Buffer F
  sScratch : Buffer F
  pPack : Buffer F

section Tile

variable {F : Type} [Field F] [LinearOrder F]

/-- Sixteen queries against sixteen keys, over the features in chunks of thirty-two. -/
def scoreTile (x : QTile F) (kStart qh kh : Nat) : Option (Tile 16 F) :=
  (List.range (x.D / 32)).foldlM (fun tmmS dc => do
    let strideQ := x.D * 2
    let strideKp := x.sKv * 2 * 2
    let qp := x.qTilePtr + qh * 16 * x.D + dc * 32
    let kp := x.kPkPtr + dc * 16 * x.sKv * 2 + (kStart + kh * 16) * 2
    let tmmQ ← tileLoadd 32 2 x.Q qp strideQ
    let tmmK ← tileLoadd 32 2 x.Kpk kp strideKp
    return tdpbf16ps tmmS tmmQ tmmK) 0

/-- The four blocks of scores, each stored on its own. -/
def scoreTiles (x : QTile F) (kStart : Nat) (sScratch : Buffer F) : Option (Buffer F) :=
  (List.range 2).foldlM (fun sScratch qh =>
    (List.range 2).foldlM (fun sScratch kh => do
      let tmmS ← scoreTile x kStart qh kh
      tileStored 4 tmmS sScratch ((qh * 2 + kh) * (16 * 16)) (16 * 4)) sScratch) sScratch

/-- A row of scores as the softmax step reads it back, scaled and masked. -/
def scoreRow (x : QTile F) (kStart : Nat) (sScratch : Buffer F) (i : Nat) :
    Option ((Fin 16 → WithBot F) × (Fin 16 → WithBot F)) := do
  let qh := i / 16
  let qr := i % 16
  let sLo ← loadVec 16 sScratch ((qh * 2 + 0) * (16 * 16) + qr * 16)
  let sHi ← loadVec 16 sScratch ((qh * 2 + 1) * (16 * 16) + qr * 16)
  let needsMask := x.isCausal && decide (kStart + 32 > x.qStart)
  return (maskLanes needsMask kStart (x.qStart + i) fun lane => sLo lane * x.smScale,
    maskLanes needsMask (kStart + 16) (x.qStart + i) fun lane => sHi lane * x.smScale)

/-- The weights, row by row, for the second product. -/
def packP (pFp32 pPack : Buffer F) : Option (Buffer F) :=
  (List.range 32).foldlM (fun pPack i => do
    let pLo ← loadVec 16 pFp32 (i * 32 + 0)
    let pHi ← loadVec 16 pFp32 (i * 32 + 16)
    storeVec pPack (i * 32) (Fin.append pLo pHi)) pPack

/-- The weighted values added to the accumulator, sixteen features at a time. -/
def addPV (x : QTile F) (kStart : Nat) (pPack oAcc : Buffer F) : Option (Buffer F) :=
  (List.range 2).foldlM (fun oAcc qh =>
    (List.range (x.D / 16)).foldlM (fun oAcc dt => do
      let vBase := x.vPPtr + kStart / 2 * x.D * 2
      let op := qh * 16 * x.D + dt * 16
      let tmmO ← tileLoadd 16 4 oAcc op (x.D * 4)
      let tmmP ← tileLoadd 32 2 pPack (qh * 16 * 32) (32 * 2)
      let tmmV ← tileLoadd 32 2 x.Vp (vBase + dt * 16 * 2) (x.D * 2 * 2)
      tileStored 4 (tdpbf16ps tmmO tmmP tmmV) oAcc op (x.D * 4)) oAcc) oAcc

/-- One pass of the key loop. -/
def keyTile (e : Exponentials F) (x : QTile F) (st : Scratch F) (kvt : Nat) :
    Option (Scratch F) := do
  let kStart := kvt * 32
  let sScratch ← scoreTiles x kStart st.sScratch
  let soft ← softmaxPass e x.D (scoreRow x kStart sScratch)
    ⟨st.rowMax, st.rowSum, st.oAcc, Buffer.uninit (32 * 32)⟩
  let pPack ← packP soft.pFp32 st.pPack
  let oAcc ← addPV x kStart pPack soft.oAcc
  return ⟨soft.rowMax, soft.rowSum, oAcc, sScratch, pPack⟩

/-- The key loop. -/
def keyLoop (e : Exponentials F) (x : QTile F) : Option (Scratch F) := do
  let oAcc ← startAcc x.D
  (keyTiles x.isCausal x.sKv x.qStart).foldlM (keyTile e x)
    ⟨startMax, startSum, oAcc, Buffer.uninit (16 * 16 * 2 * 2), Buffer.uninit (32 * 32)⟩

/-- One query tile: the loop over its keys, and the division of its rows. -/
def processQTile (e : Exponentials F) (x : QTile F) (oTilePtr : Nat) (O : Buffer F) :
    Option (Buffer F) := do
  let st ← keyLoop e x
  finishRows x.D st.rowSum st.oAcc oTilePtr O

/-! ## The whole operator -/

/-- The arguments of one tile of queries of one head. -/
def qTile (H S D : Nat) (Q Kpk Vp : Buffer F) (smScale : F) (isCausal : Bool)
    (b h qt : Nat) : QTile F where
  Q := Q
  qTilePtr := ((b * H + h) * S + qt * 32) * D
  Kpk := Kpk
  kPkPtr := (b * H + h) * (D / 2) * S * 2
  Vp := Vp
  vPPtr := (b * H + h) * (S / 2) * D * 2
  sKv := S
  D := D
  qStart := qt * 32
  smScale := smScale
  isCausal := isCausal

/-- `flash_attn_bf16`; the shapes it refuses have no result. -/
def flashAttnBf16 (e : Exponentials F) (B H S D : Nat) (Q K V : Buffer F) (smScale : F)
    (isCausal : Bool) : Option (Buffer F) :=
  if ¬ (D = 64 ∨ D = 128) ∨ ¬ (S ≥ 32 ∧ S % 32 = 0) then
    none
  else do
    let Kpk ← packKForAmxB B H S D K
    let Vp ← packVPairs B H S D V
    (List.range B).foldlM (fun O b =>
      (List.range H).foldlM (fun O h =>
        (List.range (S / 32)).foldlM (fun O qt =>
          processQTile e (qTile H S D Q Kpk Vp smScale isCausal b h qt)
            (((b * H + h) * S + qt * 32) * D) O) O) O)
      (Buffer.uninit (B * H * S * D))

end Tile

end FlashBf16

end Repercep.Kernels
