import Mathlib
import Repercep.Foundation.Buffer
import Repercep.Foundation.OnlineSoftmax
set_option autoImplicit false

/-!
# Flash attention in FP8

One program of the grid takes one tile of the queries of one head over all the key tiles.
The kernel for gfx942 and its copies for Hopper and Ada have the same body, up to the FP8
format of a cast; arithmetic is exact here and a cast changes nothing, so they differ in the
format's largest number.  Minus infinity is a score, and a difference of two of them has no
value; neither has a quotient by zero.  A pointer is an offset into its tensor's buffer.
-/

namespace Repercep.Kernels

open Foundation

namespace Fp8Flash

/-! ## The kernel -/

/-- The strides of a `(B, H, S, D)` tensor. -/
structure Strides where
  b : Nat
  h : Nat
  row : Nat
  d : Nat

/-- The arguments of `_fp8_flash_attn_fwd_impl`. -/
structure Args (F : Type) where
  Q : Buffer F
  K : Buffer F
  V : Buffer F
  smScale : F
  qs : Buffer F
  ks : Buffer F
  vs : Buffer F
  qStride : Strides
  kStride : Strides
  vStride : Strides
  oStride : Strides
  B : Nat
  H : Nat
  Sq : Nat
  Skv : Nat
  blockM : Nat
  blockN : Nat
  blockD : Nat
  causal : Bool
  fp8Max : F

/-- `triton.cdiv`. -/
def cdiv (a b : Nat) : Nat :=
  (a + b - 1) / b

/-- The running maximum and sum of each row, and the accumulator. -/
structure Online (m d : Nat) (F : Type) where
  mI : Fin m → WithBot F
  lI : Fin m → F
  acc : Fin m → Fin d → F

section Kernel

variable {F : Type} [Field F] [LinearOrder F] {m n d : Nat}

/-- A masked load of a tile, zero from row `limit` on. -/
def loadTile (d : Nat) (X : Buffer F) (off : Nat) (stride : Strides) (limit : Nat)
    (rows : Fin n → Nat) : Option (Fin n → Fin d → F) :=
  (gather fun p : Fin n × Fin d =>
    if rows p.1 < limit then X.load (off + rows p.1 * stride.row + p.2 * stride.d)
    else some 0).map fun t i c => t (i, c)

/-- A score that is not minus infinity. -/
def finite : WithBot F → Option F
  | ⊥ => none
  | (x : F) => some x

/-- The division of a row by its sum; none where the sum is zero. -/
def divide (a l : F) : Option F :=
  if l = 0 then none else some (a / l)

/-- Before the first key. -/
def Online.start : Online m d F where
  mI := fun _ => ⊥
  lI := fun _ => 0
  acc := fun _ _ => 0

/-- One key tile. -/
def keyTile (exp : WithBot F → F) (x : Args F) (kOff vOff : Nat) (offsM : Fin m → Nat)
    (qTile : Fin m → Fin d → F) (qkScale vScale : F) (st : Online m d F) (nIdx : Nat) :
    Option (Online m d F) := do
  let nStart := nIdx * x.blockN
  let offsN := fun j : Fin x.blockN => nStart + j
  let kTile ← loadTile d x.K kOff x.kStride x.Skv offsN
  let qk := fun i j => (∑ c, qTile i c * kTile j c) * qkScale
  let qk := fun i j =>
    if x.causal then (if offsM i ≥ offsN j then (qk i j : WithBot F) else ⊥) else qk i j
  let qk := fun i j => if offsN j < x.Skv then qk i j else ⊥
  let mNew ← gather fun i => finite (max (st.mI i) (Finset.univ.sup (qk i)))
  let alpha := fun i => exp (below (mNew i) (st.mI i))
  let p := fun i j => exp (below (mNew i) (qk i j))
  let lI := fun i => st.lI i * alpha i + ∑ j, p i j
  let acc := fun i c => st.acc i c * alpha i
  let vTile ← loadTile d x.V vOff x.vStride x.Skv offsN
  let pFp8 := fun i j => p i j * x.fp8Max
  let pvScale := vScale / x.fp8Max
  let pv := fun i c => ∑ j, pFp8 i j * vTile j c
  return ⟨fun i => mNew i, lI, fun i c => acc i c + pv i c * pvScale⟩

/-- One program: what it stores, addresses and values. -/
def fwdImpl (exp : WithBot F → F) (x : Args F) (pid : Nat × Nat) : Option (List (Nat × F)) := do
  let b := pid.2 / x.H
  let h := pid.2 % x.H
  let qScale ← x.qs.load pid.2
  let kScale ← x.ks.load pid.2
  let vScale ← x.vs.load pid.2
  let qOff := b * x.qStride.b + h * x.qStride.h
  let kOff := b * x.kStride.b + h * x.kStride.h
  let vOff := b * x.vStride.b + h * x.vStride.h
  let oOff := b * x.oStride.b + h * x.oStride.h
  let offsM := fun i : Fin x.blockM => pid.1 * x.blockM + i
  let qTile ← loadTile x.blockD x.Q qOff x.qStride x.Sq offsM
  let qkScale := x.smScale * qScale * kScale
  let st ← (List.range (cdiv x.Skv x.blockN)).foldlM
    (keyTile exp x kOff vOff offsM qTile qkScale vScale) Online.start
  let acc ← gather fun p : Fin x.blockM × Fin x.blockD => divide (st.acc p.1 p.2) (st.lI p.1)
  return (List.finRange x.blockM ×ˢ List.finRange x.blockD).filterMap fun p =>
    if offsM p.1 < x.Sq then
      some (oOff + offsM p.1 * x.oStride.row + p.2 * x.oStride.d, acc p)
    else
      none

/-- The programs of a launch, and all that they store. -/
def launch (exp : WithBot F → F) (x : Args F) : Option (List (Nat × F)) := do
  let grid := List.range (cdiv x.Sq x.blockM) ×ˢ List.range (x.B * x.H)
  let writes ← grid.mapM (fwdImpl exp x)
  return writes.flatten

end Kernel

/-! ## The operator -/

/-- A launch's tile shape. -/
structure Config where
  blockM : Nat
  blockN : Nat
  deriving DecidableEq

/-- What a copy of the module brings: `FP8_E4M3_MAX` and `_FALLBACK_CONFIG`. -/
structure Copy (F : Type) where
  fp8E4m3Max : F
  fallbackConfig : Config

/-- What the operator calls of the mathematical library. -/
structure MathLib (F : Type) where
  exp : WithBot F → F
  sqrt : F → F

section Operator

variable {F : Type} [Field F] [LinearOrder F]

/-- The copy for gfx942. -/
def gfx942 : Copy F where
  fp8E4m3Max := 240
  fallbackConfig := ⟨128, 64⟩

/-- The copy for Hopper. -/
def hopper : Copy F where
  fp8E4m3Max := 448
  fallbackConfig := ⟨128, 128⟩

/-- The copy for Ada. -/
def ada : Copy F where
  fp8E4m3Max := 448
  fallbackConfig := ⟨128, 64⟩

/-- `_per_bh_scale`, for one head of `n` elements. -/
def perBhScale (copy : Copy F) (n : Nat) (x : Nat → F) (bh : Nat) : F :=
  let amax := max ((Finset.range n).fold max 0 fun a => |x (bh * n + a)|) 0.000001
  amax / (0.95 * copy.fp8E4m3Max)

/-- `_quantize`, at one element of a tensor with `n` elements a head. -/
def quantize (copy : Copy F) (n : Nat) (x dequantScale : Nat → F) (a : Nat) : F :=
  let qMul := 1 / dequantScale (a / n)
  min (max (x a * qMul) (-copy.fp8E4m3Max)) copy.fp8E4m3Max

/-- The strides of a contiguous tensor. -/
def contiguous (H S D : Nat) : Strides where
  b := H * S * D
  h := S * D
  row := D
  d := 1

/-- The tile shapes the operator launches: the fallback, the cached one, or those the
autotuner tries and then the one it picks. -/
def launchConfigs (copy : Copy F) (disableAutotune : Bool) (cached : Option Config)
    (tried : List Config) (best : Config) : List Config :=
  if disableAutotune then
    [copy.fallbackConfig]
  else match cached with
    | some cfg => [cfg]
    | none => tried ++ [best]

/-- The arguments of a launch. -/
def launchArgs (copy : Copy F) (B H S D : Nat) (q k v : Nat → F) (oStride : Strides)
    (causal : Bool) (scale : F) (cfg : Config) : Args F :=
  let qScales := perBhScale copy (S * D) q
  let kScales := perBhScale copy (S * D) k
  let vScales := perBhScale copy (S * D) v
  { Q := Buffer.ofFn (B * H * S * D) (quantize copy (S * D) q qScales)
    K := Buffer.ofFn (B * H * S * D) (quantize copy (S * D) k kScales)
    V := Buffer.ofFn (B * H * S * D) (quantize copy (S * D) v vScales)
    smScale := scale
    qs := Buffer.ofFn (B * H) qScales
    ks := Buffer.ofFn (B * H) kScales
    vs := Buffer.ofFn (B * H) vScales
    qStride := contiguous H S D
    kStride := contiguous H S D
    vStride := contiguous H S D
    oStride := oStride
    B := B
    H := H
    Sq := S
    Skv := S
    blockM := cfg.blockM
    blockN := cfg.blockN
    blockD := D
    causal := causal
    fp8Max := copy.fp8E4m3Max }

/-- The launches of `fp8_flash_attention`, each with all that it stores.  A tensor is given by
its elements in row-major order; the shapes it refuses, and a head without elements, have no
result. -/
def fp8FlashAttention (math : MathLib F) (copy : Copy F) (configs : List Config) (B H S D : Nat)
    (q k v : Nat → F) (oStride : Strides) (causal : Bool) (scale : Option F) :
    Option (List (List (Nat × F))) :=
  if ¬ (D = 32 ∨ D = 64 ∨ D = 128 ∨ D = 256) ∨ B * H * S = 0 then
    none
  else
    let scale := scale.getD (1 / math.sqrt D)
    configs.mapM fun cfg =>
      launch math.exp (launchArgs copy B H S D q k v oStride causal scale cfg)

end Operator

end Fp8Flash

end Repercep.Kernels
