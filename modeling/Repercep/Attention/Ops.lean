import Mathlib
set_option autoImplicit false

/-!
# Attention operators

`attention/*.py`: which problems each operator says it supports, and what the kernels that are
Repercep's own check of the tensors they are handed.  A host is what the probes and imports of
the operators find on it.  A call is followed up to the kernel's checks; its tensors are on
the device the operator is for.
-/

namespace Repercep.Attention

/-! ## Problems -/

/-- Which keys a query attends to. -/
inductive AttentionKind where
  | full
  | causal
  | neighborhood
  deriving DecidableEq

/-- `AttentionShape`: the sizes of a call, before its tensors exist. -/
structure AttentionShape where
  batch : Nat
  heads : Nat
  seqLenQ : Nat
  seqLenKv : Nat
  headDim : Nat
  kind : AttentionKind := .full
  deriving DecidableEq

/-- `is_self_attention`: queries and keys have one length. -/
def AttentionShape.isSelfAttention (shape : AttentionShape) : Bool :=
  shape.seqLenQ == shape.seqLenKv

/-- The vendor of the device. -/
inductive Vendor where
  | amd
  | nvidia
  | intel
  deriving DecidableEq

/-- The element types a tensor may have. -/
inductive DType where
  | fp32
  | fp16
  | bf16
  | fp8E4M3
  | fp8E5M2
  | int8
  deriving DecidableEq

/-- What the probes and imports of the operators find. -/
structure Host where
  /-- the flags of `/proc/cpuinfo` -/
  amxBf16 : Bool
  amxInt8 : Bool
  amxFp16 : Bool
  /-- the extension modules that are built -/
  nativeBf16 : Bool
  nativeInt8 : Bool
  nativeFp16 : Bool
  /-- the Triton kernels that import -/
  fp8FlashAttn : Bool
  fp8FlashAttnHopper : Bool
  torch : Bool
  /-- `torch.version.hip` -/
  hip : Bool
  cuda : Bool
  float8E4M3Fnuz : Bool
  scaledGroupedMM : Bool
  scaledMM : Bool
  /-- FA-2 or the CK build, and FA-3 -/
  flashAttn : Bool
  flashAttnInterface : Bool
  transformerEngine : Bool
  /-- a fused attention in IPEX -/
  ipex : Bool

/-! ## Tensors -/

/-- The sizes of a tensor of four axes. -/
structure Sizes where
  s0 : Nat
  s1 : Nat
  s2 : Nat
  s3 : Nat
  deriving DecidableEq

/-- What a kernel can check of a tensor. -/
structure Tensor where
  sizes : Sizes
  dtype : DType
  isContiguous : Bool

namespace Tensor

/-- The tensor itself, or a copy of it. -/
def contiguous (t : Tensor) : Tensor :=
  { t with isContiguous := true }

/-- `permute(0, 2, 1, 3)`, a view. -/
def swapMiddle (t : Tensor) : Tensor :=
  { t with sizes := ⟨t.sizes.s0, t.sizes.s2, t.sizes.s1, t.sizes.s3⟩, isContiguous := false }

end Tensor

/-! ## The kernels' checks -/

/-- `TORCH_CHECK`. -/
def torchCheck (cond : Prop) [Decidable cond] (message : String) : Except String Unit :=
  if cond then .ok () else .error message

theorem torchCheck_ok {cond : Prop} [Decidable cond] {message : String} :
    torchCheck cond message = .ok () ↔ cond := by
  rw [torchCheck]
  split
  · exact iff_of_true rfl (by assumption)
  · exact iff_of_false nofun (by assumption)

theorem torchCheck_bind {cond : Prop} [Decidable cond] {message : String}
    {rest : Except String Unit} :
    (do torchCheck cond message; rest) = .ok () ↔ cond ∧ rest = .ok () := by
  rw [torchCheck]
  split
  · exact (and_iff_right (by assumption)).symm
  · exact iff_of_false nofun fun h => absurd h.1 (by assumption)

/-- The checks of the three AMX kernels, which differ in the type they ask for. -/
def flashAttnAmxChecks (typeName : String) (dtype : DType) (Q K V : Tensor) :
    Except String Unit := do
  torchCheck (Q.sizes = K.sizes ∧ Q.sizes = V.sizes) "Q/K/V shapes must match for this kernel"
  torchCheck (Q.dtype = dtype) s!"Q must be {typeName}"
  torchCheck (K.dtype = dtype) s!"K must be {typeName}"
  torchCheck (V.dtype = dtype) s!"V must be {typeName}"
  torchCheck (Q.isContiguous ∧ K.isContiguous ∧ V.isContiguous) "Q/K/V must be contiguous"
  let S := Q.sizes.s2
  let D := Q.sizes.s3
  torchCheck (D = 64 ∨ D = 128) s!"head_dim must be 64 or 128, got {D}"
  torchCheck (S ≥ 32 ∧ S % 32 = 0) s!"sequence length must be a positive multiple of 32, got {S}"

/-- What a tensor must be for an AMX kernel to take it. -/
theorem flashAttnAmxChecks_ok {typeName : String} {dtype : DType} {Q K V : Tensor} :
    flashAttnAmxChecks typeName dtype Q K V = .ok () ↔
      (Q.sizes = K.sizes ∧ Q.sizes = V.sizes) ∧ Q.dtype = dtype ∧ K.dtype = dtype ∧
        V.dtype = dtype ∧ (Q.isContiguous ∧ K.isContiguous ∧ V.isContiguous) ∧
        (Q.sizes.s3 = 64 ∨ Q.sizes.s3 = 128) ∧ Q.sizes.s2 ≥ 32 ∧ Q.sizes.s2 % 32 = 0 := by
  rw [flashAttnAmxChecks, torchCheck_bind, torchCheck_bind, torchCheck_bind, torchCheck_bind,
    torchCheck_bind, torchCheck_bind, torchCheck_ok]

/-- The checks of `flash_attn_bf16`. -/
def flashAttnBf16 : Tensor → Tensor → Tensor → Except String Unit :=
  flashAttnAmxChecks "bf16" .bf16

/-- The checks of `flash_attn_int8`, whose tensors are still bf16: they are quantised inside. -/
def flashAttnInt8 : Tensor → Tensor → Tensor → Except String Unit :=
  flashAttnAmxChecks "bf16" .bf16

/-- The checks of `flash_attn_fp16`. -/
def flashAttnFp16 : Tensor → Tensor → Tensor → Except String Unit :=
  flashAttnAmxChecks "fp16" .fp16

/-- The assertions of `fp8_flash_attention`, the same in the kernel for Hopper. -/
def fp8FlashAttention (q k v : Tensor) : Except String Unit := do
  torchCheck (q.sizes = k.sizes ∧ k.sizes = v.sizes) "MHA only (same S); cross-attn TODO"
  let D := q.sizes.s3
  torchCheck (D ∈ [32, 64, 128, 256]) s!"head_dim {D} not in compiled tile shapes"

/-- What a tensor must be for an FP8 kernel to take it. -/
theorem fp8FlashAttention_ok {q k v : Tensor} :
    fp8FlashAttention q k v = .ok () ↔
      (q.sizes = k.sizes ∧ k.sizes = v.sizes) ∧ q.sizes.s3 ∈ [32, 64, 128, 256] := by
  rw [fp8FlashAttention, torchCheck_bind, torchCheck_ok]

/-! ## The operators -/

/-- `supports` of the operators that look at the type, the head dimension and the kind. -/
def flashSupports (available : Bool) (dtypes : List DType) (headDims : List Nat)
    (shape : AttentionShape) (dtype : DType) : Bool :=
  available && dtypes.contains dtype && headDims.contains shape.headDim &&
    [AttentionKind.full, .causal].contains shape.kind

theorem flashSupports_iff {available : Bool} {dtypes : List DType} {headDims : List Nat}
    {shape : AttentionShape} {dtype : DType} :
    flashSupports available dtypes headDims shape dtype = true ↔
      available = true ∧ dtype ∈ dtypes ∧ shape.headDim ∈ headDims ∧
        shape.kind ≠ .neighborhood := by
  have hkind : [AttentionKind.full, .causal].contains shape.kind = true ↔
      shape.kind ≠ .neighborhood := by
    cases shape.kind with
    | full => decide
    | causal => decide
    | neighborhood => decide
  rw [flashSupports, Bool.and_eq_true, Bool.and_eq_true, Bool.and_eq_true, hkind,
    List.contains_iff_mem, List.contains_iff_mem, and_assoc, and_assoc]

/-- `supports` of the FP8 flash operators: long enough self-attention only. -/
def fp8Supports (available : Bool) (shape : AttentionShape) (dtype : DType) : Bool :=
  flashSupports available [.bf16, .fp16] [32, 64, 128, 256] shape dtype &&
    decide (shape.seqLenQ ≥ 128) && decide (shape.seqLenKv ≥ 128) && shape.isSelfAttention

namespace FP8TritonAttention

/-- The import of the Triton kernel succeeds. -/
def available (host : Host) : Bool := host.fp8FlashAttn

/-- `FP8TritonAttention.supports`. -/
def supports (host : Host) : AttentionShape → DType → Bool :=
  fp8Supports (available host)

end FP8TritonAttention

namespace FP8HopperTritonAttention

/-- The import of the kernel for Hopper succeeds. -/
def available (host : Host) : Bool := host.fp8FlashAttnHopper

/-- `FP8HopperTritonAttention.supports`. -/
def supports (host : Host) : AttentionShape → DType → Bool :=
  fp8Supports (available host)

end FP8HopperTritonAttention

namespace FP8ScaledMMAttention

/-- PyTorch has one of the two scaled products, and the float8 of AMD. -/
def available (host : Host) : Bool :=
  (host.scaledGroupedMM || host.scaledMM) && host.float8E4M3Fnuz

/-- The scores are materialised: they must fit in 4 GiB. -/
def supports (host : Host) (shape : AttentionShape) (dtype : DType) : Bool :=
  flashSupports (available host) [.bf16, .fp16, .fp8E4M3, .fp8E5M2] [64, 96, 128, 192, 256]
    shape dtype &&
  decide (shape.seqLenQ ≥ 16) && decide (shape.seqLenKv ≥ 16) &&
  decide (shape.seqLenQ % 16 = 0) && decide (shape.seqLenKv % 16 = 0) &&
  decide (shape.batch * shape.heads * shape.seqLenQ * shape.seqLenKv * 2 ≤ 4 * 1024 ^ 3)

end FP8ScaledMMAttention

namespace ROCmFlashAttention

/-- `ROCmFlashAttention.supports`. -/
def supports (host : Host) : AttentionShape → DType → Bool :=
  flashSupports host.flashAttn [.fp16, .bf16] [64, 128, 256]

end ROCmFlashAttention

namespace HopperFlashAttention

/-- `HopperFlashAttention.supports`. -/
def supports (host : Host) : AttentionShape → DType → Bool :=
  flashSupports (host.flashAttnInterface || host.flashAttn) [.fp16, .bf16]
    [64, 96, 128, 192, 256]

end HopperFlashAttention

namespace TransformerEngineAttention

/-- `TransformerEngineAttention.supports`, for self-attention only. -/
def supports (host : Host) (shape : AttentionShape) (dtype : DType) : Bool :=
  flashSupports (host.torch && host.transformerEngine && host.cuda)
    [.fp16, .bf16, .fp8E4M3, .fp8E5M2] [64, 128] shape dtype && shape.isSelfAttention

end TransformerEngineAttention

namespace AMXFlashAttention

/-- The CPU has the bf16 tiles, and the extension is built. -/
def available (host : Host) : Bool := host.amxBf16 && host.nativeBf16

/-- `AMXFlashAttention.supports`. -/
def supports (host : Host) : AttentionShape → DType → Bool :=
  flashSupports (available host) [.bf16] [64, 128]

end AMXFlashAttention

namespace AMXInt8FlashAttention

/-- The CPU has the int8 tiles, and the extension is built. -/
def available (host : Host) : Bool := host.amxInt8 && host.nativeInt8

/-- `AMXInt8FlashAttention.supports`. -/
def supports (host : Host) : AttentionShape → DType → Bool :=
  flashSupports (available host) [.bf16] [64, 128]

end AMXInt8FlashAttention

namespace AMXFP16FlashAttention

/-- The CPU has the fp16 tiles, and the extension is built. -/
def available (host : Host) : Bool := host.amxFp16 && host.nativeFp16

/-- `AMXFP16FlashAttention.supports`. -/
def supports (host : Host) : AttentionShape → DType → Bool :=
  flashSupports (available host) [.fp16] [64, 128]

end AMXFP16FlashAttention

namespace IPEXFlashAttention

/-- `IPEXFlashAttention.supports`. -/
def supports (host : Host) : AttentionShape → DType → Bool :=
  flashSupports host.ipex [.fp16, .bf16, .fp32] [64, 80, 96, 128, 192, 256]

end IPEXFlashAttention

namespace AMXSDPAAttention

/-- Any head dimension. -/
def supports (host : Host) (shape : AttentionShape) (dtype : DType) : Bool :=
  host.torch && [DType.fp32, .fp16, .bf16, .int8].contains dtype &&
    [AttentionKind.full, .causal].contains shape.kind

end AMXSDPAAttention

/-- The operators the registry knows. -/
inductive AttentionOp where
  | fp8Triton
  | fp8ScaledMM
  | rocmFlash
  | fp8HopperTriton
  | transformerEngine
  | hopperFlash
  | amxInt8Flash
  | amxFp16Flash
  | amxFlash
  | ipexFlash
  | amxSDPA
  | naive
  deriving DecidableEq

namespace AttentionOp

/-- `supports`, of whichever operator it is. -/
def supports (host : Host) : AttentionOp → AttentionShape → DType → Bool
  | fp8Triton => FP8TritonAttention.supports host
  | fp8ScaledMM => FP8ScaledMMAttention.supports host
  | rocmFlash => ROCmFlashAttention.supports host
  | fp8HopperTriton => FP8HopperTritonAttention.supports host
  | transformerEngine => TransformerEngineAttention.supports host
  | hopperFlash => HopperFlashAttention.supports host
  | amxInt8Flash => AMXInt8FlashAttention.supports host
  | amxFp16Flash => AMXFP16FlashAttention.supports host
  | amxFlash => AMXFlashAttention.supports host
  | ipexFlash => IPEXFlashAttention.supports host
  | amxSDPA => AMXSDPAAttention.supports host
  | naive => fun _ _ => true

/-- What a call of an operator that is available checks, if the kernel is Repercep's own. -/
def ownCall : AttentionOp → Option (Tensor → Tensor → Tensor → Except String Unit)
  | fp8Triton => some fp8FlashAttention
  | fp8HopperTriton => some fp8FlashAttention
  | amxInt8Flash => some fun q k v => flashAttnInt8 q.contiguous k.contiguous v.contiguous
  | amxFp16Flash => some fun q k v => flashAttnFp16 q.contiguous k.contiguous v.contiguous
  | amxFlash => some fun q k v => flashAttnBf16 q.contiguous k.contiguous v.contiguous
  | _ => none

end AttentionOp

end Repercep.Attention
