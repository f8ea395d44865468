import Mathlib
import Repercep.Attention.Ops
set_option autoImplicit false

/-!
# Attention operator selection

`attention/registry.py` and the two bridges into diffusers.  The registry hands out the first
operator that says it supports the problem; a bridge routes a call to Repercep's kernel or
back to diffusers' own.  The FP8 kernels accept all that is routed to them.  The AMX kernels
do not: nothing on the way looks at whether the length is a multiple of the tile's, nor, in
the registry, at whether queries and keys are as many.
-/

namespace Repercep.Attention

/-! ## The registry -/

/-- The environment the operators are chosen in. -/
structure Env where
  fp8Attention : Option String
  amxAttention : Option String

/-- `str.lower`, on ASCII. -/
def lower (s : String) : String :=
  String.ofList (s.toList.map Char.toLower)

namespace Env

/-- `_FP8_ENV` -/
def fp8 (env : Env) : String :=
  lower (env.fp8Attention.getD "")

/-- `_FP8_ENABLED` -/
def fp8Enabled (env : Env) : Bool :=
  ["1", "true", "on", "triton", "scaled_mm", "te", "transformer_engine"].contains env.fp8

/-- `_AMX_ENV` -/
def amx (env : Env) : String :=
  lower (env.amxAttention.getD "")

/-- `_AMX_ENABLED` -/
def amxEnabled (env : Env) : Bool :=
  ["1", "true", "on", "amx", "int8", "fp16", "ipex"].contains env.amx

end Env

/-- The candidates `select_attention_op` lists, best first. -/
def candidates (env : Env) : Vendor → List AttentionOp
  | .amd =>
    (if env.fp8Enabled ∧ env.fp8 ∉ ["scaled_mm", "te", "transformer_engine"]
      then [.fp8Triton] else []) ++
    (if env.fp8Enabled ∧ env.fp8 ∉ ["triton", "te", "transformer_engine"]
      then [.fp8ScaledMM] else []) ++
    [.rocmFlash, .naive]
  | .nvidia =>
    (if env.fp8Enabled ∧ env.fp8 ∉ ["te", "transformer_engine", "scaled_mm"]
      then [.fp8HopperTriton] else []) ++
    (if env.fp8Enabled ∧ env.fp8 ∈ ["1", "true", "on", "te", "transformer_engine"]
      then [.transformerEngine] else []) ++
    [.hopperFlash, .naive]
  | .intel =>
    (if env.amxEnabled ∧ env.amx = "int8" then [.amxInt8Flash] else []) ++
    (if env.amxEnabled ∧ env.amx ∈ ["1", "true", "on", "fp16"]
      then [.amxFp16Flash] else []) ++
    (if env.amxEnabled ∧ env.amx ∉ ["ipex", "int8", "fp16"]
      then [.amxFlash] else []) ++
    (if env.amxEnabled ∧ env.amx ∉ ["amx", "int8", "fp16"]
      then [.ipexFlash] else []) ++
    [.amxSDPA, .naive]

/-- `select_attention_op`: the first candidate that supports the call, or the naive one. -/
def selectAttentionOp (host : Host) (env : Env) (vendor : Vendor) (shape : AttentionShape)
    (dtype : DType) : AttentionOp :=
  ((candidates env vendor).find? fun op => op.supports host shape dtype).getD .naive

/-- The tensors of a problem, `(B, H, S, D)`. -/
structure Fits (shape : AttentionShape) (dtype : DType) (q k v : Tensor) : Prop where
  query : q.sizes = ⟨shape.batch, shape.heads, shape.seqLenQ, shape.headDim⟩
  key : k.sizes = ⟨shape.batch, shape.heads, shape.seqLenKv, shape.headDim⟩
  value : v.sizes = ⟨shape.batch, shape.heads, shape.seqLenKv, shape.headDim⟩
  queryType : q.dtype = dtype
  keyType : k.dtype = dtype
  valueType : v.dtype = dtype

/-- If the operator selected for a problem is Repercep's own, its kernel takes the problem. -/
def SelectionSafe (host : Host) (env : Env) (vendor : Vendor) (shape : AttentionShape)
    (dtype : DType) : Prop :=
  ∀ call ∈ (selectAttentionOp host env vendor shape dtype).ownCall, ∀ q k v,
    Fits shape dtype q k v → call q k v = .ok ()

/-! ## The bridges -/

/-- A call that diffusers dispatches; its tensors are `(B, S, H, D)`. -/
structure BridgeCall where
  query : Tensor
  key : Tensor
  value : Tensor
  /-- whether there is a mask -/
  attnMask : Bool
  dropoutP : Rat
  enableGqa : Bool
  returnLse : Bool
  /-- whether there is a parallel configuration -/
  parallelConfig : Bool

/-- Where a bridge sends a call. -/
inductive Routed where
  | raised (message : String)
  | native
  | kernel (checked : Except String Unit)

/-- What both bridges ask of a call before its tensors. -/
def BridgeCall.plain (call : BridgeCall) : Bool :=
  !call.attnMask && call.dropoutP == 0 && !call.enableGqa

/-- `_route_should_use_fp8` -/
def routeShouldUseFp8 (query key value : Tensor) : Bool :=
  [DType.bf16, .fp16].contains query.dtype &&
    query.sizes == key.sizes && query.sizes == value.sizes &&
    [32, 64, 128, 256].contains query.sizes.s3 && decide (query.sizes.s1 ≥ 4096)

/-- `_route_should_use_amx` -/
def routeShouldUseAmx (query key value : Tensor) : Bool :=
  query.dtype == .bf16 &&
    query.sizes == key.sizes && query.sizes == value.sizes &&
    [64, 128].contains query.sizes.s3 && decide (query.sizes.s1 ≥ 4096)

/-- A call of an operator from a bridge, in the kernel's layout. -/
def callPermuted (op : AttentionOp) (call : BridgeCall) : Routed :=
  match op.ownCall with
  | none => .native
  | some check =>
    .kernel (check call.query.swapMiddle.contiguous call.key.swapMiddle.contiguous
      call.value.swapMiddle.contiguous)

/-- `_repercep_fp8_attention` -/
def repercepFp8Attention (host : Host) (env : Env) (call : BridgeCall) : Routed :=
  if call.returnLse then
    .raised "repercep_fp8 backend does not support return_lse=True."
  else if ["fa", "flash"].contains env.fp8 then .native
  else if call.parallelConfig then .native
  else if !call.plain || !routeShouldUseFp8 call.query call.key call.value then .native
  else if host.hip then
    if !FP8TritonAttention.available host then .native
    else callPermuted .fp8Triton call
  else
    if !FP8HopperTritonAttention.available host then .native
    else callPermuted .fp8HopperTriton call

/-- `_repercep_amx_attention` -/
def repercepAmxAttention (host : Host) (call : BridgeCall) : Routed :=
  if call.returnLse then
    .raised "repercep_amx backend does not support return_lse=True."
  else if call.parallelConfig then .native
  else if !call.plain || !routeShouldUseAmx call.query call.key call.value then .native
  else if !AMXFlashAttention.available host then .native
  else callPermuted .amxFlash call

/-- A call that is routed to a kernel passes its checks. -/
def Routed.Safe (routed : Routed) : Prop :=
  ∀ checked, routed = .kernel checked → checked = .ok ()

/-! ## What the registry selects -/

section Registry

variable {host : Host} {env : Env} {vendor : Vendor} {shape : AttentionShape} {dtype : DType}

theorem selectAttentionOp_supports :
    (selectAttentionOp host env vendor shape dtype).supports host shape dtype = true := by
  rw [selectAttentionOp]
  cases hfind : (candidates env vendor).find? fun op => op.supports host shape dtype with
  | none => rfl
  | some op =>
      have hsupports := List.find?_some hfind
      exact hsupports

/-- A candidate that stands under a condition is listed or not. -/
theorem ite_sublist {cond : Prop} [Decidable cond] (ops : List AttentionOp) :
    (if cond then ops else []).Sublist ops := by
  split
  · exact .refl ops
  · exact List.nil_sublist ops

theorem mem_ite_singleton {cond : Prop} [Decidable cond] {op op' : AttentionOp} :
    op ∈ (if cond then [op'] else []) ↔ op = op' ∧ cond := by
  split
  · next hcond => rw [List.mem_singleton, and_iff_left hcond]
  · next hcond => exact iff_of_false List.not_mem_nil fun h => hcond h.2

/-- The AMX kernels among the candidates. -/
def amxCandidates (env : Env) : List AttentionOp :=
  (if env.amxEnabled ∧ env.amx = "int8" then [.amxInt8Flash] else []) ++
    (if env.amxEnabled ∧ env.amx ∈ ["1", "true", "on", "fp16"]
      then [.amxFp16Flash] else []) ++
    (if env.amxEnabled ∧ env.amx ∉ ["ipex", "int8", "fp16"]
      then [.amxFlash] else [])

/-- The operators that run on the matrix tiles of the CPU. -/
def AttentionOp.IsAmx (op : AttentionOp) : Prop :=
  op = .amxInt8Flash ∨ op = .amxFp16Flash ∨ op = .amxFlash

instance : DecidablePred AttentionOp.IsAmx := fun op =>
  inferInstanceAs (Decidable (op = .amxInt8Flash ∨ op = .amxFp16Flash ∨ op = .amxFlash))

theorem amxEnabled_iff :
    env.amxEnabled = true ↔ env.amx ∈ ["1", "true", "on", "amx", "int8", "fp16", "ipex"] := by
  rw [Env.amxEnabled, List.contains_iff_mem]

theorem amxEnabled_int8 : env.amxEnabled ∧ env.amx = "int8" ↔ env.amx = "int8" := by
  refine and_iff_right_of_imp fun h => ?_
  rw [amxEnabled_iff, h]
  decide

theorem amxEnabled_fp16 :
    env.amxEnabled ∧ env.amx ∈ ["1", "true", "on", "fp16"] ↔
      env.amx ∈ ["1", "true", "on", "fp16"] := by
  have hsub : ∀ e ∈ ["1", "true", "on", "fp16"],
      e ∈ ["1", "true", "on", "amx", "int8", "fp16", "ipex"] := by
    decide
  exact and_iff_right_of_imp fun h => amxEnabled_iff.mpr (hsub _ h)

theorem amxEnabled_bf16 :
    env.amxEnabled ∧ env.amx ∉ ["ipex", "int8", "fp16"] ↔
      env.amx ∈ ["1", "true", "on", "amx"] := by
  have hout : ∀ e ∈ ["1", "true", "on", "amx", "int8", "fp16", "ipex"],
      e ∉ ["ipex", "int8", "fp16"] → e ∈ ["1", "true", "on", "amx"] := by
    decide
  have hin : ∀ e ∈ ["1", "true", "on", "amx"],
      e ∈ ["1", "true", "on", "amx", "int8", "fp16", "ipex"] ∧
        e ∉ ["ipex", "int8", "fp16"] := by
    decide
  rw [amxEnabled_iff]
  exact ⟨fun h => hout _ h.1 h.2, fun h => hin _ h⟩

theorem mem_amxCandidates {op : AttentionOp} :
    op ∈ amxCandidates env ↔
      (op = .amxInt8Flash ∧ env.amx = "int8") ∨
        (op = .amxFp16Flash ∧ env.amx ∈ ["1", "true", "on", "fp16"]) ∨
        (op = .amxFlash ∧ env.amx ∈ ["1", "true", "on", "amx"]) := by
  rw [amxCandidates, List.mem_append, List.mem_append, mem_ite_singleton, mem_ite_singleton,
    mem_ite_singleton, or_assoc, and_congr_right_iff.mpr fun _ => amxEnabled_int8, and_congr_right_iff.mpr fun _ =>
    amxEnabled_fp16, and_congr_right_iff.mpr fun _ => amxEnabled_bf16]

theorem candidates_intel :
    ∃ rest, candidates env .intel = amxCandidates env ++ rest ∧ ∀ op ∈ rest, ¬ op.IsAmx := by
  refine ⟨(if env.amxEnabled ∧ env.amx ∉ ["amx", "int8", "fp16"] then [.ipexFlash] else []) ++
    [.amxSDPA, .naive], ?_, ?_⟩
  · rw [candidates, amxCandidates]
    exact List.append_assoc _ _ _
  · have hothers : ∀ op ∈ [AttentionOp.ipexFlash, .amxSDPA, .naive], ¬ op.IsAmx := by decide
    intro op hop
    exact hothers op (((ite_sublist [.ipexFlash]).append_right _).subset hop)

/-- An AMX kernel is selected when one that is a candidate supports the problem. -/
theorem isAmx_selected_iff :
    (selectAttentionOp host env .intel shape dtype).IsAmx ↔
      ∃ op ∈ amxCandidates env, op.supports host shape dtype = true := by
  obtain ⟨rest, hcandidates, hrest⟩ := @candidates_intel env
  rw [selectAttentionOp, hcandidates, List.find?_append]
  cases hfind : (amxCandidates env).find? fun op => op.supports host shape dtype with
  | some op =>
      have hmem := List.mem_of_find?_eq_some hfind
      have hsupports := List.find?_some hfind
      refine iff_of_true ?_ ⟨op, hmem, hsupports⟩
      rcases mem_amxCandidates.mp hmem with h | h | h
      · exact .inl h.1
      · exact .inr (.inl h.1)
      · exact .inr (.inr h.1)
  | none =>
      refine iff_of_false ?_ ?_
      · rw [Option.none_or]
        cases hother : rest.find? fun op => op.supports host shape dtype with
        | none => decide
        | some op => exact hrest op (List.mem_of_find?_eq_some hother)
      · rintro ⟨op, hmem, hsupports⟩
        exact List.find?_eq_none.mp hfind op hmem hsupports

/-- The problems an AMX kernel is selected for. -/
def AmxSelected (host : Host) (env : Env) (vendor : Vendor) (shape : AttentionShape)
    (dtype : DType) : Prop :=
  vendor = .intel ∧ shape.headDim ∈ [64, 128] ∧ shape.kind ≠ .neighborhood ∧
    ((env.amx = "int8" ∧ host.amxInt8 ∧ host.nativeInt8 ∧ dtype = .bf16) ∨
      (env.amx ∈ ["1", "true", "on", "fp16"] ∧ host.amxFp16 ∧ host.nativeFp16 ∧
        dtype = .fp16) ∨
      (env.amx ∈ ["1", "true", "on", "amx"] ∧ host.amxBf16 ∧ host.nativeBf16 ∧
        dtype = .bf16))

theorem not_isAmx_of_ne_intel (hvendor : vendor ≠ .intel) :
    ¬ (selectAttentionOp host env vendor shape dtype).IsAmx := by
  have hcandidates : ∀ op ∈ candidates env vendor, ¬ op.IsAmx := by
    intro op hop
    cases vendor with
    | intel => exact absurd rfl hvendor
    | amd =>
        have hothers : ∀ op ∈ [AttentionOp.fp8Triton, .fp8ScaledMM, .rocmFlash, .naive],
            ¬ op.IsAmx := by
          decide
        exact hothers op
          ((((ite_sublist [.fp8Triton]).append (ite_sublist [.fp8ScaledMM])).append_right _).subset
            hop)
    | nvidia =>
        have hothers : ∀ op ∈ [AttentionOp.fp8HopperTriton, .transformerEngine, .hopperFlash,
            .naive], ¬ op.IsAmx := by
          decide
        exact hothers op (((((ite_sublist [.fp8HopperTriton]).append
          (ite_sublist [.transformerEngine])).append_right _)).subset hop)
  rw [selectAttentionOp]
  cases hfind : (candidates env vendor).find? fun op => op.supports host shape dtype with
  | none => decide
  | some op => exact hcandidates op (List.mem_of_find?_eq_some hfind)

/-- The problems an AMX kernel supports: those of its type on its host. -/
theorem flashSupports_amx {flag native : Bool} {ty : DType} :
    flashSupports (flag && native) [ty] [64, 128] shape dtype = true ↔
      shape.headDim ∈ [64, 128] ∧ shape.kind ≠ .neighborhood ∧ flag ∧ native ∧ dtype = ty := by
  rw [flashSupports_iff, List.mem_singleton, Bool.and_eq_true]
  constructor
  · rintro ⟨⟨hflag, hnative⟩, hty, hdim, hkind⟩
    exact ⟨hdim, hkind, hflag, hnative, hty⟩
  · rintro ⟨hdim, hkind, hflag, hnative, hty⟩
    exact ⟨⟨hflag, hnative⟩, hty, hdim, hkind⟩

theorem isAmx_iff_amxSelected :
    (selectAttentionOp host env vendor shape dtype).IsAmx ↔
      AmxSelected host env vendor shape dtype := by
  rcases eq_or_ne vendor .intel with rfl | hvendor
  · have hint8 : AttentionOp.amxInt8Flash.supports host shape dtype = true ↔ _ :=
      flashSupports_amx
    have hfp16 : AttentionOp.amxFp16Flash.supports host shape dtype = true ↔ _ :=
      flashSupports_amx
    have hbf16 : AttentionOp.amxFlash.supports host shape dtype = true ↔ _ := flashSupports_amx
    simp only [isAmx_selected_iff, AmxSelected, mem_amxCandidates, or_and_right, exists_or,
      and_assoc, exists_eq_left, hint8, hfp16, hbf16, true_and]
    constructor
    · rintro (⟨henv, hdim, hkind, hhost⟩ | ⟨henv, hdim, hkind, hhost⟩ |
        ⟨henv, hdim, hkind, hhost⟩)
      · exact ⟨hdim, hkind, .inl ⟨henv, hhost⟩⟩
      · exact ⟨hdim, hkind, .inr (.inl ⟨henv, hhost⟩)⟩
      · exact ⟨hdim, hkind, .inr (.inr ⟨henv, hhost⟩)⟩
    · rintro ⟨hdim, hkind, ⟨henv, hhost⟩ | ⟨henv, hhost⟩ | ⟨henv, hhost⟩⟩
      · exact .inl ⟨henv, hdim, hkind, hhost⟩
      · exact .inr (.inl ⟨henv, hdim, hkind, hhost⟩)
      · exact .inr (.inr ⟨henv, hdim, hkind, hhost⟩)
  · exact iff_of_false (not_isAmx_of_ne_intel hvendor) fun h => hvendor h.1

end Registry

/-! ## What the kernels take of it -/

section Accepted

variable {host : Host} {shape : AttentionShape} {dtype : DType} {q k v : Tensor}

/-- A problem an FP8 operator supports is one its kernel takes. -/
theorem fp8FlashAttention_of_supports {available : Bool}
    (hsupports : fp8Supports available shape dtype = true) (hfits : Fits shape dtype q k v) :
    fp8FlashAttention q k v = .ok () := by
  rw [fp8Supports, Bool.and_eq_true, Bool.and_eq_true, Bool.and_eq_true, flashSupports_iff,
    AttentionShape.isSelfAttention, beq_iff_eq] at hsupports
  obtain ⟨⟨⟨⟨-, -, hdim, -⟩, -⟩, -⟩, hself⟩ := hsupports
  rw [fp8FlashAttention_ok, hfits.query, hfits.key, hfits.value, hself]
  exact ⟨⟨rfl, rfl⟩, hdim⟩

/-- A problem an AMX operator supports is one its kernel takes when the queries are as many
as the keys and fill the tiles. -/
theorem flashAttnAmx_of_supports {available : Bool} {typeName : String} {ty : DType}
    (hsupports : flashSupports available [ty] [64, 128] shape dtype = true)
    (hfits : Fits shape dtype q k v) :
    flashAttnAmxChecks typeName ty q.contiguous k.contiguous v.contiguous = .ok () ↔
      shape.seqLenQ = shape.seqLenKv ∧ shape.seqLenQ ≥ 32 ∧ shape.seqLenQ % 32 = 0 := by
  rw [flashSupports_iff, List.mem_singleton] at hsupports
  obtain ⟨-, hty, hdim, -⟩ := hsupports
  have hdim' : shape.headDim = 64 ∨ shape.headDim = 128 := by simpa using hdim
  rw [flashAttnAmxChecks_ok]
  simp only [Tensor.contiguous, hfits.query, hfits.key, hfits.value, hfits.queryType,
    hfits.keyType, hfits.valueType, hty, hdim', Sizes.mk.injEq, true_and, and_true, and_self]

/-- Other than an AMX kernel, the selected operator takes what it supports. -/
theorem ownCall_of_not_isAmx {op : AttentionOp} (hop : ¬ op.IsAmx)
    (hsupports : op.supports host shape dtype = true) :
    ∀ call ∈ op.ownCall, ∀ q k v, Fits shape dtype q k v → call q k v = .ok () := by
  rw [AttentionOp.IsAmx] at hop
  intro call hcall q k v hfits
  cases op with
  | fp8Triton =>
      cases hcall
      exact fp8FlashAttention_of_supports hsupports hfits
  | fp8HopperTriton =>
      cases hcall
      exact fp8FlashAttention_of_supports hsupports hfits
  | amxInt8Flash => exact absurd (.inl rfl) hop
  | amxFp16Flash => exact absurd (.inr (.inl rfl)) hop
  | amxFlash => exact absurd (.inr (.inr rfl)) hop
  | fp8ScaledMM => cases hcall
  | rocmFlash => cases hcall
  | transformerEngine => cases hcall
  | hopperFlash => cases hcall
  | ipexFlash => cases hcall
  | amxSDPA => cases hcall
  | naive => cases hcall

/-- The tensors a problem can come as. -/
theorem fits_self :
    Fits shape dtype ⟨⟨shape.batch, shape.heads, shape.seqLenQ, shape.headDim⟩, dtype, true⟩
      ⟨⟨shape.batch, shape.heads, shape.seqLenKv, shape.headDim⟩, dtype, true⟩
      ⟨⟨shape.batch, shape.heads, shape.seqLenKv, shape.headDim⟩, dtype, true⟩ :=
  ⟨rfl, rfl, rfl, rfl, rfl, rfl⟩

theorem ownCall_of_isAmx {op : AttentionOp} (hop : op.IsAmx)
    (hsupports : op.supports host shape dtype = true) :
    (∀ call ∈ op.ownCall, ∀ q k v, Fits shape dtype q k v → call q k v = .ok ()) ↔
      shape.seqLenQ = shape.seqLenKv ∧ shape.seqLenQ ≥ 32 ∧ shape.seqLenQ % 32 = 0 := by
  have hcall : ∃ typeName ty, flashSupports true [ty] [64, 128] shape dtype = true ∧
      op.ownCall = some fun q k v =>
        flashAttnAmxChecks typeName ty q.contiguous k.contiguous v.contiguous := by
    have hforget : ∀ {available : Bool} {ty : DType},
        flashSupports available [ty] [64, 128] shape dtype = true →
          flashSupports true [ty] [64, 128] shape dtype = true := by
      intro available ty h
      rw [flashSupports_iff] at h ⊢
      exact ⟨rfl, h.2⟩
    rcases hop with rfl | rfl | rfl
    · exact ⟨"bf16", .bf16, hforget hsupports, rfl⟩
    · exact ⟨"fp16", .fp16, hforget hsupports, rfl⟩
    · exact ⟨"bf16", .bf16, hforget hsupports, rfl⟩
  obtain ⟨typeName, ty, hflash, hown⟩ := hcall
  rw [hown]
  constructor
  · intro hsafe
    exact (flashAttnAmx_of_supports hflash fits_self).mp (hsafe _ rfl _ _ _ fits_self)
  · intro hshape call hmem q k v hfits
    cases hmem
    exact (flashAttnAmx_of_supports hflash hfits).mpr hshape

end Accepted

/-- When the kernel of the selected operator takes the problem. -/
theorem selectionSafe_iff {host : Host} {env : Env} {vendor : Vendor} {shape : AttentionShape}
    {dtype : DType} :
    SelectionSafe host env vendor shape dtype ↔
      (AmxSelected host env vendor shape dtype →
        shape.seqLenQ = shape.seqLenKv ∧ shape.seqLenQ ≥ 32 ∧ shape.seqLenQ % 32 = 0) := by
  rw [SelectionSafe, ← isAmx_iff_amxSelected]
  by_cases hop : (selectAttentionOp host env vendor shape dtype).IsAmx
  · rw [ownCall_of_isAmx hop selectAttentionOp_supports, imp_iff_right hop]
  · exact iff_of_true (ownCall_of_not_isAmx hop selectAttentionOp_supports)
      fun h => absurd h hop

/-! ## What the bridges route -/

section Bridge

variable {host : Host} {env : Env} {call : BridgeCall}

theorem routeShouldUseFp8_iff {query key value : Tensor} :
    routeShouldUseFp8 query key value = true ↔
      query.dtype ∈ [DType.bf16, .fp16] ∧ query.sizes = key.sizes ∧
        query.sizes = value.sizes ∧ query.sizes.s3 ∈ [32, 64, 128, 256] ∧
        query.sizes.s1 ≥ 4096 := by
  rw [routeShouldUseFp8, Bool.and_eq_true, Bool.and_eq_true, Bool.and_eq_true,
    Bool.and_eq_true, List.contains_iff_mem, List.contains_iff_mem, beq_iff_eq, beq_iff_eq,
    decide_eq_true_eq, and_assoc, and_assoc, and_assoc]

theorem routeShouldUseAmx_iff {query key value : Tensor} :
    routeShouldUseAmx query key value = true ↔
      query.dtype = .bf16 ∧ query.sizes = key.sizes ∧ query.sizes = value.sizes ∧
        query.sizes.s3 ∈ [64, 128] ∧ query.sizes.s1 ≥ 4096 := by
  rw [routeShouldUseAmx, Bool.and_eq_true, Bool.and_eq_true, Bool.and_eq_true,
    Bool.and_eq_true, List.contains_iff_mem, beq_iff_eq, beq_iff_eq, beq_iff_eq,
    decide_eq_true_eq, and_assoc, and_assoc, and_assoc]

/-- A call that is not turned away on a branch goes on. -/
theorem kernel_of_ite (refused : Routed) (hrefused : ∀ checked, refused ≠ .kernel checked)
    {cond : Prop} [Decidable cond] {routed : Routed} {checked : Except String Unit} :
    (if cond then refused else routed) = .kernel checked ↔
      ¬ cond ∧ routed = .kernel checked := by
  split
  · exact iff_of_false (hrefused checked) fun h => absurd (by assumption) h.1
  · exact (and_iff_right (by assumption)).symm

/-- What the FP8 bridge routes to a kernel, the kernel takes. -/
theorem repercepFp8Attention_safe (host : Host) (env : Env) (call : BridgeCall) :
    (repercepFp8Attention host env call).Safe := by
  intro checked hrouted
  rw [repercepFp8Attention, kernel_of_ite (.raised _) nofun, kernel_of_ite .native nofun,
    kernel_of_ite .native nofun, kernel_of_ite .native nofun] at hrouted
  obtain ⟨-, -, -, hcall, hkernel⟩ := hrouted
  have hroute : routeShouldUseFp8 call.query call.key call.value = true := by
    simp only [Bool.or_eq_true, Bool.not_eq_true', not_or, Bool.not_eq_false] at hcall
    exact hcall.2
  have hchecked : checked = fp8FlashAttention call.query.swapMiddle.contiguous
      call.key.swapMiddle.contiguous call.value.swapMiddle.contiguous := by
    split at hkernel
    · rw [kernel_of_ite .native nofun] at hkernel
      exact (Routed.kernel.inj hkernel.2).symm
    · rw [kernel_of_ite .native nofun] at hkernel
      exact (Routed.kernel.inj hkernel.2).symm
  obtain ⟨-, hkey, hvalue, hdim, -⟩ := routeShouldUseFp8_iff.mp hroute
  rw [hchecked, fp8FlashAttention_ok]
  simp only [Tensor.swapMiddle, Tensor.contiguous, ← hkey, ← hvalue, true_and]
  exact hdim

/-- The calls the AMX bridge routes to its kernel. -/
def AmxRouted (host : Host) (call : BridgeCall) : Prop :=
  call.returnLse = false ∧ call.parallelConfig = false ∧ call.plain = true ∧
    routeShouldUseAmx call.query call.key call.value = true ∧
    AMXFlashAttention.available host = true

theorem repercepAmxAttention_kernel {checked : Except String Unit} :
    repercepAmxAttention host call = .kernel checked ↔
      AmxRouted host call ∧
        flashAttnAmxChecks "bf16" .bf16 call.query.swapMiddle.contiguous
          call.key.swapMiddle.contiguous call.value.swapMiddle.contiguous = checked := by
  rw [repercepAmxAttention, kernel_of_ite (.raised _) nofun, kernel_of_ite .native nofun,
    kernel_of_ite .native nofun, kernel_of_ite .native nofun, AmxRouted]
  simp only [Bool.or_eq_true, Bool.not_eq_true', not_or, Bool.not_eq_false, Bool.not_eq_true,
    and_assoc]
  have hcall : callPermuted .amxFlash call = .kernel checked ↔
      flashAttnAmxChecks "bf16" .bf16 call.query.swapMiddle.contiguous
        call.key.swapMiddle.contiguous call.value.swapMiddle.contiguous = checked :=
    ⟨fun h => Routed.kernel.inj h, fun h => congrArg Routed.kernel h⟩
  rw [hcall]

/-- When the kernel takes what the AMX bridge routes to it. -/
theorem repercepAmxAttention_safe_iff :
    (repercepAmxAttention host call).Safe ↔
      (AmxRouted host call → call.query.sizes.s1 % 32 = 0 ∧
        call.key.dtype = .bf16 ∧ call.value.dtype = .bf16) := by
  have haccepts : AmxRouted host call →
      (flashAttnAmxChecks "bf16" .bf16 call.query.swapMiddle.contiguous
        call.key.swapMiddle.contiguous call.value.swapMiddle.contiguous = .ok () ↔
          call.query.sizes.s1 % 32 = 0 ∧ call.key.dtype = .bf16 ∧
            call.value.dtype = .bf16) := by
    intro hrouted
    obtain ⟨hquery, hkey, hvalue, hdim, hlong⟩ := routeShouldUseAmx_iff.mp hrouted.2.2.2.1
    have hdim' : call.query.sizes.s3 = 64 ∨ call.query.sizes.s3 = 128 := by simpa using hdim
    have hlong' : call.query.sizes.s1 ≥ 32 := by omega
    rw [flashAttnAmxChecks_ok]
    simp only [Tensor.swapMiddle, Tensor.contiguous, ← hkey, ← hvalue, hquery, hdim', hlong',
      true_and, and_self]
    tauto
  constructor
  · intro hsafe hrouted
    exact (haccepts hrouted).mp (hsafe _ (repercepAmxAttention_kernel.mpr ⟨hrouted, rfl⟩))
  · intro hcond checked hkernel
    obtain ⟨hrouted, hchecked⟩ := repercepAmxAttention_kernel.mp hkernel
    rw [← hchecked]
    exact (haccepts hrouted).mpr (hcond hrouted)

end Bridge

/-! ## Selection and checks -/

/-- When an operator that was chosen for a problem takes it: the FP8 kernels always, the AMX
kernels where the queries are as many as the keys and a multiple of the tile's rows. -/
theorem selection_checked (host : Host) (env : Env) (vendor : Vendor) (shape : AttentionShape)
    (dtype : DType) (call : BridgeCall) :
    (SelectionSafe host env vendor shape dtype ↔
      (AmxSelected host env vendor shape dtype →
        shape.seqLenQ = shape.seqLenKv ∧ shape.seqLenQ ≥ 32 ∧ shape.seqLenQ % 32 = 0)) ∧
    (repercepFp8Attention host env call).Safe ∧
    ((repercepAmxAttention host call).Safe ↔
      (AmxRouted host call → call.query.sizes.s1 % 32 = 0 ∧
        call.key.dtype = .bf16 ∧ call.value.dtype = .bf16)) :=
  ⟨selectionSafe_iff, repercepFp8Attention_safe host env call, repercepAmxAttention_safe_iff⟩

/-- A host with the BF16 kernel alone. -/
def bf16Host : Host where
  amxBf16 := true
  amxInt8 := false
  amxFp16 := false
  nativeBf16 := true
  nativeInt8 := false
  nativeFp16 := false
  fp8FlashAttn := false
  fp8FlashAttnHopper := false
  torch := true
  hip := false
  cuda := false
  float8E4M3Fnuz := false
  scaledGroupedMM := false
  scaledMM := false
  flashAttn := false
  flashAttnInterface := false
  transformerEngine := false
  ipex := false

/-- A sequence of 33, the queries of one image over another, and a long call from diffusers. -/
theorem selection_unchecked :
    ¬ SelectionSafe bf16Host ⟨none, some "1"⟩ .intel ⟨1, 1, 33, 33, 64, .full⟩ .bf16 ∧
    ¬ SelectionSafe bf16Host ⟨none, some "1"⟩ .intel ⟨1, 1, 64, 96, 64, .full⟩ .bf16 ∧
    ¬ (repercepAmxAttention bf16Host
        ⟨⟨⟨1, 4097, 1, 64⟩, .bf16, true⟩, ⟨⟨1, 4097, 1, 64⟩, .bf16, true⟩,
          ⟨⟨1, 4097, 1, 64⟩, .bf16, true⟩, false, 0, false, false, false⟩).Safe := by
  refine ⟨?_, ?_, ?_⟩
  · rw [selectionSafe_iff]
    intro h
    exact absurd (h ⟨rfl, by decide, by decide, .inr (.inr ⟨by decide, rfl, rfl, rfl⟩)⟩)
      (by decide)
  · rw [selectionSafe_iff]
    intro h
    exact absurd (h ⟨rfl, by decide, by decide, .inr (.inr ⟨by decide, rfl, rfl, rfl⟩)⟩)
      (by decide)
  · rw [repercepAmxAttention_safe_iff]
    intro h
    exact absurd (h ⟨rfl, rfl, by decide, by decide, rfl⟩).1 (by decide)

end Repercep.Attention
