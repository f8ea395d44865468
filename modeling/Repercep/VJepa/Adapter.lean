import Mathlib.Algebra.Field.Defs
import Repercep.Foundation.CausalStack
import Repercep.VJepa.Engine
set_option autoImplicit false

/-!
# The action-conditioned predictor and its cache

`_AcPredictorAdapter` of `models/vjepa2_ac.py` for a single session: the full call,
and the incremental `init_cache`, `step_cached`, `append_frame` and `evict` over raw,
unrotated keys and values.  The upstream predictor under it is not in the
repository; `AcPredictor.forward` is what it is assumed to be, a block-causal
transformer over per-frame groups of action, state and patch tokens whose queries
and keys are rotated by absolute frame position.  It is in evaluation mode, so
dropout and `drop_path` do nothing, and arithmetic is exact, so casts do nothing.

A tensor `(1, heads, N, head_dim)` is the list of its `N` tokens, each the list of
its heads.
-/

namespace Repercep.VJepa

open Foundation (view)

/-- A projected token: one vector for each head. -/
abbrev Heads (α : Type) := List (Vec α)

/-- The rotary functions: sine, cosine, and `1.0 / 10000 ** (i / (dim / 2.0))` at
index `i` of a rotation of `dim` entries. -/
structure Rotary (α : Type) where
  sin : α → α
  cos : α → α
  omega : Nat → Nat → α

/-- An attention module, as far as the adapter uses it: any per-token projections,
and the attention of one query over the keys and values it may see. -/
structure Attention (α : Type) where
  numHeads : Nat
  qkv : Vec α → Vec α
  proj : Vec α → Vec α
  sdpa : Vec α → List (Vec α) → List (Vec α) → Vec α
  dDim : Nat
  hDim : Nat
  wDim : Nat
  gridSize : Nat
  /-- `separate_positions` of one id in a grid of the given height and width. -/
  separatePositions : Nat → Nat → Nat → α × α × α

/-- A transformer block. -/
structure PredictorBlock (α : Type) where
  norm1 : Vec α → Vec α
  attn : Attention α
  norm2 : Vec α → Vec α
  mlp : Vec α → Vec α

/-- The upstream predictor. -/
structure AcPredictor (α : Type) where
  predictorEmbed : Vec α → Vec α
  actionEncoder : Vec α → Vec α
  stateEncoder : Vec α → Vec α
  useExtrinsics : Bool
  extrinsicsEncoder : Vec α → Vec α
  predictorBlocks : List (PredictorBlock α)
  predictorNorm : Vec α → Vec α
  predictorProj : Vec α → Vec α
  gridHeight : Nat
  gridWidth : Nat
  rotary : Rotary α

variable {α : Type} [Field α]

/-- `x + y` on one token. -/
def vecAdd (x y : Vec α) : Vec α := List.zipWith (· + ·) x y

/-! ## Rotation -/

/-- `torch.stack((-y2, y1), dim=-1).flatten(-2)` over the pairs of a vector. -/
def rotatePairs : Vec α → Vec α
  | y1 :: y2 :: rest => -y2 :: y1 :: rotatePairs rest
  | _ => []

/-- `_ac_bug_compatible_rope` on one token: the frequencies are tiled, not
interleaved, as the checkpoint was trained. -/
def acBugCompatibleRope (rotary : Rotary α) (x : Vec α) (pos : α) : Vec α :=
  let dim := x.length
  let freq := (List.range (dim / 2)).map fun i => pos * rotary.omega i dim
  let sin := freq.map rotary.sin ++ freq.map rotary.sin
  let cos := freq.map rotary.cos ++ freq.map rotary.cos
  vecAdd (List.zipWith (· * ·) x cos) (List.zipWith (· * ·) (rotatePairs x) sin)

namespace Attention

/-- A conditioning token turns by its frame in the first `d_dim` entries. -/
def rotateCond (attn : Attention α) (rotary : Rotary α) (pos : Nat) (token : Heads α) :
    Heads α :=
  token.map fun head =>
    acBugCompatibleRope rotary (head.take attn.dDim) (pos : α) ++ head.drop attn.dDim

/-- A patch token turns by frame, row and column, each in its own entries; the
spatial positions are scaled to the trained grid. -/
def rotateVisual (attn : Attention α) (rotary : Rotary α) (height width : Nat) (id : Nat)
    (token : Heads α) : Heads α :=
  let (dPos, hPos, wPos) := attn.separatePositions id height width
  let hPos := hPos * (attn.gridSize / height)
  let wPos := wPos * (attn.gridSize / width)
  token.map fun head =>
    let vd := acBugCompatibleRope rotary (head.take attn.dDim) dPos
    let head := head.drop attn.dDim
    let vh := acBugCompatibleRope rotary (head.take attn.hDim) hPos
    let head := head.drop attn.hDim
    let vw := acBugCompatibleRope rotary (head.take attn.wDim) wPos
    vd ++ vh ++ vw ++ head.drop attn.wDim

/-- `_ac_rotate_augmented`: raw queries or keys of `frames` frames, the first of them
at `frameOffset`, grouped by frame into conditioning and patch tokens. -/
def rotateAugmented (attn : Attention α) (rotary : Rotary α) (raw : List (Heads α))
    (frames height width actionTokens frameOffset : Nat) : List (Heads α) :=
  let grouped := view (actionTokens + height * width) frames raw
  let framePos := List.range' frameOffset frames
  let cond := List.zipWith
    (fun pos group => (group.take actionTokens).map (attn.rotateCond rotary pos))
    framePos grouped
  let ids := List.range' (frameOffset * height * width) (frames * (height * width))
  let visual := List.zipWith (attn.rotateVisual rotary height width) ids
    (grouped.map (List.drop actionTokens)).flatten
  (List.zipWith (· ++ ·) cond (view (height * width) frames visual)).flatten

/-- `_ac_raw_qkv` on one token: the fused projection split into query, key and value
of every head, unrotated. -/
def rawQkv (attn : Attention α) (x : Vec α) : Heads α × Heads α × Heads α :=
  let qkv := attn.qkv x
  let headDim := qkv.length / (3 * attn.numHeads)
  let part (i : Nat) : Heads α := (List.range attn.numHeads).map fun head =>
    (qkv.drop ((i * attn.numHeads + head) * headDim)).take headDim
  (part 0, part 1, part 2)

/-- Attention of one query token over key and value tokens, head by head. -/
def attend (attn : Attention α) (q : Heads α) (k v : List (Heads α)) : Heads α :=
  q.mapIdx fun head query =>
    attn.sdpa query (k.map fun token => token.getD head []) (v.map fun token => token.getD head [])

end Attention

namespace PredictorBlock

/-- The query of a token, before the rotation. -/
def rawQuery (block : PredictorBlock α) (x : Vec α) : Heads α :=
  (block.attn.rawQkv (block.norm1 x)).1

/-- The key of a token, before the rotation. -/
def rawKey (block : PredictorBlock α) (x : Vec α) : Heads α :=
  (block.attn.rawQkv (block.norm1 x)).2.1

/-- The value of a token. -/
def rawValue (block : PredictorBlock α) (x : Vec α) : Heads α :=
  (block.attn.rawQkv (block.norm1 x)).2.2

/-- The two residual updates of a token with its attention output. -/
def residual (block : PredictorBlock α) (x : Vec α) (y : Heads α) : Vec α :=
  let x := vecAdd x (block.attn.proj y.flatten)
  vecAdd x (block.mlp (block.norm2 x))

end PredictorBlock

namespace AcPredictor

/-- Conditioning tokens per frame. -/
def actionTokens (p : AcPredictor α) : Nat := if p.useExtrinsics then 3 else 2

/-! ## The upstream forward, as assumed -/

/-- The rotation of the token in a slot of a frame. -/
def rotateToken (p : AcPredictor α) (attn : Attention α) (frame slot : Nat)
    (token : Heads α) : Heads α :=
  if slot < p.actionTokens then attn.rotateCond p.rotary frame token
  else attn.rotateVisual p.rotary p.gridHeight p.gridWidth
    (frame * p.gridHeight * p.gridWidth + (slot - p.actionTokens)) token

/-- The rotation of whole frames, the first of them at `frameOffset`. -/
def rotateFrames (p : AcPredictor α) (attn : Attention α) (frameOffset : Nat)
    (frames : List (List (Heads α))) : List (List (Heads α)) :=
  frames.mapIdx fun frame tokens =>
    tokens.mapIdx fun slot token => p.rotateToken attn (frameOffset + frame) slot token

/-- A block on one frame: every token of the frame attends to all tokens of the frame
and of those before it. -/
def blockFrame (p : AcPredictor α) (block : PredictorBlock α)
    (prior : List (List (Vec α))) (frame : List (Vec α)) : List (Vec α) :=
  let seen := prior ++ [frame]
  let keys := (p.rotateFrames block.attn 0 (seen.map (List.map block.rawKey))).flatten
  let values := seen.flatten.map block.rawValue
  frame.mapIdx fun slot x =>
    let q := p.rotateToken block.attn prior.length slot (block.rawQuery x)
    block.residual x (block.attn.attend q keys values)

/-- A block on the frames after those given. -/
def blockFrames (p : AcPredictor α) (block : PredictorBlock α) :
    List (List (Vec α)) → List (List (Vec α)) → List (List (Vec α))
  | _, [] => []
  | prior, frame :: frames =>
      p.blockFrame block prior frame :: blockFrames p block (prior ++ [frame]) frames

/-- A block on the flat tokens of `frames` frames. -/
def blockForward (p : AcPredictor α) (block : PredictorBlock α) (x : List (Vec α))
    (frames : Nat) : List (Vec α) :=
  (p.blockFrames block [] (view (p.actionTokens + p.gridHeight * p.gridWidth) frames x)).flatten

/-- The token group of a frame: action, state, extrinsics where there are any, and the
embedded patches. -/
def frameTokens (p : AcPredictor α) (action state : Vec α) (extrinsics : Option (Vec α))
    (visual : List (Vec α)) : List (Vec α) :=
  p.actionEncoder action :: p.stateEncoder state ::
    (extrinsics.map p.extrinsicsEncoder).toList ++ visual

/-- The blocks, one after the other. -/
def runBlocks (p : AcPredictor α) (x : List (Vec α)) (frames : Nat) : List (Vec α) :=
  p.predictorBlocks.foldl (fun x block => p.blockForward block x frames) x

/-- `forward(x, actions, states)`.  A predictor with extrinsics needs them as a further
argument, which its caller here never gives. -/
def forward (p : AcPredictor α) (x : List (Vec α)) (actions states : List (Vec α)) :
    Option (List (Vec α)) :=
  let patches := p.gridHeight * p.gridWidth
  let frames := x.length / patches
  if p.useExtrinsics || x.length % patches != 0 then none
  else
    let visual := view patches frames (x.map p.predictorEmbed)
    let tokens := (List.zipWith (fun actionState rows =>
      p.frameTokens actionState.1 actionState.2 none rows) (actions.zip states) visual).flatten
    let out := view (p.actionTokens + patches) frames (p.runBlocks tokens frames)
    some ((out.map (List.drop p.actionTokens)).flatten.map
      fun token => p.predictorProj (p.predictorNorm token))

end AcPredictor

/-! ## The adapter -/

/-- `_AcKVCache`: raw keys and values of the frames processed with zero actions, layer
by layer, and the newest frame while it is pending. -/
structure AcKVCache (α : Type) where
  layerKv : List (List (Heads α) × List (Heads α))
  processedFrames : Nat
  pending : Option (Block α)

/-- `_AcPredictorAdapter` over a loaded predictor, whose grid has the patch tokens of
one frame. -/
structure AcPredictorAdapter (α : Type) where
  predictor : AcPredictor α
  p : Nat
  adim : Nat
  grid : p = predictor.gridHeight * predictor.gridWidth
  patches : 0 < p

namespace AcPredictorAdapter

variable (a : AcPredictorAdapter α)

/-- `new_zeros` of one action. -/
def zeros : Vec α := List.replicate a.adim 0

/-- Assigning an action to its row of `adim` entries: one entry is broadcast, another
width raises. -/
def actionRow (action : Vec α) : Option (Vec α) :=
  if action.length = a.adim then some action
  else
    match action with
    | [entry] => some (List.replicate a.adim entry)
    | _ => none

/-- `__call__`: zero actions for all frames but the last.  Without a frame the
assignment to the last row raises. -/
def call (context : Block α) (action : Vec α) : Option (Block α) :=
  let frames := context.length / a.p
  if frames = 0 then none
  else do
    let last ← a.actionRow action
    let actions := List.replicate (frames - 1) a.zeros ++ [last]
    let states := List.replicate frames a.zeros
    let tokens ← a.predictor.forward context actions states
    some (lastRows a.p tokens)

/-- The capture loop of `_encode_zero_action_prefix`: the raw keys and values of every
layer's input, and the ordinary block on it. -/
def captureLayers (frames : Nat) :
    List (PredictorBlock α) → List (Vec α) → List (List (Heads α) × List (Heads α))
  | [], _ => []
  | block :: blocks, x =>
      (x.map block.rawKey, x.map block.rawValue) ::
        captureLayers frames blocks (a.predictor.blockForward block x frames)

/-- `_encode_zero_action_prefix`. -/
def encodeZeroActionPrefix (visual : Block α) : List (List (Heads α) × List (Heads α)) :=
  let frames := visual.length / a.p
  let extrinsics := if a.predictor.useExtrinsics then some a.zeros.dropLast else none
  let groups := view a.p frames (visual.map a.predictor.predictorEmbed)
  let x := (groups.map (a.predictor.frameTokens a.zeros a.zeros extrinsics)).flatten
  a.captureLayers frames a.predictor.predictorBlocks x

/-- `init_cache`: every frame but the trailing one is cached. -/
def initCache (context : Block α) : Option (AcKVCache α) :=
  let frames := context.length / a.p
  if context.length % a.p ≠ 0 then none
  else if frames < 1 then none
  else
    let pending := lastRows a.p context
    let visual := context.take (context.length - a.p)
    if frames = 1 then
      some { layerKv := a.predictor.predictorBlocks.map fun _ => ([], [])
             processedFrames := 0
             pending := some pending }
    else
      some { layerKv := a.encodeZeroActionPrefix visual
             processedFrames := frames - 1
             pending := some pending }

/-- The layer loop of `_advance_pending`: one frame of queries against the cached and
the new keys, all rotated afresh. -/
def advanceLayers (processedFrames : Nat) :
    List (PredictorBlock α) → List (List (Heads α) × List (Heads α)) → List (Vec α) →
      Option (List (Vec α) × List (List (Heads α) × List (Heads α)))
  | [], _, x => some (x, [])
  | _ :: _, [], _ => none
  | block :: blocks, (kOld, vOld) :: layers, x => do
      let kNew := x.map block.rawKey
      let vNew := x.map block.rawValue
      let kOld := if processedFrames = 0 then [] else kOld
      let vOld := if processedFrames = 0 then [] else vOld
      let p := a.predictor
      let q := block.attn.rotateAugmented p.rotary (x.map block.rawQuery) 1
        p.gridHeight p.gridWidth p.actionTokens processedFrames
      let kAllRaw := kOld ++ kNew
      let vAll := vOld ++ vNew
      let kAll := block.attn.rotateAugmented p.rotary kAllRaw (processedFrames + 1)
        p.gridHeight p.gridWidth p.actionTokens 0
      let y := q.map fun query => block.attn.attend query kAll vAll
      let x := List.zipWith block.residual x y
      let (x, extended) ← advanceLayers processedFrames blocks layers x
      some (x, (kAllRaw, vAll) :: extended)

/-- `_advance_pending`. -/
def advancePending (cache : AcKVCache α) (action : Vec α) : Option (Block α × AcKVCache α) := do
  let visual ← cache.pending
  let state := List.replicate action.length (0 : α)
  let extrinsics := if a.predictor.useExtrinsics then some state.dropLast else none
  let x := a.predictor.frameTokens action state extrinsics
    (visual.map a.predictor.predictorEmbed)
  let (x, extended) ← a.advanceLayers cache.processedFrames a.predictor.predictorBlocks
    cache.layerKv x
  let visualOut := (x.drop a.predictor.actionTokens).map
    fun token => a.predictor.predictorProj (a.predictor.predictorNorm token)
  some (visualOut,
    { layerKv := extended, processedFrames := cache.processedFrames + 1, pending := none })

/-- `step_cached`: predict from the pending frame under the action, then commit the
frame under a zero action. -/
def stepCached (cache : AcKVCache α) (action : Vec α) : Option (Block α × AcKVCache α) := do
  let (predicted, _) ← a.advancePending cache action
  let (_, committed) ← a.advancePending cache (List.replicate action.length 0)
  some (predicted, committed)

/-- `append_frame`. -/
def appendFrame (cache : AcKVCache α) (normedBlock : Block α) : Option (AcKVCache α) :=
  if cache.pending.isSome then none
  else if normedBlock.length ≠ a.p then none
  else some { cache with pending := some normedBlock }

/-- `evict`: the oldest completed frame after the sinks is cut out of every layer.  Sinks
that leave no frame to evict raise. -/
def evict (cache : AcKVCache α) (sinkFrames : Nat) : Option (AcKVCache α) :=
  if cache.processedFrames ≤ sinkFrames then none
  else
    let block := a.predictor.actionTokens + a.p
    let start := sinkFrames * block
    let stop := start + block
    some { cache with
      layerKv := cache.layerKv.map fun kv =>
        (kv.1.take start ++ kv.1.drop stop, kv.2.take start ++ kv.2.drop stop)
      processedFrames := cache.processedFrames - 1 }

/-! ## Rollouts in the growing window -/

/-- The predicted frames when each step calls the adapter on the whole grown context;
`norm` is the engine's row norm of a prediction before it is appended. -/
def recomputed (norm : Vec α → Vec α) : Block α → List (Vec α) → Option (List (Block α))
  | _, [] => some []
  | context, action :: actions => do
      let nxt ← a.call context action
      let rest ← recomputed norm (context ++ nxt.map norm) actions
      some (nxt :: rest)

/-- The predicted frames from a cache on. -/
def rolledOut (norm : Vec α → Vec α) : AcKVCache α → List (Vec α) → Option (List (Block α))
  | _, [] => some []
  | cache, action :: actions => do
      let (nxt, staged) ← a.stepCached cache action
      let grown ← a.appendFrame staged (nxt.map norm)
      let rest ← rolledOut norm grown actions
      some (nxt :: rest)

/-- The predicted frames computed incrementally. -/
def incremental (norm : Vec α → Vec α) (context : Block α) (actions : List (Vec α)) :
    Option (List (Block α)) := do
  let cache ← a.initCache context
  a.rolledOut norm cache actions

end AcPredictorAdapter

end Repercep.VJepa
