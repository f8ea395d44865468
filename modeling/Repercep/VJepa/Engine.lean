import Repercep.Foundation.Paired
import Repercep.Foundation.Machine
set_option autoImplicit false

/-!
# The V-JEPA 2-AC engine

`VJepa2ACEngine` of `models/vjepa2_ac.py`: `reset`, `step`, `plan` and `release`,
the per-session predictor cache and its eviction policy, and the cross-entropy
planner with its three ways of scoring candidates.  The encoder and the
predictor are loaded; what the encoder returned for a `reset` and the session
name `uuid4` drew are inputs of the call.

Tensors are lists: a context is its patch-token rows, a candidate batch the list
of its samples.  The torch operations on entries (sums, norms, the elite
statistics, `topk`, `randn`) are parameters in `Torch`; casts between dtypes and
devices leave the values as they are.
-/

namespace Repercep.VJepa

open Foundation (Effect Machine)
open Foundation.Effect (ofOption)

/-- One row of a tensor: an embedding, or an action vector. -/
abbrev Vec (α : Type) := List α

/-- The patch-token rows of some frames. -/
abbrev Block (α : Type) := List (Vec α)

/-- An action sequence, `(H, A)`. -/
abbrev Sequence (α : Type) := List (Vec α)

/-- The id of a session. -/
abbrev SessionId := String

/-- `kv_evict_policy`. -/
inductive EvictPolicy where
  | reinit
  | slide
  deriving DecidableEq, Repr

/-- The fields of `VJepa2ACConfig` the rollout and the planner read, with their
defaults. -/
structure Config where
  contextFrames : Nat := 8
  planSamples : Nat := 64
  planElites : Nat := 8
  planIters : Nat := 3
  actionDim : Nat := 7
  planWarmStart : Bool := true
  planBatched : Bool := true
  useKvCache : Bool := true
  resetContextFrames : Option Nat := none
  kvEvictPolicy : EvictPolicy := .reinit
  kvSinkFrames : Nat := 0
  planBatchedKv : Bool := false

/-- The torch operations on tensor entries that the engine uses. -/
structure Torch (α Rng : Type) where
  zero : α
  one : α
  add : α → α → α
  mul : α → α → α
  /-- `F.layer_norm` of one row. -/
  layerNorm : Vec α → Vec α
  /-- `vector_norm(terminal - goal)` over the rows of one terminal frame. -/
  distance : Block α → Block α → α
  /-- `topk(energies, k, largest=False).indices`; raises when `k` is too large. -/
  smallest : List α → Nat → Option (List Nat)
  /-- `elite.mean(dim=0)`. -/
  mean : List (Sequence α) → Sequence α
  /-- `elite.std(dim=0).clamp_min(1e-6)`. -/
  std : List (Sequence α) → Sequence α
  /-- `randn(samples, horizon, action_dim)` from the generator. -/
  randn : Rng → Nat → Nat → Nat → List (Sequence α) × Rng

/-- What a predictor returns: a single embedding `(D,)` or a block `(P, D)`. -/
inductive Prediction (α : Type) where
  | embedding (row : Vec α)
  | block (rows : Block α)

/-- `nxt if nxt.ndim == 2 else nxt.unsqueeze(0)`. -/
def Prediction.rows {α : Type} : Prediction α → Block α
  | .embedding row => [row]
  | .block rows => rows

/-- A predictor: the `_Predictor` call on one sample and on a candidate batch, the
`_CachedPredictor` methods on both, and the two attributes the engine looks up.
`none` is a raise. -/
structure Predictor (α Cache : Type) where
  call : Block α → Vec α → Option (Prediction α)
  callBatch : List (Block α) → List (Vec α) → Option (List (Block α))
  supportsBatch : Bool
  supportsKvCache : Bool
  initCache : Block α → Option Cache
  stepCached : Cache → Vec α → Option (Prediction α × Cache)
  stepCachedBatch : Cache → List (Vec α) → Option (List (Block α) × Cache)
  appendFrame : Cache → Block α → Option Cache
  appendFrameBatch : Cache → List (Block α) → Option Cache
  evict : Cache → Nat → Option Cache

/-- `_CacheEntry`: a session's cache and the context it is synchronized to. -/
structure CacheEntry (α Cache : Type) where
  cache : Cache
  lastContext : Block α

/-- What calls change: `_plan_mean`, `_kv_cache` and the generator of `randn`. -/
structure EngineState (α Cache Rng : Type) where
  planMean : SessionId → Option (Sequence α)
  kvCache : SessionId → Option (CacheEntry α Cache)
  rng : Rng

/-- `WorldState`. -/
structure WorldState (α : Type) where
  context : Block α
  stepIndex : Nat
  sessionId : SessionId
  deriving DecidableEq

/-- The field of `LatentStep` that a step fills; `energy` and `frame` stay `None`. -/
structure LatentStep where
  stepIndex : Nat
  deriving DecidableEq

/-- `Action`. -/
structure Action (α : Type) where
  values : Vec α
  space : String
  deriving DecidableEq

/-- `Action(values=..., space=...)`, which refuses an empty vector. -/
def Action.make {α : Type} (values : Vec α) (space : String) : Option (Action α) :=
  if values.isEmpty then none else some { values := values, space := space }

/-- What `get_vision_features` returned: rows, or rows under a batch axis. -/
inductive Features (α : Type) where
  | rows (context : Block α)
  | batched (samples : List (Block α))

/-- `_as_context`: a leading batch axis is squeezed. -/
def asContext {α : Type} : Features α → Option (Block α)
  | .rows context => some context
  | .batched samples => samples.head?

/-- `rows[-keep:]`; a zero `keep` selects every row. -/
def lastRows {β : Type} (keep : Nat) (rows : List β) : List β :=
  if keep = 0 then rows else rows.drop (rows.length - keep)

/-- `_same_tensor`: equal shapes and `torch.equal`, entry by entry. -/
def sameTensor {α : Type} [BEq α] (a b : Block α) : Bool :=
  a.map List.length == b.map List.length && a == b

/-- The constant part of an engine. -/
structure Engine (α Cache Rng : Type) where
  config : Config
  predictor : Predictor α Cache
  torch : Torch α Rng
  tokensPerFrame : Nat
  normalizeReps : Bool

section Engine

variable {α Cache Rng : Type}

namespace Engine

/-- `_maybe_norm`. -/
def maybeNorm (e : Engine α Cache Rng) (reps : Block α) : Block α :=
  if e.normalizeReps then reps.map e.torch.layerNorm else reps

/-- `int(context.shape[0]) // self._tokens_per_frame`. -/
def framesNow (e : Engine α Cache Rng) (context : Block α) : Nat :=
  context.length / e.tokensPerFrame

/-- `reset`, after the encoder call: the last frames of the features, normed. -/
def reset (e : Engine α Cache Rng) (features : Features α) (sessionId : SessionId) :
    Effect (EngineState α Cache Rng) (WorldState α) := do
  let seedFrames :=
    match e.config.resetContextFrames with
    | none => e.config.contextFrames
    | some 0 => e.config.contextFrames
    | some frames => frames
  let keep := min seedFrames e.config.contextFrames * e.tokensPerFrame
  let rows ← ofOption (asContext features)
  pure { context := e.maybeNorm (lastRows keep rows), stepIndex := 0, sessionId := sessionId }

/-! ### One latent step -/

/-- Whether the session's entry is in sync with the incoming context. -/
def inSync [BEq α] (entry : Option (CacheEntry α Cache)) (context : Block α) : Bool :=
  match entry with
  | none => false
  | some entry => sameTensor entry.lastContext context

/-- `self._kv_cache.pop(session_id, None)`. -/
def dropCache (sessionId : SessionId) : Effect (EngineState α Cache Rng) PUnit :=
  modify fun s => { s with kvCache := Function.update s.kvCache sessionId none }

/-- `self._kv_cache[session_id] = ...`. -/
def keepCache (sessionId : SessionId) (entry : CacheEntry α Cache) :
    Effect (EngineState α Cache Rng) PUnit :=
  modify fun s => { s with kvCache := Function.update s.kvCache sessionId (some entry) }

/-- The session's cache when it is in sync with the context, else a fresh one. -/
def cacheFor [BEq α] (e : Engine α Cache Rng) (entry : Option (CacheEntry α Cache))
    (context : Block α) : Option Cache :=
  match entry with
  | none => e.predictor.initCache context
  | some entry =>
      if sameTensor entry.lastContext context then some entry.cache
      else e.predictor.initCache context

/-- `_step_cached`: predict only; the returned cache is not durably advanced yet. -/
def stepCached [BEq α] (e : Engine α Cache Rng) (state : WorldState α) (action : Vec α) :
    Effect (EngineState α Cache Rng) (Prediction α × Cache) := do
  let s ← get
  let cache ← ofOption (e.cacheFor (s.kvCache state.sessionId) state.context)
  ofOption (e.predictor.stepCached cache action)

/-- `_sync_kv_cache`: append the normed frame and apply the eviction policy; the
window is full by the frames *before* the append. -/
def syncKvCache (e : Engine α Cache Rng) (state : WorldState α) (sessionId : SessionId)
    (newContext : Block α) (cache : Cache) (normedBlock : Block α) :
    Effect (EngineState α Cache Rng) PUnit := do
  let windowFull := decide (e.config.contextFrames ≤ e.framesNow state.context)
  if windowFull && e.config.kvEvictPolicy == .reinit then
    dropCache sessionId
  else
    let appended ← ofOption (e.predictor.appendFrame cache normedBlock)
    let kept ←
      if windowFull && e.config.kvEvictPolicy == .slide then
        ofOption (e.predictor.evict appended e.config.kvSinkFrames)
      else pure appended
    keepCache sessionId { cache := kept, lastContext := newContext }

/-- The state after a predicted frame: append the block, cap to the window. -/
def advance (e : Engine α Cache Rng) (state : WorldState α) (block : Block α) : WorldState α where
  context := lastRows (e.config.contextFrames * e.tokensPerFrame) (state.context ++ block)
  stepIndex := state.stepIndex + 1
  sessionId := state.sessionId

/-- What a step returns for a predicted frame. -/
def stepped (e : Engine α Cache Rng) (state : WorldState α) (nxt : Prediction α) :
    WorldState α × LatentStep :=
  let newState := e.advance state (e.maybeNorm nxt.rows)
  (newState, { stepIndex := newState.stepIndex })

/-- The path `step` takes: by the cache where it may and the window is not yet
full, the policy slides, or the cache is in sync. -/
def cachedPath [BEq α] (e : Engine α Cache Rng) (entry : Option (CacheEntry α Cache))
    (context : Block α) : Bool :=
  e.config.useKvCache && e.predictor.supportsKvCache &&
    (e.config.kvEvictPolicy == .slide || decide (e.framesNow context < e.config.contextFrames) ||
      inSync entry context)

/-- `step`. -/
def step [BEq α] (e : Engine α Cache Rng) (state : WorldState α) (action : Action α) :
    Effect (EngineState α Cache Rng) (WorldState α × LatentStep) := do
  let cacheCapable := e.config.useKvCache && e.predictor.supportsKvCache
  let s ← get
  let cached := e.cachedPath (s.kvCache state.sessionId) state.context
  if cacheCapable && !cached then
    dropCache state.sessionId
  if cached then
    let (nxt, cache) ← e.stepCached state action.values
    let (newState, result) := e.stepped state nxt
    e.syncKvCache state newState.sessionId newState.context cache (e.maybeNorm nxt.rows)
    pure (newState, result)
  else
    let nxt ← ofOption (e.predictor.call state.context action.values)
    pure (e.stepped state nxt)

/-! ### Planning -/

/-- The terminal frame of a context. -/
def terminal (e : Engine α Cache Rng) (context : Block α) : Block α :=
  lastRows e.tokensPerFrame context

/-- `_rollout_energy`: roll the sequence out by `step` and score the last frame. -/
def rolloutEnergy [BEq α] (e : Engine α Cache Rng) (state : WorldState α) (goal : Block α)
    (sequence : Sequence α) : Effect (EngineState α Cache Rng) α := do
  let rolled ← sequence.foldlM
    (fun rolled values => do
      let action ← ofOption (Action.make values "raw")
      let (next, _) ← e.step rolled action
      pure next) state
  pure (e.torch.distance (e.terminal rolled.context) goal)

/-- `seqs[:, t]`. -/
def actionsAt (seqs : List (Sequence α)) (t : Nat) : List (Vec α) :=
  seqs.map fun sequence => sequence.getD t []

/-- One timestep of `_rollout_energy_batched`. -/
def batchStep (e : Engine α Cache Rng) (seqs : List (Sequence α)) (contexts : List (Block α))
    (t : Nat) : Option (List (Block α)) := do
  let blocks ← e.predictor.callBatch contexts (actionsAt seqs t)
  pure ((List.zipWith (fun context block => context ++ e.maybeNorm block) contexts blocks).map
    (lastRows (e.config.contextFrames * e.tokensPerFrame)))

/-- `_rollout_energy_batched`. -/
def rolloutEnergyBatched (e : Engine α Cache Rng) (state : WorldState α)
    (seqs : List (Sequence α)) (horizon : Nat) (goal : Block α) : Option (List α) := do
  let contexts ← (List.range horizon).foldlM (e.batchStep seqs)
    (List.replicate seqs.length state.context)
  pure (contexts.map fun context => e.torch.distance (e.terminal context) goal)

/-- One timestep of `_rollout_energy_batched_cached`: the last normed frames and the
cache they were appended to. -/
def cachedBatchStep (e : Engine α Cache Rng) (seqs : List (Sequence α))
    (rolled : Option (List (Block α)) × Cache) (t : Nat) :
    Option (Option (List (Block α)) × Cache) := do
  let (predicted, staged) ← e.predictor.stepCachedBatch rolled.2 (actionsAt seqs t)
  let terminal := predicted.map e.maybeNorm
  let grown ← e.predictor.appendFrameBatch staged terminal
  pure (some terminal, grown)

/-- `_rollout_energy_batched_cached`: `none` is a raise, `some none` the `None` that
sends the caller to the plain batched path.  Without a predicted frame the
assertion fails. -/
def rolloutEnergyBatchedCached (e : Engine α Cache Rng) (state : WorldState α)
    (seqs : List (Sequence α)) (horizon : Nat) (goal : Block α) : Option (Option (List α)) :=
  if !e.predictor.supportsKvCache then some none
  else if e.config.contextFrames < e.framesNow state.context + horizon then some none
  else do
    let cache ← e.predictor.initCache state.context
    let (last, _) ← (List.range horizon).foldlM (e.cachedBatchStep seqs) (none, cache)
    let terminal ← last
    pure (some (terminal.map fun frame => e.torch.distance frame goal))

/-- `torch.stack`, which raises on an empty list. -/
def stack (energies : List α) : Option (List α) :=
  if energies.isEmpty then none else some energies

/-- `_candidate_energies`. -/
def candidateEnergies [BEq α] (e : Engine α Cache Rng) (state : WorldState α)
    (seqs : List (Sequence α)) (horizon : Nat) (goal : Block α) :
    Effect (EngineState α Cache Rng) (List α) := do
  if e.config.planBatched && e.predictor.supportsBatch then
    if e.config.planBatchedKv && e.config.useKvCache then
      match ← ofOption (e.rolloutEnergyBatchedCached state seqs horizon goal) with
      | some energies => pure energies
      | none => ofOption (e.rolloutEnergyBatched state seqs horizon goal)
    else ofOption (e.rolloutEnergyBatched state seqs horizon goal)
  else
    let energies ← seqs.mapM (e.rolloutEnergy state goal)
    ofOption (stack energies)

/-- `_warm_start_mean`: the previous solution shifted one step, else zeros. -/
def warmStartMean (e : Engine α Cache Rng) (sessionId : SessionId) (horizon : Nat) :
    Effect (EngineState α Cache Rng) (Sequence α) := do
  let s ← get
  let zeros := List.replicate horizon (List.replicate e.config.actionDim e.torch.zero)
  match if e.config.planWarmStart then s.planMean sessionId else none with
  | none => pure zeros
  | some prev =>
      if prev.length = horizon ∧ ∀ row ∈ prev, row.length = e.config.actionDim then
        pure (prev.drop 1 ++ lastRows 1 prev)
      else pure zeros

/-- One `randn` draw. -/
def drawNoise (e : Engine α Cache Rng) (horizon : Nat) :
    Effect (EngineState α Cache Rng) (List (Sequence α)) := do
  let s ← get
  let (noise, rng) := e.torch.randn s.rng e.config.planSamples horizon e.config.actionDim
  modify fun s => { s with rng := rng }
  pure noise

/-- `mean + std * noise` for one candidate. -/
def candidate (e : Engine α Cache Rng) (mean std noise : Sequence α) : Sequence α :=
  List.zipWith (List.zipWith e.torch.add) mean
    (List.zipWith (List.zipWith e.torch.mul) std noise)

/-- The refinement loop of `_plan_sequence`, with the iterations still to run. -/
def refine [BEq α] (e : Engine α Cache Rng) (state : WorldState α) (goal : Block α) (horizon : Nat) :
    Nat → Sequence α → Sequence α → Effect (EngineState α Cache Rng) (Sequence α)
  | 0, mean, _ => pure mean
  | iters + 1, mean, std => do
      let noise ← e.drawNoise horizon
      let seqs := noise.map (e.candidate mean std)
      let energies ← e.candidateEnergies state seqs horizon goal
      let eliteIdx ← ofOption (e.torch.smallest energies e.config.planElites)
      let elite := eliteIdx.filterMap fun i => seqs[i]?
      e.refine state goal horizon iters (e.torch.mean elite) (e.torch.std elite)

/-- `_plan_sequence`. -/
def planSequence [BEq α] (e : Engine α Cache Rng) (state : WorldState α) (goal : Block α)
    (horizon : Nat) : Effect (EngineState α Cache Rng) (Sequence α) := do
  let mean ← e.warmStartMean state.sessionId horizon
  let ones := mean.map fun row => row.map fun _ => e.torch.one
  let mean ← e.refine state goal horizon e.config.planIters mean ones
  if e.config.planWarmStart then
    modify fun s => { s with planMean := Function.update s.planMean state.sessionId (some mean) }
  pure mean

/-- `plan`: the first action of the best sequence; indexing an empty one raises. -/
def plan [BEq α] (e : Engine α Cache Rng) (state : WorldState α) (goal : Block α) (horizon : Nat) :
    Effect (EngineState α Cache Rng) (Action α) := do
  let sequence ← e.planSequence state goal horizon
  let first ← ofOption sequence.head?
  ofOption (Action.make first "ee_delta")

/-- `release`. -/
def release (sessionId : SessionId) : Effect (EngineState α Cache Rng) PUnit :=
  modify fun s =>
    { s with
      kvCache := Function.update s.kvCache sessionId none
      planMean := Function.update s.planMean sessionId none }

end Engine

/-! ## Runs of calls -/

/-- A call on the engine. -/
inductive Call (α : Type) where
  | reset (features : Features α) (sessionId : SessionId)
  | step (state : WorldState α) (action : Action α)
  | plan (state : WorldState α) (goal : Block α) (horizon : Nat)
  | release (state : WorldState α)

/-- What a call returned. -/
inductive Answer (α : Type) where
  | seeded (state : WorldState α)
  | stepped (state : WorldState α) (result : LatentStep)
  | planned (action : Action α)
  | released
  deriving DecidableEq

/-- A call and its answer. -/
def Engine.perform [BEq α] (e : Engine α Cache Rng) :
    Call α → Effect (EngineState α Cache Rng) (Answer α)
  | .reset features sessionId => do
      let state ← e.reset features sessionId
      pure (.seeded state)
  | .step state action => do
      let (newState, result) ← e.step state action
      pure (.stepped newState result)
  | .plan state goal horizon => do
      let action ← e.plan state goal horizon
      pure (.planned action)
  | .release state => do
      Engine.release state.sessionId
      pure .released

/-- The engine under a sequence of calls, from a fresh `__init__`: each call emits
its answer, `none` for a raise. -/
def Engine.machine [BEq α] (e : Engine α Cache Rng) (rng : Rng) :
    Machine (EngineState α Cache Rng) (Call α) (Option (Answer α)) where
  init := { planMean := fun _ => none, kvCache := fun _ => none, rng := rng }
  step s call :=
    let (answer, t) := (e.perform call).outcome s
    some ([answer], t)

end Engine

end Repercep.VJepa
