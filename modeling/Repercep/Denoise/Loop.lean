import Repercep.Foundation.Machine
set_option autoImplicit false

/-!
# Denoising: the loop and its cache gate

The model of `_denoise_impl` in `runtime/denoise.py`, from the first step of the loop on.
The parts of the pipe are parameters with a state of their own: what scales the model
input, the transformer (one batched forward or two, as `cfg_batched` has it), the relative
L1 distance, and the two scheduler calls around the guidance that move the latents.

Python's float is `Float`; a step of the loop is a step of a machine, with the timestep as
its label and what the step did as its event.
-/

namespace Repercep.Denoise

open Repercep.Foundation

/-- `cache_mode`. -/
inductive CacheMode where
  | none
  | fixed
  | adaptive
  deriving DecidableEq, Repr

/-- The `cache_…` arguments. -/
structure CacheSettings where
  mode : CacheMode
  skipEvery : Int
  warmupSteps : Int
  adaptiveThreshold : Float
  forceFullEvery : Int

/-- `effective_mode`: a cadence without a mode means the fixed one. -/
def CacheSettings.effectiveMode (c : CacheSettings) : CacheMode :=
  if c.mode = .none ∧ 2 ≤ c.skipEvery then .fixed else c.mode

/-- `DenoiseStats`. -/
structure DenoiseStats where
  fullForwards : Nat
  skipped : Nat
  relL1History : List Float
  skipReasons : List String

/-- `DenoiseStats()`. -/
def DenoiseStats.new : DenoiseStats where
  fullForwards := 0
  skipped := 0
  relL1History := []
  skipReasons := []

/-- What the loop calls: `S` is the state of the pipe, `T` a timestep, `L` the latents, `X`
a model input and `N` a noise prediction. -/
structure Pipe (S T L X N : Type) where
  scaleModelInput : S → L → T → X × S
  forward : S → X → T → N × S
  relL1 : X → X → Float
  advance : S → N → T → L → L × S

/-- What a step did. -/
structure StepRecord (X N : Type) where
  input : X
  skipped : Bool
  skipReason : String
  relL1Value : Float
  noisePred : N

/-- The variables of the loop. -/
structure LoopState (S L X N : Type) where
  pipe : S
  latents : L
  stepIdx : Nat
  cachedNoisePred : Option N
  lastFullInput : Option X
  accumulatedRelL1 : Float
  stepsSinceFull : Nat
  stats : Option DenoiseStats

/-- What the gate decides, with the accumulator it leaves. -/
structure Verdict where
  shouldSkip : Bool
  skipReason : String
  relL1Value : Float
  accumulatedRelL1 : Float

variable {S T L X N : Type}

/-- The gate of one step; `none` when its assertion on `last_full_input` fails. -/
def gate (relL1 : X → X → Float) (c : CacheSettings) (totalSteps : Nat)
    (s : LoopState S L X N) (input : X) : Option Verdict :=
  let inWarmup := decide ((s.stepIdx : Int) < c.warmupSteps)
  let isLast := decide (s.stepIdx + 1 = totalSteps)
  match c.effectiveMode with
  | .none => some ⟨false, "full", 0.0, s.accumulatedRelL1⟩
  | .fixed =>
      let shouldSkip := decide (2 ≤ c.skipEvery) && decide (c.warmupSteps ≤ s.stepIdx) &&
        s.cachedNoisePred.isSome && decide ((s.stepIdx - c.warmupSteps) % c.skipEvery ≠ 0)
      some ⟨shouldSkip, if shouldSkip then "fixed_skip" else "fixed_full", 0.0,
        s.accumulatedRelL1⟩
  | .adaptive =>
      if inWarmup || isLast || s.cachedNoisePred.isNone then
        let skipReason :=
          if s.cachedNoisePred.isNone && !inWarmup then "no_cache_yet"
          else if inWarmup then "warmup" else "last_step"
        some ⟨false, skipReason, 0.0, s.accumulatedRelL1⟩
      else if 0 < c.forceFullEvery ∧ c.forceFullEvery ≤ s.stepsSinceFull then
        some ⟨false, "force_floor", 0.0, s.accumulatedRelL1⟩
      else
        match s.lastFullInput with
        | none => none
        | some lastFullInput =>
            let relL1Value := relL1 input lastFullInput
            let accumulatedRelL1 := s.accumulatedRelL1 + relL1Value
            if accumulatedRelL1 < c.adaptiveThreshold then
              some ⟨true, "adaptive_skip", relL1Value, accumulatedRelL1⟩
            else some ⟨false, "accumulator_over_threshold", relL1Value, accumulatedRelL1⟩

/-- The lines of a step that write to `stats`. -/
def DenoiseStats.record (st : DenoiseStats) (r : StepRecord X N) : DenoiseStats where
  fullForwards := if r.skipped then st.fullForwards else st.fullForwards + 1
  skipped := if r.skipped then st.skipped + 1 else st.skipped
  relL1History := st.relL1History ++ [r.relL1Value]
  skipReasons := st.skipReasons ++ [r.skipReason]

/-- The end of a step: record it and move the latents. -/
def LoopState.advance (pipe : Pipe S T L X N) (s : LoopState S L X N) (t : T)
    (r : StepRecord X N) : LoopState S L X N :=
  let moved := pipe.advance s.pipe r.noisePred t s.latents
  { s with
    pipe := moved.2
    latents := moved.1
    stepIdx := s.stepIdx + 1
    stats := s.stats.map (·.record r) }

/-- One step of the loop. -/
def step (pipe : Pipe S T L X N) (c : CacheSettings) (totalSteps : Nat)
    (s : LoopState S L X N) (t : T) :
    Option (List (StepRecord X N) × LoopState S L X N) :=
  let scaled := pipe.scaleModelInput s.pipe s.latents t
  match gate pipe.relL1 c totalSteps s scaled.1 with
  | none => none
  | some v =>
      if v.shouldSkip then
        -- without a cached prediction the scheduler would be handed `None`
        match s.cachedNoisePred with
        | none => none
        | some noisePred =>
            let r : StepRecord X N :=
              ⟨scaled.1, true, v.skipReason, v.relL1Value, noisePred⟩
            some ([r], { s with
              pipe := scaled.2
              accumulatedRelL1 := v.accumulatedRelL1
              stepsSinceFull := s.stepsSinceFull + 1 }.advance pipe t r)
      else
        let forwarded := pipe.forward scaled.2 scaled.1 t
        let r : StepRecord X N :=
          ⟨scaled.1, false, v.skipReason, v.relL1Value, forwarded.1⟩
        let adaptive := c.effectiveMode = .adaptive
        some ([r], { s with
          pipe := forwarded.2
          cachedNoisePred := some forwarded.1
          lastFullInput := if adaptive then some scaled.1 else s.lastFullInput
          accumulatedRelL1 := if adaptive then 0.0 else v.accumulatedRelL1
          stepsSinceFull := if adaptive then 0 else s.stepsSinceFull }.advance pipe t r)

/-- The loop, from the pipe and the latents it starts with. -/
def loop (pipe : Pipe S T L X N) (c : CacheSettings) (totalSteps : Nat) (start : S)
    (latents : L) (stats : Option DenoiseStats) :
    Machine (LoopState S L X N) T (StepRecord X N) where
  init :=
    { pipe := start
      latents := latents
      stepIdx := 0
      cachedNoisePred := none
      lastFullInput := none
      accumulatedRelL1 := 0.0
      stepsSinceFull := 0
      stats := stats }
  step := step pipe c totalSteps

end Repercep.Denoise
