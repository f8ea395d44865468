import Mathlib.Algebra.Group.Defs
import Mathlib.Data.Fin.VecNotation
import Repercep.Denoise.Trace
set_option autoImplicit false

/-!
# Classifier-free guidance, batched and sequential

The two ways `_denoise_impl` gets the predictions of a full step: with `cfg_batched` one
transformer call on the input twice over, beside the embeddings of the negative prompt and
of the prompt; without it one call for the prompt, then one for the negative prompt, and a
`cat` that puts the negative one first.  A tensor is the family of its rows along
dimension 0, so `cat` is `Fin.append` and `chunk(2)` takes the two halves.

The transformer treats its rows one by one.  The arguments `fps` and `padding_mask` are
the same in every call and belong to it.
-/

namespace Repercep.Denoise

open Repercep.Foundation

variable {S T W E L X N G : Type} {n : Nat}

/-- A transformer on batches of any size, row by row: what it makes of a row depends on
the hidden states, the timestep and the encoder states of that row alone. -/
structure Transformer (W E X N : Type) where
  forward : ∀ {m : Nat}, (Fin m → X) → (Fin m → W) → (Fin m → E) → Fin m → N
  row : X → W → E → N
  rowwise : ∀ {m : Nat} (hiddenStates : Fin m → X) (timestep : Fin m → W)
    (encoderHiddenStates : Fin m → E) (i : Fin m),
    forward hiddenStates timestep encoderHiddenStates i =
      row (hiddenStates i) (timestep i) (encoderHiddenStates i)

/-- What a scheduler step returns, as a pair. -/
structure SchedulerOutput (m : Nat) (L N : Type) where
  prevSample : Fin m → L
  predOriginalSample : Fin m → N

/-- The scheduler; `rewind` is `_step_index -= 1`. -/
structure Scheduler (S T L X N : Type) where
  scaleModelInput : ∀ {m : Nat}, S → (Fin m → L) → T → (Fin m → X) × S
  step : ∀ {m : Nat}, S → (Fin m → N) → T → (Fin m → L) → Option (Fin m → N) →
    SchedulerOutput m L N × S
  rewind : S → S

/-- The parts of a `CosmosTextToWorldPipeline` that the loop calls, with the embeddings it
prepared: `asTimestep` is the cast to the dtype of the transformer. -/
structure CosmosPipe (n : Nat) (S T W E L X N : Type) where
  transformer : Transformer W E X N
  scheduler : Scheduler S T L X N
  relL1 : (Fin n → X) → (Fin n → X) → Float
  asTimestep : T → W
  promptEmbeds : Fin n → E
  negativePromptEmbeds : Fin n → E

namespace CosmosPipe

/-- `x.repeat(2, ...)`. -/
def repeatTwice {A : Type} (x : Fin n → A) : Fin (n + n) → A := Fin.append x x

/-- `x.chunk(2)`. -/
def chunk {A : Type} (x : Fin (n + n) → A) : (Fin n → A) × (Fin n → A) :=
  (fun i => x (Fin.castAdd n i), fun i => x (Fin.natAdd n i))

/-- The one forward of `cfg_batched`. -/
def forwardBatched (p : CosmosPipe n S T W E L X N) (latentModelInput : Fin n → X) (t : T) :
    Fin (n + n) → N :=
  let timestep : Fin n → W := fun _ => p.asTimestep t
  let encoderPair := Fin.append p.negativePromptEmbeds p.promptEmbeds
  p.transformer.forward (repeatTwice latentModelInput) (repeatTwice timestep) encoderPair

/-- The two forwards without it. -/
def forwardSequential (p : CosmosPipe n S T W E L X N) (latentModelInput : Fin n → X) (t : T) :
    Fin (n + n) → N :=
  let timestep : Fin n → W := fun _ => p.asTimestep t
  let noisePredCond := p.transformer.forward latentModelInput timestep p.promptEmbeds
  let noisePredUncond := p.transformer.forward latentModelInput timestep p.negativePromptEmbeds
  Fin.append noisePredUncond noisePredCond

/-- `noise_pred_cond + guidance_scale * (noise_pred_cond - noise_pred_uncond)`. -/
def guide [Add N] [Sub N] [SMul G N] (guidanceScale : G) (uncond cond : Fin n → N) :
    Fin n → N :=
  fun i => cond i + guidanceScale • (cond i - uncond i)

/-- The end of a step: the first scheduler call for x0, the guidance, and the second call
that moves the latents. -/
def advance [Add N] [Sub N] [SMul G N] (p : CosmosPipe n S T W E L X N) (guidanceScale : G)
    (s : S) (noisePred : Fin (n + n) → N) (t : T) (latents : Fin n → L) : (Fin n → L) × S :=
  let sample := repeatTwice latents
  let first := p.scheduler.step s noisePred t sample none
  let halves := chunk first.1.predOriginalSample
  let guided := guide guidanceScale halves.1 halves.2
  let second := p.scheduler.step (p.scheduler.rewind first.2) guided t latents (some guided)
  (second.1.prevSample, second.2)

/-- The pipe as the loop sees it, under a value of `cfg_batched`. -/
def toPipe [Add N] [Sub N] [SMul G N] (p : CosmosPipe n S T W E L X N) (guidanceScale : G)
    (cfgBatched : Bool) : Pipe S T (Fin n → L) (Fin n → X) (Fin (n + n) → N) where
  scaleModelInput := p.scheduler.scaleModelInput
  forward := fun s latentModelInput t =>
    (if cfgBatched then p.forwardBatched latentModelInput t
      else p.forwardSequential latentModelInput t, s)
  relL1 := p.relL1
  advance := p.advance guidanceScale

/-- The rows without the prompt come first, in either way. -/
theorem chunk_forwardBatched (p : CosmosPipe n S T W E L X N) (x : Fin n → X) (t : T) :
    chunk (p.forwardBatched x t) =
      (fun i => p.transformer.row (x i) (p.asTimestep t) (p.negativePromptEmbeds i),
        fun i => p.transformer.row (x i) (p.asTimestep t) (p.promptEmbeds i)) := by
  simp only [chunk, forwardBatched, repeatTwice, p.transformer.rowwise, Fin.append_left,
    Fin.append_right]

theorem chunk_forwardSequential (p : CosmosPipe n S T W E L X N) (x : Fin n → X) (t : T) :
    chunk (p.forwardSequential x t) =
      (fun i => p.transformer.row (x i) (p.asTimestep t) (p.negativePromptEmbeds i),
        fun i => p.transformer.row (x i) (p.asTimestep t) (p.promptEmbeds i)) := by
  simp only [chunk, forwardSequential, p.transformer.rowwise, Fin.append_left,
    Fin.append_right]

/-- A batch of both halves is its halves. -/
theorem chunk_injective {A : Type} {x y : Fin (n + n) → A} (h : chunk x = chunk y) : x = y := by
  funext i
  refine Fin.addCases (fun j => ?_) (fun j => ?_) i
  · exact congrFun (congrArg Prod.fst h) j
  · exact congrFun (congrArg Prod.snd h) j

theorem forwardBatched_eq (p : CosmosPipe n S T W E L X N) :
    p.forwardBatched = p.forwardSequential := by
  funext x t
  exact chunk_injective ((p.chunk_forwardBatched x t).trans (p.chunk_forwardSequential x t).symm)

theorem toPipe_eq [Add N] [Sub N] [SMul G N] (p : CosmosPipe n S T W E L X N)
    (guidanceScale : G) (cfgBatched : Bool) :
    p.toPipe guidanceScale cfgBatched = p.toPipe guidanceScale true := by
  cases cfgBatched with
  | true => rfl
  | false => simp only [toPipe, p.forwardBatched_eq, ite_self]

end CosmosPipe

/-- The two ways agree.  After any part of the timesteps the loop has left the same records
with `cfg_batched` and without it (the same model inputs, skip decisions, distances and
noise predictions), and the same variables: the same latents, accumulators, cached
prediction, scheduler and statistics. -/
theorem guidance_agrees [Add N] [Sub N] [SMul G N] (p : CosmosPipe n S T W E L X N)
    (guidanceScale : G) (c : CacheSettings) (start : S) (latents : Fin n → L)
    (stats : Option DenoiseStats) (done rest : List T) :
    ∃ records s,
      (loop (p.toPipe guidanceScale true) c (done ++ rest).length start latents stats).run
        (loop (p.toPipe guidanceScale true) c (done ++ rest).length start latents stats).init
        done = some (records, s) ∧
      (loop (p.toPipe guidanceScale false) c (done ++ rest).length start latents stats).run
        (loop (p.toPipe guidanceScale false) c (done ++ rest).length start latents stats).init
        done = some (records, s) ∧
      records.length = done.length := by
  let shared := loop (p.toPipe guidanceScale true) c (done ++ rest).length start latents stats
  obtain ⟨records, s, hrun, hlength⟩ : ∃ records s,
      shared.run shared.init done = some (records, s) ∧ records.length = done.length := by
    obtain ⟨records, s, hrun, hlength, -⟩ := run_tracks done [] shared.init
      (Tracks.init (p.toPipe guidanceScale true) c (done ++ rest).length start latents stats)
    exact ⟨records, s, hrun, hlength⟩
  refine ⟨records, s, hrun, ?_, hlength⟩
  rw [p.toPipe_eq guidanceScale false]
  exact hrun

/-! ## Four steps on two rows -/

/-- A transformer that scales each row by its embedding and adds the timestep. -/
def scaleByEmbedding : Transformer Int Int Int Int where
  forward := fun hiddenStates timestep encoderHiddenStates i =>
    hiddenStates i * encoderHiddenStates i + timestep i
  row := fun hiddenState timestep encoderHiddenState =>
    hiddenState * encoderHiddenState + timestep
  rowwise := fun _ _ _ _ => rfl

/-- A scheduler that takes the prediction off the sample, for x0 at once and for the latents
by a share that shrinks with its index. -/
def shrinkingSteps : Scheduler Nat Int Int Int Int where
  scaleModelInput := fun index latents _ => (latents, index)
  step := fun index modelOutput _ sample predOriginalSample =>
    let x0 := predOriginalSample.getD fun i => sample i - modelOutput i
    (⟨fun i => sample i + (x0 i - sample i) / (index + 2), x0⟩, index + 1)
  rewind := fun index => index - 1

/-- Prompts that differ from each other and from the negative ones. -/
def twoPrompts : CosmosPipe 2 Nat Int Int Int Int Int Int where
  transformer := scaleByEmbedding
  scheduler := shrinkingSteps
  relL1 := fun _ _ => 0.0
  asTimestep := id
  promptEmbeds := ![3, 5]
  negativePromptEmbeds := ![1, -2]

/-- Every other step is skipped. -/
def everyOther : CacheSettings where
  mode := .fixed
  skipEvery := 2
  warmupSteps := 0
  adaptiveThreshold := 0.1
  forceFullEvery := 0

/-- The skipped steps reuse the predictions of either way, the negative rows first. -/
theorem guidance_agrees_skipped : ∃ records s,
    (loop (twoPrompts.toPipe (7 : Int) true) everyOther 4 0 ![10, 20] none).run
        (loop (twoPrompts.toPipe (7 : Int) true) everyOther 4 0 ![10, 20] none).init
        [4, 3, 2, 1] = some (records, s) ∧
      (loop (twoPrompts.toPipe (7 : Int) false) everyOther 4 0 ![10, 20] none).run
        (loop (twoPrompts.toPipe (7 : Int) false) everyOther 4 0 ![10, 20] none).init
        [4, 3, 2, 1] = some (records, s) ∧
      records.map StepRecord.skipped = [false, true, false, true] ∧
      (records.take 2).map (fun r => List.ofFn r.noisePred) =
        [[14, -36, 34, 104], [14, -36, 34, 104]] := by
  obtain ⟨records, s, hbatched, hsequential, -⟩ := guidance_agrees twoPrompts (7 : Int) everyOther
    0 ![10, 20] none [4, 3, 2, 1] []
  refine ⟨records, s, hbatched, hsequential, ?_⟩
  have hrecords : ((loop (twoPrompts.toPipe (7 : Int) true) everyOther 4 0 ![10, 20] none).run
      (loop (twoPrompts.toPipe (7 : Int) true) everyOther 4 0 ![10, 20] none).init
      [4, 3, 2, 1]).map (fun r => (r.1.map StepRecord.skipped,
        (r.1.take 2).map fun r => List.ofFn r.noisePred)) =
      some ([false, true, false, true], [[14, -36, 34, 104], [14, -36, 34, 104]]) := by
    decide
  exact Prod.mk.inj (Option.some.inj ((congrArg (Option.map _) hbatched).symm.trans hrecords))

end Repercep.Denoise
