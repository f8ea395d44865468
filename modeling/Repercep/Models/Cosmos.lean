import Mathlib
import Repercep.Driver.FrameLines
import Repercep.Foundation.Machine
import Repercep.Foundation.Rounding
import Repercep.Foundation.Tensor
set_option autoImplicit false

/-!
# Cosmos: loading, the guardrail and the compile gate

`CosmosEngine` of `models/cosmos.py`.  The first call of `load` builds the pipeline and then
the guardrail; `generate` loads, checks the prompt, takes the compiled transformer off for a
request with too many frames, runs the pipeline, checks the video and yields its frames.

The engine is shared by the threads that run `generate`, with no lock.  What a call does
between two places where it waits (for a download, for the guardrail, for the pipeline, for
its consumer) is one step, and the calls take their steps in any order.  A call may raise
wherever it is.
-/

namespace Repercep.Models.Cosmos

open Repercep.Foundation
open Repercep.Driver (EngineOutput)

/-! ## Pictures -/

/-- A value between zero and one as a byte. -/
def pixelByte (x : ℚ) : UInt8 := UInt8.ofNat (roundEven (min (max x 0) 1 * 255)).toNat

/-- `_as_frame_tensor`; `none` where the rank is unexpected. -/
def asFrameTensor (video : Tensor ℚ) : Option (Tensor UInt8) :=
  match video.shape with
  | [_, channels, _, _] =>
      let tensor :=
        if channels = 1 ∨ channels = 3 then video.permute [0, 2, 3, 1] else video
      some (tensor.mapIdx fun _ => pixelByte)
  | _ => none

/-- What `check_video_safety` returns of a video it lets through. -/
inductive Checked where
  | bytes (video : Tensor UInt8)
  /-- an array of another type -/
  | numbers (video : Tensor ℚ)

/-- The video as bytes: `np.clip` and `astype`. -/
def Checked.toBytes : Checked → Tensor UInt8
  | .bytes video => video
  | .numbers video => video.mapIdx fun _ x => UInt8.ofNat ⌊min (max x 0) 255⌋.toNat

/-- What the guardrail answers: whether a prompt is safe, and the video with its faces
blurred, or `None`. -/
structure Guardrail where
  checkTextSafety : String → Bool
  checkVideoSafety : Tensor UInt8 → Option Checked

/-- `_apply_video_guardrail`; `none` where the video is blocked. -/
def applyVideoGuardrail (guardrail : Guardrail) (video : Tensor UInt8) : Option (Tensor UInt8) :=
  (guardrail.checkVideoSafety video).map Checked.toBytes

/-- The frames `generate` yields of a video. -/
def framesOf (video : Tensor UInt8) : List EngineOutput :=
  match video.shape with
  | [] => []
  | total :: _ =>
      (List.range total).filterMap fun index =>
        (video.select index).map fun pixels => ⟨index, total, pixels⟩

/-! ## The engine -/

/-- The fields of `CosmosConfig` that decide what is loaded and gated. -/
structure CosmosConfig where
  enableGuardrail : Bool
  compileTransformer : Bool
  compileMaxFrames : Int

/-- What the engine reads of a request. -/
structure GenerationRequest where
  prompt : String
  numFrames : Int
  deriving DecidableEq, Repr

/-- A pipeline that has been built. -/
structure PipeId where
  val : Nat
  deriving DecidableEq, Repr

/-- The transformer of a pipeline, or what `torch.compile` has made of it. -/
inductive Dit where
  | original (pipe : PipeId)
  | compiled (pipe : PipeId)
  deriving DecidableEq, Repr

/-- The transformer has been through `torch.compile`. -/
def Dit.isCompiled : Dit → Bool
  | .original _ => false
  | .compiled _ => true

/-- A call of `load` or `generate`. -/
structure CallId where
  val : Nat
  deriving DecidableEq, Repr

/-- Where a call of `load` or `generate` is. -/
inductive Pc where
  /-- at `if self._pipe is not None` -/
  | loading
  /-- in `from_pretrained` and `pipe.to` -/
  | building
  /-- the pipeline is there -/
  | compiling (pipe : PipeId)
  /-- in `torch.compile`, if it is to compile -/
  | publishing (pipe : PipeId)
  /-- in `_load_guardrail` -/
  | loadingGuardrail
  | checkingText
  | gating
  /-- the gate has tripped, the transformer is to be replaced -/
  | swapping
  /-- about to call the pipeline -/
  | calling
  | running (pipe : PipeId)
  | checkingVideo (video : Tensor UInt8)
  /-- at the `yield` of the frame before `index` -/
  | yielding (video : Tensor UInt8) (index : Nat)
  | returned
  | raised

/-- Between the check of `load` and the place where it sets `self._pipe`. -/
def Pc.buildsPipe : Pc → Bool
  | .building | .compiling _ | .publishing _ => true
  | _ => false

/-- Between the check of `load` and its return. -/
def Pc.inLoad : Pc → Bool
  | .building | .compiling _ | .publishing _ | .loadingGuardrail => true
  | _ => false

/-- Between the return of `load` and that of `generate`. -/
def Pc.pastLoad : Pc → Bool
  | .checkingText | .gating | .swapping | .calling | .running _ | .checkingVideo _
  | .yielding _ _ => true
  | _ => false

/-- Behind the place where `load` sets `self._pipe`, or finds it set. -/
def Pc.hasPipe : Pc → Bool
  | .loadingGuardrail => true
  | pc => pc.pastLoad

theorem Pc.hasPipe_of_pastLoad {pc : Pc} (h : pc.pastLoad = true) : pc.hasPipe = true := by
  cases pc <;> first | rfl | cases h

theorem Pc.inLoad_of_buildsPipe {pc : Pc} (h : pc.buildsPipe = true) : pc.inLoad = true := by
  cases pc <;> first | rfl | cases h

/-- A call; `load` has no request. -/
structure Call where
  request : Option GenerationRequest
  pc : Pc

/-- The attributes of the engine, the transformers of the pipelines, and the calls. -/
structure Engine where
  pipe : Option PipeId
  /-- `self._guardrail is not None` -/
  guarded : Bool
  uncompiledTransformer : Option Dit
  built : Nat
  transformer : PipeId → Dit
  calls : CallId → Option Call

/-- What can happen next. -/
inductive Action where
  | load (c : CallId)
  /-- the generator is resumed for the first time -/
  | generate (c : CallId) (request : GenerationRequest)
  /-- the next step of a call, what it waits for having come -/
  | advance (c : CallId)
  /-- the pipeline runs its transformer -/
  | forward (c : CallId)
  /-- the pipeline returns -/
  | produce (c : CallId) (video : Tensor ℚ)
  /-- something raises in the call, or its generator is closed -/
  | raise (c : CallId)

/-- What the steps let an observer see. -/
inductive Event where
  | ran (c : CallId) (dit : Dit)
  /-- what the pipeline returned, as bytes -/
  | produced (c : CallId) (video : Tensor UInt8)
  | yielded (c : CallId) (frame : EngineOutput)

namespace Engine

/-- A call goes on at another place. -/
def setCall (s : Engine) (c : CallId) (request : Option GenerationRequest) (pc : Pc) : Engine :=
  { s with calls := Function.update s.calls c (some ⟨request, pc⟩) }

/-- Where a call goes on when `load` returns. -/
def afterLoad : Option GenerationRequest → Pc
  | none => .returned
  | some _ => .checkingText

/-- Where a call goes on with the video it is to yield; `video.shape[0]` needs a rank. -/
def startYielding (video : Tensor UInt8) : Pc :=
  if video.shape = [] then .raised else .yielding video 0

/-- `_gate_compile_if_needed` trips. -/
def trips (config : CosmosConfig) (s : Engine) (numFrames : Int) : Bool :=
  s.pipe.isSome && s.uncompiledTransformer.isSome &&
    decide (0 < config.compileMaxFrames ∧ config.compileMaxFrames < numFrames)

/-- `if self._pipe.transformer is not self._uncompiled_transformer: ...`. -/
def swap (s : Engine) : Engine :=
  match s.pipe, s.uncompiledTransformer with
  | some pipe, some dit => { s with transformer := Function.update s.transformer pipe dit }
  | _, _ => s

/-- `self._uncompiled_transformer = pipe.transformer`, if it is to compile. -/
def keepUncompiled (config : CosmosConfig) (s : Engine) (pipe : PipeId) : Engine :=
  if config.compileTransformer then
    { s with uncompiledTransformer := some (s.transformer pipe) }
  else s

/-- `pipe.transformer = torch.compile(...)`, if it is to compile, and `self._pipe = pipe`. -/
def publish (config : CosmosConfig) (s : Engine) (pipe : PipeId) : Engine :=
  { s with
    pipe := some pipe
    transformer :=
      if config.compileTransformer then Function.update s.transformer pipe (.compiled pipe)
      else s.transformer }

/-- The next step of a call. -/
def advance (config : CosmosConfig) (guardrail : Guardrail) (s : Engine) (c : CallId)
    (request : Option GenerationRequest) : Pc → Option (List Event × Engine)
  | .loading =>
      if s.pipe.isSome then some ([], s.setCall c request (afterLoad request))
      else some ([], s.setCall c request .building)
  | .building =>
      some ([], { s with built := s.built + 1 }.setCall c request (.compiling ⟨s.built⟩))
  | .compiling pipe => some ([], (s.keepUncompiled config pipe).setCall c request (.publishing pipe))
  | .publishing pipe =>
      some ([], (s.publish config pipe).setCall c request
        (if config.enableGuardrail then .loadingGuardrail else afterLoad request))
  | .loadingGuardrail => some ([], { s with guarded := true }.setCall c request (afterLoad request))
  | .checkingText =>
      match request with
      | none => none
      | some r =>
          if s.guarded && !guardrail.checkTextSafety r.prompt then
            some ([], s.setCall c request .raised)
          else some ([], s.setCall c request .gating)
  | .gating =>
      match request with
      | none => none
      | some r =>
          if s.trips config r.numFrames then some ([], s.setCall c request .swapping)
          else some ([], s.setCall c request .calling)
  | .swapping => some ([], s.swap.setCall c request .calling)
  | .calling =>
      match s.pipe with
      | none => some ([], s.setCall c request .raised)
      | some pipe => some ([], s.setCall c request (.running pipe))
  | .checkingVideo video =>
      if s.guarded then
        match applyVideoGuardrail guardrail video with
        | none => some ([], s.setCall c request .raised)
        | some checked => some ([], s.setCall c request (startYielding checked))
      else some ([], s.setCall c request (startYielding video))
  | .yielding video index =>
      match (framesOf video)[index]? with
      | some frame => some ([.yielded c frame], s.setCall c request (.yielding video (index + 1)))
      | none => some ([], s.setCall c request .returned)
  | .running _ | .returned | .raised => none

/-- The step a label stands for. -/
def step (config : CosmosConfig) (guardrail : Guardrail) (s : Engine) :
    Action → Option (List Event × Engine)
  | .load c =>
      match s.calls c with
      | none => some ([], s.setCall c none .loading)
      | some _ => none
  | .generate c request =>
      match s.calls c with
      | none => some ([], s.setCall c (some request) .loading)
      | some _ => none
  | .advance c =>
      match s.calls c with
      | none => none
      | some call => s.advance config guardrail c call.request call.pc
  | .forward c =>
      match s.calls c with
      | some ⟨_, .running pipe⟩ => some ([.ran c (s.transformer pipe)], s)
      | _ => none
  | .produce c video =>
      match s.calls c with
      | some ⟨request, .running _⟩ =>
          match asFrameTensor video with
          | none => some ([], s.setCall c request .raised)
          | some frames => some ([.produced c frames], s.setCall c request (.checkingVideo frames))
      | _ => none
  | .raise c =>
      match s.calls c with
      | none | some ⟨_, .returned⟩ | some ⟨_, .raised⟩ => none
      | some call => some ([], s.setCall c call.request .raised)

/-- A new engine. -/
def new : Engine where
  pipe := none
  guarded := false
  uncompiledTransformer := none
  built := 0
  transformer := Dit.original
  calls := fun _ => none

end Engine

/-- `CosmosEngine` and the calls on it. -/
def cosmos (config : CosmosConfig) (guardrail : Guardrail) : Machine Engine Action Event :=
  ⟨Engine.new, Engine.step config guardrail⟩

namespace Engine

@[simp] theorem setCall_pipe (s : Engine) (c : CallId) (request : Option GenerationRequest)
    (pc : Pc) : (s.setCall c request pc).pipe = s.pipe := rfl

@[simp] theorem setCall_guarded (s : Engine) (c : CallId) (request : Option GenerationRequest)
    (pc : Pc) : (s.setCall c request pc).guarded = s.guarded := rfl

@[simp] theorem setCall_uncompiled (s : Engine) (c : CallId)
    (request : Option GenerationRequest) (pc : Pc) :
    (s.setCall c request pc).uncompiledTransformer = s.uncompiledTransformer := rfl

@[simp] theorem setCall_built (s : Engine) (c : CallId) (request : Option GenerationRequest)
    (pc : Pc) : (s.setCall c request pc).built = s.built := rfl

@[simp] theorem setCall_transformer (s : Engine) (c : CallId)
    (request : Option GenerationRequest) (pc : Pc) :
    (s.setCall c request pc).transformer = s.transformer := rfl

@[simp] theorem setCall_self (s : Engine) (c : CallId) (request : Option GenerationRequest)
    (pc : Pc) : (s.setCall c request pc).calls c = some ⟨request, pc⟩ :=
  Function.update_self ..

theorem setCall_of_ne (s : Engine) {c d : CallId} (hne : d ≠ c)
    (request : Option GenerationRequest) (pc : Pc) :
    (s.setCall c request pc).calls d = s.calls d :=
  Function.update_of_ne hne ..

theorem keepUncompiled_eq (config : CosmosConfig) (s : Engine) (pipe : PipeId) :
    s.keepUncompiled config pipe = { s with uncompiledTransformer :=
      if config.compileTransformer then some (s.transformer pipe)
      else s.uncompiledTransformer } := by
  unfold keepUncompiled
  split <;> rfl

theorem swap_eq {s : Engine} {pipe : PipeId} {dit : Dit} (hpipe : s.pipe = some pipe)
    (hdit : s.uncompiledTransformer = some dit) :
    s.swap = { s with transformer := Function.update s.transformer pipe dit } := by
  rw [swap, hpipe, hdit]

@[simp] theorem swap_pipe (s : Engine) : s.swap.pipe = s.pipe := by
  unfold swap
  split <;> rfl

@[simp] theorem swap_guarded (s : Engine) : s.swap.guarded = s.guarded := by
  unfold swap
  split <;> rfl

@[simp] theorem swap_uncompiled (s : Engine) :
    s.swap.uncompiledTransformer = s.uncompiledTransformer := by
  unfold swap
  split <;> rfl

@[simp] theorem swap_built (s : Engine) : s.swap.built = s.built := by
  unfold swap
  split <;> rfl

@[simp] theorem swap_calls (s : Engine) : s.swap.calls = s.calls := by
  unfold swap
  split <;> rfl

/-- A call after another one, or it itself, has taken a step. -/
theorem calls_setCall {s : Engine} {c d : CallId} {request : Option GenerationRequest} {pc : Pc}
    {call : Call} (h : (s.setCall c request pc).calls d = some call) :
    (d = c ∧ call = ⟨request, pc⟩) ∨ (d ≠ c ∧ s.calls d = some call) := by
  by_cases hd : d = c
  · subst hd
    rw [setCall_self] at h
    exact Or.inl ⟨rfl, (Option.some.inj h).symm⟩
  · rw [setCall_of_ne s hd] at h
    exact Or.inr ⟨hd, h⟩

/-! ## What a step can do -/

variable {config : CosmosConfig} {guardrail : Guardrail} {s t : Engine} {a : Action}
  {es : List Event}

/-- The steps of a call that has loaded, with what they emit. -/
inductive Next (config : CosmosConfig) (guardrail : Guardrail) (s : Engine) (c : CallId)
    (request : Option GenerationRequest) : Pc → List Event → Pc → Prop
  | checked {r : GenerationRequest} (hrequest : request = some r)
      (hsafe : s.guarded = true → guardrail.checkTextSafety r.prompt = true) :
      Next config guardrail s c request .checkingText [] .gating
  | trip {r : GenerationRequest} (hrequest : request = some r)
      (htrips : s.trips config r.numFrames = true) :
      Next config guardrail s c request .gating [] .swapping
  | pass {r : GenerationRequest} (hrequest : request = some r)
      (htrips : s.trips config r.numFrames = false) :
      Next config guardrail s c request .gating [] .calling
  | call {pipe : PipeId} (hpipe : s.pipe = some pipe) :
      Next config guardrail s c request .calling [] (.running pipe)
  | produce {pipe : PipeId} {video : Tensor ℚ} {frames : Tensor UInt8}
      (hframes : asFrameTensor video = some frames) :
      Next config guardrail s c request (.running pipe) [.produced c frames]
        (.checkingVideo frames)
  | filtered {video checked : Tensor UInt8} (hguarded : s.guarded = true)
      (hchecked : applyVideoGuardrail guardrail video = some checked) :
      Next config guardrail s c request (.checkingVideo video) [] (startYielding checked)
  | unfiltered {video : Tensor UInt8} (hguarded : s.guarded = false) :
      Next config guardrail s c request (.checkingVideo video) [] (startYielding video)
  | emit {video : Tensor UInt8} {index : Nat} {frame : EngineOutput}
      (hframe : (framesOf video)[index]? = some frame) :
      Next config guardrail s c request (.yielding video index) [.yielded c frame]
        (.yielding video (index + 1))
  | done {video : Tensor UInt8} {index : Nat} (hend : (framesOf video)[index]? = none) :
      Next config guardrail s c request (.yielding video index) [] .returned

/-- Every step, with what it leaves of the engine. -/
inductive Rule (config : CosmosConfig) (guardrail : Guardrail) (s : Engine) :
    Action → List Event → Engine → Prop
  | start {a : Action} {c : CallId} {request : Option GenerationRequest}
      (hnew : s.calls c = none) : Rule config guardrail s a [] (s.setCall c request .loading)
  | found {c : CallId} {request : Option GenerationRequest}
      (hcall : s.calls c = some ⟨request, .loading⟩) (hpipe : s.pipe.isSome = true) :
      Rule config guardrail s (.advance c) [] (s.setCall c request (afterLoad request))
  | begin {c : CallId} {request : Option GenerationRequest}
      (hcall : s.calls c = some ⟨request, .loading⟩) (hpipe : s.pipe = none) :
      Rule config guardrail s (.advance c) [] (s.setCall c request .building)
  | built {c : CallId} {request : Option GenerationRequest}
      (hcall : s.calls c = some ⟨request, .building⟩) :
      Rule config guardrail s (.advance c) []
        ({ s with built := s.built + 1 }.setCall c request (.compiling ⟨s.built⟩))
  | keep {c : CallId} {request : Option GenerationRequest} {pipe : PipeId}
      (hcall : s.calls c = some ⟨request, .compiling pipe⟩) :
      Rule config guardrail s (.advance c) []
        ((s.keepUncompiled config pipe).setCall c request (.publishing pipe))
  | publish {c : CallId} {request : Option GenerationRequest} {pipe : PipeId}
      (hcall : s.calls c = some ⟨request, .publishing pipe⟩) :
      Rule config guardrail s (.advance c) [] ((s.publish config pipe).setCall c request
        (if config.enableGuardrail then .loadingGuardrail else afterLoad request))
  | guard {c : CallId} {request : Option GenerationRequest}
      (hcall : s.calls c = some ⟨request, .loadingGuardrail⟩) :
      Rule config guardrail s (.advance c) []
        ({ s with guarded := true }.setCall c request (afterLoad request))
  | next {a : Action} {c : CallId} {request : Option GenerationRequest} {pc pc' : Pc}
      {es : List Event} (hcall : s.calls c = some ⟨request, pc⟩)
      (hnext : Next config guardrail s c request pc es pc') :
      Rule config guardrail s a es (s.setCall c request pc')
  | swap {c : CallId} {request : Option GenerationRequest}
      (hcall : s.calls c = some ⟨request, .swapping⟩) :
      Rule config guardrail s (.advance c) [] (s.swap.setCall c request .calling)
  | forward {c : CallId} {request : Option GenerationRequest} {pipe : PipeId}
      (hcall : s.calls c = some ⟨request, .running pipe⟩) :
      Rule config guardrail s (.forward c) [.ran c (s.transformer pipe)] s
  | raise {a : Action} {c : CallId} {request : Option GenerationRequest} {pc : Pc}
      (hcall : s.calls c = some ⟨request, pc⟩) :
      Rule config guardrail s a [] (s.setCall c request .raised)

theorem step_rule (h : s.step config guardrail a = some (es, t)) :
    Rule config guardrail s a es t := by
  cases a with
  | load c | generate c request =>
      simp only [step] at h
      split at h
      · next hnew =>
          cases h
          exact .start hnew
      · cases h
  | advance c =>
      simp only [step] at h
      split at h
      · cases h
      · next call hcall =>
          obtain ⟨request, pc⟩ := call
          cases pc with
          | loading =>
              simp only [advance] at h
              split at h
              · next hpipe => cases h; exact .found hcall hpipe
              · next hpipe => cases h; exact .begin hcall (by simpa using hpipe)
          | building => cases h; exact .built hcall
          | compiling pipe => cases h; exact .keep hcall
          | publishing pipe => cases h; exact .publish hcall
          | loadingGuardrail => cases h; exact .guard hcall
          | checkingText =>
              simp only [advance] at h
              split at h
              · cases h
              · next r =>
                  split at h
                  · cases h; exact .raise hcall
                  · next hsafe =>
                      cases h
                      exact .next hcall (.checked rfl (by simpa using hsafe))
          | gating =>
              simp only [advance] at h
              split at h
              · cases h
              · next r =>
                  split at h
                  · next htrips => cases h; exact .next hcall (.trip rfl htrips)
                  · next htrips => cases h; exact .next hcall (.pass rfl (by simpa using htrips))
          | swapping => cases h; exact .swap hcall
          | calling =>
              simp only [advance] at h
              split at h
              · cases h; exact .raise hcall
              · next pipe hpipe => cases h; exact .next hcall (.call hpipe)
          | running pipe => cases h
          | checkingVideo video =>
              simp only [advance] at h
              split at h
              · next hguarded =>
                  split at h
                  · cases h; exact .raise hcall
                  · next checked hchecked =>
                      cases h
                      exact .next hcall (.filtered hguarded hchecked)
              · next hguarded =>
                  cases h
                  exact .next hcall (.unfiltered (by simpa using hguarded))
          | yielding video index =>
              simp only [advance] at h
              split at h
              · next frame hframe => cases h; exact .next hcall (.emit hframe)
              · next hend => cases h; exact .next hcall (.done hend)
          | returned | raised => cases h
  | forward c =>
      simp only [step] at h
      split at h
      · next hcall => cases h; exact .forward hcall
      · cases h
  | produce c video =>
      simp only [step] at h
      split at h
      · next hcall =>
          split at h
          · cases h; exact .raise hcall
          · next frames hframes => cases h; exact .next hcall (.produce hframes)
      · cases h
  | raise c =>
      simp only [step] at h
      split at h
      · cases h
      · cases h
      · cases h
      · next call _ _ hcall => cases h; exact .raise hcall

theorem inLoad_afterLoad (request : Option GenerationRequest) :
    (afterLoad request).inLoad = false := by
  cases request <;> rfl

theorem inLoad_startYielding (video : Tensor UInt8) : (startYielding video).inLoad = false := by
  unfold startYielding
  split <;> rfl

theorem Next.inLoad {c : CallId} {request : Option GenerationRequest} {pc pc' : Pc}
    (h : Next config guardrail s c request pc es pc') : pc'.inLoad = false := by
  cases h with
  | filtered | unfiltered => exact inLoad_startYielding _
  | _ => rfl

theorem Next.pastLoad {c : CallId} {request : Option GenerationRequest} {pc pc' : Pc}
    (h : Next config guardrail s c request pc es pc') : pc.pastLoad = true := by
  cases h <;> rfl

/-- How a step moves the call it is a step of. -/
structure Moves (s t : Engine) (a : Action) (c : CallId) (pc pc' : Pc) : Prop where
  inLoad : pc'.inLoad = true → pc.inLoad = true ∨ pc = .loading ∧ s.pipe = none ∧ a = .advance c
  buildsPipe : pc'.buildsPipe = true → pc.buildsPipe = true ∨ s.pipe = none
  hasPipe : pc'.hasPipe = true → pc.hasPipe = true ∨ t.pipe.isSome = true

theorem Moves.out {c : CallId} {pc pc' : Pc} (h : pc'.inLoad = false)
    (hpipe : pc'.hasPipe = true → pc.hasPipe = true ∨ t.pipe.isSome = true) :
    Moves s t a c pc pc' := by
  refine ⟨fun hin => ?_, fun hbuilds => ?_, hpipe⟩
  · cases h.symm.trans hin
  · cases h.symm.trans (Pc.inLoad_of_buildsPipe hbuilds)

/-- A step moves one call, or none. -/
theorem Rule.mover (h : Rule config guardrail s a es t) :
    t.calls = s.calls ∨
      ∃ c request pc', t.calls = Function.update s.calls c (some ⟨request, pc'⟩) ∧
        (s.calls c = none ∧ pc' = .loading ∨
          ∃ pc, s.calls c = some ⟨request, pc⟩ ∧ Moves s t a c pc pc') := by
  cases h with
  | @start _ c request hnew => exact Or.inr ⟨c, request, _, rfl, Or.inl ⟨hnew, rfl⟩⟩
  | @found c request hcall hpipe =>
      exact Or.inr ⟨c, request, _, rfl, Or.inr ⟨_, hcall,
        .out (inLoad_afterLoad _) fun _ => Or.inr hpipe⟩⟩
  | @begin c request hcall hpipe =>
      exact Or.inr ⟨c, request, _, rfl, Or.inr ⟨_, hcall, fun _ => Or.inr ⟨rfl, hpipe, rfl⟩,
        fun _ => Or.inr hpipe, fun hhas => by cases hhas⟩⟩
  | @built c request hcall =>
      exact Or.inr ⟨c, request, _, rfl, Or.inr ⟨_, hcall, fun _ => Or.inl rfl,
        fun _ => Or.inl rfl, fun hhas => by cases hhas⟩⟩
  | @keep c request pipe hcall =>
      rw [keepUncompiled_eq]
      exact Or.inr ⟨c, request, _, rfl, Or.inr ⟨_, hcall, fun _ => Or.inl rfl,
        fun _ => Or.inl rfl, fun hhas => by cases hhas⟩⟩
  | @publish c request pipe hcall =>
      exact Or.inr ⟨c, request, _, rfl, Or.inr ⟨_, hcall, fun _ => Or.inl rfl,
        fun _ => Or.inl rfl, fun _ => Or.inr rfl⟩⟩
  | @guard c request hcall =>
      exact Or.inr ⟨c, request, _, rfl, Or.inr ⟨_, hcall,
        .out (inLoad_afterLoad _) fun _ => Or.inl rfl⟩⟩
  | @next _ c request pc pc' _ hcall hnext =>
      exact Or.inr ⟨c, request, _, rfl, Or.inr ⟨_, hcall,
        .out hnext.inLoad fun _ => Or.inl (Pc.hasPipe_of_pastLoad hnext.pastLoad)⟩⟩
  | @swap c request hcall =>
      exact Or.inr ⟨c, request, _, by rw [setCall, swap_calls], Or.inr ⟨_, hcall,
        .out rfl fun _ => Or.inl rfl⟩⟩
  | forward => exact Or.inl rfl
  | @raise _ c request pc hcall =>
      exact Or.inr ⟨c, request, _, rfl, Or.inr ⟨_, hcall, .out rfl fun hhas => by cases hhas⟩⟩

/-- The pipeline is only replaced where one is published. -/
theorem Rule.pipe_eq (h : Rule config guardrail s a es t) : t.pipe = s.pipe ∨
    ∃ c request pipe, s.calls c = some ⟨request, .publishing pipe⟩ ∧ t.pipe = some pipe ∧
      ∀ call, t.calls c = some call → call.pc.buildsPipe = false := by
  cases h with
  | @publish c request pipe hcall =>
      refine Or.inr ⟨c, request, pipe, hcall, rfl, fun call hafter => ?_⟩
      rw [setCall_self] at hafter
      cases hafter
      split
      · rfl
      · cases request <;> rfl
  | keep => exact Or.inl (by rw [keepUncompiled_eq]; rfl)
  | swap => exact Or.inl (swap_pipe s)
  | _ => exact Or.inl rfl

theorem Rule.pipe_isSome (h : Rule config guardrail s a es t) (hpipe : s.pipe.isSome = true) :
    t.pipe.isSome = true := by
  rcases h.pipe_eq with hsame | ⟨c, request, pipe, -, hsome, -⟩
  · rw [hsame, hpipe]
  · rw [hsome]
    rfl

/-- The guardrail is only there from where one is loaded. -/
theorem Rule.guarded_eq (h : Rule config guardrail s a es t) : t.guarded = s.guarded ∨
    ∃ c request, s.calls c = some ⟨request, .loadingGuardrail⟩ ∧ t.guarded = true ∧
      ∀ call, t.calls c = some call → call.pc.inLoad = false := by
  cases h with
  | @guard c request hcall =>
      refine Or.inr ⟨c, request, hcall, rfl, fun call hafter => ?_⟩
      rw [setCall_self] at hafter
      cases hafter
      exact inLoad_afterLoad request
  | keep => exact Or.inl (by rw [keepUncompiled_eq]; rfl)
  | swap => exact Or.inl (swap_guarded s)
  | _ => exact Or.inl rfl

/-- A call after a step: it was there before, or it has just begun. -/
theorem Rule.calls_before (h : Rule config guardrail s a es t) {c : CallId} {call : Call}
    (hafter : t.calls c = some call) :
    s.calls c = some call ∨ (s.calls c = none ∧ call.pc = .loading) ∨
      ∃ pc, s.calls c = some ⟨call.request, pc⟩ ∧ Moves s t a c pc call.pc := by
  rcases h.mover with hsame | ⟨d, request, pc', hcalls, hmoved⟩
  · exact Or.inl (hsame ▸ hafter)
  · by_cases hc : c = d
    · subst hc
      rw [hcalls, Function.update_self] at hafter
      cases hafter
      exact Or.inr hmoved
    · rw [hcalls, Function.update_of_ne hc] at hafter
      exact Or.inl hafter

/-- No step changes the request of a call. -/
theorem Rule.request_eq (h : Rule config guardrail s a es t) {c : CallId}
    {request : Option GenerationRequest} {pc : Pc} (hbefore : s.calls c = some ⟨request, pc⟩) :
    ∃ pc', t.calls c = some ⟨request, pc'⟩ := by
  rcases h.mover with hsame | ⟨d, request', pc', hcalls, hmoved⟩
  · exact ⟨pc, by rw [hsame, hbefore]⟩
  · rw [hcalls]
    by_cases hc : c = d
    · subst hc
      rcases hmoved with ⟨hnew, -⟩ | ⟨pc₀, hcall, -⟩
      · cases hnew.symm.trans hbefore
      · cases hcall.symm.trans hbefore
        exact ⟨pc', Function.update_self ..⟩
    · exact ⟨pc, by rw [Function.update_of_ne hc, hbefore]⟩

/-! ## One load at a time -/

/-- No call begins to load while another one loads. -/
def Alone (s : Engine) (a : Action) : Prop :=
  ∀ c request, a = .advance c → s.calls c = some ⟨request, .loading⟩ → s.pipe = none →
    ∀ d call, s.calls d = some call → call.pc.inLoad = false

/-- At most one call loads; there is no pipeline before it has built one, and no guardrail
before it has loaded it. -/
structure Loads (s : Engine) : Prop where
  single : ∀ c d call call', s.calls c = some call → s.calls d = some call' →
    call.pc.inLoad = true → call'.pc.inLoad = true → c = d
  unpublished : ∀ c call, s.calls c = some call → call.pc.buildsPipe = true → s.pipe = none
  unguarded : ∀ c call, s.calls c = some call → call.pc.inLoad = true → s.guarded = false
  first : s.pipe = none → s.guarded = false
  loaded : ∀ c call, s.calls c = some call → call.pc.hasPipe = true → s.pipe.isSome = true

theorem Loads.new : Loads new where
  single := by simp [Engine.new]
  unpublished := by simp [Engine.new]
  unguarded := by simp [Engine.new]
  first := fun _ => rfl
  loaded := by simp [Engine.new]

/-- A call that loads after a step: it has loaded before, or it begins. -/
theorem Rule.inLoad_before (h : Rule config guardrail s a es t) {c : CallId} {call : Call}
    (hafter : t.calls c = some call) (hin : call.pc.inLoad = true) :
    (∃ call₀, s.calls c = some call₀ ∧ call₀.pc.inLoad = true) ∨
      ∃ request, s.calls c = some ⟨request, .loading⟩ ∧ s.pipe = none ∧ a = .advance c := by
  rcases h.calls_before hafter with hsame | ⟨-, hpc⟩ | ⟨pc, hcall, hmoves⟩
  · exact Or.inl ⟨call, hsame, hin⟩
  · rw [hpc] at hin
    cases hin
  · rcases hmoves.inLoad hin with hpc | ⟨rfl, hpipe, ha⟩
    · exact Or.inl ⟨_, hcall, hpc⟩
    · exact Or.inr ⟨_, hcall, hpipe, ha⟩

theorem Loads.step (hloads : s.Loads) (halone : s.Alone a) (h : Rule config guardrail s a es t) :
    t.Loads := by
  have hsingle : ∀ c d call call', t.calls c = some call → t.calls d = some call' →
      call.pc.inLoad = true → call'.pc.inLoad = true → c = d := by
    intro c d call call' hc hd hcin hdin
    rcases h.inLoad_before hc hcin with ⟨call₀, hc₀, hcin₀⟩ | ⟨request, hc₀, hpipe, ha⟩
    · rcases h.inLoad_before hd hdin with ⟨call₁, hd₁, hdin₁⟩ | ⟨request, hd₁, hpipe, ha⟩
      · exact hloads.single c d call₀ call₁ hc₀ hd₁ hcin₀ hdin₁
      · have hout := halone d request ha hd₁ hpipe c call₀ hc₀
        rw [hcin₀] at hout
        cases hout
    · rcases h.inLoad_before hd hdin with ⟨call₁, hd₁, hdin₁⟩ | ⟨request', hd₁, hpipe', ha'⟩
      · have hout := halone c request ha hc₀ hpipe d call₁ hd₁
        rw [hdin₁] at hout
        cases hout
      · rw [ha] at ha'
        exact Action.advance.inj ha'
  have hunguarded : ∀ c call, t.calls c = some call → call.pc.inLoad = true → t.guarded = false := by
    intro c call hc hin
    have hbefore : s.guarded = false := by
      rcases h.inLoad_before hc hin with ⟨call₀, hc₀, hin₀⟩ | ⟨request, hc₀, hpipe, ha⟩
      · exact hloads.unguarded c call₀ hc₀ hin₀
      · exact hloads.first hpipe
    rcases h.guarded_eq with hsame | ⟨d, request, hd, -, hout⟩
    · rw [hsame, hbefore]
    · -- the guardrail is loaded by the one call that loads
      exfalso
      have hcd : c = d := by
        rcases h.inLoad_before hc hin with ⟨call₀, hc₀, hin₀⟩ | ⟨request', hc₀, hpipe, ha⟩
        · exact hloads.single c d call₀ _ hc₀ hd hin₀ rfl
        · cases halone c request' ha hc₀ hpipe d _ hd
      subst hcd
      cases (hout call hc).symm.trans hin
  refine ⟨hsingle, ?_, hunguarded, ?_, ?_⟩
  · intro c call hc hbuilds
    have hbefore : s.pipe = none := by
      rcases h.calls_before hc with hsame | ⟨-, hpc⟩ | ⟨pc, hcall, hmoves⟩
      · exact hloads.unpublished c call hsame hbuilds
      · rw [hpc] at hbuilds
        cases hbuilds
      · rcases hmoves.buildsPipe hbuilds with hpc | hpipe
        · exact hloads.unpublished c _ hcall hpc
        · exact hpipe
    rcases h.pipe_eq with hsame | ⟨d, request, pipe, hd, -, hout⟩
    · rw [hsame, hbefore]
    · exfalso
      have hcd : c = d := by
        rcases h.inLoad_before hc (Pc.inLoad_of_buildsPipe hbuilds) with
          ⟨call₀, hc₀, hin₀⟩ | ⟨request', hc₀, hpipe, ha⟩
        · exact hloads.single c d call₀ _ hc₀ hd hin₀ rfl
        · cases halone c request' ha hc₀ hpipe d _ hd
      subst hcd
      cases (hout call hc).symm.trans hbuilds
  · intro hpipe
    have hbefore : s.pipe = none := by
      rcases h.pipe_eq with hsame | ⟨d, request, pipe, -, hsome, -⟩
      · rw [← hsame, hpipe]
      · cases hpipe.symm.trans hsome
    rcases h.guarded_eq with hsame | ⟨d, request, hd, -, -⟩
    · rw [hsame, hloads.first hbefore]
    · have hsome := hloads.loaded d _ hd rfl
      rw [hbefore] at hsome
      cases hsome
  · intro c call hc hhas
    rcases h.calls_before hc with hsame | ⟨-, hpc⟩ | ⟨pc, hcall, hmoves⟩
    · exact h.pipe_isSome (hloads.loaded c call hsame hhas)
    · rw [hpc] at hhas
      cases hhas
    · rcases hmoves.hasPipe hhas with hpc | hpipe
      · exact h.pipe_isSome (hloads.loaded c _ hcall hpc)
      · exact hpipe

/-- Once a pipeline is there, no call begins to load. -/
theorem meets_alone : ∀ (as : List Action) {s : Engine}, s.pipe.isSome = true →
    (cosmos config guardrail).Meets Alone s as := by
  intro as
  induction as with
  | nil => exact fun _ => trivial
  | cons a as ih =>
      intro s hpipe es t hstep
      refine ⟨fun c request _ _ hnone => ?_, ih ((step_rule hstep).pipe_isSome hpipe)⟩
      rw [hnone] at hpipe
      cases hpipe

end Engine

/-! ## A first call -/

/-- It lets every prompt but one through, and every video as it is. -/
def someGuardrail : Guardrail := ⟨fun prompt => prompt != "unsafe", fun video => some (.bytes video)⟩

/-- A configuration with the compilation and the guardrail switched on. -/
def guardedConfig : CosmosConfig := ⟨true, true, 64⟩

/-- A first call loads the pipeline; the guardrail is still to be loaded. -/
def pipelineLoaded (request : GenerationRequest) : List Action :=
  .generate ⟨0⟩ request :: List.replicate 4 (.advance ⟨0⟩)

theorem pipelineLoaded_alone (request : GenerationRequest) :
    (cosmos guardedConfig someGuardrail).Meets Engine.Alone
      (cosmos guardedConfig someGuardrail).init (pipelineLoaded request) := by
  have hloading : ∀ {s : Engine} {pc : Pc}, s.calls ⟨0⟩ = some ⟨some request, pc⟩ →
      (pc = .loading → ∀ d call, s.calls d = some call → call.pc.inLoad = false) →
      s.Alone (.advance ⟨0⟩) := by
    rintro s pc hcall hidle c r ⟨⟩ hloading -
    cases hcall.symm.trans hloading
    exact hidle rfl
  refine (Machine.meets_cons rfl).mpr ⟨by rintro c r ⟨⟩, ?_⟩
  refine (Machine.meets_cons rfl).mpr ⟨hloading rfl fun _ d call hcall => ?_, ?_⟩
  · rcases Engine.calls_setCall hcall with ⟨-, rfl⟩ | ⟨-, hnone⟩
    · rfl
    · cases hnone
  · refine (Machine.meets_cons rfl).mpr ⟨hloading rfl (by rintro ⟨⟩), ?_⟩
    refine (Machine.meets_cons rfl).mpr ⟨hloading rfl (by rintro ⟨⟩), ?_⟩
    exact (Machine.meets_cons rfl).mpr ⟨hloading rfl (by rintro ⟨⟩), trivial⟩

end Repercep.Models.Cosmos
