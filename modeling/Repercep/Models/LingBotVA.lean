import Mathlib
import Repercep.Foundation.Machine
import Repercep.Models.ActionCodec
import Repercep.Models.Latents
set_option autoImplicit false

/-!
# LingBot-VA: sessions on one transformer

`LingBotVAEngine` of `models/lingbot_va.py` on the pipeline of
`models/lingbot_va_pipeline.py`.  The engine keeps a frame clock and a parked proposal for
each session, the pipeline its prompt and its first latents, and the transformer a cache
under the session's name.  The noise schedulers are shared.

The transformer and the schedulers' arithmetic are parameters.  Between two calls of the
transformer a session's call is one step, and the sessions take their steps in any order;
noise comes with the step that draws it, and a call may raise in any step.
-/

namespace Repercep.Models.LingBotVA

open Repercep.Foundation

/-! ## The parts of the model -/

/-- Which of its two token streams the transformer runs. -/
inductive Mode where
  | video
  | action
  deriving DecidableEq, Repr

/-- What the transformer is given, but for its cache. -/
structure Input (R : Type) where
  mode : Mode
  noisyLatents : Tensor R
  timestep : R
  /-- the timestep of the first frame is zero -/
  firstClean : Bool
  prompt : String

/-- The transformer on one named cache, and the arithmetic of the two schedulers on the
tables `set_timesteps` has made. -/
structure Parts (R K X : Type) where
  createEmptyCache : K
  clearPredCache : K → K
  /-- the call with `update_cache` and `frame_st_id` -/
  forward : K → Nat → Nat → Input R → X × K
  timesteps : Mode → Nat → List R
  /-- guidance and `scheduler.step`, by the scheduler's table -/
  denoise : Mode → List R → X → R → Tensor R → Tensor R

/-- The configuration. -/
structure LingBotVAConfig where
  prompt : Option String
  frameChunkSize : Nat
  actionDim : Nat
  usedActionDim : Option Nat
  actionPerFrame : Nat
  numInferenceSteps : Nat
  actionNumInferenceSteps : Nat

/-- `_wire_action_dim`; `or` skips a zero. -/
def LingBotVAConfig.wireActionDim (config : LingBotVAConfig) : Nat :=
  match config.usedActionDim with
  | some (d + 1) => d + 1
  | _ => config.actionDim

/-- How many denoising steps a stream takes. -/
def LingBotVAConfig.steps (config : LingBotVAConfig) : Mode → Nat
  | .video => config.numInferenceSteps
  | .action => config.actionNumInferenceSteps

/-- A frame in place of the first one. -/
def setFirstFrame {R : Type} [Inhabited R] (latents frame : Tensor R) : Tensor R :=
  latents.mapIdx fun idx x => if idx.getD 2 0 = 0 then frame.get idx else x

/-- The first frame is zero. -/
def zeroFirstFrame {R : Type} [Inhabited R] [Zero R] (actions : Tensor R) : Tensor R :=
  actions.mapIdx fun idx x => if idx.getD 2 0 = 0 then 0 else x

/-- `latents.shape[2]`. -/
def frameCount {R : Type} (latents : Tensor R) : Nat := latents.shape.getD 2 0

/-- `_parse_action_chunk`; `none` where it raises. -/
def parseActionChunk {R : Type} (config : LingBotVAConfig) (values : List R) :
    Option (Tensor R) :=
  if config.wireActionDim = 0 ∨ values.length % config.wireActionDim ≠ 0 then none
  else (Tensor.mk [values.length] values (by simp)).reshape [-1, (config.wireActionDim : Int)]

/-! ## Sessions -/

/-- The id of a session. -/
structure SessionId where
  val : Nat
  deriving DecidableEq, Repr

/-- The call `infer_chunk` is made for. -/
inductive Purpose where
  | step
  | plan
  deriving DecidableEq, Repr

/-- Where a session's call is. -/
inductive Pc (R : Type) where
  /-- no call -/
  | idle
  /-- in `reset`, about to encode the observation -/
  | encoding
  /-- in `_recondition`, about to push the observed latents and then the executed actions -/
  | pushingVideo (latents actions : Tensor R)
  | pushingActions (frames : Nat) (actions : Tensor R)
  /-- about to draw the noise -/
  | drawing (purpose : Purpose)
  /-- `set_timesteps` has been called on both schedulers -/
  | scheduled (purpose : Purpose) (latents actions : Tensor R)
  | denoisingVideo (purpose : Purpose) (latents actions : Tensor R) (timesteps : List R)
  | denoisingActions (purpose : Purpose) (latents actions : Tensor R) (timesteps : List R)

/-- A session, in the engine, the pipeline and the transformer. -/
structure Session (R K : Type) where
  prompt : Option String
  initLatent : Option (Tensor R)
  cache : K
  /-- it is in the engine's dictionary -/
  registered : Bool
  frameStId : Nat
  pendingActions : Option (Tensor R)
  pc : Pc R

/-- The shared schedulers, the ids that have been given out, and the sessions. -/
structure Engine (R K : Type) where
  table : Mode → List R
  issued : SessionId → Bool
  sessions : SessionId → Option (Session R K)

/-- What a session does next. -/
inductive Action (R : Type) where
  /-- `reset`, up to the encoding -/
  | reset
  /-- the encoding of the observation comes back -/
  | encoded (latent : Tensor R)
  | step (values : List R)
  | plan
  | draw (latents actions : Tensor R)
  /-- the next step of the call -/
  | advance
  | raise
  | release

/-- A session and what it does. -/
structure Label (R : Type) where
  session : SessionId
  action : Action R

/-- What the transformer is asked to do with the session's cache. -/
inductive CacheCall (R : Type) where
  | create
  | clearPred
  | forward (updateCache frameStId : Nat) (input : Input R)

/-- What comes of a step: a call of the transformer, an answer, or an exception. -/
inductive Outcome (R : Type) where
  | cache (call : CacheCall R)
  /-- `reset` or `step` returns a state with this context -/
  | state (context : Tensor R)
  /-- `plan` returns the values -/
  | proposed (values : Tensor R)
  | raised

/-- A session and what came of its step. -/
structure Event (R : Type) where
  session : SessionId
  outcome : Outcome R

/-- What a call of the transformer makes of the cache. -/
def CacheCall.apply {R K X : Type} (parts : Parts R K X) (cache : K) : CacheCall R → K
  | .create => parts.createEmptyCache
  | .clearPred => parts.clearPredCache cache
  | .forward updateCache frameStId input => (parts.forward cache updateCache frameStId input).2

/-- The same for whatever a step lets an observer see. -/
def Outcome.replay {R K X : Type} (parts : Parts R K X) (cache : K) : Outcome R → K
  | .cache call => call.apply parts cache
  | .state _ | .proposed _ | .raised => cache

section Steps

variable {R K X : Type} [Field R] [Inhabited R]

namespace Session

/-- A new session, its cache just created. -/
def opened (parts : Parts R K X) (config : LingBotVAConfig) : Session R K where
  prompt := config.prompt
  initLatent := none
  cache := parts.createEmptyCache
  registered := false
  frameStId := 0
  pendingActions := none
  pc := .encoding

/-- The call raises, and what it has done stays done. -/
def fail (s : Session R K) : List (Outcome R) × Session R K :=
  ([.raised], { s with pc := .idle })

/-- A call of the transformer. -/
def forward (parts : Parts R K X) (s : Session R K) (updateCache : Nat) (input : Input R) :
    X × List (Outcome R) × Session R K :=
  match parts.forward s.cache updateCache s.frameStId input with
  | (pred, cache) =>
      (pred, [.cache (.forward updateCache s.frameStId input)], { s with cache := cache })

/-- The first of `_recondition`: what there is of observed latents is pushed, with the
executed actions; otherwise the prediction stays. -/
def recondition (parts : Parts R K X) (task : Task R) (config : LingBotVAConfig)
    (s : Session R K) (actions : Tensor R) : List (Outcome R) × Session R K :=
  match s.initLatent, s.frameStId with
  | some latent, 0 =>
      let cleared := { s with cache := parts.clearPredCache s.cache }
      match normalizeActions task config.actionPerFrame config.actionDim actions with
      | none => ([.cache .clearPred, .raised], { cleared with pc := .idle })
      | some full => ([.cache .clearPred], { cleared with pc := .pushingVideo latent full })
  | _, frame => ([], { s with frameStId := frame + config.frameChunkSize, pc := .drawing .step })

/-- `step`, up to its first call of the transformer. -/
def beginStep (parts : Parts R K X) (task : Task R) (config : LingBotVAConfig)
    (s : Session R K) (values : List R) : List (Outcome R) × Session R K :=
  if s.registered then
    match parseActionChunk config values with
    | none => s.fail
    | some actions => s.recondition parts task config actions
  else s.fail

/-- `proposed[0]`, as `plan` returns it. -/
def propose (s : Session R K) (actions : Tensor R) : List (Outcome R) × Session R K :=
  match actions.select 0 with
  | none => s.fail
  | some first => ([.proposed first], { s with pc := .idle })

/-- `plan`, up to `infer_chunk`, if nothing is parked. -/
def beginPlan (s : Session R K) : List (Outcome R) × Session R K :=
  if s.registered then
    match s.pendingActions with
    | some actions => s.propose actions
    | none => ([], { s with pc := .drawing .plan })
  else s.fail

/-- What `_video_input` makes of the latents: the first frame of the first chunk is the
observed one. -/
def videoLatents (s : Session R K) (latents : Tensor R) : Tensor R :=
  match s.initLatent, s.frameStId with
  | some frame, 0 => setFirstFrame latents frame
  | _, _ => latents

/-- The first chunk, where the observation of `reset` is still its first frame. -/
def firstObserved (s : Session R K) : Bool := s.initLatent.isSome && s.frameStId == 0

/-- The first frame of the first chunk's actions is zero. -/
def cleanActions (s : Session R K) (actions : Tensor R) : Tensor R :=
  if s.frameStId = 0 then zeroFirstFrame actions else actions

/-- What `_action_input` makes of the actions. -/
def actionLatents (task : Task R) (s : Session R K) (actions : Tensor R) : Tensor R :=
  maskActions task (s.cleanActions actions)

/-- One pass of the video loop. -/
def denoiseVideo (parts : Parts R K X) (table : Mode → List R) (s : Session R K)
    (purpose : Purpose) (prompt : String) (latents actions : Tensor R) (t : R)
    (rest : List R) : List (Outcome R) × Session R K :=
  let noisy := s.videoLatents latents
  match s.forward parts (if rest.isEmpty then 1 else 0)
      ⟨.video, noisy, t, s.firstObserved, prompt⟩ with
  | (pred, es, s') =>
      if rest.isEmpty then
        let next := s.videoLatents noisy
        (es, { s' with pc := .denoisingActions purpose next actions (table .action ++ [0]) })
      else
        let next := s.videoLatents (parts.denoise .video (table .video) pred t noisy)
        (es, { s' with pc := .denoisingVideo purpose next actions rest })

/-- The end of `infer_chunk`, and of the call it is made for. -/
def inferred (task : Task R) (s : Session R K) (purpose : Purpose) (latents actions : Tensor R) :
    List (Outcome R) × Session R K :=
  match Latents.flattenLatent5d latents, denormalizeActions task (maskActions task actions) with
  | some context, some proposed =>
      let parked := { s with pendingActions := some proposed, pc := .idle }
      match purpose with
      | .step => ([.state context], parked)
      | .plan => parked.propose proposed
  | _, _ => s.fail

/-- One pass of the action loop. -/
def denoiseActions (parts : Parts R K X) (task : Task R) (table : Mode → List R)
    (s : Session R K) (purpose : Purpose) (prompt : String) (latents actions : Tensor R) (t : R)
    (rest : List R) : List (Outcome R) × Session R K :=
  let noisy := s.actionLatents task actions
  match s.forward parts (if rest.isEmpty then 1 else 0)
      ⟨.action, noisy, t, decide (s.frameStId = 0), prompt⟩ with
  | (pred, es, s') =>
      if rest.isEmpty then
        match s'.inferred task purpose latents (s.cleanActions noisy) with
        | (es', s'') => (es ++ es', s'')
      else
        let next := s.cleanActions (parts.denoise .action (table .action) pred t noisy)
        (es, { s' with pc := .denoisingActions purpose latents next rest })

/-- The next step of a call. -/
def advance (parts : Parts R K X) (task : Task R) (table : Mode → List R) (s : Session R K) :
    Option (List (Outcome R) × Session R K) :=
  match s.pc, s.prompt with
  | .scheduled purpose latents actions, _ =>
      some ([], { s with pc := .denoisingVideo purpose latents actions (table .video ++ [0]) })
  | .pushingVideo latents actions, some prompt =>
      match s.forward parts 2 ⟨.video, latents, 0, false, prompt⟩ with
      | (_, es, s') => some (es, { s' with pc := .pushingActions (frameCount latents) actions })
  | .pushingActions frames actions, some prompt =>
      match s.forward parts 2 ⟨.action, actions, 0, false, prompt⟩ with
      | (_, es, s') => some (es, { s' with
          frameStId := s.frameStId + frames
          pc := .drawing .step })
  | .denoisingVideo purpose latents actions (t :: rest), some prompt =>
      some (s.denoiseVideo parts table purpose prompt latents actions t rest)
  | .denoisingActions purpose latents actions (t :: rest), some prompt =>
      some (s.denoiseActions parts task table purpose prompt latents actions t rest)
  -- `session["prompt_embeds"]` is `None`
  | .pushingVideo _ _, none | .pushingActions _ _, none | .denoisingVideo _ _ _ _, none
  | .denoisingActions _ _ _ _, none => some s.fail
  | _, _ => none

/-- A step of a session that is there, and what it leaves of the session. -/
def act (parts : Parts R K X) (task : Task R) (config : LingBotVAConfig) (table : Mode → List R)
    (s : Session R K) : Action R → Option (List (Outcome R) × Option (Session R K))
  | .encoded latent =>
      match s.pc with
      | .encoding =>
          let encoded := { s with initLatent := some latent }
          match Latents.flattenLatent5d latent with
          | none => some (encoded.fail.map id some)
          | some context =>
              some ([.state context], some { encoded with registered := true, pc := .idle })
      | _ => none
  | .step values =>
      match s.pc with
      | .idle => some ((s.beginStep parts task config values).map id some)
      | _ => none
  | .plan =>
      match s.pc with
      | .idle => some (s.beginPlan.map id some)
      | _ => none
  | .draw latents actions =>
      match s.pc with
      | .drawing purpose =>
          if frameCount latents = config.frameChunkSize ∧
              frameCount actions = config.frameChunkSize then
            some ([], some { s with pc := .scheduled purpose latents actions })
          else none
      | _ => none
  | .advance => (s.advance parts task table).map (Prod.map id some)
  | .raise =>
      match s.pc with
      | .idle => none
      | _ => some (s.fail.map id some)
  | .release =>
      match s.pc with
      | .idle => some ([], none)
      | _ => none
  | .reset => none

end Session

namespace Engine

/-- The engine with another entry for a session. -/
def setSession (s : Engine R K) (id : SessionId) (session : Option (Session R K)) : Engine R K :=
  { s with sessions := Function.update s.sessions id session }

/-- `set_timesteps` on both schedulers, with the draw of the noise. -/
def tableAfter (parts : Parts R K X) (config : LingBotVAConfig) (s : Engine R K) :
    Action R → Mode → List R
  | .draw _ _ => fun mode => parts.timesteps mode (config.steps mode)
  | _ => s.table

/-- `reset` has minted the id and created the cache. -/
def opened (parts : Parts R K X) (config : LingBotVAConfig) (s : Engine R K) (id : SessionId) :
    Engine R K :=
  { s.setSession id (some (Session.opened parts config)) with
    issued := Function.update s.issued id true }

/-- A session has taken a step. -/
def acted (parts : Parts R K X) (config : LingBotVAConfig) (s : Engine R K) (label : Label R)
    (after : Option (Session R K)) : Engine R K :=
  { s.setSession label.session after with table := s.tableAfter parts config label.action }

/-- What a call gets for a session that is not there: `_session_for` raises `KeyError`, and
`release` pops nothing. -/
def unknown : Action R → Option (List (Outcome R))
  | .step _ | .plan => some [.raised]
  | .release => some []
  | _ => none

/-- The step a label stands for. -/
def step (parts : Parts R K X) (task : Task R) (config : LingBotVAConfig) (s : Engine R K)
    (label : Label R) : Option (List (Event R) × Engine R K) :=
  match s.sessions label.session, label.action with
  | none, .reset =>
      -- `uuid4` never repeats an id
      if s.issued label.session then none
      else some ([⟨label.session, .cache .create⟩], s.opened parts config label.session)
  | none, action =>
      (unknown action).map fun outcomes => (outcomes.map (Event.mk label.session), s)
  | some session, action =>
      (session.act parts task config s.table action).map fun r =>
        (r.1.map (Event.mk label.session), s.acted parts config label r.2)

section StepCases

variable {parts : Parts R K X} {task : Task R} {config : LingBotVAConfig} {s s' : Engine R K}
  {label : Label R} {es : List (Event R)}

theorem step_of_none (hnone : s.sessions label.session = none) (hreset : label.action = .reset)
    (hissued : s.issued label.session = false) : s.step parts task config label =
      some ([⟨label.session, .cache .create⟩], s.opened parts config label.session) := by
  simp [step, hnone, hreset, hissued]

theorem step_of_unknown {outcomes : List (Outcome R)}
    (hnone : s.sessions label.session = none) (hunknown : unknown label.action = some outcomes) :
    s.step parts task config label = some (outcomes.map (Event.mk label.session), s) := by
  unfold step
  rw [hnone]
  cases haction : label.action with
  | reset =>
      rw [haction] at hunknown
      cases hunknown
  | _ =>
      rw [haction] at hunknown
      simp only [hunknown, Option.map_some]

theorem step_of_some {session : Session R K} {outcomes : List (Outcome R)}
    {after : Option (Session R K)} (hsession : s.sessions label.session = some session)
    (hact : session.act parts task config s.table label.action = some (outcomes, after)) :
    s.step parts task config label =
      some (outcomes.map (Event.mk label.session), s.acted parts config label after) := by
  unfold step
  rw [hsession]
  simp only [hact, Option.map_some]

/-- A step opens a session, finds none, or is one of a session that is there. -/
theorem step_cases (h : s.step parts task config label = some (es, s')) :
    (s.sessions label.session = none ∧ label.action = .reset ∧
      s.issued label.session = false ∧ es = [⟨label.session, .cache .create⟩] ∧
      s' = s.opened parts config label.session) ∨
    (∃ outcomes, s.sessions label.session = none ∧ unknown label.action = some outcomes ∧
      es = outcomes.map (Event.mk label.session) ∧ s' = s) ∨
    ∃ session outcomes after, s.sessions label.session = some session ∧
      session.act parts task config s.table label.action = some (outcomes, after) ∧
      es = outcomes.map (Event.mk label.session) ∧ s' = s.acted parts config label after := by
  unfold step at h
  split at h
  · next hnone hreset =>
      split at h
      · cases h
      · next hissued =>
          cases h
          exact Or.inl ⟨hnone, hreset, by simpa using hissued, rfl, rfl⟩
  · next hnone _ =>
      obtain ⟨outcomes, hunknown, heq⟩ := Option.map_eq_some_iff.mp h
      cases heq
      exact Or.inr (Or.inl ⟨outcomes, hnone, hunknown, rfl, rfl⟩)
  · next session hsession =>
      obtain ⟨⟨outcomes, after⟩, hact, heq⟩ := Option.map_eq_some_iff.mp h
      cases heq
      exact Or.inr (Or.inr ⟨session, outcomes, after, hsession, hact, rfl, rfl⟩)

end StepCases

end Engine

/-- The engine with the schedulers as they were built. -/
def lingBotVA (parts : Parts R K X) (task : Task R) (config : LingBotVAConfig)
    (table : Mode → List R) : Machine (Engine R K) (Label R) (Event R) :=
  ⟨⟨table, fun _ => false, fun _ => none⟩, Engine.step parts task config⟩

/-! ## What a step can do -/

namespace Session

variable {parts : Parts R K X} {task : Task R} {config : LingBotVAConfig}
  {table : Mode → List R} {s : Session R K} {a : Action R}

/-- The transformer's cache of a session after a call. -/
def cacheAfterForward (parts : Parts R K X) (s : Session R K) (updateCache : Nat)
    (input : Input R) : K :=
  (parts.forward s.cache updateCache s.frameStId input).2

/-- The steps of a session, with what they emit and what they leave of it. -/
inductive Does (parts : Parts R K X) (task : Task R) (config : LingBotVAConfig)
    (table : Mode → List R) (s : Session R K) :
    Action R → List (Outcome R) → Option (Session R K) → Prop
  | encoded {latent context : Tensor R} (hpc : s.pc = .encoding) :
      Does parts task config table s (.encoded latent) [.state context]
        (some { s with initLatent := some latent, registered := true, pc := .idle })
  /-- the first executed actions replace the prediction -/
  | ground {values : List R} {latent actions full : Tensor R} (hpc : s.pc = .idle)
      (hinit : s.initLatent = some latent) (hframe : s.frameStId = 0)
      (hparsed : parseActionChunk config values = some actions)
      (hfull : normalizeActions task config.actionPerFrame config.actionDim actions =
        some full) :
      Does parts task config table s (.step values) [.cache .clearPred]
        (some { s with cache := parts.clearPredCache s.cache, pc := .pushingVideo latent full })
  /-- later ones only move the clock -/
  | imagine {values : List R} (hpc : s.pc = .idle)
      (hlate : s.initLatent = none ∨ s.frameStId ≠ 0) :
      Does parts task config table s (.step values) []
        (some { s with frameStId := s.frameStId + config.frameChunkSize, pc := .drawing .step })
  | parked {first : Tensor R} (hpc : s.pc = .idle) :
      Does parts task config table s .plan [.proposed first] (some s)
  | planned (hpc : s.pc = .idle) (hpending : s.pendingActions = none)
      (hregistered : s.registered = true) :
      Does parts task config table s .plan [] (some { s with pc := .drawing .plan })
  | drawn {purpose : Purpose} {latents actions : Tensor R} (hpc : s.pc = .drawing purpose)
      (hlatents : frameCount latents = config.frameChunkSize)
      (hactions : frameCount actions = config.frameChunkSize) :
      Does parts task config table s (.draw latents actions) []
        (some { s with pc := .scheduled purpose latents actions })
  | scheduled {purpose : Purpose} {latents actions : Tensor R}
      (hpc : s.pc = .scheduled purpose latents actions) :
      Does parts task config table s .advance []
        (some { s with pc := .denoisingVideo purpose latents actions (table .video ++ [0]) })
  | pushedVideo {latents actions : Tensor R} {input : Input R}
      (hpc : s.pc = .pushingVideo latents actions) (hmode : input.mode = .video)
      (hinput : input.noisyLatents = latents) :
      Does parts task config table s .advance [.cache (.forward 2 s.frameStId input)]
        (some { s with
          cache := s.cacheAfterForward parts 2 input
          pc := .pushingActions (frameCount latents) actions })
  | pushedActions {frames : Nat} {actions : Tensor R} {input : Input R}
      (hpc : s.pc = .pushingActions frames actions) (hmode : input.mode = .action)
      (hinput : input.noisyLatents = actions) :
      Does parts task config table s .advance [.cache (.forward 2 s.frameStId input)]
        (some { s with
          cache := s.cacheAfterForward parts 2 input
          frameStId := s.frameStId + frames
          pc := .drawing .step })
  | videoPass {purpose : Purpose} {latents actions next : Tensor R} {t : R} {rest : List R}
      {input : Input R} {pred : X}
      (hpc : s.pc = .denoisingVideo purpose latents actions (t :: rest))
      (hnext : next = s.videoLatents
        (parts.denoise .video (table .video) pred t (s.videoLatents latents))) :
      Does parts task config table s .advance [.cache (.forward 0 s.frameStId input)]
        (some { s with
          cache := s.cacheAfterForward parts 0 input
          pc := .denoisingVideo purpose next actions rest })
  | videoDone {purpose : Purpose} {latents actions next : Tensor R} {t : R} {rest ts : List R}
      {input : Input R} (hpc : s.pc = .denoisingVideo purpose latents actions (t :: rest))
      (hmode : input.mode = .video) (hinput : input.noisyLatents = s.videoLatents latents) :
      Does parts task config table s .advance [.cache (.forward 1 s.frameStId input)]
        (some { s with
          cache := s.cacheAfterForward parts 1 input
          pc := .denoisingActions purpose next actions ts })
  | actionPass {purpose : Purpose} {latents actions next : Tensor R} {t : R} {rest : List R}
      {input : Input R} {pred : X}
      (hpc : s.pc = .denoisingActions purpose latents actions (t :: rest))
      (hnext : next = s.cleanActions
        (parts.denoise .action (table .action) pred t (s.actionLatents task actions))) :
      Does parts task config table s .advance [.cache (.forward 0 s.frameStId input)]
        (some { s with
          cache := s.cacheAfterForward parts 0 input
          pc := .denoisingActions purpose latents next rest })
  | actionDone {purpose : Purpose} {latents actions proposed : Tensor R} {t : R}
      {rest : List R} {input : Input R} {outcome : Outcome R}
      (hpc : s.pc = .denoisingActions purpose latents actions (t :: rest))
      (hmode : input.mode = .action)
      (hinput : input.noisyLatents = s.actionLatents task actions)
      (houtcome : ∀ call, outcome ≠ .cache call) :
      Does parts task config table s .advance [.cache (.forward 1 s.frameStId input), outcome]
        (some { s with
          cache := s.cacheAfterForward parts 1 input
          pendingActions := some proposed
          pc := .idle })
  | released : Does parts task config table s .release [] none
  | failed {a : Action R} {es : List (Outcome R)} {s' : Session R K} (hraised : .raised ∈ es)
      (hpc : s'.pc = .idle) (hcache : s'.cache = es.foldl (Outcome.replay parts) s.cache) :
      Does parts task config table s a es (some s')

theorem fail_does {es : List (Outcome R)} {s' : Option (Session R K)}
    (h : some (s.fail.map id some) = some (es, s')) : Does parts task config table s a es s' := by
  cases h
  exact .failed (by simp) rfl rfl

theorem beginStep_does {values : List R} (hpc : s.pc = .idle) {es : List (Outcome R)}
    {s' : Session R K} (h : s.beginStep parts task config values = (es, s')) :
    Does parts task config table s (.step values) es (some s') := by
  unfold beginStep at h
  split at h
  · split at h
    · cases h
      exact .failed (by simp) rfl rfl
    · next actions hparsed =>
        unfold recondition at h
        split at h
        · next latent hinit hframe =>
            split at h
            · cases h
              exact .failed (by simp) rfl rfl
            · next full hfull =>
                cases h
                exact .ground hpc hinit hframe hparsed hfull
        · next hlate =>
            cases h
            refine .imagine hpc ?_
            cases hinit : s.initLatent with
            | none => exact Or.inl rfl
            | some latent => exact Or.inr fun hframe => hlate latent hinit hframe
  · cases h
    exact .failed (by simp) rfl rfl

theorem beginPlan_does (hpc : s.pc = .idle) {es : List (Outcome R)} {s' : Session R K}
    (h : s.beginPlan = (es, s')) : Does parts task config table s .plan es (some s') := by
  unfold beginPlan at h
  split at h
  · next hregistered =>
      split at h
      · unfold propose at h
        split at h
        · cases h
          exact .failed (by simp) rfl rfl
        · cases h
          have hsame : { s with pc := .idle } = s := by rw [← hpc]
          rw [hsame]
          exact .parked hpc
      · next hpending =>
          cases h
          exact .planned hpc hpending hregistered
  · cases h
    exact .failed (by simp) rfl rfl

theorem denoiseVideo_does {purpose : Purpose} {prompt : String} {latents actions : Tensor R}
    {t : R} {rest : List R} (hpc : s.pc = .denoisingVideo purpose latents actions (t :: rest))
    {es : List (Outcome R)} {s' : Session R K}
    (h : s.denoiseVideo parts table purpose prompt latents actions t rest = (es, s')) :
    Does parts task config table s .advance es (some s') := by
  unfold denoiseVideo forward at h
  simp only at h
  split at h
  · cases h
    exact .videoDone hpc rfl rfl
  · cases h
    exact .videoPass hpc rfl

theorem denoiseActions_does {purpose : Purpose} {prompt : String} {latents actions : Tensor R}
    {t : R} {rest : List R} (hpc : s.pc = .denoisingActions purpose latents actions (t :: rest))
    {es : List (Outcome R)} {s' : Session R K}
    (h : s.denoiseActions parts task table purpose prompt latents actions t rest = (es, s')) :
    Does parts task config table s .advance es (some s') := by
  unfold denoiseActions forward inferred at h
  simp only at h
  split at h
  · split at h
    · cases purpose with
      | step =>
          cases h
          exact .actionDone hpc rfl rfl nofun
      | plan =>
          simp only [propose] at h
          split at h
          · cases h
            exact .failed (by simp [fail]) rfl rfl
          · cases h
            exact .actionDone hpc rfl rfl nofun
    · cases h
      exact .failed (by simp [fail]) rfl rfl
  · cases h
    exact .actionPass hpc rfl

theorem advance_does {es : List (Outcome R)} {s' : Session R K}
    (h : s.advance parts task table = some (es, s')) :
    Does parts task config table s .advance es (some s') := by
  unfold advance at h
  split at h
  · next hpc =>
      cases h
      exact .scheduled hpc
  · next hpc _ =>
      cases h
      exact .pushedVideo hpc rfl rfl
  · next hpc _ =>
      cases h
      exact .pushedActions hpc rfl rfl
  · next hpc _ => exact denoiseVideo_does hpc (Option.some.inj h)
  · next hpc _ => exact denoiseActions_does hpc (Option.some.inj h)
  · cases h
    exact .failed (by simp) rfl rfl
  · cases h
    exact .failed (by simp) rfl rfl
  · cases h
    exact .failed (by simp) rfl rfl
  · cases h
    exact .failed (by simp) rfl rfl
  · cases h

theorem act_does {es : List (Outcome R)} {s' : Option (Session R K)}
    (h : s.act parts task config table a = some (es, s')) :
    Does parts task config table s a es s' := by
  cases a with
  | reset => cases h
  | encoded latent =>
      simp only [act] at h
      split at h
      · next hpc =>
          split at h
          · cases h
            exact .failed (by simp) rfl rfl
          · cases h
            exact .encoded hpc
      · cases h
  | step values =>
      simp only [act] at h
      split at h
      · next hpc =>
          cases h
          exact beginStep_does hpc rfl
      · cases h
  | plan =>
      simp only [act] at h
      split at h
      · next hpc =>
          cases h
          exact beginPlan_does hpc rfl
      · cases h
  | draw latents actions =>
      simp only [act] at h
      split at h
      · next hpc =>
          split at h
          · next hframes =>
              cases h
              exact .drawn hpc hframes.1 hframes.2
          · cases h
      · cases h
  | advance =>
      obtain ⟨⟨es', s''⟩, hadvance, heq⟩ := Option.map_eq_some_iff.mp h
      cases heq
      exact advance_does hadvance
  | raise =>
      simp only [act] at h
      split at h
      · cases h
      · exact fail_does h
  | release =>
      simp only [act] at h
      split at h
      · cases h
        exact .released
      · cases h

/-- A session's cache is what its calls of the transformer have made of it. -/
theorem Does.cache {es : List (Outcome R)} {s' : Session R K}
    (h : Does parts task config table s a es (some s')) :
    s'.cache = es.foldl (Outcome.replay parts) s.cache := by
  cases h with
  | failed hraised hpc hcache => exact hcache
  | @actionDone _ _ _ _ _ _ _ outcome _ _ _ houtcome =>
      cases outcome with
      | cache call => exact absurd rfl (houtcome call)
      | _ => rfl
  | _ => rfl

end Session

end Steps

end Repercep.Models.LingBotVA
