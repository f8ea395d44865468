import Repercep.Foundation.Tensor
import Repercep.Models.Isolation
set_option autoImplicit false

/-!
# DreamZero: the engine on its pipeline

`DreamZeroEngine` of `models/dreamzero.py`.  For each session the engine keeps a frame clock
and the last proposal, the pipeline the attributes of the model and the last video.  A call
of the engine makes calls of the pipeline, and the sessions take their steps in any order.
Which state of its own session a client passes in makes no difference.
-/

namespace Repercep.Models.DreamZeroEngine

open Repercep.Foundation

/-! ## The engine -/

/-- The fields of the configuration that the engine reads. -/
structure DreamZeroConfig where
  prompt : Option String
  numFramePerBlock : Nat
  actionDim : Nat
  usedActionDim : Option Nat

/-- `_wire_action_dim`; `or` skips a zero. -/
def DreamZeroConfig.wireActionDim (config : DreamZeroConfig) : Nat :=
  match config.usedActionDim with
  | some (d + 1) => d + 1
  | _ => config.actionDim

theorem size_of_flat {R : Type} (values : List R) : values.length = [values.length].prod :=
  List.prod_singleton.symm

/-- `_parse_action_chunk`; `none` where it raises. -/
def parseActionChunk {R : Type} (config : DreamZeroConfig) (values : List R) :
    Option (Tensor R) :=
  if config.wireActionDim = 0 ∨ values.length % config.wireActionDim ≠ 0 then none
  else (Tensor.mk [values.length] values (size_of_flat values)).reshape
    [-1, (config.wireActionDim : Int)]

/-- A proposed chunk; it has a first action. -/
structure Actions (R : Type) where
  first : List R
  rest : List (List R)

/-- `_Session`. -/
structure EngineSession (R : Type) where
  currentStartFrame : Nat
  pendingActions : Option (Actions R)

/-- A call of the engine in progress: its calls of the pipeline are still to be made, or are
under way. -/
inductive EngineCall (I : Type) where
  /-- the images that `encode_observation` loads, unless they cannot be loaded -/
  | reset (images : Option I)
  | step
  | plan

/-- The engine's calls, and the next step of one. -/
inductive Request (I R : Type) where
  | reset (images : Option I)
  | step (values : List R)
  | plan
  | release
  | advance

/-- A session and what is done to it. -/
structure EngineLabel (I R : Type) where
  session : SessionId
  request : Request I R

/-- How a call ends. -/
inductive Answer (V R : Type) where
  /-- `reset` returns a state with this video -/
  | opened (video : V)
  | stepped (video : V)
  | proposed (action : List R)
  | raised
  deriving DecidableEq

/-- A session and what is answered to it. -/
structure EngineEvent (V R : Type) where
  session : SessionId
  answer : Answer V R
  deriving DecidableEq

/-- The engine over its pipeline: the ids it has given out, its sessions, and the calls under way.
-/
structure Engine (X I V R : Type) where
  pipeline : Pipeline X I V (Actions R)
  issued : SessionId → Bool
  sessions : SessionId → Option (EngineSession R)
  calls : SessionId → Option (EngineCall I)

/-- What a call does next in the pipeline. -/
def EngineCall.next {I V : Type} (call : EngineCall I) (inPipeline : Bool) : Action I V :=
  match inPipeline, call with
  | true, _ => .advance
  | false, .reset images => .encodeObservation images
  | false, .step | false, .plan => .inferChunk

namespace Engine

variable {X I V R : Type}

/-- The engine with another entry for a session. -/
def setSession (s : Engine X I V R) (id : SessionId) (session : Option (EngineSession R)) :
    Engine X I V R :=
  { s with sessions := Function.update s.sessions id session }

/-- The engine with a call at another place. -/
def setCall (s : Engine X I V R) (id : SessionId) (call : Option (EngineCall I)) :
    Engine X I V R :=
  { s with calls := Function.update s.calls id call }

/-- A step of the pipeline. -/
def drive (model : Model X I V (Actions R)) (s : Engine X I V R) (id : SessionId)
    (action : Action I V) : Option (List (Event V (Actions R)) × Engine X I V R) :=
  (Pipeline.step model s.pipeline ⟨id, action⟩).map fun r => (r.1, { s with pipeline := r.2 })

/-- What the engine makes of what a step of the pipeline has returned: its answers, what it
keeps for the session, and the call if it goes on. -/
def react (session : Option (EngineSession R)) (call : EngineCall I) :
    List (Outcome V (Actions R)) →
      List (Answer V R) × Option (EngineSession R) × Option (EngineCall I)
  | [.encoded video] => ([.opened video], some ⟨0, none⟩, none)
  | [.inferred video actions] =>
      let parked := session.map fun kept => { kept with pendingActions := some actions }
      match call with
      | .plan => ([.proposed actions.first], parked, none)
      | _ => ([.stepped video], parked, none)
  | [.raised] => ([.raised], session, none)
  | _ => ([], session, some call)

/-- A call has taken a step in the pipeline. -/
def returned (s : Engine X I V R) (id : SessionId) (call : EngineCall I)
    (es : List (Event V (Actions R))) : List (EngineEvent V R) × Engine X I V R :=
  match react (s.sessions id) call (es.map Event.outcome) with
  | (answers, session, call) =>
      (answers.map fun answer => ⟨id, answer⟩, (s.setSession id session).setCall id call)

/-- `step`, up to `infer_chunk`.  `recondition` is given the executed actions and the clock,
and reads neither. -/
def beginStep (model : Model X I V (Actions R)) (config : DreamZeroConfig) (s : Engine X I V R)
    (id : SessionId) (values : List R) : Option (List (EngineEvent V R) × Engine X I V R) :=
  match s.sessions id, parseActionChunk config values with
  | some session, some _ =>
      (s.drive model id (.recondition none)).map fun r =>
        ([], (r.2.setSession id (some { session with
          currentStartFrame := session.currentStartFrame + config.numFramePerBlock })).setCall id
            (some .step))
  | _, _ => some ([⟨id, .raised⟩], s)

/-- `plan`, up to `infer_chunk`, if nothing is parked. -/
def beginPlan (s : Engine X I V R) (id : SessionId) : List (EngineEvent V R) × Engine X I V R :=
  match s.sessions id with
  | none => ([⟨id, .raised⟩], s)
  | some session =>
      match session.pendingActions with
      | some actions => ([⟨id, .proposed actions.first⟩], s)
      | none => ([], s.setCall id (some .plan))

/-- `release`; both dictionaries are popped with a default. -/
def release (model : Model X I V (Actions R)) (s : Engine X I V R) (id : SessionId) :
    Engine X I V R :=
  match (s.setSession id none).drive model id .close with
  | some r => r.2
  | none => s.setSession id none

/-- One step.  A session's handler makes its calls one after the other. -/
def step (model : Model X I V (Actions R)) (config : DreamZeroConfig) (s : Engine X I V R)
    (label : EngineLabel I R) : Option (List (EngineEvent V R) × Engine X I V R) :=
  let id := label.session
  match s.calls id, label.request with
  | none, .reset images =>
      -- `uuid4` never repeats an id
      if s.issued id then none
      else (s.drive model id (.reset config.prompt)).map fun r =>
        ([], { r.2.setCall id (some (.reset images)) with
          issued := Function.update s.issued id true })
  | none, .step values => s.beginStep model config id values
  | none, .plan => some (s.beginPlan id)
  | none, .release => some ([], s.release model id)
  | some call, .advance =>
      (s.drive model id (call.next (s.pipeline.calls id).isSome)).map fun r =>
        r.2.returned id call r.1
  | _, _ => none

end Engine

/-- The engine with whatever the head holds at first. -/
def dreamZeroEngine {X I V R : Type} (model : Model X I V (Actions R)) (config : DreamZeroConfig)
    (head : Attrs X) : Machine (Engine X I V R) (EngineLabel I R) (EngineEvent V R) where
  init := ⟨(dreamZero model head).init, fun _ => false, fun _ => none, fun _ => none⟩
  step := Engine.step model config

end Repercep.Models.DreamZeroEngine
