import Repercep.Foundation.Machine
import Mathlib.Logic.Function.Basic
set_option autoImplicit false

/-!
# DreamZero: many sessions on one action head

`DreamZeroPipeline` of `models/dreamzero_pipeline.py`.  The reference model keeps the
state of its one session in attributes of the action head.  The pipeline keeps a copy of
these attributes for every session, writes it onto the head before a model call and
reads it back afterwards.  A call is three steps of a pool thread, with nothing that
keeps the threads of other sessions out in between.

The attribute values are values, the model an arbitrary function of the attributes and
its inputs, which may raise after it has changed the attributes.
-/

namespace Repercep.Models

open Repercep.Foundation

/-- `_SWAP_ATTRS`. -/
inductive SwapAttr where
  | kvCache1
  | kvCacheNeg
  | crossattnCache
  | crossattnCacheNeg
  | clipFeas
  | ys
  | currentStartFrame
  | language
  deriving DecidableEq, Repr

/-- `_SWAP_ATTRS`, in its order. -/
def swapAttrs : List SwapAttr :=
  [.kvCache1, .kvCacheNeg, .crossattnCache, .crossattnCacheNeg, .clipFeas, .ys,
    .currentStartFrame, .language]

/-- The value of an attribute. -/
inductive Value (X : Type) where
  | none
  | int (n : Int)
  | object (x : X)
  deriving DecidableEq, Repr

/-- The attributes of the action head, or a session's copy of them. -/
abbrev Attrs (X : Type) : Type := SwapAttr → Value X

/-- `dict.fromkeys(_SWAP_ATTRS)` with `current_start_frame` set to zero. -/
def freshSwap (X : Type) : Attrs X :=
  Function.update (fun _ => .none) .currentStartFrame (.int 0)

/-- `_swap_in`: set every saved attribute on the head. -/
def swapIn {X : Type} (head saved : Attrs X) : Attrs X :=
  swapAttrs.foldl (fun head attr => Function.update head attr (saved attr)) head

/-- `_swap_out`: copy every attribute of the head. -/
def swapOut {X : Type} (head saved : Attrs X) : Attrs X :=
  swapAttrs.foldl (fun saved attr => Function.update saved attr (head attr)) saved

theorem mem_swapAttrs (attr : SwapAttr) : attr ∈ swapAttrs := by
  cases attr <;> decide

/-- A loop of updates leaves the new value on every attribute it visits. -/
theorem foldl_update {X : Type} (new : Attrs X) (attrs : List SwapAttr) :
    ∀ (old : Attrs X) (attr : SwapAttr),
      attrs.foldl (fun old attr => Function.update old attr (new attr)) old attr =
        if attr ∈ attrs then new attr else old attr := by
  induction attrs with
  | nil => intro old attr; rfl
  | cons a attrs ih =>
      intro old attr
      rw [List.foldl_cons, ih, Function.update_apply]
      by_cases hmem : attr ∈ attrs
      · simp [hmem]
      · by_cases ha : attr = a
        · simp [ha]
        · simp [hmem, ha]

/-- The copy replaces all of the head's session state. -/
theorem swapIn_eq {X : Type} (head saved : Attrs X) : swapIn head saved = saved := by
  funext attr
  rw [swapIn, foldl_update, if_pos (mem_swapAttrs attr)]

theorem swapOut_eq {X : Type} (head saved : Attrs X) : swapOut head saved = head := by
  funext attr
  rw [swapOut, foldl_update, if_pos (mem_swapAttrs attr)]

/-- A session id. -/
structure SessionId where
  val : Nat
  deriving DecidableEq, Repr

/-- `self._sessions[session_id]`. -/
structure Session (X V : Type) where
  prompt : String
  swap : Attrs X
  pendingLatentVideo : Option V
  lastVideoPred : Option V

/-- What `lazy_joint_video_action` is called with: the prompt, the images (none when
`infer_chunk` passes zeros) and the latent video. -/
structure Input (I V : Type) where
  prompt : String
  images : Option I
  latentVideo : Option V

/-- The model: the attributes it leaves on the head, and the video and the actions
unless it raises. -/
abbrev Model (X I V U : Type) : Type := Attrs X → Input I V → Attrs X × Option (V × U)

/-- The method whose call is in progress. -/
inductive Method where
  | encodeObservation
  | inferChunk
  deriving DecidableEq, Repr

/-- Where a call of `_infer` is. -/
inductive Phase (I V U : Type) where
  /-- before `_swap_in` -/
  | swapIn (input : Input I V)
  /-- before the model call -/
  | model (input : Input I V)
  /-- before `_swap_out` -/
  | swapOut (video : V) (actions : U)

/-- A call in progress. -/
structure Call (I V U : Type) where
  method : Method
  phase : Phase I V U

/-- The calls on one session, made one after the other by its handler. -/
inductive Action (I V : Type) where
  | reset (prompt : Option String)
  /-- the images, unless they cannot be loaded -/
  | encodeObservation (images : Option I)
  | recondition (obsLatent : Option V)
  | inferChunk
  | close
  /-- the next step of the call in progress -/
  | advance

/-- A session's call, or a step of it. -/
structure Label (I V : Type) where
  session : SessionId
  action : Action I V

/-- How a call ends. -/
inductive Outcome (V U : Type) where
  | encoded (video : V)
  | inferred (video : V) (actions : U)
  | reconditioned
  | raised
  deriving DecidableEq, Repr

/-- A call's result, as its session sees it. -/
structure Event (V U : Type) where
  session : SessionId
  outcome : Outcome V U
  deriving DecidableEq, Repr

/-- The head, the sessions and the calls in progress. -/
structure Pipeline (X I V U : Type) where
  head : Attrs X
  sessions : SessionId → Option (Session X V)
  calls : SessionId → Option (Call I V U)

namespace Pipeline

variable {X I V U : Type}

/-- The pipeline with another entry for a session. -/
def setSession (s : Pipeline X I V U) (id : SessionId) (session : Option (Session X V)) :
    Pipeline X I V U :=
  { s with sessions := Function.update s.sessions id session }

/-- The pipeline with a call at another place. -/
def setCall (s : Pipeline X I V U) (id : SessionId) (call : Option (Call I V U)) :
    Pipeline X I V U :=
  { s with calls := Function.update s.calls id call }

/-- `reset`. -/
def reset (s : Pipeline X I V U) (id : SessionId) (prompt : Option String) : Pipeline X I V U :=
  s.setSession id (some ⟨prompt.getD "", freshSwap X, none, none⟩)

/-- The session's attributes go onto the head. -/
def stepSwapIn (s : Pipeline X I V U) (id : SessionId) (session : Session X V) (call : Call I V U)
    (input : Input I V) : Pipeline X I V U :=
  { s with head := Repercep.Models.swapIn s.head session.swap }.setCall id
    (some { call with phase := .model input })

/-- The model runs on whatever the head holds. -/
def stepModel (model : Model X I V U) (s : Pipeline X I V U) (id : SessionId) (call : Call I V U)
    (input : Input I V) : List (Event V U) × Pipeline X I V U :=
  match model s.head input with
  | (head, some (video, actions)) =>
      ([], { s with head := head }.setCall id (some { call with phase := .swapOut video actions }))
  | (head, none) => ([⟨id, .raised⟩], { s with head := head }.setCall id none)

/-- The attributes of the head go to the session, and the call returns. -/
def stepSwapOut (s : Pipeline X I V U) (id : SessionId) (session : Session X V) (method : Method)
    (video : V) (actions : U) : List (Event V U) × Pipeline X I V U :=
  let after := { session with
    swap := Repercep.Models.swapOut s.head session.swap, lastVideoPred := some video }
  let outcome := match method with
    | .encodeObservation => Outcome.encoded video
    | .inferChunk => .inferred video actions
  ([⟨id, outcome⟩], (s.setSession id (some after)).setCall id none)

/-- A step of a call in progress on an open session. -/
def advance (model : Model X I V U) (s : Pipeline X I V U) (id : SessionId)
    (session : Session X V) (call : Call I V U) : List (Event V U) × Pipeline X I V U :=
  match call.phase with
  | .swapIn input => ([], s.stepSwapIn id session call input)
  | .model input => stepModel model s id call input
  | .swapOut video actions => s.stepSwapOut id session call.method video actions

/-- A call that begins. -/
def begin (s : Pipeline X I V U) (id : SessionId) (session : Session X V) :
    Action I V → Option (List (Event V U) × Pipeline X I V U)
  | .encodeObservation (some images) =>
      some ([], s.setCall id
        (some ⟨.encodeObservation, .swapIn ⟨session.prompt, some images, none⟩⟩))
  | .encodeObservation none => some ([⟨id, .raised⟩], s)
  | .recondition obsLatent =>
      some ([⟨id, .reconditioned⟩],
        s.setSession id (some { session with pendingLatentVideo := obsLatent }))
  | .inferChunk =>
      let latentVideo := session.pendingLatentVideo.orElse fun _ => session.lastVideoPred
      some ([], (s.setSession id (some { session with pendingLatentVideo := none })).setCall id
        (some ⟨.inferChunk, .swapIn ⟨session.prompt, none, latentVideo⟩⟩))
  | .close => some ([], s.setSession id none)
  | .reset _ | .advance => none

/-- One step.  A session's handler begins a call only after the one before has ended. -/
def step (model : Model X I V U) (s : Pipeline X I V U) (label : Label I V) :
    Option (List (Event V U) × Pipeline X I V U) :=
  match s.sessions label.session, s.calls label.session, label.action with
  | some session, some call, .advance => some (advance model s label.session session call)
  | _, none, .reset prompt => some ([], s.reset label.session prompt)
  | some session, none, action => s.begin label.session session action
  | _, _, _ => none

end Pipeline

/-- The pipeline with whatever the head holds at first. -/
def dreamZero {X I V U : Type} (model : Model X I V U) (head : Attrs X) :
    Machine (Pipeline X I V U) (Label I V) (Event V U) where
  init := ⟨head, fun _ => none, fun _ => none⟩
  step := Pipeline.step model

end Repercep.Models
