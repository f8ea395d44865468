import Repercep.Foundation.Counting
import Repercep.Foundation.Machine
import Mathlib.Data.Finset.Basic
set_option autoImplicit false

/-!
# World sessions

The handlers of `/v2/world/session` in `serving/app.py`, any number of them on one
event loop, and the engine calls they run on pool threads.  What is between two awaits
is one step.  An await returns, or it raises (an error, a disconnect, a cancellation);
a call that a pool thread has begun cannot be cancelled, and its result comes back.

`VLAEngine`, `LingBotVAEngine` and `DreamZeroEngine` open and drop their sessions alike:
`reset` mints an id, opens the pipeline session, encodes the observation and only then
registers the session; `release` drops both.
-/

namespace Repercep.Serving

open Repercep.Foundation

/-- A session id; `uuid4` never repeats one. -/
structure SessionId where
  val : Nat
  deriving DecidableEq, Repr

/-- `WorldState`. -/
structure WorldState (C : Type) where
  context : C
  stepIndex : Nat
  sessionId : SessionId
  deriving DecidableEq, Repr

/-- The sessions held by the pipeline, and those registered with the engine. -/
structure Engine where
  pipeline : Finset SessionId
  sessions : Finset SessionId
  minted : Nat

namespace Engine

/-- The first half of `reset`, to the return of `pipeline.reset`. -/
def openSession (e : Engine) : SessionId × Engine :=
  (⟨e.minted⟩, { e with pipeline := insert ⟨e.minted⟩ e.pipeline, minted := e.minted + 1 })

/-- `self._sessions[session_id] = _Session()`. -/
def register (e : Engine) (id : SessionId) : Engine :=
  { e with sessions := insert id e.sessions }

/-- `release`: pop the engine's session and `pipeline.close`. -/
def release (e : Engine) (id : SessionId) : Engine :=
  { e with sessions := e.sessions.erase id, pipeline := e.pipeline.erase id }

end Engine

/-- Where a handler is. -/
inductive Phase where
  /-- up to the return of `ws.accept` -/
  | accepting
  /-- telling the client that the capacity is reached -/
  | refusing
  | awaitReset
  /-- answering a first message that is no `ResetRequest` -/
  | rejecting
  /-- closing after the idle timeout -/
  | closing
  /-- `engine.reset`, to the return of `pipeline.reset` -/
  | opening
  /-- `engine.reset`, in `pipeline.encode_observation` -/
  | encoding (id : SessionId)
  /-- sending step 0 -/
  | acking
  | awaitAction
  /-- answering an invalid action -/
  | answering
  /-- `engine.step` -/
  | stepping
  /-- sending the latent step -/
  | sending
  /-- `engine.release`, in the `finally` -/
  | releasing
  | exited
  deriving DecidableEq, Repr

/-- Between `active_sessions += 1` and `active_sessions -= 1`. -/
def Phase.guarded : Phase → Bool
  | .accepting | .refusing | .releasing | .exited => false
  | _ => true

/-- A handler and its `opened_state`. -/
structure Handler (C : Type) where
  phase : Phase
  openedState : Option (WorldState C)
  deriving DecidableEq, Repr

/-- How `wait_for(ws.receive_text(), ...)` ends when it does not raise otherwise. -/
inductive Received where
  | valid
  /-- a text that fails validation -/
  | invalid
  | timeout
  | disconnect
  deriving DecidableEq, Repr

/-- Which await ends, and how. -/
inductive Label (C : Type) where
  | connect
  /-- `ws.accept` returns -/
  | accepted (i : Nat)
  | received (i : Nat) (message : Received)
  /-- a send or a close returns -/
  | sent (i : Nat)
  /-- `pipeline.reset` returns -/
  | opened (i : Nat)
  /-- `pipeline.encode_observation` returns, and `reset` with it -/
  | encoded (i : Nat) (context : C)
  /-- `engine.step` returns -/
  | stepped (i : Nat) (context : C)
  /-- `engine.release` is called -/
  | released (i : Nat)
  /-- the await raises -/
  | raised (i : Nat)

/-- What the engine sees of the handlers. -/
inductive Event (C : Type) where
  /-- `reset` or `step` returned the state to the handler -/
  | reached (i : Nat) (state : WorldState C)
  | released (i : Nat) (state : WorldState C)
  deriving DecidableEq, Repr

/-- The server: the cap, `active_sessions`, the engine and the handlers. -/
structure Server (C : Type) where
  maxSessions : Nat
  hasRelease : Bool
  activeSessions : Int
  engine : Engine
  handlers : List (Handler C)

namespace Server

variable {C : Type}

/-- A handler goes on at another place. -/
def goto (s : Server C) (i : Nat) (h : Handler C) : Server C :=
  { s with handlers := s.handlers.set i h }

/-- The `finally` block, up to the call of `release`. -/
def finish (s : Server C) (i : Nat) (h : Handler C) : Server C :=
  { s with activeSessions := s.activeSessions - 1 }.goto i
    { h with phase := if s.hasRelease && h.openedState.isSome then .releasing else .exited }

/-- The check of the capacity. -/
def checkCapacity (s : Server C) (i : Nat) (h : Handler C) : Server C :=
  if (s.maxSessions : Int) ≤ s.activeSessions then s.goto i { h with phase := .refusing }
  else { s with activeSessions := s.activeSessions + 1 }.goto i { h with phase := .awaitReset }

/-- A message, or the lack of one, where the handler waits for it. -/
def receive (s : Server C) (i : Nat) (h : Handler C) : Received → Option (Server C)
  | .valid =>
      match h.phase with
      | .awaitReset => some (s.goto i { h with phase := .opening })
      | .awaitAction => some (s.goto i { h with phase := .stepping })
      | _ => none
  | .invalid =>
      match h.phase with
      | .awaitReset => some (s.goto i { h with phase := .rejecting })
      | .awaitAction => some (s.goto i { h with phase := .answering })
      | _ => none
  | .timeout =>
      match h.phase with
      | .awaitReset | .awaitAction => some (s.goto i { h with phase := .closing })
      | _ => none
  | .disconnect =>
      match h.phase with
      | .awaitReset | .awaitAction => some (s.finish i h)
      | _ => none

/-- A send or a close returned. -/
def afterSend (s : Server C) (i : Nat) (h : Handler C) : Option (Server C) :=
  match h.phase with
  | .refusing => some (s.goto i { h with phase := .exited })
  | .rejecting | .closing => some (s.finish i h)
  | .acking | .answering | .sending => some (s.goto i { h with phase := .awaitAction })
  | _ => none

/-- An await raised. -/
def unwind (s : Server C) (i : Nat) (h : Handler C) : Option (Server C) :=
  match h.phase with
  | .accepting | .refusing => some (s.goto i { h with phase := .exited })
  | .releasing | .exited => none
  | _ => some (s.finish i h)

/-- `reset` returns its state, and the handler keeps it. -/
def afterReset (s : Server C) (i : Nat) (id : SessionId) (context : C) : List (Event C) × Server C :=
  let state : WorldState C := ⟨context, 0, id⟩
  ([.reached i state], { s with engine := s.engine.register id }.goto i ⟨.acking, some state⟩)

/-- `step` returns the next state, and the handler keeps it. -/
def afterStep (s : Server C) (i : Nat) (state : WorldState C) (context : C) :
    List (Event C) × Server C :=
  let next : WorldState C := ⟨context, state.stepIndex + 1, state.sessionId⟩
  ([.reached i next], s.goto i ⟨.sending, some next⟩)

/-- One step of one connection. -/
def step (s : Server C) : Label C → Option (List (Event C) × Server C)
  | .connect => some ([], { s with handlers := s.handlers ++ [⟨.accepting, none⟩] })
  | .accepted i =>
      match s.handlers[i]? with
      | some ⟨.accepting, opened⟩ => some ([], s.checkCapacity i ⟨.accepting, opened⟩)
      | _ => none
  | .received i message =>
      match s.handlers[i]? with
      | some h => (s.receive i h message).map ([], ·)
      | none => none
  | .sent i =>
      match s.handlers[i]? with
      | some h => (s.afterSend i h).map ([], ·)
      | none => none
  | .opened i =>
      match s.handlers[i]? with
      | some ⟨.opening, opened⟩ =>
          some ([], { s with engine := s.engine.openSession.2 }.goto i
            ⟨.encoding s.engine.openSession.1, opened⟩)
      | _ => none
  | .encoded i context =>
      match s.handlers[i]? with
      | some ⟨.encoding id, _⟩ => some (s.afterReset i id context)
      | _ => none
  | .stepped i context =>
      match s.handlers[i]? with
      | some ⟨.stepping, some state⟩ => some (s.afterStep i state context)
      | _ => none
  | .released i =>
      match s.handlers[i]? with
      | some ⟨.releasing, some state⟩ =>
          some ([.released i state],
            { s with engine := s.engine.release state.sessionId }.goto i ⟨.exited, some state⟩)
      | _ => none
  | .raised i =>
      match s.handlers[i]? with
      | some h => (s.unwind i h).map ([], ·)
      | none => none

end Server

/-- The handlers of one server, started with no session open. -/
def worldSession (C : Type) (maxSessions : Nat) (hasRelease : Bool) :
    Machine (Server C) (Label C) (Event C) where
  init := ⟨maxSessions, hasRelease, 0, ⟨∅, ∅, 0⟩, []⟩
  step := Server.step

/-! ## What a step can do -/

/-- The moves of a handler between phases that neither open nor end a session. -/
inductive Moves : Phase → Phase → Prop where
  | turnAway : Moves .accepting .exited
  | refuse : Moves .accepting .refusing
  | refused : Moves .refusing .exited
  | reset : Moves .awaitReset .opening
  | reject : Moves .awaitReset .rejecting
  | idle : Moves .awaitReset .closing
  | idleSession : Moves .awaitAction .closing
  | acked : Moves .acking .awaitAction
  | act : Moves .awaitAction .stepping
  | answer : Moves .awaitAction .answering
  | answered : Moves .answering .awaitAction
  | sent : Moves .sending .awaitAction

/-- The steps, one rule for each kind of outcome. -/
inductive Rule {C : Type} (s : Server C) : Label C → List (Event C) → Server C → Prop where
  | connect : Rule s .connect [] { s with handlers := s.handlers ++ [⟨.accepting, none⟩] }
  | checkCapacity {i opened} (hhandler : s.handlers[i]? = some ⟨.accepting, opened⟩)
      (hroom : s.activeSessions < s.maxSessions) :
      Rule s (.accepted i) []
        ({ s with activeSessions := s.activeSessions + 1 }.goto i ⟨.awaitReset, opened⟩)
  | move {label i phase phase' opened} (hhandler : s.handlers[i]? = some ⟨phase, opened⟩)
      (hmoves : Moves phase phase') : Rule s label [] (s.goto i ⟨phase', opened⟩)
  | finish {label i h} (hhandler : s.handlers[i]? = some h) (hguarded : h.phase.guarded = true)
      (hlabel : ∀ id, h.phase = .encoding id → label = .raised i) : Rule s label [] (s.finish i h)
  | opened {i opened} (hhandler : s.handlers[i]? = some ⟨.opening, opened⟩) :
      Rule s (.opened i) [] ({ s with engine := s.engine.openSession.2 }.goto i
        ⟨.encoding s.engine.openSession.1, opened⟩)
  | encoded {i id opened context} (hhandler : s.handlers[i]? = some ⟨.encoding id, opened⟩) :
      Rule s (.encoded i context) (s.afterReset i id context).1 (s.afterReset i id context).2
  | stepped {i state context} (hhandler : s.handlers[i]? = some ⟨.stepping, some state⟩) :
      Rule s (.stepped i context) (s.afterStep i state context).1 (s.afterStep i state context).2
  | released {i state} (hhandler : s.handlers[i]? = some ⟨.releasing, some state⟩) :
      Rule s (.released i) [.released i state]
        ({ s with engine := s.engine.release state.sessionId }.goto i ⟨.exited, some state⟩)

section Outcomes

variable {C : Type} {s t : Server C} {i : Nat} {h : Handler C}

theorem receive_rule {message : Received} (hhandler : s.handlers[i]? = some h)
    (hstep : s.receive i h message = some t) : Rule s (.received i message) [] t := by
  obtain ⟨phase, opened⟩ := h
  cases message with
  | valid =>
      cases phase <;> simp only [Server.receive, Option.some.injEq, reduceCtorEq] at hstep <;>
        subst hstep
      · exact .move hhandler .reset
      · exact .move hhandler .act
  | invalid =>
      cases phase <;> simp only [Server.receive, Option.some.injEq, reduceCtorEq] at hstep <;>
        subst hstep
      · exact .move hhandler .reject
      · exact .move hhandler .answer
  | timeout =>
      cases phase <;> simp only [Server.receive, Option.some.injEq, reduceCtorEq] at hstep <;>
        subst hstep
      · exact .move hhandler .idle
      · exact .move hhandler .idleSession
  | disconnect =>
      cases phase <;> simp only [Server.receive, Option.some.injEq, reduceCtorEq] at hstep <;>
        subst hstep <;> exact .finish hhandler rfl (by rintro id ⟨⟩)

theorem afterSend_rule (hhandler : s.handlers[i]? = some h) (hstep : s.afterSend i h = some t) :
    Rule s (.sent i) [] t := by
  obtain ⟨phase, opened⟩ := h
  cases phase <;> simp only [Server.afterSend, Option.some.injEq, reduceCtorEq] at hstep <;>
    subst hstep
  · exact .move hhandler .refused
  · exact .finish hhandler rfl (by rintro id ⟨⟩)
  · exact .finish hhandler rfl (by rintro id ⟨⟩)
  · exact .move hhandler .acked
  · exact .move hhandler .answered
  · exact .move hhandler .sent

theorem unwind_rule (hhandler : s.handlers[i]? = some h) (hstep : s.unwind i h = some t) :
    Rule s (.raised i) [] t := by
  obtain ⟨phase, opened⟩ := h
  cases phase with
  | accepting =>
      cases hstep
      exact .move hhandler .turnAway
  | refusing =>
      cases hstep
      exact .move hhandler .refused
  | releasing => cases hstep
  | exited => cases hstep
  | _ =>
      cases hstep
      exact .finish hhandler rfl fun _ _ => rfl

theorem checkCapacity_rule {opened : Option (WorldState C)}
    (hhandler : s.handlers[i]? = some ⟨.accepting, opened⟩) :
    Rule s (.accepted i) [] (s.checkCapacity i ⟨.accepting, opened⟩) := by
  unfold Server.checkCapacity
  split
  · exact .move hhandler .refuse
  · exact .checkCapacity hhandler (by omega)

end Outcomes

/-- Every step is the outcome of one rule. -/
theorem step_rule {C : Type} {s t : Server C} {label : Label C} {es : List (Event C)}
    (hstep : s.step label = some (es, t)) : Rule s label es t := by
  cases label with
  | connect =>
      cases hstep
      exact .connect
  | accepted i =>
      simp only [Server.step] at hstep
      split at hstep
      · cases hstep
        exact checkCapacity_rule ‹_›
      · cases hstep
  | received i message =>
      simp only [Server.step] at hstep
      split at hstep
      · obtain ⟨t, ht, hpair⟩ := Option.map_eq_some_iff.mp hstep
        cases hpair
        exact receive_rule ‹_› ht
      · cases hstep
  | sent i =>
      simp only [Server.step] at hstep
      split at hstep
      · obtain ⟨t, ht, hpair⟩ := Option.map_eq_some_iff.mp hstep
        cases hpair
        exact afterSend_rule ‹_› ht
      · cases hstep
  | opened i =>
      simp only [Server.step] at hstep
      split at hstep
      · cases hstep
        exact .opened ‹_›
      · cases hstep
  | encoded i context =>
      simp only [Server.step] at hstep
      split at hstep
      · cases hstep
        exact .encoded ‹_›
      · cases hstep
  | stepped i context =>
      simp only [Server.step] at hstep
      split at hstep
      · cases hstep
        exact .stepped ‹_›
      · cases hstep
  | released i =>
      simp only [Server.step] at hstep
      split at hstep
      · cases hstep
        exact .released ‹_›
      · cases hstep
  | raised i =>
      simp only [Server.step] at hstep
      split at hstep
      · obtain ⟨t, ht, hpair⟩ := Option.map_eq_some_iff.mp hstep
        cases hpair
        exact unwind_rule ‹_› ht
      · cases hstep

end Repercep.Serving
