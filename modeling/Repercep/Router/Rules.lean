import Repercep.Router.Concurrent
set_option autoImplicit false

/-!
# Router: the step relation

Everything one step of the router under interleaved calls can do, as one relation
with a rule per outcome: the program counter the rule finds, the guard under which
it applies, the events it emits and the system it leaves.  An invariant of the
router is then one case analysis over the rules.
-/

namespace Repercep.Router

open Repercep.Foundation

namespace Sys

/-- `Rule s a es t`: the label `a` takes `s` to `t`, emitting `es`. -/
inductive Rule (s : Sys) : Action → List Event → Sys → Prop where
  | invoke {c : CallId} {op : Op} (hfree : s.calls c = none) :
      Rule s (.invoke c op) [] (s.advance c (.called op) s.inner)
  /-- `ensure_open` passes -/
  | opens {c : CallId} {op : Op} (hcall : s.calls c = some (.called op))
      (hopen : s.inner.shuttingDown = false) :
      Rule s (.ensureOpen c) [] (s.advance c (.opened op) s.inner)
  /-- `ensure_open` refuses -/
  | shut {c : CallId} {op : Op} {e : RouterError} (hcall : s.calls c = some (.called op))
      (hshut : s.inner.shuttingDown = true) :
      Rule s (.ensureOpen c) [] (s.advance c (.done (.error e)) s.inner)
  /-- a locked section refuses; a `cancel` does so only on an unknown id or a
  terminal request -/
  | refuse {c : CallId} {op : Op} {e : RouterError} (hcall : s.calls c = some (.opened op))
      (hcancel : ∀ id, op = .cancel id → ∀ entry, s.inner.requests id = some entry →
        entry.state.isTerminal = true) :
      Rule s (.enter c) [] (s.advance c (.done (.error e)) s.inner)
  | register {c : CallId} {req : RouterRequest} {r : Inner}
      (hcall : s.calls c = some (.opened (.accept req)))
      (hregister : s.inner.register req = (.ok (), r)) :
      Rule s (.enter c) [] (s.advance c (.submitting req) r)
  | validate {c : CallId} {frame : Frame} {ch : ChanId} {r : Inner}
      (hcall : s.calls c = some (.opened (.pushFrame frame)))
      (hvalidate : s.inner.validate frame = (.ok ch, r)) :
      Rule s (.enter c) [] (s.advance c (.sending frame ch) r)
  | subscribe {c : CallId} {id : RequestId} {ch : ChanId} {r : Inner}
      (hcall : s.calls c = some (.opened (.subscribe id)))
      (htake : s.inner.takeReceiver id = (.ok ch, r)) :
      Rule s (.enter c) [] ((s.advance c (.done (.ok ())) r).hold ch)
  | cancel {c : CallId} {id : RequestId} {r : Inner}
      (hcall : s.calls c = some (.opened (.cancel id)))
      (hcancel : s.inner.cancelEntry id = (.ok (), r)) :
      Rule s (.enter c) [] (s.advance c (.done (.ok ())) r)
  /-- the scheduler refuses the submission -/
  | unsubmitted {c : CallId} {req : RouterRequest} {e : RouterError}
      (hcall : s.calls c = some (.submitting req)) :
      Rule s (.submitted c (.error e)) [] (s.advance c (.rollingBack req e) s.inner)
  | submitted {c : CallId} {req : RouterRequest}
      (hcall : s.calls c = some (.submitting req)) :
      Rule s (.submitted c (.ok ())) [] (s.advance c (.done (.ok ())) s.inner)
  | rollback {c : CallId} {req : RouterRequest} {e : RouterError}
      (hcall : s.calls c = some (.rollingBack req e)) :
      Rule s (.rollback c) [] (s.advance c (.done (.error e)) (s.inner.rollback req.id))
  /-- `try_send` is refused -/
  | unsent {c : CallId} {frame : Frame} {ch : ChanId} {e : RouterError}
      (hcall : s.calls c = some (.sending frame ch))
      (hroom : ¬ (s.inner.chans ch).HasRoom) :
      Rule s (.send c) [] (s.advance c (.done (.error e)) (s.inner.dropSender (some ch)))
  | sentFinal {c : CallId} {frame : Frame} {ch : ChanId} {k : Channel Frame}
      (hcall : s.calls c = some (.sending frame ch))
      (hroom : (s.inner.chans ch).HasRoom)
      (happends : (s.inner.chans ch).Appends frame k) (hfinal : frame.isFinal = true) :
      Rule s (.send c) [.enqueued ch frame]
        (s.advance c (.completing frame ch) (s.inner.setChan ch k))
  | sent {c : CallId} {frame : Frame} {ch : ChanId} {k : Channel Frame}
      (hcall : s.calls c = some (.sending frame ch))
      (hroom : (s.inner.chans ch).HasRoom)
      (happends : (s.inner.chans ch).Appends frame k) (hfinal : frame.isFinal = false) :
      Rule s (.send c) [.enqueued ch frame]
        (s.advance c (.done (.ok ())) ((s.inner.setChan ch k).dropSender (some ch)))
  | complete {c : CallId} {frame : Frame} {ch : ChanId}
      (hcall : s.calls c = some (.completing frame ch)) :
      Rule s (.complete c) [] (s.advance c (.done (.ok ()))
        ((s.inner.complete frame.requestId).dropSender (some ch)))
  /-- the holder of a receiver reads a frame -/
  | deliver {ch : ChanId} {frame : Frame} {k : Channel Frame} (hheld : s.held ch = true)
      (htakes : (s.inner.chans ch).Takes frame k) :
      Rule s (.recv ch) [.delivered ch frame] { s with inner := s.inner.setChan ch k }
  /-- the holder of a receiver reads the end of the stream -/
  | ended {ch : ChanId} (hheld : s.held ch = true)
      (hbuffer : (s.inner.chans ch).buffer = []) (hsenders : (s.inner.chans ch).senders = 0) :
      Rule s (.recv ch) [.ended ch] s
  | dropReceiver {ch : ChanId} (hheld : s.held ch = true) :
      Rule s (.dropReceiver ch) [] { s with
        inner := s.inner.dropReceiver (some ch)
        held := Function.update s.held ch false }
  | shutdown : Rule s .shutdown [] { s with inner := s.inner.shutdown }

/-- The locked section of an open call follows a rule. -/
theorem enterOp_rule {s : Sys} {c : CallId} {op : Op} (hcall : s.calls c = some (.opened op)) :
    s.Rule (.enter c) [] (s.enterOp c op) := by
  cases op with
  | accept req =>
      rcases hregister : s.inner.register req with ⟨err | u, r⟩
      · cases Inner.register_error hregister
        simp only [enterOp, hregister]
        exact .refuse hcall (by simp)
      · simp only [enterOp, hregister]
        exact .register hcall hregister
  | pushFrame frame =>
      rcases hvalidate : s.inner.validate frame with ⟨err | ch, r⟩
      · cases (Inner.validate_error hvalidate).1
        simp only [enterOp, hvalidate]
        exact .refuse hcall (by simp)
      · simp only [enterOp, hvalidate]
        exact .validate hcall hvalidate
  | subscribe id =>
      rcases htake : s.inner.takeReceiver id with ⟨err | ch, r⟩
      · cases Inner.takeReceiver_error htake
        simp only [enterOp, htake]
        exact .refuse hcall (by simp)
      · simp only [enterOp, htake]
        exact .subscribe hcall htake
  | cancel id =>
      rcases hcancel : s.inner.cancelEntry id with ⟨err | u, r⟩
      · obtain ⟨rfl, hterminal⟩ := Inner.cancelEntry_error hcancel
        simp only [enterOp, hcancel]
        refine .refuse hcall ?_
        rintro id' heq entry hentry
        cases heq
        exact hterminal entry hentry
      · simp only [enterOp, hcancel]
        exact .cancel hcall hcancel

/-- Every step follows a rule. -/
theorem step_rule {s t : Sys} {a : Action} {es : List Event}
    (h : s.step a = some (es, t)) : s.Rule a es t := by
  cases a with
  | invoke c op =>
      obtain ⟨hfree, rfl, rfl⟩ := step_invoke h
      exact .invoke hfree
  | ensureOpen c =>
      obtain ⟨rfl, op, hcall, hcase⟩ := step_ensureOpen h
      rcases hcase with ⟨hopen, rfl⟩ | ⟨e, hshut, rfl⟩
      · exact .opens hcall hopen
      · exact .shut hcall hshut
  | enter c =>
      obtain ⟨rfl, op, hcall, rfl⟩ := step_enter h
      exact enterOp_rule hcall
  | submitted c answer =>
      obtain ⟨rfl, req, hcall, ⟨e, rfl, rfl⟩ | ⟨rfl, rfl⟩⟩ := step_submitted h
      · exact .unsubmitted hcall
      · exact .submitted hcall
  | rollback c =>
      obtain ⟨rfl, req, e, hcall, rfl⟩ := step_rollback h
      exact .rollback hcall
  | send c =>
      obtain ⟨frame, ch, hcall, hsend⟩ := step_send h
      rcases sendCall_cases hsend with ⟨rfl, hroom, e, rfl⟩ |
        ⟨rfl, hroom, k, happends, ⟨hfinal, rfl⟩ | ⟨hfinal, rfl⟩⟩
      · exact .unsent hcall hroom
      · exact .sentFinal hcall hroom happends hfinal
      · exact .sent hcall hroom happends hfinal
  | complete c =>
      obtain ⟨rfl, frame, ch, hcall, rfl⟩ := step_complete h
      exact .complete hcall
  | recv ch =>
      obtain ⟨hheld, hread⟩ := step_recv h
      rcases read_cases hread with ⟨frame, k, rfl, htakes, rfl⟩ | ⟨rfl, rfl, hbuffer, hsenders⟩
      · exact .deliver hheld htakes
      · exact .ended hheld hbuffer hsenders
  | dropReceiver ch =>
      obtain ⟨hheld, rfl, rfl⟩ := step_dropReceiver h
      exact .dropReceiver hheld
  | shutdown =>
      obtain ⟨rfl, rfl⟩ := step_shutdown h
      exact .shutdown

end Sys

end Repercep.Router
