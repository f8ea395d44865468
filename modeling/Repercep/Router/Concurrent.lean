import Repercep.Foundation.Machine
import Repercep.Router.Ops
set_option autoImplicit false

/-!
# Router: interleaved calls

Any number of threads call the router at once.  A call is a program counter
between its locked sections: the schedule says which call runs its next section,
so every interleaving of `ensure_open`, the locked sections, the unlocked
`try_send` and the scheduler callback is a schedule.  A call's `Sender` clone is
held by its program counter; a `Receiver` handed to a subscriber is held by the
subscriber (`held`), who reads it and may drop it.
-/

namespace Repercep.Router

open Repercep.Foundation

/-- A call of the router, under way or returned. -/
abbrev CallId : Type := Nat

/-- The methods a caller can invoke. -/
inductive Op where
  | accept (req : RouterRequest)
  | pushFrame (frame : Frame)
  | subscribe (id : RequestId)
  | cancel (id : RequestId)
  deriving DecidableEq, Repr

/-- How far a call has come. -/
inductive Call where
  /-- nothing has run yet -/
  | called (op : Op)
  /-- `ensure_open` has passed -/
  | opened (op : Op)
  /-- `accept`: the entry is in, `scheduler.submit` is running -/
  | submitting (req : RouterRequest)
  /-- `accept`: the scheduler refused, the rollback is due -/
  | rollingBack (req : RouterRequest) (err : RouterError)
  /-- `push_frame`: phase 1 has passed, `try_send` is due -/
  | sending (frame : Frame) (ch : ChanId)
  /-- `push_frame`: the final frame is queued, phase 3 is due -/
  | completing (frame : Frame) (ch : ChanId)
  | done (result : Except RouterError Unit)

/-- One scheduled step. -/
inductive Action where
  | invoke (c : CallId) (op : Op)
  | ensureOpen (c : CallId)
  | enter (c : CallId)
  | submitted (c : CallId) (answer : Except RouterError Unit)
  | rollback (c : CallId)
  | send (c : CallId)
  | complete (c : CallId)
  | recv (ch : ChanId)
  | dropReceiver (ch : ChanId)
  | shutdown

/-- What the steps let an observer of the channels see. -/
inductive Event where
  | enqueued (ch : ChanId) (frame : Frame)
  | delivered (ch : ChanId) (frame : Frame)
  | ended (ch : ChanId)
  deriving DecidableEq, Repr

/-- The router with the calls in flight and the receivers held outside it. -/
structure Sys where
  inner : Inner
  calls : CallId → Option Call
  held : ChanId → Bool

namespace Sys

/-- Move a call to its next program counter, with the state its section left. -/
@[simps -fullyApplied] def advance (s : Sys) (c : CallId) (call : Call) (r : Inner) : Sys :=
  { s with inner := r, calls := Function.update s.calls c (some call) }

theorem advance_calls_self {s : Sys} {c : CallId} {call : Call} {r : Inner} :
    (s.advance c call r).calls c = some call := by
  rw [advance_calls]
  exact Function.update_self _ _ _

/-- Hand a receiver to its subscriber. -/
@[simps -fullyApplied] def hold (s : Sys) (ch : ChanId) : Sys :=
  { s with held := Function.update s.held ch true }

/-- The locked section a call runs once it is open.  What `cancel` then tells the
scheduler has no effect here. -/
def enterOp (s : Sys) (c : CallId) : Op → Sys
  | .accept req =>
      match s.inner.register req with
      | (.error e, r) => s.advance c (.done (.error e)) r
      | (.ok _, r) => s.advance c (.submitting req) r
  | .pushFrame frame =>
      match s.inner.validate frame with
      | (.error e, r) => s.advance c (.done (.error e)) r
      | (.ok ch, r) => s.advance c (.sending frame ch) r
  | .subscribe id =>
      match s.inner.takeReceiver id with
      | (.error e, r) => s.advance c (.done (.error e)) r
      | (.ok ch, r) => (s.advance c (.done (.ok ())) r).hold ch
  | .cancel id =>
      match s.inner.cancelEntry id with
      | (.error e, r) => s.advance c (.done (.error e)) r
      | (.ok _, r) => s.advance c (.done (.ok ())) r

/-- Phase 2 of a push: a refused frame ends the call; so does an accepted one
unless it is final. -/
def sendCall (s : Sys) (c : CallId) (frame : Frame) (ch : ChanId) : List Event × Sys :=
  match s.inner.sendFrame frame ch with
  | (.error e, r) => ([], s.advance c (.done (.error e)) (r.dropSender (some ch)))
  | (.ok _, r) =>
      ([.enqueued ch frame],
        if frame.isFinal then s.advance c (.completing frame ch) r
        else s.advance c (.done (.ok ())) (r.dropSender (some ch)))

/-- One read of a held receiver; not enabled while it would wait. -/
def read (s : Sys) (ch : ChanId) : Option (List Event × Sys) :=
  match s.inner.recv ch with
  | (.item frame, r) => some ([.delivered ch frame], { s with inner := r })
  | (.ended, r) => some ([.ended ch], { s with inner := r })
  | (.pending, _) => none

/-- The step a label stands for. -/
def step (s : Sys) : Action → Option (List Event × Sys)
  | .invoke c op =>
      match s.calls c with
      | none => some ([], s.advance c (.called op) s.inner)
      | some _ => none
  | .ensureOpen c =>
      match s.calls c with
      | some (.called op) =>
          match s.inner.ensureOpen with
          | .error e => some ([], s.advance c (.done (.error e)) s.inner)
          | .ok _ => some ([], s.advance c (.opened op) s.inner)
      | _ => none
  | .enter c =>
      match s.calls c with
      | some (.opened op) => some ([], s.enterOp c op)
      | _ => none
  | .submitted c answer =>
      match s.calls c with
      | some (.submitting req) =>
          match answer with
          | .error e => some ([], s.advance c (.rollingBack req e) s.inner)
          | .ok _ => some ([], s.advance c (.done (.ok ())) s.inner)
      | _ => none
  | .rollback c =>
      match s.calls c with
      | some (.rollingBack req e) =>
          some ([], s.advance c (.done (.error e)) (s.inner.rollback req.id))
      | _ => none
  | .send c =>
      match s.calls c with
      | some (.sending frame ch) => some (s.sendCall c frame ch)
      | _ => none
  | .complete c =>
      match s.calls c with
      | some (.completing frame ch) =>
          some ([], s.advance c (.done (.ok ()))
            ((s.inner.complete frame.requestId).dropSender (some ch)))
      | _ => none
  | .recv ch => if s.held ch then s.read ch else none
  | .dropReceiver ch =>
      if s.held ch then
        some ([], { s with
          inner := s.inner.dropReceiver (some ch)
          held := Function.update s.held ch false })
      else none
  | .shutdown => some ([], { s with inner := s.inner.shutdown })

end Sys

/-- The router of a given depth under every schedule of calls. -/
def machine (depth : Nat) : Machine Sys Action Event where
  init := { inner := .new depth, calls := fun _ => none, held := fun _ => false }
  step := Sys.step

namespace Sys

/-! ## Step inversion

What each label can do, once and for all.  The calls of the other threads and the
receivers are never touched except where said. -/

theorem step_invoke {s t : Sys} {c : CallId} {op : Op} {es : List Event}
    (h : s.step (.invoke c op) = some (es, t)) :
    s.calls c = none ∧ es = [] ∧ t = s.advance c (.called op) s.inner := by
  unfold step at h
  dsimp only at h
  split at h
  · rename_i hfree
    simp only [Option.some.injEq, Prod.mk.injEq] at h
    exact ⟨hfree, h.1.symm, h.2.symm⟩
  · cases h

theorem step_ensureOpen {s t : Sys} {c : CallId} {es : List Event}
    (h : s.step (.ensureOpen c) = some (es, t)) :
    es = [] ∧ ∃ op, s.calls c = some (.called op) ∧
      ((s.inner.shuttingDown = false ∧ t = s.advance c (.opened op) s.inner) ∨
        ∃ e, s.inner.shuttingDown = true ∧
          t = s.advance c (.done (.error e)) s.inner) := by
  unfold step at h
  dsimp only at h
  split at h
  · rename_i op hcall
    split at h
    · rename_i hshut
      simp only [Option.some.injEq, Prod.mk.injEq] at h
      exact ⟨h.1.symm, op, hcall, Or.inr ⟨_, Inner.ensureOpen_error hshut, h.2.symm⟩⟩
    · rename_i hopen
      simp only [Option.some.injEq, Prod.mk.injEq] at h
      exact ⟨h.1.symm, op, hcall, Or.inl ⟨Inner.ensureOpen_eq_ok.mp hopen, h.2.symm⟩⟩
  · cases h

theorem step_enter {s t : Sys} {c : CallId} {es : List Event}
    (h : s.step (.enter c) = some (es, t)) :
    es = [] ∧ ∃ op, s.calls c = some (.opened op) ∧ t = s.enterOp c op := by
  unfold step at h
  dsimp only at h
  split at h
  · rename_i op hcall
    simp only [Option.some.injEq, Prod.mk.injEq] at h
    exact ⟨h.1.symm, op, hcall, h.2.symm⟩
  · cases h

theorem step_submitted {s t : Sys} {c : CallId} {answer : Except RouterError Unit}
    {es : List Event} (h : s.step (.submitted c answer) = some (es, t)) :
    es = [] ∧ ∃ req, s.calls c = some (.submitting req) ∧
      ((∃ e, answer = .error e ∧ t = s.advance c (.rollingBack req e) s.inner) ∨
        (answer = .ok () ∧ t = s.advance c (.done (.ok ())) s.inner)) := by
  unfold step at h
  dsimp only at h
  split at h
  · rename_i req hcall
    cases answer with
    | error e =>
        simp only [Option.some.injEq, Prod.mk.injEq] at h
        exact ⟨h.1.symm, req, hcall, Or.inl ⟨e, rfl, h.2.symm⟩⟩
    | ok u =>
        simp only [Option.some.injEq, Prod.mk.injEq] at h
        exact ⟨h.1.symm, req, hcall, Or.inr ⟨rfl, h.2.symm⟩⟩
  · cases h

theorem step_rollback {s t : Sys} {c : CallId} {es : List Event}
    (h : s.step (.rollback c) = some (es, t)) :
    es = [] ∧ ∃ req e, s.calls c = some (.rollingBack req e) ∧
      t = s.advance c (.done (.error e)) (s.inner.rollback req.id) := by
  unfold step at h
  dsimp only at h
  split at h
  · rename_i req e hcall
    simp only [Option.some.injEq, Prod.mk.injEq] at h
    exact ⟨h.1.symm, req, e, hcall, h.2.symm⟩
  · cases h

theorem step_send {s t : Sys} {c : CallId} {es : List Event}
    (h : s.step (.send c) = some (es, t)) :
    ∃ frame ch, s.calls c = some (.sending frame ch) ∧ s.sendCall c frame ch = (es, t) := by
  unfold step at h
  dsimp only at h
  split at h
  · rename_i frame ch hcall
    exact ⟨frame, ch, hcall, Option.some.inj h⟩
  · cases h

theorem step_complete {s t : Sys} {c : CallId} {es : List Event}
    (h : s.step (.complete c) = some (es, t)) :
    es = [] ∧ ∃ frame ch, s.calls c = some (.completing frame ch) ∧
      t = s.advance c (.done (.ok ()))
        ((s.inner.complete frame.requestId).dropSender (some ch)) := by
  unfold step at h
  dsimp only at h
  split at h
  · rename_i frame ch hcall
    simp only [Option.some.injEq, Prod.mk.injEq] at h
    exact ⟨h.1.symm, frame, ch, hcall, h.2.symm⟩
  · cases h

theorem step_recv {s t : Sys} {ch : ChanId} {es : List Event}
    (h : s.step (.recv ch) = some (es, t)) : s.held ch = true ∧ s.read ch = some (es, t) := by
  unfold step at h
  dsimp only at h
  split at h
  · rename_i hheld
    exact ⟨hheld, h⟩
  · cases h

theorem step_dropReceiver {s t : Sys} {ch : ChanId} {es : List Event}
    (h : s.step (.dropReceiver ch) = some (es, t)) :
    s.held ch = true ∧ es = [] ∧ t = { s with
      inner := s.inner.dropReceiver (some ch)
      held := Function.update s.held ch false } := by
  unfold step at h
  dsimp only at h
  split at h
  · rename_i hheld
    simp only [Option.some.injEq, Prod.mk.injEq] at h
    exact ⟨hheld, h.1.symm, h.2.symm⟩
  · cases h

theorem step_shutdown {s t : Sys} {es : List Event}
    (h : s.step .shutdown = some (es, t)) :
    es = [] ∧ t = { s with inner := s.inner.shutdown } := by
  simp only [step, Option.some.injEq, Prod.mk.injEq] at h
  exact ⟨h.1.symm, h.2.symm⟩

/-- The locked section of an open call either refuses, changing nothing but the
call, or does its work. -/
theorem enterOp_cases (s : Sys) (c : CallId) (op : Op) :
    (∃ e, s.enterOp c op = s.advance c (.done (.error e)) s.inner) ∨
    (∃ req r, op = .accept req ∧ s.inner.register req = (.ok (), r) ∧
      s.enterOp c op = s.advance c (.submitting req) r) ∨
    (∃ frame ch r, op = .pushFrame frame ∧ s.inner.validate frame = (.ok ch, r) ∧
      s.enterOp c op = s.advance c (.sending frame ch) r) ∨
    (∃ id ch r, op = .subscribe id ∧ s.inner.takeReceiver id = (.ok ch, r) ∧
      s.enterOp c op = (s.advance c (.done (.ok ())) r).hold ch) ∨
    (∃ id r, op = .cancel id ∧ s.inner.cancelEntry id = (.ok (), r) ∧
      s.enterOp c op = s.advance c (.done (.ok ())) r) := by
  cases op with
  | accept req =>
      rcases hregister : s.inner.register req with ⟨err | u, r⟩
      · cases Inner.register_error hregister
        exact Or.inl ⟨err, by simp only [enterOp, hregister]⟩
      · exact Or.inr (Or.inl ⟨req, r, rfl, hregister, by simp only [enterOp, hregister]⟩)
  | pushFrame frame =>
      rcases hvalidate : s.inner.validate frame with ⟨err | ch, r⟩
      · cases (Inner.validate_error hvalidate).1
        exact Or.inl ⟨err, by simp only [enterOp, hvalidate]⟩
      · exact Or.inr (Or.inr (Or.inl
          ⟨frame, ch, r, rfl, hvalidate, by simp only [enterOp, hvalidate]⟩))
  | subscribe id =>
      rcases htake : s.inner.takeReceiver id with ⟨err | ch, r⟩
      · cases Inner.takeReceiver_error htake
        exact Or.inl ⟨err, by simp only [enterOp, htake]⟩
      · exact Or.inr (Or.inr (Or.inr (Or.inl
          ⟨id, ch, r, rfl, htake, by simp only [enterOp, htake]⟩)))
  | cancel id =>
      rcases hcancel : s.inner.cancelEntry id with ⟨err | u, r⟩
      · cases (Inner.cancelEntry_error hcancel).1
        exact Or.inl ⟨err, by simp only [enterOp, hcancel]⟩
      · exact Or.inr (Or.inr (Or.inr (Or.inr
          ⟨id, r, rfl, hcancel, by simp only [enterOp, hcancel]⟩)))

/-- Phase 2 either queues the frame, with room for it, or changes nothing but the
sender count. -/
theorem sendCall_cases {s t : Sys} {c : CallId} {frame : Frame} {ch : ChanId}
    {es : List Event} (h : s.sendCall c frame ch = (es, t)) :
    (es = [] ∧ ¬ (s.inner.chans ch).HasRoom ∧
      ∃ e, t = s.advance c (.done (.error e)) (s.inner.dropSender (some ch))) ∨
    (es = [.enqueued ch frame] ∧ (s.inner.chans ch).HasRoom ∧
      ∃ k, (s.inner.chans ch).Appends frame k ∧
        ((frame.isFinal = true ∧
            t = s.advance c (.completing frame ch) (s.inner.setChan ch k)) ∨
          (frame.isFinal = false ∧ t = s.advance c (.done (.ok ()))
            ((s.inner.setChan ch k).dropSender (some ch))))) := by
  unfold sendCall at h
  rcases hsend : s.inner.sendFrame frame ch with ⟨err | _, r⟩
  · obtain ⟨rfl, hroom⟩ := Inner.sendFrame_error hsend
    simp only [hsend, Prod.mk.injEq] at h
    exact Or.inl ⟨h.1.symm, hroom, err, h.2.symm⟩
  · obtain ⟨hroom, k, rfl, happends⟩ := Inner.sendFrame_ok hsend
    simp only [hsend, Prod.mk.injEq] at h
    refine Or.inr ⟨h.1.symm, hroom, k, happends, ?_⟩
    cases hfinal : frame.isFinal with
    | true => exact Or.inl ⟨rfl, by simpa [hfinal] using h.2.symm⟩
    | false => exact Or.inr ⟨rfl, by simpa [hfinal] using h.2.symm⟩

/-- A read that returns takes the oldest frame off the queue, or reports the end
of a drained stream. -/
theorem read_cases {s t : Sys} {ch : ChanId} {es : List Event}
    (h : s.read ch = some (es, t)) :
    (∃ frame k, es = [.delivered ch frame] ∧ (s.inner.chans ch).Takes frame k ∧
      t = { s with inner := s.inner.setChan ch k }) ∨
    (es = [.ended ch] ∧ t = s ∧ (s.inner.chans ch).buffer = [] ∧
      (s.inner.chans ch).senders = 0) := by
  unfold read Inner.recv at h
  rcases hrecv : (s.inner.chans ch).recv with ⟨frame | _ | _, k⟩
  · have htakes := Channel.recv_item hrecv
    simp only [hrecv, Option.some.injEq, Prod.mk.injEq] at h
    exact Or.inl ⟨frame, k, h.1.symm, htakes, h.2.symm⟩
  · obtain ⟨rfl, hbuffer, hsenders⟩ := Channel.recv_ended hrecv
    simp only [hrecv, Option.some.injEq, Prod.mk.injEq] at h
    refine Or.inr ⟨h.1.symm, ?_, hbuffer, hsenders⟩
    rw [← h.2]
    simp [Inner.setChan]
  · simp [hrecv] at h

end Sys

end Repercep.Router
