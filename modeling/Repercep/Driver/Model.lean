import Repercep.Router.Rules
set_option autoImplicit false

/-!
# The engine driver

`EngineDriver._run_one` of `serving/driver.py`, run on the driver thread against
the router of `Repercep.Router` under any interleaving.  The driver's own steps,
the event loop that starts a scheduled push, the push timeout, the stop signal and
every step of any other caller are labels.

A push is a coroutine handed to the event loop: it is scheduled first, becomes a
call of the router when the loop starts it, and is not withdrawn when the driver
stops waiting for it.  Latencies are not modelled: the encoded line of a frame is
data of the run.
-/

namespace Repercep.Driver

open Repercep.Foundation
open Repercep.Router

/-- What the driver reads of a frame the engine yields, and the line `_encode`
makes of it, `none` when encoding raises. -/
structure EngineFrame where
  index : Int
  total : Int
  line : Option (List UInt8)
  deriving DecidableEq, Repr

/-- `is_final`, as the driver decides it. -/
def EngineFrame.isFinal (frame : EngineFrame) : Bool :=
  decide (frame.index = frame.total - 1)

/-- A popped item: whether its payload is a `GenerationRequest`, how many frames
that asks for, what the engine yields for it and whether it raises afterwards, and
the line of the synthetic final marker. -/
structure Job where
  wellFormed : Bool
  numFrames : Int
  frames : List EngineFrame
  raises : Bool
  marker : List UInt8
  deriving DecidableEq, Repr

/-- Where the driver is in `_run_one`. -/
inductive Pc where
  /-- `next_blocking` has not returned the item -/
  | waiting
  /-- about to resume the engine; `index` is the Python variable -/
  | pulling (rest : List EngineFrame) (index : Int)
  | checkingStop (frame : EngineFrame) (rest : List EngineFrame)
  | checkingState (frame : EngineFrame) (rest : List EngineFrame)
  /-- `fut.result` of a frame -/
  | awaitingFrame (rest : List EngineFrame) (index : Int)
  /-- `fut.result` of the synthetic marker -/
  | awaitingMarker
  /-- `_cancel_silently` is due, and then the return -/
  | cancelling
  | awaitingCancel (c : CallId)
  | returned
  deriving DecidableEq, Repr

/-- Where the driver goes on when the push it waits for succeeds. -/
def Pc.onPushed : Pc → Option Pc
  | awaitingFrame rest index => some (pulling rest index)
  | awaitingMarker => some returned
  | _ => none

/-- The push coroutine. -/
inductive PushFuture where
  | idle
  /-- `run_coroutine_threadsafe` has been called, the loop has not started it -/
  | scheduled (index : Int) (payload : List UInt8) (isFinal : Bool)
  | running (c : CallId)
  /-- `push_frame` could not be called -/
  | failed
  deriving DecidableEq, Repr

/-- What can happen next: the driver goes on, or something around it moves. -/
inductive Action where
  | pop
  | advance
  | launch (c : CallId)
  | timeout
  | cancel (c : CallId)
  | setStop
  | env (a : Router.Action)

/-- The driver, its push and its stop flag next to the router; `stream` is the
receiver that `subscribe` has returned for the request. -/
structure State where
  router : Sys
  pc : Pc
  push : PushFuture
  stop : Bool
  stream : Option ChanId

/-- What the other callers may do: nobody else pushes frames of the request, and
the scheduler, having queued it, does not refuse it. -/
def outside (id : RequestId) (s : Sys) : Router.Action → Bool
  | .invoke _ (.pushFrame frame) => frame.requestId != id
  | .submitted c (.error _) =>
      match s.calls c with
      | some (.submitting req) => req.id != id
      | _ => true
  | _ => true

namespace State

variable (job : Job) (id : RequestId) (s : State)

/-- Whether the awaited push has succeeded, once that is known. -/
def pushResult : Option Bool :=
  match s.push with
  | .failed => some false
  | .running c =>
      match s.router.calls c with
      | some (.done (.ok _)) => some true
      | some (.done (.error _)) => some false
      | _ => none
  | _ => none

/-- One step of the driver thread; `none` while it waits. -/
def advance : Option State :=
  match s.pc with
  | .pulling (frame :: rest) _ => some { s with pc := .checkingStop frame rest }
  | .pulling [] index =>
      if job.raises then some { s with pc := .cancelling }
      else if 0 ≤ index ∧ index ≠ job.numFrames - 1 then
        some { s with pc := .awaitingMarker, push := .scheduled (index + 1) job.marker true }
      else some { s with pc := .returned }
  | .checkingStop frame rest =>
      if s.stop then some { s with pc := .cancelling }
      else some { s with pc := .checkingState frame rest }
  | .checkingState frame rest =>
      if s.router.inner.state id = some .cancelled then some { s with pc := .returned }
      else
        match frame.line with
        | none => some { s with pc := .cancelling }
        | some line => some { s with
            pc := .awaitingFrame rest frame.index
            push := .scheduled frame.index line frame.isFinal }
  | .awaitingFrame rest index =>
      match s.pushResult with
      | none => none
      | some true => some { s with pc := .pulling rest index, push := .idle }
      | some false => some { s with pc := .cancelling }
  | .awaitingMarker =>
      match s.pushResult with
      | none => none
      | some true => some { s with pc := .returned, push := .idle }
      | some false => some { s with pc := .cancelling }
  | .awaitingCancel c =>
      match s.router.calls c with
      | some (.done _) => some { s with pc := .returned }
      | _ => none
  | .waiting | .cancelling | .returned => none

/-- The stream of the request after a step of another caller. -/
def streamAfter : Router.Action → Option ChanId
  | .enter c =>
      match s.router.calls c with
      | some (.opened (.subscribe k)) =>
          if k = id then
            match s.router.inner.takeReceiver id with
            | (.ok ch, _) => some ch
            | (.error _, _) => s.stream
          else s.stream
      | _ => s.stream
  | _ => s.stream

/-- The step a label stands for. -/
def step : Action → Option (List Event × State)
  | .pop =>
      match s.pc, s.router.inner.requests id with
      | .waiting, some _ => some ([], { s with
          pc := if job.wellFormed then .pulling job.frames (-1) else .cancelling })
      | _, _ => none
  | .advance =>
      match s.advance job id with
      | none => none
      | some t => some ([], t)
  | .launch c =>
      match s.push with
      | .scheduled index payload isFinal =>
          match frameIndex? index with
          | none => some ([], { s with push := .failed })
          | some i =>
              match s.router.step (.invoke c (.pushFrame ⟨id, i, payload, isFinal⟩)) with
              | none => none
              | some (es, r) => some (es, { s with router := r, push := .running c })
      | _ => none
  | .timeout =>
      match s.pc.onPushed with
      | none => none
      | some _ => some ([], { s with pc := .cancelling })
  | .cancel c =>
      match s.pc with
      | .cancelling =>
          match s.router.step (.invoke c (.cancel id)) with
          | none => none
          | some (es, r) => some (es, { s with router := r, pc := .awaitingCancel c })
      | _ => none
  | .setStop => some ([], { s with stop := true })
  | .env a =>
      if outside id s.router a then
        match s.router.step a with
        | none => none
        | some (es, r) => some (es, { s with router := r, stream := s.streamAfter id a })
      else none

end State

/-- One item, popped at some point of a run of the router of the given depth. -/
def machine (depth : Nat) (id : RequestId) (job : Job) : Machine State Action Event where
  init :=
    { router := (Router.machine depth).init
      pc := .waiting
      push := .idle
      stop := false
      stream := none }
  step := State.step job id

namespace State

/-- The step relation: a rule per outcome. -/
inductive Rule (job : Job) (id : RequestId) (s : State) :
    Action → List Event → State → Prop where
  | pop {e : Entry} (hpc : s.pc = .waiting) (hentry : s.router.inner.requests id = some e)
      (hform : job.wellFormed = true) :
      Rule job id s .pop [] { s with pc := .pulling job.frames (-1) }
  | popMalformed {e : Entry} (hpc : s.pc = .waiting)
      (hentry : s.router.inner.requests id = some e) (hform : job.wellFormed = false) :
      Rule job id s .pop [] { s with pc := .cancelling }
  | pull {frame : EngineFrame} {rest : List EngineFrame} {index : Int}
      (hpc : s.pc = .pulling (frame :: rest) index) :
      Rule job id s .advance [] { s with pc := .checkingStop frame rest }
  | raised {index : Int} (hpc : s.pc = .pulling [] index) (hraises : job.raises = true) :
      Rule job id s .advance [] { s with pc := .cancelling }
  | pushMarker {index : Int} (hpc : s.pc = .pulling [] index) (hraises : job.raises = false)
      (hindex : 0 ≤ index) (hlast : index ≠ job.numFrames - 1) :
      Rule job id s .advance [] { s with
        pc := .awaitingMarker
        push := .scheduled (index + 1) job.marker true }
  | exhausted {index : Int} (hpc : s.pc = .pulling [] index) (hraises : job.raises = false)
      (hlast : 0 ≤ index → index = job.numFrames - 1) :
      Rule job id s .advance [] { s with pc := .returned }
  | stopped {frame : EngineFrame} {rest : List EngineFrame}
      (hpc : s.pc = .checkingStop frame rest) (hstop : s.stop = true) :
      Rule job id s .advance [] { s with pc := .cancelling }
  | notStopped {frame : EngineFrame} {rest : List EngineFrame}
      (hpc : s.pc = .checkingStop frame rest) (hstop : s.stop = false) :
      Rule job id s .advance [] { s with pc := .checkingState frame rest }
  | seenCancelled {frame : EngineFrame} {rest : List EngineFrame}
      (hpc : s.pc = .checkingState frame rest)
      (hstate : s.router.inner.state id = some .cancelled) :
      Rule job id s .advance [] { s with pc := .returned }
  | unencodable {frame : EngineFrame} {rest : List EngineFrame}
      (hpc : s.pc = .checkingState frame rest) (hline : frame.line = none) :
      Rule job id s .advance [] { s with pc := .cancelling }
  | pushFrame {frame : EngineFrame} {rest : List EngineFrame} {line : List UInt8}
      (hpc : s.pc = .checkingState frame rest)
      (hstate : s.router.inner.state id ≠ some .cancelled) (hline : frame.line = some line) :
      Rule job id s .advance [] { s with
        pc := .awaitingFrame rest frame.index
        push := .scheduled frame.index line frame.isFinal }
  | pushed {next : Pc} {c : CallId} (hpc : s.pc.onPushed = some next)
      (hpush : s.push = .running c) (hcall : s.router.calls c = some (.done (.ok ()))) :
      Rule job id s .advance [] { s with pc := next, push := .idle }
  | pushFailed {next : Pc} (hpc : s.pc.onPushed = some next)
      (hresult : s.pushResult = some false) :
      Rule job id s .advance [] { s with pc := .cancelling }
  | cancelReturned {c : CallId} {result : Except RouterError Unit}
      (hpc : s.pc = .awaitingCancel c) (hcall : s.router.calls c = some (.done result)) :
      Rule job id s .advance [] { s with pc := .returned }
  | launch {c : CallId} {index : Int} {i : Nat} {payload : List UInt8} {isFinal : Bool}
      (hpush : s.push = .scheduled index payload isFinal) (hindex : frameIndex? index = some i)
      (hfree : s.router.calls c = none) :
      Rule job id s (.launch c) [] { s with
        router := s.router.advance c (.called (.pushFrame ⟨id, i, payload, isFinal⟩))
          s.router.inner
        push := .running c }
  | launchFailed {c : CallId} {index : Int} {payload : List UInt8} {isFinal : Bool}
      (hpush : s.push = .scheduled index payload isFinal) (hindex : frameIndex? index = none) :
      Rule job id s (.launch c) [] { s with push := .failed }
  | timeout {next : Pc} (hpc : s.pc.onPushed = some next) :
      Rule job id s .timeout [] { s with pc := .cancelling }
  | cancel {c : CallId} (hpc : s.pc = .cancelling) (hfree : s.router.calls c = none) :
      Rule job id s (.cancel c) [] { s with
        router := s.router.advance c (.called (.cancel id)) s.router.inner
        pc := .awaitingCancel c }
  | setStop : Rule job id s .setStop [] { s with stop := true }
  | env {a : Router.Action} {es : List Event} {r : Sys} (hout : outside id s.router a = true)
      (hrule : s.router.Rule a es r) :
      Rule job id s (.env a) es { s with router := r, stream := s.streamAfter id a }

variable {job : Job} {id : RequestId} {s t : State}

theorem pushResult_true (h : s.pushResult = some true) :
    ∃ c, s.push = .running c ∧ s.router.calls c = some (.done (.ok ())) := by
  unfold pushResult at h
  split at h
  · cases h
  · rename_i c hpush
    split at h
    · rename_i hcall
      exact ⟨c, hpush, hcall⟩
    · cases h
    · cases h
  · cases h

/-- A step of the driver thread follows a rule. -/
theorem advance_rule (h : s.advance job id = some t) : s.Rule job id .advance [] t := by
  unfold advance at h
  split at h
  · rename_i frame rest index hpc
    cases h
    exact .pull hpc
  · rename_i index hpc
    split at h
    · rename_i hraises
      cases h
      exact .raised hpc hraises
    · rename_i hraises
      split at h
      · rename_i hmarker
        cases h
        exact .pushMarker hpc (by simpa using hraises) hmarker.1 hmarker.2
      · rename_i hmarker
        cases h
        refine .exhausted hpc (by simpa using hraises) ?_
        intro hindex
        by_contra hlast
        exact hmarker ⟨hindex, hlast⟩
  · rename_i frame rest hpc
    split at h
    · rename_i hstop
      cases h
      exact .stopped hpc hstop
    · rename_i hstop
      cases h
      exact .notStopped hpc (by simpa using hstop)
  · rename_i frame rest hpc
    split at h
    · rename_i hstate
      cases h
      exact .seenCancelled hpc hstate
    · rename_i hstate
      split at h
      · rename_i hline
        cases h
        exact .unencodable hpc hline
      · rename_i line hline
        cases h
        exact .pushFrame hpc hstate hline
  · rename_i rest index hpc
    have honPushed : s.pc.onPushed = some (.pulling rest index) := by rw [hpc]; rfl
    split at h
    · cases h
    · rename_i hresult
      obtain ⟨c, hpush, hcall⟩ := pushResult_true hresult
      cases h
      exact .pushed honPushed hpush hcall
    · rename_i hresult
      cases h
      exact .pushFailed honPushed hresult
  · rename_i hpc
    have honPushed : s.pc.onPushed = some .returned := by rw [hpc]; rfl
    split at h
    · cases h
    · rename_i hresult
      obtain ⟨c, hpush, hcall⟩ := pushResult_true hresult
      cases h
      exact .pushed honPushed hpush hcall
    · rename_i hresult
      cases h
      exact .pushFailed honPushed hresult
  · rename_i c hpc
    split at h
    · rename_i result hcall
      cases h
      exact .cancelReturned hpc hcall
    · cases h
  · cases h
  · cases h
  · cases h

/-- Every step follows a rule. -/
theorem step_rule {a : Action} {es : List Event} (h : s.step job id a = some (es, t)) :
    s.Rule job id a es t := by
  cases a with
  | pop =>
      simp only [step] at h
      split at h
      · rename_i e hpc hentry
        cases h
        cases hform : job.wellFormed with
        | true => exact .pop hpc hentry hform
        | false => exact .popMalformed hpc hentry hform
      · cases h
  | advance =>
      simp only [step] at h
      split at h
      · cases h
      · rename_i u hadvance
        cases h
        exact advance_rule hadvance
  | launch c =>
      simp only [step] at h
      split at h
      · rename_i index payload isFinal hpush
        split at h
        · rename_i hindex
          cases h
          exact .launchFailed hpush hindex
        · rename_i i hindex
          split at h
          · cases h
          · rename_i es' r hinvoke
            obtain ⟨hfree, rfl, rfl⟩ := Sys.step_invoke hinvoke
            cases h
            exact .launch hpush hindex hfree
      · cases h
  | timeout =>
      simp only [step] at h
      split at h
      · cases h
      · rename_i next hpc
        cases h
        exact .timeout hpc
  | cancel c =>
      simp only [step] at h
      split at h
      · rename_i hpc
        split at h
        · cases h
        · rename_i es' r hinvoke
          obtain ⟨hfree, rfl, rfl⟩ := Sys.step_invoke hinvoke
          cases h
          exact .cancel hpc hfree
      · cases h
  | setStop =>
      cases h
      exact .setStop
  | env a =>
      simp only [step] at h
      split at h
      · rename_i hout
        split at h
        · cases h
        · rename_i es' r hstep
          cases h
          exact .env hout (Sys.step_rule hstep)
      · cases h

end State

end Repercep.Driver
