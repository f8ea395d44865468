import Repercep.Driver.Model
import Repercep.Scheduling.Queue
set_option autoImplicit false

/-!
# The v2 path of the application

`generate_stream_v2`, `cancel_v2` and `lifespan` of `serving/app.py` with the
`_SchedulerAdapter` and the driver thread of `serving/driver.py`, over the router of
`Repercep.Router` and the scheduler of `Repercep.Scheduling`.

Three kinds of threads take steps.  The event loop runs one piece of synchronous code
at a time: the admission of a request, a cancel, the teardown.  The driver thread
fetches requests and runs them.  The workers run the sections of the pushes.  A call of
the router goes through its sections one by one, so every interleaving of the three is
a schedule.

What the engine will do with a payload is chosen when the payload is fetched.  The ids
are `uuid4`s: an id is never drawn twice, which is `issued` below.
-/

namespace Repercep.Serving.V2

open Repercep.Foundation
open Repercep.Router (Sys RequestId RouterRequest RouterError CallId ChanId)
open Repercep.Scheduling (Scheduler ScheduledRequest SchedulerError)
open Repercep.Driver (Job Pc PushFuture)

/-- The id under which the scheduler knows a request. -/
def schedulerId (id : RequestId) : Scheduling.RequestId := ⟨id.val⟩

/-- The id of a scheduled request, as the router knows it. -/
def routerId (id : Scheduling.RequestId) : RequestId := ⟨id.val⟩

/-- The priority the router passes on, as the scheduler parses it. -/
def schedulerPriority : Router.Priority → Scheduling.Priority
  | .low => .low
  | .normal => .normal
  | .high => .high

/-- `str` of a scheduler error. -/
def schedulerText : SchedulerError → String
  | .queueFull capacity => s!"queue is full: {capacity}"
  | .notFound id => s!"request not found: RequestId({repr id.val})"
  | .shuttingDown => "scheduler is shutting down"

/-- `str` of a router error. -/
def routerText : RouterError → String
  | .unknownRequest id => s!"unknown request: RequestId({repr id.val})"
  | .shuttingDown => "router is shutting down"
  | .backpressure id depth =>
      s!"backpressure: queue depth {depth} for request RequestId({repr id.val})"
  | .invalidTransition src dst => s!"invalid state transition: {src.asStr} -> {dst.asStr}"
  | .outOfOrderFrame id got last =>
      s!"out-of-order frame for RequestId({repr id.val}): got index {got}, expected > {last}"
  | .duplicateRequest id => s!"duplicate request id: RequestId({repr id.val})"
  | .invalidPriority name => s!"invalid priority: {name}"
  | .scheduler message => s!"scheduler error: {message}"

/-- The status of a refusal: 503 when the queue is full, else 400. -/
def refusalStatus (detail : String) : Nat :=
  let text := detail.toLower.toList
  if "queue is full".toList <:+: text ∨ "queuefull".toList <:+: text then 503 else 400

/-- How far `generate_stream_v2` has come with a request. -/
inductive HandlerPc (P : Type) where
  /-- `adapter.stage` is due -/
  | staging
  /-- `router.accept` is due -/
  | staged
  /-- in `router.accept` -/
  | accepting (c : CallId)
  /-- in `adapter.submit`, called by `router.accept`; the staged payload has been popped -/
  | submitting (c : CallId) (payload : Option P)
  /-- in `except RouterError` -/
  | discarding (detail : String)
  /-- `router.subscribe` is due -/
  | accepted
  /-- in `router.subscribe` -/
  | subscribing (c : CallId)

/-- A request the event loop is admitting. -/
structure Handler (P : Type) where
  req : RouterRequest
  payload : P
  pc : HandlerPc P

/-- What the event loop is doing. -/
inductive Task (P : Type) where
  | idle
  | handler (h : Handler P)
  /-- in the `except` of the `body_iter` of a request -/
  | unwinding (id : RequestId)
  /-- in `router.cancel`, called by `cancel_v2` or by a `body_iter` -/
  | cancelling (c : CallId) (body : Option RequestId)
  /-- in `driver.stop`: the flag is set, `scheduler.shutdown` is due -/
  | stopping
  /-- in `driver.stop`: waiting for the thread -/
  | joining

/-- What is raised in a `body_iter`. -/
inductive Raised where
  /-- an `Exception` -/
  | exception
  | cancelledError
  | generatorExit
  deriving DecidableEq, Repr

/-- Whether `except Exception` catches it: the other two are `BaseException`s. -/
def Raised.isException : Raised → Bool
  | .exception => true
  | .cancelledError | .generatorExit => false

/-- Where a `body_iter` is. -/
inductive BodyPc where
  | unstarted
  /-- at the `async for`, awaiting the next frame -/
  | reading
  /-- at the `yield` -/
  | yielding
  /-- in the `except` -/
  | unwinding
  /-- returned, with what stopped it before the end of the stream -/
  | finished (raised : Option Raised)
  deriving DecidableEq, Repr

/-- The `body_iter` of a response: its stream and whether it has had the final frame. -/
structure Body where
  stream : ChanId
  sawFinal : Bool
  pc : BodyPc

/-- `_run_one` of a request the driver thread has fetched. -/
structure Run where
  job : Job
  pc : Pc
  push : PushFuture

/-- Where the driver thread is in `_run`. -/
inductive Thread where
  /-- at the test of the stop flag -/
  | polling
  /-- in `next_blocking` -/
  | fetching
  | running (id : RequestId)
  | exited
  deriving DecidableEq, Repr

/-- `_V2State` with the threads at work on it. -/
structure V2State (P : Type) where
  router : Sys
  scheduler : Scheduler P
  /-- `_SchedulerAdapter._payloads` -/
  staged : RequestId → Option P
  issued : RequestId → Bool
  /-- calls of `router.cancel` that have yet to tell the scheduler -/
  notices : CallId → Option RequestId
  task : Task P
  bodies : RequestId → Option Body
  runs : RequestId → Option Run
  thread : Thread
  /-- `EngineDriver._stop` -/
  stop : Bool

/-- One scheduled step. -/
inductive Action (P : Type) where
  /-- a request comes in -/
  | arrive (req : RouterRequest) (payload : P)
  /-- the handler's next step; `c` is the call it makes, if it makes one -/
  | handle (c : CallId)
  /-- the next section of a router call -/
  | call (a : Router.Action)
  /-- `router.cancel` tells the adapter -/
  | notify (c : CallId)
  /-- `cancel_v2` -/
  | cancel (c : CallId) (id : RequestId)
  /-- the event loop's `router.cancel` returns -/
  | cancelReturned
  /-- the `body_iter` of a request is resumed -/
  | resume (id : RequestId)
  /-- what a `body_iter` awaits has come -/
  | receive (id : RequestId)
  | interrupt (id : RequestId) (raised : Raised)
  /-- the `except` of a `body_iter` calls `router.cancel` -/
  | unwind (c : CallId)
  /-- the stream of a finished `body_iter` is collected -/
  | dropStream (id : RequestId)
  /-- `while not self._stop.is_set()` -/
  | checkStop
  /-- one attempt of `next_blocking`, and what the engine will do with the item -/
  | fetch (job : Job)
  /-- the timeout of `next_blocking` -/
  | fetchTimeout
  /-- a step of `_run_one` -/
  | drive (a : Driver.Action)
  /-- the event loop starts a scheduled push -/
  | launch (id : RequestId) (c : CallId)
  /-- `_run_one` returns -/
  | finish
  /-- `driver.stop` -/
  | stop
  | shutdownScheduler
  /-- `driver.stop` returns, its thread having exited or not, and then `router.shutdown` -/
  | shutdownRouter

/-- What the steps let an observer see. -/
inductive Event (P : Type) where
  | arrived (id : RequestId) (payload : P)
  /-- the scheduler has taken a submission -/
  | submitted (id : RequestId) (payload : P)
  /-- the status the handler answers with -/
  | responded (id : RequestId) (status : Nat)
  | fetched (id : RequestId) (payload : P)
  | router (e : Router.Event)

namespace V2State

variable {P : Type}

/-- What the event loop works on. -/
def setTask (s : V2State P) (task : Task P) : V2State P := { s with task := task }

/-- The handler goes on at another place. -/
def setHandler (s : V2State P) (h : Handler P) (pc : HandlerPc P) : V2State P :=
  s.setTask (.handler { h with pc := pc })

/-- The generator of a body goes on at another place. -/
def setBody (s : V2State P) (id : RequestId) (body : Body) (pc : BodyPc) : V2State P :=
  { s with bodies := Function.update s.bodies id (some { body with pc := pc }) }

/-- `_SchedulerAdapter.stage`. -/
def stage (s : V2State P) (id : RequestId) (payload : P) : V2State P :=
  { s with staged := Function.update s.staged id (some payload) }

/-- `_SchedulerAdapter.discard`, and the pop of `submit` and `cancel`. -/
def discard (s : V2State P) (id : RequestId) : V2State P :=
  { s with staged := Function.update s.staged id none }

/-- `adapter.submit` once it has popped the payload: what it answers the router, and
the scheduler it leaves.  `parses` tells whether the JSON text of a payload is read
back; `submitted_at` is not looked at. -/
def submit (parses : P → Bool) (s : V2State P) (req : RouterRequest) :
    Option P → Except RouterError Unit × Scheduler P
  | none =>
      (.error (.scheduler
        s!"submit: RuntimeError: scheduler adapter: no staged payload for request {req.id.val}"),
        s.scheduler)
  | some payload =>
      if parses payload then
        match s.scheduler.submit ⟨schedulerId req.id, schedulerPriority req.priority, 0, payload⟩ with
        | (.ok _, scheduler) => (.ok (), scheduler)
        | (.error e, scheduler) =>
            (.error (.scheduler s!"submit: SchedulerExc: {schedulerText e}"), scheduler)
      else (.error (.scheduler "submit: RuntimeError: payload not JSON"), s.scheduler)

/-- What an observer sees of a submission. -/
def submissionEvents (id : RequestId) : Option P → Except RouterError Unit → List (Event P)
  | some payload, .ok _ => [.submitted id payload]
  | _, _ => []

/-- A step of the handler. -/
def handle (parses : P → Bool) (s : V2State P) (h : Handler P) (c : CallId) :
    Option (List (Event P) × V2State P) :=
  match h.pc with
  | .staging => some ([], (s.stage h.req.id h.payload).setHandler h .staged)
  | .staged =>
      if parses h.payload then
        match s.router.step (.invoke c (.accept h.req)) with
        | none => none
        | some (_, router) => some ([], { s with router := router }.setHandler h (.accepting c))
      else some ([], s.setHandler h (.discarding "payload is not JSON-serializable"))
  | .accepting d =>
      match s.router.calls d with
      | some (.submitting req) =>
          some ([], (s.discard req.id).setHandler h (.submitting d (s.staged req.id)))
      | some (.done (.ok _)) => some ([], s.setHandler h .accepted)
      | some (.done (.error e)) => some ([], s.setHandler h (.discarding (routerText e)))
      | _ => none
  | .submitting d payload =>
      match s.submit parses h.req payload with
      | (answer, scheduler) =>
          match s.router.step (.submitted d answer) with
          | none => none
          | some (_, router) =>
              some (submissionEvents h.req.id payload answer,
                { s with router := router, scheduler := scheduler }.setHandler h (.accepting d))
  | .discarding detail =>
      some ([.responded h.req.id (refusalStatus detail)], (s.discard h.req.id).setTask .idle)
  | .accepted =>
      match s.router.step (.invoke c (.subscribe h.req.id)) with
      | none => none
      | some (_, router) => some ([], { s with router := router }.setHandler h (.subscribing c))
  | .subscribing d =>
      match s.router.calls d with
      | some (.opened (.subscribe _)) =>
          match s.router.step (.enter d) with
          | none => none
          | some (_, router) =>
              match s.router.inner.takeReceiver h.req.id with
              | (.ok stream, _) =>
                  some ([.responded h.req.id 200],
                    ({ s with router := router }.setBody h.req.id ⟨stream, false, .unstarted⟩
                      .unstarted).setTask .idle)
              | (.error _, _) => some ([], { s with router := router })
      -- the error is not caught here
      | some (.done (.error _)) => some ([.responded h.req.id 500], s.setTask .idle)
      | _ => none

/-- The sections a call runs by itself.  Those that need an answer, and the one in which
a subscriber gets its stream, are steps of the handler. -/
def runsAlone (router : Sys) : Router.Action → Bool
  | .ensureOpen _ | .rollback _ | .send _ | .complete _ => true
  | .enter c =>
      match router.calls c with
      | some (.opened (.subscribe _)) => false
      | _ => true
  | _ => false

/-- A cancel that has changed the state of a request has yet to tell the scheduler. -/
def noticesAfter (s : V2State P) : Router.Action → CallId → Option RequestId
  | .enter c =>
      match s.router.calls c with
      | some (.opened (.cancel id)) =>
          match s.router.inner.cancelEntry id with
          | (.ok _, _) => Function.update s.notices c (some id)
          | (.error _, _) => s.notices
      | _ => s.notices
  | _ => s.notices

/-- `_SchedulerAdapter.cancel`. -/
def tellScheduler (s : V2State P) (c : CallId) (id : RequestId) : V2State P :=
  { s.discard id with
    scheduler := (s.scheduler.cancel (schedulerId id)).2
    notices := Function.update s.notices c none }

/-- What is raised in a `body_iter` that has been started goes through its `except`. -/
def interrupt (s : V2State P) (id : RequestId) (body : Body) (raised : Raised) :
    Option (V2State P) :=
  match body.pc with
  | .unstarted => some (s.setBody id body (.finished (some raised)))
  | .reading | .yielding =>
      if raised.isException then
        some ((s.setBody id body .unwinding).setTask (.unwinding id))
      else some (s.setBody id body (.finished (some raised)))
  | .unwinding | .finished _ => none

/-- What has been read from the stream reaches the `body_iter`. -/
def received (s : V2State P) (id : RequestId) (body : Body) : List Router.Event → V2State P
  | .delivered _ frame :: _ =>
      s.setBody id { body with sawFinal := body.sawFinal || frame.isFinal } .yielding
  | _ => s.setBody id body (.finished none)

/-- The driver's view of a request it has fetched. -/
def view (s : V2State P) (run : Run) : Driver.State :=
  { router := s.router, pc := run.pc, push := run.push, stop := s.stop, stream := none }

/-- The state after a step of the driver on a request. -/
def withRun (s : V2State P) (id : RequestId) (run : Run) (d : Driver.State) : V2State P :=
  { s with
    router := d.router
    runs := Function.update s.runs id (some { run with pc := d.pc, push := d.push }) }

/-- The driver's `router.cancel` has yet to tell the scheduler. -/
def awaitsNotice (s : V2State P) (run : Run) : Bool :=
  match run.pc with
  | .awaitingCancel c => (s.notices c).isSome
  | _ => false

/-- The steps of `_run_one` the driver thread takes itself. -/
def ownStep : Driver.Action → Bool
  | .advance | .timeout | .cancel _ => true
  | .pop | .launch _ | .setStop | .env _ => false

/-- A step of the driver on a request. -/
def stepRun (s : V2State P) (id : RequestId) (run : Run) (a : Driver.Action) :
    Option (List (Event P) × V2State P) :=
  match (s.view run).step run.job id a with
  | none => none
  | some (es, d) => some (es.map .router, s.withRun id run d)

/-- The first step of `_run_one`. -/
def startRun (job : Job) : Run where
  job := job
  pc := if job.wellFormed then .pulling job.frames (-1) else .cancelling
  push := .idle

/-- An attempt of `next_blocking`. -/
def fetch (s : V2State P) (job : Job) : List (Event P) × V2State P :=
  match s.scheduler.poll with
  | (.item req, scheduler) =>
      ([.fetched (routerId req.id) req.payload], { s with
        scheduler := scheduler
        runs := Function.update s.runs (routerId req.id) (some (startRun job))
        thread := .running (routerId req.id) })
  | (.drained, scheduler) => ([], { s with scheduler := scheduler, thread := .polling })
  | (.waiting, scheduler) => ([], { s with scheduler := scheduler })

/-- The step a label stands for. -/
def step (parses : P → Bool) (s : V2State P) : Action P → Option (List (Event P) × V2State P)
  | .arrive req payload =>
      match s.task, s.issued req.id with
      | .idle, false => some ([.arrived req.id payload], { s with
          issued := Function.update s.issued req.id true
          task := .handler ⟨req, payload, .staging⟩ })
      | _, _ => none
  | .handle c =>
      match s.task with
      | .handler h => s.handle parses h c
      | _ => none
  | .call a =>
      if runsAlone s.router a then
        match s.router.step a with
        | none => none
        | some (es, router) =>
            some (es.map .router, { s with router := router, notices := s.noticesAfter a })
      else none
  | .notify c =>
      match s.notices c with
      | none => none
      | some id => some ([], s.tellScheduler c id)
  | .cancel c id =>
      match s.task, s.router.step (.invoke c (.cancel id)) with
      | .idle, some (_, router) =>
          some ([], { s with router := router }.setTask (.cancelling c none))
      | _, _ => none
  | .cancelReturned =>
      match s.task with
      | .cancelling c body =>
          match s.router.calls c, s.notices c, body with
          | some (.done _), none, none => some ([], s.setTask .idle)
          | some (.done _), none, some id =>
              match s.bodies id with
              | some b =>
                  some ([], (s.setBody id b (.finished (some .exception))).setTask .idle)
              | none => none
          | _, _, _ => none
      | _ => none
  | .resume id =>
      match s.task, s.bodies id with
      | .idle, some body =>
          if body.pc = .unstarted ∨ body.pc = .yielding then some ([], s.setBody id body .reading)
          else none
      | _, _ => none
  | .receive id =>
      match s.task, s.bodies id with
      | .idle, some body =>
          if body.pc = .reading then
            match s.router.step (.recv body.stream) with
            | none => none
            | some (es, router) =>
                some (es.map .router, { s with router := router }.received id body es)
          else none
      | _, _ => none
  | .interrupt id raised =>
      match s.task, s.bodies id with
      | .idle, some body =>
          match s.interrupt id body raised with
          | none => none
          | some t => some ([], t)
      | _, _ => none
  | .unwind c =>
      match s.task with
      | .unwinding id =>
          match s.router.step (.invoke c (.cancel id)) with
          | none => none
          | some (_, router) =>
              some ([], { s with router := router }.setTask (.cancelling c (some id)))
      | _ => none
  | .dropStream id =>
      match s.bodies id with
      | some ⟨stream, _, .finished _⟩ =>
          match s.router.step (.dropReceiver stream) with
          | none => none
          | some (_, router) => some ([], { s with router := router })
      | _ => none
  | .checkStop =>
      match s.thread with
      | .polling => some ([], { s with thread := if s.stop then .exited else .fetching })
      | _ => none
  | .fetch job =>
      match s.thread with
      | .fetching => some (s.fetch job)
      | _ => none
  | .fetchTimeout =>
      match s.thread with
      | .fetching => some ([], { s with thread := .polling })
      | _ => none
  | .drive a =>
      match s.thread with
      | .running id =>
          match s.runs id with
          | some run => if ownStep a && !s.awaitsNotice run then s.stepRun id run a else none
          | none => none
      | _ => none
  | .launch id c =>
      match s.task, s.runs id with
      | .idle, some run => s.stepRun id run (.launch c)
      | _, _ => none
  | .finish =>
      match s.thread with
      | .running id =>
          match s.runs id with
          | some ⟨_, .returned, _⟩ => some ([], { s with thread := .polling })
          | _ => none
      | _ => none
  | .stop =>
      match s.task, s.stop with
      | .idle, false => some ([], { s with stop := true, task := .stopping })
      | _, _ => none
  | .shutdownScheduler =>
      match s.task with
      | .stopping => some ([], { s with scheduler := s.scheduler.shutdown, task := .joining })
      | _ => none
  | .shutdownRouter =>
      match s.task with
      | .joining => some ([], { s with
          router := { s.router with inner := s.router.inner.shutdown }
          task := .idle })
      | _ => none

end V2State

/-- The application with the given frame queue depth and scheduler capacity. -/
def machine {P : Type} (parses : P → Bool) (depth capacity : Nat) :
    Machine (V2State P) (Action P) (Event P) where
  init :=
    { router := (Router.machine depth).init
      scheduler := .new P capacity
      staged := fun _ => none
      issued := fun _ => false
      notices := fun _ => none
      task := .idle
      bodies := fun _ => none
      runs := fun _ => none
      thread := .polling
      stop := false }
  step := V2State.step parses

end Repercep.Serving.V2
