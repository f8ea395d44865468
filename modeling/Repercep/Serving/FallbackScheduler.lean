import Repercep.Scheduling.Agreement
import Repercep.Serving.Notices
set_option autoImplicit false

/-!
# The v2 path over the pure-Python scheduler

When the native scheduler is not built, `serving/driver.py` gets `_PythonScheduler` of
`runtime/scheduler.py` instead: the adapter submits to it and cancels in it, the driver
thread blocks in its `next_blocking`, and `driver.stop` shuts it down.  The other steps do
not look at the scheduler.

Both schedulers stand for the same live requests, so a step of the application over the
one is a step over the other, under the same rule.
-/

namespace Repercep.Serving.V2

open Repercep.Foundation
open Repercep.Router (Sys RequestId RouterRequest RouterError CallId ChanId)
open Repercep.Scheduling (Scheduler ScheduledRequest SchedulerError PythonScheduler Matches
  Reference)
open Repercep.Driver (Job)

variable {P : Type}

/-- `_V2State` with the Python scheduler; the scheduler of `app` is not looked at. -/
structure PythonV2State (P : Type) where
  app : V2State P
  scheduler : PythonScheduler P

/-- `str` of an error of the Python scheduler. -/
def pythonSchedulerText : SchedulerError → String
  | .queueFull capacity => s!"queue is full: {capacity}"
  | .notFound id => s!"request not found: '{id.val}'"
  | .shuttingDown => "scheduler is shutting down"

namespace PythonV2State

/-- A step that leaves the scheduler alone. -/
def leave (s : PythonV2State P) (next : Option (List (Event P) × V2State P)) :
    Option (List (Event P) × PythonV2State P) :=
  match next with
  | none => none
  | some (es, app) => some (es, { s with app := app })

/-- `adapter.submit` once it has popped the payload. -/
def submit (s : PythonV2State P) (req : RouterRequest) :
    Option P → Except RouterError Unit × PythonScheduler P
  | none =>
      (.error (.scheduler
        s!"submit: RuntimeError: scheduler adapter: no staged payload for request {req.id.val}"),
        s.scheduler)
  | some payload =>
      match s.scheduler.submit ⟨schedulerId req.id, schedulerPriority req.priority, 0, payload⟩ with
      | (.ok _, scheduler) => (.ok (), scheduler)
      | (.error e, scheduler) =>
          (.error (.scheduler s!"submit: _PythonSchedulerError: {pythonSchedulerText e}"),
            scheduler)

/-- The answer of `adapter.submit` goes back to `router.accept`. -/
def submitted (s : PythonV2State P) (h : Handler P) (d : CallId) (payload : Option P) :
    Option (List (Event P) × PythonV2State P) :=
  match s.submit h.req payload with
  | (answer, scheduler) =>
      match s.app.router.step (.submitted d answer) with
      | none => none
      | some (_, router) =>
          some (V2State.submissionEvents h.req.id payload answer,
            ⟨{ s.app with router := router }.setHandler h (.accepting d), scheduler⟩)

/-- `_SchedulerAdapter.cancel`. -/
def tellScheduler (s : PythonV2State P) (c : CallId) (id : RequestId) : PythonV2State P where
  app := { s.app.discard id with notices := Function.update s.app.notices c none }
  scheduler := (s.scheduler.cancel (schedulerId id)).2

/-- An attempt of `next_blocking`. -/
def fetch (s : PythonV2State P) (job : Job) : List (Event P) × PythonV2State P :=
  match s.scheduler.popNext with
  | (some item, scheduler) =>
      ([.fetched (routerId item.id) item.payload], {
        app := { s.app with
          runs := Function.update s.app.runs (routerId item.id) (some (V2State.startRun job))
          thread := .running (routerId item.id) }
        scheduler := scheduler })
  | (none, scheduler) =>
      if s.scheduler.shuttingDown then ([], ⟨{ s.app with thread := .polling }, scheduler⟩)
      else ([], ⟨s.app, scheduler⟩)

/-- The step a label stands for. -/
def step (parses : P → Bool) (s : PythonV2State P) :
    Action P → Option (List (Event P) × PythonV2State P)
  | .handle c =>
      match s.app.task with
      | .handler h =>
          match h.pc with
          | .submitting d payload => s.submitted h d payload
          | _ => s.leave (s.app.step parses (.handle c))
      | _ => none
  | .notify c =>
      match s.app.notices c with
      | none => none
      | some id => some ([], s.tellScheduler c id)
  | .fetch job =>
      match s.app.thread with
      | .fetching => some (s.fetch job)
      | _ => none
  | .shutdownScheduler =>
      match s.app.task with
      | .stopping => some ([], ⟨s.app.setTask .joining, s.scheduler.shutdown⟩)
      | _ => none
  | a => s.leave (s.app.step parses a)

end PythonV2State

/-- The application over the Python scheduler of the given capacity. -/
def pythonMachine {P : Type} (parses : P → Bool) (depth capacity : Nat) (h : 1 ≤ capacity) :
    Machine (PythonV2State P) (Action P) (Event P) where
  init := ⟨(machine parses depth capacity).init, .new P capacity h⟩
  step := PythonV2State.step parses

namespace V2State

variable {parses : P → Bool} {s t : V2State P} {a : Action P} {es log : List (Event P)}

/-- The same application over another scheduler. -/
def withScheduler (s : V2State P) (scheduler : Scheduler P) : V2State P :=
  { s with scheduler := scheduler }

/-- The step does not come to the scheduler. -/
def PassesScheduler (s : V2State P) : Action P → Prop
  | .handle _ => ∀ h d payload, s.task = .handler h → h.pc ≠ .submitting d payload
  | .notify _ | .fetch _ | .shutdownScheduler => False
  | _ => True

/-- A step that does not come to the scheduler is the same over every scheduler. -/
theorem Rule.withScheduler (h : s.Rule parses a es t) (hpasses : s.PassesScheduler a)
    (scheduler : Scheduler P) :
    (s.withScheduler scheduler).Rule parses a es (t.withScheduler scheduler) := by
  cases h with
  | arrive htask hfresh => exact .arrive htask hfresh
  | stage htask hpc => exact .stage htask hpc
  | accept htask hpc hrouter => exact .accept htask hpc hrouter
  | unparsable htask hpc => exact .unparsable htask hpc
  | popStaged htask hpc hcall => exact .popStaged htask hpc hcall
  | acceptReturned htask hpc hcall => exact .acceptReturned htask hpc hcall
  | acceptRaised htask hpc hcall => exact .acceptRaised htask hpc hcall
  | submit htask hpc _ _ => exact absurd hpc (hpasses _ _ _ htask)
  | submitRefused htask hpc _ => exact absurd hpc (hpasses _ _ _ htask)
  | refuse htask hpc => exact .refuse htask hpc
  | subscribe htask hpc hrouter => exact .subscribe htask hpc hrouter
  | subscribed htask hpc hcall htake hrouter => exact .subscribed htask hpc hcall htake hrouter
  | unsubscribed htask hpc hcall htake hrouter => exact .unsubscribed htask hpc hcall htake hrouter
  | subscribeRaised htask hpc hcall => exact .subscribeRaised htask hpc hcall
  | call halone hrouter => exact .call halone hrouter
  | cancel htask hrouter => exact .cancel htask hrouter
  | cancelReturned htask hcall hnotice => exact .cancelReturned htask hcall hnotice
  | unwound htask hcall hnotice hbody => exact .unwound htask hcall hnotice hbody
  | resume htask hbody hpc => exact .resume htask hbody hpc
  | delivered htask hbody hpc hrouter => exact .delivered htask hbody hpc hrouter
  | ended htask hbody hpc hrouter => exact .ended htask hbody hpc hrouter
  | abandoned htask hbody hpc => exact .abandoned htask hbody hpc
  | caught htask hbody hpc hraised => exact .caught htask hbody hpc hraised
  | unwind htask hrouter => exact .unwind htask hrouter
  | dropStream hbody hpc hrouter => exact .dropStream hbody hpc hrouter
  | checkStop hthread => exact .checkStop hthread
  | fetchTimeout hthread => exact .fetchTimeout hthread
  | drive hthread hrun hown hnotice hdriver => exact .drive hthread hrun hown hnotice hdriver
  | launch htask hrun hdriver => exact .launch htask hrun hdriver
  | finish hthread hrun hpc => exact .finish hthread hrun hpc
  | stop htask hstop => exact .stop htask hstop
  | shutdownRouter htask hrouter => exact .shutdownRouter htask hrouter
  | notify _ | fetched _ _ | drained _ _ | waiting _ _ | shutdownScheduler _ => exact hpasses.elim

end V2State

/-- Over the Rust scheduler the application would be in state `r`: nothing else differs, and
both schedulers stand for the same live requests. -/
structure PythonV2State.Stands (s : PythonV2State P) (r : V2State P) : Prop where
  app : r = s.app.withScheduler r.scheduler
  live : ∃ accepted live, Matches accepted r.scheduler s.scheduler live

namespace PythonV2State

variable {parses : P → Bool} {s s' : PythonV2State P} {r : V2State P} {a : Action P}
  {es log : List (Event P)}

/-- The ids with a slot will do for the accepted ones. -/
theorem matches_known {accepted : List Scheduling.RequestId} {scheduler : Scheduler P}
    {python : PythonScheduler P} {live : Reference P}
    (h : Matches accepted scheduler python live) :
    Matches scheduler.buckets.known.toList scheduler python live :=
  ⟨h.capacity, h.flag, h.buckets, h.holds, fun _ hknown => Finset.mem_toList.mpr hknown⟩

theorem submit_refused {scheduler scheduler' : PythonScheduler P} {req : ScheduledRequest P}
    {e : SchedulerError} (h : scheduler.submit req = (.error e, scheduler')) :
    scheduler' = scheduler := by
  unfold PythonScheduler.submit at h
  split at h
  · exact (congrArg Prod.snd h).symm
  · split at h
    · exact (congrArg Prod.snd h).symm
    · simp at h

theorem Stands.leave (hstands : s.Stands r) (hpasses : s.app.PassesScheduler a)
    (hstep : s.leave (s.app.step parses a) = some (es, s')) :
    ∃ r', r.Rule parses a es r' ∧ s'.Stands r' := by
  obtain ⟨happ, hlive⟩ := hstands
  unfold PythonV2State.leave at hstep
  split at hstep
  · cases hstep
  · rename_i es' app hone
    cases hstep
    have hrule := (V2State.step_rule hone).withScheduler hpasses r.scheduler
    rw [← happ] at hrule
    exact ⟨app.withScheduler r.scheduler, hrule, rfl, hlive⟩

/-- The Rust scheduler takes the submission when the Python one does. -/
theorem Stands.submitted (hstands : s.Stands r) (hinv : r.Inv log) {h : Handler P} {c d : CallId}
    {payload : Option P} (htask : s.app.task = .handler h) (hpc : h.pc = .submitting d payload)
    (hstep : s.submitted h d payload = some (es, s')) :
    ∃ r', r.Rule parses (.handle c) es r' ∧ s'.Stands r' := by
  obtain ⟨scheduler, rfl⟩ : ∃ scheduler, r = s.app.withScheduler scheduler :=
    ⟨r.scheduler, hstands.app⟩
  obtain ⟨accepted, live, hmatches⟩ := hstands.live
  have hrefused : ∀ {e : RouterError} {router : Sys} {fs : List Router.Event},
      s.app.router.step (.submitted d (.error e)) = some (fs, router) →
      ∃ r', (s.app.withScheduler scheduler).Rule parses (.handle c) [] r' ∧
        Stands ⟨{ s.app with router := router }.setHandler h (.accepting d), s.scheduler⟩ r' := by
    intro e router fs hrouter
    exact ⟨_, .submitRefused htask hpc (Sys.step_rule hrouter), rfl, accepted, live, hmatches⟩
  unfold PythonV2State.submitted at hstep
  split at hstep
  rename_i answer python hsubmit
  split at hstep
  · cases hstep
  · rename_i fs router hrouter
    cases hstep
    cases payload with
    | none =>
        cases hsubmit
        exact hrefused hrouter
    | some payload =>
        simp only [PythonV2State.submit] at hsubmit
        split at hsubmit
        · rename_i u python' htaken
          cases hsubmit
          have hregistered := (hinv.handler h htask).2
          unfold V2State.Admits at hregistered
          rw [hpc] at hregistered
          have hunknown : schedulerId h.req.id ∉ scheduler.buckets.known :=
            V2State.unknown_of_not_queued hmatches.buckets hregistered.registered.unqueued
          have hanswer := hmatches.submit_answer
            ⟨schedulerId h.req.id, schedulerPriority h.req.priority, 0, payload⟩
          have hfresh : (scheduler.submit ⟨schedulerId h.req.id,
              schedulerPriority h.req.priority, 0, payload⟩).1 = .ok () →
              schedulerId h.req.id ∉ scheduler.buckets.known.toList :=
            fun _ hknown => hunknown (Finset.mem_toList.mp hknown)
          obtain ⟨live', hmatches'⟩ := (matches_known hmatches).submit hfresh
          rw [htaken] at hanswer hmatches'
          exact ⟨_, .submit htask hpc (Prod.ext hanswer rfl) (Sys.step_rule hrouter), rfl, _, live',
            hmatches'⟩
        · rename_i e python' htaken
          cases hsubmit
          cases submit_refused htaken
          exact hrefused hrouter

/-- An attempt of `next` that finds nothing tells whether the scheduler is shut down. -/
theorem poll_nothing {scheduler scheduler' : Scheduler P} {result : Scheduling.Poll P}
    (h : scheduler.poll = (result, scheduler')) (hnone : ∀ req, result ≠ .item req) :
    result = if scheduler.shuttingDown then .drained else .waiting := by
  unfold Scheduler.poll at h
  split at h
  · cases h
    exact absurd rfl (hnone _)
  · cases h
    rfl

/-- Both schedulers hand out the same request, or none. -/
theorem Stands.fetch (hstands : s.Stands r) (job : Job) (hthread : s.app.thread = .fetching) :
    ∃ r', r.Rule parses (.fetch job) (s.fetch job).1 r' ∧ (s.fetch job).2.Stands r' := by
  obtain ⟨scheduler, rfl⟩ : ∃ scheduler, r = s.app.withScheduler scheduler :=
    ⟨r.scheduler, hstands.app⟩
  obtain ⟨accepted, live, hmatches⟩ := hstands.live
  have hflag : s.scheduler.shuttingDown = scheduler.shuttingDown := hmatches.flag
  obtain ⟨hanswer, live', hmatches'⟩ : (scheduler.answer .nextBlocking).1 =
      (s.scheduler.answer .nextBlocking).1 ∧
      ∃ live', Matches accepted scheduler.poll.2 s.scheduler.popNext.2 live' := hmatches.poll
  simp only [Scheduler.answer, PythonScheduler.answer, PythonScheduler.nextBlocking] at hanswer
  unfold PythonV2State.fetch
  rcases hpop : s.scheduler.popNext with ⟨item, python⟩
  rcases hpoll : scheduler.poll with ⟨result, scheduler'⟩
  rw [hpop, hpoll] at hanswer hmatches'
  have hresult : ∀ {result}, scheduler.poll = (result, scheduler') → (∀ req, result ≠ .item req) →
      result = if s.scheduler.shuttingDown then .drained else .waiting := by
    intro result hpoll hnone
    rw [hflag]
    exact poll_nothing hpoll hnone
  cases result with
  | item req =>
      cases hanswer
      exact ⟨_, .fetched hthread hpoll, rfl, accepted, live', hmatches'⟩
  | drained =>
      cases hanswer
      have hdown : s.scheduler.shuttingDown = true := by
        by_contra hopen
        have hpolled := hresult hpoll (by simp)
        rw [if_neg hopen] at hpolled
        cases hpolled
      dsimp only
      rw [if_pos hdown]
      have hpoll' : (s.app.withScheduler scheduler).scheduler.poll = (.drained, scheduler') := hpoll
      exact ⟨_, .drained hthread hpoll', rfl, accepted, live', hmatches'⟩
  | waiting =>
      cases hanswer
      have hopen : ¬ s.scheduler.shuttingDown = true := by
        intro hdown
        have hpolled := hresult hpoll (by simp)
        rw [if_pos hdown] at hpolled
        cases hpolled
      dsimp only
      rw [if_neg hopen]
      have hpoll' : (s.app.withScheduler scheduler).scheduler.poll = (.waiting, scheduler') := hpoll
      exact ⟨_, .waiting hthread hpoll', rfl, accepted, live', hmatches'⟩

/-- A step over the Python scheduler is one over the Rust scheduler, under the same rule. -/
theorem Stands.step (hstands : s.Stands r) (hinv : r.Inv log)
    (hstep : s.step parses a = some (es, s')) : ∃ r', r.Rule parses a es r' ∧ s'.Stands r' := by
  cases a with
  | handle c =>
      simp only [PythonV2State.step] at hstep
      split at hstep
      · rename_i h htask
        split at hstep
        · rename_i d payload hpc
          exact hstands.submitted hinv htask hpc hstep
        · rename_i hpc
          refine hstands.leave ?_ hstep
          intro h' d payload htask' hpc'
          cases htask.symm.trans htask'
          exact hpc d payload hpc'
      · cases hstep
  | notify c =>
      simp only [PythonV2State.step] at hstep
      split at hstep
      · cases hstep
      · rename_i id hnotice
        cases hstep
        obtain ⟨scheduler, rfl⟩ : ∃ scheduler, r = s.app.withScheduler scheduler :=
          ⟨r.scheduler, hstands.app⟩
        obtain ⟨accepted, live, hmatches⟩ := hstands.live
        obtain ⟨-, live', hmatches'⟩ := hmatches.cancel (schedulerId id)
        exact ⟨_, .notify hnotice, rfl, accepted, live', hmatches'⟩
  | fetch job =>
      simp only [PythonV2State.step] at hstep
      split at hstep
      · rename_i hthread
        obtain ⟨r', hrule, hstands'⟩ : ∃ r', r.Rule parses (.fetch job) (s.fetch job).1 r' ∧
            (s.fetch job).2.Stands r' := hstands.fetch job hthread
        rw [Option.some.inj hstep] at hrule hstands'
        exact ⟨r', hrule, hstands'⟩
      · cases hstep
  | shutdownScheduler =>
      simp only [PythonV2State.step] at hstep
      split at hstep
      · rename_i htask
        cases hstep
        obtain ⟨scheduler, rfl⟩ : ∃ scheduler, r = s.app.withScheduler scheduler :=
          ⟨r.scheduler, hstands.app⟩
        obtain ⟨accepted, live, hmatches⟩ := hstands.live
        exact ⟨_, .shutdownScheduler htask, rfl, accepted, live, hmatches.capacity, rfl,
          hmatches.buckets, ⟨hmatches.holds.queues, hmatches.holds.known, hmatches.holds.distinct⟩,
          hmatches.accepted⟩
      · cases hstep
  | _ => exact hstands.leave trivial hstep

theorem Stands.init (parses : P → Bool) (depth capacity : Nat) (h : 1 ≤ capacity) :
    (pythonMachine parses depth capacity h).init.Stands (machine parses depth capacity).init where
  app := rfl
  live := ⟨[], [], Matches.init capacity h⟩

end PythonV2State

end Repercep.Serving.V2
