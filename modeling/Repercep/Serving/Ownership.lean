import Repercep.Driver.Termination
import Repercep.Router.Halves
import Repercep.Scheduling.EndMarker
import Repercep.Serving.Steps
set_option autoImplicit false

/-!
# The v2 path: who works on which request

Every call of the router belongs to a thread: an `accept` to the handler of its request,
a push to the run of its request, a cancel to the event loop or to a run.  So a request
is touched by its handler until the scheduler has taken it, and by its run once it has
been fetched.  What a step does to the queues and to the runs is settled here too.
-/

namespace Repercep.Serving.V2

open Repercep.Foundation
open Repercep.Router (Sys RequestId RouterRequest RouterError CallId ChanId Entry)
open Repercep.Scheduling (Scheduler ScheduledRequest)
open Repercep.Driver (Job Solo)

variable {P : Type}

namespace V2State

variable {parses : P → Bool} {s t : V2State P} {a : Action P} {es : List (Event P)}
  {id : RequestId}

/-! ## The thread of a call -/

/-- The thread that makes the call is where it makes it. -/
def Owns (s : V2State P) (c : CallId) : Router.Op → Prop
  | .accept req => ∃ h, s.task = .handler h ∧ h.req = req ∧
      (h.pc = .accepting c ∨ ∃ payload, h.pc = .submitting c payload)
  | .subscribe _ => ∃ h, s.task = .handler h ∧ h.pc = .subscribing c
  | .cancel id => (∃ body, s.task = .cancelling c body) ∨ ∃ run, s.runs id = some run
  | .pushFrame frame => ∃ run, s.runs frame.requestId = some run

/-- No call is at work without its thread. -/
def Owned (s : V2State P) : Prop :=
  ∀ c op, s.router.Running c op → s.Owns c op

/-- What the router's part of a step tells of the step. -/
structure Moves (s : V2State P) (a : Action P) (t : V2State P) (b : Router.Action) : Prop where
  invoked : ∀ c op, b = .invoke c op → t.Owns c op
  pushed : ∀ c frame, b = .invoke c (.pushFrame frame) → a = .launch frame.requestId c
  submitted : ∀ c answer, b = .submitted c answer →
    (∃ d, a = .handle d) ∧ ∃ h payload, s.task = .handler h ∧ h.pc = .submitting c payload
  sections : ∀ c, b.caller = some c →
    a = .call b ∨ (∃ d, a = .handle d) ∨ ∃ op, b = .invoke c op
  shutdown : b = .shutdown → s.task = .joining

/-- A step of the driver on a request calls the router for this request, or leaves it
alone. -/
theorem driver_router {run : Run} {b : Driver.Action} {fs : List Router.Event}
    {d : Driver.State} (hown : ownStep b = true ∨ ∃ c, b = .launch c)
    (h : (s.view run).Rule run.job id b fs d) :
    d.stop = s.stop ∧ fs = [] ∧ (d.router = s.router ∨
      (∃ c, b = .cancel c ∧ s.router.Rule (.invoke c (.cancel id)) [] d.router) ∨
      ∃ c frame, frame.requestId = id ∧ b = .launch c ∧
        s.router.Rule (.invoke c (.pushFrame frame)) [] d.router) := by
  cases h with
  | launch hpush hindex hfree =>
      exact ⟨rfl, rfl, Or.inr (Or.inr ⟨_, _, rfl, rfl, .invoke hfree⟩)⟩
  | cancel hpc hfree => exact ⟨rfl, rfl, Or.inr (Or.inl ⟨_, rfl, .invoke hfree⟩)⟩
  | setStop =>
      rcases hown with hown | ⟨c, hlaunch⟩
      · cases hown
      · cases hlaunch
  | env hout hrouter =>
      rcases hown with hown | ⟨c, hlaunch⟩
      · cases hown
      · cases hlaunch
  | _ => exact ⟨rfl, rfl, Or.inl rfl⟩

theorem withRun_run (s : V2State P) (id : RequestId) (run : Run) (d : Driver.State) :
    (s.withRun id run d).runs id = some { run with pc := d.pc, push := d.push } :=
  Function.update_self ..

/-- A step makes one step of the router, or none. -/
theorem Rule.router (h : s.Rule parses a es t) :
    t.router = s.router ∨ ∃ b fs, s.router.Rule b fs t.router ∧ s.Moves a t b := by
  cases h with
  | accept htask hpc hrouter =>
      refine Or.inr ⟨_, _, hrouter, ?_, by simp, by simp, fun _ hc => ?_, by simp⟩
      · rintro c op ⟨⟩
        exact ⟨_, rfl, rfl, Or.inl rfl⟩
      · cases hc
        exact Or.inr (Or.inr ⟨_, rfl⟩)
  | submit htask hpc hsubmit hrouter =>
      refine Or.inr ⟨_, _, hrouter, by simp, by simp, ?_, fun _ _ => Or.inr (Or.inl ⟨_, rfl⟩),
        by simp⟩
      rintro c answer ⟨⟩
      exact ⟨⟨_, rfl⟩, _, _, htask, hpc⟩
  | submitRefused htask hpc hrouter =>
      refine Or.inr ⟨_, _, hrouter, by simp, by simp, ?_, fun _ _ => Or.inr (Or.inl ⟨_, rfl⟩),
        by simp⟩
      rintro c answer ⟨⟩
      exact ⟨⟨_, rfl⟩, _, _, htask, hpc⟩
  | subscribe htask hpc hrouter =>
      refine Or.inr ⟨_, _, hrouter, ?_, by simp, by simp, fun _ hc => ?_, by simp⟩
      · rintro c op ⟨⟩
        exact ⟨_, rfl, rfl⟩
      · cases hc
        exact Or.inr (Or.inr ⟨_, rfl⟩)
  | subscribed htask hpc hcall htake hrouter =>
      exact Or.inr ⟨_, _, hrouter, by simp, by simp, by simp,
        fun _ _ => Or.inr (Or.inl ⟨_, rfl⟩), by simp⟩
  | unsubscribed htask hpc hcall htake hrouter =>
      exact Or.inr ⟨_, _, hrouter, by simp, by simp, by simp,
        fun _ _ => Or.inr (Or.inl ⟨_, rfl⟩), by simp⟩
  | @call b fs r halone hrouter =>
      refine Or.inr ⟨_, _, hrouter, ?_, ?_, ?_, fun _ _ => Or.inl rfl, ?_⟩
      · rintro c op rfl
        cases halone
      · rintro c frame rfl
        cases halone
      · rintro c answer rfl
        cases halone
      · rintro rfl
        cases halone
  | cancel htask hrouter =>
      refine Or.inr ⟨_, _, hrouter, ?_, by simp, by simp, fun _ hc => ?_, by simp⟩
      · rintro c op ⟨⟩
        exact Or.inl ⟨_, rfl⟩
      · cases hc
        exact Or.inr (Or.inr ⟨_, rfl⟩)
  | delivered htask hbody hpc hrouter =>
      exact Or.inr ⟨_, _, hrouter, by simp, by simp, by simp, by simp [Router.Action.caller],
        by simp⟩
  | ended htask hbody hpc hrouter =>
      exact Or.inr ⟨_, _, hrouter, by simp, by simp, by simp, by simp [Router.Action.caller],
        by simp⟩
  | unwind htask hrouter =>
      refine Or.inr ⟨_, _, hrouter, ?_, by simp, by simp, fun _ hc => ?_, by simp⟩
      · rintro c op ⟨⟩
        exact Or.inl ⟨_, rfl⟩
      · cases hc
        exact Or.inr (Or.inr ⟨_, rfl⟩)
  | dropStream hbody hpc hrouter =>
      exact Or.inr ⟨_, _, hrouter, by simp, by simp, by simp, by simp [Router.Action.caller],
        by simp⟩
  | @drive id run b fs d hthread hrun hown hnotice hdriver =>
      obtain ⟨-, -, hsame | ⟨c, -, hrouter⟩ | ⟨c, frame, rfl, rfl, hrouter⟩⟩ :=
        driver_router (Or.inl hown) hdriver
      · exact Or.inl hsame
      · refine Or.inr ⟨_, _, hrouter, ?_, by simp, by simp, fun _ hc => ?_, by simp⟩
        · rintro c op ⟨⟩
          exact Or.inr ⟨_, withRun_run ..⟩
        · cases hc
          exact Or.inr (Or.inr ⟨_, rfl⟩)
      · cases hown
  | @launch id run c fs d htask hrun hdriver =>
      obtain ⟨-, -, hsame | ⟨c', hcancel, -⟩ | ⟨c', frame, rfl, hlaunch, hrouter⟩⟩ :=
        driver_router (Or.inr ⟨c, rfl⟩) hdriver
      · exact Or.inl hsame
      · cases hcancel
      · cases hlaunch
        refine Or.inr ⟨_, _, hrouter, ?_, ?_, by simp, fun _ hc => ?_, by simp⟩
        · rintro c op ⟨⟩
          exact ⟨_, withRun_run ..⟩
        · rintro c frame ⟨⟩
          rfl
        · cases hc
          exact Or.inr (Or.inr ⟨_, rfl⟩)
  | shutdownRouter htask hrouter =>
      exact Or.inr ⟨_, _, hrouter, by simp, by simp, by simp, by simp [Router.Action.caller],
        fun _ => htask⟩
  | _ => exact Or.inl rfl

/-! ## Tasks and runs -/

/-- A handler is left only by its own steps. -/
theorem Rule.handler (h : s.Rule parses a es t) {hd : Handler P} (htask : s.task = .handler hd) :
    t.task = .handler hd ∨ ∃ c, a = .handle c := by
  have hbusy : ∀ {task : Task P}, s.task = task → task ≠ .handler hd → False := by
    rintro task rfl hne
    exact hne htask
  cases h with
  | arrive hidle => exact (hbusy hidle (by simp)).elim
  | cancel hidle => exact (hbusy hidle (by simp)).elim
  | cancelReturned hcancelling => exact (hbusy hcancelling (by simp)).elim
  | unwound hcancelling => exact (hbusy hcancelling (by simp)).elim
  | caught hidle => exact (hbusy hidle (by simp)).elim
  | unwind hunwinding => exact (hbusy hunwinding (by simp)).elim
  | stop hidle => exact (hbusy hidle (by simp)).elim
  | shutdownScheduler hstopping => exact (hbusy hstopping (by simp)).elim
  | shutdownRouter hjoining => exact (hbusy hjoining (by simp)).elim
  | call | notify | resume | delivered | ended | abandoned | dropStream | checkStop | fetched
  | drained | waiting | fetchTimeout | drive | launch | finish => exact Or.inl htask
  | _ => exact Or.inr ⟨_, rfl⟩

/-- A cancel is left only when it returns. -/
theorem Rule.cancelling (h : s.Rule parses a es t) {c : CallId} {body : Option RequestId}
    (htask : s.task = .cancelling c body) :
    t.task = .cancelling c body ∨ (t.router = s.router ∧ s.notices c = none ∧
      ∃ result, s.router.calls c = some (.done result)) := by
  have hbusy : ∀ {task : Task P}, s.task = task → (∀ d b, task ≠ .cancelling d b) → False := by
    rintro task rfl hne
    exact hne c body htask
  cases h with
  | arrive hidle => exact (hbusy hidle (by simp)).elim
  | cancel hidle => exact (hbusy hidle (by simp)).elim
  | cancelReturned hcancelling hcall hnotice =>
      cases hcancelling.symm.trans htask
      exact Or.inr ⟨rfl, hnotice, _, hcall⟩
  | unwound hcancelling hcall hnotice =>
      cases hcancelling.symm.trans htask
      exact Or.inr ⟨rfl, hnotice, _, hcall⟩
  | caught hidle => exact (hbusy hidle (by simp)).elim
  | unwind hunwinding => exact (hbusy hunwinding (by simp)).elim
  | stop hidle => exact (hbusy hidle (by simp)).elim
  | shutdownScheduler hstopping => exact (hbusy hstopping (by simp)).elim
  | shutdownRouter hjoining => exact (hbusy hjoining (by simp)).elim
  | call | notify | resume | delivered | ended | abandoned | dropStream | checkStop | fetched
  | drained | waiting | fetchTimeout | drive | launch | finish => exact Or.inl htask
  | stage hhandler | accept hhandler | unparsable hhandler | popStaged hhandler
  | acceptReturned hhandler | acceptRaised hhandler | submit hhandler | submitRefused hhandler
  | refuse hhandler | subscribe hhandler | subscribed hhandler | unsubscribed hhandler
  | subscribeRaised hhandler => exact (hbusy hhandler (by simp)).elim

/-- What a step does to the run of a request. -/
theorem Rule.runs (h : s.Rule parses a es t) (id : RequestId) :
    (t.runs id = s.runs id ∧ ∀ c, a ≠ .launch id c) ∨
      (∃ job req scheduler, a = .fetch job ∧ s.scheduler.poll = (.item req, scheduler) ∧
        routerId req.id = id ∧ t.scheduler = scheduler ∧ t.router = s.router ∧
        t.stop = s.stop ∧ t.runs id = some (startRun job)) ∨
      ∃ run b fs d, s.runs id = some run ∧ (ownStep b = true ∨ ∃ c, b = .launch c) ∧
        (s.view run).Rule run.job id b fs d ∧ t = s.withRun id run d := by
  cases h with
  | @fetched job req scheduler hthread hpoll =>
      by_cases hid : routerId req.id = id
      · subst hid
        exact Or.inr (Or.inl ⟨job, req, scheduler, rfl, hpoll, rfl, rfl, rfl, rfl,
          Function.update_self ..⟩)
      · exact Or.inl ⟨Function.update_of_ne (Ne.symm hid) .., by simp⟩
  | @drive k run b fs d hthread hrun hown hnotice hdriver =>
      by_cases hid : id = k
      · subst hid
        exact Or.inr (Or.inr ⟨run, b, fs, d, hrun, Or.inl hown, hdriver, rfl⟩)
      · exact Or.inl ⟨Function.update_of_ne hid .., by simp⟩
  | @launch k run c fs d htask hrun hdriver =>
      by_cases hid : id = k
      · subst hid
        exact Or.inr (Or.inr ⟨run, _, fs, d, hrun, Or.inr ⟨c, rfl⟩, hdriver, rfl⟩)
      · refine Or.inl ⟨Function.update_of_ne hid .., ?_⟩
        rintro c' ⟨⟩
        exact hid rfl
  | _ => exact Or.inl ⟨rfl, by simp⟩

/-- A request that has been fetched stays so. -/
theorem Rule.runs_some (h : s.Rule parses a es t) {run : Run} (hrun : s.runs id = some run) :
    ∃ run', t.runs id = some run' := by
  rcases h.runs id with ⟨hsame, -⟩ | ⟨job, req, sched, -, -, -, -, -, -, hnew⟩ |
    ⟨r, b, fs, d, -, -, -, rfl⟩
  · exact ⟨run, hsame.trans hrun⟩
  · exact ⟨_, hnew⟩
  · exact ⟨_, withRun_run ..⟩

/-! ## Calls keep their threads -/

/-- The section of a `subscribe` is its last. -/
theorem subscribe_done {router r : Sys} {c : CallId} {k : RequestId} {fs : List Router.Event}
    (h : router.Rule (.enter c) fs r) (hcall : router.calls c = some (.opened (.subscribe k))) :
    ∃ result, r.calls c = some (.done result) := by
  cases h with
  | refuse _ _ => exact ⟨_, Sys.advance_calls_self⟩
  | register hcall' _ => cases hcall.symm.trans hcall'
  | validate hcall' _ => cases hcall.symm.trans hcall'
  | @subscribe _ _ ch inner _ _ =>
      have hself : (router.advance c (.done (.ok ())) inner).calls c = some (.done (.ok ())) :=
        Sys.advance_calls_self
      exact ⟨_, hself⟩
  | cancel hcall' _ => cases hcall.symm.trans hcall'

/-- The handler's own steps take an `accept` along. -/
theorem Owns.handle {c d : CallId} {op : Router.Op} (howns : s.Owns c op) {hd : Handler P}
    (htask : s.task = .handler hd) (h : s.Rule parses (.handle d) es t)
    (hrunning : t.router.Running c op) (hold : s.router.Running c op) : t.Owns c op := by
  have hsame : ∀ {h' : Handler P}, s.task = .handler h' → h' = hd := by
    intro h' h'task
    exact Task.handler.inj (h'task.symm.trans htask)
  have hdone : ∀ {router : Sys} {result}, router.Running c op →
      router.calls c = some (.done result) → False := by
    rintro router result ⟨call, hcall', hop⟩ hcall
    cases hcall.symm.trans hcall'
    cases hop
  cases op with
  | accept req =>
      obtain ⟨h', h'task, rfl, hpc'⟩ := howns
      cases hsame h'task
      cases h with
      | stage htask' hpc | accept htask' hpc | unparsable htask' hpc | refuse htask' hpc
      | subscribe htask' hpc | subscribed htask' hpc | unsubscribed htask' hpc
      | subscribeRaised htask' hpc =>
          cases hsame htask'
          rcases hpc' with hpc' | ⟨payload, hpc'⟩
          · cases hpc.symm.trans hpc'
          · cases hpc.symm.trans hpc'
      | popStaged htask' hpc hcall =>
          cases hsame htask'
          rcases hpc' with hpc' | ⟨payload, hpc'⟩
          · cases hpc.symm.trans hpc'
            exact ⟨_, rfl, rfl, Or.inr ⟨_, rfl⟩⟩
          · cases hpc.symm.trans hpc'
      | acceptReturned htask' hpc hcall | acceptRaised htask' hpc hcall =>
          cases hsame htask'
          rcases hpc' with hpc' | ⟨payload, hpc'⟩
          · cases hpc.symm.trans hpc'
            exact (hdone hold hcall).elim
          · cases hpc.symm.trans hpc'
      | submit htask' hpc hsubmit hrouter | submitRefused htask' hpc hrouter =>
          cases hsame htask'
          rcases hpc' with hpc' | ⟨payload, hpc'⟩
          · cases hpc.symm.trans hpc'
          · cases hpc.symm.trans hpc'
            exact ⟨_, rfl, rfl, Or.inl rfl⟩
  | subscribe k =>
      obtain ⟨h', h'task, hpc'⟩ := howns
      cases hsame h'task
      cases h with
      | stage htask' hpc | accept htask' hpc | unparsable htask' hpc | popStaged htask' hpc
      | acceptReturned htask' hpc | acceptRaised htask' hpc | submit htask' hpc
      | submitRefused htask' hpc | refuse htask' hpc | subscribe htask' hpc =>
          cases hsame htask'
          cases hpc.symm.trans hpc'
      | subscribed htask' hpc hcall htake hrouter =>
          cases hsame htask'
          cases hpc.symm.trans hpc'
          obtain ⟨result, hcall'⟩ := subscribe_done hrouter hcall
          exact (hdone hrunning hcall').elim
      | unsubscribed htask' hpc hcall htake hrouter => exact ⟨_, htask, hpc'⟩
      | subscribeRaised htask' hpc hcall =>
          cases hsame htask'
          cases hpc.symm.trans hpc'
          exact (hdone hold hcall).elim
  | cancel k =>
      rcases howns with ⟨body, hbusy⟩ | ⟨run, hrun⟩
      · cases hbusy.symm.trans htask
      · exact Or.inr (h.runs_some hrun)
  | pushFrame frame =>
      obtain ⟨run, hrun⟩ := howns
      exact h.runs_some hrun

/-- A call at work keeps its thread. -/
theorem Owns.step {c : CallId} {op : Router.Op} (howns : s.Owns c op)
    (h : s.Rule parses a es t) (hrunning : t.router.Running c op)
    (hold : s.router.Running c op) : t.Owns c op := by
  have hhandler : ∀ {hd : Handler P}, s.task = .handler hd →
      (t.task = .handler hd → t.Owns c op) → t.Owns c op := by
    intro hd htask hstay
    rcases h.handler htask with hsame | ⟨d, rfl⟩
    · exact hstay hsame
    · exact howns.handle htask h hrunning hold
  cases op with
  | accept req =>
      obtain ⟨hd, htask, hreq, hpc⟩ := howns
      exact hhandler htask fun hsame => ⟨hd, hsame, hreq, hpc⟩
  | subscribe k =>
      obtain ⟨hd, htask, hpc⟩ := howns
      exact hhandler htask fun hsame => ⟨hd, hsame, hpc⟩
  | cancel k =>
      rcases howns with ⟨body, htask⟩ | ⟨run, hrun⟩
      · rcases h.cancelling htask with hsame | ⟨-, -, result, hcall⟩
        · exact Or.inl ⟨body, hsame⟩
        · obtain ⟨call, hcall', hop⟩ := hold
          cases hcall.symm.trans hcall'
          cases hop
      · exact Or.inr (h.runs_some hrun)
  | pushFrame frame =>
      obtain ⟨run, hrun⟩ := howns
      exact h.runs_some hrun

theorem Owned.step (howned : s.Owned) (h : s.Rule parses a es t) : t.Owned := by
  intro c op hrunning
  rcases h.router with hsame | ⟨b, fs, hrouter, hmoves⟩
  · have hold : s.router.Running c op := hsame ▸ hrunning
    exact (howned c op hold).step h hrunning hold
  · rcases hrouter.running hrunning with hold | hinvoke
    · exact (howned c op hold).step h hrunning hold
    · exact hmoves.invoked c op hinvoke

/-! ## Requests that have not been fetched -/

/-- Nobody pushes frames of a request that has not been fetched. -/
theorem Owned.not_pushing (howned : s.Owned) (hrun : s.runs id = none) {c : CallId}
    {frame : Router.Frame} (hpushing : s.router.Running c (.pushFrame frame)) :
    frame.requestId ≠ id := by
  rintro rfl
  obtain ⟨run, hsome⟩ := howned c _ hpushing
  cases hrun.symm.trans hsome

/-! ## The queues -/

/-- The id has an item in the scheduler's queues. -/
def Queued (s : V2State P) (id : RequestId) : Prop :=
  ∃ x ∈ s.scheduler.buckets.items, x.id = schedulerId id

/-- The id is cancelled in the scheduler and its item not yet skipped. -/
def Buried (s : V2State P) (id : RequestId) : Prop :=
  schedulerId id ∈ s.scheduler.buckets.cancelled

/-- No id is queued twice. -/
def Distinct (s : V2State P) : Prop :=
  (s.scheduler.buckets.items.map ScheduledRequest.id).Nodup

/-- What an attempt of `next` takes off the queues: skipped items that were cancelled,
and the item it returns. -/
theorem poll_takes {scheduler scheduler' : Scheduler P} {result : Scheduling.Poll P}
    (h : scheduler.poll = (result, scheduler')) :
    ∃ (out : Option (ScheduledRequest P)) (skipped : Multiset (ScheduledRequest P)),
      scheduler.buckets.Takes out scheduler'.buckets skipped ∧
        ∀ req, out = some req ↔ result = .item req := by
  unfold Scheduler.poll at h
  rcases hpop : scheduler.buckets.popNext with ⟨out, b⟩
  obtain ⟨⟨skipped, htakes⟩, -⟩ := Scheduling.Buckets.popNext_takes hpop
  rw [hpop] at h
  cases out with
  | none =>
      obtain ⟨rfl, rfl⟩ := Prod.mk.inj h
      refine ⟨none, skipped, htakes, ?_⟩
      intro req
      split <;> simp
  | some req =>
      obtain ⟨rfl, rfl⟩ := Prod.mk.inj h
      exact ⟨some req, skipped, htakes, by simp⟩

section Takes

variable {b b' : Scheduling.Buckets P} {out : Option (ScheduledRequest P)}
  {skipped : Multiset (ScheduledRequest P)} {x : ScheduledRequest P}

theorem mem_of_takes (h : b.Takes out b' skipped) (hx : x ∈ b'.items) : x ∈ b.items := by
  rw [h.items]
  exact Multiset.mem_add.mpr (Or.inr hx)

theorem mem_of_takes_out (h : b.Takes (some x) b' skipped) : x ∈ b.items := by
  rw [h.items]
  simp

theorem mem_cases_of_takes (h : b.Takes out b' skipped) (hx : x ∈ b.items) :
    x ∈ b'.items ∨ out = some x ∨ x.id ∈ b.cancelled := by
  rw [h.items] at hx
  rcases Multiset.mem_add.mp hx with hx | hx
  · rcases Multiset.mem_add.mp hx with hx | hx
    · have hid : x.id ∈ b.cancelled.val := by
        rw [← h.tombstones]
        exact Multiset.mem_add.mpr (Or.inl (Multiset.mem_map_of_mem _ hx))
      exact Or.inr (Or.inr hid)
    · have hout : x ∈ out.toList := hx
      exact Or.inr (Or.inl (Option.mem_toList.mp hout))
  · exact Or.inl hx

theorem cancelled_of_takes (h : b.Takes out b' skipped) {k : Scheduling.RequestId}
    (hk : k ∈ b'.cancelled) : k ∈ b.cancelled := by
  have hval : k ∈ b.cancelled.val := by
    rw [← h.tombstones]
    exact Multiset.mem_add.mpr (Or.inr hk)
  exact hval

theorem nodup_of_takes (h : b.Takes out b' skipped)
    (hnodup : (b.items.map ScheduledRequest.id).Nodup) :
    (b'.items.map ScheduledRequest.id).Nodup := by
  rw [h.items, Multiset.map_add] at hnodup
  exact (Multiset.nodup_add.mp hnodup).2.1

/-- With distinct ids, what is taken is not left in the queues. -/
theorem not_mem_of_takes_out (h : b.Takes (some x) b' skipped)
    (hnodup : (b.items.map ScheduledRequest.id).Nodup) {y : ScheduledRequest P}
    (hy : y ∈ b'.items) : y.id ≠ x.id := by
  rw [h.items, Multiset.map_add, Multiset.map_add] at hnodup
  have hdisjoint := (Multiset.nodup_add.mp hnodup).2.2
  intro heq
  have hleft : x.id ∈ skipped.map ScheduledRequest.id +
      ((some x).toList : Multiset (ScheduledRequest P)).map ScheduledRequest.id := by simp
  have hright : x.id ∈ b'.items.map ScheduledRequest.id :=
    heq ▸ Multiset.mem_map_of_mem ScheduledRequest.id hy
  exact Multiset.disjoint_left.mp hdisjoint hleft hright

end Takes

/-- A submission that is taken adds one item, and no tombstone. -/
theorem submit_buckets {scheduler scheduler' : Scheduler P} {req : ScheduledRequest P}
    (h : scheduler.submit req = (.ok (), scheduler')) :
    scheduler'.buckets.items = scheduler.buckets.items + {req} ∧
      scheduler'.buckets.cancelled = scheduler.buckets.cancelled := by
  unfold Scheduler.submit at h
  split at h
  · cases h
  · split at h
    · cases h
    · cases h
      refine ⟨Scheduling.Buckets.items_push _ _, ?_⟩
      simp [Scheduling.Buckets.push]

/-- A cancel moves no item and buries its id at most. -/
theorem cancel_buckets (scheduler : Scheduler P) (k : Scheduling.RequestId) :
    (scheduler.cancel k).2.buckets.items = scheduler.buckets.items ∧
      ∀ j, j ∈ (scheduler.cancel k).2.buckets.cancelled →
        j = k ∨ j ∈ scheduler.buckets.cancelled := by
  unfold Scheduler.cancel
  split
  · exact ⟨rfl, fun j hj => Or.inr hj⟩
  · split
    · rename_i hknown
      exact ⟨rfl, fun j hj => (Tombstones.mem_cancelled_bury _ _ _ hknown).mp hj⟩
    · exact ⟨rfl, fun j hj => Or.inr hj⟩

/-- An item is queued by the submission of its request only. -/
theorem Rule.queued (h : s.Rule parses a es t) (hqueued : t.Queued id) :
    s.Queued id ∨ ∃ hd c d req payload, a = .handle d ∧ s.task = .handler hd ∧
      hd.req.id = id ∧ hd.pc = .submitting c payload ∧
      s.router.calls c = some (.submitting req) := by
  obtain ⟨x, hx, hid⟩ := hqueued
  cases h with
  | @submit hd c d payload fs r scheduler htask hpc hsubmit hrouter =>
      have hx' : x ∈ scheduler.buckets.items := hx
      rw [(submit_buckets hsubmit).1] at hx'
      rcases Multiset.mem_add.mp hx' with hx' | hx'
      · exact Or.inl ⟨x, hx', hid⟩
      · cases Multiset.mem_singleton.mp hx'
        have hsame : hd.req.id = id := congrArg routerId hid
        cases hrouter with
        | submitted hcall => exact Or.inr ⟨hd, d, c, _, some payload, rfl, htask, hsame, hpc, hcall⟩
  | @notify c k _ =>
      have hitems := (cancel_buckets s.scheduler (schedulerId k)).1
      exact Or.inl ⟨x, hitems ▸ hx, hid⟩
  | fetched _ hpoll | drained _ hpoll | waiting _ hpoll =>
      obtain ⟨out, skipped, htakes, -⟩ := poll_takes hpoll
      exact Or.inl ⟨x, mem_of_takes htakes hx, hid⟩
  | _ => exact Or.inl ⟨x, hx, hid⟩

/-- An item leaves the queues when it is fetched, or skipped because it is cancelled. -/
theorem Rule.unqueued (h : s.Rule parses a es t) (hqueued : s.Queued id) :
    t.Queued id ∨ s.Buried id ∨ ∃ job, a = .fetch job ∧ t.runs id = some (startRun job) := by
  obtain ⟨x, hx, hid⟩ := hqueued
  have htaken : ∀ {result scheduler}, s.scheduler.poll = (result, scheduler) →
      (∃ y ∈ scheduler.buckets.items, y.id = schedulerId id) ∨ s.Buried id ∨
        ∃ req, result = .item req ∧ routerId req.id = id := by
    intro result scheduler hpoll
    obtain ⟨out, skipped, htakes, hout⟩ := poll_takes hpoll
    rcases mem_cases_of_takes htakes hx with hx' | hx' | hx'
    · exact Or.inl ⟨x, hx', hid⟩
    · exact Or.inr (Or.inr ⟨x, (hout x).mp hx', congrArg routerId hid⟩)
    · rw [hid] at hx'
      exact Or.inr (Or.inl hx')
  cases h with
  | @submit hd c d payload fs r scheduler _ _ hsubmit _ =>
      have hx' : x ∈ scheduler.buckets.items := by
        rw [(submit_buckets hsubmit).1]
        exact Multiset.mem_add.mpr (Or.inl hx)
      exact Or.inl ⟨x, hx', hid⟩
  | @notify c k _ =>
      have hitems := (cancel_buckets s.scheduler (schedulerId k)).1
      exact Or.inl ⟨x, hitems.symm ▸ hx, hid⟩
  | @fetched job req scheduler _ hpoll =>
      rcases htaken hpoll with hstay | hburied | ⟨req', hreq, rfl⟩
      · exact Or.inl hstay
      · exact Or.inr (Or.inl hburied)
      · cases hreq
        exact Or.inr (Or.inr ⟨job, rfl, Function.update_self ..⟩)
  | drained _ hpoll | waiting _ hpoll =>
      rcases htaken hpoll with hstay | hburied | ⟨req', hreq, rfl⟩
      · exact Or.inl hstay
      · exact Or.inr (Or.inl hburied)
      · cases hreq
  | _ => exact Or.inl ⟨x, hx, hid⟩

/-- What is fetched was queued, and with distinct ids is so no longer. -/
theorem poll_queued {req : ScheduledRequest P} {scheduler : Scheduler P}
    (hpoll : s.scheduler.poll = (.item req, scheduler)) :
    s.Queued (routerId req.id) ∧
      (s.Distinct → ¬ ∃ x ∈ scheduler.buckets.items, x.id = schedulerId (routerId req.id)) := by
  obtain ⟨out, skipped, htakes, hout⟩ := poll_takes hpoll
  cases (hout req).mpr rfl
  refine ⟨⟨req, mem_of_takes_out htakes, rfl⟩, ?_⟩
  rintro hdistinct ⟨x, hx, hid⟩
  exact not_mem_of_takes_out htakes hdistinct hx hid

/-- An id is buried when a cancel tells the scheduler of it. -/
theorem Rule.buried (h : s.Rule parses a es t) (hburied : t.Buried id) :
    s.Buried id ∨ ∃ c, a = .notify c ∧ s.notices c = some id := by
  cases h with
  | @submit hd c d payload fs r scheduler _ _ hsubmit _ =>
      have hburied' : schedulerId id ∈ scheduler.buckets.cancelled := hburied
      rw [(submit_buckets hsubmit).2] at hburied'
      exact Or.inl hburied'
  | @notify c k hnotice =>
      rcases (cancel_buckets s.scheduler (schedulerId k)).2 _ hburied with heq | hold
      · have hsame : id = k := congrArg routerId heq
        exact Or.inr ⟨c, rfl, hsame ▸ hnotice⟩
      · exact Or.inl hold
  | fetched _ hpoll | drained _ hpoll | waiting _ hpoll =>
      obtain ⟨out, skipped, htakes, -⟩ := poll_takes hpoll
      exact Or.inl (cancelled_of_takes htakes hburied)
  | _ => exact Or.inl hburied

/-- The queued ids stay distinct while a submitted id is not queued. -/
theorem Distinct.step (hdistinct : s.Distinct) (h : s.Rule parses a es t)
    (hfresh : ∀ hd c payload, s.task = .handler hd → hd.pc = .submitting c payload →
      ¬ s.Queued hd.req.id) : t.Distinct := by
  cases h with
  | @submit hd c d payload fs r scheduler htask hpc hsubmit _ =>
      have hnew := hfresh _ _ _ htask hpc
      change (scheduler.buckets.items.map ScheduledRequest.id).Nodup
      rw [(submit_buckets hsubmit).1, Multiset.map_add, Multiset.map_singleton,
        add_comm, Multiset.singleton_add, Multiset.nodup_cons]
      refine ⟨?_, hdistinct⟩
      intro hmem
      obtain ⟨x, hx, hid⟩ := Multiset.mem_map.mp hmem
      exact hnew ⟨x, hx, hid⟩
  | @notify c k _ =>
      change ((s.scheduler.cancel (schedulerId k)).2.buckets.items.map
        ScheduledRequest.id).Nodup
      rw [(cancel_buckets s.scheduler (schedulerId k)).1]
      exact hdistinct
  | fetched _ hpoll | drained _ hpoll | waiting _ hpoll =>
      obtain ⟨out, skipped, htakes, -⟩ := poll_takes hpoll
      exact nodup_of_takes htakes hdistinct
  | _ => exact hdistinct

end V2State

end Repercep.Serving.V2
