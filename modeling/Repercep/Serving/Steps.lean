import Repercep.Serving.Application
set_option autoImplicit false

/-!
# The v2 path: the step relation

One rule per outcome of a step, with what the step finds and the state it leaves.  What
happens in the router is always a rule of the router.
-/

namespace Repercep.Serving.V2

open Repercep.Foundation
open Repercep.Router (Sys RequestId RouterRequest RouterError CallId ChanId)
open Repercep.Scheduling (Scheduler ScheduledRequest)
open Repercep.Driver (Job)

variable {P : Type}

namespace V2State

/-- `Rule parses s a es t`: the label `a` takes `s` to `t`, emitting `es`. -/
inductive Rule (parses : P → Bool) (s : V2State P) :
    Action P → List (Event P) → V2State P → Prop where
  | arrive {req : RouterRequest} {payload : P} (htask : s.task = .idle)
      (hfresh : s.issued req.id = false) :
      Rule parses s (.arrive req payload) [.arrived req.id payload] { s with
        issued := Function.update s.issued req.id true
        task := .handler ⟨req, payload, .staging⟩ }
  | stage {h : Handler P} {c : CallId} (htask : s.task = .handler h) (hpc : h.pc = .staging) :
      Rule parses s (.handle c) [] ((s.stage h.req.id h.payload).setHandler h .staged)
  | accept {h : Handler P} {c : CallId} {es : List Router.Event} {r : Sys}
      (htask : s.task = .handler h) (hpc : h.pc = .staged)
      (hrouter : s.router.Rule (.invoke c (.accept h.req)) es r) :
      Rule parses s (.handle c) [] ({ s with router := r }.setHandler h (.accepting c))
  /-- `router.accept` does not get as far as the router -/
  | unparsable {h : Handler P} {c : CallId} {detail : String} (htask : s.task = .handler h)
      (hpc : h.pc = .staged) :
      Rule parses s (.handle c) [] (s.setHandler h (.discarding detail))
  | popStaged {h : Handler P} {c d : CallId} {req : RouterRequest}
      (htask : s.task = .handler h) (hpc : h.pc = .accepting d)
      (hcall : s.router.calls d = some (.submitting req)) :
      Rule parses s (.handle c) []
        ((s.discard req.id).setHandler h (.submitting d (s.staged req.id)))
  | acceptReturned {h : Handler P} {c d : CallId} (htask : s.task = .handler h)
      (hpc : h.pc = .accepting d) (hcall : s.router.calls d = some (.done (.ok ()))) :
      Rule parses s (.handle c) [] (s.setHandler h .accepted)
  | acceptRaised {h : Handler P} {c d : CallId} {e : RouterError} {detail : String}
      (htask : s.task = .handler h) (hpc : h.pc = .accepting d)
      (hcall : s.router.calls d = some (.done (.error e))) :
      Rule parses s (.handle c) [] (s.setHandler h (.discarding detail))
  /-- the scheduler takes the request -/
  | submit {h : Handler P} {c d : CallId} {payload : P} {es : List Router.Event} {r : Sys}
      {scheduler : Scheduler P} (htask : s.task = .handler h)
      (hpc : h.pc = .submitting d (some payload))
      (hsubmit : s.scheduler.submit
        ⟨schedulerId h.req.id, schedulerPriority h.req.priority, 0, payload⟩ = (.ok (), scheduler))
      (hrouter : s.router.Rule (.submitted d (.ok ())) es r) :
      Rule parses s (.handle c) [.submitted h.req.id payload]
        ({ s with router := r, scheduler := scheduler }.setHandler h (.accepting d))
  | submitRefused {h : Handler P} {c d : CallId} {payload : Option P} {e : RouterError}
      {es : List Router.Event} {r : Sys} (htask : s.task = .handler h)
      (hpc : h.pc = .submitting d payload)
      (hrouter : s.router.Rule (.submitted d (.error e)) es r) :
      Rule parses s (.handle c) [] ({ s with router := r }.setHandler h (.accepting d))
  /-- the `HTTPException` of the `except RouterError` -/
  | refuse {h : Handler P} {c : CallId} {detail : String} (htask : s.task = .handler h)
      (hpc : h.pc = .discarding detail) :
      Rule parses s (.handle c) [.responded h.req.id (refusalStatus detail)]
        ((s.discard h.req.id).setTask .idle)
  | subscribe {h : Handler P} {c : CallId} {es : List Router.Event} {r : Sys}
      (htask : s.task = .handler h) (hpc : h.pc = .accepted)
      (hrouter : s.router.Rule (.invoke c (.subscribe h.req.id)) es r) :
      Rule parses s (.handle c) [] ({ s with router := r }.setHandler h (.subscribing c))
  | subscribed {h : Handler P} {c d : CallId} {id : RequestId} {stream : ChanId}
      {inner : Router.Inner} {es : List Router.Event} {r : Sys} (htask : s.task = .handler h)
      (hpc : h.pc = .subscribing d) (hcall : s.router.calls d = some (.opened (.subscribe id)))
      (htake : s.router.inner.takeReceiver h.req.id = (.ok stream, inner))
      (hrouter : s.router.Rule (.enter d) es r) :
      Rule parses s (.handle c) [.responded h.req.id 200]
        (({ s with router := r }.setBody h.req.id ⟨stream, false, .unstarted⟩ .unstarted).setTask
          .idle)
  | unsubscribed {h : Handler P} {c d : CallId} {id : RequestId} {e : RouterError}
      {inner : Router.Inner} {es : List Router.Event} {r : Sys} (htask : s.task = .handler h)
      (hpc : h.pc = .subscribing d) (hcall : s.router.calls d = some (.opened (.subscribe id)))
      (htake : s.router.inner.takeReceiver h.req.id = (.error e, inner))
      (hrouter : s.router.Rule (.enter d) es r) :
      Rule parses s (.handle c) [] { s with router := r }
  | subscribeRaised {h : Handler P} {c d : CallId} {e : RouterError}
      (htask : s.task = .handler h) (hpc : h.pc = .subscribing d)
      (hcall : s.router.calls d = some (.done (.error e))) :
      Rule parses s (.handle c) [.responded h.req.id 500] (s.setTask .idle)
  | call {a : Router.Action} {es : List Router.Event} {r : Sys}
      (halone : runsAlone s.router a = true) (hrouter : s.router.Rule a es r) :
      Rule parses s (.call a) (es.map .router) { s with router := r, notices := s.noticesAfter a }
  | notify {c : CallId} {id : RequestId} (hnotice : s.notices c = some id) :
      Rule parses s (.notify c) [] (s.tellScheduler c id)
  | cancel {c : CallId} {id : RequestId} {es : List Router.Event} {r : Sys}
      (htask : s.task = .idle) (hrouter : s.router.Rule (.invoke c (.cancel id)) es r) :
      Rule parses s (.cancel c id) [] ({ s with router := r }.setTask (.cancelling c none))
  | cancelReturned {c : CallId} {result : Except RouterError Unit}
      (htask : s.task = .cancelling c none) (hcall : s.router.calls c = some (.done result))
      (hnotice : s.notices c = none) :
      Rule parses s .cancelReturned [] (s.setTask .idle)
  | unwound {c : CallId} {id : RequestId} {result : Except RouterError Unit} {body : Body}
      (htask : s.task = .cancelling c (some id))
      (hcall : s.router.calls c = some (.done result)) (hnotice : s.notices c = none)
      (hbody : s.bodies id = some body) :
      Rule parses s .cancelReturned []
        ((s.setBody id body (.finished (some .exception))).setTask .idle)
  | resume {id : RequestId} {body : Body} (htask : s.task = .idle)
      (hbody : s.bodies id = some body) (hpc : body.pc = .unstarted ∨ body.pc = .yielding) :
      Rule parses s (.resume id) [] (s.setBody id body .reading)
  | delivered {id : RequestId} {body : Body} {frame : Router.Frame} {r : Sys}
      (htask : s.task = .idle) (hbody : s.bodies id = some body) (hpc : body.pc = .reading)
      (hrouter : s.router.Rule (.recv body.stream) [.delivered body.stream frame] r) :
      Rule parses s (.receive id) [.router (.delivered body.stream frame)]
        ({ s with router := r }.setBody id
          { body with sawFinal := body.sawFinal || frame.isFinal } .yielding)
  | ended {id : RequestId} {body : Body} {r : Sys}
      (htask : s.task = .idle) (hbody : s.bodies id = some body) (hpc : body.pc = .reading)
      (hrouter : s.router.Rule (.recv body.stream) [.ended body.stream] r) :
      Rule parses s (.receive id) [.router (.ended body.stream)]
        ({ s with router := r }.setBody id body (.finished none))
  /-- what is raised is not caught -/
  | abandoned {id : RequestId} {body : Body} {raised : Raised} (htask : s.task = .idle)
      (hbody : s.bodies id = some body)
      (hpc : body.pc = .unstarted ∨
        (body.pc = .reading ∨ body.pc = .yielding) ∧ raised.isException = false) :
      Rule parses s (.interrupt id raised) [] (s.setBody id body (.finished (some raised)))
  | caught {id : RequestId} {body : Body} {raised : Raised} (htask : s.task = .idle)
      (hbody : s.bodies id = some body) (hpc : body.pc = .reading ∨ body.pc = .yielding)
      (hraised : raised.isException = true) :
      Rule parses s (.interrupt id raised) []
        ((s.setBody id body .unwinding).setTask (.unwinding id))
  | unwind {c : CallId} {id : RequestId} {es : List Router.Event} {r : Sys}
      (htask : s.task = .unwinding id) (hrouter : s.router.Rule (.invoke c (.cancel id)) es r) :
      Rule parses s (.unwind c) [] ({ s with router := r }.setTask (.cancelling c (some id)))
  | dropStream {id : RequestId} {body : Body} {raised : Option Raised} {es : List Router.Event}
      {r : Sys} (hbody : s.bodies id = some body) (hpc : body.pc = .finished raised)
      (hrouter : s.router.Rule (.dropReceiver body.stream) es r) :
      Rule parses s (.dropStream id) [] { s with router := r }
  | checkStop (hthread : s.thread = .polling) :
      Rule parses s .checkStop [] { s with thread := if s.stop then .exited else .fetching }
  | fetched {job : Job} {req : ScheduledRequest P} {scheduler : Scheduler P}
      (hthread : s.thread = .fetching) (hpoll : s.scheduler.poll = (.item req, scheduler)) :
      Rule parses s (.fetch job) [.fetched (routerId req.id) req.payload] { s with
        scheduler := scheduler
        runs := Function.update s.runs (routerId req.id) (some (startRun job))
        thread := .running (routerId req.id) }
  | drained {job : Job} {scheduler : Scheduler P} (hthread : s.thread = .fetching)
      (hpoll : s.scheduler.poll = (.drained, scheduler)) :
      Rule parses s (.fetch job) [] { s with scheduler := scheduler, thread := .polling }
  | waiting {job : Job} {scheduler : Scheduler P} (hthread : s.thread = .fetching)
      (hpoll : s.scheduler.poll = (.waiting, scheduler)) :
      Rule parses s (.fetch job) [] { s with scheduler := scheduler }
  | fetchTimeout (hthread : s.thread = .fetching) :
      Rule parses s .fetchTimeout [] { s with thread := .polling }
  | drive {id : RequestId} {run : Run} {a : Driver.Action} {es : List Router.Event}
      {d : Driver.State} (hthread : s.thread = .running id) (hrun : s.runs id = some run)
      (hown : ownStep a = true) (hnotice : s.awaitsNotice run = false)
      (hdriver : (s.view run).Rule run.job id a es d) :
      Rule parses s (.drive a) (es.map .router) (s.withRun id run d)
  | launch {id : RequestId} {run : Run} {c : CallId} {es : List Router.Event}
      {d : Driver.State} (htask : s.task = .idle) (hrun : s.runs id = some run)
      (hdriver : (s.view run).Rule run.job id (.launch c) es d) :
      Rule parses s (.launch id c) (es.map .router) (s.withRun id run d)
  | finish {id : RequestId} {run : Run} (hthread : s.thread = .running id)
      (hrun : s.runs id = some run) (hpc : run.pc = .returned) :
      Rule parses s .finish [] { s with thread := .polling }
  | stop (htask : s.task = .idle) (hstop : s.stop = false) :
      Rule parses s .stop [] { s with stop := true, task := .stopping }
  | shutdownScheduler (htask : s.task = .stopping) :
      Rule parses s .shutdownScheduler []
        { s with scheduler := s.scheduler.shutdown, task := .joining }
  | shutdownRouter {es : List Router.Event} {r : Sys} (htask : s.task = .joining)
      (hrouter : s.router.Rule .shutdown es r) :
      Rule parses s .shutdownRouter [] { s with router := r, task := .idle }

variable {parses : P → Bool} {s t : V2State P} {es : List (Event P)}

/-- A submission the scheduler does not take leaves it as it was. -/
theorem submit_error {req : RouterRequest} {payload : Option P} {e : RouterError}
    {scheduler : Scheduler P} (h : s.submit parses req payload = (.error e, scheduler)) :
    scheduler = s.scheduler := by
  cases payload with
  | none =>
      simp only [submit, Prod.mk.injEq] at h
      exact h.2.symm
  | some payload =>
      simp only [submit] at h
      split at h
      · split at h
        · simp at h
        · rename_i e' sched hsubmit
          simp only [Prod.mk.injEq] at h
          rw [← h.2]
          unfold Scheduler.submit at hsubmit
          split at hsubmit
          · exact (congrArg Prod.snd hsubmit).symm
          · split at hsubmit
            · exact (congrArg Prod.snd hsubmit).symm
            · simp at hsubmit
      · simp only [Prod.mk.injEq] at h
        exact h.2.symm

theorem submit_ok {req : RouterRequest} {payload : Option P} {scheduler : Scheduler P}
    (h : s.submit parses req payload = (.ok (), scheduler)) :
    ∃ p, payload = some p ∧ s.scheduler.submit
      ⟨schedulerId req.id, schedulerPriority req.priority, 0, p⟩ = (.ok (), scheduler) := by
  cases payload with
  | none => simp [submit] at h
  | some payload =>
      simp only [submit] at h
      split at h
      · split at h
        · rename_i u sched hsubmit
          simp only [Prod.mk.injEq, true_and] at h
          exact ⟨payload, rfl, by rw [hsubmit, h]⟩
        · simp at h
      · simp at h

/-- A step of the handler follows a rule. -/
theorem handle_rule {h : Handler P} {c : CallId} (htask : s.task = .handler h)
    (hstep : s.handle parses h c = some (es, t)) : s.Rule parses (.handle c) es t := by
  unfold handle at hstep
  split at hstep
  · rename_i hpc
    cases hstep
    exact .stage htask hpc
  · rename_i hpc
    split at hstep
    · split at hstep
      · cases hstep
      · rename_i hrouter
        cases hstep
        exact .accept htask hpc (Sys.step_rule hrouter)
    · cases hstep
      exact .unparsable htask hpc
  · rename_i d hpc
    split at hstep
    · rename_i req hcall
      cases hstep
      exact .popStaged htask hpc hcall
    · rename_i hcall
      cases hstep
      exact .acceptReturned htask hpc hcall
    · rename_i e hcall
      cases hstep
      exact .acceptRaised htask hpc hcall
    · cases hstep
  · rename_i d payload hpc
    split at hstep
    rename_i answer scheduler hsubmit
    split at hstep
    · cases hstep
    · rename_i hrouter
      cases hstep
      cases answer with
      | error e =>
          cases submit_error hsubmit
          have hnone : submissionEvents h.req.id payload (.error e) = [] := by
            cases payload <;> rfl
          rw [hnone]
          exact .submitRefused htask hpc (Sys.step_rule hrouter)
      | ok u =>
          obtain ⟨p, rfl, hscheduler⟩ := submit_ok hsubmit
          exact .submit htask hpc hscheduler (Sys.step_rule hrouter)
  · rename_i detail hpc
    cases hstep
    exact .refuse htask hpc
  · rename_i hpc
    split at hstep
    · cases hstep
    · rename_i hrouter
      cases hstep
      exact .subscribe htask hpc (Sys.step_rule hrouter)
  · rename_i d hpc
    split at hstep
    · rename_i id hcall
      split at hstep
      · cases hstep
      · rename_i hrouter
        split at hstep
        · rename_i stream inner htake
          cases hstep
          exact .subscribed htask hpc hcall htake (Sys.step_rule hrouter)
        · rename_i e inner htake
          cases hstep
          exact .unsubscribed htask hpc hcall htake (Sys.step_rule hrouter)
    · rename_i e hcall
      cases hstep
      exact .subscribeRaised htask hpc hcall
    · cases hstep

/-- What a `body_iter` reads follows a rule. -/
theorem receive_rule {id : RequestId} {body : Body} {events : List Router.Event} {r : Sys}
    (htask : s.task = .idle) (hbody : s.bodies id = some body) (hpc : body.pc = .reading)
    (hrouter : s.router.step (.recv body.stream) = some (events, r)) :
    s.Rule parses (.receive id) (events.map .router)
      ({ s with router := r }.received id body events) := by
  have hrule := Sys.step_rule hrouter
  obtain ⟨-, hread⟩ := Sys.step_recv hrouter
  rcases Sys.read_cases hread with ⟨frame, k, rfl, -, -⟩ | ⟨rfl, -⟩
  · exact .delivered htask hbody hpc hrule
  · exact .ended htask hbody hpc hrule

/-- An interruption follows a rule. -/
theorem interrupt_rule {id : RequestId} {body : Body} {raised : Raised}
    (htask : s.task = .idle) (hbody : s.bodies id = some body)
    (hstep : s.interrupt id body raised = some t) :
    s.Rule parses (.interrupt id raised) [] t := by
  have hcaught : (body.pc = .reading ∨ body.pc = .yielding) →
      (if raised.isException then
          some ((s.setBody id body .unwinding).setTask (.unwinding id))
        else some (s.setBody id body (.finished (some raised)))) = some t →
      s.Rule parses (.interrupt id raised) [] t := by
    intro hpc hstep
    cases hraised : raised.isException with
    | true =>
        rw [hraised] at hstep
        cases hstep
        exact .caught htask hbody hpc hraised
    | false =>
        rw [hraised] at hstep
        cases hstep
        exact .abandoned htask hbody (Or.inr ⟨hpc, hraised⟩)
  unfold interrupt at hstep
  split at hstep
  · rename_i hpc
    cases hstep
    exact .abandoned htask hbody (Or.inl hpc)
  · rename_i hpc
    exact hcaught (Or.inl hpc) hstep
  · rename_i hpc
    exact hcaught (Or.inr hpc) hstep
  · cases hstep
  · cases hstep

/-- An attempt of `next_blocking` follows a rule. -/
theorem fetch_rule (parses : P → Bool) (job : Job) (hthread : s.thread = .fetching) :
    s.Rule parses (.fetch job) (s.fetch job).1 (s.fetch job).2 := by
  unfold fetch
  split
  · rename_i req scheduler hpoll
    exact .fetched hthread hpoll
  · rename_i scheduler hpoll
    exact .drained hthread hpoll
  · rename_i scheduler hpoll
    exact .waiting hthread hpoll

/-! ### The event loop -/

theorem step_arrive {req : RouterRequest} {payload : P}
    (h : s.step parses (.arrive req payload) = some (es, t)) :
    s.Rule parses (.arrive req payload) es t := by
  unfold step at h
  dsimp only at h
  split at h
  · rename_i htask hfresh
    cases h
    exact .arrive htask hfresh
  · cases h

theorem step_handle {c : CallId} (h : s.step parses (.handle c) = some (es, t)) :
    s.Rule parses (.handle c) es t := by
  unfold step at h
  dsimp only at h
  split at h
  · rename_i hd htask
    exact handle_rule htask h
  · cases h

theorem step_call {a : Router.Action} (h : s.step parses (.call a) = some (es, t)) :
    s.Rule parses (.call a) es t := by
  unfold step at h
  dsimp only at h
  split at h
  · rename_i halone
    split at h
    · cases h
    · rename_i hrouter
      cases h
      exact .call halone (Sys.step_rule hrouter)
  · cases h

theorem step_notify {c : CallId} (h : s.step parses (.notify c) = some (es, t)) :
    s.Rule parses (.notify c) es t := by
  unfold step at h
  dsimp only at h
  split at h
  · cases h
  · rename_i hnotice
    cases h
    exact .notify hnotice

theorem step_cancel {c : CallId} {id : RequestId}
    (h : s.step parses (.cancel c id) = some (es, t)) :
    s.Rule parses (.cancel c id) es t := by
  unfold step at h
  dsimp only at h
  split at h
  · rename_i htask hrouter
    cases h
    exact .cancel htask (Sys.step_rule hrouter)
  · cases h

theorem step_cancelReturned (h : s.step parses .cancelReturned = some (es, t)) :
    s.Rule parses .cancelReturned es t := by
  unfold step at h
  dsimp only at h
  split at h
  · rename_i c body htask
    split at h
    · rename_i hcall hnotice
      cases h
      exact .cancelReturned htask hcall hnotice
    · rename_i hcall hnotice
      split at h
      · rename_i hbody
        cases h
        exact .unwound htask hcall hnotice hbody
      · cases h
    · cases h
  · cases h

/-! ### The responses -/

theorem step_resume {id : RequestId} (h : s.step parses (.resume id) = some (es, t)) :
    s.Rule parses (.resume id) es t := by
  unfold step at h
  dsimp only at h
  split at h
  · rename_i htask hbody
    split at h
    · rename_i hpc
      cases h
      exact .resume htask hbody hpc
    · cases h
  · cases h

theorem step_receive {id : RequestId} (h : s.step parses (.receive id) = some (es, t)) :
    s.Rule parses (.receive id) es t := by
  unfold step at h
  dsimp only at h
  split at h
  · rename_i htask hbody
    split at h
    · rename_i hpc
      split at h
      · cases h
      · rename_i hrouter
        cases h
        exact receive_rule htask hbody hpc hrouter
    · cases h
  · cases h

theorem step_interrupt {id : RequestId} {raised : Raised}
    (h : s.step parses (.interrupt id raised) = some (es, t)) :
    s.Rule parses (.interrupt id raised) es t := by
  unfold step at h
  dsimp only at h
  split at h
  · rename_i htask hbody
    split at h
    · cases h
    · rename_i hinterrupt
      cases h
      exact interrupt_rule htask hbody hinterrupt
  · cases h

theorem step_unwind {c : CallId} (h : s.step parses (.unwind c) = some (es, t)) :
    s.Rule parses (.unwind c) es t := by
  unfold step at h
  dsimp only at h
  split at h
  · rename_i htask
    split at h
    · cases h
    · rename_i hrouter
      cases h
      exact .unwind htask (Sys.step_rule hrouter)
  · cases h

theorem step_dropStream {id : RequestId} (h : s.step parses (.dropStream id) = some (es, t)) :
    s.Rule parses (.dropStream id) es t := by
  unfold step at h
  dsimp only at h
  split at h
  · rename_i hbody
    split at h
    · cases h
    · rename_i hrouter
      cases h
      exact .dropStream hbody rfl (Sys.step_rule hrouter)
  · cases h

/-! ### The driver thread -/

theorem step_checkStop (h : s.step parses .checkStop = some (es, t)) :
    s.Rule parses .checkStop es t := by
  unfold step at h
  dsimp only at h
  split at h
  · rename_i hthread
    cases h
    exact .checkStop hthread
  · cases h

theorem step_fetch {job : Job} (h : s.step parses (.fetch job) = some (es, t)) :
    s.Rule parses (.fetch job) es t := by
  unfold step at h
  dsimp only at h
  split at h
  · rename_i hthread
    have hrule := fetch_rule parses job hthread
    rw [Option.some.inj h] at hrule
    exact hrule
  · cases h

theorem step_fetchTimeout (h : s.step parses .fetchTimeout = some (es, t)) :
    s.Rule parses .fetchTimeout es t := by
  unfold step at h
  dsimp only at h
  split at h
  · rename_i hthread
    cases h
    exact .fetchTimeout hthread
  · cases h

theorem step_drive {a : Driver.Action} (h : s.step parses (.drive a) = some (es, t)) :
    s.Rule parses (.drive a) es t := by
  unfold step at h
  dsimp only at h
  split at h
  · rename_i id hthread
    split at h
    · rename_i run hrun
      split at h
      · rename_i hguard
        rw [Bool.and_eq_true, Bool.not_eq_true'] at hguard
        unfold stepRun at h
        split at h
        · cases h
        · rename_i hdriver
          cases h
          exact .drive hthread hrun hguard.1 hguard.2 (Driver.State.step_rule hdriver)
      · cases h
    · cases h
  · cases h

theorem step_launch {id : RequestId} {c : CallId}
    (h : s.step parses (.launch id c) = some (es, t)) :
    s.Rule parses (.launch id c) es t := by
  unfold step at h
  dsimp only at h
  split at h
  · rename_i run htask hrun
    unfold stepRun at h
    split at h
    · cases h
    · rename_i hdriver
      cases h
      exact .launch htask hrun (Driver.State.step_rule hdriver)
  · cases h

theorem step_finish (h : s.step parses .finish = some (es, t)) :
    s.Rule parses .finish es t := by
  unfold step at h
  dsimp only at h
  split at h
  · rename_i hthread
    split at h
    · rename_i hrun
      cases h
      exact .finish hthread hrun rfl
    · cases h
  · cases h

/-! ### The teardown -/

theorem step_stop (h : s.step parses .stop = some (es, t)) :
    s.Rule parses .stop es t := by
  unfold step at h
  dsimp only at h
  split at h
  · rename_i htask hstop
    cases h
    exact .stop htask hstop
  · cases h

theorem step_shutdownScheduler (h : s.step parses .shutdownScheduler = some (es, t)) :
    s.Rule parses .shutdownScheduler es t := by
  unfold step at h
  dsimp only at h
  split at h
  · rename_i htask
    cases h
    exact .shutdownScheduler htask
  · cases h

theorem step_shutdownRouter (h : s.step parses .shutdownRouter = some (es, t)) :
    s.Rule parses .shutdownRouter es t := by
  unfold step at h
  dsimp only at h
  split at h
  · rename_i htask
    cases h
    exact .shutdownRouter htask .shutdown
  · cases h

/-! ### All steps -/

/-- Every step follows a rule. -/
theorem step_rule {a : Action P} (h : s.step parses a = some (es, t)) : s.Rule parses a es t := by
  cases a with
  | arrive req payload => exact step_arrive h
  | handle c => exact step_handle h
  | call a => exact step_call h
  | notify c => exact step_notify h
  | cancel c id => exact step_cancel h
  | cancelReturned => exact step_cancelReturned h
  | resume id => exact step_resume h
  | receive id => exact step_receive h
  | interrupt id raised => exact step_interrupt h
  | unwind c => exact step_unwind h
  | dropStream id => exact step_dropStream h
  | checkStop => exact step_checkStop h
  | fetch job => exact step_fetch h
  | fetchTimeout => exact step_fetchTimeout h
  | drive a => exact step_drive h
  | launch id c => exact step_launch h
  | finish => exact step_finish h
  | stop => exact step_stop h
  | shutdownScheduler => exact step_shutdownScheduler h
  | shutdownRouter => exact step_shutdownRouter h

end V2State

end Repercep.Serving.V2
