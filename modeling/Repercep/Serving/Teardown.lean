import Repercep.Serving.Interruption
import Repercep.Router.Drained
import Repercep.Router.EndOfStream
import Repercep.Router.Fallback
set_option autoImplicit false

/-!
# The v2 path: teardown

`lifespan` stops the driver, which shuts the scheduler down, and then shuts the router
down.  The Python router closes every request it knows.  The Rust router sets its flag and
nothing else: it leaves the queued requests to a driver thread that no longer fetches
them, and from then on it turns away the cancel by which the driver would end the request
it is running.

So with the Rust router every stream has ended in the runs in which nothing is left to it:
whatever is queued has been cancelled when the router is shut down, a run without a final
frame has been too, and no cancel of the driver comes too late.
-/

namespace Repercep.Serving.V2

open Repercep.Foundation
open Repercep.Router (Sys RequestId CallId ChanId)
open Repercep.Driver (Job Tracked)

variable {P : Type}

namespace V2State

/-- The step leaves no live request to a router that is shut.  At the shutdown what is
queued, and what has stalled in its run, has been cancelled; after it no cancel of the
driver is turned away from a live request, and no run returns that has stalled. -/
def LeavesNone (s : V2State P) : Action P → Prop
  | .shutdownRouter => ∀ id, (s.Queued id ∨ ∃ run, s.runs id = some run ∧
      run.pc = .returned ∧ run.job.Stalls) → s.router.inner.Terminal id
  | .call (.ensureOpen c) => s.router.inner.shuttingDown = true → ∀ id run,
      s.runs id = some run → run.pc = .awaitingCancel c → s.router.inner.Terminal id
  | .finish => s.router.inner.shuttingDown = true → ∀ id run, s.thread = .running id →
      s.runs id = some run → run.job.Stalls → s.router.inner.Terminal id
  | _ => True

/-- What holds of the requests before the shutdown of the router and after it. -/
structure Closing (s : V2State P) : Prop where
  tracked : ∀ id run, s.runs id = some run → Tracked run.job id (s.view run)
  alone : ∀ id run, s.runs id = some run → run.pc = .returned ∨ s.thread = .running id
  refusing : s.router.inner.shuttingDown = true →
    ∀ c req, s.router.calls c ≠ some (.opened (.accept req))
  ended : s.router.inner.shuttingDown = true → ∀ id e, s.router.inner.requests id = some e →
    s.router.inner.Terminal id ∨ s.thread = .running id

variable {parses : P → Bool} {s t : V2State P} {a : Action P} {es log : List (Event P)}
  {id : RequestId}

/-! ## The driver thread -/

/-- The flag of the router is looked at by the calls alone, and set by the teardown. -/
theorem Rule.flag (h : s.Rule parses a es t) : t.router = s.router ∨
    ∃ b fs, s.router.Rule b fs t.router ∧ (∀ c, b = .ensureOpen c → a = .call b) ∧
      (b = .shutdown → a = .shutdownRouter) := by
  have hother : ∀ {b : Router.Action} {fs : List Router.Event} {r : Sys},
      s.router.Rule b fs r → (∀ c, b ≠ .ensureOpen c) → b ≠ .shutdown →
      ∃ b fs, s.router.Rule b fs r ∧ (∀ c, b = .ensureOpen c → a = .call b) ∧
        (b = .shutdown → a = .shutdownRouter) := by
    intro b fs r hrouter hopens hshut
    exact ⟨b, fs, hrouter, fun c hb => absurd hb (hopens c), fun hb => absurd hb hshut⟩
  have hdriven : ∀ {k : RequestId} {run : Run} {b : Driver.Action} {fs : List Router.Event}
      {d : Driver.State}, ownStep b = true ∨ (∃ c, b = .launch c) →
      (s.view run).Rule run.job k b fs d → d.router = s.router ∨
        ∃ b fs, s.router.Rule b fs d.router ∧ (∀ c, b = .ensureOpen c → a = .call b) ∧
          (b = .shutdown → a = .shutdownRouter) := by
    intro k run b fs d hown hdriver
    obtain ⟨-, -, hsame | ⟨c, -, hrouter⟩ | ⟨c, frame, -, -, hrouter⟩⟩ :=
      driver_router hown hdriver
    · exact Or.inl hsame
    · exact Or.inr (hother hrouter (by simp) (by simp))
    · exact Or.inr (hother hrouter (by simp) (by simp))
  cases h with
  | accept _ _ hrouter => exact Or.inr (hother hrouter (by simp) (by simp))
  | submit _ _ _ hrouter => exact Or.inr (hother hrouter (by simp) (by simp))
  | submitRefused _ _ hrouter => exact Or.inr (hother hrouter (by simp) (by simp))
  | subscribe _ _ hrouter => exact Or.inr (hother hrouter (by simp) (by simp))
  | subscribed _ _ _ _ hrouter => exact Or.inr (hother hrouter (by simp) (by simp))
  | unsubscribed _ _ _ _ hrouter => exact Or.inr (hother hrouter (by simp) (by simp))
  | cancel _ hrouter => exact Or.inr (hother hrouter (by simp) (by simp))
  | delivered _ _ _ hrouter => exact Or.inr (hother hrouter (by simp) (by simp))
  | ended _ _ _ hrouter => exact Or.inr (hother hrouter (by simp) (by simp))
  | unwind _ hrouter => exact Or.inr (hother hrouter (by simp) (by simp))
  | dropStream _ _ hrouter => exact Or.inr (hother hrouter (by simp) (by simp))
  | call halone hrouter =>
      refine Or.inr ⟨_, _, hrouter, fun _ _ => rfl, ?_⟩
      rintro rfl
      cases halone
  | drive _ _ hown _ hdriver => exact hdriven (Or.inl hown) hdriver
  | launch _ _ hdriver => exact hdriven (Or.inr ⟨_, rfl⟩) hdriver
  | shutdownRouter _ hrouter => exact Or.inr ⟨_, _, hrouter, by simp, fun _ => rfl⟩
  | _ => exact Or.inl rfl

/-- A call that has not looked at the flag yet is moved only by doing so. -/
theorem Rule.called (h : s.Rule parses a es t) {c : CallId} {op : Router.Op}
    (hcall : s.router.calls c = some (.called op)) :
    t.router.calls c = some (.called op) ∨ a = .call (.ensureOpen c) := by
  rcases h.flag with hsame | ⟨b, fs, hrouter, hopens, -⟩
  · rw [hsame]
    exact Or.inl hcall
  · rcases hrouter.called hcall with hstays | rfl
    · exact Or.inl hstays
    · exact Or.inr (hopens c rfl)

/-- The router is shut by its step of the teardown, which does nothing else. -/
theorem Rule.shuts (h : s.Rule parses a es t) (hopen : s.router.inner.shuttingDown = false)
    (hshut : t.router.inner.shuttingDown = true) :
    a = .shutdownRouter ∧ s.task = .joining ∧
      t.router.inner.requests = s.router.inner.requests ∧ t.thread = s.thread := by
  have hflag : t.router.inner.shuttingDown ≠ s.router.inner.shuttingDown := by
    rw [hopen, hshut]
    simp
  rcases h.flag with hsame | ⟨b, fs, hrouter, -, hteardown⟩
  · exact absurd (by rw [hsame]) hflag
  · by_cases hb : b = .shutdown
    · cases hteardown hb
      cases h with
      | shutdownRouter htask hrule =>
          cases hrule with
          | shutdown => exact ⟨rfl, htask, rfl, rfl⟩
    · exact absurd (hrouter.shuttingDown hb) hflag

/-- The driver thread leaves a request only when its run has returned. -/
theorem Rule.leaves (h : s.Rule parses a es t) (hthread : s.thread = .running id) :
    t.thread = .running id ∨ (a = .finish ∧ t.router = s.router ∧
      ∃ run, s.runs id = some run ∧ run.pc = .returned) := by
  cases h with
  | checkStop hpolling => cases hpolling.symm.trans hthread
  | fetched hfetching _ => cases hfetching.symm.trans hthread
  | drained hfetching _ => cases hfetching.symm.trans hthread
  | waiting hfetching _ => cases hfetching.symm.trans hthread
  | fetchTimeout hfetching => cases hfetching.symm.trans hthread
  | finish hrunning hrun hpc =>
      cases hrunning.symm.trans hthread
      exact Or.inr ⟨rfl, rfl, _, hrun, hpc⟩
  | _ => exact Or.inl hthread

/-- A request that has been fetched is the one the driver thread runs. -/
theorem Rule.fetches {job : Job} {req : Scheduling.ScheduledRequest P}
    {scheduler : Scheduling.Scheduler P} (h : s.Rule parses (.fetch job) es t)
    (hpoll : s.scheduler.poll = (.item req, scheduler)) :
    t.thread = .running (routerId req.id) := by
  cases h with
  | fetched _ hpoll' =>
      cases hpoll.symm.trans hpoll'
      rfl
  | drained _ hpoll' => cases hpoll.symm.trans hpoll'
  | waiting _ hpoll' => cases hpoll.symm.trans hpoll'

/-- A run that has returned makes no further step. -/
theorem returned_stays {run : Run} {b : Driver.Action} {fs : List Router.Event}
    {d : Driver.State} (hown : ownStep b = true ∨ ∃ c, b = .launch c)
    (h : (s.view run).Rule run.job id b fs d) (hreturned : run.pc = .returned) :
    d.pc = .returned := by
  have hlate : ∀ {pc : Driver.Pc}, (s.view run).pc = pc → pc ≠ .returned → False := by
    rintro pc rfl hne
    exact hne hreturned
  have hpushed : ∀ {next : Driver.Pc}, (s.view run).pc.onPushed = some next → False := by
    intro next hpc
    unfold view at hpc
    rw [hreturned] at hpc
    cases hpc
  cases h with
  | launch => exact hreturned
  | launchFailed => exact hreturned
  | pop | popMalformed | setStop | env =>
      rcases hown with hown | ⟨c, hlaunch⟩
      · cases hown
      · cases hlaunch
  | pull hpc => exact (hlate hpc (by simp)).elim
  | raised hpc _ => exact (hlate hpc (by simp)).elim
  | pushMarker hpc _ _ _ => exact (hlate hpc (by simp)).elim
  | stopped hpc _ => exact (hlate hpc (by simp)).elim
  | notStopped hpc _ => exact (hlate hpc (by simp)).elim
  | unencodable hpc _ => exact (hlate hpc (by simp)).elim
  | pushFrame hpc _ _ => exact (hlate hpc (by simp)).elim
  | pushed hpc _ _ => exact (hpushed hpc).elim
  | pushFailed hpc _ => exact (hpushed hpc).elim
  | timeout hpc => exact (hpushed hpc).elim
  | cancel hpc _ => exact (hlate hpc (by simp)).elim
  | exhausted | seenCancelled | cancelReturned => rfl

/-! ## What the driver knows -/

/-- What the driver knows of a run survives every step that does not turn its cancel
away. -/
theorem Closing.tracked_step (hclosing : s.Closing) (hinv : s.Inv log)
    (h : s.Rule parses a es t) (hleaves : s.LeavesNone a) {run : Run}
    (hrun : t.runs id = some run) : Tracked run.job id (t.view run) := by
  rcases h.runs id with ⟨hsame, hlaunch⟩ |
    ⟨job, req, scheduler, -, hpoll, rfl, -, hrouter, -, hfetched⟩ |
    ⟨run', b, fs, d, hold, hown, hdriver, rfl⟩
  · have hold : s.runs id = some run := hsame.symm.trans hrun
    have htracked := hclosing.tracked id run hold
    rcases h.router with hrouter | ⟨b, fs, hrouter, hmoves⟩
    · unfold view
      rw [hrouter]
      exact ⟨⟨htracked.solo.kept, htracked.solo.lone, htracked.solo.idle⟩, htracked.known,
        htracked.atPc⟩
    · have hquiet := hinv.not_admitting (a := a) (hinv.accepted_of_run hold)
      have henv : (s.view run).Rule run.job id (.env b) fs _ :=
        .env (hmoves.outside hrouter hlaunch hquiet) hrouter
      have hunrefused : Driver.Unrefused id (s.view run) (.env b) := by
        rintro c ⟨⟩ hpc hshut
        -- the flag is looked at by nobody but the call
        obtain ⟨op, hcall, hmoved⟩ := hrouter.ensures
        rcases h.called hcall with hstays | rfl
        · exact absurd hstays hmoved
        · exact hleaves hshut id run hold hpc
      have hstep := htracked.step hunrefused henv
      exact ⟨⟨hstep.solo.kept, hstep.solo.lone, hstep.solo.idle⟩, hstep.known, hstep.atPc⟩
  · cases hfetched.symm.trans hrun
    obtain ⟨hqueued, -⟩ := poll_queued hpoll
    have hunfetched := hinv.unfetched_of_queued hqueued
    have haccepted := hinv.accepted_of_queued hqueued
    cases haccepted.place with
    | queued _ _ hrecorded =>
        exact tracked_start hinv.owned haccepted.kept hunfetched hrecorded hrouter job
    | skipped hunqueued _ _ => exact absurd hqueued hunqueued
    | fetched hfetched' => cases hunfetched.symm.trans hfetched'.fetched
  · cases (withRun_run s id run' d).symm.trans hrun
    have hunrefused : Driver.Unrefused id (s.view run') b := by
      rintro c rfl
      rcases hown with hown | ⟨c', hlaunch⟩
      · cases hown
      · cases hlaunch
    have hstep := (hclosing.tracked id run' hold).step hunrefused hdriver
    exact ⟨⟨hstep.solo.kept, hstep.solo.lone, hstep.solo.idle⟩, hstep.known, hstep.atPc⟩

theorem Closing.alone_step (hclosing : s.Closing) (h : s.Rule parses a es t) {run : Run}
    (hrun : t.runs id = some run) : run.pc = .returned ∨ t.thread = .running id := by
  have hstill : ∀ {run' : Run}, s.runs id = some run' → run'.pc ≠ .returned →
      t.thread = .running id := by
    intro run' hold hpc
    rcases h.leaves ((hclosing.alone id run' hold).resolve_left hpc) with
      hrunning | ⟨-, -, r, hold', hreturned⟩
    · exact hrunning
    · cases hold.symm.trans hold'
      exact absurd hreturned hpc
  rcases h.runs id with ⟨hsame, -⟩ | ⟨job, req, scheduler, rfl, hpoll, rfl, -⟩ |
    ⟨run', b, fs, d, hold, hown, hdriver, rfl⟩
  · by_cases hpc : run.pc = .returned
    · exact Or.inl hpc
    · exact Or.inr (hstill (hsame.symm.trans hrun) hpc)
  · exact Or.inr (h.fetches hpoll)
  · cases (withRun_run s id run' d).symm.trans hrun
    by_cases hpc : run'.pc = .returned
    · exact Or.inl (returned_stays hown hdriver hpc)
    · exact Or.inr (hstill hold hpc)

/-! ## Every step -/

/-- A run that has returned has ended its request, unless it stalls. -/
theorem Closing.returned (hclosing : s.Closing) {run : Run} (hrun : s.runs id = some run)
    (hpc : run.pc = .returned) : s.router.inner.Terminal id ∨ run.job.Stalls := by
  have hat := (hclosing.tracked id run hrun).atPc
  unfold view at hat
  rw [hpc] at hat
  exact hat

/-- At the shutdown of the router every request has ended, but the one that is running. -/
theorem Closing.at_shutdown (hclosing : s.Closing) (hinv : s.Inv log)
    (htask : s.task = .joining) (hleaves : s.LeavesNone (.shutdownRouter : Action P))
    {e : Router.Entry} (hentry : s.router.inner.requests id = some e) :
    s.router.inner.Terminal id ∨ s.thread = .running id := by
  have haccepted : s.Accepted log id := hinv.accepted_of_entry (by simp [htask]) hentry
  cases haccepted.place with
  | queued hqueued _ _ => exact Or.inl (hleaves id (Or.inl hqueued))
  | skipped _ _ hterminal => exact Or.inl hterminal
  | @fetched run hfetched =>
      have hrun := hfetched.fetched
      rcases hclosing.alone id run hrun with hpc | hrunning
      · rcases hclosing.returned hrun hpc with hterminal | hstalls
        · exact Or.inl hterminal
        · exact Or.inl (hleaves id (Or.inr ⟨run, hrun, hpc, hstalls⟩))
      · exact Or.inr hrunning

theorem Closing.ended_step (hclosing : s.Closing) (hinv : s.Inv log)
    (h : s.Rule parses a es t) (hleaves : s.LeavesNone a)
    (hshut : t.router.inner.shuttingDown = true) {e : Router.Entry}
    (hentry : t.router.inner.requests id = some e) :
    t.router.inner.Terminal id ∨ t.thread = .running id := by
  cases hopen : s.router.inner.shuttingDown with
  | false =>
      obtain ⟨rfl, htask, hrequests, hthread⟩ := h.shuts hopen hshut
      rw [hrequests] at hentry
      rcases hclosing.at_shutdown hinv htask hleaves hentry with hterminal | hrunning
      · exact Or.inl (hterminal.congr hrequests)
      · exact Or.inr (hthread.trans hrunning)
  | true =>
      -- nothing is registered any more, so the request was there
      obtain ⟨e', hold⟩ : ∃ e', s.router.inner.requests id = some e' := by
        cases hold : s.router.inner.requests id with
        | some e' => exact ⟨e', rfl⟩
        | none =>
            rcases h.router with hsame | ⟨b, fs, hrouter, -⟩
            · rw [hsame, hold] at hentry
              cases hentry
            · rcases hrouter.entry_none hold with hfree | ⟨c, req, -, hcall, -⟩
              · cases hfree.symm.trans hentry
              · exact absurd hcall (hclosing.refusing hopen c req)
      have hended := hclosing.ended hopen id e' hold
      have hkept : s.router.Kept id := by
        rcases hinv.phase id with habsent | hregistered | haccepted
        · cases habsent.entry.symm.trans hold
        · obtain ⟨e₀, hentry₀, hlive, -⟩ := hregistered.entry
          rcases hended with ⟨e₁, hentry₁, hterminal⟩ | hrunning
          · cases hentry₀.symm.trans hentry₁
            rw [hlive] at hterminal
            cases hterminal
          · obtain ⟨run, hrun⟩ := hinv.running id hrunning
            cases hregistered.unfetched.symm.trans hrun
        · exact haccepted.kept
      rcases hended with hterminal | hrunning
      · exact Or.inl (h.terminal hkept hterminal)
      · rcases h.leaves hrunning with hstill | ⟨rfl, hrouter, run, hrun, hpc⟩
        · exact Or.inr hstill
        · rw [hrouter]
          rcases hclosing.returned hrun hpc with hterminal | hstalls
          · exact Or.inl hterminal
          · exact Or.inl (hleaves hopen id run hrunning hrun hstalls)

theorem Closing.refusing_step (hclosing : s.Closing) (hinv : s.Inv log)
    (h : s.Rule parses a es t) (hshut : t.router.inner.shuttingDown = true) (c : CallId)
    (req : Router.RouterRequest) : t.router.calls c ≠ some (.opened (.accept req)) := by
  intro hcall
  have hold : s.router.calls c = some (.opened (.accept req)) := by
    rcases h.router with hsame | ⟨b, fs, hrouter, -⟩
    · rw [hsame] at hcall
      exact hcall
    · rcases hrouter.opened hcall with hold | hopen
      · exact hold
      · rw [hshut] at hopen
        cases hopen
  cases hopen : s.router.inner.shuttingDown with
  | true => exact hclosing.refusing hopen c req hold
  | false =>
      obtain ⟨-, htask, -⟩ := h.shuts hopen hshut
      obtain ⟨hd, hhandler, -⟩ := hinv.owned c (.accept req) ⟨_, hold, rfl⟩
      cases htask.symm.trans hhandler

theorem Closing.step (hclosing : s.Closing) (hinv : s.Inv log) (h : s.Rule parses a es t)
    (hleaves : s.LeavesNone a) : t.Closing where
  tracked := fun _ _ hrun => hclosing.tracked_step hinv h hleaves hrun
  alone := fun _ _ hrun => hclosing.alone_step h hrun
  refusing := hclosing.refusing_step hinv h
  ended := fun hshut _ _ hentry => hclosing.ended_step hinv h hleaves hshut hentry

theorem Closing.init (parses : P → Bool) (depth capacity : Nat) :
    (machine parses depth capacity).init.Closing where
  tracked := by
    rintro id run ⟨⟩
  alone := by
    rintro id run ⟨⟩
  refusing := by
    intro hshut
    cases hshut
  ended := by
    intro hshut
    cases hshut

/-- What every step of the router keeps, every step of the application keeps. -/
theorem Rule.keeps {I : Sys → Prop} (h : s.Rule parses a es t)
    (hstep : ∀ {r r' : Sys} {b fs}, I r → r.Rule b fs r' → I r') (hs : I s.router) :
    I t.router := by
  rcases h.router with hsame | ⟨b, fs, hrouter, -⟩
  · rw [hsame]
    exact hs
  · exact hstep hs hrouter

/-- When the router is shut and the driver thread has exited, everything has ended. -/
theorem Closing.all_ended (hclosing : s.Closing) (hhushed : s.router.inner.Hushed)
    (hshut : s.router.inner.shuttingDown = true) (hexited : s.thread = .exited)
    {e : Router.Entry} (hentry : s.router.inner.requests id = some e) :
    s.router.inner.Ended id := by
  rcases hclosing.ended hshut id e hentry with ⟨e', hentry', hterminal⟩ | hrunning
  · exact hhushed.ended hentry' hterminal
  · cases hexited.symm.trans hrunning

/-- Then a stream is read to its end as soon as no push of it is under way. -/
theorem Closing.reads_to_end (hclosing : s.Closing) (hhushed : s.router.inner.Hushed)
    (hcovered : s.router.Covered) (htied : s.router.Tied)
    (hshut : s.router.inner.shuttingDown = true) (hexited : s.thread = .exited) {ch : ChanId}
    (hheld : s.router.held ch = true) (hquiet : ∀ c frame, ¬ s.router.InFlight c frame ch) :
    s.router.ReadsToEnd ch := by
  have habandoned : s.router.Abandoned ch := by
    refine ⟨?_, hquiet⟩
    rintro k last ⟨e, hentry, hsender, -⟩
    obtain ⟨e', hentry', -, hnone⟩ := hclosing.all_ended hhushed hshut hexited hentry
    cases hentry.symm.trans hentry'
    rw [hnone] at hsender
    cases hsender
  exact Sys.readsToEnd hheld (habandoned.senders hcovered (htied.heldMade hheld))

theorem mem_items {b : Scheduling.Buckets P} {x : Scheduling.ScheduledRequest P} :
    x ∈ b.items ↔ x ∈ b.high ++ b.normal ++ b.low := by
  simp [Scheduling.Buckets.items]

/-- Before the shutdown of the router the condition asks for nothing. -/
theorem leavesNone_before (parses : P → Bool) (depth capacity : Nat) :
    ∀ (as : List (Action P)) (s : V2State P), (∀ a ∈ as, a ≠ .shutdownRouter) →
      s.router.inner.shuttingDown = false →
        (machine parses depth capacity).Meets LeavesNone s as := by
  intro as
  induction as with
  | nil => exact fun _ _ _ => trivial
  | cons a as ih =>
      intro s hbefore hopen es t hstep
      have hrule : s.Rule parses a es t := step_rule hstep
      refine ⟨?_, ih t (fun b hb => hbefore b (List.mem_cons_of_mem a hb)) ?_⟩
      · change s.LeavesNone a
        unfold LeavesNone
        split
        · exact absurd rfl (hbefore _ List.mem_cons_self)
        · simp [hopen]
        · simp [hopen]
        · trivial
      · by_contra hshut
        rw [Bool.not_eq_false] at hshut
        exact hbefore a List.mem_cons_self (hrule.shuts hopen hshut).1

end V2State

open V2State in
/-- After the teardown, with the driver thread gone, every request the scheduler took has
ended and every subscriber reads what is queued and then the end: with the Rust router in
the runs that leave no live request to a router that is shut, with the Python router after
any sequence of calls. -/
theorem teardown_ends_streams (parses : P → Bool) (depth capacity : Nat) :
    (∀ as log s, (machine parses depth capacity).Meets LeavesNone
        (machine parses depth capacity).init as →
      (machine parses depth capacity).run (machine parses depth capacity).init as =
        some (log, s) →
      .shutdownRouter ∈ as → s.thread = .exited →
        (∀ id payload, .submitted id payload ∈ log → s.router.inner.Ended id) ∧
        ∀ ch, s.router.held ch = true → (∀ c frame, ¬ s.router.InFlight c frame ch) →
          s.router.ReadsToEnd ch) ∧
    ∀ (hdepth : 0 < depth) (cs : List Router.PythonCall) log r,
      (Router.python depth hdepth).run (Router.python depth hdepth).init cs = some (log, r) →
      .shutdown ∈ cs → ∀ id, .accepted id (.ok ()) ∈ log →
        ∃ e, r.requests id = some e ∧ e.closed = true ∧
          (e.subscribed = true → r.ReadsToEnd id) := by
  constructor
  · intro as log s hleaves hrun hteardown hexited
    have hinv : s.Inv log ∧ s.Closing ∧ s.router.inner.Hushed ∧ s.router.Covered ∧
        s.router.Tied := by
      refine Machine.history_reachable (H := fun log s => s.Inv log ∧ s.Closing ∧
        s.router.inner.Hushed ∧ s.router.Covered ∧ s.router.Tied) ?_ ?_ hleaves hrun
      · refine ⟨.init parses depth capacity, .init parses depth capacity, ?_, .init depth,
          (Sys.Streams.init depth).tied⟩
        rintro id e ⟨⟩
      · rintro log s a es t ⟨hinv, hclosing, hhushed, hcovered, htied⟩ hleaves hstep
        have hrule := step_rule hstep
        exact ⟨hinv.step hrule, hclosing.step hinv hrule hleaves,
          hrule.keeps (I := fun r => r.inner.Hushed) (fun hs h => h.hushed hs) hhushed,
          hrule.keeps Sys.Covered.step hcovered, hrule.keeps Sys.Tied.step htied⟩
    obtain ⟨hinv, hclosing, hhushed, hcovered, htied⟩ := hinv
    have hshut : s.router.inner.shuttingDown = true := by
      refine Machine.holds_of_mem (I := fun s => s.router.inner.shuttingDown = true) ?_ ?_
        hteardown hrun
      · intro s es t hstep
        have hrule : s.Rule parses .shutdownRouter es t := step_rule hstep
        cases hrule with
        | shutdownRouter _ hrouter =>
            cases hrouter with
            | shutdown => rfl
      · intro s a es t hshut hstep
        exact (step_rule hstep).stays_shut hshut
    refine ⟨?_, ?_⟩
    · intro id payload hsubmitted
      obtain ⟨e, hentry⟩ := (hinv.accepted_of_submitted hsubmitted).known
      exact hclosing.all_ended hhushed hshut hexited hentry
    · intro ch hheld hquiet
      exact hclosing.reads_to_end hhushed hcovered htied hshut hexited hheld hquiet
  · intro hdepth cs log r hrun hteardown id haccepted
    obtain ⟨hclosed, hknown⟩ := Router.PythonRouter.known_of_run hrun
    have hshut : r.shuttingDown = true :=
      Machine.holds_of_mem (I := fun r : Router.PythonRouter => r.shuttingDown = true)
        (fun _ _ _ hstep => by cases hstep; rfl)
        (fun _ _ _ _ hshut hstep => Router.PythonRouter.step_stays_shut hstep hshut)
        hteardown hrun
    obtain ⟨e, hentry⟩ := hknown id haccepted
    have hended := hclosed hshut id e hentry
    exact ⟨e, hentry, hended, fun hsubscribed =>
      Router.PythonRouter.readsToEnd hentry hended hsubscribed⟩

/-- The engine yields two frames for the item. -/
def twoFrames : Job := ⟨true, 2, [⟨0, 2, some [1]⟩, ⟨1, 2, some [2]⟩], false, []⟩

/-- A second request is queued behind the first, whose first frame is pushed and read.  The
second is cancelled, the driver is stopped, and its thread finds the stop at the second
frame: it cancels the first request and exits. -/
def cancelledThenStopped : List (Action Nat) :=
  [.arrive ⟨⟨"b"⟩, .normal⟩ 8, .handle 2, .handle 2, .call (.ensureOpen 2), .call (.enter 2),
    .handle 2, .handle 2, .handle 2, .handle 3, .call (.ensureOpen 3), .handle 3, .resume ⟨"b"⟩,
    .checkStop, .fetch twoFrames, .drive .advance, .drive .advance, .drive .advance,
    .launch ⟨"a"⟩ 4, .call (.ensureOpen 4), .call (.enter 4), .call (.send 4), .drive .advance,
    .receive ⟨"a"⟩, .cancel 5 ⟨"b"⟩, .call (.ensureOpen 5), .call (.enter 5), .notify 5,
    .cancelReturned, .stop, .shutdownScheduler, .drive .advance, .drive .advance,
    .drive (.cancel 6), .call (.ensureOpen 6), .call (.enter 6), .notify 6, .drive .advance,
    .finish, .checkStop]

/-- A frame is pushed to a subscriber, and the Python router is shut down. -/
def frameThenShutdown : List Router.PythonCall :=
  [.accept ⟨"a"⟩ "normal" fun _ _ => .ok (), .subscribe ⟨"a"⟩,
    .pushFrame ⟨⟨"a"⟩, 0, [], false⟩, .shutdown]

/-- Before the shutdown of the router both requests are cancelled, the one that is queued and
the one that has been run. -/
theorem cancelledThenStopped_terminal : ∃ log s,
    (machine (fun _ : Nat => true) 4 2).run (machine (fun _ : Nat => true) 4 2).init
      (startedResponse ++ cancelledThenStopped) = some (log, s) ∧
      s.router.inner.Terminal ⟨"a"⟩ ∧ s.router.inner.Terminal ⟨"b"⟩ ∧
      (∀ id, id ≠ ⟨"a"⟩ → s.runs id = none) ∧
      s.scheduler.buckets.high ++ s.scheduler.buckets.normal ++ s.scheduler.buckets.low =
        [⟨⟨"b"⟩, .normal, 0, 8⟩] :=
  ⟨_, _, rfl, ⟨_, rfl, rfl⟩, ⟨_, rfl, rfl⟩, fun id hne => by
    repeat first
      | rfl
      | refine (Function.update_of_ne hne _ _).trans ?_, rfl⟩

/-- After it no push is under way. -/
theorem cancelledThenStopped_quiet : ∃ log s,
    (machine (fun _ : Nat => true) 4 2).run (machine (fun _ : Nat => true) 4 2).init
      (startedResponse ++ cancelledThenStopped ++ [.shutdownRouter]) = some (log, s) ∧
      s.thread = .exited ∧ log[1]? = some (.submitted ⟨"a"⟩ 7) ∧
      log[4]? = some (.submitted ⟨"b"⟩ 8) ∧ s.router.held 0 = true ∧ s.router.held 1 = true ∧
      ∀ c frame ch, ¬ s.router.InFlight c frame ch := by
  refine ⟨_, _, rfl, rfl, rfl, rfl, rfl, rfl, ?_⟩
  -- seven calls have been made
  rintro (_ | _ | _ | _ | _ | _ | _ | c) frame ch (h | h)
  all_goals cases h

theorem cancelledThenStopped_ends :
    (∃ log s, (machine (fun _ : Nat => true) 4 2).run (machine (fun _ : Nat => true) 4 2).init
      (startedResponse ++ cancelledThenStopped ++ [.shutdownRouter]) = some (log, s) ∧
        s.router.inner.Ended ⟨"a"⟩ ∧ s.router.inner.Ended ⟨"b"⟩ ∧
        s.router.ReadsToEnd 0 ∧ s.router.ReadsToEnd 1) ∧
    ∃ log r, (Router.python 4 (by decide)).run (Router.python 4 (by decide)).init
      frameThenShutdown = some (log, r) ∧ r.ReadsToEnd ⟨"a"⟩ := by
  have hends := teardown_ends_streams (fun _ : Nat => true) 4 2
  constructor
  · have hleaves : (machine (fun _ : Nat => true) 4 2).Meets V2State.LeavesNone
        (machine (fun _ : Nat => true) 4 2).init
        (startedResponse ++ cancelledThenStopped ++ [.shutdownRouter]) := by
      obtain ⟨_, t, hbefore, hfirst, hsecond, hunfetched, hqueue⟩ := cancelledThenStopped_terminal
      refine (Machine.along_append hbefore).mpr ⟨V2State.leavesNone_before _ _ _ _ _
        (by simp [startedResponse, cancelledThenStopped]) rfl, ?_⟩
      refine fun es u _ => ⟨?_, trivial⟩
      rintro id (⟨x, hx, hid⟩ | ⟨run, hrun, -⟩)
      · rw [V2State.mem_items, hqueue, List.mem_singleton] at hx
        rw [hx] at hid
        have hval : id.val = "b" := (congrArg Scheduling.RequestId.val hid).symm
        cases id
        cases hval
        exact hsecond
      · by_cases hid : id = ⟨"a"⟩
        · rw [hid]
          exact hfirst
        · cases (hunfetched id hid).symm.trans hrun
    obtain ⟨log, s, hrun, hexited, hone, htwo, hheld, hheld', hquiet⟩ :=
      cancelledThenStopped_quiet
    obtain ⟨hended, hreads⟩ := hends.1 _ log s hleaves hrun (by simp) hexited
    exact ⟨log, s, hrun, hended ⟨"a"⟩ 7 (List.mem_of_getElem? hone),
      hended ⟨"b"⟩ 8 (List.mem_of_getElem? htwo), hreads 0 hheld fun c frame => hquiet c frame 0,
      hreads 1 hheld' fun c frame => hquiet c frame 1⟩
  · have hrun : (Router.python 4 (by decide)).run (Router.python 4 (by decide)).init
        frameThenShutdown = some ([.accepted ⟨"a"⟩ (.ok ()), .returned (.ok ()),
          .returned (.ok ())], _) := rfl
    obtain ⟨e, hentry, -, hreads⟩ := hends.2 (by decide) frameThenShutdown _ _ hrun
      (by simp [frameThenShutdown]) ⟨"a"⟩ (by simp)
    refine ⟨_, _, hrun, hreads ?_⟩
    cases hentry
    rfl

/-- A request that is queued at the teardown: nobody fetches it any more, and the router
keeps its sender. -/
theorem queued_at_teardown_stays_open : ∃ log s,
    (machine (fun _ : Nat => true) 4 1).run (machine (fun _ : Nat => true) 4 1).init
      (startedResponse ++ [.stop, .shutdownScheduler, .checkStop, .shutdownRouter]) =
        some (log, s) ∧ s.thread = .exited ∧ .submitted ⟨"a"⟩ 7 ∈ log ∧
      ∃ e, s.router.inner.requests ⟨"a"⟩ = some e ∧ e.state = .scheduled ∧ e.sender = some 0 ∧
        s.router.step (.recv 0) = none := by
  have hrun : (machine (fun _ : Nat => true) 4 1).run (machine (fun _ : Nat => true) 4 1).init
      (startedResponse ++ [.stop, .shutdownScheduler, .checkStop, .shutdownRouter]) =
        some ([.arrived ⟨"a"⟩ 7, .submitted ⟨"a"⟩ 7, .responded ⟨"a"⟩ 200], _) := rfl
  exact ⟨_, _, hrun, rfl, by simp, _, rfl, rfl, rfl, rfl⟩

end Repercep.Serving.V2
