import Repercep.Serving.Notices
set_option autoImplicit false

/-!
# The v2 path: interrupted responses

`body_iter` cancels its request when an `Exception` stops it.  What the server throws when
the client goes away is none: `CancelledError` and `GeneratorExit` are `BaseException`s and
pass its `except`, and a body that has not been started does not even come to it.  A cancel
is also refused once the router has been shut down.  Apart from these cases an interrupted
response leaves a request that has ended, is not run any more, and stops at the next frame.
-/

namespace Repercep.Serving.V2

open Repercep.Foundation
open Repercep.Router (Sys RequestId RouterRequest RouterError CallId ChanId Entry)
open Repercep.Scheduling (Scheduler ScheduledRequest Reference)

variable {P : Type}

/-- The `body_iter` was stopped before it had the final frame. -/
def Body.Interrupted (body : Body) : Prop :=
  (∃ raised, body.pc = .finished (some raised)) ∧ body.sawFinal = false

namespace V2State

/-- Within `n` steps of the driver thread the run of the request is over, or is to cancel where
the driver stops; the router is as it was. -/
def LeavesWithin (parses : P → Bool) (depth capacity n : Nat) (s : V2State P) (id : RequestId) :
    Prop :=
  ∃ m ≤ n, ∃ t, (machine parses depth capacity).run s (List.replicate m (.drive .advance)) =
      some ([], t) ∧ t.router = s.router ∧
    ((t.runs id).map Run.pc = some .returned ∨
      s.stop = true ∧ (t.runs id).map Run.pc = some .cancelling)

/-- The run has pulled a frame that it has not pushed yet, or will pull one. -/
def HasNext (run : Run) : Prop :=
  ∃ frame rest, run.pc = .checkingState frame rest ∨ run.pc = .checkingStop frame rest ∨
    ∃ index, run.pc = .pulling (frame :: rest) index

/-- The request has ended: the driver is not handed it any more, and pushes no frame of it.
Where the driver runs it, it leaves it at the next frame. -/
structure CutOff (s : V2State P) (id : RequestId) : Prop where
  terminal : s.router.inner.Terminal id
  neverRun : ∀ req scheduler, s.scheduler.poll = (.item req, scheduler) → routerId req.id ≠ id
  aborted : ∀ (parses : P → Bool) (depth capacity : Nat) run, s.thread = .running id →
    s.runs id = some run → s.router.inner.state id = some .cancelled → HasNext run →
      LeavesWithin parses depth capacity 3 s id
  refused : ∀ frame ch r, frame.requestId = id → s.router.inner.validate frame ≠ (.ok ch, r)

/-- The step is no interruption, or one that leaves no live request behind: the request has
ended, the body has had the final frame, or the body has been started, catches what is
raised and finds the router open. -/
def Caught (s : V2State P) : Action P → Prop
  | .interrupt id raised => s.router.inner.Terminal id ∨ ∀ body, s.bodies id = some body →
      body.sawFinal = true ∨ (body.pc ≠ .unstarted ∧ raised.isException = true ∧
        s.router.inner.shuttingDown = false)
  | _ => True

/-- What holds of the bodies and of the cancels they make. -/
structure Unwinds (s : V2State P) (live : Reference P) : Prop where
  finished : ∀ id body, s.bodies id = some body → body.Interrupted →
    s.router.inner.Terminal id ∧ ∀ x ∈ live, routerId x.id ≠ id
  unwinding : ∀ id, s.task = .unwinding id → ∃ body, s.bodies id = some body ∧
    (body.sawFinal = true ∨ s.router.inner.Terminal id ∨ s.router.inner.shuttingDown = false)
  cancelling : ∀ c id, s.task = .cancelling c (some id) → ∃ body, s.bodies id = some body ∧
    (body.sawFinal = true ∨ s.router.inner.Terminal id ∨
      (s.router.inner.shuttingDown = false ∧ s.router.CancelStage c id))

variable {parses : P → Bool} {s t : V2State P} {a : Action P} {es log : List (Event P)}
  {id : RequestId} {live : Reference P}

/-! ## What a step does to the bodies -/

/-- A body keeps what it has had. -/
theorem Rule.bodies_kept (h : s.Rule parses a es t) {body : Body} (hbody : s.bodies id = some body)
    (hother : ∀ hd, s.task ≠ .handler hd) :
    ∃ body', t.bodies id = some body' ∧ (body.sawFinal = true → body'.sawFinal = true) := by
  have hset : ∀ {k : RequestId} {b b' : Body}, s.bodies k = some b →
      (b.sawFinal = true → b'.sawFinal = true) →
      ∃ body', Function.update s.bodies k (some b') id = some body' ∧
        (body.sawFinal = true → body'.sawFinal = true) := by
    intro k b b' hold hfinal
    by_cases hid : id = k
    · subst hid
      cases hold.symm.trans hbody
      exact ⟨b', Function.update_self .., hfinal⟩
    · exact ⟨body, (Function.update_of_ne hid ..).trans hbody, fun hseen => hseen⟩
  cases h with
  | subscribed htask _ _ _ _ => exact absurd htask (hother _)
  | unwound _ _ _ hold => exact hset hold fun hseen => hseen
  | resume _ hold _ => exact hset hold fun hseen => hseen
  | delivered _ hold _ _ => exact hset hold fun hseen => by simp [hseen]
  | ended _ hold _ _ => exact hset hold fun hseen => hseen
  | abandoned _ hold _ => exact hset hold fun hseen => hseen
  | caught _ hold _ _ => exact hset hold fun hseen => hseen
  | _ => exact ⟨body, hbody, fun hseen => hseen⟩

/-- A body is interrupted by what it does not catch, or when its cancel has returned. -/
theorem Rule.interrupted (h : s.Rule parses a es t) {body : Body}
    (hbody : t.bodies id = some body) (hinterrupted : body.Interrupted) :
    s.bodies id = some body ∨ (t.router = s.router ∧
      ∃ old, s.bodies id = some old ∧ old.sawFinal = false ∧
        ((∃ raised, a = .interrupt id raised ∧ s.task = .idle ∧
            (old.pc = .unstarted ∨ raised.isException = false)) ∨
          ∃ c, s.task = .cancelling c (some id) ∧ s.notices c = none ∧
            ∃ result, s.router.calls c = some (.done result))) := by
  obtain ⟨⟨raised, hpc⟩, hfinal⟩ := hinterrupted
  have hset : ∀ {k : RequestId} {b : Body}, Function.update s.bodies k (some b) id = some body →
      b.pc ≠ .finished (some raised) → s.bodies id = some body := by
    intro k b hupdate hne
    by_cases hid : id = k
    · subst hid
      rw [Function.update_self, Option.some.injEq] at hupdate
      subst hupdate
      exact absurd hpc hne
    · rwa [Function.update_of_ne hid] at hupdate
  cases h with
  | subscribed _ _ _ _ _ => exact Or.inl (hset hbody (by simp))
  | resume _ _ _ => exact Or.inl (hset hbody (by simp))
  | delivered _ _ _ _ => exact Or.inl (hset hbody (by simp))
  | ended _ _ _ _ => exact Or.inl (hset hbody (by simp))
  | caught _ _ _ _ => exact Or.inl (hset hbody (by simp))
  | @unwound c k result b htask hcall hnotice hold =>
      by_cases hid : id = k
      · subst hid
        have hbody' : Function.update s.bodies id _ id = some body := hbody
        rw [Function.update_self, Option.some.injEq] at hbody'
        subst hbody'
        exact Or.inr ⟨rfl, b, hold, hfinal, Or.inr ⟨c, htask, hnotice, result, hcall⟩⟩
      · exact Or.inl ((Function.update_of_ne hid ..).symm.trans hbody)
  | @abandoned k b raised' htask hold hcause =>
      by_cases hid : id = k
      · subst hid
        have hbody' : Function.update s.bodies id _ id = some body := hbody
        rw [Function.update_self, Option.some.injEq] at hbody'
        subst hbody'
        refine Or.inr ⟨rfl, b, hold, hfinal, Or.inl ⟨raised', rfl, htask, ?_⟩⟩
        rcases hcause with hunstarted | ⟨-, huncaught⟩
        · exact Or.inl hunstarted
        · exact Or.inr huncaught
      · exact Or.inl ((Function.update_of_ne hid ..).symm.trans hbody)
  | _ => exact Or.inl hbody

/-- A body comes to its `except` when it is interrupted. -/
theorem Rule.unwinds (h : s.Rule parses a es t) (htask : t.task = .unwinding id) :
    s.task = .unwinding id ∨ ∃ raised body, a = .interrupt id raised ∧
      s.bodies id = some body ∧ t.router = s.router ∧
        t.bodies id = some { body with pc := .unwinding } := by
  cases h with
  | @caught k body raised _ hbody _ _ =>
      cases htask
      exact Or.inr ⟨raised, body, rfl, hbody, rfl, Function.update_self ..⟩
  | call | notify | resume | delivered | ended | abandoned | dropStream | checkStop | fetched
  | drained | waiting | fetchTimeout | drive | launch | finish | unsubscribed => exact Or.inl htask
  | _ => cases htask

/-! ## Every step keeps the invariant -/

theorem Unwinds.step (hunwinds : s.Unwinds live) (htidy : s.Tidy live) (hinv : s.Inv log)
    (h : s.Rule parses a es t) (hcaught : s.Caught a) {live' : Reference P}
    (hsubset : ∀ x ∈ live', x ∈ live ∨ ¬ s.Accepted log (routerId x.id)) :
    t.Unwinds live' := by
  have hunlisted : ∀ {id body}, s.bodies id = some body → (∀ x ∈ live, routerId x.id ≠ id) →
      ∀ x ∈ live', routerId x.id ≠ id := by
    rintro id body hbody hold x hx rfl
    rcases hsubset x hx with hx | hfresh
    · exact hold x hx rfl
    · exact hfresh (hinv.responding _ _ hbody)
  have hterminal : ∀ {id body}, s.bodies id = some body → s.router.inner.Terminal id →
      t.router.inner.Terminal id :=
    fun hbody => h.terminal (hinv.responding _ _ hbody).kept
  refine ⟨?_, ?_, ?_⟩
  · intro id body hbody hinterrupted
    rcases h.interrupted hbody hinterrupted with hold | ⟨hrouter, old, hold, hfinal, hcause⟩
    · obtain ⟨hended, hnone⟩ := hunwinds.finished id body hold hinterrupted
      exact ⟨hterminal hold hended, hunlisted hold hnone⟩
    · have hended : s.router.inner.Terminal id ∧
          ∀ c, (∃ body, s.task = .cancelling c body) → s.notices c = none := by
        rcases hcause with ⟨raised, rfl, htask, huncaught⟩ | ⟨c, htask, hnotice, result, hcall⟩
        · refine ⟨?_, ?_⟩
          · rcases hcaught with hended | hcaught
            · exact hended
            · rcases hcaught old hold with hseen | ⟨hstarted, hexception, -⟩
              · rw [hfinal] at hseen
                cases hseen
              · rcases huncaught with hunstarted | hbase
                · exact absurd hunstarted hstarted
                · rw [hexception] at hbase
                  cases hbase
          · rintro c ⟨body', hcancelling⟩
            cases htask.symm.trans hcancelling
        · refine ⟨?_, ?_⟩
          · obtain ⟨old', hold', hseen | hended | ⟨-, hstage⟩⟩ := hunwinds.cancelling c id htask
            · cases hold.symm.trans hold'
              rw [hfinal] at hseen
              cases hseen
            · exact hended
            · cases hstage with
              | called hcall' => cases hcall.symm.trans hcall'
              | opened hcall' => cases hcall.symm.trans hcall'
              | done _ hended => exact hended
          · rintro c' ⟨body', hcancelling⟩
            cases htask.symm.trans hcancelling
            exact hnotice
      exact ⟨hterminal hold hended.1,
        hunlisted hold (htidy.unlisted hinv hended.2 hended.1)⟩
  · intro id htask
    rcases h.unwinds htask with hold | ⟨raised, body, rfl, hbody, hrouter, hbody'⟩
    · obtain ⟨body, hbody, hstate⟩ := hunwinds.unwinding id hold
      obtain ⟨body', hbody', hkept⟩ := h.bodies_kept hbody (by simp [hold])
      refine ⟨body', hbody', ?_⟩
      rcases hstate with hseen | hended | hopen
      · exact Or.inl (hkept hseen)
      · exact Or.inr (Or.inl (hterminal hbody hended))
      · rw [h.shuttingDown (by simp [hold])]
        exact Or.inr (Or.inr hopen)
    · refine ⟨_, hbody', ?_⟩
      rw [hrouter]
      rcases hcaught with hended | hcaught
      · exact Or.inr (Or.inl hended)
      · rcases hcaught body hbody with hseen | ⟨-, -, hopen⟩
        · exact Or.inl hseen
        · exact Or.inr (Or.inr hopen)
  · intro c id htask
    rcases h.cancels htask with hold | ⟨k, hcall, hbegins⟩
    · obtain ⟨body, hbody, hstate⟩ := hunwinds.cancelling c id hold
      obtain ⟨body', hbody', hkept⟩ := h.bodies_kept hbody (by simp [hold])
      refine ⟨body', hbody', ?_⟩
      have hshut := h.shuttingDown (by simp [hold])
      rcases hstate with hseen | hended | ⟨hopen, hstage⟩
      · exact Or.inl (hkept hseen)
      · exact Or.inr (Or.inl (hterminal hbody hended))
      · refine Or.inr (Or.inr ⟨hshut.trans hopen, ?_⟩)
        have haccepted := hinv.responding id body hbody
        rcases h.router with hsame | ⟨b, fs, hrouter, -⟩
        · rw [hsame]
          exact hstage
        · refine hstage.step hrouter haccepted.kept ?_ haccepted.known
          intro _ hclosed
          rw [hopen] at hclosed
          cases hclosed
    · obtain ⟨rfl, hold⟩ := hbegins id rfl
      obtain ⟨body, hbody, hstate⟩ := hunwinds.unwinding k hold
      obtain ⟨body', hbody', hkept⟩ := h.bodies_kept hbody (by simp [hold])
      refine ⟨body', hbody', ?_⟩
      rcases hstate with hseen | hended | hopen
      · exact Or.inl (hkept hseen)
      · exact Or.inr (Or.inl (hterminal hbody hended))
      · exact Or.inr (Or.inr ⟨(h.shuttingDown (by simp [hold])).trans hopen, .called hcall⟩)

/-- A step of the driver thread that only moves its program counter. -/
theorem step_advance (parses : P → Bool) (pc : Driver.Pc) {run : Run} (hthread : s.thread = .running id)
    (hrun : s.runs id = some run) (hnotice : s.awaitsNotice run = false)
    (hadvance : (s.view run).advance run.job id = some { s.view run with pc := pc }) :
    ∃ t, s.step parses (.drive .advance) = some ([], t) ∧ t.thread = .running id ∧
      t.runs id = some { run with pc := pc } ∧ t.router = s.router ∧ t.stop = s.stop := by
  have hstep : (s.view run).step run.job id .advance =
      some ([], { s.view run with pc := pc }) := by
    rw [Driver.State.step, hadvance]
  refine ⟨s.withRun id run { s.view run with pc := pc }, ?_, hthread, withRun_run .., rfl, rfl⟩
  simp only [step, hthread, hrun, hnotice, stepRun, hstep]
  rfl

section Leaves

variable {depth capacity n : Nat} {run : Run} {frame : Driver.EngineFrame}
  {rest : List Driver.EngineFrame}

theorem LeavesWithin.mono {m : Nat} (h : LeavesWithin parses depth capacity n s id) (hle : n ≤ m) :
    LeavesWithin parses depth capacity m s id := by
  obtain ⟨k, hk, hrun⟩ := h
  exact ⟨k, hk.trans hle, hrun⟩

theorem LeavesWithin.after (hstep : s.step parses (.drive .advance) = some ([], t))
    (hrouter : t.router = s.router) (hstop : t.stop = s.stop)
    (h : LeavesWithin parses depth capacity n t id) :
    LeavesWithin parses depth capacity (n + 1) s id := by
  obtain ⟨m, hm, u, hrun, hkept, hend⟩ := h
  refine ⟨m + 1, Nat.succ_le_succ hm, u,
    Machine.run_cons_eq_some.mpr ⟨_, _, _, hstep, hrun, rfl⟩, hkept.trans hrouter, ?_⟩
  rwa [hstop] at hend

/-- At its look at the state. -/
theorem leaves_checkingState (hthread : s.thread = .running id) (hrun : s.runs id = some run)
    (hstate : s.router.inner.state id = some .cancelled) (hpc : run.pc = .checkingState frame rest) :
    LeavesWithin parses depth capacity 1 s id := by
  obtain ⟨t, hstep, -, hrun', hrouter, -⟩ := step_advance parses .returned hthread hrun
    (by simp [awaitsNotice, hpc]) (by simp [Driver.State.advance, view, hpc, hstate])
  refine ⟨1, le_rfl, t, Machine.run_cons_eq_some.mpr ⟨_, _, _, hstep, rfl, rfl⟩, hrouter,
    Or.inl ?_⟩
  rw [hrun']
  rfl

theorem leaves_checkingStop (hthread : s.thread = .running id) (hrun : s.runs id = some run)
    (hstate : s.router.inner.state id = some .cancelled) (hpc : run.pc = .checkingStop frame rest) :
    LeavesWithin parses depth capacity 2 s id := by
  obtain ⟨t, hstep, hthread', hrun', hrouter, hkept⟩ := step_advance parses
    (if s.stop then .cancelling else .checkingState frame rest) hthread hrun
    (by simp [awaitsNotice, hpc])
    (by cases hstop : s.stop <;> simp [Driver.State.advance, view, hpc, hstop])
  cases hstop : s.stop with
  | true =>
      rw [hstop] at hrun'
      refine ⟨1, by decide, t, Machine.run_cons_eq_some.mpr ⟨_, _, _, hstep, rfl, rfl⟩, hrouter,
        Or.inr ⟨hstop, ?_⟩⟩
      rw [hrun']
      rfl
  | false =>
      rw [hstop] at hrun'
      refine LeavesWithin.after hstep hrouter hkept ?_
      exact leaves_checkingState hthread' hrun' (by rw [hrouter, hstate]) rfl

/-- The driver leaves a cancelled request at the next frame. -/
theorem leaves_next (hthread : s.thread = .running id) (hrun : s.runs id = some run)
    (hstate : s.router.inner.state id = some .cancelled) (hnext : HasNext run) :
    LeavesWithin parses depth capacity 3 s id := by
  obtain ⟨frame, rest, hpc | hpc | ⟨index, hpc⟩⟩ := hnext
  · exact (leaves_checkingState hthread hrun hstate hpc).mono (by decide)
  · exact (leaves_checkingStop hthread hrun hstate hpc).mono (by decide)
  · obtain ⟨t, hstep, hthread', hrun', hrouter, hkept⟩ := step_advance parses
      (.checkingStop frame rest) hthread hrun (by simp [awaitsNotice, hpc])
      (by simp [Driver.State.advance, view, hpc])
    refine LeavesWithin.after hstep hrouter hkept ?_
    exact leaves_checkingStop hthread' hrun' (by rw [hrouter, hstate]) rfl

end Leaves

/-- A request that has ended and is not live is cut off. -/
theorem Tidy.cutOff (htidy : s.Tidy live) (hended : s.router.inner.Terminal id)
    (hunlisted : ∀ x ∈ live, routerId x.id ≠ id) : s.CutOff id where
  terminal := hended
  neverRun := by
    intro req scheduler hpoll
    exact hunlisted req ((poll_represents htidy.represents hpoll).1 req rfl)
  aborted := fun _ _ _ _ => leaves_next
  refused := by
    rintro frame ch r rfl hvalidate
    obtain ⟨e, hlive, hentry, -⟩ := Router.Inner.validate_ok hvalidate
    obtain ⟨e', hentry', hended'⟩ := hended
    cases hentry.symm.trans hentry'
    rw [hlive] at hended'
    cases hended'

end V2State

open V2State in
/-- In a run whose interruptions all leave no live request behind, every response that was
stopped before its final frame leaves a request that is cut off. -/
theorem interrupted_cutOff (parses : P → Bool) (depth capacity : Nat) {as : List (Action P)}
    {log : List (Event P)} {s : V2State P}
    (hcaught : (machine parses depth capacity).Meets Caught
      (machine parses depth capacity).init as)
    (hrun : (machine parses depth capacity).run (machine parses depth capacity).init as =
      some (log, s)) :
    ∀ id body, s.bodies id = some body → body.Interrupted → s.CutOff id := by
  have hinv : s.Inv log ∧ ∃ live, s.Tidy live ∧ s.Unwinds live := by
    refine Machine.history_reachable
      (H := fun log s => s.Inv log ∧ ∃ live, s.Tidy live ∧ s.Unwinds live) ?_ ?_ hcaught hrun
    · refine ⟨.init parses depth capacity, [], .init parses depth capacity, ?_, ?_, ?_⟩
      · rintro id body ⟨⟩
      · rintro id ⟨⟩
      · rintro c id ⟨⟩
    · rintro log s a es t ⟨hinv, live, htidy, hunwinds⟩ hcaught hstep
      have hrule := step_rule hstep
      obtain ⟨live', htidy', hsubset⟩ := htidy.step hinv hrule
      exact ⟨hinv.step hrule, live', htidy', hunwinds.step htidy hinv hrule hcaught hsubset⟩
  obtain ⟨-, live, htidy, hunwinds⟩ := hinv
  intro id body hbody hinterrupted
  obtain ⟨hended, hunlisted⟩ := hunwinds.finished id body hbody hinterrupted
  exact htidy.cutOff hended hunlisted

/-- A request is answered with its stream and the response is started. -/
def startedResponse : List (Action Nat) :=
  [.arrive ⟨⟨"a"⟩, .normal⟩ 7, .handle 0, .handle 0, .call (.ensureOpen 0), .call (.enter 0),
    .handle 0, .handle 0, .handle 0, .handle 1, .call (.ensureOpen 1), .handle 1,
    .resume ⟨"a"⟩]

/-- The stream raises an exception, and the body cancels the request. -/
def caughtException : List (Action Nat) :=
  [.interrupt ⟨"a"⟩ .exception, .unwind 2, .call (.ensureOpen 2), .call (.enter 2), .notify 2,
    .cancelReturned]

theorem caughtException_cutOff : ∃ log s,
    (machine (fun _ : Nat => true) 4 1).run (machine (fun _ : Nat => true) 4 1).init
      (startedResponse ++ caughtException) = some (log, s) ∧ s.CutOff ⟨"a"⟩ := by
  have hcaught : (machine (fun _ : Nat => true) 4 1).Meets V2State.Caught
      (machine (fun _ : Nat => true) 4 1).init (startedResponse ++ caughtException) := by
    refine (Machine.along_append rfl).mpr ⟨Machine.meets_of_forall ?_,
      (Machine.meets_cons rfl).mpr ⟨Or.inr ?_, Machine.meets_of_forall ?_⟩⟩
    · simp [startedResponse, V2State.Caught]
    · rintro body ⟨⟩
      exact Or.inr ⟨by simp, rfl, rfl⟩
    · simp [V2State.Caught]
  exact ⟨_, _, rfl, @interrupted_cutOff Nat (fun _ => true) 4 1 _ _ _ hcaught rfl ⟨"a"⟩ _ rfl
    ⟨⟨_, rfl⟩, rfl⟩⟩

/-- The client goes away while the body awaits the first frame: the server throws
`CancelledError` into it, and the queued request stays live. -/
theorem disconnect_leaves_live : ∃ log s body,
    (machine (fun _ : Nat => true) 4 1).run (machine (fun _ : Nat => true) 4 1).init
      (startedResponse ++ [.interrupt ⟨"a"⟩ .cancelledError]) = some (log, s) ∧
      s.bodies ⟨"a"⟩ = some body ∧ body.Interrupted ∧ ¬ s.router.inner.Terminal ⟨"a"⟩ := by
  refine ⟨_, _, _, rfl, rfl, ⟨⟨_, rfl⟩, rfl⟩, ?_⟩
  rintro ⟨e, hentry, hended⟩
  cases hentry
  cases hended

end Repercep.Serving.V2
