import Repercep.Serving.Ownership
set_option autoImplicit false

/-!
# The v2 path: the phases of a request

An id is absent, registered with the router, or accepted.  An accepted request is
queued, has been fetched, or was cancelled and skipped before that.  The log of a run
tells what the scheduler has taken: nothing for an id that is not accepted, and once the
payload that came in with it for one that is.

Only the steps of its own `accept` take an id from one phase to the next.
-/

namespace Repercep.Serving.V2

open Repercep.Foundation
open Repercep.Router (Sys RequestId RouterRequest RouterError CallId ChanId Entry)
open Repercep.Driver (Job Solo)

variable {P : Type}

/-- The payloads the scheduler has taken for the id. -/
def submissions (id : RequestId) (log : List (Event P)) : List P :=
  log.filterMap fun
    | .submitted k payload => if k = id then some payload else none
    | _ => none

theorem submissions_append (id : RequestId) (log es : List (Event P)) :
    submissions id (log ++ es) = submissions id log ++ submissions id es :=
  List.filterMap_append

theorem submissions_router (id : RequestId) (fs : List Router.Event) :
    submissions id (fs.map Event.router : List (Event P)) = [] := by
  simp [submissions]

namespace V2State

/-- The step is one of the `accept` of the id. -/
def Admitting (s : V2State P) (a : Action P) (id : RequestId) : Prop :=
  ∃ c req, s.router.Running c (.accept req) ∧ req.id = id ∧
    ((∃ d, a = .handle d) ∨ ∃ b, a = .call b ∧ b.caller = some c)

/-- Nothing is known of the id. -/
structure Absent (s : V2State P) (log : List (Event P)) (id : RequestId) : Prop where
  entry : s.router.inner.requests id = none
  unqueued : ¬ s.Queued id
  unfetched : s.runs id = none
  unsubmitted : submissions id log = []

/-- The router has the request, the scheduler has not taken it yet. -/
structure Registered (s : V2State P) (log : List (Event P)) (id : RequestId) : Prop where
  entry : ∃ e, s.router.inner.requests id = some e ∧ e.state.isTerminal = false ∧
    e.lastFrameIndex = none ∧ e.receiver.isSome = true
  unqueued : ¬ s.Queued id
  unfetched : s.runs id = none
  unsubmitted : submissions id log = []

/-- The driver thread has fetched the request. -/
structure Fetched (s : V2State P) (id : RequestId) (run : Run) : Prop where
  fetched : s.runs id = some run
  unqueued : ¬ s.Queued id
  known : ∃ e, s.router.inner.requests id = some e
  solo : Solo id (s.view run)
  inv : s.router.inner.shuttingDown = false → Driver.Inv run.job id (s.view run)

/-- Where an accepted request is. -/
inductive Place (s : V2State P) (id : RequestId) : Prop where
  | queued (hqueued : s.Queued id) (hunfetched : s.runs id = none)
      (hrecorded : s.router.inner.Recorded id none)
  /-- it was cancelled while it was queued -/
  | skipped (hunqueued : ¬ s.Queued id) (hunfetched : s.runs id = none)
      (hterminal : s.router.inner.Terminal id)
  | fetched {run : Run} (hfetched : s.Fetched id run)

/-- The scheduler has taken the request, once and with the payload it came with. -/
structure Accepted (s : V2State P) (log : List (Event P)) (id : RequestId) : Prop where
  kept : s.router.Kept id
  place : s.Place id
  submitted : ∃ payload, .arrived id payload ∈ log ∧ submissions id log = [payload]

variable {parses : P → Bool} {s t : V2State P} {a : Action P} {es log : List (Event P)}
  {id : RequestId}

/-! ## What a step of another request leaves alone -/

theorem running_of_pushing {router : Sys} {c : CallId} {frame : Router.Frame}
    (h : router.Pushing c frame) : router.Running c (.pushFrame frame) := by
  obtain ⟨call, hcall, hframe⟩ := h
  refine ⟨call, hcall, ?_⟩
  cases call with
  | called op | opened op =>
      cases op with
      | pushFrame g =>
          cases hframe
          rfl
      | accept req => cases hframe
      | subscribe k => cases hframe
      | cancel k => cases hframe
  | sending g ch | completing g ch =>
      cases hframe
      rfl
  | submitting req => cases hframe
  | rollingBack req e => cases hframe
  | done result => cases hframe

/-- A section of an `accept` is a step of the handler or of the router call. -/
theorem Moves.admitting {b : Router.Action} {c : CallId} {call : Router.Call}
    {req : RouterRequest} {fs : List Router.Event} {r : Sys} (hmoves : s.Moves a t b)
    (h : s.router.Rule b fs r) (hcaller : b.caller = some c)
    (hcall : s.router.calls c = some call) (hop : call.op? = some (.accept req)) :
    s.Admitting a req.id := by
  refine ⟨c, req, ⟨call, hcall, hop⟩, rfl, ?_⟩
  rcases hmoves.sections c hcaller with rfl | hhandle | ⟨op, rfl⟩
  · exact Or.inr ⟨b, rfl, hcaller⟩
  · exact Or.inl hhandle
  · cases hcaller
    exact (h.finds rfl hcall).elim

/-- A step that neither admits the request nor starts its push is, to the driver's run of
it, one of the other callers. -/
theorem Moves.outside {b : Router.Action} {fs : List Router.Event} {r : Sys}
    (hmoves : s.Moves a t b) (h : s.router.Rule b fs r) (hlaunch : ∀ c, a ≠ .launch id c)
    (hquiet : ¬ s.Admitting a id) : Driver.outside id s.router b = true := by
  unfold Driver.outside
  split
  · rename_i c frame
    rw [bne_iff_ne]
    rintro rfl
    exact hlaunch c (hmoves.pushed c frame rfl)
  · rename_i c e
    split
    · rename_i req hcall
      rw [bne_iff_ne]
      rintro rfl
      exact hquiet (hmoves.admitting h rfl hcall rfl)
    · rfl
  · rfl

/-- A call keeps its place under a step that is not its own. -/
theorem Rule.calls (h : s.Rule parses a es t) {c : CallId} {call : Router.Call}
    (hcall : s.router.calls c = some call) (hhandle : ∀ d, a ≠ .handle d)
    (hother : ∀ b, a = .call b → b.caller ≠ some c) : t.router.calls c = some call := by
  rcases h.router with hsame | ⟨b, fs, hrouter, hmoves⟩
  · rw [hsame]
    exact hcall
  · rw [hrouter.calls_of_ne ?_]
    · exact hcall
    · intro hcaller
      rcases hmoves.sections c hcaller with rfl | ⟨d, rfl⟩ | ⟨op, rfl⟩
      · exact hother b rfl hcaller
      · exact hhandle d rfl
      · exact (hrouter.finds hcaller hcall).elim

theorem Rule.shuttingDown (h : s.Rule parses a es t) (hjoining : s.task ≠ .joining) :
    t.router.inner.shuttingDown = s.router.inner.shuttingDown := by
  rcases h.router with hsame | ⟨b, fs, hrouter, hmoves⟩
  · rw [hsame]
  · exact hrouter.shuttingDown fun hshut => hjoining (hmoves.shutdown hshut)

theorem Rule.kept (h : s.Rule parses a es t) (hquiet : ¬ s.Admitting a id)
    (hkept : s.router.Kept id) : t.router.Kept id := by
  rcases h.router with hsame | ⟨b, fs, hrouter, hmoves⟩
  · rw [hsame]
    exact hkept
  · refine hkept.step hrouter ?_
    rintro c req e rfl hcall rfl
    exact hquiet (hmoves.admitting hrouter rfl hcall rfl)

theorem Rule.terminal (h : s.Rule parses a es t) (hkept : s.router.Kept id)
    (hterminal : s.router.inner.Terminal id) : t.router.inner.Terminal id := by
  rcases h.router with hsame | ⟨b, fs, hrouter, -⟩
  · rw [hsame]
    exact hterminal
  · exact hrouter.terminal hkept hterminal

theorem Rule.known (h : s.Rule parses a es t) (hkept : s.router.Kept id)
    (hknown : ∃ e, s.router.inner.requests id = some e) :
    ∃ e, t.router.inner.requests id = some e := by
  rcases h.router with hsame | ⟨b, fs, hrouter, -⟩
  · rw [hsame]
    exact hknown
  · obtain ⟨e, hentry⟩ := hknown
    obtain ⟨e', hentry', -⟩ := hrouter.entry hkept hentry
    exact ⟨e', hentry'⟩

/-- No frame is recorded of a request that has not been fetched. -/
theorem Rule.recorded (h : s.Rule parses a es t) (howned : s.Owned)
    (hkept : s.router.Kept id) (hunfetched : s.runs id = none)
    (hrecorded : s.router.inner.Recorded id none) : t.router.inner.Recorded id none := by
  rcases h.router with hsame | ⟨b, fs, hrouter, -⟩
  · rw [hsame]
    exact hrecorded
  · refine hrouter.recorded hkept ?_ hrecorded
    intro c frame _ hcall
    exact howned.not_pushing hunfetched ⟨_, hcall, rfl⟩

/-- Only the submission of its request queues an id. -/
theorem Rule.not_queued (h : s.Rule parses a es t) (howned : s.Owned)
    (hquiet : ¬ s.Admitting a id) (hunqueued : ¬ s.Queued id) : ¬ t.Queued id := by
  intro hqueued
  rcases h.queued hqueued with hold | ⟨hd, c, d, req, payload, rfl, htask, rfl, -, hcall⟩
  · exact hunqueued hold
  · obtain ⟨hd', htask', rfl, -⟩ := howned c (.accept req) ⟨_, hcall, rfl⟩
    cases htask.symm.trans htask'
    exact hquiet ⟨c, _, ⟨_, hcall, rfl⟩, rfl, Or.inl ⟨d, rfl⟩⟩

/-- Only a queued request is fetched. -/
theorem Rule.not_fetched (h : s.Rule parses a es t) (hunqueued : ¬ s.Queued id)
    (hunfetched : s.runs id = none) : t.runs id = none := by
  rcases h.runs id with ⟨hsame, -⟩ | ⟨job, req, scheduler, -, hpoll, rfl, -⟩ |
    ⟨run, b, fs, d, hrun, -⟩
  · exact hsame.trans hunfetched
  · exact absurd (poll_queued hpoll).1 hunqueued
  · cases hrun.symm.trans hunfetched

/-- The scheduler takes a request in its `accept` only. -/
theorem Rule.submissions (h : s.Rule parses a es t) (howned : s.Owned)
    (hquiet : ¬ s.Admitting a id) : V2.submissions id es = [] := by
  cases h with
  | @submit hd c d payload fs r scheduler htask hpc hsubmit hrouter =>
      cases hrouter with
      | @submitted _ req hcall =>
          obtain ⟨hd', htask', rfl, -⟩ := howned d (.accept req) ⟨_, hcall, rfl⟩
          cases htask.symm.trans htask'
          have hne : hd.req.id ≠ id := by
            rintro rfl
            exact hquiet ⟨d, _, ⟨_, hcall, rfl⟩, rfl, Or.inl ⟨c, rfl⟩⟩
          simp [V2.submissions, hne]
  | call _ _ => exact submissions_router ..
  | drive _ _ _ _ _ => exact submissions_router ..
  | launch _ _ _ => exact submissions_router ..
  | _ => rfl

/-! ## Absent and registered ids -/

theorem Absent.step (habsent : s.Absent log id) (howned : s.Owned) (h : s.Rule parses a es t)
    (hquiet : ¬ s.Admitting a id) : t.Absent (log ++ es) id where
  entry := by
    rcases h.router with hsame | ⟨b, fs, hrouter, hmoves⟩
    · rw [hsame]
      exact habsent.entry
    · rcases hrouter.entry_none habsent.entry with hfree | ⟨c, req, rfl, hcall, rfl, -⟩
      · exact hfree
      · exact absurd (hmoves.admitting hrouter rfl hcall rfl) hquiet
  unqueued := h.not_queued howned hquiet habsent.unqueued
  unfetched := h.not_fetched habsent.unqueued habsent.unfetched
  unsubmitted := by
    rw [submissions_append, habsent.unsubmitted, h.submissions howned hquiet]
    rfl

/-- Nobody else knows of a registered request: its entry stays as it is. -/
theorem Registered.step (hregistered : s.Registered log id) (howned : s.Owned)
    {hd : Handler P} (htask : s.task = .handler hd) (hpc : ∀ c, hd.pc ≠ .subscribing c)
    (h : s.Rule parses a es t) (hquiet : ¬ s.Admitting a id) : t.Registered (log ++ es) id where
  entry := by
    rcases h.router with hsame | ⟨b, fs, hrouter, hmoves⟩
    · rw [hsame]
      exact hregistered.entry
    · rw [hrouter.requests_of_ne ?_]
      · exact hregistered.entry
      · rintro c op hcaller hrunning rfl
        have howns := howned c op hrunning
        cases op with
        | accept req =>
            obtain ⟨call, hcall, hop⟩ := hrunning
            exact hquiet (hmoves.admitting hrouter hcaller hcall hop)
        | subscribe k =>
            obtain ⟨hd', htask', hpc'⟩ := howns
            cases htask.symm.trans htask'
            exact hpc c hpc'
        | cancel k =>
            rcases howns with ⟨body, htask'⟩ | ⟨run, hrun⟩
            · cases htask.symm.trans htask'
            · cases hrun.symm.trans hregistered.unfetched
        | pushFrame frame =>
            obtain ⟨run, hrun⟩ := howns
            cases hrun.symm.trans hregistered.unfetched
  unqueued := h.not_queued howned hquiet hregistered.unqueued
  unfetched := h.not_fetched hregistered.unqueued hregistered.unfetched
  unsubmitted := by
    rw [submissions_append, hregistered.unsubmitted, h.submissions howned hquiet]
    rfl

/-! ## Accepted requests -/

/-- What the driver knows of a request it has just fetched. -/
theorem tracked_start (howned : s.Owned) (hkept : s.router.Kept id)
    (hunfetched : s.runs id = none) (hrecorded : s.router.inner.Recorded id none)
    (hrouter : t.router = s.router) (job : Job) :
    Driver.Tracked job id (t.view (startRun job)) := by
  obtain ⟨e, hentry⟩ := hrecorded.exists_entry
  let waiting : Driver.State :=
    { router := s.router, pc := .waiting, push := .idle, stop := t.stop, stream := none }
  have hsolo : Solo id waiting :=
    { kept := hkept
      lone := fun c frame hpushing hid =>
        absurd hid (howned.not_pushing hunfetched (running_of_pushing hpushing))
      idle := fun _ => rfl }
  have hwaiting : Driver.Tracked job id waiting :=
    ⟨hsolo, fun hpc => absurd rfl hpc, Or.inr hrecorded⟩
  have hpop : waiting.Rule job id .pop [] (t.view (startRun job)) := by
    unfold view startRun
    rw [hrouter]
    cases hform : job.wellFormed with
    | true => exact .pop rfl hentry hform
    | false => exact .popMalformed rfl hentry hform
  exact hwaiting.step (fun c hpop => by cases hpop) hpop

/-- The driver's run of a request it has just fetched. -/
theorem Fetched.start (howned : s.Owned) (hkept : s.router.Kept id)
    (hunfetched : s.runs id = none) (hrecorded : s.router.inner.Recorded id none)
    (hrouter : t.router = s.router) (job : Job) (hrun : t.runs id = some (startRun job))
    (hunqueued : ¬ t.Queued id) : t.Fetched id (startRun job) := by
  obtain ⟨e, hentry⟩ := hrecorded.exists_entry
  have htracked : Driver.Tracked job id (t.view (startRun job)) :=
    tracked_start howned hkept hunfetched hrecorded hrouter job
  refine ⟨hrun, hunqueued, ⟨e, by rw [hrouter]; exact hentry⟩, htracked.solo, ?_⟩
  intro hopen
  exact ⟨htracked.solo, hopen, htracked.known, htracked.atPc⟩

/-- The steps of the other threads, as the run of a request sees them. -/
theorem Fetched.env {run : Run} {b : Router.Action} {fs : List Router.Event}
    (hfetched : s.Fetched id run) (hrouter : s.router.Rule b fs t.router)
    (hout : Driver.outside id s.router b = true) (hrun : t.runs id = s.runs id)
    (hunqueued : ¬ t.Queued id) (hknown : ∃ e, t.router.inner.requests id = some e) :
    t.Fetched id run := by
  have henv : (s.view run).Rule run.job id (.env b) fs _ := .env hout hrouter
  have hsolo := hfetched.solo.step henv
  refine ⟨hrun.trans hfetched.fetched, hunqueued, hknown,
    ⟨hsolo.kept, hsolo.lone, hsolo.idle⟩, ?_⟩
  intro hopen
  have hlive : b ≠ .shutdown := by
    rintro rfl
    generalize t.router = r at hrouter hopen
    cases hrouter with
    | shutdown => cases hopen
  rw [hrouter.shuttingDown hlive] at hopen
  have hinv := (hfetched.inv hopen).step (by simpa using hlive) henv
  exact ⟨⟨hsolo.kept, hsolo.lone, hsolo.idle⟩, hinv.isOpen, hinv.known, hinv.atPc⟩

/-- A run goes on under every step. -/
theorem Fetched.step {run : Run} (hfetched : s.Fetched id run) (howned : s.Owned)
    (h : s.Rule parses a es t) (hquiet : ¬ s.Admitting a id) :
    ∃ run', t.Fetched id run' ∧ run'.job = run.job := by
  have hunqueued := h.not_queued howned hquiet hfetched.unqueued
  have hknown := h.known hfetched.solo.kept hfetched.known
  rcases h.runs id with ⟨hsame, hlaunch⟩ | ⟨job, req, scheduler, -, hpoll, rfl, -⟩ |
    ⟨run', b, fs, d, hrun, hown, hdriver, rfl⟩
  · refine ⟨run, ?_, rfl⟩
    rcases h.router with hrouter | ⟨b, fs, hrouter, hmoves⟩
    · refine ⟨hsame.trans hfetched.fetched, hunqueued, hknown, ?_, ?_⟩
      · unfold view
        rw [hrouter]
        exact ⟨hfetched.solo.kept, hfetched.solo.lone, hfetched.solo.idle⟩
      · unfold view
        rw [hrouter]
        intro hopen
        have hinv := hfetched.inv hopen
        exact ⟨⟨hinv.solo.kept, hinv.solo.lone, hinv.solo.idle⟩, hopen, hinv.known, hinv.atPc⟩
    · exact hfetched.env hrouter (hmoves.outside hrouter hlaunch hquiet) hsame hunqueued hknown
  · exact absurd (poll_queued hpoll).1 hfetched.unqueued
  · cases hfetched.fetched.symm.trans hrun
    refine ⟨{ run with pc := d.pc, push := d.push }, ?_, rfl⟩
    obtain ⟨-, -, hrouter⟩ := driver_router hown hdriver
    have hsolo := hfetched.solo.step hdriver
    refine ⟨withRun_run .., hunqueued, hknown, ⟨hsolo.kept, hsolo.lone, hsolo.idle⟩, ?_⟩
    intro hopen
    have hlive : b ≠ .env .shutdown := by
      rintro rfl
      rcases hown with hown | ⟨c, hlaunch⟩
      · cases hown
      · cases hlaunch
    have hopen' : s.router.inner.shuttingDown = false := by
      rcases hrouter with hsame | ⟨c, -, hrule⟩ | ⟨c, frame, -, -, hrule⟩
      · rw [← hsame]
        exact hopen
      · rw [← hrule.shuttingDown (by simp)]
        exact hopen
      · rw [← hrule.shuttingDown (by simp)]
        exact hopen
    have hinv := (hfetched.inv hopen').step hlive hdriver
    exact ⟨⟨hsolo.kept, hsolo.lone, hsolo.idle⟩, hinv.isOpen, hinv.known, hinv.atPc⟩

/-- A request leaves the queues for its run, or because it has ended. -/
theorem Place.step (hplace : s.Place id) (hkept : s.router.Kept id) (howned : s.Owned)
    (hdistinct : s.Distinct) (hburied : s.Buried id → s.router.inner.Terminal id)
    (h : s.Rule parses a es t) (hquiet : ¬ s.Admitting a id) : t.Place id := by
  cases hplace with
  | queued hqueued hunfetched hrecorded =>
      have hrecorded' := h.recorded howned hkept hunfetched hrecorded
      rcases h.runs id with ⟨hsame, -⟩ |
        ⟨job, req, scheduler, -, hpoll, rfl, hscheduler, hrouter, -, hrun⟩ |
        ⟨run, b, fs, d, hrun, -⟩
      · have hunfetched' := hsame.trans hunfetched
        by_cases hqueued' : t.Queued id
        · exact .queued hqueued' hunfetched' hrecorded'
        · rcases h.unqueued hqueued with hstill | hgone | ⟨job, -, hrun⟩
          · exact absurd hstill hqueued'
          · exact .skipped hqueued' hunfetched' (h.terminal hkept (hburied hgone))
          · cases hrun.symm.trans hunfetched'
      · refine .fetched (.start howned hkept hunfetched hrecorded hrouter job hrun ?_)
        unfold Queued
        rw [hscheduler]
        exact (poll_queued hpoll).2 hdistinct
      · cases hrun.symm.trans hunfetched
  | skipped hunqueued hunfetched hterminal =>
      exact .skipped (h.not_queued howned hquiet hunqueued)
        (h.not_fetched hunqueued hunfetched) (h.terminal hkept hterminal)
  | fetched hfetched =>
      obtain ⟨run', hfetched', -⟩ := hfetched.step howned h hquiet
      exact .fetched hfetched'

theorem Accepted.step (haccepted : s.Accepted log id) (howned : s.Owned)
    (hdistinct : s.Distinct) (hburied : s.Buried id → s.router.inner.Terminal id)
    (h : s.Rule parses a es t) (hquiet : ¬ s.Admitting a id) : t.Accepted (log ++ es) id where
  kept := h.kept hquiet haccepted.kept
  place := haccepted.place.step haccepted.kept howned hdistinct hburied h hquiet
  submitted := by
    obtain ⟨payload, harrived, honce⟩ := haccepted.submitted
    refine ⟨payload, List.mem_append_left es harrived, ?_⟩
    rw [submissions_append, honce, h.submissions howned hquiet]
    rfl

theorem Accepted.known (haccepted : s.Accepted log id) :
    ∃ e, s.router.inner.requests id = some e := by
  cases haccepted.place with
  | queued _ _ hrecorded => exact hrecorded.exists_entry
  | skipped _ _ hterminal =>
      obtain ⟨e, hentry, -⟩ := hterminal
      exact ⟨e, hentry⟩
  | fetched hfetched => exact hfetched.known

end V2State

end Repercep.Serving.V2
