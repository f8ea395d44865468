import Repercep.Driver.StreamPrefix
import Repercep.Serving.Admission
set_option autoImplicit false

/-!
# The v2 path: what one request sees of it

The application serves any number of requests on one router, one scheduler and one driver
thread.  A single request the scheduler has taken sees of all this a router, the driver's
run of it and its own stream: its part of any run of the application is a run of the
driver's model, with the same events of the router.
-/

namespace Repercep.Serving.V2

open Repercep.Foundation
open Repercep.Router (Sys RequestId RouterRequest RouterError CallId ChanId)
open Repercep.Driver (Job)

variable {P : Type}

/-- The events of the router among those of the application. -/
def routed : Event P → Option Router.Event
  | .router e => some e
  | _ => none

theorem filterMap_routed (fs : List Router.Event) :
    (fs.map (Event.router : Router.Event → Event P)).filterMap routed = fs := by
  rw [List.filterMap_map]
  exact List.filterMap_some

namespace V2State

/-- What a request sees of the application. -/
def project (s : V2State P) (id : RequestId) : Driver.State where
  router := s.router
  pc := (s.runs id).elim .waiting Run.pc
  push := (s.runs id).elim .idle Run.push
  stop := s.stop
  stream := (s.bodies id).map Body.stream

variable {parses : P → Bool} {s t : V2State P} {a : Action P} {es log : List (Event P)}
  {id : RequestId}

/-! ## A submission that has been refused -/

/-- A call that is on its way to an error. -/
def Failing (router : Sys) (c : CallId) : Prop :=
  (∃ req e, router.calls c = some (.rollingBack req e)) ∨
    ∃ e, router.calls c = some (.done (.error e))

theorem Failing.step {router r : Sys} {b : Router.Action} {fs : List Router.Event} {c : CallId}
    (hfailing : Failing router c) (h : router.Rule b fs r) : Failing r c := by
  rcases hfailing with ⟨req, e, hcall⟩ | ⟨e, hcall⟩
  · by_cases hcaller : b.caller = some c
    · have hfinds := h.finds hcaller hcall
      cases h with
      | @rollback d req' e' hcall' =>
          cases hcaller
          exact Or.inr ⟨e', Sys.advance_calls_self⟩
      | deliver | ended | dropReceiver | shutdown => cases hcaller
      | _ => cases hfinds
    · exact Or.inl ⟨req, e, (h.calls_of_ne hcaller).trans hcall⟩
  · exact Or.inr ⟨e, h.returned hcall⟩

/-- The submission of the request has been refused, and its handler is on the way out. -/
structure Denied (s : V2State P) (log : List (Event P)) (id : RequestId) : Prop where
  unsubmitted : submissions id log = []
  issued : s.issued id = true
  leaving : ∀ h, s.task = .handler h → h.req.id = id →
    (∃ detail, h.pc = .discarding detail) ∨ ∃ c, h.pc = .accepting c ∧ Failing s.router c

theorem Accepted.not_denied (haccepted : s.Accepted log id) : ¬ s.Denied log id := by
  intro hdenied
  obtain ⟨payload, -, honce⟩ := haccepted.submitted
  cases hdenied.unsubmitted.symm.trans honce

/-- The step is a submission of the request that is refused. -/
def Refuses (parses : P → Bool) (id : RequestId) (s : V2State P) (a : Action P) : Prop :=
  ∃ h c d payload, a = .handle c ∧ s.task = .handler h ∧ h.pc = .submitting d payload ∧
    h.req.id = id ∧ ∃ e, (s.submit parses h.req payload).1 = .error e

theorem Denied.start (hinv : s.Inv log) (h : s.step parses a = some (es, t))
    (hrefuses : Refuses parses id s a) : t.Denied (log ++ es) id := by
  obtain ⟨hd, c, d, payload, rfl, htask, hpc, rfl, e, herror⟩ := hrefuses
  have hadmits := (hinv.handler hd htask).2
  unfold Admits at hadmits
  rw [hpc] at hadmits
  have hissued : s.issued hd.req.id = true := by
    cases hcase : s.issued hd.req.id with
    | true => rfl
    | false => exact absurd rfl ((hinv.unissued _ hcase).2 hd htask)
  obtain ⟨scheduler, hsubmit⟩ : ∃ scheduler,
      s.submit parses hd.req payload = (.error e, scheduler) := ⟨_, Prod.ext herror rfl⟩
  simp only [step, htask, handle, hpc, hsubmit, Sys.step, hadmits.call] at h
  cases h
  refine ⟨?_, hissued, ?_⟩
  · rw [submissions_append, hadmits.registered.unsubmitted]
    cases payload <;> rfl
  · rintro h' ⟨⟩ -
    exact Or.inr ⟨d, rfl, Or.inl ⟨hd.req, e, Sys.advance_calls_self⟩⟩

/-- The handler of a refused request goes on to its answer. -/
theorem Failing.handle {hd : Handler P} {c d : CallId} (htask : s.task = .handler hd)
    (hpc : hd.pc = .accepting c) (hfailing : Failing s.router c)
    (h : s.Rule parses (.handle d) es t) :
    ∃ detail, t.task = .handler { hd with pc := .discarding detail } := by
  have hsame : ∀ {h' : Handler P}, s.task = .handler h' → h' = hd :=
    fun h'task => Task.handler.inj (h'task.symm.trans htask)
  cases h with
  | @acceptRaised h' _ d' e detail htask' hpc' hcall =>
      cases hsame htask'
      exact ⟨detail, rfl⟩
  | popStaged htask' hpc' hcall =>
      cases hsame htask'
      cases hpc.symm.trans hpc'
      rcases hfailing with ⟨req, e, hother⟩ | ⟨e, hother⟩
      · cases hcall.symm.trans hother
      · cases hcall.symm.trans hother
  | acceptReturned htask' hpc' hcall =>
      cases hsame htask'
      cases hpc.symm.trans hpc'
      rcases hfailing with ⟨req, e, hother⟩ | ⟨e, hother⟩
      · cases hcall.symm.trans hother
      · cases hcall.symm.trans hother
  | stage htask' hpc' | accept htask' hpc' | unparsable htask' hpc' | submit htask' hpc'
  | submitRefused htask' hpc' | refuse htask' hpc' | subscribe htask' hpc'
  | subscribed htask' hpc' | unsubscribed htask' hpc' | subscribeRaised htask' hpc' =>
      cases hsame htask'
      cases hpc.symm.trans hpc'

/-- A handler that gives up answers and is gone. -/
theorem Rule.discarded (h : s.Rule parses a es t) {hd : Handler P} {detail : String}
    (htask : s.task = .handler hd) (hpc : hd.pc = .discarding detail) :
    t.task = .handler hd ∨ t.task = .idle := by
  have hsame : ∀ {h' : Handler P}, s.task = .handler h' → h' = hd :=
    fun h'task => Task.handler.inj (h'task.symm.trans htask)
  rcases h.handler htask with hstill | ⟨c, rfl⟩
  · exact Or.inl hstill
  cases h with
  | refuse htask' hpc' => exact Or.inr rfl
  | stage htask' hpc' | accept htask' hpc' | unparsable htask' hpc' | popStaged htask' hpc'
  | acceptReturned htask' hpc' | acceptRaised htask' hpc' | submit htask' hpc'
  | submitRefused htask' hpc' | subscribe htask' hpc' | subscribed htask' hpc'
  | unsubscribed htask' hpc' | subscribeRaised htask' hpc' =>
      cases hsame htask'
      cases hpc.symm.trans hpc'

/-- What has been refused stays so. -/
theorem Denied.step (hdenied : s.Denied log id) (h : s.Rule parses a es t) :
    t.Denied (log ++ es) id := by
  have hleaving : ∀ h', t.task = .handler h' → h'.req.id = id →
      (∃ detail, h'.pc = .discarding detail) ∨ ∃ c, h'.pc = .accepting c ∧ Failing t.router c := by
    intro h' htask' hid
    rcases h.task with ⟨-, hkept⟩ | ⟨req, payload, -, -, hfresh, -, hnew, -⟩
    · obtain ⟨hd, htask, hreq, -⟩ := hkept h' htask'
      rcases hdenied.leaving hd htask (by rw [hreq]; exact hid) with
        ⟨detail, hpc⟩ | ⟨c, hpc, hfailing⟩
      · rcases h.discarded htask hpc with hstill | hidle
        · cases hstill.symm.trans htask'
          exact Or.inl ⟨detail, hpc⟩
        · cases hidle.symm.trans htask'
      · have hfailing' : Failing t.router c := by
          rcases h.router with hsame | ⟨b, fs, hrouter, -⟩
          · rwa [hsame]
          · exact hfailing.step hrouter
        rcases h.handler htask with hstill | ⟨d, rfl⟩
        · cases hstill.symm.trans htask'
          exact Or.inr ⟨c, hpc, hfailing'⟩
        · obtain ⟨detail, hnext⟩ := hfailing.handle htask hpc h
          cases hnext.symm.trans htask'
          exact Or.inl ⟨detail, rfl⟩
    · cases hnew.symm.trans htask'
      cases hid
      cases hfresh.symm.trans hdenied.issued
  refine ⟨?_, h.issued hdenied.issued, hleaving⟩
  rw [submissions_append, hdenied.unsubmitted, List.nil_append]
  cases h with
  | @submit hd c d payload fs r scheduler htask hpc hsubmit hrouter =>
      have hne : hd.req.id ≠ id := by
        intro hid
        rcases hdenied.leaving hd htask hid with ⟨detail, hpc'⟩ | ⟨c', hpc', -⟩
        · cases hpc.symm.trans hpc'
        · cases hpc.symm.trans hpc'
      simp [submissions, hne]
  | call _ _ => exact submissions_router ..
  | drive _ _ _ _ _ => exact submissions_router ..
  | launch _ _ _ => exact submissions_router ..
  | _ => rfl

/-! ## One step of the application -/

/-- The step is matched by steps of the driver's model of the request. -/
def Matched (depth : Nat) (job : Job) (id : RequestId) (s : V2State P) (es : List (Event P))
    (t : V2State P) : Prop :=
  ∃ bs, (Driver.machine depth id job).run (s.project id) bs =
    some (es.filterMap routed, t.project id)

variable {depth : Nat} {job : Job}

/-- A step that changes nothing the request sees. -/
theorem matched_unseen (hproject : t.project id = s.project id)
    (hquiet : es.filterMap routed = []) : Matched depth job id s es t := by
  refine ⟨[], ?_⟩
  rw [hproject, hquiet]
  rfl

/-- A step of the driver's model. -/
theorem matched_step {b : Driver.Action}
    (h : (s.project id).step job id b = some (es.filterMap routed, t.project id)) :
    Matched depth job id s es t :=
  ⟨[b], Machine.run_singleton h⟩

/-- A step of the router that others take. -/
theorem matched_env {b : Router.Action}
    (hrouter : s.router.step b = some (es.filterMap routed, t.router))
    (hout : Driver.outside id s.router b = true) (hruns : t.runs id = s.runs id)
    (hstop : t.stop = s.stop)
    (hstream : (t.bodies id).map Body.stream = (s.project id).streamAfter id b) :
    Matched depth job id s es t := by
  refine matched_step (b := .env b) ?_
  have hstep : (s.project id).step job id (.env b) = some (es.filterMap routed,
      { s.project id with router := t.router, stream := (s.project id).streamAfter id b }) := by
    have hrouter' : (s.project id).router.step b = some (es.filterMap routed, t.router) := hrouter
    have hout' : Driver.outside id (s.project id).router b = true := hout
    simp only [Driver.State.step, hout', hrouter', if_true]
  rw [hstep, ← hstream]
  unfold project
  rw [hruns, hstop]

theorem step_of_invoke {router r : Sys} {c : CallId} {op : Router.Op} {fs : List Router.Event}
    (h : router.Rule (.invoke c op) fs r) : router.step (.invoke c op) = some ([], r) := by
  cases h with
  | invoke hfree => simp only [Sys.step, hfree]

/-- A call that is not a push and not a subscription leaves the stream alone. -/
theorem matched_invoke {c : CallId} {op : Router.Op} {fs : List Router.Event}
    (hrouter : s.router.Rule (.invoke c op) fs t.router)
    (hop : ∀ frame, op = .pushFrame frame → frame.requestId ≠ id)
    (hquiet : es.filterMap routed = []) (hruns : t.runs id = s.runs id) (hstop : t.stop = s.stop)
    (hbodies : t.bodies = s.bodies) : Matched depth job id s es t := by
  refine matched_env (b := .invoke c op) ?_ ?_ hruns hstop ?_
  · rw [hquiet]
    exact step_of_invoke hrouter
  · cases op with
    | pushFrame frame => simpa [Driver.outside] using hop frame rfl
    | accept req => rfl
    | subscribe k => rfl
    | cancel k => rfl
  · rw [hbodies]
    rfl

/-- A `body_iter` keeps its stream. -/
theorem stream_update {k : RequestId} {body body' : Body} (hbody : s.bodies k = some body)
    (hsame : body'.stream = body.stream) :
    (Function.update s.bodies k (some body') id).map Body.stream =
      (s.bodies id).map Body.stream := by
  by_cases hk : id = k
  · rw [hk, Function.update_self, hbody, Option.map_some, Option.map_some, hsame]
  · rw [Function.update_of_ne hk]

theorem project_setBody {k : RequestId} {body : Body} (hbody : s.bodies k = some body)
    (pc : BodyPc) (task : Task P) : ((s.setBody k body pc).setTask task).project id = s.project id := by
  have hstream : (Function.update s.bodies k (some { body with pc := pc }) id).map Body.stream =
      (s.bodies id).map Body.stream := stream_update hbody rfl
  unfold project
  exact congrArg _ hstream

/-- The steps of `_run_one` do not look at the stream. -/
theorem advance_stream (d : Driver.State) (stream : Option ChanId) :
    ({ d with stream := stream } : Driver.State).advance job id =
      (d.advance job id).map fun d' => { d' with stream := stream } := by
  obtain ⟨router, pc, push, stop, old⟩ := d
  have hresult : ∀ pc', (⟨router, pc', push, stop, stream⟩ : Driver.State).pushResult =
      (⟨router, pc', push, stop, old⟩ : Driver.State).pushResult := fun _ => rfl
  unfold Driver.State.advance
  cases pc with
  | pulling rest index =>
      cases rest with
      | cons frame rest => rfl
      | nil =>
          simp only
          split_ifs <;> rfl
  | checkingStop frame rest =>
      simp only
      split_ifs <;> rfl
  | checkingState frame rest =>
      simp only
      split_ifs
      · rfl
      · cases frame.line <;> rfl
  | awaitingFrame rest index =>
      simp only [hresult]
      split <;> rfl
  | awaitingMarker =>
      simp only [hresult]
      split <;> rfl
  | awaitingCancel c =>
      simp only
      split <;> rfl
  | waiting => rfl
  | cancelling => rfl
  | returned => rfl

theorem step_stream {d d' : Driver.State} {b : Driver.Action} {fs : List Router.Event}
    (hown : ownStep b = true ∨ ∃ c, b = .launch c) (h : d.step job id b = some (fs, d'))
    (stream : Option ChanId) :
    ({ d with stream := stream } : Driver.State).step job id b =
      some (fs, { d' with stream := stream }) := by
  cases b with
  | advance =>
      simp only [Driver.State.step] at h ⊢
      rw [advance_stream]
      cases hadvance : d.advance job id with
      | none =>
          rw [hadvance] at h
          cases h
      | some d₁ =>
          rw [hadvance] at h
          cases h
          rfl
  | launch c =>
      simp only [Driver.State.step] at h ⊢
      split at h
      · split at h
        · cases h
          rfl
        · split at h
          · cases h
          · cases h
            rfl
      · cases h
  | timeout =>
      simp only [Driver.State.step] at h ⊢
      split at h
      · cases h
      · cases h
        rfl
  | cancel c =>
      simp only [Driver.State.step] at h ⊢
      split at h
      · split at h
        · cases h
        · cases h
          rfl
      · cases h
  | pop | setStop | env b =>
      rcases hown with hown | ⟨c, hlaunch⟩
      · cases hown
      · cases hlaunch

/-- A step of the driver on a request, as that request and as another one see it. -/
theorem matched_run {k : RequestId} {run : Run} {b : Driver.Action} {fs : List Router.Event}
    {d : Driver.State} (hown : ownStep b = true ∨ ∃ c, b = .launch c)
    (hrun : s.runs k = some run) (hdriver : (s.view run).step run.job k b = some (fs, d))
    (hjob : k = id → run.job = job) :
    Matched depth job id s (fs.map .router) (s.withRun k run d) := by
  obtain ⟨hstop, hfs, hrouter⟩ := driver_router hown (Driver.State.step_rule hdriver)
  by_cases hk : k = id
  · subst hk
    have hproject : s.project k =
        { s.view run with stream := (s.bodies k).map Body.stream } := by
      unfold project view
      rw [hrun]
      rfl
    have hnext : (s.withRun k run d).project k =
        { d with stream := (s.bodies k).map Body.stream } := by
      unfold project withRun
      rw [hstop]
      simp
    have hstep := step_stream hown hdriver ((s.bodies k).map Body.stream)
    rw [hjob rfl] at hstep
    refine matched_step (b := b) ?_
    rw [hproject, hnext, hstep, filterMap_routed]
  · have hruns : (s.withRun k run d).runs id = s.runs id :=
      Function.update_of_ne (Ne.symm hk) ..
    have hquiet : (fs.map (Event.router : Router.Event → Event P)).filterMap routed = [] := by
      rw [filterMap_routed, hfs]
    rcases hrouter with hsame | ⟨c, -, hinvoke⟩ | ⟨c, frame, rfl, -, hinvoke⟩
    · refine matched_unseen ?_ hquiet
      unfold project
      rw [hruns]
      simp only [withRun, hsame]
    · exact matched_invoke (t := s.withRun k run d) hinvoke (by simp) hquiet hruns rfl rfl
    · refine matched_invoke (t := s.withRun frame.requestId run d) hinvoke ?_ hquiet hruns rfl rfl
      rintro frame' ⟨⟩
      exact hk

/-- A read of a `body_iter`. -/
theorem matched_receive {k : RequestId} (h : s.step parses (.receive k) = some (es, t)) :
    Matched depth job id s es t := by
  unfold step at h
  dsimp only at h
  split at h
  · rename_i body htask hbody
    split at h
    · split at h
      · cases h
      · rename_i fs router hrouter
        cases h
        have hevents : (fs.map (Event.router : Router.Event → Event P)).filterMap routed = fs :=
          filterMap_routed fs
        have hstream : ((({ s with router := router } : V2State P).received k body fs).bodies
            id).map Body.stream = (s.bodies id).map Body.stream := by
          unfold received
          split
          · exact stream_update hbody rfl
          · exact stream_update hbody rfl
        refine matched_env (b := .recv body.stream) ?_ rfl ?_ ?_ hstream
        · rw [hevents, hrouter]
          unfold received
          split <;> rfl
        · unfold received
          split <;> rfl
        · unfold received
          split <;> rfl
    · cases h
  · cases h

/-- The locked section of the handler's `subscribe`. -/
theorem matched_subscribe (hinv : s.Inv log) {hd : Handler P} {c d : CallId} {k : RequestId}
    (htask : s.task = .handler hd) (hpc : hd.pc = .subscribing d)
    (hcall : s.router.calls d = some (.opened (.subscribe k)))
    (h : s.step parses (.handle c) = some (es, t)) : Matched depth job id s es t := by
  have hadmits := (hinv.handler hd htask).2
  unfold Admits at hadmits
  rw [hpc] at hadmits
  have hk : k = hd.req.id := by
    cases hadmits with
    | called hother => cases hcall.symm.trans hother
    | opened hother =>
        cases hcall.symm.trans hother
        rfl
    | refused hother => cases hcall.symm.trans hother
  subst hk
  simp only [step, htask, handle, hpc, hcall] at h
  split at h
  · cases h
  · rename_i fs router hrouter
    have hfs : fs = [] := by
      have henter : s.router.step (.enter d) = some ([], s.router.enterOp d (.subscribe hd.req.id)) := by
        simp only [Sys.step, hcall]
      rw [henter] at hrouter
      cases hrouter
      rfl
    subst hfs
    have hcall' : (s.project id).router.calls d = some (.opened (.subscribe hd.req.id)) := hcall
    split at h
    · rename_i stream inner htake
      cases h
      refine matched_env (b := .enter d) hrouter rfl rfl rfl ?_
      by_cases hid : hd.req.id = id
      · subst hid
        have htake' : (s.project hd.req.id).router.inner.takeReceiver hd.req.id =
            (.ok stream, inner) := htake
        simp [Driver.State.streamAfter, hcall', htake', setTask, setBody]
      · simp only [Driver.State.streamAfter, hcall', if_neg hid]
        simp [project, setTask, setBody, Function.update_of_ne (Ne.symm hid)]
    · rename_i e inner htake
      cases h
      refine matched_env (b := .enter d) hrouter rfl rfl rfl ?_
      by_cases hid : hd.req.id = id
      · subst hid
        have htake' : (s.project hd.req.id).router.inner.takeReceiver hd.req.id =
            (.error e, inner) := htake
        simp only [Driver.State.streamAfter, hcall', if_true, htake']
        rfl
      · simp only [Driver.State.streamAfter, hcall', if_neg hid]
        rfl

/-- A step of the handler. -/
theorem matched_handle (hinv : s.Inv log) {c : CallId}
    (h : s.step parses (.handle c) = some (es, t)) (haccepted : ¬ Refuses parses id s (.handle c)) :
    Matched depth job id s es t := by
  obtain ⟨hd, htask⟩ := (step_rule h).handling
  have hstep := h
  simp only [step, htask] at h
  unfold handle at h
  split at h
  · cases h
    exact matched_unseen rfl rfl
  · split at h
    · split at h
      · cases h
      · rename_i fs router hrouter
        cases h
        exact matched_invoke (Sys.step_rule hrouter) (by simp) rfl rfl rfl rfl
    · cases h
      exact matched_unseen rfl rfl
  · split at h
    · cases h
      exact matched_unseen rfl rfl
    · cases h
      exact matched_unseen rfl rfl
    · cases h
      exact matched_unseen rfl rfl
    · cases h
  · -- the scheduler's answer
    rename_i d payload hpc
    have hadmits := (hinv.handler hd htask).2
    unfold Admits at hadmits
    rw [hpc] at hadmits
    have hcall := hadmits.call
    split at h
    rename_i answer scheduler hsubmit
    split at h
    · cases h
    · rename_i fs router hrouter
      cases h
      have hanswered : s.router.step (.submitted d answer) =
          some ((submissionEvents hd.req.id payload answer).filterMap routed, router) := by
        have hfs : fs = [] := by
          simp only [Sys.step, hcall] at hrouter
          split at hrouter
          · cases hrouter
            rfl
          · cases hrouter
            rfl
        rw [hrouter, hfs]
        cases payload <;> cases answer <;> rfl
      refine matched_env (b := .submitted d answer) hanswered ?_ rfl rfl rfl
      cases answer with
      | ok u => rfl
      | error e =>
          have hne : hd.req.id ≠ id := fun hid =>
            haccepted ⟨hd, c, d, payload, rfl, htask, hpc, hid, e, by rw [hsubmit]⟩
          simp [Driver.outside, hcall, hne]
  · cases h
    exact matched_unseen rfl rfl
  · split at h
    · cases h
    · rename_i fs router hrouter
      cases h
      exact matched_invoke (Sys.step_rule hrouter) (by simp) rfl rfl rfl rfl
  · rename_i d hpc
    split at h
    · rename_i k hcall
      exact matched_subscribe hinv htask hpc hcall hstep
    · cases h
      exact matched_unseen rfl rfl
    · cases h

/-- The driver thread takes an item. -/
theorem matched_fetch (hinv : s.Inv log) {next : Job}
    (hjob : ∀ run, t.runs id = some run → run.job = job) (h : s.fetch next = (es, t)) :
    Matched depth job id s es t := by
  unfold fetch at h
  split at h
  · rename_i req scheduler hpoll
    cases h
    by_cases hid : routerId req.id = id
    · subst hid
      have hqueued := (poll_queued hpoll).1
      have hunfetched := hinv.unfetched_of_queued hqueued
      obtain ⟨e, hentry⟩ := (hinv.accepted_of_queued hqueued).known
      have hnext : (startRun next).job = job := hjob (startRun next) (Function.update_self ..)
      have hsame : next = job := hnext
      subst hsame
      refine matched_step (b := .pop) ?_
      unfold project
      rw [hunfetched]
      simp only [Driver.State.step, Option.elim_none, hentry, Function.update_self,
        Option.elim_some]
      rfl
    · refine matched_unseen ?_ rfl
      unfold project
      simp only [Function.update_of_ne (Ne.symm hid)]
  · cases h
    exact matched_unseen rfl rfl
  · cases h
    exact matched_unseen rfl rfl

/-- A section the router runs by itself. -/
theorem matched_call {b : Router.Action} (h : s.step parses (.call b) = some (es, t)) :
    Matched depth job id s es t := by
  unfold step at h
  dsimp only at h
  split at h
  · rename_i halone
    split at h
    · cases h
    · rename_i fs router hrouter
      cases h
      refine matched_env (b := b) (by rw [filterMap_routed]; exact hrouter) ?_ rfl rfl ?_
      · cases b <;> first | rfl | cases halone
      · cases b with
        | enter c =>
            simp only [runsAlone] at halone
            have hcalls : (s.project id).router.calls c = s.router.calls c := rfl
            unfold Driver.State.streamAfter
            simp only [hcalls]
            split
            · rename_i k hcall
              rw [hcall] at halone
              cases halone
            · rfl
        | _ => rfl
  · cases h

/-- The generator of a body is dropped, and its stream with it. -/
theorem matched_dropStream {k : RequestId} (h : s.step parses (.dropStream k) = some (es, t)) :
    Matched depth job id s es t := by
  unfold step at h
  dsimp only at h
  split at h
  · rename_i stream sawFinal raised hbody
    split at h
    · cases h
    · rename_i fs router hrouter
      cases h
      obtain ⟨-, rfl, -⟩ := Sys.step_dropReceiver hrouter
      exact matched_env (b := .dropReceiver stream) hrouter rfl rfl rfl rfl
  · cases h

/-- A step of a run of the driver is one of the request's model where the run is its own. -/
theorem matched_stepRun {k : RequestId} {run : Run} {b : Driver.Action}
    (hown : ownStep b = true ∨ ∃ c, b = .launch c) (hrun : s.runs k = some run)
    (hjob : ∀ run, t.runs id = some run → run.job = job) (h : s.stepRun k run b = some (es, t)) :
    Matched depth job id s es t := by
  unfold stepRun at h
  split at h
  · cases h
  · rename_i fs d hdriver
    cases h
    refine matched_run hown hrun hdriver ?_
    rintro rfl
    exact hjob ⟨run.job, d.pc, d.push⟩ (withRun_run s k run d)

/-- The driver's thread takes a step of `_run_one`. -/
theorem matched_drive {b : Driver.Action} (hjob : ∀ run, t.runs id = some run → run.job = job)
    (h : s.step parses (.drive b) = some (es, t)) : Matched depth job id s es t := by
  unfold step at h
  dsimp only at h
  split at h
  · split at h
    · rename_i k hthread _ run hrun
      split at h
      · rename_i hallowed
        exact matched_stepRun (Or.inl (Bool.and_eq_true_iff.mp hallowed).1) hrun hjob h
      · cases h
    · cases h
  · cases h

/-- The event loop takes up the push of a run. -/
theorem matched_launch {k : RequestId} {c : CallId}
    (hjob : ∀ run, t.runs id = some run → run.job = job)
    (h : s.step parses (.launch k c) = some (es, t)) : Matched depth job id s es t := by
  unfold step at h
  dsimp only at h
  split at h
  · rename_i run htask hrun
    exact matched_stepRun (Or.inr ⟨c, rfl⟩) hrun hjob h
  · cases h

/-- What a request sees of a step is a step of the driver's model, or nothing. -/
theorem project_step (hinv : s.Inv log) (h : s.step parses a = some (es, t))
    (haccepted : ¬ Refuses parses id s a) (hjob : ∀ run, t.runs id = some run → run.job = job) :
    Matched depth job id s es t := by
  have hrule := step_rule h
  cases a with
  | handle c => exact matched_handle hinv h haccepted
  | call b => exact matched_call h
  | receive k => exact matched_receive h
  | dropStream k => exact matched_dropStream h
  | drive b => exact matched_drive hjob h
  | launch k c => exact matched_launch hjob h
  | cancel c k =>
      cases hrule with
      | cancel htask hrouter => exact matched_invoke hrouter (by simp) rfl rfl rfl rfl
  | unwind c =>
      cases hrule with
      | unwind htask hrouter => exact matched_invoke hrouter (by simp) rfl rfl rfl rfl
  | cancelReturned =>
      cases hrule with
      | cancelReturned htask hcall hnotice => exact matched_unseen rfl rfl
      | unwound htask hcall hnotice hbody =>
          exact matched_unseen (project_setBody hbody _ _) rfl
  | resume k =>
      cases hrule with
      | resume htask hbody hpc => exact matched_unseen (project_setBody hbody _ s.task) rfl
  | interrupt k raised =>
      cases hrule with
      | abandoned htask hbody hpc => exact matched_unseen (project_setBody hbody _ s.task) rfl
      | caught htask hbody hpc hraised => exact matched_unseen (project_setBody hbody _ _) rfl
  | fetch next =>
      unfold step at h
      dsimp only at h
      split at h
      · exact matched_fetch hinv hjob (Option.some.inj h)
      · cases h
  | stop =>
      cases hrule with
      | stop htask hstop => exact matched_step (b := .setStop) rfl
  | shutdownRouter =>
      unfold step at h
      dsimp only at h
      split at h
      · cases h
        exact matched_env (b := .shutdown) rfl rfl rfl rfl rfl
      · cases h
  | arrive | notify | checkStop | fetchTimeout | finish | shutdownScheduler =>
      cases hrule
      exact matched_unseen rfl rfl

/-! ## Whole runs -/

/-- The job of a request is settled when it is fetched. -/
theorem Inv.keeps_job (hinv : s.Inv log) (h : s.Rule parses a es t) {run : Run}
    (hrun : s.runs id = some run) : ∃ run', t.runs id = some run' ∧ run'.job = run.job := by
  rcases h.runs id with ⟨hsame, -⟩ | ⟨job, req, scheduler, -, hpoll, rfl, -⟩ |
    ⟨run', b, fs, d, hrun', -, -, rfl⟩
  · exact ⟨run, hsame.trans hrun, rfl⟩
  · cases (hinv.unfetched_of_queued (poll_queued hpoll).1).symm.trans hrun
  · cases hrun.symm.trans hrun'
    exact ⟨_, withRun_run .., rfl⟩

variable {capacity : Nat} {as : List (Action P)}

theorem Denied.run (hdenied : s.Denied log id)
    (hrun : (machine parses depth capacity).run s as = some (es, t)) :
    t.Denied (log ++ es) id :=
  Machine.history_run (C := fun _ _ => True) (H := fun log s => s.Denied log id)
    (fun _ _ _ _ _ hold _ hstep => hold.step (step_rule hstep)) as log s es t hdenied
    (Machine.meets_of_forall fun _ _ _ => trivial) hrun

theorem Inv.keeps_job_run (hinv : s.Inv log) {run : Run} (hfetched : s.runs id = some run)
    (hrun : (machine parses depth capacity).run s as = some (es, t)) :
    ∃ run', t.runs id = some run' ∧ run'.job = run.job := by
  have hkept := Machine.history_run (C := fun _ _ => True)
    (H := fun log s => s.Inv log ∧ ∃ run', s.runs id = some run' ∧ run'.job = run.job)
    (fun h u a fs v hold _ hstep => by
      obtain ⟨hinv', run', hrun', hjob⟩ := hold
      obtain ⟨run'', hrun'', hjob'⟩ := hinv'.keeps_job (step_rule hstep) hrun'
      exact ⟨hinv'.step (step_rule hstep), run'', hrun'', hjob'.trans hjob⟩)
    as log s es t ⟨hinv, run, hfetched, rfl⟩ (Machine.meets_of_forall fun _ _ _ => trivial) hrun
  exact hkept.2

/-- What a step has to be for the request that is accepted in the end. -/
def Allows (parses : P → Bool) (id : RequestId) (job : Job) (s : V2State P) (a : Action P) :
    Prop :=
  ¬ Refuses parses id s a ∧
    ∀ es t run, s.step parses a = some (es, t) → t.runs id = some run → run.job = job

theorem allows_of_accepted
    (hrun : (machine parses depth capacity).run (machine parses depth capacity).init as =
      some (log, s)) (haccepted : s.Accepted log id)
    (hjob : ∀ run, s.runs id = some run → run.job = job) :
    (machine parses depth capacity).Meets (Allows parses id job)
      (machine parses depth capacity).init as := by
  refine Machine.along_iff_split.mpr ?_
  intro as₁ a as₂ es₁ u es₂ v has hpre hstep
  rw [has] at hrun
  obtain ⟨rest, hrest, hlog⟩ := Machine.run_rest hrun hpre hstep
  have hinv : u.Inv es₁ := Inv.run hpre
  refine ⟨fun hrefuses => ?_, fun es' v' run hstep' hfetched => ?_⟩
  · have hdenied := (Denied.start hinv hstep hrefuses).run hrest
    rw [List.append_assoc, ← hlog] at hdenied
    exact haccepted.not_denied hdenied
  · cases hstep.symm.trans hstep'
    obtain ⟨run', hrun', hsame⟩ := (hinv.step (step_rule hstep)).keeps_job_run hfetched hrest
    exact hsame.symm.trans (hjob run' hrun')

/-- What an accepted request sees of a run of the application is a run of the driver's model
on its own, with the same events of the router. -/
theorem project_run
    (hrun : (machine parses depth capacity).run (machine parses depth capacity).init as =
      some (log, s)) (haccepted : s.Accepted log id)
    (hjob : ∀ run, s.runs id = some run → run.job = job) :
    ∃ bs, (Driver.machine depth id job).run (Driver.machine depth id job).init bs =
      some (log.filterMap routed, s.project id) := by
  have hstep : ∀ (h : List (Event P)) (u : V2State P) (d : Driver.State) (a : Action P)
      (fs : List (Event P)) (v : V2State P), u.Inv h ∧ d = u.project id →
        Allows parses id job u a → (machine parses depth capacity).step u a = some (fs, v) →
        ∃ bs d', (Driver.machine depth id job).run d bs = some (fs.filterMap routed, d') ∧
          v.Inv (h ++ fs) ∧ d' = v.project id := by
    rintro h u d a fs v ⟨hinv, rfl⟩ ⟨hallowed, hjobs⟩ hone
    have hproject : Matched depth job id u fs v :=
      project_step hinv hone hallowed fun run => hjobs fs v run hone
    obtain ⟨bs, hmatched⟩ := hproject
    exact ⟨bs, _, hmatched, hinv.step (step_rule hone), rfl⟩
  obtain ⟨bs, d', hmatched, -, rfl⟩ := Machine.run_matched hstep as []
    (machine parses depth capacity).init _ log s ⟨Inv.init parses depth capacity, rfl⟩
    (allows_of_accepted hrun haccepted hjob) hrun
  exact ⟨bs, hmatched⟩

end V2State

end Repercep.Serving.V2
