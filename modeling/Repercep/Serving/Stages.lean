import Repercep.Serving.Phases
set_option autoImplicit false

/-!
# The v2 path: the stages of the handler

`generate_stream_v2` stages the payload, has the router accept the id, which calls back
into the adapter and the scheduler, and subscribes.  Each of these can refuse, and other
threads take steps in between.  The invariant tells for each program counter of the
handler which phase its id is in and what is staged for it; every other id is absent or
accepted, with nothing staged.
-/

namespace Repercep.Serving.V2

open Repercep.Foundation
open Repercep.Router (Sys RequestId RouterRequest RouterError CallId ChanId Entry)

variable {P : Type}

namespace V2State

/-! ## The stages of the handler -/

/-- The request is accepted and waits for its subscriber.  Nobody but its run can have
ended it. -/
structure Admitted (s : V2State P) (log : List (Event P)) (id : RequestId) : Prop where
  accepted : s.Accepted log id
  parked : s.router.inner.Parked id
  ended : s.router.inner.Terminal id → ∃ run, s.runs id = some run
  unstaged : s.staged id = none
  isOpen : s.router.inner.shuttingDown = false

/-- How far `router.accept` has come. -/
inductive AcceptStage (s : V2State P) (log : List (Event P)) (h : Handler P) (c : CallId) :
    Prop where
  | called (hcall : s.router.calls c = some (.called (.accept h.req)))
      (habsent : s.Absent log h.req.id) (hstaged : s.staged h.req.id = some h.payload)
  | opened (hcall : s.router.calls c = some (.opened (.accept h.req)))
      (habsent : s.Absent log h.req.id) (hstaged : s.staged h.req.id = some h.payload)
      (hopen : s.router.inner.shuttingDown = false)
  | submitting (hcall : s.router.calls c = some (.submitting h.req))
      (hregistered : s.Registered log h.req.id) (hstaged : s.staged h.req.id = some h.payload)
      (hopen : s.router.inner.shuttingDown = false)
  | rollingBack {e : RouterError} (hcall : s.router.calls c = some (.rollingBack h.req e))
      (hregistered : s.Registered log h.req.id)
  | refused {e : RouterError} (hcall : s.router.calls c = some (.done (.error e)))
      (habsent : s.Absent log h.req.id)
  | accepted (hcall : s.router.calls c = some (.done (.ok ())))
      (hadmitted : s.Admitted log h.req.id)

/-- How far `router.subscribe` has come. -/
inductive SubscribeStage (s : V2State P) (log : List (Event P)) (h : Handler P) (c : CallId) :
    Prop where
  | called (hcall : s.router.calls c = some (.called (.subscribe h.req.id)))
      (hadmitted : s.Admitted log h.req.id)
  | opened (hcall : s.router.calls c = some (.opened (.subscribe h.req.id)))
      (hadmitted : s.Admitted log h.req.id)
  | refused {e : RouterError} (hcall : s.router.calls c = some (.done (.error e)))
      (hadmitted : s.Admitted log h.req.id) (hterminal : s.router.inner.Terminal h.req.id)

/-- The payload has been popped and is on its way to the scheduler. -/
structure Submitting (s : V2State P) (log : List (Event P)) (h : Handler P) (c : CallId)
    (payload : Option P) : Prop where
  own : payload = some h.payload
  call : s.router.calls c = some (.submitting h.req)
  registered : s.Registered log h.req.id
  unstaged : s.staged h.req.id = none
  isOpen : s.router.inner.shuttingDown = false

/-- What holds of the request of the handler at each program counter. -/
def Admits (s : V2State P) (log : List (Event P)) (h : Handler P) : Prop :=
  match h.pc with
  | .staging | .discarding _ => s.Absent log h.req.id
  | .staged => s.Absent log h.req.id ∧ s.staged h.req.id = some h.payload
  | .accepting c => s.AcceptStage log h c
  | .submitting c payload => s.Submitting log h c payload
  | .accepted => s.Admitted log h.req.id
  | .subscribing c => s.SubscribeStage log h c

/-- The answer has been given and says what has become of the request. -/
def Answered (s : V2State P) (log : List (Event P)) (id : RequestId) (status : Nat) : Prop :=
  (status = 200 ∧ s.Accepted log id) ∨ (status ≠ 200 ∧ (s.Absent log id ∨
    (s.Accepted log id ∧ s.router.inner.Terminal id ∧ ¬ s.Queued id)))

/-- The id is not the handler's. -/
def Unhandled (s : V2State P) (id : RequestId) : Prop :=
  ∀ h, s.task = .handler h → h.req.id ≠ id

/-- What holds in every state, after the events `log`. -/
structure Inv (s : V2State P) (log : List (Event P)) : Prop where
  fresh : ∃ n, ∀ c, n ≤ c → s.router.calls c = none
  owned : s.Owned
  distinct : s.Distinct
  unissued : ∀ id, s.issued id = false → s.Absent log id ∧ s.Unhandled id
  settled : ∀ id, s.Unhandled id →
    s.staged id = none ∧ (s.Absent log id ∨ s.Accepted log id)
  handler : ∀ h, s.task = .handler h →
    .arrived h.req.id h.payload ∈ log ∧ s.Admits log h
  told : ∀ c id, s.notices c = some id → s.Accepted log id ∧ s.router.inner.Terminal id
  buried : ∀ id, s.Buried id → s.Accepted log id ∧ s.router.inner.Terminal id
  answered : ∀ id status, .responded id status ∈ log →
    s.issued id = true ∧ s.Unhandled id ∧ s.Answered log id status
  responding : ∀ id body, s.bodies id = some body → s.Accepted log id
  running : ∀ id, s.thread = .running id → ∃ run, s.runs id = some run

variable {parses : P → Bool} {s t : V2State P} {a : Action P} {es log : List (Event P)}
  {id : RequestId}

/-! ## The phases exclude each other -/

theorem Accepted.not_absent (haccepted : s.Accepted log id) : ¬ s.Absent log id := by
  intro habsent
  obtain ⟨e, hentry⟩ := haccepted.known
  cases habsent.entry.symm.trans hentry

theorem Accepted.not_registered (haccepted : s.Accepted log id) : ¬ s.Registered log id := by
  intro hregistered
  cases haccepted.place with
  | queued hqueued _ _ => exact hregistered.unqueued hqueued
  | skipped _ _ hterminal =>
      obtain ⟨e, hentry, hlive, -⟩ := hregistered.entry
      obtain ⟨e', hentry', hended⟩ := hterminal
      cases hentry.symm.trans hentry'
      rw [hlive] at hended
      cases hended
  | fetched hfetched => cases hregistered.unfetched.symm.trans hfetched.fetched

/-- The `accept` that a step moves is the handler's. -/
theorem Admitting.handler (hadmitting : s.Admitting a id) (howned : s.Owned) :
    ∃ h c, s.task = .handler h ∧ h.req.id = id ∧
      (h.pc = .accepting c ∨ ∃ payload, h.pc = .submitting c payload) ∧
      s.router.Running c (.accept h.req) ∧
      ((∃ d, a = .handle d) ∨ ∃ b, a = .call b ∧ b.caller = some c) := by
  obtain ⟨c, req, hrunning, rfl, hstep⟩ := hadmitting
  obtain ⟨h, htask, rfl, hpc⟩ := howned c _ hrunning
  exact ⟨h, c, htask, rfl, hpc, hrunning, hstep⟩

theorem Unhandled.not_admitting (hother : s.Unhandled id) (howned : s.Owned) :
    ¬ s.Admitting a id := by
  intro hadmitting
  obtain ⟨h, c, htask, hid, -⟩ := hadmitting.handler howned
  exact hother h htask hid

/-- A request that is already accepted is not being accepted. -/
theorem Inv.not_admitting (hinv : s.Inv log) (haccepted : s.Accepted log id) :
    ¬ s.Admitting a id := by
  intro hadmitting
  obtain ⟨h, c, htask, rfl, hpc, ⟨call, hcall, hop⟩, -⟩ := hadmitting.handler hinv.owned
  have hadmits := (hinv.handler h htask).2
  unfold Admits at hadmits
  rcases hpc with hpc | ⟨payload, hpc⟩
  · rw [hpc] at hadmits
    cases hadmits with
    | called _ habsent | opened _ habsent => exact haccepted.not_absent habsent
    | submitting _ hregistered | rollingBack _ hregistered =>
        exact haccepted.not_registered hregistered
    | refused hcall' | accepted hcall' =>
        cases hcall.symm.trans hcall'
        cases hop
  · rw [hpc] at hadmits
    exact haccepted.not_registered hadmits.registered

/-- An accepted request stays accepted. -/
theorem Inv.accepted (hinv : s.Inv log) (h : s.Rule parses a es t)
    (haccepted : s.Accepted log id) : t.Accepted (log ++ es) id :=
  haccepted.step hinv.owned hinv.distinct (fun hburied => (hinv.buried id hburied).2) h
    (hinv.not_admitting haccepted)

/-- Outside the handlers, a request the router has an entry of has been accepted. -/
theorem Inv.accepted_of_entry (hinv : s.Inv log) {id : RequestId}
    (htask : ∀ hd, s.task ≠ .handler hd) {e : Router.Entry}
    (hentry : s.router.inner.requests id = some e) : s.Accepted log id := by
  have hother : s.Unhandled id := fun hd hhandler => absurd hhandler (htask hd)
  rcases (hinv.settled id hother).2 with habsent | haccepted
  · cases habsent.entry.symm.trans hentry
  · exact haccepted

/-- Every id is in one of the phases. -/
theorem Inv.phase (hinv : s.Inv log) (id : RequestId) :
    s.Absent log id ∨ s.Registered log id ∨ s.Accepted log id := by
  by_cases hother : s.Unhandled id
  · rcases (hinv.settled id hother).2 with habsent | haccepted
    · exact Or.inl habsent
    · exact Or.inr (Or.inr haccepted)
  · unfold Unhandled at hother
    push Not at hother
    obtain ⟨h, htask, rfl⟩ := hother
    have hadmits := (hinv.handler h htask).2
    unfold Admits at hadmits
    split at hadmits
    · exact Or.inl hadmits
    · exact Or.inl hadmits
    · exact Or.inl hadmits.1
    · cases hadmits with
      | called _ habsent | opened _ habsent | refused _ habsent => exact Or.inl habsent
      | submitting _ hregistered | rollingBack _ hregistered => exact Or.inr (Or.inl hregistered)
      | accepted _ hadmitted => exact Or.inr (Or.inr hadmitted.accepted)
    · exact Or.inr (Or.inl hadmits.registered)
    · exact Or.inr (Or.inr hadmits.accepted)
    · cases hadmits with
      | called _ hadmitted | opened _ hadmitted | refused _ hadmitted =>
          exact Or.inr (Or.inr hadmitted.accepted)

/-- What has been fetched was accepted. -/
theorem Inv.accepted_of_run (hinv : s.Inv log) {run : Run} (hrun : s.runs id = some run) :
    s.Accepted log id := by
  rcases hinv.phase id with habsent | hregistered | haccepted
  · cases habsent.unfetched.symm.trans hrun
  · cases hregistered.unfetched.symm.trans hrun
  · exact haccepted

/-- What the scheduler has taken is accepted. -/
theorem Inv.accepted_of_submitted (hinv : s.Inv log) {payload : P}
    (hsubmitted : .submitted id payload ∈ log) : s.Accepted log id := by
  have htaken : payload ∈ submissions id log :=
    List.mem_filterMap.mpr ⟨_, hsubmitted, if_pos rfl⟩
  rcases hinv.phase id with habsent | hregistered | haccepted
  · rw [habsent.unsubmitted] at htaken
    cases htaken
  · rw [hregistered.unsubmitted] at htaken
    cases htaken
  · exact haccepted

/-- What is queued was accepted. -/
theorem Inv.accepted_of_queued (hinv : s.Inv log) (hqueued : s.Queued id) :
    s.Accepted log id := by
  rcases hinv.phase id with habsent | hregistered | haccepted
  · exact absurd hqueued habsent.unqueued
  · exact absurd hqueued hregistered.unqueued
  · exact haccepted

/-- What is queued has not been fetched. -/
theorem Inv.unfetched_of_queued (hinv : s.Inv log) (hqueued : s.Queued id) :
    s.runs id = none := by
  rcases hinv.phase id with habsent | hregistered | haccepted
  · exact habsent.unfetched
  · exact hregistered.unfetched
  · cases haccepted.place with
    | queued _ hunfetched _ => exact hunfetched
    | skipped _ hunfetched _ => exact hunfetched
    | fetched hfetched => exact absurd hqueued hfetched.unqueued

/-! ## Steps of the other threads -/

/-- What is staged changes by the handler's own steps, or when a cancel tells the
adapter. -/
theorem Rule.staged (h : s.Rule parses a es t) (howned : s.Owned) (id : RequestId) :
    t.staged id = s.staged id ∨ (t.staged id = none ∧ ∃ c, s.notices c = some id) ∨
      ((∃ d, a = .handle d) ∧ ¬ s.Unhandled id) := by
  have hmoved : ∀ {k : RequestId} {value : Option P},
      (k = id → (value = none ∧ ∃ c, s.notices c = some id) ∨
        ((∃ d, a = .handle d) ∧ ¬ s.Unhandled id)) →
      Function.update s.staged k value id = s.staged id ∨
        (Function.update s.staged k value id = none ∧ ∃ c, s.notices c = some id) ∨
        ((∃ d, a = .handle d) ∧ ¬ s.Unhandled id) := by
    intro k value hk
    by_cases hid : k = id
    · subst hid
      rw [Function.update_self]
      exact Or.inr (hk rfl)
    · rw [Function.update_of_ne (Ne.symm hid)]
      exact Or.inl rfl
  cases h with
  | stage htask hpc =>
      refine hmoved ?_
      rintro rfl
      exact Or.inr ⟨⟨_, rfl⟩, fun hother => hother _ htask rfl⟩
  | @popStaged hd c d req htask hpc hcall =>
      refine hmoved ?_
      rintro rfl
      obtain ⟨hd', htask', rfl, -⟩ := howned d (.accept req) ⟨_, hcall, rfl⟩
      exact Or.inr ⟨⟨_, rfl⟩, fun hother => hother _ htask' rfl⟩
  | refuse htask hpc =>
      refine hmoved ?_
      rintro rfl
      exact Or.inr ⟨⟨_, rfl⟩, fun hother => hother _ htask rfl⟩
  | notify hnotice =>
      refine hmoved ?_
      rintro rfl
      exact Or.inl ⟨rfl, _, hnotice⟩
  | _ => exact Or.inl rfl

/-- A call is run by itself only where the router does so. -/
theorem Rule.alone {b : Router.Action} (h : s.Rule parses (.call b) es t) :
    runsAlone s.router b = true := by
  cases h with
  | call halone _ => exact halone

/-- An admitted request stays so until the handler subscribes. -/
theorem Admitted.step (hadmitted : s.Admitted log id) (hinv : s.Inv log) {h : Handler P}
    (htask : s.task = .handler h) (hrule : s.Rule parses a es t)
    (hunread : ∀ b fs, s.router.Rule b fs t.router → s.Moves a t b →
      ∀ c, b = .enter c → s.router.calls c ≠ some (.opened (.subscribe id)))
    (hstaged : t.staged id = none) : t.Admitted (log ++ es) id where
  accepted := hinv.accepted hrule hadmitted.accepted
  parked := by
    rcases hrule.router with hsame | ⟨b, fs, hrouter, hmoves⟩
    · rw [hsame]
      exact hadmitted.parked
    · exact hrouter.parked hadmitted.accepted.kept (hunread b fs hrouter hmoves)
        hadmitted.parked
  ended := by
    intro hterminal
    have hrun : ∃ run, s.runs id = some run := by
      rcases hrule.router with hsame | ⟨b, fs, hrouter, hmoves⟩
      · rw [hsame] at hterminal
        exact hadmitted.ended hterminal
      · rcases hrouter.ends hterminal with hold | ⟨c, r, -, hcall, -⟩ | ⟨c, frame, ch, hcall, rfl⟩
        · exact hadmitted.ended hold
        · rcases hinv.owned c (.cancel id) ⟨_, hcall, rfl⟩ with ⟨body, hbusy⟩ | hrun
          · cases hbusy.symm.trans htask
          · exact hrun
        · exact hinv.owned c (.pushFrame frame) ⟨_, hcall, rfl⟩
    obtain ⟨run, hrun⟩ := hrun
    exact hrule.runs_some hrun
  unstaged := hstaged
  isOpen := by
    rw [hrule.shuttingDown (by simp [htask])]
    exact hadmitted.isOpen

/-- The sections of `router.accept` that are run by themselves. -/
theorem AcceptStage.alone {b : Router.Action} {h : Handler P} {c : CallId}
    (hstage : s.AcceptStage log h c) (hrule : s.Rule parses (.call b) es t)
    (hcaller : b.caller = some c) : t.AcceptStage (log ++ es) h c := by
  have halone := hrule.alone
  cases hrule with
  | @call _ fs r _ hrouter =>
      have hunsubmitted : ∀ {k}, submissions k log = [] →
          submissions k (log ++ fs.map .router) = [] := by
        intro k hlog
        rw [submissions_append, hlog, submissions_router]
        rfl
      cases hstage with
      | called hcall habsent hstaged =>
          have hfinds := hrouter.finds hcaller hcall
          cases b with
          | ensureOpen d =>
              cases hcaller
              cases hrouter with
              | opens hcall' hopen =>
                  cases hcall.symm.trans hcall'
                  exact .opened Sys.advance_calls_self ⟨habsent.entry, habsent.unqueued,
                    habsent.unfetched, hunsubmitted habsent.unsubmitted⟩ hstaged hopen
              | shut hcall' hshut =>
                  exact .refused Sys.advance_calls_self ⟨habsent.entry, habsent.unqueued,
                    habsent.unfetched, hunsubmitted habsent.unsubmitted⟩
          | _ => cases hfinds
      | opened hcall habsent hstaged hopen =>
          have hfinds := hrouter.finds hcaller hcall
          cases b with
          | enter d =>
              cases hcaller
              cases hrouter with
              | refuse hcall' _ =>
                  exact .refused Sys.advance_calls_self ⟨habsent.entry, habsent.unqueued,
                    habsent.unfetched, hunsubmitted habsent.unsubmitted⟩
              | register hcall' hregister =>
                  cases hcall.symm.trans hcall'
                  obtain ⟨-, rfl⟩ := Router.Inner.register_ok hregister
                  exact .submitting Sys.advance_calls_self
                    ⟨⟨.accepted s.router.inner.nextChan h.req.priority, by simp, rfl, rfl, rfl⟩,
                      habsent.unqueued, habsent.unfetched, hunsubmitted habsent.unsubmitted⟩
                    hstaged hopen
              | validate hcall' _ => cases hcall.symm.trans hcall'
              | subscribe hcall' _ => cases hcall.symm.trans hcall'
              | cancel hcall' _ => cases hcall.symm.trans hcall'
          | _ => cases hfinds
      | submitting hcall hregistered hstaged hopen =>
          have hfinds := hrouter.finds hcaller hcall
          cases b with
          | submitted d answer => cases halone
          | _ => cases hfinds
      | rollingBack hcall hregistered =>
          have hfinds := hrouter.finds hcaller hcall
          cases b with
          | rollback d =>
              cases hcaller
              cases hrouter with
              | rollback hcall' =>
                  cases hcall.symm.trans hcall'
                  obtain ⟨e, hentry, -⟩ := hregistered.entry
                  refine .refused Sys.advance_calls_self ⟨?_, hregistered.unqueued,
                    hregistered.unfetched, hunsubmitted hregistered.unsubmitted⟩
                  simp [Router.Inner.rollback, hentry]
          | _ => cases hfinds
      | refused hcall habsent =>
          have hfinds := hrouter.finds hcaller hcall
          cases b <;> cases hfinds
      | accepted hcall hadmitted =>
          have hfinds := hrouter.finds hcaller hcall
          cases b <;> cases hfinds

/-- No other step moves the `accept` of the handler. -/
theorem not_admitting_of_caller (howned : s.Owned) {h : Handler P} (htask : s.task = .handler h)
    (hhandle : ∀ d, a ≠ .handle d)
    (hother : ∀ c, (h.pc = .accepting c ∨ ∃ payload, h.pc = .submitting c payload) →
      ∀ b, a = .call b → b.caller ≠ some c) : ¬ s.Admitting a id := by
  intro hadmitting
  obtain ⟨h', c, htask', -, hpc, -, ⟨d, hd⟩ | ⟨b, hb, hcaller⟩⟩ := hadmitting.handler howned
  · exact hhandle d hd
  · cases htask.symm.trans htask'
    exact hother c hpc b hb hcaller

/-- Only the handler changes what is staged for a request that is not accepted. -/
theorem Inv.staged_kept (hinv : s.Inv log) (hrule : s.Rule parses a es t)
    (hhandle : ∀ d, a ≠ .handle d) (id : RequestId) :
    t.staged id = s.staged id ∨ (t.staged id = none ∧ s.Accepted log id) := by
  rcases hrule.staged hinv.owned id with hsame | ⟨hnone, c, hnotice⟩ | ⟨⟨d, hd⟩, -⟩
  · exact Or.inl hsame
  · exact Or.inr ⟨hnone, (hinv.told c _ hnotice).1⟩
  · exact absurd hd (hhandle d)

theorem Absent.env (habsent : s.Absent log id) (hinv : s.Inv log)
    (hrule : s.Rule parses a es t) (hhandle : ∀ d, a ≠ .handle d)
    (hquiet : ¬ s.Admitting a id) :
    t.Absent (log ++ es) id ∧ t.staged id = s.staged id := by
  refine ⟨habsent.step hinv.owned hrule hquiet, ?_⟩
  rcases hinv.staged_kept hrule hhandle id with hsame | ⟨-, haccepted⟩
  · exact hsame
  · exact absurd habsent haccepted.not_absent

theorem Registered.env {h : Handler P} (hregistered : s.Registered log h.req.id)
    (hinv : s.Inv log) (htask : s.task = .handler h) (hrule : s.Rule parses a es t)
    (hhandle : ∀ d, a ≠ .handle d) (hpc : ∀ c, h.pc ≠ .subscribing c)
    (hquiet : ¬ s.Admitting a h.req.id) :
    t.Registered (log ++ es) h.req.id ∧ t.staged h.req.id = s.staged h.req.id := by
  refine ⟨hregistered.step hinv.owned htask hpc hrule hquiet, ?_⟩
  rcases hinv.staged_kept hrule hhandle h.req.id with hsame | ⟨-, haccepted⟩
  · exact hsame
  · exact absurd hregistered haccepted.not_registered

/-- No other thread takes the stream of a request that is being admitted. -/
theorem Admitted.env {h : Handler P} (hadmitted : s.Admitted log h.req.id) (hinv : s.Inv log)
    (htask : s.task = .handler h) (hrule : s.Rule parses a es t)
    (hhandle : ∀ d, a ≠ .handle d) : t.Admitted (log ++ es) h.req.id := by
  refine hadmitted.step hinv htask hrule ?_ ?_
  · rintro b fs hrouter hmoves c rfl hcall
    rcases hmoves.sections c rfl with rfl | ⟨d, hd⟩ | ⟨op, hop⟩
    · have halone := hrule.alone
      rw [runsAlone, hcall] at halone
      cases halone
    · exact hhandle d hd
    · cases hop
  · rcases hinv.staged_kept hrule hhandle h.req.id with hsame | ⟨hnone, -⟩
    · exact hsame.trans hadmitted.unstaged
    · exact hnone

/-- While a request is handled the router stays open. -/
theorem Rule.stays_open {h : Handler P} (hrule : s.Rule parses a es t)
    (htask : s.task = .handler h) (hopen : s.router.inner.shuttingDown = false) :
    t.router.inner.shuttingDown = false := by
  rw [hrule.shuttingDown (by simp [htask])]
  exact hopen

/-- `router.accept`, where the step does not move it. -/
theorem AcceptStage.unmoved {h : Handler P} {c : CallId} (hstage : s.AcceptStage log h c)
    (hinv : s.Inv log) (htask : s.task = .handler h) (hpc : h.pc = .accepting c)
    (hrule : s.Rule parses a es t) (hhandle : ∀ d, a ≠ .handle d)
    (hother : ∀ b, a = .call b → b.caller ≠ some c) : t.AcceptStage (log ++ es) h c := by
  have hquiet : ¬ s.Admitting a h.req.id := not_admitting_of_caller hinv.owned htask hhandle
    (by simpa [hpc] using hother)
  have hkept : ∀ {call}, s.router.calls c = some call → t.router.calls c = some call :=
    fun hcall => hrule.calls hcall hhandle hother
  cases hstage with
  | called hcall habsent hstaged =>
      obtain ⟨habsent', hsame⟩ := habsent.env hinv hrule hhandle hquiet
      exact .called (hkept hcall) habsent' (hsame.trans hstaged)
  | opened hcall habsent hstaged hopen =>
      obtain ⟨habsent', hsame⟩ := habsent.env hinv hrule hhandle hquiet
      exact .opened (hkept hcall) habsent' (hsame.trans hstaged) (hrule.stays_open htask hopen)
  | submitting hcall hregistered hstaged hopen =>
      obtain ⟨hregistered', hsame⟩ :=
        hregistered.env hinv htask hrule hhandle (by simp [hpc]) hquiet
      exact .submitting (hkept hcall) hregistered' (hsame.trans hstaged)
        (hrule.stays_open htask hopen)
  | rollingBack hcall hregistered =>
      exact .rollingBack (hkept hcall)
        (hregistered.env hinv htask hrule hhandle (by simp [hpc]) hquiet).1
  | refused hcall habsent =>
      exact .refused (hkept hcall) (habsent.env hinv hrule hhandle hquiet).1
  | accepted hcall hadmitted =>
      exact .accepted (hkept hcall) (hadmitted.env hinv htask hrule hhandle)

/-- While the scheduler is asked, only the handler moves the call. -/
theorem Submitting.env {h : Handler P} {c : CallId} {payload : Option P}
    (hsubmitting : s.Submitting log h c payload) (hinv : s.Inv log)
    (htask : s.task = .handler h) (hpc : h.pc = .submitting c payload)
    (hrule : s.Rule parses a es t) (hhandle : ∀ d, a ≠ .handle d) :
    t.Submitting (log ++ es) h c payload := by
  have hother : ∀ b, a = .call b → b.caller ≠ some c := by
    rintro b rfl hcaller
    have halone := hrule.alone
    cases hrule with
    | call _ hrouter =>
        have hfinds := hrouter.finds hcaller hsubmitting.call
        cases b with
        | submitted d answer => cases halone
        | _ => cases hfinds
  have hquiet : ¬ s.Admitting a h.req.id := not_admitting_of_caller hinv.owned htask hhandle
    (by simpa [hpc] using hother)
  obtain ⟨hregistered, hsame⟩ :=
    hsubmitting.registered.env hinv htask hrule hhandle (by simp [hpc]) hquiet
  exact ⟨hsubmitting.own, hrule.calls hsubmitting.call hhandle hother, hregistered,
    hsame.trans hsubmitting.unstaged, hrule.stays_open htask hsubmitting.isOpen⟩

/-- The sections of `router.subscribe` that are run by themselves. -/
theorem SubscribeStage.alone {b : Router.Action} {h : Handler P} {c : CallId}
    (hstage : s.SubscribeStage log h c) (hinv : s.Inv log) (htask : s.task = .handler h)
    (hrule : s.Rule parses (.call b) es t) (hcaller : b.caller = some c) :
    t.SubscribeStage (log ++ es) h c := by
  have halone := hrule.alone
  have hstep := hrule
  cases hrule with
  | call _ hrouter =>
      cases hstage with
      | called hcall hadmitted =>
          have hfinds := hrouter.finds hcaller hcall
          cases b with
          | ensureOpen d =>
              cases hcaller
              cases hrouter with
              | opens hcall' _ =>
                  cases hcall.symm.trans hcall'
                  exact .opened Sys.advance_calls_self
                    (hadmitted.env hinv htask hstep (by simp))
              | shut hcall' hshut =>
                  rw [hadmitted.isOpen] at hshut
                  cases hshut
          | _ => cases hfinds
      | opened hcall hadmitted =>
          have hfinds := hrouter.finds hcaller hcall
          cases b with
          | enter d =>
              cases hcaller
              rw [runsAlone, hcall] at halone
              cases halone
          | _ => cases hfinds
      | refused hcall hadmitted hterminal =>
          have hfinds := hrouter.finds hcaller hcall
          cases b <;> cases hfinds

/-- `router.subscribe`, where the step does not move it. -/
theorem SubscribeStage.unmoved {h : Handler P} {c : CallId} (hstage : s.SubscribeStage log h c)
    (hinv : s.Inv log) (htask : s.task = .handler h) (hrule : s.Rule parses a es t)
    (hhandle : ∀ d, a ≠ .handle d) (hother : ∀ b, a = .call b → b.caller ≠ some c) :
    t.SubscribeStage (log ++ es) h c := by
  have hkept : ∀ {call}, s.router.calls c = some call → t.router.calls c = some call :=
    fun hcall => hrule.calls hcall hhandle hother
  cases hstage with
  | called hcall hadmitted =>
      exact .called (hkept hcall) (hadmitted.env hinv htask hrule hhandle)
  | opened hcall hadmitted =>
      exact .opened (hkept hcall) (hadmitted.env hinv htask hrule hhandle)
  | refused hcall hadmitted hterminal =>
      exact .refused (hkept hcall) (hadmitted.env hinv htask hrule hhandle)
        (hrule.terminal hadmitted.accepted.kept hterminal)

/-- The steps of the other threads, and the sections the router runs by itself. -/
theorem Admits.env {h : Handler P} (hadmits : s.Admits log h) (hinv : s.Inv log)
    (htask : s.task = .handler h) (hrule : s.Rule parses a es t)
    (hhandle : ∀ d, a ≠ .handle d) : t.Admits (log ++ es) h := by
  unfold Admits at hadmits ⊢
  cases hpc : h.pc with
  | staging | discarding detail =>
      rw [hpc] at hadmits
      have hquiet : ¬ s.Admitting a h.req.id := not_admitting_of_caller hinv.owned htask hhandle
        (by simp [hpc])
      exact (hadmits.env hinv hrule hhandle hquiet).1
  | staged =>
      rw [hpc] at hadmits
      have hquiet : ¬ s.Admitting a h.req.id := not_admitting_of_caller hinv.owned htask hhandle
        (by simp [hpc])
      obtain ⟨habsent, hsame⟩ := hadmits.1.env hinv hrule hhandle hquiet
      exact ⟨habsent, hsame.trans hadmits.2⟩
  | accepting c =>
      rw [hpc] at hadmits
      by_cases hown : ∃ b, a = .call b ∧ b.caller = some c
      · obtain ⟨b, rfl, hcaller⟩ := hown
        exact hadmits.alone hrule hcaller
      · exact hadmits.unmoved hinv htask hpc hrule hhandle
          fun b hb hcaller => hown ⟨b, hb, hcaller⟩
  | submitting c payload =>
      rw [hpc] at hadmits
      exact hadmits.env hinv htask hpc hrule hhandle
  | accepted =>
      rw [hpc] at hadmits
      exact hadmits.env hinv htask hrule hhandle
  | subscribing c =>
      rw [hpc] at hadmits
      by_cases hown : ∃ b, a = .call b ∧ b.caller = some c
      · obtain ⟨b, rfl, hcaller⟩ := hown
        exact hadmits.alone hinv htask hrule hcaller
      · exact hadmits.unmoved hinv htask hrule hhandle
          fun b hb hcaller => hown ⟨b, hb, hcaller⟩

/-! ## Steps of the handler -/

/-- What a step of the handler leads to. -/
inductive Handled (t : V2State P) (log : List (Event P)) (es : List (Event P)) (h : Handler P) :
    Prop where
  | goesOn (pc : HandlerPc P) (htask : t.task = .handler { h with pc := pc })
      (hadmits : t.Admits (log ++ es) { h with pc := pc })
      (hsilent : ∀ k status, .responded k status ∉ es)
  | answers {status : Nat} (htask : t.task = .idle) (hunstaged : t.staged h.req.id = none)
      (hanswered : t.Answered (log ++ es) h.req.id status) (hes : es = [.responded h.req.id status])

theorem refusalStatus_ne (detail : String) : refusalStatus detail ≠ 200 := by
  have hbranch : ∀ (p : Prop) [Decidable p], (if p then 503 else 400 : Nat) ≠ 200 := by
    intro p _
    split
    · decide
    · decide
  exact hbranch _

/-- A request that has ended before its subscriber came has been fetched. -/
theorem Admitted.not_queued (hadmitted : s.Admitted log id)
    (hterminal : s.router.inner.Terminal id) : ¬ s.Queued id := by
  obtain ⟨run, hrun⟩ := hadmitted.ended hterminal
  cases hadmitted.accepted.place with
  | queued _ hunfetched _ => cases hrun.symm.trans hunfetched
  | skipped hunqueued _ _ => exact hunqueued
  | fetched hfetched => exact hfetched.unqueued

/-- The scheduler takes the request of the handler. -/
theorem Submitting.submitted {h : Handler P} {c : CallId} {payload : P} {r : Sys}
    {scheduler : Scheduling.Scheduler P} {fs : List Router.Event}
    (hsubmitting : s.Submitting log h c (some payload)) (hinv : s.Inv log)
    (htask : s.task = .handler h) (hpc : h.pc = .submitting c (some payload))
    (hsubmit : s.scheduler.submit
      ⟨schedulerId h.req.id, schedulerPriority h.req.priority, 0, payload⟩ = (.ok (), scheduler))
    (hrouter : s.router.Rule (.submitted c (.ok ())) fs r)
    (ht : t.router = r ∧ t.scheduler = scheduler ∧ t.runs = s.runs ∧ t.staged = s.staged) :
    t.Admitted (log ++ [.submitted h.req.id payload]) h.req.id := by
  obtain ⟨rfl, rfl, hruns, hstaged⟩ := ht
  have hkept : s.router.Kept h.req.id := by
    intro d req e hcall _
    obtain ⟨h', htask', -, hpc'⟩ := hinv.owned d (.accept req) ⟨_, hcall, rfl⟩
    cases htask.symm.trans htask'
    rcases hpc' with hpc' | ⟨payload', hpc'⟩
    · cases hpc.symm.trans hpc'
    · cases hpc.symm.trans hpc'
      cases hcall.symm.trans hsubmitting.call
  have hinner : t.router.inner = s.router.inner := by
    generalize t.router = r at hrouter
    cases hrouter with
    | submitted _ => rfl
  obtain ⟨e, hentry, hlive, hlast, hreceiver⟩ := hsubmitting.registered.entry
  have hentry' : t.router.inner.requests h.req.id = some e := by
    rw [hinner]
    exact hentry
  have harrived := (hinv.handler h htask).1
  have hown : payload = h.payload := Option.some.inj hsubmitting.own
  refine ⟨⟨hkept.step hrouter (by simp), ?_, payload, ?_, ?_⟩, ?_, ?_, ?_, ?_⟩
  · refine .queued ⟨⟨schedulerId h.req.id, schedulerPriority h.req.priority, 0, payload⟩, ?_, rfl⟩
      ?_ (Or.inr ⟨e, hentry', hlast⟩)
    · rw [(submit_buckets hsubmit).1]
      simp
    · rw [hruns]
      exact hsubmitting.registered.unfetched
  · rw [hown]
    exact List.mem_append_left _ harrived
  · rw [submissions_append, hsubmitting.registered.unsubmitted]
    simp [submissions]
  · exact ⟨e, hentry', Or.inl hreceiver⟩
  · rintro ⟨e', hentry'', hended⟩
    cases hentry'.symm.trans hentry''
    rw [hlive] at hended
    cases hended
  · rw [hstaged]
    exact hsubmitting.unstaged
  · rw [hinner]
    exact hsubmitting.isOpen

/-! ### What the handler finds -/

theorem AcceptStage.of_submitting {h : Handler P} {c : CallId} {req : RouterRequest}
    (hstage : s.AcceptStage log h c) (hcall : s.router.calls c = some (.submitting req)) :
    req = h.req ∧ s.Registered log h.req.id ∧ s.staged h.req.id = some h.payload ∧
      s.router.inner.shuttingDown = false := by
  cases hstage with
  | submitting hcall' hregistered hstaged hopen =>
      cases hcall.symm.trans hcall'
      exact ⟨rfl, hregistered, hstaged, hopen⟩
  | called hcall' | opened hcall' | rollingBack hcall' | refused hcall' | accepted hcall' =>
      cases hcall.symm.trans hcall'

theorem AcceptStage.of_ok {h : Handler P} {c : CallId} (hstage : s.AcceptStage log h c)
    (hcall : s.router.calls c = some (.done (.ok ()))) : s.Admitted log h.req.id := by
  cases hstage with
  | accepted _ hadmitted => exact hadmitted
  | called hcall' | opened hcall' | submitting hcall' | rollingBack hcall' | refused hcall' =>
      cases hcall.symm.trans hcall'

theorem AcceptStage.of_error {h : Handler P} {c : CallId} {e : RouterError}
    (hstage : s.AcceptStage log h c) (hcall : s.router.calls c = some (.done (.error e))) :
    s.Absent log h.req.id := by
  cases hstage with
  | refused _ habsent => exact habsent
  | called hcall' | opened hcall' | submitting hcall' | rollingBack hcall' | accepted hcall' =>
      cases hcall.symm.trans hcall'

theorem SubscribeStage.of_opened {h : Handler P} {c : CallId} {op : Router.Op}
    (hstage : s.SubscribeStage log h c) (hcall : s.router.calls c = some (.opened op)) :
    op = .subscribe h.req.id ∧ s.Admitted log h.req.id := by
  cases hstage with
  | opened hcall' hadmitted =>
      cases hcall.symm.trans hcall'
      exact ⟨rfl, hadmitted⟩
  | called hcall' | refused hcall' => cases hcall.symm.trans hcall'

theorem SubscribeStage.of_error {h : Handler P} {c : CallId} {e : RouterError}
    (hstage : s.SubscribeStage log h c) (hcall : s.router.calls c = some (.done (.error e))) :
    s.Admitted log h.req.id ∧ s.router.inner.Terminal h.req.id := by
  cases hstage with
  | refused _ hadmitted hterminal => exact ⟨hadmitted, hterminal⟩
  | called hcall' | opened hcall' => cases hcall.symm.trans hcall'

/-- A handler that waits for no answer moves no `accept`. -/
theorem not_admitting_of_done (howned : s.Owned) {h : Handler P} (htask : s.task = .handler h)
    (hdone : ∀ d, h.pc = .accepting d → ∃ result, s.router.calls d = some (.done result))
    (hsubmitting : ∀ d payload, h.pc ≠ .submitting d payload) : ¬ s.Admitting a id := by
  intro hadmitting
  obtain ⟨h', d, htask', -, hpc | ⟨payload, hpc⟩, ⟨call, hcall, hop⟩, -⟩ :=
    hadmitting.handler howned
  · cases htask.symm.trans htask'
    obtain ⟨result, hreturned⟩ := hdone d hpc
    cases hcall.symm.trans hreturned
    cases hop
  · cases htask.symm.trans htask'
    exact hsubmitting d payload hpc

/-- Before the handler subscribes, its own steps leave an admitted request so. -/
theorem Admitted.handle {h : Handler P} (hadmitted : s.Admitted log h.req.id)
    (hinv : s.Inv log) (htask : s.task = .handler h) (hrule : s.Rule parses a es t)
    (hpc : ∀ d, h.pc ≠ .subscribing d) (hstaged : t.staged h.req.id = s.staged h.req.id) :
    t.Admitted (log ++ es) h.req.id := by
  refine hadmitted.step hinv htask hrule ?_ (hstaged.trans hadmitted.unstaged)
  rintro b fs hrouter hmoves d rfl hcall
  obtain ⟨h', htask', hpc'⟩ := hinv.owned d (.subscribe h.req.id) ⟨_, hcall, rfl⟩
  cases htask.symm.trans htask'
  exact hpc d hpc'

/-- The router has no stream for the handler: the request has ended. -/
theorem SubscribeStage.unsubscribed {h : Handler P} {c d : CallId} {k : RequestId}
    {e : RouterError} {inner : Router.Inner} {fs : List Router.Event} {r : Sys}
    (hstage : s.SubscribeStage log h d) (hcall : s.router.calls d = some (.opened (.subscribe k)))
    (htake : s.router.inner.takeReceiver h.req.id = (.error e, inner))
    (hrouter : s.router.Rule (.enter d) fs r) (hinv : s.Inv log)
    (hrule : s.Rule parses (.handle c) [] { s with router := r }) :
    ({ s with router := r } : V2State P).SubscribeStage (log ++ []) h d := by
  obtain ⟨hk, hadmitted⟩ := hstage.of_opened hcall
  cases hk
  have hterminal := hadmitted.parked.takeReceiver_error htake
  have haccepted := hinv.accepted hrule hadmitted.accepted
  cases hrouter with
  | refuse _ _ =>
      exact .refused Sys.advance_calls_self ⟨haccepted, hadmitted.parked, hadmitted.ended,
        hadmitted.unstaged, hadmitted.isOpen⟩ hterminal
  | subscribe hcall' htake' =>
      cases hcall.symm.trans hcall'
      rw [htake] at htake'
      cases htake'
  | register hcall' _ => cases hcall.symm.trans hcall'
  | validate hcall' _ => cases hcall.symm.trans hcall'
  | cancel hcall' _ => cases hcall.symm.trans hcall'

/-- Every step of the handler leads to the next stage, or to the answer. -/
theorem Admits.handle {h : Handler P} {c : CallId} (hadmits : s.Admits log h)
    (hinv : s.Inv log) (htask : s.task = .handler h)
    (hrule : s.Rule parses (.handle c) es t) : t.Handled log es h := by
  have hsame : ∀ {h' : Handler P}, s.task = .handler h' → h' = h :=
    fun htask' => Task.handler.inj (htask'.symm.trans htask)
  have hstep := hrule
  unfold Admits at hadmits
  cases hrule with
  | stage htask' hpc =>
      cases hsame htask'
      rw [hpc] at hadmits
      have hquiet : ¬ s.Admitting (.handle c) h.req.id :=
        not_admitting_of_done hinv.owned htask (by simp [hpc]) (by simp [hpc])
      exact .goesOn _ rfl ⟨hadmits.step hinv.owned hstep hquiet, Function.update_self ..⟩ (by simp)
  | accept htask' hpc hrouter =>
      cases hsame htask'
      rw [hpc] at hadmits
      have habsent := hadmits.1.step hinv.owned hstep
        (not_admitting_of_done hinv.owned htask (by simp [hpc]) (by simp [hpc]))
      cases hrouter with
      | invoke hfree =>
          exact .goesOn _ rfl (.called Sys.advance_calls_self habsent hadmits.2) (by simp)
  | @unparsable _ _ detail htask' hpc =>
      cases hsame htask'
      rw [hpc] at hadmits
      have habsent := hadmits.1.step hinv.owned hstep
        (not_admitting_of_done hinv.owned htask (by simp [hpc]) (by simp [hpc]))
      exact .goesOn (.discarding detail) rfl habsent (by simp)
  | @popStaged _ _ d req htask' hpc hcall =>
      cases hsame htask'
      rw [hpc] at hadmits
      obtain ⟨rfl, hregistered, hstaged, hopen⟩ := hadmits.of_submitting hcall
      refine .goesOn _ rfl ⟨hstaged, hcall, ?_, Function.update_self .., hopen⟩ (by simp)
      rw [List.append_nil]
      exact ⟨hregistered.entry, hregistered.unqueued, hregistered.unfetched,
        hregistered.unsubmitted⟩
  | @acceptReturned _ _ d htask' hpc hcall =>
      cases hsame htask'
      rw [hpc] at hadmits
      exact .goesOn .accepted rfl
        ((hadmits.of_ok hcall).handle hinv htask hstep (by simp [hpc]) rfl) (by simp)
  | @acceptRaised _ _ d e detail htask' hpc hcall =>
      cases hsame htask'
      rw [hpc] at hadmits
      refine .goesOn (.discarding detail) rfl ((hadmits.of_error hcall).step hinv.owned hstep
        (not_admitting_of_done hinv.owned htask ?_ (by simp [hpc]))) (by simp)
      intro d' hpc'
      cases hpc.symm.trans hpc'
      exact ⟨_, hcall⟩
  | @submit _ _ d payload fs r scheduler htask' hpc hsubmit hrouter =>
      cases hsame htask'
      rw [hpc] at hadmits
      have hadmitted := hadmits.submitted hinv htask hpc hsubmit hrouter
        (t := { s with router := r, scheduler := scheduler }.setHandler h (.accepting d))
        ⟨rfl, rfl, rfl, rfl⟩
      cases hrouter with
      | submitted hcall =>
          exact .goesOn _ rfl (.accepted Sys.advance_calls_self hadmitted) (by simp)
  | submitRefused htask' hpc hrouter =>
      cases hsame htask'
      rw [hpc] at hadmits
      cases hrouter with
      | unsubmitted hcall =>
          cases hcall.symm.trans hadmits.call
          refine .goesOn _ rfl (.rollingBack Sys.advance_calls_self ?_) (by simp)
          rw [List.append_nil]
          exact ⟨hadmits.registered.entry, hadmits.registered.unqueued,
            hadmits.registered.unfetched, hadmits.registered.unsubmitted⟩
  | @refuse _ _ detail htask' hpc =>
      cases hsame htask'
      rw [hpc] at hadmits
      have habsent := hadmits.step hinv.owned hstep
        (not_admitting_of_done hinv.owned htask (by simp [hpc]) (by simp [hpc]))
      exact .answers rfl (Function.update_self ..)
        (Or.inr ⟨refusalStatus_ne detail, Or.inl habsent⟩) rfl
  | subscribe htask' hpc hrouter =>
      cases hsame htask'
      rw [hpc] at hadmits
      have hadmitted := hadmits.handle hinv htask hstep (by simp [hpc]) rfl
      cases hrouter with
      | invoke hfree =>
          exact .goesOn _ rfl (.called Sys.advance_calls_self hadmitted) (by simp)
  | subscribed htask' hpc hcall htake hrouter =>
      cases hsame htask'
      rw [hpc] at hadmits
      obtain ⟨-, hadmitted⟩ := hadmits.of_opened hcall
      exact .answers rfl hadmitted.unstaged
        (Or.inl ⟨rfl, hinv.accepted hstep hadmitted.accepted⟩) rfl
  | @unsubscribed _ _ _ _ _ _ _ r htask' hpc hcall htake hrouter =>
      cases hsame htask'
      rw [hpc] at hadmits
      refine .goesOn h.pc htask ?_ (by simp)
      change ({ s with router := r } : V2State P).Admits (log ++ []) h
      unfold Admits
      rw [hpc]
      exact hadmits.unsubscribed hcall htake hrouter hinv hstep
  | subscribeRaised htask' hpc hcall =>
      cases hsame htask'
      rw [hpc] at hadmits
      obtain ⟨hadmitted, hterminal⟩ := hadmits.of_error hcall
      have haccepted := hinv.accepted hstep hadmitted.accepted
      exact .answers rfl hadmitted.unstaged (Or.inr ⟨by decide, Or.inr ⟨haccepted, hterminal,
        hadmitted.not_queued hterminal⟩⟩) rfl

end V2State

end Repercep.Serving.V2
