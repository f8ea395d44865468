import Repercep.Serving.FallbackScheduler
import Repercep.Serving.Interruption
set_option autoImplicit false

/-!
# The v2 path: client cancels take effect

`router.cancel` ends the request in the router and then has the adapter tell the scheduler,
whose errors are swallowed; the driver looks at the state of a request before each push.  A
cancel that is back before the request has been fetched leaves an item that is not handed
out any more and does not count.  One that is back later leaves the driver at most one more
frame to ask the engine for: the state may have become `Complete` in between, but no push
of a request that has ended passes the router.

Everything here is about the rules of the application, so it holds over both schedulers.
-/

namespace Repercep.Serving.V2

open Repercep.Foundation
open Repercep.Router (Sys RequestId RouterRequest RouterError CallId ChanId)
open Repercep.Scheduling (Scheduler ScheduledRequest PythonScheduler Reference)
open Repercep.Driver (Job Pc PushFuture)

variable {P : Type}

/-- The driver resumes the engine next. -/
def asks : Pc → Bool
  | .pulling _ _ => true
  | _ => false

namespace V2State

/-- The step asks the engine for the next frame of the request. -/
def asksEngine (s : V2State P) (id : RequestId) : Action P → Bool
  | .drive .advance =>
      match s.thread, s.runs id with
      | .running k, some run => decide (k = id) && asks run.pc
      | _, _ => false
  | _ => false

/-- The event loop's `router.cancel`, call `c`, is back and has raised nothing. -/
structure CancelReturns (s : V2State P) (c : CallId) : Prop where
  task : ∃ body, s.task = .cancelling c body
  call : s.router.calls c = some (.done (.ok ()))
  told : s.notices c = none

end V2State

/-- The Rust scheduler takes the next submission, and the request is not among the live
ones, which are those it counts. -/
structure Released (scheduler : Scheduler P) (id : RequestId) : Prop where
  takes : ∀ req, (scheduler.submit req).1 = .ok ()
  uncounted : ∃ live : Reference P, scheduler.buckets.Represents live ∧
    scheduler.len = live.length ∧ ∀ x ∈ live, x.id ≠ schedulerId id

/-- The same of the Python scheduler. -/
structure PythonReleased (scheduler : PythonScheduler P) (id : RequestId) : Prop where
  takes : ∀ req, (scheduler.submit req).1 = .ok ()
  uncounted : ∃ live : Reference P, scheduler.Holds live ∧
    scheduler.len = live.length ∧ ∀ x ∈ live, x.id ≠ schedulerId id

/-- In every run in which a cancel of the event loop comes back without an error: if the
driver has not fetched the request by then, it never does, and the slot is free at once; and
in any case it asks the engine for at most one more frame. -/
def CancelsTakeEffect {σ : Type} (M : Machine σ (Action P) (Event P)) (app : σ → V2State P)
    (released : σ → RequestId → Prop) : Prop :=
  ∀ c id before log s, M.run M.init before = some (log, s) →
    (app s).router.calls c = some (.called (.cancel id)) →
  ∀ during log' t, M.run s during = some (log', t) → (app t).CancelReturns c →
    ((app t).runs id = none → released t id ∧
      ∀ after log'' u, M.run t after = some (log'', u) → (app u).runs id = none) ∧
    ∀ after, M.count (fun u => (app u).asksEngine id) t after ≤ 1

namespace V2State

variable {parses : P → Bool} {s t : V2State P} {a : Action P} {es log : List (Event P)}
  {id : RequestId} {live : Reference P}

/-! ## How many requests the scheduler counts -/

theorem length_nextFrom_le (ps : List Scheduling.Priority) (live : Reference P) :
    (live.nextFrom ps).2.length ≤ live.length := by
  induction ps with
  | nil => exact le_rfl
  | cons p ps ih =>
      unfold Reference.nextFrom
      split
      · exact List.length_eraseP_le
      · exact ih

/-- An attempt of `next` counts no request more. -/
theorem poll_len_le {scheduler scheduler' : Scheduler P} {result : Scheduling.Poll P}
    (hrepresents : scheduler.buckets.Represents live)
    (hpoll : scheduler.poll = (result, scheduler')) :
    scheduler'.len ≤ scheduler.len ∧ scheduler'.capacity = scheduler.capacity := by
  obtain ⟨-, hrest⟩ := hrepresents.popNextFrom [.high, .normal, .low]
  have hlen : (scheduler.buckets.popNextFrom [.high, .normal, .low]).2.len ≤
      scheduler.buckets.len := by
    rw [hrest.len_eq, hrepresents.len_eq]
    exact length_nextFrom_le _ live
  unfold Scheduler.poll Scheduling.Buckets.popNext at hpoll
  rcases hpop : scheduler.buckets.popNextFrom [.high, .normal, .low] with ⟨out, b⟩
  rw [hpop] at hpoll hlen
  cases out with
  | none =>
      cases hpoll
      exact ⟨hlen, rfl⟩
  | some item =>
      cases hpoll
      exact ⟨hlen, rfl⟩

theorem exists_queue_of_mem_items {b : Scheduling.Buckets P} {x : ScheduledRequest P}
    (hx : x ∈ b.items) : ∃ p, x ∈ b.queue p := by
  unfold Scheduling.Buckets.items at hx
  rcases Multiset.mem_add.mp hx with hx | hx
  · rcases Multiset.mem_add.mp hx with hx | hx
    · exact ⟨.high, hx⟩
    · exact ⟨.normal, hx⟩
  · exact ⟨.low, hx⟩

/-- A cancel counts no request more, and one less when the request was live. -/
theorem cancel_len {scheduler : Scheduler P} (hrepresents : scheduler.buckets.Represents live)
    (k : Scheduling.RequestId) :
    (scheduler.cancel k).2.capacity = scheduler.capacity ∧
      (scheduler.cancel k).2.shuttingDown = scheduler.shuttingDown ∧
      (scheduler.cancel k).2.len ≤ scheduler.len ∧
      (scheduler.shuttingDown = false → (∃ x ∈ live, x.id = k) →
        (scheduler.cancel k).2.len < scheduler.len) := by
  unfold Scheduler.cancel
  split
  · rename_i hdown
    refine ⟨rfl, rfl, le_rfl, ?_⟩
    intro hopen
    rw [hdown] at hopen
    cases hopen
  · split
    · rename_i hknown
      have hlen : (scheduler.buckets.mark k hknown).len = (live.cancel k).length :=
        (hrepresents.mark hknown).len_eq
      have hold : scheduler.buckets.len = live.length := hrepresents.len_eq
      refine ⟨rfl, rfl, ?_, ?_⟩
      · change (scheduler.buckets.mark k hknown).len ≤ scheduler.buckets.len
        rw [hlen, hold]
        exact List.length_filter_le _ live
      · rintro - ⟨x, hx, hid⟩
        change (scheduler.buckets.mark k hknown).len < scheduler.buckets.len
        rw [hlen, hold]
        refine List.length_filter_lt_length_iff_exists.mpr ⟨x, hx, ?_⟩
        simpa using hid
    · rename_i hunknown
      refine ⟨rfl, rfl, le_rfl, ?_⟩
      rintro - ⟨x, hx, rfl⟩
      exact absurd ((hrepresents.slots x.id).mpr ⟨x.priority, x, (hrepresents.mem_live.mp hx).1,
        rfl⟩) hunknown

/-- A step counts no request more, but for a submission of the handler, which finds room. -/
theorem Rule.len_cases (h : s.Rule parses a es t)
    (hrepresents : s.scheduler.buckets.Represents live)
    (hinv : s.Inv log) : t.scheduler.capacity = s.scheduler.capacity ∧
      (t.scheduler.len ≤ s.scheduler.len ∨
        ((∃ hd, s.task = .handler hd) ∧ t.scheduler.len ≤ s.scheduler.capacity)) := by
  cases h with
  | @submit hd c d payload fs r scheduler htask hpc hsubmit _ =>
      have hadmits := (hinv.handler hd htask).2
      unfold Admits at hadmits
      rw [hpc] at hadmits
      have hunknown := unknown_of_not_queued hrepresents hadmits.registered.unqueued
      unfold Scheduler.submit at hsubmit
      split at hsubmit
      · cases hsubmit
      · split at hsubmit
        · cases hsubmit
        · rename_i hroom
          cases hsubmit
          refine ⟨rfl, Or.inr ⟨⟨hd, htask⟩, ?_⟩⟩
          have hpushed : (s.scheduler.buckets.push ⟨schedulerId hd.req.id,
              schedulerPriority hd.req.priority, 0, payload⟩).len = (live ++ [_]).length :=
            (hrepresents.push hunknown).len_eq
          change (s.scheduler.buckets.push _).len ≤ s.scheduler.capacity
          rw [hpushed, List.length_append, List.length_singleton]
          rw [hrepresents.len_eq] at hroom
          omega
  | @notify c k _ =>
      obtain ⟨hcapacity, -, hlen, -⟩ := cancel_len hrepresents (schedulerId k)
      exact ⟨hcapacity, Or.inl hlen⟩
  | fetched _ hpoll | drained _ hpoll | waiting _ hpoll =>
      obtain ⟨hlen, hcapacity⟩ := poll_len_le hrepresents hpoll
      exact ⟨hcapacity, Or.inl hlen⟩
  | shutdownScheduler _ => exact ⟨rfl, Or.inl le_rfl⟩
  | _ => exact ⟨rfl, Or.inl le_rfl⟩

/-- The queues are tidy and hold no more than they may. -/
structure Bounded (s : V2State P) (live : Reference P) : Prop where
  tidy : s.Tidy live
  bound : s.scheduler.len ≤ s.scheduler.capacity

theorem Bounded.step (hbounded : s.Bounded live) (hinv : s.Inv log)
    (h : s.Rule parses a es t) : ∃ live', t.Bounded live' ∧
      ∀ x ∈ live', x ∈ live ∨ ¬ s.Accepted log (routerId x.id) := by
  obtain ⟨live', htidy, hsubset⟩ := hbounded.tidy.step hinv h
  refine ⟨live', ⟨htidy, ?_⟩, hsubset⟩
  obtain ⟨hcapacity, hlen | ⟨-, hlen⟩⟩ := h.len_cases hbounded.tidy.represents hinv
  · rw [hcapacity]
    exact hlen.trans hbounded.bound
  · rw [hcapacity]
    exact hlen

theorem Bounded.init (parses : P → Bool) (depth capacity : Nat) :
    (machine parses depth capacity).init.Bounded [] :=
  ⟨.init parses depth capacity, Nat.zero_le _⟩

/-! ## The stages of a cancel -/

/-- How far `router.cancel` for the request has come, and what it has brought about. -/
inductive CancelAt (s : V2State P) (c : CallId) (id : RequestId) : Prop where
  | called (hcall : s.router.calls c = some (.called (.cancel id)))
  | opened (hcall : s.router.calls c = some (.opened (.cancel id)))
  | refused {e : RouterError} (hcall : s.router.calls c = some (.done (.error e)))
  /-- the driver has fetched the request before -/
  | fetched (hcall : s.router.calls c = some (.done (.ok ())))
      (hended : s.router.inner.Terminal id) {run : Run} (hrun : s.runs id = some run)
  /-- the scheduler has yet to be told -/
  | ended (hcall : s.router.calls c = some (.done (.ok ())))
      (hended : s.router.inner.Terminal id) (hnotice : s.notices c = some id)
      (hqueued : s.Queued id) (hclear : ¬ s.Buried id)
  | told (hcall : s.router.calls c = some (.done (.ok ())))
      (hended : s.router.inner.Terminal id) (hnotice : s.notices c = none)
      (hroom : ∀ body, s.task = .cancelling c body → s.scheduler.shuttingDown = false ∧
        s.scheduler.len < s.scheduler.capacity)

/-- A request that has ended was accepted. -/
theorem Inv.accepted_of_terminal (hinv : s.Inv log) (hended : s.router.inner.Terminal id) :
    s.Accepted log id := by
  obtain ⟨e, hentry, hterminal⟩ := hended
  rcases hinv.phase id with habsent | hregistered | haccepted
  · cases habsent.entry.symm.trans hentry
  · obtain ⟨e', hentry', hlive, -⟩ := hregistered.entry
    cases hentry.symm.trans hentry'
    rw [hlive] at hterminal
    cases hterminal
  · exact haccepted

theorem Rule.stays_ended (h : s.Rule parses a es t) (hinv : s.Inv log)
    (hended : s.router.inner.Terminal id) : t.router.inner.Terminal id :=
  h.terminal (hinv.accepted_of_terminal hended).kept hended

theorem Rule.returned (h : s.Rule parses a es t) {c : CallId} {result : Except RouterError Unit}
    (hcall : s.router.calls c = some (.done result)) :
    t.router.calls c = some (.done result) := by
  rcases h.router with hsame | ⟨b, fs, hrouter, -⟩
  · rw [hsame]
    exact hcall
  · exact hrouter.returned hcall

/-- A live request that the event loop cancels is queued, and not cancelled there. -/
theorem Inv.queued_of_live (hinv : s.Inv log) (hunfetched : s.runs id = none)
    (haccepted : s.Accepted log id) (hlive : ¬ s.router.inner.Terminal id) :
    s.Queued id ∧ ¬ s.Buried id := by
  refine ⟨?_, fun hburied => hlive (hinv.buried id hburied).2⟩
  cases haccepted.place with
  | queued hqueued _ _ => exact hqueued
  | skipped _ _ hended => exact absurd hended hlive
  | fetched hfetched => cases hunfetched.symm.trans hfetched.fetched

/-- The section of a cancel ends the request, and leaves the scheduler to be told unless
the driver has fetched the request. -/
theorem CancelAt.section_step (hinv : s.Inv log) (h : s.Rule parses a es t) {c : CallId}
    (hcall : s.router.calls c = some (.opened (.cancel id))) {fs : List Router.Event}
    (hrouter : s.router.Rule (.enter c) fs t.router) (hmoves : s.Moves a t (.enter c)) :
    t.CancelAt c id := by
  have hsections := hmoves.sections c rfl
  generalize hafter : t.router = r at hrouter
  cases hrouter with
  | refuse hcall' _ => exact .refused (by rw [hafter]; exact Sys.advance_calls_self)
  | cancel hcall' hcancel =>
      cases hcall.symm.trans hcall'
      have hdone : t.router.calls c = some (.done (.ok ())) := by
        rw [hafter]
        exact Sys.advance_calls_self
      have hended : t.router.inner.Terminal id := by
        rw [hafter]
        exact Router.Inner.terminal_cancelEntry hcancel
      cases hrun : s.runs id with
      | some run =>
          obtain ⟨run', hrun'⟩ := h.runs_some hrun
          exact .fetched hdone hended hrun'
      | none =>
          obtain ⟨body, htask⟩ : ∃ body, s.task = .cancelling c body := by
            rcases hinv.owned c (.cancel id) ⟨_, hcall, rfl⟩ with hbusy | ⟨run, hsome⟩
            · exact hbusy
            · cases hrun.symm.trans hsome
          obtain ⟨e, hentry, hlive, -⟩ := Router.Inner.cancelEntry_ok hcancel
          have hnotended : ¬ s.router.inner.Terminal id := by
            rintro ⟨e', hentry', hterminal⟩
            cases hentry.symm.trans hentry'
            rw [hlive] at hterminal
            cases hterminal
          have haccepted : s.Accepted log id :=
            hinv.accepted_of_entry (by simp [htask]) hentry
          obtain ⟨hqueued, hclear⟩ := hinv.queued_of_live hrun haccepted hnotended
          rcases hsections with rfl | ⟨d, rfl⟩ | ⟨op, hop⟩
          · refine .ended hdone hended ?_ ?_ ?_
            · cases h with
              | call _ _ =>
                  change s.noticesAfter (.enter c) c = some id
                  simp [noticesAfter, hcall, hcancel]
            · rcases h.unqueued hqueued with hstays | hburied | ⟨job, hfetch, -⟩
              · exact hstays
              · exact absurd hburied hclear
              · cases hfetch
            · intro hburied
              rcases h.buried hburied with hold | ⟨d, hnotify, -⟩
              · exact hclear hold
              · cases hnotify
          · obtain ⟨hd, hhandler⟩ := h.handling
            cases htask.symm.trans hhandler
          · cases hop
  | register hcall' _ => cases hcall.symm.trans hcall'
  | validate hcall' _ => cases hcall.symm.trans hcall'
  | subscribe hcall' _ => cases hcall.symm.trans hcall'

/-- The scheduler is told, or the driver fetches the request before that. -/
theorem CancelAt.ended_step (hinv : s.Inv log) (hbounded : s.Bounded live)
    (h : s.Rule parses a es t) {c : CallId}
    (hcall : s.router.calls c = some (.done (.ok ()))) (hended : s.router.inner.Terminal id)
    (hnotice : s.notices c = some id) (hqueued : s.Queued id) (hclear : ¬ s.Buried id) :
    t.CancelAt c id := by
  have hdone := h.returned hcall
  have hstays := h.stays_ended hinv hended
  have hunfetched := hinv.unfetched_of_queued hqueued
  have hquiet : ∀ k, s.router.calls c ≠ some (.opened (.cancel k)) := by
    intro k hcall'
    cases hcall.symm.trans hcall'
  rcases h.notices_kept hnotice hquiet with hkept | rfl
  · cases hrun : t.runs id with
    | some run => exact .fetched hdone hstays hrun
    | none =>
        refine .ended hdone hstays hkept ?_ ?_
        · rcases h.unqueued hqueued with hstill | hburied | ⟨job, -, hrun'⟩
          · exact hstill
          · exact absurd hburied hclear
          · cases hrun.symm.trans hrun'
        · intro hburied
          rcases h.buried hburied with hold | ⟨d, rfl, hnotice'⟩
          · exact hclear hold
          · -- the event loop makes one call at a time, so the notice is the one of `c`
            have hsame : c = d := by
              rcases hbounded.tidy.pending c id hnotice with ⟨body, htask, -⟩ | ⟨run, hrun'⟩
              · rcases hbounded.tidy.pending d id hnotice' with ⟨body', htask', -⟩ | ⟨run, hrun'⟩
                · cases htask.symm.trans htask'
                  rfl
                · cases hunfetched.symm.trans hrun'
              · cases hunfetched.symm.trans hrun'
            subst hsame
            cases h with
            | notify _ =>
                have hgone : Function.update s.notices c none c = some id := hkept
                rw [Function.update_self] at hgone
                cases hgone
  · obtain ⟨x, hx, hid⟩ := hqueued
    have hopen := hbounded.tidy.running hinv hnotice ⟨x, hx, hid⟩
    have hlive : x ∈ live := by
      obtain ⟨p, hqueue⟩ := exists_queue_of_mem_items hx
      exact hbounded.tidy.represents.live_of_queued hqueue (hid ▸ hclear)
    cases h with
    | @notify _ k hnotice' =>
        cases hnotice.symm.trans hnotice'
        obtain ⟨hcapacity, hflag, -, hless⟩ :=
          cancel_len hbounded.tidy.represents (schedulerId id)
        refine .told hdone hstays (Function.update_self ..) ?_
        rintro body -
        refine ⟨hflag.trans hopen, ?_⟩
        change (s.scheduler.cancel (schedulerId id)).2.len <
          (s.scheduler.cancel (schedulerId id)).2.capacity
        rw [hcapacity]
        exact lt_of_lt_of_le (hless hopen ⟨x, hlive, hid⟩) hbounded.bound

/-- After that nothing but a submission takes the slot. -/
theorem CancelAt.told_step (hinv : s.Inv log) (hbounded : s.Bounded live)
    (h : s.Rule parses a es t) {c : CallId}
    (hcall : s.router.calls c = some (.done (.ok ()))) (hended : s.router.inner.Terminal id)
    (hnotice : s.notices c = none)
    (hroom : ∀ body, s.task = .cancelling c body → s.scheduler.shuttingDown = false ∧
      s.scheduler.len < s.scheduler.capacity) : t.CancelAt c id := by
  have hdone := h.returned hcall
  refine .told hdone (h.stays_ended hinv hended) ?_ ?_
  · rw [Option.eq_none_iff_forall_ne_some]
    intro k hnotice'
    rcases h.noticed hnotice' with hold | ⟨hcall', -, -⟩
    · cases hnotice.symm.trans hold
    · cases hcall.symm.trans hcall'
  · intro body htask'
    rcases h.cancels htask' with htask | ⟨k, hcall', -⟩
    · obtain ⟨hopen, hless⟩ := hroom body htask
      refine ⟨?_, ?_⟩
      · rw [← Bool.not_eq_true]
        intro hshut
        rcases h.drains hshut with hold | hjoining
        · rw [hopen] at hold
          cases hold
        · cases htask'.symm.trans hjoining
      · obtain ⟨hcapacity, hlen | ⟨⟨hd, hhandler⟩, -⟩⟩ :=
          h.len_cases hbounded.tidy.represents hinv
        · rw [hcapacity]
          exact lt_of_le_of_lt hlen hless
        · cases htask.symm.trans hhandler
    · cases hdone.symm.trans hcall'

theorem CancelAt.step {c : CallId} (hat : s.CancelAt c id) (hinv : s.Inv log)
    (hbounded : s.Bounded live) (h : s.Rule parses a es t) : t.CancelAt c id := by
  cases hat with
  | called hcall =>
      rcases h.router with hsame | ⟨b, fs, hrouter, -⟩
      · exact .called (by rw [hsame]; exact hcall)
      · rcases hrouter.called hcall with hstays | rfl
        · exact .called hstays
        · generalize hafter : t.router = r at hrouter
          cases hrouter with
          | opens hcall' _ =>
              cases hcall.symm.trans hcall'
              exact .opened (by rw [hafter]; exact Sys.advance_calls_self)
          | shut _ _ => exact .refused (by rw [hafter]; exact Sys.advance_calls_self)
  | opened hcall =>
      rcases h.router with hsame | ⟨b, fs, hrouter, hmoves⟩
      · exact .opened (by rw [hsame]; exact hcall)
      · by_cases hcaller : b.caller = some c
        · have hfinds := hrouter.finds hcaller hcall
          cases b with
          | enter d =>
              cases hcaller
              exact section_step hinv h hcall hrouter hmoves
          | _ => cases hfinds
        · exact .opened ((hrouter.calls_of_ne hcaller).trans hcall)
  | refused hcall => exact .refused (h.returned hcall)
  | fetched hcall hended hrun =>
      obtain ⟨run', hrun'⟩ := h.runs_some hrun
      exact .fetched (h.returned hcall) (h.stays_ended hinv hended) hrun'
  | ended hcall hended hnotice hqueued hclear =>
      exact ended_step hinv hbounded h hcall hended hnotice hqueued hclear
  | told hcall hended hnotice hroom => exact told_step hinv hbounded h hcall hended hnotice hroom

/-! ## Frames asked for after the end -/

/-- The push in the slot will not succeed when the request has ended: it has not passed the
router, or has been refused. -/
inductive Doomed (router : Sys) (id : RequestId) : PushFuture → Prop where
  | scheduled {index : Int} {line : List UInt8} {isFinal : Bool} :
      Doomed router id (.scheduled index line isFinal)
  | failed : Doomed router id .failed
  | called {c : CallId} {frame : Router.Frame} (hid : frame.requestId = id)
      (hcall : router.calls c = some (.called (.pushFrame frame))) : Doomed router id (.running c)
  | opened {c : CallId} {frame : Router.Frame} (hid : frame.requestId = id)
      (hcall : router.calls c = some (.opened (.pushFrame frame))) : Doomed router id (.running c)
  | refused {c : CallId} {e : RouterError}
      (hcall : router.calls c = some (.done (.error e))) : Doomed router id (.running c)

/-- The driver does not come to ask the engine again. -/
def Spent (router : Sys) (id : RequestId) (push : PushFuture) : Pc → Prop
  | .pulling _ _ => False
  | .awaitingFrame _ _ => Doomed router id push
  | _ => True

/-- A push of a request that has ended is turned away by the router. -/
theorem Doomed.step {router r : Sys} {push : PushFuture} {b : Router.Action}
    {fs : List Router.Event} (hdoomed : Doomed router id push)
    (hended : router.inner.Terminal id) (h : router.Rule b fs r) : Doomed r id push := by
  cases hdoomed with
  | scheduled => exact .scheduled
  | failed => exact .failed
  | refused hcall => exact .refused (h.returned hcall)
  | called hid hcall =>
      rcases h.called hcall with hstays | rfl
      · exact .called hid hstays
      · cases h with
        | opens hcall' _ =>
            cases hcall.symm.trans hcall'
            exact .opened hid Sys.advance_calls_self
        | shut _ _ => exact .refused Sys.advance_calls_self
  | @opened c frame hid hcall =>
      by_cases hcaller : b.caller = some c
      · have hfinds := h.finds hcaller hcall
        cases b with
        | enter d =>
            cases hcaller
            cases h with
            | refuse _ _ => exact .refused Sys.advance_calls_self
            | validate hcall' hvalidate =>
                cases hcall.symm.trans hcall'
                obtain ⟨e, hlive, hentry, -⟩ := Router.Inner.validate_ok hvalidate
                obtain ⟨e', hentry', hterminal⟩ := hended
                rw [← hid] at hentry'
                cases hentry.symm.trans hentry'
                rw [hlive] at hterminal
                cases hterminal
            | register hcall' _ => cases hcall.symm.trans hcall'
            | subscribe hcall' _ => cases hcall.symm.trans hcall'
            | cancel hcall' _ => cases hcall.symm.trans hcall'
        | _ => cases hfinds
      · exact .opened hid ((h.calls_of_ne hcaller).trans hcall)

theorem Spent.router_step {router r : Sys} {push : PushFuture} {pc : Pc} {b : Router.Action}
    {fs : List Router.Event} (hspent : Spent router id push pc)
    (hended : router.inner.Terminal id) (h : router.Rule b fs r) : Spent r id push pc := by
  unfold Spent at hspent ⊢
  split
  · exact hspent
  · exact Doomed.step hspent hended h
  · trivial

/-- The driver of a request that has ended, once it does not come to ask again. -/
theorem Spent.driver_step {job : Job} {d d' : Driver.State} {b : Driver.Action}
    {fs : List Router.Event} (hspent : Spent d.router id d.push d.pc)
    (hown : ownStep b = true ∨ ∃ c, b = .launch c) (h : d.Rule job id b fs d') :
    Spent d'.router id d'.push d'.pc := by
  have hawaits : ∀ {next : Pc}, d.pc.onPushed = some next →
      next = .returned ∨ Doomed d.router id d.push := by
    intro next hpc
    unfold Pc.onPushed at hpc
    split at hpc
    · rename_i rest index heq
      rw [heq] at hspent
      exact Or.inr hspent
    · cases hpc
      exact Or.inl rfl
    · cases hpc
  -- another push in the slot, while the driver stays where it is
  have hreplaced : ∀ {router : Sys} {push : PushFuture}, Doomed router id push →
      Spent router id push d.pc := by
    intro router push hdoomed
    unfold Spent at hspent ⊢
    split
    · rename_i heq
      rw [heq] at hspent
      exact hspent
    · exact hdoomed
    · trivial
  cases h with
  | pop | popMalformed | setStop | env =>
      rcases hown with hown | ⟨c, hlaunch⟩
      · cases hown
      · cases hlaunch
  | pull hpc =>
      rw [hpc] at hspent
      exact hspent.elim
  | pushed hpc hpush hcall =>
      rcases hawaits hpc with rfl | hdoomed
      · trivial
      · rw [hpush] at hdoomed
        cases hdoomed with
        | called _ hcall' => cases hcall.symm.trans hcall'
        | opened _ hcall' => cases hcall.symm.trans hcall'
        | refused hcall' => cases hcall.symm.trans hcall'
  | pushFrame _ _ _ => exact Doomed.scheduled
  | launch _ _ _ => exact hreplaced (.called rfl Sys.advance_calls_self)
  | launchFailed _ _ => exact hreplaced .failed
  | raised | pushMarker | exhausted | stopped | notStopped | seenCancelled | unencodable
  | pushFailed | cancelReturned | timeout | cancel => trivial

/-- The request has ended and the driver does not come to ask for its frames again. -/
def AsksNoMore (s : V2State P) (id : RequestId) : Prop :=
  s.router.inner.Terminal id ∧ ∃ run, s.runs id = some run ∧ Spent s.router id run.push run.pc

theorem AsksNoMore.step (hnomore : s.AsksNoMore id) (hinv : s.Inv log)
    (h : s.Rule parses a es t) : t.AsksNoMore id := by
  obtain ⟨hended, run, hrun, hspent⟩ := hnomore
  refine ⟨h.stays_ended hinv hended, ?_⟩
  rcases h.runs id with ⟨hsame, -⟩ | ⟨job, req, scheduler, -, hpoll, rfl, -⟩ |
    ⟨run', b, fs, d, hrun', hown, hdriver, rfl⟩
  · refine ⟨run, hsame.trans hrun, ?_⟩
    rcases h.router with hrouter | ⟨b, fs, hrouter, -⟩
    · rw [hrouter]
      exact hspent
    · exact hspent.router_step hended hrouter
  · cases (hinv.unfetched_of_queued (poll_queued hpoll).1).symm.trans hrun
  · cases hrun.symm.trans hrun'
    exact ⟨_, withRun_run .., Spent.driver_step hspent hown hdriver⟩

theorem AsksNoMore.asksEngine (hnomore : s.AsksNoMore id) (a : Action P) :
    s.asksEngine id a = false := by
  obtain ⟨-, run, hrun, hspent⟩ := hnomore
  unfold V2State.asksEngine
  split
  · rw [hrun]
    split
    · rename_i k run' hthread hsome
      cases hsome
      have hquiet : asks run.pc = false := by
        unfold Spent at hspent
        unfold asks
        split at hspent
        · exact hspent.elim
        · rename_i heq
          rw [heq]
        · rename_i hother _
          split
          · rename_i rest index heq
            exact absurd heq (hother rest index)
          · rfl
      rw [hquiet, Bool.and_false]
    · rfl
  · rfl

/-- After the driver has asked for a frame of a request that has ended, it does not ask
again. -/
theorem asked_once (hinv : s.Inv log) (hended : s.router.inner.Terminal id)
    (h : s.Rule parses a es t) (hasks : s.asksEngine id a = true) : t.AsksNoMore id := by
  refine ⟨h.stays_ended hinv hended, ?_⟩
  unfold V2State.asksEngine at hasks
  split at hasks
  · split at hasks
    · rename_i k run hthread hrun
      rw [Bool.and_eq_true, decide_eq_true_eq] at hasks
      obtain ⟨rfl, hpulling⟩ := hasks
      cases h with
      | @drive _ run' _ fs d hthread' hrun' _ _ hdriver =>
          cases hthread.symm.trans hthread'
          cases hrun.symm.trans hrun'
          refine ⟨_, withRun_run .., ?_⟩
          unfold asks at hpulling
          split at hpulling
          · rename_i rest index heq
            have hpc : (s.view run).pc = .pulling rest index := heq
            cases hdriver with
            | pull | raised | pushMarker | exhausted => trivial
            | stopped hpc' | notStopped hpc' | seenCancelled hpc' | unencodable hpc'
            | pushFrame hpc' | cancelReturned hpc' => cases hpc.symm.trans hpc'
            | pushed hpc' | pushFailed hpc' =>
                rw [hpc] at hpc'
                cases hpc'
          · cases hpulling
    · cases hasks
  · cases hasks

/-! ## After the cancel -/

/-- The driver has not fetched the request and will not. -/
structure NeverRun (s : V2State P) (id : RequestId) (live : Reference P) : Prop where
  ended : s.router.inner.Terminal id
  unfetched : s.runs id = none
  unlisted : ∀ x ∈ live, routerId x.id ≠ id

theorem NeverRun.step (hnever : s.NeverRun id live) (hinv : s.Inv log)
    (hbounded : s.Bounded live) (h : s.Rule parses a es t) {live' : Reference P}
    (hsubset : ∀ x ∈ live', x ∈ live ∨ ¬ s.Accepted log (routerId x.id)) :
    t.NeverRun id live' where
  ended := h.stays_ended hinv hnever.ended
  unfetched := by
    rcases h.runs id with ⟨hsame, -⟩ | ⟨job, req, scheduler, -, hpoll, hid, -⟩ |
      ⟨run, b, fs, d, hrun, -⟩
    · exact hsame.trans hnever.unfetched
    · have hlive := (poll_represents hbounded.tidy.represents hpoll).1 req rfl
      exact absurd hid (hnever.unlisted req hlive)
    · cases hnever.unfetched.symm.trans hrun
  unlisted := by
    rintro x hx rfl
    rcases hsubset x hx with hold | hfresh
    · exact hnever.unlisted x hold rfl
    · exact hfresh (hinv.accepted_of_terminal hnever.ended)

/-- When the cancel is back the request has ended. -/
theorem CancelAt.returned_ended {c : CallId} (hat : s.CancelAt c id) (hreturns : s.CancelReturns c) :
    s.router.inner.Terminal id := by
  have hcall := hreturns.call
  cases hat with
  | called hcall' => cases hcall.symm.trans hcall'
  | opened hcall' => cases hcall.symm.trans hcall'
  | refused hcall' => cases hcall.symm.trans hcall'
  | fetched _ hended _ => exact hended
  | ended _ hended _ _ _ => exact hended
  | told _ hended _ _ => exact hended

/-- When it is back before the request has been fetched, the slot is free. -/
theorem CancelAt.returned_released {c : CallId} (hat : s.CancelAt c id) (hinv : s.Inv log)
    (hbounded : s.Bounded live) (hreturns : s.CancelReturns c) (hunfetched : s.runs id = none) :
    Released s.scheduler id ∧ s.NeverRun id live := by
  obtain ⟨⟨body, htask⟩, hcall, htold⟩ := hreturns
  have hended := hat.returned_ended ⟨⟨body, htask⟩, hcall, htold⟩
  have hunlisted : ∀ x ∈ live, routerId x.id ≠ id := by
    refine hbounded.tidy.unlisted hinv ?_ hended
    rintro d ⟨body', htask'⟩
    cases htask.symm.trans htask'
    exact htold
  refine ⟨⟨?_, live, hbounded.tidy.represents, hbounded.tidy.represents.len_eq, ?_⟩,
    hended, hunfetched, hunlisted⟩
  · intro req
    obtain ⟨hopen, hless⟩ : s.scheduler.shuttingDown = false ∧
        s.scheduler.len < s.scheduler.capacity := by
      cases hat with
      | called hcall' => cases hcall.symm.trans hcall'
      | opened hcall' => cases hcall.symm.trans hcall'
      | refused hcall' => cases hcall.symm.trans hcall'
      | fetched _ _ hrun => cases hunfetched.symm.trans hrun
      | ended _ _ hnotice _ _ => cases htold.symm.trans hnotice
      | told _ _ _ hroom => exact hroom body htask
    have hfits : ¬ s.scheduler.capacity ≤ s.scheduler.buckets.len := Nat.not_le.mpr hless
    unfold Scheduler.submit
    rw [hopen, if_neg Bool.false_ne_true, if_neg hfits]
  · intro x hx hid
    exact hunlisted x hx (congrArg routerId hid)

end V2State

/-! ## Over both schedulers -/

/-- The states of `M` are seen as states of the application, whose rules its steps follow. -/
def Follows {σ : Type} (parses : P → Bool) (M : Machine σ (Action P) (Event P))
    (sees : σ → V2State P → Prop) : Prop :=
  ∀ s r log a es s', sees s r → r.Inv log → M.step s a = some (es, s') →
    ∃ r', r.Rule parses a es r' ∧ sees s' r'

section Follows

variable {σ : Type} {parses : P → Bool} {M : Machine σ (Action P) (Event P)}
  {sees : σ → V2State P → Prop} {app : σ → V2State P} {released : σ → RequestId → Prop}

/-- What the rules keep, a run of `M` keeps. -/
theorem Follows.run (hfollows : Follows parses M sees) {K : List (Event P) → V2State P → Prop}
    (hkeeps : ∀ {log s a es t}, K log s → s.Inv log → s.Rule parses a es t → K (log ++ es) t)
    {as : List (Action P)} {log es : List (Event P)} {s s' : σ} {r : V2State P}
    (hsees : sees s r) (hinv : r.Inv log) (hr : K log r) (hrun : M.run s as = some (es, s')) :
    ∃ r', sees s' r' ∧ r'.Inv (log ++ es) ∧ K (log ++ es) r' := by
  refine Machine.history_run (C := fun _ _ => True)
    (H := fun log s => ∃ r, sees s r ∧ r.Inv log ∧ K log r) ?_ as log s es s'
    ⟨r, hsees, hinv, hr⟩ (Machine.meets_of_forall fun _ _ _ => trivial) hrun
  rintro log s a es t ⟨r, hsees, hinv, hr⟩ - hstep
  obtain ⟨r', hrule, hsees'⟩ := hfollows s r log a es t hsees hinv hstep
  exact ⟨r', hsees', hinv.step hrule, hkeeps hr hinv hrule⟩

/-- Cancels take effect in every machine that follows the rules of the application. -/
theorem Follows.cancelsTakeEffect (hfollows : Follows parses M sees) {r₀ : V2State P}
    (hinit : sees M.init r₀) (hinv₀ : r₀.Inv []) (hbounded₀ : r₀.Bounded [])
    (hsame : ∀ {s r}, sees s r → ∃ scheduler, r = (app s).withScheduler scheduler)
    (hreleased : ∀ {s r id}, sees s r → Released r.scheduler id → released s id) :
    CancelsTakeEffect M app released := by
  intro c id before log s hbefore hcalled during log' t hduring hreturns
  have hkeeps : ∀ {log : List (Event P)} {r : V2State P} {a es r'},
      (∃ live, r.Bounded live) → r.Inv log → r.Rule parses a es r' →
        ∃ live, r'.Bounded live := by
    rintro log r a es r' ⟨live, hbounded⟩ hinv hrule
    obtain ⟨live', hbounded', -⟩ := hbounded.step hinv hrule
    exact ⟨live', hbounded'⟩
  obtain ⟨r, hsees, hinv, hbounded⟩ := hfollows.run
    (K := fun _ r => ∃ live, r.Bounded live) hkeeps hinit hinv₀ ⟨[], hbounded₀⟩ hbefore
  have hstarts : r.CancelAt c id := by
    obtain ⟨scheduler, rfl⟩ := hsame hsees
    exact .called hcalled
  obtain ⟨r', hsees', hinv', ⟨live', hbounded'⟩, hat⟩ := by
    refine hfollows.run (K := fun _ r => (∃ live, r.Bounded live) ∧ r.CancelAt c id) ?_ hsees hinv
      ⟨hbounded, hstarts⟩ hduring
    rintro log r a es r' ⟨⟨live, hbounded⟩, hat⟩ hinv hrule
    exact ⟨hkeeps ⟨live, hbounded⟩ hinv hrule, hat.step hinv hbounded hrule⟩
  have hback : r'.CancelReturns c := by
    obtain ⟨scheduler, rfl⟩ := hsame hsees'
    exact ⟨hreturns.task, hreturns.call, hreturns.told⟩
  refine ⟨?_, ?_⟩
  · intro hunfetched
    have hunfetched' : r'.runs id = none := by
      obtain ⟨scheduler, rfl⟩ := hsame hsees'
      exact hunfetched
    obtain ⟨hfreed, hnever⟩ := hat.returned_released hinv' hbounded' hback hunfetched'
    refine ⟨hreleased hsees' hfreed, ?_⟩
    intro after log'' u hafter
    obtain ⟨r'', hsees'', -, live'', -, hnever''⟩ := by
      refine hfollows.run (K := fun _ r => ∃ live, r.Bounded live ∧ r.NeverRun id live) ?_
        hsees' hinv' ⟨live', hbounded', hnever⟩ hafter
      rintro log r a es r' ⟨live, hbounded, hnever⟩ hinv hrule
      obtain ⟨live', hbounded', hsubset⟩ := hbounded.step hinv hrule
      exact ⟨live', hbounded', hnever.step hinv hbounded hrule hsubset⟩
    obtain ⟨scheduler, rfl⟩ := hsame hsees''
    exact hnever''.unfetched
  · intro after
    refine Machine.count_le_one (I := fun u => ∃ r log, sees u r ∧ r.Inv log ∧
        r.router.inner.Terminal id) (Q := fun u => ∃ r log, sees u r ∧ r.Inv log ∧
        r.AsksNoMore id) ?_ ?_ after t ⟨r', _, hsees', hinv', hat.returned_ended hback⟩
    · rintro u a es v ⟨r, log, hsees, hinv, hended⟩ hstep
      obtain ⟨r', hrule, hsees'⟩ := hfollows u r log a es v hsees hinv hstep
      have hasks : (app u).asksEngine id a = r.asksEngine id a := by
        obtain ⟨scheduler, rfl⟩ := hsame hsees
        rfl
      rw [hasks]
      cases hask : r.asksEngine id a with
      | false =>
          exact Or.inl ⟨rfl, r', _, hsees', hinv.step hrule, hrule.stays_ended hinv hended⟩
      | true =>
          exact Or.inr ⟨r', _, hsees', hinv.step hrule,
            V2State.asked_once hinv hended hrule hask⟩
    · rintro u a es v ⟨r, log, hsees, hinv, hnomore⟩ hstep
      obtain ⟨r', hrule, hsees'⟩ := hfollows u r log a es v hsees hinv hstep
      have hasks : (app u).asksEngine id a = r.asksEngine id a := by
        obtain ⟨scheduler, rfl⟩ := hsame hsees
        rfl
      refine ⟨?_, r', _, hsees', hinv.step hrule, hnomore.step hinv hrule⟩
      rw [hasks]
      exact hnomore.asksEngine a

end Follows

/-- Both schedulers count the same live requests. -/
theorem PythonV2State.Stands.released {s : PythonV2State P} {r : V2State P} {id : RequestId}
    (hstands : s.Stands r) (h : Released r.scheduler id) : PythonReleased s.scheduler id := by
  obtain ⟨accepted, live, hmatches⟩ := hstands.live
  refine ⟨?_, live, hmatches.holds, hmatches.holds.len_eq, ?_⟩
  · intro req
    rw [← hmatches.submit_answer req]
    exact h.takes req
  · obtain ⟨live', hrepresents, -, hunlisted⟩ := h.uncounted
    intro x hx hid
    have hlive : x ∈ live' := hrepresents.mem_live.mpr (hmatches.buckets.mem_live.mp hx)
    exact hunlisted x hlive hid

/-- A client cancel takes effect through the router, the adapter and the scheduler, with the
Rust scheduler and with the Python one. -/
theorem cancels_take_effect (parses : P → Bool) (depth capacity : Nat) :
    CancelsTakeEffect (machine parses depth capacity) (fun s => s)
      (fun s => Released s.scheduler) ∧
    ∀ hcapacity : 1 ≤ capacity,
      CancelsTakeEffect (pythonMachine parses depth capacity hcapacity) PythonV2State.app
        (fun s => PythonReleased s.scheduler) := by
  have hrust : Follows parses (machine parses depth capacity) (fun s r => r = s) := by
    rintro s r log a es s' rfl - hstep
    exact ⟨s', V2State.step_rule hstep, rfl⟩
  constructor
  · refine hrust.cancelsTakeEffect rfl (.init parses depth capacity) (.init parses depth capacity)
      ?_ ?_
    · rintro s r rfl
      exact ⟨r.scheduler, rfl⟩
    · rintro s r id rfl hreleased
      exact hreleased
  · intro hcapacity
    have hpython : Follows parses (pythonMachine parses depth capacity hcapacity)
        PythonV2State.Stands := fun _ _ _ _ _ _ hstands hinv hstep => hstands.step hinv hstep
    refine hpython.cancelsTakeEffect (.init parses depth capacity hcapacity)
      (.init parses depth capacity) (.init parses depth capacity) ?_ ?_
    · intro s r hstands
      exact ⟨r.scheduler, hstands.app⟩
    · intro s r id hstands hreleased
      exact hstands.released hreleased

/-- The router's cancel runs, and tells the scheduler. -/
def cancelBack (c : CallId) : List (Action Nat) :=
  [.call (.ensureOpen c), .call (.enter c), .notify c]

/-- The driver fetches the request, the engine is to yield two frames for it, and the first
is pushed. -/
def firstPushed : List (Action Nat) :=
  [.checkStop, .fetch ⟨true, 2, [⟨0, 2, some [1]⟩, ⟨1, 2, some [2]⟩], false, []⟩,
    .drive .advance, .drive .advance, .drive .advance, .launch ⟨"a"⟩ 2, .call (.ensureOpen 2),
    .call (.enter 2), .call (.send 2), .drive .advance]

/-- The driver goes on: it asks for the second frame, and finds the request cancelled. -/
def driverGoesOn : List (Action Nat) :=
  [.cancelReturned, .drive .advance, .drive .advance, .drive .advance]

/-- A queue of one takes the next request as soon as the cancel of a queued one is back, and
the driver does not run the cancelled one, whichever scheduler it is.  Of a request in
flight the driver asks for one more frame, and no more. -/
theorem cancelQueued_takes_effect :
    (∃ log s log' t,
      (machine (fun _ : Nat => true) 4 1).run (machine (fun _ : Nat => true) 4 1).init
        (startedResponse ++ [.cancel 2 ⟨"a"⟩]) = some (log, s) ∧
      (machine (fun _ : Nat => true) 4 1).run s (cancelBack 2) = some (log', t) ∧
      Released t.scheduler ⟨"a"⟩) ∧
    (∃ log s log' t,
      (pythonMachine (fun _ : Nat => true) 4 1 (by decide)).run
        (pythonMachine (fun _ : Nat => true) 4 1 (by decide)).init
          (startedResponse ++ [.cancel 2 ⟨"a"⟩]) = some (log, s) ∧
      (pythonMachine (fun _ : Nat => true) 4 1 (by decide)).run s (cancelBack 2) =
        some (log', t) ∧
      PythonReleased t.scheduler ⟨"a"⟩) ∧
    ∃ log s log' t,
      (machine (fun _ : Nat => true) 4 1).run (machine (fun _ : Nat => true) 4 1).init
        (startedResponse ++ firstPushed ++ [.cancel 3 ⟨"a"⟩]) = some (log, s) ∧
      (machine (fun _ : Nat => true) 4 1).run s (cancelBack 3) = some (log', t) ∧
      ((machine (fun _ : Nat => true) 4 1).run t driverGoesOn).isSome = true ∧
      (machine (fun _ : Nat => true) 4 1).count (fun u => u.asksEngine ⟨"a"⟩) t driverGoesOn = 1 ∧
      ∀ after, (machine (fun _ : Nat => true) 4 1).count (fun u => u.asksEngine ⟨"a"⟩) t
        after ≤ 1 := by
  obtain ⟨hrust, hpython⟩ := cancels_take_effect (fun _ : Nat => true) 4 1
  refine ⟨⟨_, _, _, _, rfl, rfl, ?_⟩, ⟨_, _, _, _, rfl, rfl, ?_⟩,
    ⟨_, _, _, _, rfl, rfl, rfl, rfl, ?_⟩⟩
  · exact ((hrust 2 ⟨"a"⟩ (startedResponse ++ [.cancel 2 ⟨"a"⟩]) _ _ rfl rfl (cancelBack 2) _ _
      rfl ⟨⟨none, rfl⟩, rfl, rfl⟩).1 rfl).1
  · exact ((hpython (by decide) 2 ⟨"a"⟩ (startedResponse ++ [.cancel 2 ⟨"a"⟩]) _ _ rfl rfl
      (cancelBack 2) _ _ rfl ⟨⟨none, rfl⟩, rfl, rfl⟩).1 rfl).1
  · exact (hrust 3 ⟨"a"⟩ (startedResponse ++ firstPushed ++ [.cancel 3 ⟨"a"⟩]) _ _ rfl rfl
      (cancelBack 3) _ _ rfl ⟨⟨none, rfl⟩, rfl, rfl⟩).2

end Repercep.Serving.V2
