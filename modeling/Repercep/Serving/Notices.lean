import Repercep.Serving.Admission
import Repercep.Scheduling.Refinement
set_option autoImplicit false

/-!
# The v2 path: cancels reach the scheduler

A cancel ends the request in the router first and tells the scheduler afterwards.  The
scheduler's queues are read as the reference queue of live items: an item of a request
that has ended is there only while the notice is due.  So once the event loop's cancel
has returned, its request is not handed to the driver any more.
-/

namespace Repercep.Serving.V2

open Repercep.Foundation
open Repercep.Router (Sys RequestId RouterRequest RouterError CallId ChanId Entry)
open Repercep.Scheduling (Scheduler ScheduledRequest Reference)

variable {P : Type}

namespace V2State

/-- The live items of the scheduler, and what holds of them and of the notices. -/
structure Tidy (s : V2State P) (live : Reference P) : Prop where
  represents : s.scheduler.buckets.Represents live
  draining : s.scheduler.shuttingDown = true →
    s.task = .joining ∨ s.router.inner.shuttingDown = true
  opened : ∀ c body k, s.task = .cancelling c body →
    s.router.calls c = some (.opened (.cancel k)) → s.router.inner.shuttingDown = false
  returned : ∀ c id, s.notices c = some id →
    ∃ result, s.router.calls c = some (.done result)
  pending : ∀ c id, s.notices c = some id →
    (∃ body, s.task = .cancelling c body ∧ s.router.inner.shuttingDown = false) ∨
      ∃ run, s.runs id = some run
  listed : ∀ x ∈ live, s.router.inner.Terminal (routerId x.id) →
    ∃ c, s.notices c = some (routerId x.id)

variable {parses : P → Bool} {s t : V2State P} {a : Action P} {es log : List (Event P)}
  {id : RequestId} {live : Reference P}

/-! ## Live items -/

theorem nextFrom_subset (ps : List Scheduling.Priority) (live : Reference P) :
    (∀ x, (live.nextFrom ps).1 = some x → x ∈ live) ∧
      ∀ x ∈ (live.nextFrom ps).2, x ∈ live := by
  induction ps with
  | nil => exact ⟨by rintro x ⟨⟩, fun x hx => hx⟩
  | cons p ps ih =>
      unfold Reference.nextFrom
      cases hfind : List.find? (fun x => decide (x.priority = p)) live with
      | none => exact ih
      | some item =>
          refine ⟨?_, fun x hx => List.mem_of_mem_eraseP hx⟩
          rintro x ⟨⟩
          exact List.mem_of_find?_eq_some hfind

/-- What an attempt of `next` returns is live, and what it leaves was. -/
theorem poll_represents {scheduler scheduler' : Scheduler P} {result : Scheduling.Poll P}
    (hrepresents : scheduler.buckets.Represents live)
    (hpoll : scheduler.poll = (result, scheduler')) :
    (∀ x, result = .item x → x ∈ live) ∧
      ∃ live', scheduler'.buckets.Represents live' ∧ ∀ x ∈ live', x ∈ live := by
  obtain ⟨hitem, hrest⟩ := hrepresents.popNextFrom [.high, .normal, .low]
  obtain ⟨hfirst, hothers⟩ := nextFrom_subset [.high, .normal, .low] live
  unfold Scheduler.poll Scheduling.Buckets.popNext at hpoll
  rcases hpop : scheduler.buckets.popNextFrom [.high, .normal, .low] with ⟨out, b⟩
  rw [hpop] at hpoll hitem hrest
  refine ⟨?_, _, ?_, hothers⟩
  · rintro x rfl
    cases out with
    | none =>
        have hresult := congrArg Prod.fst hpoll
        dsimp only at hresult
        split at hresult
        · cases hresult
        · cases hresult
    | some item =>
        cases hpoll
        exact hfirst x hitem.symm
  · cases out with
    | none =>
        cases hpoll
        exact hrest
    | some item =>
        cases hpoll
        exact hrest

theorem mem_items_of_queue {b : Scheduling.Buckets P} {p : Scheduling.Priority}
    {x : ScheduledRequest P} (hx : x ∈ b.queue p) : x ∈ b.items := by
  unfold Scheduling.Buckets.items
  cases p with
  | high => exact Multiset.mem_add.mpr (Or.inl (Multiset.mem_add.mpr (Or.inl hx)))
  | normal => exact Multiset.mem_add.mpr (Or.inl (Multiset.mem_add.mpr (Or.inr hx)))
  | low => exact Multiset.mem_add.mpr (Or.inr hx)

theorem queued_of_live (hrepresents : s.scheduler.buckets.Represents live)
    {x : ScheduledRequest P} (hx : x ∈ live) : s.Queued (routerId x.id) :=
  ⟨x, mem_items_of_queue (hrepresents.mem_live.mp hx).1, rfl⟩

theorem unknown_of_not_queued (hrepresents : s.scheduler.buckets.Represents live)
    (hunqueued : ¬ s.Queued id) : schedulerId id ∉ s.scheduler.buckets.known := by
  intro hknown
  obtain ⟨p, x, hx, hid⟩ := (hrepresents.slots _).mp hknown
  exact hunqueued ⟨x, mem_items_of_queue hx, hid⟩

/-- A step leaves the live items, takes the one of a cancelled request off them, or adds
that of the handler. -/
theorem Rule.represents (h : s.Rule parses a es t) (hinv : s.Inv log)
    (hrepresents : s.scheduler.buckets.Represents live) :
    ∃ live', t.scheduler.buckets.Represents live' ∧
      (∀ x ∈ live', x ∈ live ∨ (¬ s.Accepted log (routerId x.id) ∧
        ¬ t.router.inner.Terminal (routerId x.id))) ∧
      ∀ c k, a = .notify c → s.notices c = some k → s.scheduler.shuttingDown = false →
        ∀ x ∈ live', routerId x.id ≠ k := by
  have hold : ∀ {scheduler : Scheduler P}, scheduler = s.scheduler →
      scheduler.buckets.Represents live := by
    rintro scheduler rfl
    exact hrepresents
  cases h with
  | @submit hd c d payload fs r scheduler htask hpc hsubmit hrouter =>
      have hadmits := (hinv.handler hd htask).2
      unfold Admits at hadmits
      rw [hpc] at hadmits
      have hunknown := unknown_of_not_queued hrepresents hadmits.registered.unqueued
      refine ⟨live ++ [⟨schedulerId hd.req.id, schedulerPriority hd.req.priority, 0, payload⟩],
        ?_, ?_, by simp⟩
      · have hpush : (s.scheduler.buckets.push ⟨schedulerId hd.req.id,
            schedulerPriority hd.req.priority, 0, payload⟩).Represents _ := hrepresents.push hunknown
        unfold Scheduler.submit at hsubmit
        split at hsubmit
        · cases hsubmit
        · split at hsubmit
          · cases hsubmit
          · cases hsubmit
            exact hpush
      · intro x hx
        rcases List.mem_append.mp hx with hx | hx
        · exact Or.inl hx
        · cases List.mem_singleton.mp hx
          refine Or.inr ⟨fun haccepted => haccepted.not_registered hadmits.registered, ?_⟩
          obtain ⟨e, hentry, hlive, -⟩ := hadmits.registered.entry
          rintro ⟨e', hentry', hended⟩
          cases hrouter with
          | submitted _ =>
              cases hentry.symm.trans hentry'
              rw [hlive] at hended
              cases hended
  | @notify c k hnotice =>
      change ∃ live', (s.scheduler.cancel (schedulerId k)).2.buckets.Represents live' ∧ _
      unfold Scheduler.cancel
      cases hshut : s.scheduler.shuttingDown with
      | true => exact ⟨live, hrepresents, fun x hx => Or.inl hx, by simp⟩
      | false =>
          rw [if_neg Bool.false_ne_true]
          have hcancelled : ∀ x ∈ live.cancel (schedulerId k), routerId x.id ≠ k := by
            rintro x hx rfl
            have hne : x.id ≠ schedulerId (routerId x.id) := by
              simpa using List.of_mem_filter hx
            exact hne rfl
          refine ⟨live.cancel (schedulerId k), ?_, fun x hx => Or.inl (List.mem_of_mem_filter hx),
            ?_⟩
          · split
            · rename_i hknown
              exact hrepresents.mark hknown
            · rename_i hunknown
              rw [hrepresents.cancel_unknown hunknown]
              exact hrepresents
          · rintro c' k' ⟨⟩ hnotice' -
            cases hnotice.symm.trans hnotice'
            exact hcancelled
  | fetched _ hpoll | drained _ hpoll | waiting _ hpoll =>
      obtain ⟨-, live', hrepresents', hsubset⟩ := poll_represents hrepresents hpoll
      exact ⟨live', hrepresents', fun x hx => Or.inl (hsubset x hx), by simp⟩
  | shutdownScheduler _ =>
      exact ⟨live, hrepresents, fun x hx => Or.inl hx, by simp⟩
  | _ => exact ⟨live, hrepresents, fun x hx => Or.inl hx, by simp⟩

/-! ## Requests that end -/

/-- A request ends by a cancel, which then has the scheduler told, or in its run. -/
theorem Inv.ends (hinv : s.Inv log) (h : s.Rule parses a es t)
    (hended : t.router.inner.Terminal id) : s.router.inner.Terminal id ∨
      (∃ c, t.notices c = some id) ∨ ∃ run, s.runs id = some run := by
  rcases h.router with hsame | ⟨b, fs, hrouter, hmoves⟩
  · rw [hsame] at hended
    exact Or.inl hended
  · rcases hrouter.ends hended with hold | ⟨c, r, rfl, hcall, hcancel⟩ | ⟨c, frame, ch, hcall, rfl⟩
    · exact Or.inl hold
    · rcases hinv.owned c (.cancel id) ⟨_, hcall, rfl⟩ with ⟨body, hcancelling⟩ | hrun
      · rcases hmoves.sections c rfl with rfl | ⟨d, rfl⟩ | ⟨op, hop⟩
        · refine Or.inr (Or.inl ⟨c, ?_⟩)
          cases h with
          | call _ _ =>
              change s.noticesAfter (.enter c) c = some id
              simp [noticesAfter, hcall, hcancel]
        · obtain ⟨hd, htask⟩ := h.handling
          cases hcancelling.symm.trans htask
        · cases hop
      · exact Or.inr (Or.inr hrun)
    · exact Or.inr (Or.inr (hinv.owned c (.pushFrame frame) ⟨_, hcall, rfl⟩))

/-! ## Every step keeps the queues tidy -/

theorem Rule.stays_shut (h : s.Rule parses a es t)
    (hshut : s.router.inner.shuttingDown = true) : t.router.inner.shuttingDown = true := by
  rcases h.router with hsame | ⟨b, fs, hrouter, -⟩
  · rwa [hsame]
  · by_cases hb : b = .shutdown
    · subst hb
      generalize t.router = r at hrouter
      cases hrouter with
      | shutdown => rfl
    · rwa [hrouter.shuttingDown hb]

/-- The scheduler is shut down by `driver.stop`. -/
theorem Rule.drains (h : s.Rule parses a es t) (hshut : t.scheduler.shuttingDown = true) :
    s.scheduler.shuttingDown = true ∨ t.task = .joining := by
  have hpolled : ∀ {result scheduler}, s.scheduler.poll = (result, scheduler) →
      scheduler.shuttingDown = s.scheduler.shuttingDown := by
    intro result scheduler hpoll
    unfold Scheduler.poll at hpoll
    split at hpoll
    · cases hpoll
      rfl
    · cases hpoll
      rfl
  cases h with
  | @submit hd c d payload fs r scheduler _ _ hsubmit _ =>
      change scheduler.shuttingDown = true at hshut
      unfold Scheduler.submit at hsubmit
      split at hsubmit
      · cases hsubmit
      · split at hsubmit
        · cases hsubmit
        · cases hsubmit
          exact Or.inl hshut
  | @notify c k _ =>
      change (s.scheduler.cancel (schedulerId k)).2.shuttingDown = true at hshut
      unfold Scheduler.cancel at hshut
      split at hshut
      · rename_i hold
        exact Or.inl hold
      · split at hshut
        · exact Or.inl hshut
        · exact Or.inl hshut
  | fetched _ hpoll => exact Or.inl ((hpolled hpoll).symm.trans hshut)
  | drained _ hpoll => exact Or.inl ((hpolled hpoll).symm.trans hshut)
  | waiting _ hpoll => exact Or.inl ((hpolled hpoll).symm.trans hshut)
  | shutdownScheduler _ => exact Or.inr rfl
  | _ => exact Or.inl hshut

/-- `driver.stop` is followed by `router.shutdown`. -/
theorem Rule.joining (h : s.Rule parses a es t) (htask : s.task = .joining) :
    t.task = .joining ∨ t.router.inner.shuttingDown = true := by
  cases h with
  | shutdownRouter _ hrouter =>
      cases hrouter with
      | shutdown => exact Or.inr rfl
  | call | notify | resume | delivered | ended | abandoned | dropStream | checkStop | fetched
  | drained | waiting | fetchTimeout | drive | launch | finish => exact Or.inl htask
  | arrive hbusy | cancel hbusy | cancelReturned hbusy | unwound hbusy | caught hbusy
  | unwind hbusy | stop hbusy | shutdownScheduler hbusy | stage hbusy | accept hbusy
  | unparsable hbusy | popStaged hbusy | acceptReturned hbusy | acceptRaised hbusy
  | submit hbusy | submitRefused hbusy | refuse hbusy | subscribe hbusy | subscribed hbusy
  | unsubscribed hbusy | subscribeRaised hbusy => cases hbusy.symm.trans htask

/-- A cancel of the event loop begins with its call. -/
theorem Rule.cancels (h : s.Rule parses a es t) {c : CallId} {body : Option RequestId}
    (htask : t.task = .cancelling c body) : s.task = .cancelling c body ∨
      ∃ k, t.router.calls c = some (.called (.cancel k)) ∧
        ∀ id, body = some id → k = id ∧ s.task = .unwinding id := by
  cases h with
  | cancel _ hrouter =>
      cases htask
      cases hrouter with
      | invoke _ => exact Or.inr ⟨_, Sys.advance_calls_self, by rintro id ⟨⟩⟩
  | unwind hunwinding hrouter =>
      cases htask
      cases hrouter with
      | invoke _ =>
          refine Or.inr ⟨_, Sys.advance_calls_self, ?_⟩
          rintro id ⟨⟩
          exact ⟨rfl, hunwinding⟩
  | call | notify | resume | delivered | ended | abandoned | dropStream | checkStop | fetched
  | drained | waiting | fetchTimeout | drive | launch | finish | unsubscribed => exact Or.inl htask
  | _ => cases htask

theorem Rule.notices_kept (h : s.Rule parses a es t) {c : CallId}
    (hnotice : s.notices c = some id) (hquiet : ∀ k, s.router.calls c ≠ some (.opened (.cancel k))) :
    t.notices c = some id ∨ a = .notify c := by
  cases h with
  | @notify d k _ =>
      by_cases hc : c = d
      · subst hc
        exact Or.inr rfl
      · exact Or.inl ((Function.update_of_ne hc ..).trans hnotice)
  | @call b fs r _ _ =>
      change s.noticesAfter b c = some id ∨ _
      rcases noticesAfter_cases s b with hsame | ⟨d, k, inner, -, hcall, -, hupdate⟩
      · rw [hsame]
        exact Or.inl hnotice
      · rw [hupdate]
        by_cases hc : c = d
        · subst hc
          exact absurd hcall (hquiet k)
        · exact Or.inl ((Function.update_of_ne hc ..).trans hnotice)
  | _ => exact Or.inl hnotice

/-- The section that gives rise to a notice is the last of its call. -/
theorem Rule.cancel_returned (h : s.Rule parses a es t) {c : CallId}
    (hnotice : t.notices c = some id) (hcall : s.router.calls c = some (.opened (.cancel id)))
    (hquiet : s.notices c = none) : ∃ result, t.router.calls c = some (.done result) := by
  cases h with
  | @call b fs r _ hrouter =>
      change s.noticesAfter b c = some id at hnotice
      rcases noticesAfter_cases s b with hsame | ⟨d, k, inner, rfl, hcall', hcancel, hupdate⟩
      · rw [hsame, hquiet] at hnotice
        cases hnotice
      · by_cases hc : c = d
        · subst hc
          cases hrouter with
          | cancel _ _ => exact ⟨_, Sys.advance_calls_self⟩
          | refuse _ _ => exact ⟨_, Sys.advance_calls_self⟩
          | register hcall'' _ => cases hcall.symm.trans hcall''
          | validate hcall'' _ => cases hcall.symm.trans hcall''
          | subscribe hcall'' _ => cases hcall.symm.trans hcall''
        · rw [hupdate, Function.update_of_ne hc, hquiet] at hnotice
          cases hnotice
  | @notify d k _ =>
      have hnotice' : Function.update s.notices d none c = some id := hnotice
      by_cases hc : c = d
      · subst hc
        rw [Function.update_self] at hnotice'
        cases hnotice'
      · rw [Function.update_of_ne hc, hquiet] at hnotice'
        cases hnotice'
  | _ => cases hquiet.symm.trans hnotice

theorem Tidy.init (parses : P → Bool) (depth capacity : Nat) :
    (machine parses depth capacity).init.Tidy [] where
  represents := Scheduling.Buckets.Represents.empty
  draining := by rintro ⟨⟩
  opened := by rintro c body k ⟨⟩
  returned := by rintro c id ⟨⟩
  pending := by rintro c id ⟨⟩
  listed := by simp

/-- A live item of a request that has ended is there while the notice is due. -/
theorem Tidy.listed_step (htidy : s.Tidy live) (hinv : s.Inv log) (h : s.Rule parses a es t)
    {x : ScheduledRequest P} (hx : x ∈ live) (hended : t.router.inner.Terminal (routerId x.id)) :
    (∃ c, t.notices c = some (routerId x.id)) ∨
      ∃ c, a = .notify c ∧ s.notices c = some (routerId x.id) := by
  have hunfetched := hinv.unfetched_of_queued (queued_of_live htidy.represents hx)
  rcases hinv.ends h hended with hold | hnotice | ⟨run, hrun⟩
  · obtain ⟨c, hnotice⟩ := htidy.listed x hx hold
    obtain ⟨result, hcall⟩ := htidy.returned c _ hnotice
    have hquiet : ∀ k, s.router.calls c ≠ some (.opened (.cancel k)) := by
      intro k hcall'
      cases hcall.symm.trans hcall'
    rcases h.notices_kept hnotice hquiet with hkept | rfl
    · exact Or.inl ⟨c, hkept⟩
    · exact Or.inr ⟨c, rfl, hnotice⟩
  · exact Or.inl hnotice
  · cases hunfetched.symm.trans hrun

/-- While a notice of a queued request is due, the scheduler has not been shut down. -/
theorem Tidy.running (htidy : s.Tidy live) (hinv : s.Inv log) {c : CallId}
    (hnotice : s.notices c = some id) (hqueued : s.Queued id) :
    s.scheduler.shuttingDown = false := by
  rw [← Bool.not_eq_true]
  intro hshut
  rcases htidy.pending c id hnotice with ⟨body, hcancelling, hopen⟩ | ⟨run, hrun⟩
  · rcases htidy.draining hshut with hjoining | hclosed
    · cases hjoining.symm.trans hcancelling
    · rw [hopen] at hclosed
      cases hclosed
  · cases (hinv.unfetched_of_queued hqueued).symm.trans hrun

/-- Every step keeps the queues tidy; no request that was accepted before comes to be
live. -/
theorem Tidy.step (htidy : s.Tidy live) (hinv : s.Inv log) (h : s.Rule parses a es t) :
    ∃ live', t.Tidy live' ∧
      ∀ x ∈ live', x ∈ live ∨ ¬ s.Accepted log (routerId x.id) := by
  obtain ⟨live', hrepresents, hsubset, htold⟩ := h.represents hinv htidy.represents
  refine ⟨live', ⟨hrepresents, ?_, ?_, ?_, ?_, ?_⟩, ?_⟩
  · intro hshut
    rcases h.drains hshut with hold | hjoining
    · rcases htidy.draining hold with hjoining | hclosed
      · exact h.joining hjoining
      · exact Or.inr (h.stays_shut hclosed)
    · exact Or.inl hjoining
  · intro c body k htask hcall
    rcases h.cancels htask with hold | ⟨k', hcall', -⟩
    · have hopen : s.router.calls c = some (.opened (.cancel k)) ∨
          t.router.inner.shuttingDown = false := by
        rcases h.router with hsame | ⟨b, fs, hrouter, -⟩
        · rw [hsame] at hcall
          exact Or.inl hcall
        · exact hrouter.opened hcall
      rcases hopen with hcall | hopen
      · rw [h.shuttingDown (by simp [hold])]
        exact htidy.opened c body k hold hcall
      · exact hopen
    · cases hcall'.symm.trans hcall
  · intro c id hnotice
    rcases h.noticed hnotice with hold | ⟨hcall, -, -⟩
    · obtain ⟨result, hcall⟩ := htidy.returned c id hold
      rcases h.router with hsame | ⟨b, fs, hrouter, -⟩
      · exact ⟨result, by rw [hsame]; exact hcall⟩
      · exact ⟨result, hrouter.returned hcall⟩
    · refine h.cancel_returned hnotice hcall ?_
      rw [← Option.not_isSome_iff_eq_none]
      intro hdue
      obtain ⟨k, hold⟩ := Option.isSome_iff_exists.mp hdue
      obtain ⟨result, hcall'⟩ := htidy.returned c k hold
      cases hcall.symm.trans hcall'
  · intro c id hnotice
    have hstays : ∀ {body}, s.task = .cancelling c body → s.router.inner.shuttingDown = false →
        (s.notices c = none → False) →
        ∃ body, t.task = .cancelling c body ∧ t.router.inner.shuttingDown = false := by
      intro body hcancelling hopen hdue
      rcases h.cancelling hcancelling with hsame | ⟨-, hnone, -⟩
      · exact ⟨body, hsame, by rw [h.shuttingDown (by simp [hcancelling])]; exact hopen⟩
      · exact (hdue hnone).elim
    rcases h.noticed hnotice with hold | ⟨hcall, -, -⟩
    · rcases htidy.pending c id hold with ⟨body, hcancelling, hopen⟩ | ⟨run, hrun⟩
      · exact Or.inl (hstays hcancelling hopen (by simp [hold]))
      · exact Or.inr (h.runs_some hrun)
    · rcases hinv.owned c (.cancel id) ⟨_, hcall, rfl⟩ with ⟨body, hcancelling⟩ | ⟨run, hrun⟩
      · left
        rcases h.cancelling hcancelling with hsame | ⟨-, -, result, hcall'⟩
        · refine ⟨body, hsame, ?_⟩
          rw [h.shuttingDown (by simp [hcancelling])]
          exact htidy.opened c body id hcancelling hcall
        · cases hcall.symm.trans hcall'
      · exact Or.inr (h.runs_some hrun)
  · intro x hx hended
    rcases hsubset x hx with hold | ⟨-, hlive⟩
    · rcases htidy.listed_step hinv h hold hended with hnotice | ⟨c, rfl, hnotice⟩
      · exact hnotice
      · have hqueued := queued_of_live htidy.represents hold
        exact absurd rfl (htold c _ rfl hnotice (htidy.running hinv hnotice hqueued) x hx)
    · exact absurd hended hlive
  · intro x hx
    rcases hsubset x hx with hold | ⟨hfresh, -⟩
    · exact Or.inl hold
    · exact Or.inr hfresh

/-- Once the event loop has nothing more to tell, a request that has ended is not live. -/
theorem Tidy.unlisted (htidy : s.Tidy live) (hinv : s.Inv log)
    (htold : ∀ c, (∃ body, s.task = .cancelling c body) → s.notices c = none)
    (hended : s.router.inner.Terminal id) : ∀ x ∈ live, routerId x.id ≠ id := by
  rintro x hx rfl
  obtain ⟨c, hnotice⟩ := htidy.listed x hx hended
  rcases htidy.pending c _ hnotice with ⟨body, hcancelling, -⟩ | ⟨run, hrun⟩
  · cases (htold c ⟨body, hcancelling⟩).symm.trans hnotice
  · cases (hinv.unfetched_of_queued (queued_of_live htidy.represents hx)).symm.trans hrun

end V2State

end Repercep.Serving.V2
