import Repercep.Serving.Stages
set_option autoImplicit false

/-!
# The v2 path: the invariant over runs

Every step keeps the invariant: the handler's request goes from one stage to the next,
and every other request stays in its phase, whatever the threads do.
-/

namespace Repercep.Serving.V2

open Repercep.Foundation
open Repercep.Router (Sys RequestId RouterRequest RouterError CallId ChanId Entry)

variable {P : Type}

namespace V2State

variable {parses : P → Bool} {s t : V2State P} {a : Action P} {es log : List (Event P)}
  {id : RequestId}

/-! ## Every step keeps the invariant -/

theorem Rule.handling {c : CallId} (h : s.Rule parses (.handle c) es t) :
    ∃ hd, s.task = .handler hd := by
  cases h with
  | stage htask _ => exact ⟨_, htask⟩
  | accept htask _ _ => exact ⟨_, htask⟩
  | unparsable htask _ => exact ⟨_, htask⟩
  | popStaged htask _ _ => exact ⟨_, htask⟩
  | acceptReturned htask _ _ => exact ⟨_, htask⟩
  | acceptRaised htask _ _ => exact ⟨_, htask⟩
  | submit htask _ _ _ => exact ⟨_, htask⟩
  | submitRefused htask _ _ => exact ⟨_, htask⟩
  | refuse htask _ => exact ⟨_, htask⟩
  | subscribe htask _ _ => exact ⟨_, htask⟩
  | subscribed htask _ _ _ _ => exact ⟨_, htask⟩
  | unsubscribed htask _ _ _ _ => exact ⟨_, htask⟩
  | subscribeRaised htask _ _ => exact ⟨_, htask⟩

/-- An answer is one of the handler. -/
theorem Rule.responded (h : s.Rule parses a es t) {status : Nat}
    (hevent : .responded id status ∈ es) : ∃ d hd, a = .handle d ∧ s.task = .handler hd := by
  cases h with
  | refuse htask _ => exact ⟨_, _, rfl, htask⟩
  | subscribed htask _ _ _ _ => exact ⟨_, _, rfl, htask⟩
  | subscribeRaised htask _ _ => exact ⟨_, _, rfl, htask⟩
  | call _ _ => simp at hevent
  | drive _ _ _ _ _ => simp at hevent
  | launch _ _ _ => simp at hevent
  | _ => simp at hevent

/-- A notice is due once a cancel has passed its section. -/
theorem noticesAfter_cases (s : V2State P) (b : Router.Action) :
    s.noticesAfter b = s.notices ∨ ∃ c k inner, b = .enter c ∧
      s.router.calls c = some (.opened (.cancel k)) ∧
      s.router.inner.cancelEntry k = (.ok (), inner) ∧
      s.noticesAfter b = Function.update s.notices c (some k) := by
  unfold noticesAfter
  split
  · rename_i c
    split
    · rename_i k hcall
      rcases hcancel : s.router.inner.cancelEntry k with ⟨err | u, inner⟩
      · exact Or.inl rfl
      · exact Or.inr ⟨c, k, inner, rfl, hcall, hcancel, rfl⟩
    · exact Or.inl rfl
  · exact Or.inl rfl

/-- A cancel has the scheduler told when it has ended its request. -/
theorem Rule.noticed (h : s.Rule parses a es t) {c : CallId} (hnotice : t.notices c = some id) :
    s.notices c = some id ∨ (s.router.calls c = some (.opened (.cancel id)) ∧
      (∃ e, s.router.inner.requests id = some e) ∧ t.router.inner.Terminal id) := by
  cases h with
  | @notify d k _ =>
      have hnotice' : Function.update s.notices d none c = some id := hnotice
      by_cases hc : c = d
      · subst hc
        rw [Function.update_self] at hnotice'
        cases hnotice'
      · rw [Function.update_of_ne hc] at hnotice'
        exact Or.inl hnotice'
  | @call b fs r halone hrouter =>
      have hnotice' : s.noticesAfter b c = some id := hnotice
      rcases noticesAfter_cases s b with hsame | ⟨d, k, inner, rfl, hcall, hcancel, hupdate⟩
      · rw [hsame] at hnotice'
        exact Or.inl hnotice'
      · rw [hupdate] at hnotice'
        by_cases hc : c ≠ d
        · rw [Function.update_of_ne hc] at hnotice'
          exact Or.inl hnotice'
        rw [not_not] at hc
        subst hc
        rw [Function.update_self] at hnotice'
        cases hnotice'
        obtain ⟨e, hentry, -, -⟩ := Router.Inner.cancelEntry_ok hcancel
        refine Or.inr ⟨hcall, ⟨e, hentry⟩, ?_⟩
        cases hrouter with
        | cancel hcall' hcancel' =>
            cases hcall.symm.trans hcall'
            exact Router.Inner.terminal_cancelEntry hcancel'
        | refuse hcall' hrefuse =>
            cases hcall.symm.trans hcall'
            exact ⟨e, hentry, hrefuse id rfl e hentry⟩
        | register hcall' _ => cases hcall.symm.trans hcall'
        | validate hcall' _ => cases hcall.symm.trans hcall'
        | subscribe hcall' _ => cases hcall.symm.trans hcall'
  | _ => exact Or.inl hnotice

/-- A `body_iter` is created when its request has been subscribed. -/
theorem Rule.responding (h : s.Rule parses a es t) {body : Body}
    (hbody : t.bodies id = some body) : (∃ body', s.bodies id = some body') ∨
      ∃ hd d c, s.task = .handler hd ∧ hd.req.id = id ∧ a = .handle d ∧
        hd.pc = .subscribing c := by
  have hset : ∀ {k : RequestId} {b b' : Body}, s.bodies k = some b →
      Function.update s.bodies k (some b') id = some body →
      ∃ body', s.bodies id = some body' := by
    intro k b b' hold hnew
    by_cases hid : id = k
    · subst hid
      exact ⟨b, hold⟩
    · rw [Function.update_of_ne hid] at hnew
      exact ⟨body, hnew⟩
  cases h with
  | @subscribed hd d c k stream inner fs r htask hpc hcall htake hrouter =>
      by_cases hid : id = hd.req.id
      · exact Or.inr ⟨hd, d, c, htask, hid.symm, rfl, hpc⟩
      · have hbody' : Function.update s.bodies hd.req.id
            (some ⟨stream, false, .unstarted⟩) id = some body := hbody
        rw [Function.update_of_ne hid] at hbody'
        exact Or.inl ⟨body, hbody'⟩
  | unwound _ _ _ hold => exact Or.inl (hset hold hbody)
  | resume _ hold _ => exact Or.inl (hset hold hbody)
  | delivered _ hold _ _ => exact Or.inl (hset hold hbody)
  | ended _ hold _ _ => exact Or.inl (hset hold hbody)
  | abandoned _ hold _ => exact Or.inl (hset hold hbody)
  | caught _ hold _ _ => exact Or.inl (hset hold hbody)
  | _ => exact Or.inl ⟨body, hbody⟩

/-- The driver thread runs what it has fetched. -/
theorem Rule.running (h : s.Rule parses a es t) (hthread : t.thread = .running id) :
    s.thread = .running id ∨ ∃ run, t.runs id = some run := by
  cases h with
  | checkStop hpolling =>
      have hthread' : (if s.stop then Thread.exited else Thread.fetching) = .running id := hthread
      split at hthread'
      · cases hthread'
      · cases hthread'
  | fetched _ _ =>
      cases hthread
      exact Or.inr ⟨_, Function.update_self ..⟩
  | drained _ _ => cases hthread
  | fetchTimeout _ => cases hthread
  | finish _ _ _ => cases hthread
  | _ => exact Or.inl hthread

/-- A handler comes with an arrival. -/
theorem Rule.task (h : s.Rule parses a es t) :
    (t.issued = s.issued ∧ (∀ hd, t.task = .handler hd → ∃ hd', s.task = .handler hd' ∧
      hd'.req = hd.req ∧ hd'.payload = hd.payload)) ∨
    ∃ req payload, es = [.arrived req.id payload] ∧ s.task = .idle ∧
      s.issued req.id = false ∧ t.issued = Function.update s.issued req.id true ∧
      t.task = .handler ⟨req, payload, .staging⟩ ∧ a = .arrive req payload := by
  have hkept : ∀ {hd : Handler P} {pc : HandlerPc P}, s.task = .handler hd →
      ∀ hd', Task.handler { hd with pc := pc } = .handler hd' →
        ∃ hd'', s.task = .handler hd'' ∧ hd''.req = hd'.req ∧ hd''.payload = hd'.payload := by
    rintro hd pc htask hd' ⟨⟩
    exact ⟨hd, htask, rfl, rfl⟩
  have hleft : ∀ {task : Task P}, (∀ hd, task ≠ .handler hd) → ∀ hd, task = .handler hd →
      ∃ hd', s.task = .handler hd' ∧ hd'.req = hd.req ∧ hd'.payload = hd.payload :=
    fun hne hd htask => absurd htask (hne hd)
  cases h with
  | arrive htask hfresh => exact Or.inr ⟨_, _, rfl, htask, hfresh, rfl, rfl, rfl⟩
  | stage htask _ => exact Or.inl ⟨rfl, hkept htask⟩
  | accept htask _ _ => exact Or.inl ⟨rfl, hkept htask⟩
  | unparsable htask _ => exact Or.inl ⟨rfl, hkept htask⟩
  | popStaged htask _ _ => exact Or.inl ⟨rfl, hkept htask⟩
  | acceptReturned htask _ _ => exact Or.inl ⟨rfl, hkept htask⟩
  | acceptRaised htask _ _ => exact Or.inl ⟨rfl, hkept htask⟩
  | submit htask _ _ _ => exact Or.inl ⟨rfl, hkept htask⟩
  | submitRefused htask _ _ => exact Or.inl ⟨rfl, hkept htask⟩
  | subscribe htask _ _ => exact Or.inl ⟨rfl, hkept htask⟩
  | refuse _ _ | subscribed _ _ _ _ _ | subscribeRaised _ _ _ | cancel _ _
  | cancelReturned _ _ _ | unwound _ _ _ _ | caught _ _ _ _ | unwind _ _ | stop _ _
  | shutdownScheduler _ | shutdownRouter _ _ =>
      exact Or.inl ⟨rfl, hleft (by simp [setTask])⟩
  | _ => exact Or.inl ⟨rfl, fun hd htask => ⟨hd, htask, rfl, rfl⟩⟩

/-- An id that has been drawn is not drawn again. -/
theorem Rule.issued (h : s.Rule parses a es t) (hissued : s.issued id = true) :
    t.issued id = true := by
  rcases h.task with ⟨hsame, -⟩ | ⟨req, payload, -, -, -, hupdate, -, -⟩
  · rwa [hsame]
  · rw [hupdate]
    by_cases hid : id = req.id
    · rw [hid, Function.update_self]
    · rwa [Function.update_of_ne hid]

/-- Call ids stay available. -/
theorem Rule.fresh (h : s.Rule parses a es t)
    (hfresh : ∃ n, ∀ c, n ≤ c → s.router.calls c = none) :
    ∃ n, ∀ c, n ≤ c → t.router.calls c = none := by
  obtain ⟨n, hfree⟩ := hfresh
  rcases h.router with hsame | ⟨b, fs, hrouter, -⟩
  · exact ⟨n, by rwa [hsame]⟩
  · refine ⟨max n (b.caller.elim 0 (· + 1)), fun c hc => ?_⟩
    rw [hrouter.calls_of_ne ?_]
    · exact hfree c (le_trans (le_max_left ..) hc)
    · intro hcaller
      rw [hcaller] at hc
      have hlt : c + 1 ≤ c := le_trans (le_max_right n (c + 1)) hc
      exact absurd hlt (Nat.not_succ_le_self c)

/-- Ids without a handler stay without one, unless they arrive. -/
theorem Unhandled.step (hother : s.Unhandled id) (h : s.Rule parses a es t)
    (hissued : s.issued id = false → t.issued id = false) : t.Unhandled id := by
  intro hd htask hid
  rcases h.task with ⟨-, hkept⟩ | ⟨req, payload, -, -, hfresh, hupdate, hnew, -⟩
  · obtain ⟨hd', htask', hreq, -⟩ := hkept hd htask
    exact hother hd' htask' (by rw [hreq]; exact hid)
  · cases hnew.symm.trans htask
    have hid' : req.id = id := hid
    subst hid'
    have hset := hissued hfresh
    rw [hupdate, Function.update_self] at hset
    cases hset

theorem Inv.init (parses : P → Bool) (depth capacity : Nat) :
    (machine parses depth capacity).init.Inv [] := by
  have hnotQueued : ∀ id, ¬ (machine parses depth capacity).init.Queued id := by
    rintro id ⟨x, hx, -⟩
    exact absurd hx (Multiset.notMem_zero x)
  have habsent : ∀ id, (machine parses depth capacity).init.Absent [] id :=
    fun id => ⟨rfl, hnotQueued id, rfl, rfl⟩
  have hidle : ∀ id, (machine parses depth capacity).init.Unhandled id := by
    rintro id h ⟨⟩
  refine ⟨⟨0, fun _ _ => rfl⟩, ?_, ?_, fun id _ => ⟨habsent id, hidle id⟩,
    fun id _ => ⟨rfl, Or.inl (habsent id)⟩, ?_, ?_, ?_, ?_, ?_, ?_⟩
  · rintro c op ⟨call, hcall, -⟩
    cases hcall
  · exact Multiset.nodup_zero
  · rintro h ⟨⟩
  · rintro c id ⟨⟩
  · intro id hburied
    exact absurd hburied (Finset.notMem_empty _)
  · intro id status hevent
    cases hevent
  · rintro id body ⟨⟩
  · rintro id ⟨⟩

/-- The stage of the handler after a step. -/
theorem Inv.handled (hinv : s.Inv log) (h : s.Rule parses a es t) {hd : Handler P}
    (htask : s.task = .handler hd) :
    (t.task = .handler hd ∧ t.Admits (log ++ es) hd ∧ (∀ c, a ≠ .handle c)) ∨
      t.Handled log es hd := by
  have hadmits := (hinv.handler hd htask).2
  by_cases hhandle : ∃ c, a = .handle c
  · obtain ⟨c, rfl⟩ := hhandle
    exact Or.inr (hadmits.handle hinv htask h)
  · have hother : ∀ c, a ≠ .handle c := fun c hc => hhandle ⟨c, hc⟩
    rcases h.handler htask with hsame | hhandle'
    · exact Or.inl ⟨hsame, hadmits.env hinv htask h hother, hother⟩
    · exact absurd hhandle' hhandle

/-- An answered request is settled. -/
theorem Answered.settled {status : Nat} (hanswered : s.Answered log id status) :
    s.Absent log id ∨ s.Accepted log id := by
  rcases hanswered with ⟨-, haccepted⟩ | ⟨-, habsent | ⟨haccepted, -⟩⟩
  · exact Or.inr haccepted
  · exact Or.inl habsent
  · exact Or.inr haccepted

theorem Inv.answered_step {status : Nat} (hinv : s.Inv log) (h : s.Rule parses a es t)
    (hother : s.Unhandled id) (hanswered : s.Answered log id status) :
    t.Answered (log ++ es) id status := by
  have hquiet : ¬ s.Admitting a id := hother.not_admitting hinv.owned
  rcases hanswered with ⟨hok, haccepted⟩ | ⟨herror, habsent | ⟨haccepted, hended, hunqueued⟩⟩
  · exact Or.inl ⟨hok, hinv.accepted h haccepted⟩
  · exact Or.inr ⟨herror, Or.inl (habsent.step hinv.owned h hquiet)⟩
  · exact Or.inr ⟨herror, Or.inr ⟨hinv.accepted h haccepted, h.terminal haccepted.kept hended,
      h.not_queued hinv.owned hquiet hunqueued⟩⟩

/-- What holds of the ids without a handler. -/
theorem Inv.settled_step (hinv : s.Inv log) (h : s.Rule parses a es t)
    (hother : t.Unhandled id) :
    t.staged id = none ∧ (t.Absent (log ++ es) id ∨ t.Accepted (log ++ es) id) := by
  by_cases hold : s.Unhandled id
  · obtain ⟨hunstaged, hphase⟩ := hinv.settled id hold
    refine ⟨?_, ?_⟩
    · rcases h.staged hinv.owned id with hsame | ⟨hnone, -⟩ | ⟨-, hhandled⟩
      · exact hsame.trans hunstaged
      · exact hnone
      · exact absurd hold hhandled
    · rcases hphase with habsent | haccepted
      · exact Or.inl (habsent.step hinv.owned h (hold.not_admitting hinv.owned))
      · exact Or.inr (hinv.accepted h haccepted)
  · unfold Unhandled at hold
    push Not at hold
    obtain ⟨hd, htask, rfl⟩ := hold
    rcases hinv.handled h htask with ⟨hsame, -⟩ | hhandled
    · exact absurd rfl (hother hd hsame)
    · cases hhandled with
      | goesOn _ hgoes _ _ => exact (hother _ hgoes rfl).elim
      | answers _ hunstaged hanswered _ => exact ⟨hunstaged, hanswered.settled⟩

/-- What holds of the id of the handler. -/
theorem Inv.handler_step (hinv : s.Inv log) (h : s.Rule parses a es t) {hd : Handler P}
    (htask : t.task = .handler hd) :
    .arrived hd.req.id hd.payload ∈ log ++ es ∧ t.Admits (log ++ es) hd := by
  rcases h.task with ⟨-, hkept⟩ | ⟨req, payload, rfl, -, hfresh, -, hnew, -⟩
  · obtain ⟨hd', htask', hreq, hpayload⟩ := hkept hd htask
    have harrived := (hinv.handler hd' htask').1
    rw [hreq, hpayload] at harrived
    refine ⟨List.mem_append_left es harrived, ?_⟩
    rcases hinv.handled h htask' with ⟨hsame, hadmits, -⟩ | hhandled
    · cases hsame.symm.trans htask
      exact hadmits
    · cases hhandled with
      | goesOn _ hgoes hadmits _ =>
          cases hgoes.symm.trans htask
          exact hadmits
      | answers hidle _ _ _ => cases hidle.symm.trans htask
  · cases hnew.symm.trans htask
    refine ⟨List.mem_append_right log (List.mem_singleton.mpr rfl), ?_⟩
    obtain ⟨habsent, hother⟩ := hinv.unissued req.id hfresh
    exact habsent.step hinv.owned h (hother.not_admitting hinv.owned)

/-- What holds of an id that has just been answered. -/
theorem Inv.answered_now (hinv : s.Inv log) (h : s.Rule parses a es t) {status : Nat}
    (hevent : .responded id status ∈ es) :
    t.issued id = true ∧ t.Unhandled id ∧ t.Answered (log ++ es) id status := by
  obtain ⟨d, hd, rfl, htask⟩ := h.responded hevent
  rcases hinv.handled h htask with ⟨-, -, hother⟩ | hhandled
  · exact absurd rfl (hother d)
  · cases hhandled with
    | goesOn _ _ _ hsilent => exact absurd hevent (hsilent id status)
    | answers hidle _ hanswered hes =>
        rw [hes, List.mem_singleton] at hevent
        cases hevent
        refine ⟨?_, ?_, hanswered⟩
        · refine h.issued ?_
          rw [← Bool.not_eq_false]
          intro hfresh
          exact (hinv.unissued _ hfresh).2 hd htask rfl
        · intro hd' htask'
          cases hidle.symm.trans htask'

theorem Inv.step (hinv : s.Inv log) (h : s.Rule parses a es t) : t.Inv (log ++ es) where
  fresh := h.fresh hinv.fresh
  owned := hinv.owned.step h
  distinct := by
    refine hinv.distinct.step h ?_
    intro hd c payload htask hpc
    have hadmits := (hinv.handler hd htask).2
    unfold Admits at hadmits
    rw [hpc] at hadmits
    exact hadmits.registered.unqueued
  unissued := by
    intro id hissued
    have hold : s.issued id = false := by
      rcases h.task with ⟨hsame, -⟩ | ⟨req, payload, -, -, hfresh, hupdate, -, -⟩
      · rwa [hsame] at hissued
      · rw [hupdate] at hissued
        by_cases hid : id = req.id
        · rw [hid]
          exact hfresh
        · rwa [Function.update_of_ne hid] at hissued
    obtain ⟨habsent, hother⟩ := hinv.unissued id hold
    exact ⟨habsent.step hinv.owned h (hother.not_admitting hinv.owned),
      hother.step h fun _ => hissued⟩
  settled _ hother := hinv.settled_step h hother
  handler _ htask := hinv.handler_step h htask
  told := by
    intro c id hnotice
    rcases h.noticed hnotice with hold | ⟨hcall, hknown, hended⟩
    · obtain ⟨haccepted, hended⟩ := hinv.told c id hold
      exact ⟨hinv.accepted h haccepted, h.terminal haccepted.kept hended⟩
    · refine ⟨hinv.accepted h ?_, hended⟩
      rcases hinv.owned c (.cancel id) ⟨_, hcall, rfl⟩ with ⟨body, hcancelling⟩ | ⟨run, hrun⟩
      · obtain ⟨e, hentry⟩ := hknown
        exact hinv.accepted_of_entry (by simp [hcancelling]) hentry
      · exact hinv.accepted_of_run hrun
  buried := by
    intro id hburied
    obtain ⟨haccepted, hended⟩ : s.Accepted log id ∧ s.router.inner.Terminal id := by
      rcases h.buried hburied with hold | ⟨c, -, hnotice⟩
      · exact hinv.buried id hold
      · exact hinv.told c id hnotice
    exact ⟨hinv.accepted h haccepted, h.terminal haccepted.kept hended⟩
  answered := by
    intro id status hevent
    rcases List.mem_append.mp hevent with hold | hnew
    · obtain ⟨hissued, hother, hanswered⟩ := hinv.answered id status hold
      refine ⟨h.issued hissued, hother.step h ?_, hinv.answered_step h hother hanswered⟩
      intro hfresh
      rw [hissued] at hfresh
      cases hfresh
    · exact hinv.answered_now h hnew
  responding := by
    intro id body hbody
    rcases h.responding hbody with ⟨body', hold⟩ | ⟨hd, d, c, htask, rfl, rfl, hpc⟩
    · exact hinv.accepted h (hinv.responding id body' hold)
    · have hadmits := (hinv.handler hd htask).2
      unfold Admits at hadmits
      rw [hpc] at hadmits
      cases hadmits with
      | called _ hadmitted | opened _ hadmitted | refused _ hadmitted =>
          exact hinv.accepted h hadmitted.accepted
  running := by
    intro id hthread
    rcases h.running hthread with hold | hrun
    · obtain ⟨run, hrun⟩ := hinv.running id hold
      exact h.runs_some hrun
    · exact hrun

/-- The invariant holds after every run. -/
theorem Inv.run {depth capacity : Nat} {as : List (Action P)}
    (hrun : (machine parses depth capacity).run (machine parses depth capacity).init as =
      some (log, s)) : s.Inv log :=
  Machine.history_reachable (C := fun _ _ => True) (H := fun log s => s.Inv log)
    (.init parses depth capacity) (fun _ _ _ _ _ hinv _ hstep => hinv.step (step_rule hstep))
    (Machine.meets_of_forall fun _ _ _ => trivial) hrun

end V2State

end Repercep.Serving.V2
