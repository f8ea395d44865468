import Repercep.Serving.Admission
set_option autoImplicit false

/-!
# The v2 path: admission is atomic

A request that is answered with its stream has been taken by the scheduler once, with the
payload it came with; one that is answered with an error has left nothing behind.  The
handler can always go on until it answers, and none of its steps touches another request.
-/

namespace Repercep.Serving.V2

open Repercep.Foundation
open Repercep.Router (Sys RequestId RouterRequest RouterError CallId ChanId Entry)

variable {P : Type}

/-- The router has the request, the scheduler has taken it once, with the payload it came
with, and nothing is left staged. -/
structure V2State.Taken (s : V2State P) (log : List (Event P)) (id : RequestId) : Prop where
  entry : ∃ e, s.router.inner.requests id = some e
  arrived : ∃ payload, .arrived id payload ∈ log
  once : ∀ payload, .arrived id payload ∈ log → submissions id log = [payload]
  unstaged : s.staged id = none

/-- The router has no live entry of the request, the scheduler no item, and nothing is
left staged. -/
structure V2State.Clean (s : V2State P) (id : RequestId) : Prop where
  dead : ∀ e, s.router.inner.requests id = some e → e.state.isTerminal = true
  unqueued : ¬ s.Queued id
  unstaged : s.staged id = none

/-- The router call the handler is in. -/
def HandlerPc.call? : HandlerPc P → Option CallId
  | .accepting c | .submitting c _ | .subscribing c => some c
  | _ => none

/-- The steps of an admission: the handler's own and the sections of its router call. -/
def Handler.Takes (h : Handler P) : Action P → Prop
  | .handle _ => True
  | .call b => ∃ c, h.pc.call? = some c ∧ b.caller = some c
  | _ => False

/-- The steps of the handler and of router calls. -/
def Action.admits : Action P → Prop
  | .handle _ | .call _ => True
  | _ => False

namespace V2State

variable {parses : P → Bool} {depth capacity : Nat} {s t : V2State P} {a : Action P}
  {es log : List (Event P)} {id : RequestId}

/-! ## One arrival for each id -/

theorem Rule.arrived (h : s.Rule parses a es t) {payload : P}
    (hevent : .arrived id payload ∈ es) :
    s.issued id = false ∧ t.issued id = true ∧ es = [.arrived id payload] := by
  cases h with
  | arrive htask hfresh =>
      cases List.mem_singleton.mp hevent
      exact ⟨hfresh, Function.update_self .., rfl⟩
  | call _ _ => simp at hevent
  | drive _ _ _ _ _ => simp at hevent
  | launch _ _ _ => simp at hevent
  | _ => simp at hevent

/-- An id arrives once. -/
theorem arrived_unique {as : List (Action P)}
    (hrun : (machine parses depth capacity).run (machine parses depth capacity).init as =
      some (log, s)) {payload payload' : P} (h : .arrived id payload ∈ log)
    (h' : .arrived id payload' ∈ log) : payload = payload' := by
  have hunique : (∀ p, .arrived id p ∈ log → s.issued id = true) ∧
      ∀ p q, .arrived id p ∈ log → .arrived id q ∈ log → p = q := by
    refine Machine.history_reachable (C := fun _ _ => True) (H := fun log s =>
      (∀ p, .arrived id p ∈ log → s.issued id = true) ∧
        ∀ p q, .arrived id p ∈ log → .arrived id q ∈ log → p = q) (by simp) ?_
      (Machine.meets_of_forall fun _ _ _ => trivial) hrun
    rintro log s a es t ⟨hissued, hone⟩ - hstep
    have hrule := step_rule hstep
    have hnew : ∀ p q, .arrived id p ∈ log → .arrived id q ∉ es := by
      intro p q hold hmem
      have hfresh := (hrule.arrived hmem).1
      rw [hissued p hold] at hfresh
      cases hfresh
    refine ⟨?_, ?_⟩
    · intro p hmem
      rcases List.mem_append.mp hmem with hold | hmem
      · exact hrule.issued (hissued p hold)
      · exact (hrule.arrived hmem).2.1
    · intro p q hp hq
      rcases List.mem_append.mp hp with hp | hp
      · rcases List.mem_append.mp hq with hq | hq
        · exact hone p q hp hq
        · exact absurd hq (hnew p q hp)
      · rcases List.mem_append.mp hq with hq | hq
        · exact absurd hp (hnew q p hq)
        · rw [(hrule.arrived hp).2.2] at hq
          cases List.mem_singleton.mp hq
          rfl
  exact hunique.2 payload payload' h h'

/-! ## Other requests -/

/-- The handler's router call is about its request. -/
theorem Admits.request {h : Handler P} (hadmits : s.Admits log h) {c : CallId}
    (hpc : h.pc.call? = some c) {op : Router.Op} (hrunning : s.router.Running c op) :
    op.request = h.req.id := by
  obtain ⟨call, hcall, hop⟩ := hrunning
  have hat : ∀ {found : Router.Call}, s.router.calls c = some found →
      (∀ op', found.op? = some op' → op'.request = h.req.id) → op.request = h.req.id := by
    intro found hfound hrequest
    cases hcall.symm.trans hfound
    exact hrequest op hop
  have haccept : ∀ op', some (Router.Op.accept h.req) = some op' → op'.request = h.req.id := by
    rintro op' ⟨⟩
    rfl
  have hsubscribe : ∀ op', some (Router.Op.subscribe h.req.id) = some op' →
      op'.request = h.req.id := by
    rintro op' ⟨⟩
    rfl
  unfold Admits at hadmits
  unfold HandlerPc.call? at hpc
  split at hpc
  · rename_i d heq
    rw [heq] at hadmits
    cases hpc
    cases hadmits with
    | called hcall' => exact hat hcall' haccept
    | opened hcall' => exact hat hcall' haccept
    | submitting hcall' => exact hat hcall' haccept
    | rollingBack hcall' => exact hat hcall' haccept
    | refused hcall' => exact hat hcall' (by rintro op' ⟨⟩)
    | accepted hcall' => exact hat hcall' (by rintro op' ⟨⟩)
  · rename_i d payload heq
    rw [heq] at hadmits
    cases hpc
    exact hat hadmits.call haccept
  · rename_i d heq
    rw [heq] at hadmits
    cases hpc
    cases hadmits with
    | called hcall' => exact hat hcall' hsubscribe
    | opened hcall' => exact hat hcall' hsubscribe
    | refused hcall' => exact hat hcall' (by rintro op' ⟨⟩)
  · cases hpc

/-- The sections an admission runs are those of the handler's call. -/
theorem Rule.admission_router (hrule : s.Rule parses a es t) {h : Handler P}
    (htask : s.task = .handler h) (htakes : h.Takes a) : t.router = s.router ∨
      ∃ b fs, s.router.Rule b fs t.router ∧
        ∀ c op, b.caller = some c → s.router.Running c op → h.pc.call? = some c := by
  have hsame : ∀ {h' : Handler P}, s.task = .handler h' → h' = h :=
    fun htask' => Task.handler.inj (htask'.symm.trans htask)
  have hinvoked : ∀ {c c' : CallId} {op op' : Router.Op} {fs r},
      s.router.Rule (.invoke c op) fs r → (Router.Action.invoke c op).caller = some c' →
      s.router.Running c' op' → h.pc.call? = some c' := by
    rintro c c' op op' fs r hrouter ⟨⟩ ⟨call, hcall, -⟩
    exact (hrouter.finds rfl hcall).elim
  cases hrule with
  | accept _ _ hrouter => exact Or.inr ⟨_, _, hrouter, fun _ _ => hinvoked hrouter⟩
  | subscribe _ _ hrouter => exact Or.inr ⟨_, _, hrouter, fun _ _ => hinvoked hrouter⟩
  | submit htask' hpc _ hrouter =>
      cases hsame htask'
      refine Or.inr ⟨_, _, hrouter, ?_⟩
      rintro c op ⟨⟩ -
      rw [hpc]
      rfl
  | submitRefused htask' hpc hrouter =>
      cases hsame htask'
      refine Or.inr ⟨_, _, hrouter, ?_⟩
      rintro c op ⟨⟩ -
      rw [hpc]
      rfl
  | subscribed htask' hpc _ _ hrouter =>
      cases hsame htask'
      refine Or.inr ⟨_, _, hrouter, ?_⟩
      rintro c op ⟨⟩ -
      rw [hpc]
      rfl
  | unsubscribed htask' hpc _ _ hrouter =>
      cases hsame htask'
      refine Or.inr ⟨_, _, hrouter, ?_⟩
      rintro c op ⟨⟩ -
      rw [hpc]
      rfl
  | call _ hrouter =>
      obtain ⟨d, hpc, hcaller⟩ := htakes
      refine Or.inr ⟨_, _, hrouter, fun c op hcaller' _ => ?_⟩
      cases hcaller.symm.trans hcaller'
      exact hpc
  | arrive | notify | cancel | cancelReturned | unwound | resume | delivered | ended | abandoned
  | caught | unwind | dropStream | checkStop | fetched | drained | waiting | fetchTimeout | drive
  | launch | finish | stop | shutdownScheduler | shutdownRouter => exact htakes.elim
  | _ => exact Or.inl rfl

/-- An admission takes nothing off the queues. -/
theorem Rule.admission_queued (hrule : s.Rule parses a es t) {h : Handler P}
    (htakes : h.Takes a) (hqueued : s.Queued id) : t.Queued id := by
  obtain ⟨x, hx, hid⟩ := hqueued
  cases hrule with
  | @submit hd c d payload fs r scheduler _ _ hsubmit _ =>
      refine ⟨x, ?_, hid⟩
      change x ∈ scheduler.buckets.items
      rw [(submit_buckets hsubmit).1]
      exact Multiset.mem_add.mpr (Or.inl hx)
  | notify _ => exact htakes.elim
  | fetched _ _ => exact htakes.elim
  | drained _ _ => exact htakes.elim
  | waiting _ _ => exact htakes.elim
  | shutdownScheduler _ => exact htakes.elim
  | _ => exact ⟨x, hx, hid⟩

/-- An admission leaves every other request as it is. -/
theorem Inv.admission_frame (hinv : s.Inv log) {h : Handler P} (htask : s.task = .handler h)
    (htakes : h.Takes a) (hrule : s.Rule parses a es t) (hne : id ≠ h.req.id) :
    t.router.inner.requests id = s.router.inner.requests id ∧ t.staged id = s.staged id ∧
      (t.Queued id ↔ s.Queued id) ∧ t.runs id = s.runs id := by
  have hother : s.Unhandled id := by
    intro h' htask' hid
    cases htask.symm.trans htask'
    exact hne hid.symm
  refine ⟨?_, ?_, ⟨?_, hrule.admission_queued htakes⟩, ?_⟩
  · rcases hrule.admission_router htask htakes with hsame | ⟨b, fs, hrouter, hcaller⟩
    · rw [hsame]
    · refine hrouter.requests_of_ne ?_
      rintro c op hc hrunning rfl
      exact hne ((hinv.handler h htask).2.request (hcaller c op hc hrunning) hrunning)
  · have hnone := (hinv.settled id hother).1
    rcases hrule.staged hinv.owned id with hsame | ⟨hnone', -⟩ | ⟨-, hhandled⟩
    · exact hsame
    · rw [hnone, hnone']
    · exact absurd hother hhandled
  · intro hqueued
    rcases hrule.queued hqueued with hold | ⟨hd, c, d, req, payload, -, htask', hid, -⟩
    · exact hold
    · exact absurd hid (hother hd htask')
  · rcases hrule.runs id with ⟨hsame, -⟩ | ⟨job, req, scheduler, rfl, -⟩ |
      ⟨run, b, fs, d, hrun, hown, hdriver, ht⟩
    · exact hsame
    · exact htakes.elim
    · cases hrule with
      | drive _ _ _ _ _ => exact htakes.elim
      | launch _ _ _ => exact htakes.elim
      | fetched _ _ => exact htakes.elim
      | _ => rfl

/-! ## The handler answers -/

/-- Steps of the handler and of router calls lead to the answer for the id. -/
def Responds (parses : P → Bool) (depth capacity : Nat) (s : V2State P) (id : RequestId) :
    Prop :=
  ∃ as es t, (∀ a ∈ as, Action.admits a) ∧
    (machine parses depth capacity).run s as = some (es, t) ∧ ∃ status, .responded id status ∈ es

theorem Responds.step (h : s.step parses a = some (es, t)) (ha : a.admits)
    (hresponds : t.Responds parses depth capacity id) :
    s.Responds parses depth capacity id := by
  obtain ⟨as, fs, u, hadmits, hrun, status, hevent⟩ := hresponds
  refine ⟨a :: as, es ++ fs, u, ?_, ?_, status, List.mem_append_right es hevent⟩
  · intro b hb
    rcases List.mem_cons.mp hb with rfl | hb
    · exact ha
    · exact hadmits b hb
  · exact Machine.run_cons_eq_some.mpr ⟨es, t, fs, h, hrun, rfl⟩

theorem Responds.now {status : Nat} (h : s.step parses a = some (es, t)) (ha : a.admits)
    (hevent : .responded id status ∈ es) : s.Responds parses depth capacity id := by
  refine ⟨[a], es, t, ?_, Machine.run_singleton h, status, hevent⟩
  intro b hb
  rw [List.mem_singleton.mp hb]
  exact ha

section Progress

variable {h : Handler P} (htask : s.task = .handler h)
include htask

theorem responds_discarding {detail : String} (hpc : h.pc = .discarding detail) :
    s.Responds parses depth capacity h.req.id := by
  have hstep : s.step parses (.handle 0) =
      some ([.responded h.req.id (refusalStatus detail)],
        (s.discard h.req.id).setTask .idle) := by
    unfold step handle
    simp only [htask, hpc]
  exact .now hstep trivial (List.mem_singleton.mpr rfl)

theorem responds_refused {c : CallId} {e : RouterError} (hpc : h.pc = .accepting c)
    (hcall : s.router.calls c = some (.done (.error e))) :
    s.Responds parses depth capacity h.req.id := by
  have hstep : s.step parses (.handle 0) =
      some ([], s.setHandler h (.discarding (routerText e))) := by
    unfold step handle
    simp only [htask, hpc, hcall]
  exact .step hstep trivial
    (responds_discarding (h := { h with pc := .discarding (routerText e) }) rfl rfl)

theorem responds_rollingBack {c : CallId} {e : RouterError} (hpc : h.pc = .accepting c)
    (hcall : s.router.calls c = some (.rollingBack h.req e)) :
    s.Responds parses depth capacity h.req.id := by
  have hstep : s.step parses (.call (.rollback c)) = some ([], { s with
      router := s.router.advance c (.done (.error e)) (s.router.inner.rollback h.req.id)
      notices := s.noticesAfter (.rollback c) }) := by
    unfold step runsAlone
    simp [Sys.step, hcall]
  exact .step hstep trivial (responds_refused htask hpc Sys.advance_calls_self)

theorem responds_unsubscribed {c : CallId} {e : RouterError} (hpc : h.pc = .subscribing c)
    (hcall : s.router.calls c = some (.done (.error e))) :
    s.Responds parses depth capacity h.req.id := by
  have hstep : s.step parses (.handle 0) =
      some ([.responded h.req.id 500], s.setTask .idle) := by
    unfold step handle
    simp only [htask, hpc, hcall]
  exact .now hstep trivial (List.mem_singleton.mpr rfl)

theorem responds_subscribeOpened {c : CallId} (hpc : h.pc = .subscribing c)
    (hcall : s.router.calls c = some (.opened (.subscribe h.req.id))) :
    s.Responds parses depth capacity h.req.id := by
  rcases htake : s.router.inner.takeReceiver h.req.id with ⟨e | stream, r⟩
  · have hstep : s.step parses (.handle 0) =
        some ([], { s with router := s.router.advance c (.done (.error e)) r }) := by
      unfold step handle
      simp [htask, hpc, hcall, Sys.step, Sys.enterOp, htake]
    exact .step hstep trivial (responds_unsubscribed htask hpc Sys.advance_calls_self)
  · have hstep : s.step parses (.handle 0) = some ([.responded h.req.id 200],
        ({ s with router := (s.router.advance c (.done (.ok ())) r).hold stream }.setBody h.req.id
          ⟨stream, false, .unstarted⟩ .unstarted).setTask .idle) := by
      unfold step handle
      simp [htask, hpc, hcall, Sys.step, Sys.enterOp, htake]
    exact .now hstep trivial (List.mem_singleton.mpr rfl)

theorem responds_subscribeCalled {c : CallId} (hpc : h.pc = .subscribing c)
    (hcall : s.router.calls c = some (.called (.subscribe h.req.id))) :
    s.Responds parses depth capacity h.req.id := by
  rcases hopen : s.router.inner.ensureOpen with e | u
  · have hstep : s.step parses (.call (.ensureOpen c)) = some ([], { s with
        router := s.router.advance c (.done (.error e)) s.router.inner
        notices := s.noticesAfter (.ensureOpen c) }) := by
      unfold step runsAlone
      simp [Sys.step, hcall, hopen]
    exact .step hstep trivial (responds_unsubscribed htask hpc Sys.advance_calls_self)
  · have hstep : s.step parses (.call (.ensureOpen c)) = some ([], { s with
        router := s.router.advance c (.opened (.subscribe h.req.id)) s.router.inner
        notices := s.noticesAfter (.ensureOpen c) }) := by
      unfold step runsAlone
      simp [Sys.step, hcall, hopen]
    exact .step hstep trivial (responds_subscribeOpened htask hpc Sys.advance_calls_self)

theorem responds_accepted {c : CallId} (hpc : h.pc = .accepted)
    (hfree : s.router.calls c = none) : s.Responds parses depth capacity h.req.id := by
  have hstep : s.step parses (.handle c) = some ([], { s with
      router := s.router.advance c (.called (.subscribe h.req.id)) s.router.inner }.setHandler h
        (.subscribing c)) := by
    unfold step handle
    simp [htask, hpc, Sys.step, hfree]
  exact .step hstep trivial (responds_subscribeCalled (h := { h with pc := .subscribing c })
    rfl rfl Sys.advance_calls_self)

theorem responds_acceptReturned {c d : CallId} (hpc : h.pc = .accepting d)
    (hcall : s.router.calls d = some (.done (.ok ()))) (hfree : s.router.calls c = none) :
    s.Responds parses depth capacity h.req.id := by
  have hstep : s.step parses (.handle 0) = some ([], s.setHandler h .accepted) := by
    unfold step handle
    simp only [htask, hpc, hcall]
  exact .step hstep trivial (responds_accepted (h := { h with pc := .accepted }) rfl rfl hfree)

theorem responds_submitting {c d : CallId} {payload : Option P}
    (hpc : h.pc = .submitting d payload)
    (hcall : s.router.calls d = some (.submitting h.req)) (hfree : s.router.calls c = none) :
    s.Responds parses depth capacity h.req.id := by
  rcases hsubmit : s.submit parses h.req payload with ⟨e | u, scheduler⟩
  · have hstep : s.step parses (.handle 0) = some (submissionEvents h.req.id payload (.error e),
        { s with
          router := s.router.advance d (.rollingBack h.req e) s.router.inner
          scheduler := scheduler }.setHandler h (.accepting d)) := by
      unfold step handle
      simp [htask, hpc, hsubmit, Sys.step, hcall]
    exact .step hstep trivial (responds_rollingBack (h := { h with pc := .accepting d })
      rfl rfl Sys.advance_calls_self)
  · have hstep : s.step parses (.handle 0) = some (submissionEvents h.req.id payload (.ok u),
        { s with
          router := s.router.advance d (.done (.ok ())) s.router.inner
          scheduler := scheduler }.setHandler h (.accepting d)) := by
      unfold step handle
      simp [htask, hpc, hsubmit, Sys.step, hcall]
    have hne : c ≠ d := by
      rintro rfl
      cases hcall.symm.trans hfree
    have hfree' : (s.router.advance d (.done (.ok ())) s.router.inner).calls c = none := by
      rw [Sys.advance_calls, Function.update_of_ne hne]
      exact hfree
    exact .step hstep trivial (responds_acceptReturned (h := { h with pc := .accepting d })
      rfl rfl Sys.advance_calls_self hfree')

theorem responds_popStaged {c d : CallId} (hpc : h.pc = .accepting d)
    (hcall : s.router.calls d = some (.submitting h.req)) (hfree : s.router.calls c = none) :
    s.Responds parses depth capacity h.req.id := by
  have hstep : s.step parses (.handle 0) = some ([],
      (s.discard h.req.id).setHandler h (.submitting d (s.staged h.req.id))) := by
    unfold step handle
    simp only [htask, hpc, hcall]
  exact .step hstep trivial (responds_submitting
    (h := { h with pc := .submitting d (s.staged h.req.id) }) rfl rfl hcall hfree)

theorem responds_acceptOpened {c d : CallId} (hpc : h.pc = .accepting d)
    (hcall : s.router.calls d = some (.opened (.accept h.req)))
    (hfree : s.router.calls c = none) : s.Responds parses depth capacity h.req.id := by
  rcases hregister : s.router.inner.register h.req with ⟨e | u, r⟩
  · have hstep : s.step parses (.call (.enter d)) = some ([], { s with
        router := s.router.advance d (.done (.error e)) r
        notices := s.noticesAfter (.enter d) }) := by
      unfold step runsAlone
      simp [Sys.step, Sys.enterOp, hcall, hregister]
    exact .step hstep trivial (responds_refused htask hpc Sys.advance_calls_self)
  · have hstep : s.step parses (.call (.enter d)) = some ([], { s with
        router := s.router.advance d (.submitting h.req) r
        notices := s.noticesAfter (.enter d) }) := by
      unfold step runsAlone
      simp [Sys.step, Sys.enterOp, hcall, hregister]
    have hne : c ≠ d := by
      rintro rfl
      cases hcall.symm.trans hfree
    have hfree' : (s.router.advance d (.submitting h.req) r).calls c = none := by
      rw [Sys.advance_calls, Function.update_of_ne hne]
      exact hfree
    exact .step hstep trivial (responds_popStaged htask hpc Sys.advance_calls_self hfree')

theorem responds_acceptCalled {c d : CallId} (hpc : h.pc = .accepting d)
    (hcall : s.router.calls d = some (.called (.accept h.req)))
    (hfree : s.router.calls c = none) : s.Responds parses depth capacity h.req.id := by
  rcases hopen : s.router.inner.ensureOpen with e | u
  · have hstep : s.step parses (.call (.ensureOpen d)) = some ([], { s with
        router := s.router.advance d (.done (.error e)) s.router.inner
        notices := s.noticesAfter (.ensureOpen d) }) := by
      unfold step runsAlone
      simp [Sys.step, hcall, hopen]
    exact .step hstep trivial (responds_refused htask hpc Sys.advance_calls_self)
  · have hstep : s.step parses (.call (.ensureOpen d)) = some ([], { s with
        router := s.router.advance d (.opened (.accept h.req)) s.router.inner
        notices := s.noticesAfter (.ensureOpen d) }) := by
      unfold step runsAlone
      simp [Sys.step, hcall, hopen]
    have hne : c ≠ d := by
      rintro rfl
      cases hcall.symm.trans hfree
    have hfree' : (s.router.advance d (.opened (.accept h.req)) s.router.inner).calls c =
        none := by
      rw [Sys.advance_calls, Function.update_of_ne hne]
      exact hfree
    exact .step hstep trivial (responds_acceptOpened htask hpc Sys.advance_calls_self hfree')

theorem responds_staged {c d : CallId} (hpc : h.pc = .staged) (hne : c ≠ d)
    (hfree : s.router.calls c = none) (hfree' : s.router.calls d = none) :
    s.Responds parses depth capacity h.req.id := by
  cases hparses : parses h.payload with
  | false =>
      have hstep : s.step parses (.handle 0) =
          some ([], s.setHandler h (.discarding "payload is not JSON-serializable")) := by
        unfold step handle
        simp [htask, hpc, hparses]
      exact .step hstep trivial (responds_discarding
        (h := { h with pc := .discarding "payload is not JSON-serializable" }) rfl rfl)
  | true =>
      have hstep : s.step parses (.handle d) = some ([], { s with
          router := s.router.advance d (.called (.accept h.req)) s.router.inner }.setHandler h
            (.accepting d)) := by
        unfold step handle
        simp [htask, hpc, hparses, Sys.step, hfree']
      have hstill : (s.router.advance d (.called (.accept h.req)) s.router.inner).calls c =
          none := by
        rw [Sys.advance_calls, Function.update_of_ne hne]
        exact hfree
      exact .step hstep trivial (responds_acceptCalled (h := { h with pc := .accepting d })
        rfl rfl Sys.advance_calls_self hstill)

end Progress

/-- Whatever the state, the handler can go on until it answers. -/
theorem Inv.responds (hinv : s.Inv log) {h : Handler P} (htask : s.task = .handler h) :
    s.Responds parses depth capacity h.req.id := by
  obtain ⟨n, hfresh⟩ := hinv.fresh
  have hfree := hfresh n le_rfl
  have hfree' := hfresh (n + 1) (Nat.le_succ n)
  have hadmits := (hinv.handler h htask).2
  unfold Admits at hadmits
  split at hadmits
  · rename_i hpc
    have hstep : s.step parses (.handle 0) =
        some ([], (s.stage h.req.id h.payload).setHandler h .staged) := by
      unfold V2State.step handle
      simp only [htask, hpc]
    exact .step hstep trivial (responds_staged (h := { h with pc := .staged }) rfl rfl
      (Nat.succ_ne_self n) hfree' hfree)
  · rename_i detail hpc
    exact responds_discarding htask hpc
  · rename_i hpc
    exact responds_staged htask hpc (Nat.succ_ne_self n) hfree' hfree
  · rename_i c hpc
    cases hadmits with
    | called hcall => exact responds_acceptCalled htask hpc hcall hfree
    | opened hcall => exact responds_acceptOpened htask hpc hcall hfree
    | submitting hcall => exact responds_popStaged htask hpc hcall hfree
    | rollingBack hcall => exact responds_rollingBack htask hpc hcall
    | refused hcall => exact responds_refused htask hpc hcall
    | accepted hcall => exact responds_acceptReturned htask hpc hcall hfree
  · rename_i c payload hpc
    exact responds_submitting htask hpc hadmits.call hfree
  · rename_i hpc
    exact responds_accepted htask hpc hfree
  · rename_i c hpc
    cases hadmits with
    | called hcall => exact responds_subscribeCalled htask hpc hcall
    | opened hcall => exact responds_subscribeOpened htask hpc hcall
    | refused hcall => exact responds_unsubscribed htask hpc hcall

end V2State

/-! ## Atomicity -/

open V2State in
/-- In every run: a request answered with its stream is in the router, has been submitted
once with the payload it came with, and has nothing left staged; one answered with an
error has no live entry, no item in the scheduler and nothing staged.  A handler at work
can go on until it answers, and its steps leave every other request as it is. -/
theorem admission_atomic (parses : P → Bool) (depth capacity : Nat) {as : List (Action P)}
    {log : List (Event P)} {s : V2State P}
    (hrun : (machine parses depth capacity).run (machine parses depth capacity).init as =
      some (log, s)) :
    (∀ id, .responded id 200 ∈ log → s.Taken log id) ∧
      (∀ id status, .responded id status ∈ log → status ≠ 200 → s.Clean id) ∧
      ∀ h, s.task = .handler h → s.Responds parses depth capacity h.req.id ∧
        ∀ a es t, h.Takes a → s.step parses a = some (es, t) → ∀ id, id ≠ h.req.id →
          t.router.inner.requests id = s.router.inner.requests id ∧
            t.staged id = s.staged id ∧ (t.Queued id ↔ s.Queued id) ∧
            t.runs id = s.runs id := by
  have hinv := Inv.run hrun
  refine ⟨?_, ?_, fun h htask => ⟨hinv.responds htask, ?_⟩⟩
  · intro id hevent
    obtain ⟨-, hother, hanswered⟩ := hinv.answered id 200 hevent
    rcases hanswered with ⟨-, haccepted⟩ | ⟨hne, -⟩
    · obtain ⟨payload, harrived, honce⟩ := haccepted.submitted
      refine ⟨haccepted.known, ⟨payload, harrived⟩, ?_, (hinv.settled id hother).1⟩
      intro payload' harrived'
      rw [arrived_unique hrun harrived' harrived]
      exact honce
    · exact absurd rfl hne
  · intro id status hevent hne
    obtain ⟨-, hother, hanswered⟩ := hinv.answered id status hevent
    rcases hanswered with ⟨hok, -⟩ | ⟨-, habsent | ⟨-, ⟨e, hentry, hended⟩, hunqueued⟩⟩
    · exact absurd hok hne
    · refine ⟨?_, habsent.unqueued, (hinv.settled id hother).1⟩
      intro e hentry
      cases habsent.entry.symm.trans hentry
    · refine ⟨?_, hunqueued, (hinv.settled id hother).1⟩
      intro e' hentry'
      cases hentry.symm.trans hentry'
      exact hended
  · intro a es t htakes hstep id hne
    exact hinv.admission_frame htask htakes (step_rule hstep) hne

/-- A request is taken while a second finds the queue full. -/
def twoArrivals : List (Action Nat) :=
  [.arrive ⟨⟨"a"⟩, .normal⟩ 7, .handle 0, .handle 0, .call (.ensureOpen 0), .call (.enter 0),
    .handle 0, .handle 0, .handle 0, .handle 1, .call (.ensureOpen 1), .handle 1,
    .arrive ⟨⟨"b"⟩, .normal⟩ 8, .handle 2, .handle 2, .call (.ensureOpen 2), .call (.enter 2),
    .handle 2, .handle 2, .call (.rollback 2), .handle 2, .handle 2]

/-- What the second one is told. -/
def queueIsFull : String :=
  routerText (.scheduler ("submit: SchedulerExc: " ++ schedulerText (.queueFull 1)))

theorem refusalStatus_queueIsFull : refusalStatus queueIsFull = 503 := by decide +kernel

/-- The first is answered with its stream, the second with 503, each with what the theorem
says of it; and the rollback of the second leaves the first as it is. -/
theorem twoArrivals_atomic :
    (∃ log s, (machine (fun _ : Nat => true) 4 1).run (machine (fun _ : Nat => true) 4 1).init
        twoArrivals = some (log, s) ∧
      .responded ⟨"a"⟩ 200 ∈ log ∧ s.Taken log ⟨"a"⟩ ∧
      .responded ⟨"b"⟩ 503 ∈ log ∧ s.Clean ⟨"b"⟩) ∧
    ∃ log s h es t, (machine (fun _ : Nat => true) 4 1).run
        (machine (fun _ : Nat => true) 4 1).init (twoArrivals.take 18) = some (log, s) ∧
      s.task = .handler h ∧ h.req.id = ⟨"b"⟩ ∧
      s.step (fun _ : Nat => true) (.call (.rollback 2)) = some (es, t) ∧
      s.Responds (fun _ : Nat => true) 4 1 ⟨"b"⟩ ∧
      t.router.inner.requests ⟨"a"⟩ = s.router.inner.requests ⟨"a"⟩ ∧
      (t.Queued ⟨"a"⟩ ↔ s.Queued ⟨"a"⟩) := by
  constructor
  · obtain ⟨s, hrun⟩ : ∃ s, (machine (fun _ : Nat => true) 4 1).run
        (machine (fun _ : Nat => true) 4 1).init twoArrivals =
          some ([.arrived ⟨"a"⟩ 7, .submitted ⟨"a"⟩ 7, .responded ⟨"a"⟩ 200, .arrived ⟨"b"⟩ 8,
            .responded ⟨"b"⟩ (refusalStatus queueIsFull)], s) := ⟨_, rfl⟩
    rw [refusalStatus_queueIsFull] at hrun
    obtain ⟨htaken, hclean, -⟩ := admission_atomic (fun _ : Nat => true) 4 1 hrun
    exact ⟨_, s, hrun, by simp, htaken ⟨"a"⟩ (by simp), by simp,
      hclean ⟨"b"⟩ 503 (by simp) (by decide)⟩
  · have hrun : (machine (fun _ : Nat => true) 4 1).run
        (machine (fun _ : Nat => true) 4 1).init (twoArrivals.take 18) = some (_, _) := rfl
    obtain ⟨-, -, hworks⟩ := admission_atomic (fun _ : Nat => true) 4 1 hrun
    obtain ⟨hresponds, hframe⟩ := hworks _ rfl
    obtain ⟨hentry, -, hqueued, -⟩ := hframe (.call (.rollback 2)) _ _ ⟨2, rfl, rfl⟩ rfl ⟨"a"⟩
      (by decide)
    exact ⟨_, _, _, _, _, hrun, rfl, rfl, rfl, hresponds, hentry, hqueued⟩

end Repercep.Serving.V2
