import Repercep.Router.ErrorAtomicity
import Repercep.Router.Request
import Mathlib.Data.Set.Card
import Mathlib.Order.CompletePartialOrder
set_option autoImplicit false

/-!
# Router: the request table is never reaped

Two error docs say that a request which has reached a terminal state is reaped, and that
its id can be accepted again.  No method of the router removes an entry but the rollback
of an `accept` its scheduler refused: the table holds every id ever accepted.
-/

namespace Repercep.Router

open Repercep.Foundation

/-! ## The table of a router -/

namespace Inner

/-- The ids with an entry. -/
def table (r : Inner) : Set RequestId := {id | r.requests id ≠ none}

/-- The ids whose request has not ended. -/
def live (r : Inner) : Set RequestId :=
  {id | ∃ e, r.requests id = some e ∧ e.state.isTerminal = false}

/-- The ids whose request has ended. -/
def ended (r : Inner) : Set RequestId := {id | r.Terminal id}

/-- The request has ended; `Terminal`, computed. -/
def hasEnded (r : Inner) (id : RequestId) : Bool :=
  match r.requests id with
  | some e => e.state.isTerminal
  | none => false

theorem hasEnded_iff {r : Inner} {id : RequestId} : r.hasEnded id = true ↔ r.Terminal id := by
  unfold hasEnded Terminal
  cases r.requests id with
  | none => simp
  | some e => simp

theorem table_eq (r : Inner) : r.table = r.live ∪ r.ended := by
  ext id
  simp only [table, live, ended, Terminal, Set.mem_union, Set.mem_ofPred_eq]
  cases r.requests id with
  | none => simp
  | some e => cases hstate : e.state.isTerminal <;> simp [hstate]

theorem disjoint_live_ended (r : Inner) : Disjoint r.live r.ended := by
  rw [Set.disjoint_left]
  rintro id ⟨e, hentry, hlive⟩ ⟨e', hentry', hterminal⟩
  cases hentry.symm.trans hentry'
  cases hlive.symm.trans hterminal

/-- The table is bounded by the live requests and some that have ended exactly if every
request that has ended is one of these. -/
theorem encard_table_le_iff {r : Inner} (hfinite : r.table.Finite) {S : Set RequestId}
    (hsome : S ⊆ r.ended) :
    r.table.encard ≤ r.live.encard + S.encard ↔ r.ended ⊆ S := by
  have hlive : r.live.encard ≠ ⊤ := by
    rw [Set.encard_ne_top_iff]
    exact hfinite.subset (r.table_eq ▸ Set.subset_union_left)
  rw [table_eq, Set.encard_union_eq r.disjoint_live_ended, ENat.add_le_add_iff_left hlive]
  constructor
  · intro hle
    have hended : r.ended.Finite := hfinite.subset (r.table_eq ▸ Set.subset_union_right)
    exact ((hended.subset hsome).eq_of_subset_of_encard_le hsome hle).symm.subset
  · exact Set.encard_le_encard

/-! ## What a method does to the table -/

/-- The method concerns one id: it leaves the entries of the others, and the flag, alone,
and neither removes the entry nor revives the request. -/
structure OnlyAt (r r' : Inner) (id : RequestId) : Prop where
  others : ∀ j, j ≠ id → r'.requests j = r.requests j
  kept : id ∈ r.table → id ∈ r'.table
  terminal : r.Terminal id → r'.Terminal id
  shuttingDown : r'.shuttingDown = r.shuttingDown

theorem OnlyAt.refl (r : Inner) (id : RequestId) : r.OnlyAt r id :=
  ⟨fun _ _ => rfl, fun h => h, fun h => h, rfl⟩

theorem OnlyAt.finite {r r' : Inner} {id : RequestId} (h : r.OnlyAt r' id)
    (hfinite : r.table.Finite) : r'.table.Finite := by
  apply (hfinite.insert id).subset
  intro j hj
  by_cases hid : j = id
  · exact .inl hid
  · refine .inr ?_
    change r.requests j ≠ none
    rw [← h.others j hid]
    exact hj

theorem onlyAt_accept (r : Inner) (submit : RequestId → Priority → Except RouterError Unit)
    (req : RouterRequest) : r.OnlyAt (r.accept submit req).2 req.id := by
  unfold accept
  cases hopen : r.ensureOpen with
  | error e => exact .refl r _
  | ok _ =>
      simp only
      rcases hregister : r.register req with ⟨e | _, r₁⟩
      · rw [register_error hregister]
        exact .refl r _
      · obtain ⟨hfree, rfl⟩ := register_ok hregister
        have hfresh : ¬ r.Terminal req.id := by
          rintro ⟨e, hentry, -⟩
          cases hfree.symm.trans hentry
        simp only
        cases submit req.id req.priority with
        | ok _ =>
            exact ⟨fun j hj => by simp [hj], fun h => absurd hfree h,
              fun h => absurd h hfresh, rfl⟩
        | error e =>
            refine ⟨fun j hj => ?_, fun h => absurd hfree h, fun h => absurd h hfresh, ?_⟩
            · rw [requests_rollback hj]
              simp [hj]
            · simp [rollback]

theorem onlyAt_takeReceiver (r : Inner) (id : RequestId) :
    r.OnlyAt (r.takeReceiver id).2 id := by
  rcases htake : r.takeReceiver id with ⟨e | ch, r'⟩
  · rw [takeReceiver_error htake]
    exact .refl r id
  · obtain ⟨e, hentry, -, rfl⟩ := takeReceiver_ok htake
    refine ⟨fun j hj => by simp [hj], fun _ => by simp [table], ?_, rfl⟩
    rintro ⟨e', hentry', hterminal⟩
    cases hentry.symm.trans hentry'
    exact ⟨e.subscribed, by simp, hterminal⟩

theorem onlyAt_cancelEntry (r : Inner) (id : RequestId) :
    r.OnlyAt (r.cancelEntry id).2 id := by
  rcases hcancel : r.cancelEntry id with ⟨e | _, r'⟩
  · rw [(cancelEntry_error hcancel).1]
    exact .refl r id
  · have hterminal := terminal_cancelEntry hcancel
    obtain ⟨e, -, -, rfl⟩ := cancelEntry_ok hcancel
    exact ⟨fun j hj => by simp [hj], fun _ => by simp [table], fun _ => hterminal, by simp⟩

theorem onlyAt_complete (r : Inner) (id : RequestId) : r.OnlyAt (r.complete id) id := by
  unfold complete
  cases hentry : r.requests id with
  | none => exact .refl r id
  | some e =>
      exact ⟨fun j hj => by simp [hj], fun _ => by simp [table],
        fun _ => ⟨e.completed, by simp, rfl⟩, by simp⟩

theorem onlyAt_pushFrame (r : Inner) (frame : Frame) :
    r.OnlyAt (r.pushFrame frame).2 frame.requestId := by
  unfold pushFrame
  cases hopen : r.ensureOpen with
  | error e => exact .refl r _
  | ok _ =>
      simp only
      rcases hvalidate : r.validate frame with ⟨e | ch, r₁⟩
      · rw [(validate_error hvalidate).1]
        exact .refl r _
      · obtain ⟨e, hlive, hentry, -, -, rfl⟩ := validate_ok hvalidate
        have hfresh : ¬ r.Terminal frame.requestId := by
          rintro ⟨e', hentry', hterminal⟩
          cases hentry.symm.trans hentry'
          cases hlive.symm.trans hterminal
        simp only
        rcases hsend : sendFrame _ frame ch with ⟨e' | _, r₂⟩
        · rw [(sendFrame_error hsend).1]
          exact ⟨fun j hj => by simp [hj], fun _ => by simp [table],
            fun h => absurd h hfresh, by simp⟩
        · obtain ⟨-, c, rfl, -⟩ := sendFrame_ok hsend
          refine ⟨fun j hj => ?_, fun _ => ?_, fun h => absurd h hfresh, ?_⟩
          · simp only [dropSender_requests]
            split
            · rw [(onlyAt_complete _ _).others j hj]
              simp [hj]
            · simp [hj]
          · simp only [table, dropSender_requests]
            split
            · apply (onlyAt_complete _ _).kept
              simp [table]
            · simp
          · simp only [dropSender_shuttingDown]
            split
            · rw [(onlyAt_complete _ _).shuttingDown]
              simp
            · simp

/-- An open router refuses an id as a duplicate exactly if it has an entry. -/
theorem accept_duplicate_iff {r : Inner} (hopen : r.shuttingDown = false)
    (req : RouterRequest) (answer : Except String Unit) :
    (r.accept (fun _ _ => answer.mapError .scheduler) req).1
        = .error (.duplicateRequest req.id) ↔ req.id ∈ r.table := by
  change _ ↔ r.requests req.id ≠ none
  unfold accept register
  rw [ensureOpen_eq_ok.mpr hopen]
  cases r.requests req.id with
  | some e => simp
  | none =>
      cases answer with
      | ok _ => simp [Except.mapError]
      | error message => simp [Except.mapError]

end Inner

/-! ## Histories -/

/-- A call of a router that serves, with its scheduler's answer to an `accept`, or an act of
a consumer. -/
inductive ServingCall where
  | accept (req : RouterRequest) (answer : Except String Unit)
  | subscribe (id : RequestId)
  | pushFrame (frame : Frame)
  | cancel (id : RequestId)
  | state (id : RequestId)
  | recv (ch : ChanId)
  | dropReceiver (ch : ChanId)

namespace ServingCall

/-- The call as one of a session; `state` only reads. -/
def session : ServingCall → Option SessionCall
  | .accept req answer => some (.accept req (answer.mapError .scheduler))
  | .subscribe id => some (.subscribe id)
  | .pushFrame frame => some (.pushFrame frame)
  | .cancel id => some (.cancel id)
  | .state _ => none
  | .recv ch => some (.recv ch)
  | .dropReceiver ch => some (.dropReceiver ch)

/-- The request the call is an operation on. -/
def request : ServingCall → Option RequestId
  | .accept req _ => some req.id
  | .subscribe id => some id
  | .pushFrame frame => some frame.requestId
  | .cancel id => some id
  | .state id => some id
  | .recv _ => none
  | .dropReceiver _ => none

end ServingCall

/-- A session with the history of its requests. -/
structure Serving where
  session : Session
  /-- the latest operation on the request ended it -/
  settled : RequestId → Bool
  /-- the request that the latest operation on any request ended -/
  latest : Option RequestId

namespace Serving

/-- The operation ends the request it is on. -/
def ends (s s' : Session) (id : RequestId) : Bool :=
  !s.inner.hasEnded id && s'.inner.hasEnded id

/-- Record what an operation on a request does to it. -/
def record (s : Serving) (s' : Session) : Option RequestId → Serving
  | none => { s with session := s' }
  | some id =>
      { session := s'
        settled := Function.update s.settled id (ends s.session s' id)
        latest := if ends s.session s' id then some id else none }

/-- One call, and the record of what it did. -/
def step (s : Serving) (c : ServingCall) : Option (List (Except RouterError Unit) × Serving) :=
  match c.session with
  | none => some ([], s.record s.session c.request)
  | some call => (s.session.step call).map fun p => (p.1, s.record p.2 c.request)

end Serving

/-- A router of a given depth that serves any history of calls. -/
def servings (depth : Nat) : Machine Serving ServingCall (Except RouterError Unit) where
  init :=
    { session := (sessions depth).init
      settled := fun _ => false
      latest := none }
  step := Serving.step

namespace Serving

variable {s t : Serving} {c : ServingCall} {es : List (Except RouterError Unit)}

/-- What a call does: it is on at most one request. -/
theorem step_onlyAt (hopen : s.session.inner.shuttingDown = false)
    (hstep : s.step c = some (es, t)) :
    t = s.record t.session c.request ∧
      (∀ id, c.request = some id → s.session.inner.OnlyAt t.session.inner id) ∧
      (c.request = none → t.session.inner.requests = s.session.inner.requests ∧
        t.session.inner.shuttingDown = false) := by
  have hensure := Inner.ensureOpen_eq_ok.mpr hopen
  cases c with
  | accept req answer =>
      cases hstep
      exact ⟨rfl, fun id hid => by cases hid; exact Inner.onlyAt_accept .., nofun⟩
  | subscribe id =>
      have honly := s.session.inner.onlyAt_takeReceiver id
      simp only [step, ServingCall.session, Session.step, hensure] at hstep
      rcases htake : s.session.inner.takeReceiver id with ⟨e | ch, r⟩
      · rw [htake] at hstep honly
        cases hstep
        exact ⟨rfl, fun k hk => by cases hk; exact honly, nofun⟩
      · rw [htake] at hstep honly
        cases hstep
        exact ⟨rfl, fun k hk => by cases hk; exact honly, nofun⟩
  | pushFrame frame =>
      cases hstep
      exact ⟨rfl, fun id hid => by cases hid; exact Inner.onlyAt_pushFrame .., nofun⟩
  | cancel id =>
      simp only [step, ServingCall.session, Session.step, Session.guarded, hensure] at hstep
      cases hstep
      exact ⟨rfl, fun k hk => by cases hk; exact Inner.onlyAt_cancelEntry .., nofun⟩
  | state id =>
      cases hstep
      exact ⟨rfl, fun k _ => .refl _ k, nofun⟩
  | recv ch =>
      simp only [step, ServingCall.session, Session.step] at hstep
      split at hstep
      · cases hstep
        exact ⟨rfl, nofun, fun _ => ⟨rfl, hopen⟩⟩
      · cases hstep
  | dropReceiver ch =>
      simp only [step, ServingCall.session, Session.step] at hstep
      split at hstep
      · cases hstep
        exact ⟨rfl, nofun, fun _ => ⟨rfl, hopen⟩⟩
      · cases hstep

/-! ## What is counted -/

/-- What holds of every history. -/
structure Sound (s : Serving) : Prop where
  serving : s.session.inner.shuttingDown = false
  finite : s.session.inner.table.Finite
  settled : ∀ id, s.settled id = true → s.session.inner.Terminal id
  latest : ∀ id, s.latest = some id → s.session.inner.Terminal id

/-- The table is bounded by the live requests and those that the latest operation on them
ended. -/
def BoundedBySettled (s : Serving) : Prop :=
  s.session.inner.table.encard
    ≤ s.session.inner.live.encard + {id | s.settled id = true}.encard

/-- The table is bounded by the live requests, and the one that the latest operation of all
ended. -/
def BoundedByLatest (s : Serving) : Prop :=
  s.session.inner.table.encard
    ≤ s.session.inner.live.encard + {id | s.latest = some id}.encard

/-- An id is a duplicate exactly while its request is live. -/
def RefusesLive (s : Serving) (c : ServingCall) : Prop :=
  ∀ req answer, c = .accept req answer →
    ((s.session.inner.accept (fun _ _ => answer.mapError .scheduler) req).1
      = .error (.duplicateRequest req.id) ↔ req.id ∈ s.session.inner.live)

/-- The operation is on a request that has not ended. -/
def Untouched (s : Serving) (c : ServingCall) : Prop :=
  ∀ id, c.request = some id → ¬ s.session.inner.Terminal id

/-- At the operation no request at all has ended. -/
def NoneEnded (s : Serving) (c : ServingCall) : Prop :=
  ∀ id, c.request = some id → s.session.inner.ended = ∅

theorem NoneEnded.untouched (h : s.NoneEnded c) : s.Untouched c := by
  intro id hid hterminal
  have hempty := h id hid
  rw [Set.eq_empty_iff_forall_notMem] at hempty
  exact hempty id hterminal

theorem Sound.boundedBySettled_iff (h : s.Sound) :
    s.BoundedBySettled ↔ ∀ id, s.session.inner.Terminal id → s.settled id = true :=
  Inner.encard_table_le_iff h.finite h.settled

theorem Sound.boundedByLatest_iff (h : s.Sound) :
    s.BoundedByLatest ↔ ∀ id, s.session.inner.Terminal id → s.latest = some id :=
  Inner.encard_table_le_iff h.finite h.latest

theorem Sound.refusesLive (h : s.Sound) (huntouched : s.Untouched c) : s.RefusesLive c := by
  rintro req answer rfl
  rw [Inner.accept_duplicate_iff h.serving, Inner.table_eq]
  constructor
  · intro hmem
    exact hmem.resolve_right (huntouched req.id rfl)
  · exact Or.inl

/-- A request other than the one operated on ends or not as before. -/
theorem terminal_congr {r r' : Inner} {id : RequestId} (h : r'.requests id = r.requests id) :
    r'.Terminal id ↔ r.Terminal id := by
  unfold Inner.Terminal
  rw [h]

theorem ends_iff {s s' : Session} {id : RequestId} :
    ends s s' id = true ↔ ¬ s.inner.Terminal id ∧ s'.inner.Terminal id := by
  unfold ends
  rw [Bool.and_eq_true, Bool.not_eq_true', ← Inner.hasEnded_iff, ← Inner.hasEnded_iff,
    Bool.not_eq_true]

/-- What one call does, read off the history it records. -/
inductive Recorded (s t : Serving) (c : ServingCall) : Prop where
  /-- the call is on no request -/
  | quiet (hnone : c.request = none)
      (hrequests : t.session.inner.requests = s.session.inner.requests)
      (hserving : t.session.inner.shuttingDown = false)
      (hsettled : t.settled = s.settled) (hlatest : t.latest = s.latest)
  /-- the call is on a request -/
  | on (id : RequestId) (hid : c.request = some id)
      (honly : s.session.inner.OnlyAt t.session.inner id)
      (hsettled : t.settled = Function.update s.settled id (ends s.session t.session id))
      (hlatest : t.latest = if ends s.session t.session id then some id else none)

theorem step_recorded (hopen : s.session.inner.shuttingDown = false)
    (hstep : s.step c = some (es, t)) : Recorded s t c := by
  obtain ⟨heq, honly, hquiet⟩ := step_onlyAt hopen hstep
  cases hrequest : c.request with
  | none =>
      rw [hrequest] at heq
      obtain ⟨hrequests, hserving⟩ := hquiet hrequest
      exact .quiet hrequest hrequests hserving ((congrArg Serving.settled heq).trans rfl)
        ((congrArg Serving.latest heq).trans rfl)
  | some id =>
      rw [hrequest] at heq
      exact .on id hrequest (honly id hrequest) (congrArg Serving.settled heq)
        (congrArg Serving.latest heq)

theorem Sound.step (h : s.Sound) (hstep : s.step c = some (es, t)) : t.Sound := by
  cases step_recorded h.serving hstep with
  | quiet hnone hrequests hserving hsettled hlatest =>
      refine ⟨hserving, ?_, ?_, ?_⟩
      · have hfinite := h.finite
        unfold Inner.table at hfinite ⊢
        rwa [hrequests]
      · intro id hid
        exact (h.settled id (hsettled ▸ hid)).congr hrequests
      · intro id hid
        exact (h.latest id (hlatest ▸ hid)).congr hrequests
  | on id hid honly hsettled hlatest =>
      refine ⟨honly.shuttingDown.trans h.serving, honly.finite h.finite, ?_, ?_⟩
      · intro j hj
        rw [hsettled] at hj
        by_cases heq : j = id
        · subst heq
          rw [Function.update_self] at hj
          exact (ends_iff.mp hj).2
        · rw [Function.update_of_ne heq] at hj
          exact (terminal_congr (honly.others j heq)).mpr (h.settled j hj)
      · intro j hj
        rw [hlatest] at hj
        split at hj
        · next hends =>
            cases hj
            exact (ends_iff.mp hends).2
        · cases hj

/-- An operation keeps the table bounded exactly if its request has not ended. -/
theorem Sound.boundedBySettled_step (h : s.Sound) (hbounded : s.BoundedBySettled)
    (hstep : s.step c = some (es, t)) : t.BoundedBySettled ↔ s.Untouched c := by
  rw [h.boundedBySettled_iff] at hbounded
  rw [(h.step hstep).boundedBySettled_iff]
  cases step_recorded h.serving hstep with
  | quiet hnone hrequests hserving hsettled hlatest =>
      refine iff_of_true ?_ fun id hid => nomatch hnone.symm.trans hid
      intro id hterminal
      rw [hsettled]
      exact hbounded id ((terminal_congr (congrFun hrequests id)).mp hterminal)
  | on id hid honly hsettled hlatest =>
      constructor
      · intro hall k hk hterminal
        cases hid.symm.trans hk
        have hsettles := hall id (honly.terminal hterminal)
        rw [hsettled, Function.update_self, ends_iff] at hsettles
        exact hsettles.1 hterminal
      · intro huntouched j hterminal
        rw [hsettled]
        by_cases heq : j = id
        · subst heq
          rw [Function.update_self, ends_iff]
          exact ⟨huntouched j hid, hterminal⟩
        · rw [Function.update_of_ne heq]
          exact hbounded j ((terminal_congr (honly.others j heq)).mp hterminal)

/-- An operation keeps the table bounded by the live requests exactly if none has ended. -/
theorem Sound.boundedByLatest_step (h : s.Sound) (hbounded : s.BoundedByLatest)
    (hstep : s.step c = some (es, t)) : t.BoundedByLatest ↔ s.NoneEnded c := by
  rw [h.boundedByLatest_iff] at hbounded
  rw [(h.step hstep).boundedByLatest_iff]
  cases step_recorded h.serving hstep with
  | quiet hnone hrequests hserving hsettled hlatest =>
      refine iff_of_true ?_ fun id hid => nomatch hnone.symm.trans hid
      intro id hterminal
      rw [hlatest]
      exact hbounded id ((terminal_congr (congrFun hrequests id)).mp hterminal)
  | on id hid honly hsettled hlatest =>
      have hwas : ∀ j, s.session.inner.Terminal j → t.latest ≠ some j := by
        intro j hterminal hj
        rw [hlatest] at hj
        split at hj
        · next hends =>
            cases hj
            exact (ends_iff.mp hends).1 hterminal
        · cases hj
      constructor
      · intro hall k _
        rw [Set.eq_empty_iff_forall_notMem]
        intro j hterminal
        have hstays : t.session.inner.Terminal j := by
          by_cases heq : j = id
          · exact heq ▸ honly.terminal (heq ▸ hterminal)
          · exact (terminal_congr (honly.others j heq)).mpr hterminal
        exact hwas j hterminal (hall j hstays)
      · intro hnone j hterminal
        have hempty := Set.eq_empty_iff_forall_notMem.mp (hnone id hid)
        by_cases heq : j = id
        · subst heq
          rw [hlatest, if_pos (ends_iff.mpr ⟨hempty j, hterminal⟩)]
        · exact absurd ((terminal_congr (honly.others j heq)).mp hterminal) (hempty j)

theorem Sound.init (depth : Nat) : (servings depth).init.Sound where
  serving := rfl
  finite := by
    have hempty : (servings depth).init.session.inner.table = ∅ :=
      Set.eq_empty_iff_forall_notMem.mpr fun id hid => hid rfl
    exact hempty ▸ Set.finite_empty
  settled := fun _ hid => nomatch hid
  latest := fun _ hid => nomatch hid

end Serving

/-- An id is a duplicate exactly while live, at every call of a history whose operations
are on requests that have not ended. -/
theorem refusesLive_of_untouched {depth : Nat} {calls : List ServingCall}
    (hmeets : (servings depth).Meets Serving.Untouched (servings depth).init calls) :
    (servings depth).Meets Serving.RefusesLive (servings depth).init calls := by
  apply Machine.along_iff_split.mpr
  intro before c after es s fs t hcalls hrun hstep
  have hsound : s.Sound :=
    Machine.invariant_run (I := Serving.Sound) (fun _ _ _ _ h hone => h.step hone)
      (Serving.Sound.init depth) hrun
  exact hsound.refusesLive (Machine.along_iff_split.mp hmeets before c after es s fs t hcalls
    hrun hstep)

/-- When ended requests make way.  The table is bounded by the live requests and those that
the latest operation on them ended, and an id is free once its request has ended, exactly
in the histories that never operate on a request that has ended.  It is bounded by the live
requests, and the one that the latest operation of all ended, exactly in the histories that
never operate on any request once one has ended. -/
theorem reaping_iff (depth : Nat) (calls : List ServingCall) :
    ((servings depth).Throughout Serving.BoundedBySettled (servings depth).init calls ∧
        (servings depth).Meets Serving.RefusesLive (servings depth).init calls ↔
      (servings depth).Meets Serving.Untouched (servings depth).init calls) ∧
    ((servings depth).Throughout Serving.BoundedByLatest (servings depth).init calls ∧
        (servings depth).Meets Serving.RefusesLive (servings depth).init calls ↔
      (servings depth).Meets Serving.NoneEnded (servings depth).init calls) := by
  have hsettled : (servings depth).Throughout Serving.BoundedBySettled
      (servings depth).init calls ↔
        (servings depth).Meets Serving.Untouched (servings depth).init calls := by
    apply Machine.throughout_iff_meets (J := Serving.Sound)
    · intro s c es t hsound hbounded hstep
      exact ⟨hsound.step hstep, hsound.boundedBySettled_step hbounded hstep⟩
    · exact .init depth
    · rw [(Serving.Sound.init depth).boundedBySettled_iff]
      rintro id ⟨e, hentry, -⟩
      cases hentry
  have hlatest : (servings depth).Throughout Serving.BoundedByLatest
      (servings depth).init calls ↔
        (servings depth).Meets Serving.NoneEnded (servings depth).init calls := by
    apply Machine.throughout_iff_meets (J := Serving.Sound)
    · intro s c es t hsound hbounded hstep
      exact ⟨hsound.step hstep, hsound.boundedByLatest_step hbounded hstep⟩
    · exact .init depth
    · rw [(Serving.Sound.init depth).boundedByLatest_iff]
      rintro id ⟨e, hentry, -⟩
      cases hentry
  rw [hsettled, hlatest]
  refine ⟨⟨fun h => h.1, fun h => ⟨h, refusesLive_of_untouched h⟩⟩,
    ⟨fun h => h.1, fun h => ⟨h, refusesLive_of_untouched ?_⟩⟩⟩
  exact Machine.along_iff_split.mpr fun before c after es s fs t hcalls hrun hstep =>
    (Machine.along_iff_split.mp h before c after es s fs t hcalls hrun hstep).untouched

/-- One request served, then its id accepted again. -/
def servedTwice : List ServingCall :=
  [.accept ⟨⟨"a"⟩, .normal⟩ (.ok ()), .pushFrame ⟨⟨"a"⟩, 0, [], true⟩,
    .accept ⟨⟨"a"⟩, .normal⟩ (.ok ())]

/-- The id is refused as a duplicate, and its entry stays. -/
theorem servedTwice_not_reaped :
    ¬ ((servings 1).Throughout Serving.BoundedBySettled (servings 1).init servedTwice ∧
      (servings 1).Meets Serving.RefusesLive (servings 1).init servedTwice) := by
  rintro ⟨-, hrefuses⟩
  have hthird := Machine.along_iff_split.mp hrefuses (servedTwice.take 2)
    (.accept ⟨⟨"a"⟩, .normal⟩ (.ok ())) [] _ _ _ _ rfl rfl rfl
  obtain ⟨e, hentry, hlive⟩ := (hthird _ _ rfl).mp rfl
  cases hentry
  cases hlive

end Repercep.Router
