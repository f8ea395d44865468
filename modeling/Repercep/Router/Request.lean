import Repercep.Router.Lifecycle
import Repercep.Router.Rules
set_option autoImplicit false

/-!
# Router: one request among many calls

What the steps of any caller can do to one request and to one call.  A request
that is not being withdrawn keeps its entry; its last index moves only when a push
of its own passes phase 1; once terminal it stays so.  A push and a cancel go
through stages, and each stage says what the router has recorded by then.
-/

namespace Repercep.Router

open Repercep.Foundation

/-- The request has ended. -/
def Inner.Terminal (r : Inner) (id : RequestId) : Prop :=
  ∃ e, r.requests id = some e ∧ e.state.isTerminal = true

/-- The request has ended, or `last` is the last index recorded for it. -/
def Inner.Recorded (r : Inner) (id : RequestId) (last : Option Nat) : Prop :=
  r.Terminal id ∨ ∃ e, r.requests id = some e ∧ e.lastFrameIndex = last

/-- The request has ended, or its receiver waits for a subscriber. -/
def Inner.Parked (r : Inner) (id : RequestId) : Prop :=
  ∃ e, r.requests id = some e ∧ (e.receiver.isSome = true ∨ e.state.isTerminal = true)

/-- A later entry of the same request, with no frame added. -/
structure Entry.Ages (e e' : Entry) : Prop where
  lastFrameIndex : e'.lastFrameIndex = e.lastFrameIndex
  terminal : e.state.isTerminal = true → e'.state.isTerminal = true

theorem Entry.Ages.refl (e : Entry) : e.Ages e := ⟨rfl, id⟩

/-- The frame a push carries until it returns. -/
def Call.frame? : Call → Option Frame
  | .called (.pushFrame frame) | .opened (.pushFrame frame) => some frame
  | .sending frame _ | .completing frame _ => some frame
  | _ => none

/-- The call a label runs. -/
def Action.caller : Action → Option CallId
  | .invoke c _ | .ensureOpen c | .enter c | .submitted c _ | .rollback c | .send c
  | .complete c => some c
  | .recv _ | .dropReceiver _ | .shutdown => none

/-- The program counters at which a label is enabled for its call. -/
def Action.finds : Action → Call → Prop
  | .ensureOpen _, .called _ => True
  | .enter _, .opened _ => True
  | .submitted _ _, .submitting _ => True
  | .rollback _, .rollingBack _ _ => True
  | .send _, .sending _ _ => True
  | .complete _, .completing _ _ => True
  | _, _ => False

namespace Inner

/-! ## Entries under each section -/

section Sections

variable {r r' : Inner} {id k : RequestId} {e : Entry}

theorem ages_register {req : RouterRequest} (h : r.register req = (.ok (), r'))
    (hentry : r.requests id = some e) : r'.requests id = some e := by
  obtain ⟨hfree, rfl⟩ := register_ok h
  have hne : id ≠ req.id := by
    intro heq
    rw [heq, hfree] at hentry
    cases hentry
  simpa [hne] using hentry

theorem ages_takeReceiver {ch : ChanId} (h : r.takeReceiver k = (.ok ch, r'))
    (hentry : r.requests id = some e) : ∃ e', r'.requests id = some e' ∧ e.Ages e' := by
  obtain ⟨e₀, hentry₀, -, rfl⟩ := takeReceiver_ok h
  by_cases hk : id = k
  · subst hk
    cases hentry₀.symm.trans hentry
    exact ⟨e.subscribed, by simp, rfl, fun hterminal => hterminal⟩
  · exact ⟨e, by simpa [hk] using hentry, .refl e⟩

theorem ages_cancelEntry (h : r.cancelEntry k = (.ok (), r'))
    (hentry : r.requests id = some e) : ∃ e', r'.requests id = some e' ∧ e.Ages e' := by
  obtain ⟨e₀, hentry₀, -, rfl⟩ := cancelEntry_ok h
  by_cases hk : id = k
  · subst hk
    cases hentry₀.symm.trans hentry
    exact ⟨e.cancelled, by simp, rfl, fun _ => rfl⟩
  · exact ⟨e, by simpa [hk] using hentry, .refl e⟩

theorem terminal_cancelEntry (h : r.cancelEntry id = (.ok (), r')) : r'.Terminal id := by
  obtain ⟨e₀, -, -, rfl⟩ := cancelEntry_ok h
  exact ⟨e₀.cancelled, by simp, rfl⟩

theorem ages_complete (hentry : r.requests id = some e) :
    ∃ e', (r.complete k).requests id = some e' ∧ e.Ages e' := by
  unfold complete
  cases hentry₀ : r.requests k with
  | none => exact ⟨e, hentry, .refl e⟩
  | some e₀ =>
      by_cases hk : id = k
      · subst hk
        cases hentry₀.symm.trans hentry
        exact ⟨e.completed, by simp, rfl, fun _ => rfl⟩
      · exact ⟨e, by simpa [hk] using hentry, .refl e⟩

theorem terminal_complete (hentry : r.requests id = some e) : (r.complete id).Terminal id := by
  unfold complete
  rw [hentry]
  exact ⟨e.completed, by simp, rfl⟩

theorem requests_rollback (hne : id ≠ k) : (r.rollback k).requests id = r.requests id := by
  unfold rollback
  cases r.requests k with
  | none => rfl
  | some e₀ => simp [hne]

theorem requests_validate {frame : Frame} {ch : ChanId}
    (h : r.validate frame = (.ok ch, r')) (hne : id ≠ frame.requestId) :
    r'.requests id = r.requests id := by
  obtain ⟨e₀, hlive, -, -, -, rfl⟩ := validate_ok h
  simp [hne]

end Sections

theorem Recorded.exists_entry {r : Inner} {id : RequestId} {last : Option Nat}
    (h : r.Recorded id last) : ∃ e, r.requests id = some e := by
  rcases h with ⟨e, hentry, -⟩ | ⟨e, hentry, -⟩
  · exact ⟨e, hentry⟩
  · exact ⟨e, hentry⟩

/-- A registered request has no frame yet. -/
theorem Recorded.of_register {r r' : Inner} {req : RouterRequest}
    (h : r.register req = (.ok (), r')) : r'.Recorded req.id none := by
  obtain ⟨-, rfl⟩ := register_ok h
  exact Or.inr ⟨.accepted r.nextChan req.priority, by simp, rfl⟩

/-- A subscriber of a parked request that gets no receiver comes after its end. -/
theorem Parked.takeReceiver_error {r r' : Inner} {id : RequestId} {err : RouterError}
    (h : r.Parked id) (htake : r.takeReceiver id = (.error err, r')) : r.Terminal id := by
  obtain ⟨e, hentry, hreceiver | hterminal⟩ := h
  · unfold Inner.takeReceiver at htake
    rw [hentry] at htake
    obtain ⟨ch, hch⟩ := Option.isSome_iff_exists.mp hreceiver
    simp [hch] at htake
  · exact ⟨e, hentry, hterminal⟩

theorem Terminal.congr {r r' : Inner} {id : RequestId} (h : r.Terminal id)
    (hsame : r'.requests = r.requests) : r'.Terminal id := by
  unfold Terminal
  rwa [hsame]

/-- A frame that passes phase 1 comes after the last recorded index, and is the new
one. -/
theorem Recorded.validate {r r' : Inner} {frame : Frame} {ch : ChanId} {last : Option Nat}
    (h : r.Recorded frame.requestId last) (hvalidate : r.validate frame = (.ok ch, r')) :
    (∀ i, last = some i → i < frame.frameIndex) ∧
      r'.Recorded frame.requestId (some frame.frameIndex) := by
  obtain ⟨e, hlive, hentry, hlast, -, rfl⟩ := validate_ok hvalidate
  refine ⟨?_, Or.inr ⟨e.recordFrame frame.frameIndex hlive, by simp, rfl⟩⟩
  rcases h with ⟨e', hentry', hterminal⟩ | ⟨e', hentry', rfl⟩
  · cases hentry'.symm.trans hentry
    rw [hlive] at hterminal
    cases hterminal
  · cases hentry'.symm.trans hentry
    exact hlast

end Inner

namespace Sys

variable {s t : Sys} {a : Action} {es : List Event}

/-- Call `c` is a push of `frame` that has not returned. -/
def Pushing (s : Sys) (c : CallId) (frame : Frame) : Prop :=
  ∃ call, s.calls c = some call ∧ call.frame? = some frame

/-- No refused `accept` is about to withdraw the request. -/
def Kept (s : Sys) (id : RequestId) : Prop :=
  ∀ c req e, s.calls c = some (.rollingBack req e) → req.id ≠ id

/-- A step moves no call but its own. -/
theorem Rule.calls_of_ne (h : s.Rule a es t) {c : CallId} (hne : a.caller ≠ some c) :
    t.calls c = s.calls c := by
  have hmoved : ∀ {d : CallId} {call : Call}, some d ≠ some c →
      Function.update s.calls d (some call) c = s.calls c := by
    intro d call hd
    exact Function.update_of_ne (fun heq => hd (by rw [heq])) _ _
  cases h with
  | deliver | ended | dropReceiver | shutdown => rfl
  | _ => exact hmoved hne

/-- A step of a call finds it at a program counter its label is meant for. -/
theorem Rule.finds (h : s.Rule a es t) {c : CallId} {call : Call}
    (hcaller : a.caller = some c) (hcall : s.calls c = some call) : a.finds call := by
  have hfound : ∀ {d : CallId} {found : Call}, s.calls d = some found → some d = some c →
      a.finds found → a.finds call := by
    rintro d found hd ⟨⟩ hfinds
    cases hd.symm.trans hcall
    exact hfinds
  cases h with
  | invoke hfree =>
      cases hcaller
      cases hfree.symm.trans hcall
  | opens hd _ => exact hfound hd hcaller trivial
  | shut hd _ => exact hfound hd hcaller trivial
  | refuse hd _ => exact hfound hd hcaller trivial
  | register hd _ => exact hfound hd hcaller trivial
  | validate hd _ => exact hfound hd hcaller trivial
  | subscribe hd _ => exact hfound hd hcaller trivial
  | cancel hd _ => exact hfound hd hcaller trivial
  | unsubmitted hd => exact hfound hd hcaller trivial
  | submitted hd => exact hfound hd hcaller trivial
  | rollback hd => exact hfound hd hcaller trivial
  | unsent hd _ => exact hfound hd hcaller trivial
  | sentFinal hd _ _ _ => exact hfound hd hcaller trivial
  | sent hd _ _ _ => exact hfound hd hcaller trivial
  | complete hd => exact hfound hd hcaller trivial
  | deliver | ended | dropReceiver | shutdown => cases hcaller

/-- A push in flight was in flight before, unless it has just been invoked. -/
theorem Rule.pushing (h : s.Rule a es t) {c : CallId} {frame : Frame}
    (hc : t.Pushing c frame) : s.Pushing c frame ∨ a = .invoke c (.pushFrame frame) := by
  obtain ⟨call, hcall, hframe⟩ := hc
  have hmoved : ∀ {d : CallId} {next : Call}, Function.update s.calls d (some next) c = some call →
      (next.frame? = some frame → d = c →
        s.Pushing c frame ∨ a = .invoke c (.pushFrame frame)) →
      s.Pushing c frame ∨ a = .invoke c (.pushFrame frame) := by
    intro d next hupdate hnext
    by_cases hd : d = c
    · subst hd
      rw [Function.update_self, Option.some.injEq] at hupdate
      subst hupdate
      exact hnext hframe rfl
    · rw [Function.update_of_ne (Ne.symm hd)] at hupdate
      exact Or.inl ⟨call, hupdate, hframe⟩
  cases h with
  | @invoke d op hfree =>
      refine hmoved hcall fun hnext heq => ?_
      subst heq
      cases op with
      | pushFrame g =>
          cases hnext
          exact Or.inr rfl
      | accept req => cases hnext
      | subscribe id => cases hnext
      | cancel id => cases hnext
  | @opens d op hopen _ =>
      refine hmoved hcall fun hnext heq => ?_
      subst heq
      cases op with
      | pushFrame g => exact Or.inl ⟨_, hopen, hnext⟩
      | accept req => cases hnext
      | subscribe id => cases hnext
      | cancel id => cases hnext
  | validate hopen _ =>
      refine hmoved hcall fun hnext heq => ?_
      subst heq
      exact Or.inl ⟨_, hopen, hnext⟩
  | sentFinal hsending _ _ _ =>
      refine hmoved hcall fun hnext heq => ?_
      subst heq
      exact Or.inl ⟨_, hsending, hnext⟩
  | deliver | ended | dropReceiver | shutdown => exact Or.inl ⟨call, hcall, hframe⟩
  | _ => exact hmoved hcall fun hnext _ => by cases hnext

/-- A request stays kept while the scheduler does not refuse it. -/
theorem Kept.step {id : RequestId} (hkept : s.Kept id) (h : s.Rule a es t)
    (hunrefused : ∀ c req e, a = .submitted c (.error e) →
      s.calls c = some (.submitting req) → req.id ≠ id) : t.Kept id := by
  have hmoved : ∀ {d : CallId} {next : Call}, (∀ req e, next = .rollingBack req e → req.id ≠ id) →
      ∀ c req e, Function.update s.calls d (some next) c = some (.rollingBack req e) →
        req.id ≠ id := by
    intro d next hnext c req e hcall
    by_cases hc : c = d
    · subst hc
      rw [Function.update_self, Option.some.injEq] at hcall
      exact hnext req e hcall
    · rw [Function.update_of_ne hc] at hcall
      exact hkept c req e hcall
  cases h with
  | @unsubmitted d req e hcall =>
      refine hmoved ?_
      rintro req' e' ⟨⟩
      exact hunrefused d req e rfl hcall
  | deliver | ended | dropReceiver | shutdown => exact hkept
  | _ => exact hmoved (by rintro _ _ ⟨⟩)

/-- A request that is not being withdrawn keeps its entry; its last index moves
only in the phase 1 of a push of its own, and then it is live. -/
theorem Rule.entry (h : s.Rule a es t) {id : RequestId} (hkept : s.Kept id) {e : Entry}
    (hentry : s.inner.requests id = some e) :
    ∃ e', t.inner.requests id = some e' ∧ (e.Ages e' ∨ (e.state.isTerminal = false ∧
      ∃ c frame, a = .enter c ∧ s.calls c = some (.opened (.pushFrame frame)) ∧
        frame.requestId = id)) := by
  have haged : ∀ {r : Inner}, (∃ e', r.requests id = some e' ∧ e.Ages e') →
      ∃ e', r.requests id = some e' ∧ (e.Ages e' ∨ (e.state.isTerminal = false ∧
        ∃ c frame, a = .enter c ∧ s.calls c = some (.opened (.pushFrame frame)) ∧
          frame.requestId = id)) := by
    rintro r ⟨e', hentry', hages⟩
    exact ⟨e', hentry', Or.inl hages⟩
  cases h with
  | register hcall hregister => exact haged ⟨e, Inner.ages_register hregister hentry, .refl e⟩
  | @validate c frame ch r hcall hvalidate =>
      by_cases hid : frame.requestId = id
      · subst hid
        obtain ⟨e₀, hlive, hentry₀, -, -, rfl⟩ := Inner.validate_ok hvalidate
        cases hentry₀.symm.trans hentry
        exact ⟨e.recordFrame frame.frameIndex hlive, by simp, Or.inr
          ⟨hlive, c, frame, rfl, hcall, rfl⟩⟩
      · refine haged ⟨e, ?_, .refl e⟩
        rw [advance_inner, Inner.requests_validate hvalidate (Ne.symm hid)]
        exact hentry
  | subscribe hcall htake => exact haged (Inner.ages_takeReceiver htake hentry)
  | cancel hcall hcancel => exact haged (Inner.ages_cancelEntry hcancel hentry)
  | rollback hcall =>
      refine haged ⟨e, ?_, .refl e⟩
      rw [advance_inner, Inner.requests_rollback (Ne.symm (hkept _ _ _ hcall))]
      exact hentry
  | @complete c frame ch hcall =>
      obtain ⟨e', hentry', hages⟩ := Inner.ages_complete (k := frame.requestId) hentry
      exact haged ⟨e', by simpa using hentry', hages⟩
  | shutdown => exact haged ⟨e, hentry, .refl e⟩
  | _ => exact haged ⟨e, by simpa using hentry, .refl e⟩

/-- An unknown request stays unknown until it is registered. -/
theorem Rule.entry_none (h : s.Rule a es t) {id : RequestId}
    (hfree : s.inner.requests id = none) :
    t.inner.requests id = none ∨
      ∃ c req, a = .enter c ∧ s.calls c = some (.opened (.accept req)) ∧ req.id = id ∧
        s.inner.register req = (.ok (), t.inner) := by
  have hne : ∀ {k : RequestId} {e : Entry}, s.inner.requests k = some e → id ≠ k := by
    rintro k e hentry rfl
    rw [hfree] at hentry
    cases hentry
  cases h with
  | @register c req r hcall hregister =>
      by_cases hid : req.id = id
      · exact Or.inr ⟨c, req, rfl, hcall, hid, hregister⟩
      · obtain ⟨-, hinner⟩ := Inner.register_ok hregister
        left
        rw [advance_inner, hinner]
        simpa [Ne.symm hid] using hfree
  | validate hcall hvalidate =>
      obtain ⟨e, hlive, hentry, -, -, rfl⟩ := Inner.validate_ok hvalidate
      exact Or.inl (by simpa [hne hentry] using hfree)
  | subscribe hcall htake =>
      obtain ⟨e, hentry, -, rfl⟩ := Inner.takeReceiver_ok htake
      exact Or.inl (by simpa [hne hentry] using hfree)
  | cancel hcall hcancel =>
      obtain ⟨e, hentry, -, rfl⟩ := Inner.cancelEntry_ok hcancel
      exact Or.inl (by simpa [hne hentry] using hfree)
  | @rollback c req e hcall =>
      refine Or.inl ?_
      rw [advance_inner]
      unfold Inner.rollback
      cases hentry : s.inner.requests req.id with
      | none => exact hfree
      | some e => simpa [hne hentry] using hfree
  | @complete c frame ch hcall =>
      refine Or.inl ?_
      rw [advance_inner, Inner.dropSender_requests]
      unfold Inner.complete
      cases hentry : s.inner.requests frame.requestId with
      | none => exact hfree
      | some e => simpa [hne hentry] using hfree
  | shutdown => exact Or.inl hfree
  | _ => exact Or.inl (by simpa using hfree)

/-- A terminal request stays terminal. -/
theorem Rule.terminal (h : s.Rule a es t) {id : RequestId} (hkept : s.Kept id)
    (hterminal : s.inner.Terminal id) : t.inner.Terminal id := by
  obtain ⟨e, hentry, hended⟩ := hterminal
  obtain ⟨e', hentry', hages | ⟨hlive, -⟩⟩ := h.entry hkept hentry
  · exact ⟨e', hentry', hages.terminal hended⟩
  · rw [hlive] at hended
    cases hended

/-- The last index stays unless the step is the phase 1 of a push of the request. -/
theorem Rule.recorded (h : s.Rule a es t) {id : RequestId} (hkept : s.Kept id)
    (hquiet : ∀ c frame, a = .enter c → s.calls c = some (.opened (.pushFrame frame)) →
      frame.requestId ≠ id) {last : Option Nat}
    (hlast : s.inner.Recorded id last) : t.inner.Recorded id last := by
  rcases hlast with hterminal | ⟨e, hentry, rfl⟩
  · exact Or.inl (h.terminal hkept hterminal)
  · obtain ⟨e', hentry', hages | ⟨-, c, frame, ha, hcall, hid⟩⟩ := h.entry hkept hentry
    · exact Or.inr ⟨e', hentry', hages.lastFrameIndex⟩
    · exact absurd hid (hquiet c frame ha hcall)

/-- A receiver is taken by a `subscribe` of its request, or dropped when the request
ends. -/
theorem Rule.parked (h : s.Rule a es t) {id : RequestId} (hkept : s.Kept id)
    (hquiet : ∀ c, a = .enter c → s.calls c ≠ some (.opened (.subscribe id)))
    (hparked : s.inner.Parked id) : t.inner.Parked id := by
  obtain ⟨e, hentry, hreceiver⟩ := hparked
  cases h with
  | register hcall hregister =>
      exact ⟨e, Inner.ages_register hregister hentry, hreceiver⟩
  | @validate c frame ch r hcall hvalidate =>
      obtain ⟨e₀, hlive, hentry₀, -, -, rfl⟩ := Inner.validate_ok hvalidate
      by_cases hid : id = frame.requestId
      · subst hid
        cases hentry₀.symm.trans hentry
        refine ⟨e.recordFrame frame.frameIndex hlive, by simp, Or.inl ?_⟩
        simpa [hlive] using hreceiver
      · exact ⟨e, by simpa [hid] using hentry, hreceiver⟩
  | @subscribe c k ch r hcall htake =>
      obtain ⟨e₀, -, -, rfl⟩ := Inner.takeReceiver_ok htake
      have hne : id ≠ k := by
        rintro rfl
        exact hquiet c rfl hcall
      exact ⟨e, by simpa [hne] using hentry, hreceiver⟩
  | @cancel c k r hcall hcancel =>
      by_cases hid : id = k
      · subst hid
        obtain ⟨e', hentry', hended⟩ := Inner.terminal_cancelEntry hcancel
        exact ⟨e', hentry', Or.inr hended⟩
      · obtain ⟨e₀, -, -, rfl⟩ := Inner.cancelEntry_ok hcancel
        exact ⟨e, by simpa [hid] using hentry, hreceiver⟩
  | rollback hcall =>
      refine ⟨e, ?_, hreceiver⟩
      rw [advance_inner, Inner.requests_rollback (Ne.symm (hkept _ _ _ hcall))]
      exact hentry
  | @complete c frame ch hcall =>
      by_cases hid : id = frame.requestId
      · subst hid
        obtain ⟨e', hentry', hended⟩ := Inner.terminal_complete hentry
        exact ⟨e', by simpa using hentry', Or.inr hended⟩
      · refine ⟨e, ?_, hreceiver⟩
        rw [advance_inner, Inner.dropSender_requests]
        unfold Inner.complete
        split
        · exact hentry
        · simpa [hid] using hentry
  | shutdown => exact ⟨e, hentry, hreceiver⟩
  | _ => exact ⟨e, by simpa using hentry, hreceiver⟩

/-- A request becomes `Complete` only in the phase 3 of a push of its own. -/
theorem Rule.completes (h : s.Rule a es t) {id : RequestId}
    (hstate : t.inner.state id = some .complete) : s.inner.state id = some .complete ∨
      ∃ c frame ch, s.calls c = some (.completing frame ch) ∧ frame.requestId = id := by
  cases h with
  | @register c req r _ hregister =>
      obtain ⟨-, hinner⟩ := Inner.register_ok hregister
      by_cases hid : id = req.id
      · subst hid
        rw [advance_inner, hinner] at hstate
        simp [Inner.state] at hstate
      · rw [advance_inner, hinner] at hstate
        exact Or.inl (by simpa [Inner.state, hid] using hstate)
  | @validate c frame ch r _ hvalidate =>
      obtain ⟨e, hlive, hentry, -, -, rfl⟩ := Inner.validate_ok hvalidate
      left
      rw [advance_inner, Inner.state_setChan, Inner.state_setEntry] at hstate
      split at hstate
      · rename_i hid
        subst hid
        rw [Inner.state_of_entry hentry]
        rw [Entry.recordFrame_state, Option.some.injEq, Entry.firstFrame] at hstate
        split at hstate
        · cases hstate
        · rw [hstate]
      · exact hstate
  | @subscribe c k ch r _ htake =>
      rw [hold_inner, advance_inner, Inner.takeReceiver_state htake] at hstate
      exact Or.inl hstate
  | @cancel c k r _ hcancel =>
      obtain ⟨e, -, -, rfl⟩ := Inner.cancelEntry_ok hcancel
      rw [advance_inner, Inner.state_dropReceiver, Inner.state_dropSender,
        Inner.state_setEntry] at hstate
      split at hstate
      · cases hstate
      · exact Or.inl hstate
  | @rollback c req e _ =>
      left
      rw [advance_inner] at hstate
      unfold Inner.rollback at hstate
      split at hstate
      · exact hstate
      · rw [Inner.state_dropReceiver, Inner.state_dropSender, Inner.state_removeEntry] at hstate
        split at hstate
        · cases hstate
        · exact hstate
  | @complete c frame ch hcall =>
      by_cases hid : frame.requestId = id
      · exact Or.inr ⟨c, frame, ch, hcall, hid⟩
      · left
        rw [advance_inner, Inner.state_dropSender] at hstate
        unfold Inner.complete at hstate
        split at hstate
        · exact hstate
        · rwa [Inner.state_dropSender, Inner.state_setEntry, if_neg (Ne.symm hid)] at hstate
  | shutdown => exact Or.inl hstate
  | _ => exact Or.inl (by simpa using hstate)

/-- A request ends by a cancel or by the phase 3 of a push of its own. -/
theorem Rule.ends (h : s.Rule a es t) {id : RequestId} (hterminal : t.inner.Terminal id) :
    s.inner.Terminal id ∨
      (∃ c r, a = .enter c ∧ s.calls c = some (.opened (.cancel id)) ∧
        s.inner.cancelEntry id = (.ok (), r)) ∨
      ∃ c frame ch, s.calls c = some (.completing frame ch) ∧ frame.requestId = id := by
  obtain ⟨e, hentry, hended⟩ := hterminal
  cases h with
  | @register c req r _ hregister =>
      obtain ⟨-, hinner⟩ := Inner.register_ok hregister
      rw [advance_inner, hinner] at hentry
      by_cases hid : id = req.id
      · subst hid
        have hsame : Entry.accepted s.inner.nextChan req.priority = e := by simpa using hentry
        subst hsame
        cases hended
      · exact Or.inl ⟨e, by simpa [hid] using hentry, hended⟩
  | @validate c frame ch r _ hvalidate =>
      obtain ⟨e₀, hlive, hentry₀, -, -, rfl⟩ := Inner.validate_ok hvalidate
      by_cases hid : id = frame.requestId
      · subst hid
        have hsame : e₀.recordFrame frame.frameIndex hlive = e := by simpa using hentry
        subst hsame
        rw [Entry.recordFrame_state, Entry.firstFrame_isTerminal hlive] at hended
        cases hended
      · exact Or.inl ⟨e, by simpa [hid] using hentry, hended⟩
  | @subscribe c k ch r _ htake =>
      obtain ⟨e₀, hentry₀, -, rfl⟩ := Inner.takeReceiver_ok htake
      by_cases hid : id = k
      · subst hid
        have hsame : e₀.subscribed = e := by simpa using hentry
        subst hsame
        exact Or.inl ⟨e₀, hentry₀, hended⟩
      · exact Or.inl ⟨e, by simpa [hid] using hentry, hended⟩
  | @cancel c k r hcall hcancel =>
      by_cases hid : id = k
      · subst hid
        exact Or.inr (Or.inl ⟨c, r, rfl, hcall, hcancel⟩)
      · obtain ⟨e₀, -, -, rfl⟩ := Inner.cancelEntry_ok hcancel
        exact Or.inl ⟨e, by simpa [hid] using hentry, hended⟩
  | @rollback c req err _ =>
      rw [advance_inner] at hentry
      by_cases hid : id = req.id
      · subst hid
        unfold Inner.rollback at hentry
        split at hentry
        · exact Or.inl ⟨e, hentry, hended⟩
        · simp at hentry
      · rw [Inner.requests_rollback hid] at hentry
        exact Or.inl ⟨e, hentry, hended⟩
  | @complete c frame ch hcall =>
      by_cases hid : frame.requestId = id
      · exact Or.inr (Or.inr ⟨c, frame, ch, hcall, hid⟩)
      · left
        rw [advance_inner, Inner.dropSender_requests] at hentry
        unfold Inner.complete at hentry
        split at hentry
        · exact ⟨e, hentry, hended⟩
        · exact ⟨e, by simpa [Ne.symm hid] using hentry, hended⟩
  | shutdown => exact Or.inl ⟨e, hentry, hended⟩
  | _ => exact Or.inl ⟨e, by simpa using hentry, hended⟩

/-! ## The stages of a push -/

/-- How far the push of `frame` by call `c` has come, `last` being the last index
recorded before it. -/
inductive PushStage (s : Sys) (c : CallId) (frame : Frame) (last : Option Nat) : Prop where
  | called (hcall : s.calls c = some (.called (.pushFrame frame)))
      (hlast : s.inner.Recorded frame.requestId last)
  | opened (hcall : s.calls c = some (.opened (.pushFrame frame)))
      (hlast : s.inner.Recorded frame.requestId last)
  | sending {ch : ChanId} (hcall : s.calls c = some (.sending frame ch))
      (hafter : ∀ i, last = some i → i < frame.frameIndex)
      (hlast : s.inner.Recorded frame.requestId (some frame.frameIndex))
  | completing {ch : ChanId} (hcall : s.calls c = some (.completing frame ch))
      (hafter : ∀ i, last = some i → i < frame.frameIndex)
      (hlast : s.inner.Recorded frame.requestId (some frame.frameIndex))
  | accepted (hcall : s.calls c = some (.done (.ok ())))
      (hafter : ∀ i, last = some i → i < frame.frameIndex)
      (hlast : s.inner.Recorded frame.requestId (some frame.frameIndex))
      (hfinal : frame.isFinal = true → s.inner.Terminal frame.requestId)
  | refused {e : RouterError} (hcall : s.calls c = some (.done (.error e)))

/-- While call `c` is the only push of its request, its stages follow each other. -/
theorem PushStage.step {c : CallId} {frame : Frame} {last : Option Nat}
    (hstage : s.PushStage c frame last) (h : s.Rule a es t)
    (hkept : s.Kept frame.requestId)
    (hlone : ∀ d g, s.calls d = some (.opened (.pushFrame g)) →
      g.requestId = frame.requestId → d = c) : t.PushStage c frame last := by
  have hrecorded : ∀ {i : Option Nat}, a ≠ .enter c →
      s.inner.Recorded frame.requestId i → t.inner.Recorded frame.requestId i := by
    intro i hne
    refine h.recorded hkept ?_
    rintro d g rfl hopen hid
    exact hne (by rw [hlone d g hopen hid])
  by_cases hcaller : a.caller = some c
  · cases hstage with
    | called hcall hlast =>
        have hfinds := h.finds hcaller hcall
        cases a with
        | ensureOpen d =>
            cases hcaller
            cases h with
            | opens hcall' hopen =>
                cases hcall.symm.trans hcall'
                exact .opened advance_calls_self (hrecorded (by simp) hlast)
            | shut hcall' hshut => exact .refused advance_calls_self
        | _ => cases hfinds
    | opened hcall hlast =>
        have hfinds := h.finds hcaller hcall
        cases a with
        | enter d =>
            cases hcaller
            cases h with
            | refuse hcall' _ => exact .refused advance_calls_self
            | validate hcall' hvalidate =>
                cases hcall.symm.trans hcall'
                obtain ⟨hafter, hlast'⟩ := hlast.validate hvalidate
                exact .sending advance_calls_self hafter hlast'
            | register hcall' _ => cases hcall.symm.trans hcall'
            | subscribe hcall' _ => cases hcall.symm.trans hcall'
            | cancel hcall' _ => cases hcall.symm.trans hcall'
        | _ => cases hfinds
    | sending hcall hafter hlast =>
        have hfinds := h.finds hcaller hcall
        cases a with
        | send d =>
            cases hcaller
            cases h with
            | unsent hcall' hroom => exact .refused advance_calls_self
            | sentFinal hcall' hroom happends hfinal =>
                cases hcall.symm.trans hcall'
                exact .completing advance_calls_self hafter (hrecorded (by simp) hlast)
            | sent hcall' hroom happends hfinal =>
                cases hcall.symm.trans hcall'
                refine .accepted advance_calls_self hafter (hrecorded (by simp) hlast) ?_
                intro htrue
                rw [hfinal] at htrue
                cases htrue
        | _ => cases hfinds
    | completing hcall hafter hlast =>
        have hfinds := h.finds hcaller hcall
        cases a with
        | complete d =>
            cases hcaller
            cases h with
            | complete hcall' =>
                cases hcall.symm.trans hcall'
                refine .accepted advance_calls_self hafter (hrecorded (by simp) hlast) fun _ => ?_
                obtain ⟨e, hentry⟩ := hlast.exists_entry
                exact (Inner.terminal_complete hentry).congr (by simp)
        | _ => cases hfinds
    | accepted hcall hafter hlast hfinal =>
        have hfinds := h.finds hcaller hcall
        cases a <;> cases hfinds
    | refused hcall =>
        have hfinds := h.finds hcaller hcall
        cases a <;> cases hfinds
  · have hsame := h.calls_of_ne hcaller
    have hne : a ≠ .enter c := by
      rintro rfl
      exact hcaller rfl
    cases hstage with
    | called hcall hlast => exact .called (hsame.trans hcall) (hrecorded hne hlast)
    | opened hcall hlast => exact .opened (hsame.trans hcall) (hrecorded hne hlast)
    | sending hcall hafter hlast =>
        exact .sending (hsame.trans hcall) hafter (hrecorded hne hlast)
    | completing hcall hafter hlast =>
        exact .completing (hsame.trans hcall) hafter (hrecorded hne hlast)
    | accepted hcall hafter hlast hfinal =>
        exact .accepted (hsame.trans hcall) hafter (hrecorded hne hlast)
          fun htrue => h.terminal hkept (hfinal htrue)
    | refused hcall => exact .refused (hsame.trans hcall)

/-! ## The stages of a cancel -/

/-- How far a `cancel` by call `c` has come: when it returns, the request has ended. -/
inductive CancelStage (s : Sys) (c : CallId) (id : RequestId) : Prop where
  | called (hcall : s.calls c = some (.called (.cancel id)))
  | opened (hcall : s.calls c = some (.opened (.cancel id)))
  | done {result : Except RouterError Unit} (hcall : s.calls c = some (.done result))
      (hterminal : s.inner.Terminal id)

/-- On a router that knows the request, the stages of a cancel follow each other, unless
the router is shut and turns the cancel of a live request away. -/
theorem CancelStage.step {c : CallId} {id : RequestId} (hstage : s.CancelStage c id)
    (h : s.Rule a es t) (hkept : s.Kept id)
    (hunrefused : a = .ensureOpen c → s.inner.shuttingDown = true → s.inner.Terminal id)
    (hknown : ∃ e, s.inner.requests id = some e) : t.CancelStage c id := by
  by_cases hcaller : a.caller = some c
  · cases hstage with
    | called hcall =>
        have hfinds := h.finds hcaller hcall
        cases a with
        | ensureOpen d =>
            cases hcaller
            cases h with
            | opens hcall' _ =>
                cases hcall.symm.trans hcall'
                exact .opened advance_calls_self
            | shut hcall' hshut => exact .done advance_calls_self (hunrefused rfl hshut)
        | _ => cases hfinds
    | opened hcall =>
        have hfinds := h.finds hcaller hcall
        cases a with
        | enter d =>
            cases hcaller
            cases h with
            | refuse hcall' hcancel =>
                cases hcall.symm.trans hcall'
                obtain ⟨e, hentry⟩ := hknown
                exact .done advance_calls_self ⟨e, hentry, hcancel id rfl e hentry⟩
            | cancel hcall' hcancel =>
                cases hcall.symm.trans hcall'
                exact .done advance_calls_self (Inner.terminal_cancelEntry hcancel)
            | register hcall' _ => cases hcall.symm.trans hcall'
            | validate hcall' _ => cases hcall.symm.trans hcall'
            | subscribe hcall' _ => cases hcall.symm.trans hcall'
        | _ => cases hfinds
    | done hcall hterminal =>
        have hfinds := h.finds hcaller hcall
        cases a <;> cases hfinds
  · have hsame := h.calls_of_ne hcaller
    cases hstage with
    | called hcall => exact .called (hsame.trans hcall)
    | opened hcall => exact .opened (hsame.trans hcall)
    | done hcall hterminal => exact .done (hsame.trans hcall) (h.terminal hkept hterminal)

/-- The router stays open until it is shut down. -/
theorem Rule.shuttingDown (h : s.Rule a es t) (hne : a ≠ .shutdown) :
    t.inner.shuttingDown = s.inner.shuttingDown := by
  cases h with
  | register hcall hregister =>
      obtain ⟨-, rfl⟩ := Inner.register_ok hregister
      rfl
  | validate hcall hvalidate =>
      obtain ⟨e, hlive, -, -, -, rfl⟩ := Inner.validate_ok hvalidate
      rfl
  | subscribe hcall htake =>
      obtain ⟨e, -, -, rfl⟩ := Inner.takeReceiver_ok htake
      rfl
  | cancel hcall hcancel =>
      obtain ⟨e, -, -, rfl⟩ := Inner.cancelEntry_ok hcancel
      simp
  | rollback hcall =>
      rw [advance_inner]
      unfold Inner.rollback
      split <;> simp
  | complete hcall =>
      rw [advance_inner, Inner.dropSender_shuttingDown]
      unfold Inner.complete
      split <;> simp
  | shutdown => exact absurd rfl hne
  | _ => simp

/-- A call that looks at the flag goes on from there. -/
theorem Rule.ensures {c : CallId} (h : s.Rule (.ensureOpen c) es t) :
    ∃ op, s.calls c = some (.called op) ∧ t.calls c ≠ some (.called op) := by
  cases h with
  | opens hcall _ =>
      refine ⟨_, hcall, ?_⟩
      rw [advance_calls_self]
      simp
  | shut hcall _ =>
      refine ⟨_, hcall, ?_⟩
      rw [advance_calls_self]
      simp

/-- A call that has not looked at the flag yet is moved only by doing so. -/
theorem Rule.called (h : s.Rule a es t) {c : CallId} {op : Op}
    (hcall : s.calls c = some (.called op)) :
    t.calls c = some (.called op) ∨ a = .ensureOpen c := by
  by_cases hcaller : a.caller = some c
  · have hfinds := h.finds hcaller hcall
    cases a with
    | ensureOpen d =>
        cases hcaller
        exact Or.inr rfl
    | _ => cases hfinds
  · exact Or.inl ((h.calls_of_ne hcaller).trans hcall)

/-- A call that has returned stays so. -/
theorem Rule.returned (h : s.Rule a es t) {c : CallId} {result : Except RouterError Unit}
    (hcall : s.calls c = some (.done result)) : t.calls c = some (.done result) := by
  rw [h.calls_of_ne ?_]
  · exact hcall
  · intro hcaller
    have hfinds := h.finds hcaller hcall
    cases a <;> cases hfinds

/-- A call passes `ensure_open` on an open router only. -/
theorem Rule.opened (h : s.Rule a es t) {c : CallId} {op : Op}
    (hcall : t.calls c = some (.opened op)) :
    s.calls c = some (.opened op) ∨ t.inner.shuttingDown = false := by
  have hmoved : ∀ {d : CallId} {next : Call}, (∀ op', next ≠ .opened op') →
      Function.update s.calls d (some next) c = some (.opened op) →
      s.calls c = some (.opened op) := by
    intro d next hne hupdate
    by_cases hd : c = d
    · subst hd
      rw [Function.update_self, Option.some.injEq] at hupdate
      exact absurd hupdate (hne op)
    · rwa [Function.update_of_ne hd] at hupdate
  cases h with
  | opens _ hopen => exact Or.inr hopen
  | deliver | ended | dropReceiver | shutdown => exact Or.inl hcall
  | _ => exact Or.inl (hmoved (by simp) hcall)

end Sys

/-! ## Which call works on which request -/

/-- The request an operation is about. -/
def Op.request : Op → RequestId
  | .accept req => req.id
  | .pushFrame frame => frame.requestId
  | .subscribe id | .cancel id => id

/-- The operation of a call that has not returned. -/
def Call.op? : Call → Option Op
  | .called op | .opened op => some op
  | .submitting req | .rollingBack req _ => some (.accept req)
  | .sending frame _ | .completing frame _ => some (.pushFrame frame)
  | .done _ => none

namespace Sys

variable {s t : Sys} {a : Action} {es : List Event}

/-- Call `c` is at work on `op`. -/
def Running (s : Sys) (c : CallId) (op : Op) : Prop :=
  ∃ call, s.calls c = some call ∧ call.op? = some op

/-- A call is at work on what it was invoked with. -/
theorem Rule.running (h : s.Rule a es t) {c : CallId} {op : Op} (hrunning : t.Running c op) :
    s.Running c op ∨ a = .invoke c op := by
  have hmoved : ∀ {d : CallId} {next : Call} {r : Inner},
      (next.op? = some op → s.Running d op ∨ a = .invoke d op) →
      (s.advance d next r).Running c op → s.Running c op ∨ a = .invoke c op := by
    rintro d next r hnext ⟨call, hcall, hop⟩
    by_cases hd : c = d
    · subst hd
      rw [advance_calls_self] at hcall
      cases hcall
      exact hnext hop
    · rw [advance_calls, Function.update_of_ne hd] at hcall
      exact Or.inl ⟨call, hcall, hop⟩
  have hsame : ∀ {d : CallId} {call next : Call}, s.calls d = some call →
      next.op? = call.op? → next.op? = some op → s.Running d op ∨ a = .invoke d op :=
    fun hcall heq hop => Or.inl ⟨_, hcall, heq ▸ hop⟩
  cases h with
  | invoke hfree =>
      refine hmoved ?_ hrunning
      intro hop
      cases hop
      exact Or.inr rfl
  | opens hcall _ => exact hmoved (by exact hsame hcall rfl) hrunning
  | register hcall _ => exact hmoved (by exact hsame hcall rfl) hrunning
  | validate hcall _ => exact hmoved (by exact hsame hcall rfl) hrunning
  | unsubmitted hcall => exact hmoved (by exact hsame hcall rfl) hrunning
  | sentFinal hcall _ _ _ => exact hmoved (by exact hsame hcall rfl) hrunning
  | deliver | ended | dropReceiver | shutdown => exact Or.inl hrunning
  | @subscribe d id ch r hcall _ =>
      have hadvanced : (s.advance d (.done (.ok ())) r).Running c op := hrunning
      refine hmoved ?_ hadvanced
      intro hop
      cases hop
  | _ =>
      refine hmoved ?_ hrunning
      intro hop
      cases hop

/-- A step changes no entry but that of the request its call works on. -/
theorem Rule.requests_of_ne (h : s.Rule a es t) {id : RequestId}
    (hother : ∀ c op, a.caller = some c → s.Running c op → op.request ≠ id) :
    t.inner.requests id = s.inner.requests id := by
  have hne : ∀ {c : CallId} {call : Call} {op : Op}, a.caller = some c →
      s.calls c = some call → call.op? = some op → op.request ≠ id :=
    fun hcaller hcall hop => hother _ _ hcaller ⟨_, hcall, hop⟩
  cases h with
  | register hcall hregister =>
      have hid := hne rfl hcall rfl
      obtain ⟨-, hinner⟩ := Inner.register_ok hregister
      rw [advance_inner, hinner]
      exact Function.update_of_ne (Ne.symm hid) _ _
  | validate hcall hvalidate =>
      exact Inner.requests_validate hvalidate (Ne.symm (hne rfl hcall rfl))
  | subscribe hcall htake =>
      obtain ⟨e, -, -, rfl⟩ := Inner.takeReceiver_ok htake
      exact Function.update_of_ne (Ne.symm (hne rfl hcall rfl)) _ _
  | cancel hcall hcancel =>
      have hid := hne rfl hcall rfl
      obtain ⟨e, -, -, rfl⟩ := Inner.cancelEntry_ok hcancel
      rw [advance_inner, Inner.dropReceiver_requests, Inner.dropSender_requests]
      exact Function.update_of_ne (Ne.symm hid) _ _
  | rollback hcall => exact Inner.requests_rollback (Ne.symm (hne rfl hcall rfl))
  | complete hcall =>
      have hid := hne rfl hcall rfl
      rw [advance_inner, Inner.dropSender_requests]
      unfold Inner.complete
      split
      · rfl
      · rw [Inner.dropSender_requests]
        exact Function.update_of_ne (Ne.symm hid) _ _
  | shutdown => rfl
  | _ => simp

end Sys

end Repercep.Router
