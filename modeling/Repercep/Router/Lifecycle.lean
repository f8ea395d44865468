import Repercep.Router.Concurrent
set_option autoImplicit false

/-!
# Router: the request state machine under interleaving

The documented machine is `Received → Scheduled → Generating → Streaming →
Complete`, with `Cancelled` and `Failed` reachable from every non-terminal state,
and terminal states absorbing.  Two sections write without looking: phase 3 of
`push_frame` assigns `Complete` to whatever state it finds, and the rollback of
`accept` removes whatever entry it finds.  A run keeps the machine exactly when
neither finds a state it was not meant for.
-/

namespace Repercep.Router

open Repercep.Foundation

/-- The documented transitions. -/
inductive Edge : RequestState → RequestState → Prop where
  | accept : Edge .received .scheduled
  | firstFrame : Edge .scheduled .generating
  | sameStep : Edge .generating .streaming
  | final : Edge .streaming .complete
  | cancel {a : RequestState} : a.isTerminal = false → Edge a .cancelled
  | fail {a : RequestState} : a.isTerminal = false → Edge a .failed

/-- What one locked section may do to the state of a request: nothing, one
documented transition, the two transitions the first frame takes in one step, the
registration of a new request, or the withdrawal of a live one whose submission
was refused. -/
inductive Evolves : Option RequestState → Option RequestState → Prop where
  | same (o : Option RequestState) : Evolves o o
  | edge {a b : RequestState} : Edge a b → Evolves (some a) (some b)
  | firstFrame : Evolves (some .scheduled) (some .streaming)
  | accepted : Evolves none (some .scheduled)
  | withdrawn {a : RequestState} : a.isTerminal = false → Evolves (some a) none

/-- Terminal states are absorbing for `Evolves`. -/
theorem Evolves.of_terminal {a : RequestState} {o : Option RequestState}
    (h : Evolves (some a) o) (hterminal : a.isTerminal = true) : o = some a := by
  cases h with
  | same => rfl
  | edge hedge =>
      cases hedge with
      | cancel hlive => simp [hlive] at hterminal
      | fail hlive => simp [hlive] at hterminal
      | accept => cases hterminal
      | firstFrame => cases hterminal
      | sameStep => cases hterminal
      | final => cases hterminal
  | firstFrame => cases hterminal
  | withdrawn hlive => simp [hlive] at hterminal

/-- `Complete` is entered from `Streaming` only. -/
theorem evolves_complete_iff {a : RequestState} :
    Evolves (some a) (some .complete) ↔ a = .streaming ∨ a = .complete := by
  constructor
  · intro h
    cases h with
    | same => exact Or.inr rfl
    | edge hedge =>
        cases hedge with
        | final => exact Or.inl rfl
  · rintro (rfl | rfl)
    · exact .edge .final
    · exact .same _

/-- Only a live request is withdrawn. -/
theorem evolves_withdrawn_iff {a : RequestState} :
    Evolves (some a) none ↔ a.isTerminal = false := by
  constructor
  · intro h
    cases h with
    | withdrawn hlive => exact hlive
  · exact .withdrawn

/-- A section that writes the state of one request keeps the machine exactly when it does
so there. -/
theorem evolves_write_iff {states states' : RequestId → Option RequestState} {id : RequestId}
    {o : Option RequestState} (hwrite : ∀ k, states' k = if k = id then o else states k) :
    (∀ k, Evolves (states k) (states' k)) ↔ Evolves (states id) o := by
  constructor
  · intro h
    have hid := h id
    rwa [hwrite, if_pos rfl] at hid
  · intro h k
    rw [hwrite]
    split
    · rename_i hk
      subst hk
      exact h
    · exact .same _

namespace Inner

/-! ## What each section does to the states -/

theorem state_setEntry (r : Inner) (id k : RequestId) (e : Entry) :
    (r.setEntry id e).state k = if k = id then some e.state else r.state k := by
  by_cases hk : k = id
  · subst hk
    simp [state]
  · simp [state, hk]

theorem state_removeEntry (r : Inner) (id k : RequestId) :
    (r.removeEntry id).state k = if k = id then none else r.state k := by
  by_cases hk : k = id
  · subst hk
    simp [state]
  · simp [state, hk]

@[simp] theorem state_setChan (r : Inner) (ch : ChanId) (c : Channel Frame)
    (k : RequestId) : (r.setChan ch c).state k = r.state k := rfl

@[simp] theorem state_dropSender (r : Inner) (half : Option ChanId) (k : RequestId) :
    (r.dropSender half).state k = r.state k := by
  simp [state]

@[simp] theorem state_dropReceiver (r : Inner) (half : Option ChanId) (k : RequestId) :
    (r.dropReceiver half).state k = r.state k := by
  simp [state]

theorem state_eq_none {r : Inner} {id : RequestId} (h : r.requests id = none) :
    r.state id = none := by
  simp [state, h]

theorem state_of_entry {r : Inner} {id : RequestId} {e : Entry}
    (h : r.requests id = some e) : r.state id = some e.state := by
  simp [state, h]

/-- Registering a request only creates a `Scheduled` one. -/
theorem register_evolves {r r' : Inner} {req : RouterRequest}
    (h : r.register req = (.ok (), r')) (k : RequestId) :
    Evolves (r.state k) (r'.state k) := by
  obtain ⟨hfree, rfl⟩ := register_ok h
  by_cases hk : k = req.id
  · subst hk
    simpa [state, hfree] using Evolves.accepted
  · simpa [state, hk] using Evolves.same (r.state k)

/-- Phase 1 keeps the machine: it moves `Scheduled` requests only. -/
theorem validate_evolves {r r' : Inner} {frame : Frame} {ch : ChanId}
    (h : r.validate frame = (.ok ch, r')) (k : RequestId) :
    Evolves (r.state k) (r'.state k) := by
  obtain ⟨e, hlive, hentry, -, -, rfl⟩ := validate_ok h
  have hwrite := state_setEntry r frame.requestId (e := e.recordFrame frame.frameIndex hlive)
  rw [state_setChan]
  refine (evolves_write_iff hwrite).mpr ?_ k
  rw [state_of_entry hentry, Entry.recordFrame_state]
  unfold Entry.firstFrame
  split
  · rename_i hscheduled
    rw [hscheduled]
    exact .firstFrame
  · exact .same _

theorem cancelEntry_evolves {r r' : Inner} {id : RequestId}
    (h : r.cancelEntry id = (.ok (), r')) (k : RequestId) :
    Evolves (r.state k) (r'.state k) := by
  obtain ⟨e, hentry, hlive, rfl⟩ := cancelEntry_ok h
  have hwrite := state_setEntry r id (e := e.cancelled)
  rw [state_dropReceiver, state_dropSender]
  refine (evolves_write_iff hwrite).mpr ?_ k
  rw [state_of_entry hentry]
  exact .edge (.cancel hlive)

theorem takeReceiver_state {r r' : Inner} {id : RequestId} {ch : ChanId}
    (h : r.takeReceiver id = (.ok ch, r')) (k : RequestId) : r'.state k = r.state k := by
  obtain ⟨e, hentry, -, rfl⟩ := takeReceiver_ok h
  rw [state_setEntry]
  split
  · rename_i hk
    subst hk
    rw [state_of_entry hentry, Entry.subscribed_state]
  · rfl

/-- Phase 3 keeps the machine exactly when it finds a `Streaming` request, or one
that is `Complete` already, or none. -/
theorem complete_evolves_iff (r : Inner) (id : RequestId) :
    (∀ k, Evolves (r.state k) ((r.complete id).state k)) ↔
      ∀ a, r.state id = some a → a = .streaming ∨ a = .complete := by
  unfold complete
  cases hentry : r.requests id with
  | none =>
      rw [state_eq_none hentry]
      exact iff_of_true (fun k => .same _) (by rintro a ⟨⟩)
  | some e =>
      have hwrite : ∀ k, ((r.setEntry id e.completed).dropSender e.sender).state k =
          if k = id then some .complete else r.state k := by
        intro k
        rw [state_dropSender, state_setEntry, Entry.completed_state]
      rw [evolves_write_iff hwrite, state_of_entry hentry, evolves_complete_iff]
      simp only [Option.some.injEq, forall_eq']

/-- A rollback keeps the machine exactly when the entry it removes is live. -/
theorem rollback_evolves_iff (r : Inner) (id : RequestId) :
    (∀ k, Evolves (r.state k) ((r.rollback id).state k)) ↔
      ∀ a, r.state id = some a → a.isTerminal = false := by
  unfold rollback
  cases hentry : r.requests id with
  | none =>
      rw [state_eq_none hentry]
      exact iff_of_true (fun k => .same _) (by rintro a ⟨⟩)
  | some e =>
      have hwrite : ∀ k, (((r.removeEntry id).dropSender e.sender).dropReceiver
          e.receiver).state k = if k = id then none else r.state k := by
        intro k
        rw [state_dropReceiver, state_dropSender, state_removeEntry]
      rw [evolves_write_iff hwrite, state_of_entry hentry, evolves_withdrawn_iff]
      simp only [Option.some.injEq, forall_eq']

end Inner

namespace Sys

/-- The state each writing section was meant for: phase 3 finds its request
`Streaming` (or complete already, or withdrawn), and a rollback finds its entry
live. -/
def FindsExpected (s : Sys) : Action → Prop
  | .complete c => ∀ frame ch a, s.calls c = some (.completing frame ch) →
      s.inner.state frame.requestId = some a → a = .streaming ∨ a = .complete
  | .rollback c => ∀ req err a, s.calls c = some (.rollingBack req err) →
      s.inner.state req.id = some a → a.isTerminal = false
  | _ => True

/-- The locked sections behind `enter` keep the machine unconditionally. -/
theorem enterOp_evolves (s : Sys) (c : CallId) (op : Op) (k : RequestId) :
    Evolves (s.inner.state k) ((s.enterOp c op).inner.state k) := by
  rcases enterOp_cases s c op with ⟨e, heq⟩ | ⟨req, r, -, hregister, heq⟩ |
    ⟨frame, ch, r, -, hvalidate, heq⟩ | ⟨id, ch, r, -, htake, heq⟩ |
    ⟨id, r, -, hcancel, heq⟩
  · rw [heq]
    exact .same _
  · rw [heq]
    exact Inner.register_evolves hregister k
  · rw [heq]
    exact Inner.validate_evolves hvalidate k
  · have hsame := Inner.takeReceiver_state htake k
    rw [heq, hold_inner, advance_inner, hsame]
    exact .same _
  · rw [heq]
    exact Inner.cancelEntry_evolves hcancel k

/-- Sending a frame leaves every state alone. -/
theorem sendCall_state {s t : Sys} {c : CallId} {frame : Frame} {ch : ChanId}
    {es : List Event} (h : s.sendCall c frame ch = (es, t)) (k : RequestId) :
    t.inner.state k = s.inner.state k := by
  rcases sendCall_cases h with ⟨-, -, e, rfl⟩ | ⟨-, -, q, -, ⟨-, rfl⟩ | ⟨-, rfl⟩⟩ <;> simp

/-- One step keeps the documented machine exactly when the section it runs finds
the state it was meant for. -/
theorem step_evolves_iff {s t : Sys} {a : Action} {es : List Event}
    (h : s.step a = some (es, t)) :
    (∀ k, Evolves (s.inner.state k) (t.inner.state k)) ↔ s.FindsExpected a := by
  have hunchanged : (∀ k, t.inner.state k = s.inner.state k) →
      ∀ k, Evolves (s.inner.state k) (t.inner.state k) := by
    intro hsame k
    rw [hsame k]
    exact .same _
  cases a with
  | invoke c op =>
      obtain ⟨-, -, rfl⟩ := step_invoke h
      exact ⟨fun _ => trivial, fun _ => hunchanged fun _ => rfl⟩
  | ensureOpen c =>
      obtain ⟨-, op, -, ⟨-, rfl⟩ | ⟨e, -, rfl⟩⟩ := step_ensureOpen h
      · exact ⟨fun _ => trivial, fun _ => hunchanged fun _ => rfl⟩
      · exact ⟨fun _ => trivial, fun _ => hunchanged fun _ => rfl⟩
  | enter c =>
      obtain ⟨-, op, -, rfl⟩ := step_enter h
      exact ⟨fun _ => trivial, fun _ => enterOp_evolves s c op⟩
  | submitted c answer =>
      obtain ⟨-, req, -, ⟨e, -, rfl⟩ | ⟨-, rfl⟩⟩ := step_submitted h
      · exact ⟨fun _ => trivial, fun _ => hunchanged fun _ => rfl⟩
      · exact ⟨fun _ => trivial, fun _ => hunchanged fun _ => rfl⟩
  | rollback c =>
      obtain ⟨-, req, err, hcall, rfl⟩ := step_rollback h
      rw [advance_inner, Inner.rollback_evolves_iff]
      constructor
      · intro hlive req' err' a hcall' ha
        cases hcall.symm.trans hcall'
        exact hlive a ha
      · intro hexpected a ha
        exact hexpected req err a hcall ha
  | send c =>
      obtain ⟨frame, ch, -, hsend⟩ := step_send h
      exact ⟨fun _ => trivial, fun _ => hunchanged (sendCall_state hsend)⟩
  | complete c =>
      obtain ⟨-, frame, ch, hcall, rfl⟩ := step_complete h
      simp only [advance_inner, Inner.state_dropSender]
      rw [Inner.complete_evolves_iff]
      constructor
      · intro hstreaming frame' ch' a hcall' ha
        cases hcall.symm.trans hcall'
        exact hstreaming a ha
      · intro hexpected a ha
        exact hexpected frame ch a hcall ha
  | recv ch =>
      obtain ⟨-, hread⟩ := step_recv h
      refine ⟨fun _ => trivial, fun _ => hunchanged fun k => ?_⟩
      rcases read_cases hread with ⟨frame, q, -, -, rfl⟩ | ⟨-, rfl, -, -⟩ <;> rfl
  | dropReceiver ch =>
      obtain ⟨-, -, rfl⟩ := step_dropReceiver h
      exact ⟨fun _ => trivial, fun _ => hunchanged fun k => by simp⟩
  | shutdown =>
      obtain ⟨-, rfl⟩ := step_shutdown h
      exact ⟨fun _ => trivial, fun _ => hunchanged fun _ => rfl⟩

end Sys

/-! ## Runs -/

/-- Once a request has reached a terminal state, no later state of the run shows
another one. -/
def TerminalAbsorbing (depth : Nat) (as : List Action) : Prop :=
  ∀ as₁ as₂ es₁ es₂ s t id a, as = as₁ ++ as₂ →
    (machine depth).run (machine depth).init as₁ = some (es₁, s) →
    (machine depth).run s as₂ = some (es₂, t) →
    s.inner.state id = some a → a.isTerminal = true → t.inner.state id = some a

/-- Every state change of the run is one the documented machine allows. -/
def FollowsEdges (depth : Nat) (as : List Action) : Prop :=
  ∀ as₁ a as₂ es₁ es₂ s t id, as = as₁ ++ a :: as₂ →
    (machine depth).run (machine depth).init as₁ = some (es₁, s) →
    s.step a = some (es₂, t) → Evolves (s.inner.state id) (t.inner.state id)

/-- A run of any number of interleaved calls keeps terminal states absorbing and
follows the documented machine exactly when no final push completes a request
that was cancelled in between (or is not streaming), and no refused `accept`
rolls back an entry that has become terminal. -/
theorem lifecycle_iff (depth : Nat) (as : List Action) :
    TerminalAbsorbing depth as ∧ FollowsEdges depth as ↔
      (machine depth).Meets Sys.FindsExpected (machine depth).init as := by
  have hsteps : (machine depth).Along
        (fun s _ t => ∀ k, Evolves (s.inner.state k) (t.inner.state k))
        (machine depth).init as ↔
      (machine depth).Meets Sys.FindsExpected (machine depth).init as :=
    Machine.along_congr (fun s a es t h => Sys.step_evolves_iff h) as _
  constructor
  · rintro ⟨-, hedges⟩
    rw [← hsteps, Machine.along_iff_split]
    intro as₁ a as₂ es₁ s es₂ u has hpre hstep k
    exact hedges as₁ a as₂ es₁ es₂ s u k has hpre hstep
  · intro hmeets
    have halong := hsteps.mpr hmeets
    refine ⟨?_, ?_⟩
    · rintro as₁ as₂ es₁ es₂ s u id a rfl hpre hpost hstate hterminal
      have htail := ((Machine.along_append hpre).mp halong).2
      refine Machine.Along.preserves (I := fun v => v.inner.state id = some a) ?_
        htail hpost hstate
      intro v b w hevolves hv
      have hone := hevolves id
      rw [hv] at hone
      exact hone.of_terminal hterminal
    · intro as₁ a as₂ es₁ es₂ s u id has hpre hstep
      exact Machine.along_iff_split.mp halong as₁ a as₂ es₁ s es₂ u has hpre hstep id

/-- A final push validated, then a cancel, then the rest of the push. -/
def cancelDuringFinalPush : List Action :=
  [.invoke 0 (.accept ⟨⟨"a"⟩, .normal⟩), .ensureOpen 0, .enter 0, .submitted 0 (.ok ()),
    .invoke 1 (.subscribe ⟨"a"⟩), .ensureOpen 1, .enter 1,
    .invoke 2 (.pushFrame ⟨⟨"a"⟩, 0, [], true⟩), .ensureOpen 2, .enter 2,
    .invoke 3 (.cancel ⟨"a"⟩), .ensureOpen 3, .enter 3,
    .send 2, .complete 2]

/-- There the request is `Cancelled` after the cancel and `Complete` at the end. -/
theorem cancelDuringFinalPush_not_absorbing :
    ¬ TerminalAbsorbing 1 cancelDuringFinalPush := by
  intro h
  have hend := h (cancelDuringFinalPush.take 13) (cancelDuringFinalPush.drop 13)
    _ _ _ _ ⟨"a"⟩ .cancelled rfl rfl rfl rfl rfl
  cases hend

end Repercep.Router
