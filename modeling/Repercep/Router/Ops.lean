import Repercep.Router.State
set_option autoImplicit false

/-!
# Router: the operations

The methods of `Router<S>` as functions on `Inner`.  Each locked section is a
function of its own, so that the methods can be run whole (below) or section by
section under a schedule (`Repercep.Router.Concurrent`).  An operation returns
its result together with the state it leaves, on the error exits too: what an
error exit has already written is exactly what is in question.

`push_frame` has three phases: `validate` under the lock, `sendFrame` outside it
on a cloned sender, `complete` under the lock again.
-/

namespace Repercep.Router

open Repercep.Foundation

/-- The recorded last index that makes `index` out of order, if there is one. -/
def Entry.staleAgainst (e : Entry) (index : Nat) : Option Nat :=
  match e.lastFrameIndex with
  | none => none
  | some last => if index ≤ last then some last else none

theorem Entry.staleAgainst_eq_none {e : Entry} {index : Nat} :
    e.staleAgainst index = none ↔
      ∀ last, e.lastFrameIndex = some last → last < index := by
  unfold Entry.staleAgainst
  cases e.lastFrameIndex with
  | none => simp
  | some last => simp

namespace Inner

/-- `Inner::ensure_open`. -/
def ensureOpen (r : Inner) : Except RouterError Unit :=
  if r.shuttingDown then .error .shuttingDown else .ok ()

/-! ## `accept` -/

/-- The locked section of `accept`: refuse a duplicate, else create the channel
and insert the entry. -/
def register (r : Inner) (req : RouterRequest) : Except RouterError Unit × Inner :=
  match r.requests req.id with
  | some _ => (.error (.duplicateRequest req.id), r)
  | none =>
      (.ok (), { r with
        requests :=
          Function.update r.requests req.id (some (.accepted r.nextChan req.priority))
        chans := Function.update r.chans r.nextChan (Channel.make Frame r.queueDepth)
        nextChan := r.nextChan + 1 })

/-- The rollback of `accept`: the entry is removed and its parked halves go with
it. -/
def rollback (r : Inner) (id : RequestId) : Inner :=
  match r.requests id with
  | none => r
  | some e => ((r.removeEntry id).dropSender e.sender).dropReceiver e.receiver

/-- `Router::accept`; `submit` is the scheduler handle's answer. -/
def accept (r : Inner) (submit : RequestId → Priority → Except RouterError Unit)
    (req : RouterRequest) : Except RouterError Unit × Inner :=
  match r.ensureOpen with
  | .error e => (.error e, r)
  | .ok _ =>
      match r.register req with
      | (.error e, r₁) => (.error e, r₁)
      | (.ok _, r₁) =>
          match submit req.id req.priority with
          | .error e => (.error e, r₁.rollback req.id)
          | .ok _ => (.ok (), r₁)

/-! ## `push_frame` -/

/-- Phase 1: validate, advance the state, clone the sender. -/
def validate (r : Inner) (frame : Frame) : Except RouterError ChanId × Inner :=
  match r.requests frame.requestId with
  | none => (.error (.unknownRequest frame.requestId), r)
  | some e =>
      if hterminal : e.state.isTerminal = true then
        (.error (.invalidTransition e.state
          (if frame.isFinal then .complete else .streaming)), r)
      else
        match e.staleAgainst frame.frameIndex with
        | some last =>
            (.error (.outOfOrderFrame frame.requestId frame.frameIndex last), r)
        | none =>
            let e₁ := e.recordFrame frame.frameIndex (by simpa using hterminal)
            let r₁ := r.setEntry frame.requestId e₁
            match e₁.sender with
            | none => (.error (.unknownRequest frame.requestId), r₁)
            | some ch => (.ok ch, r₁.setChan ch (r₁.chans ch).cloneSender)

/-- Phase 2: `try_send` on the cloned sender. -/
def sendFrame (r : Inner) (frame : Frame) (ch : ChanId) :
    Except RouterError Unit × Inner :=
  match (r.chans ch).trySend frame with
  | (.ok _, c) => (.ok (), r.setChan ch c)
  | (.error .full, c) =>
      (.error (.backpressure frame.requestId r.queueDepth), r.setChan ch c)
  | (.error .closed, c) => (.error (.unknownRequest frame.requestId), r.setChan ch c)

/-- Phase 3: mark the request complete and drop the entry's sender.  The state it
finds is not looked at. -/
def complete (r : Inner) (id : RequestId) : Inner :=
  match r.requests id with
  | none => r
  | some e => (r.setEntry id e.completed).dropSender e.sender

/-- `Router::push_frame`, run without interruption.  The sender clone is dropped
when the call returns. -/
def pushFrame (r : Inner) (frame : Frame) : Except RouterError Unit × Inner :=
  match r.ensureOpen with
  | .error e => (.error e, r)
  | .ok _ =>
      match r.validate frame with
      | (.error e, r₁) => (.error e, r₁)
      | (.ok ch, r₁) =>
          match r₁.sendFrame frame ch with
          | (.error e, r₂) => (.error e, r₂.dropSender (some ch))
          | (.ok _, r₂) =>
              (.ok (), (if frame.isFinal then r₂.complete frame.requestId
                else r₂).dropSender (some ch))

/-! ## The other methods -/

/-- The locked section of `subscribe`: hand out the parked receiver, once. -/
def takeReceiver (r : Inner) (id : RequestId) : Except RouterError ChanId × Inner :=
  match r.requests id with
  | none => (.error (.unknownRequest id), r)
  | some e =>
      match e.receiver with
      | none => (.error (.unknownRequest id), r)
      | some ch => (.ok ch, r.setEntry id e.subscribed)

/-- The locked section of `cancel`. -/
def cancelEntry (r : Inner) (id : RequestId) : Except RouterError Unit × Inner :=
  match r.requests id with
  | none => (.error (.unknownRequest id), r)
  | some e =>
      if e.state.isTerminal then (.error (.invalidTransition e.state .cancelled), r)
      else (.ok (), ((r.setEntry id e.cancelled).dropSender e.sender).dropReceiver e.receiver)

/-- `Router::state`. -/
def state (r : Inner) (id : RequestId) : Option RequestState :=
  (r.requests id).map Entry.state

/-- `Router::shutdown`. -/
def shutdown (r : Inner) : Inner := { r with shuttingDown := true }

/-- One read by the holder of a receiver. -/
def recv (r : Inner) (ch : ChanId) : Received Frame × Inner :=
  ((r.chans ch).recv.1, r.setChan ch (r.chans ch).recv.2)

/-! ## What each section can do -/

/-- A frame that phase 1 lets through: its request is live and the index is
beyond the last recorded one. -/
def Admits (r : Inner) (frame : Frame) : Prop :=
  ∃ e, r.requests frame.requestId = some e ∧ e.state.isTerminal = false ∧
    ∀ last, e.lastFrameIndex = some last → last < frame.frameIndex

theorem ensureOpen_eq_ok {r : Inner} : r.ensureOpen = .ok () ↔ r.shuttingDown = false := by
  unfold ensureOpen
  cases r.shuttingDown <;> simp

theorem ensureOpen_error {r : Inner} {e : RouterError} (h : r.ensureOpen = .error e) :
    r.shuttingDown = true := by
  unfold ensureOpen at h
  cases hshut : r.shuttingDown with
  | true => rfl
  | false => simp [hshut] at h

theorem register_ok {r r' : Inner} {req : RouterRequest}
    (h : r.register req = (.ok (), r')) :
    r.requests req.id = none ∧ r' = { r with
      requests :=
        Function.update r.requests req.id (some (.accepted r.nextChan req.priority))
      chans := Function.update r.chans r.nextChan (Channel.make Frame r.queueDepth)
      nextChan := r.nextChan + 1 } := by
  unfold register at h
  cases hentry : r.requests req.id with
  | none =>
      simp only [hentry, Prod.mk.injEq, true_and] at h
      exact ⟨rfl, h.symm⟩
  | some e => simp [hentry] at h

theorem register_error {r r' : Inner} {req : RouterRequest} {err : RouterError}
    (h : r.register req = (.error err, r')) : r' = r := by
  unfold register at h
  cases hentry : r.requests req.id with
  | none => simp [hentry] at h
  | some e =>
      simp only [hentry, Prod.mk.injEq] at h
      exact h.2.symm

/-- A frame that phase 1 lets through has its entry advanced and its sender
cloned; nothing else moves. -/
theorem validate_ok {r r' : Inner} {frame : Frame} {ch : ChanId}
    (h : r.validate frame = (.ok ch, r')) :
    ∃ e, ∃ hlive : e.state.isTerminal = false,
      r.requests frame.requestId = some e ∧
      (∀ last, e.lastFrameIndex = some last → last < frame.frameIndex) ∧
      e.sender = some ch ∧
      r' = (r.setEntry frame.requestId (e.recordFrame frame.frameIndex hlive)).setChan ch
        (r.chans ch).cloneSender := by
  unfold validate at h
  cases hentry : r.requests frame.requestId with
  | none => simp [hentry] at h
  | some e =>
      simp only [hentry] at h
      split at h
      · simp at h
      · rename_i hterminal
        split at h
        · simp at h
        · rename_i hstale
          split at h
          · simp at h
          · rename_i k hsender
            simp only [Prod.mk.injEq, Except.ok.injEq] at h
            obtain ⟨rfl, rfl⟩ := h
            exact ⟨e, by simpa using hterminal, rfl,
              Entry.staleAgainst_eq_none.mp hstale, by simpa using hsender, rfl⟩

/-- A frame that phase 1 refuses leaves the router as it was.  The exit behind a
missing sender, which would come after the entry was advanced, is closed by
`senderLive`. -/
theorem validate_error {r r' : Inner} {frame : Frame} {err : RouterError}
    (h : r.validate frame = (.error err, r')) :
    r' = r ∧ ¬ r.Admits frame ∧ ∀ id depth, err ≠ .backpressure id depth := by
  unfold validate at h
  unfold Admits
  cases hentry : r.requests frame.requestId with
  | none =>
      simp only [hentry, Prod.mk.injEq, Except.error.injEq] at h
      obtain ⟨rfl, rfl⟩ := h
      exact ⟨rfl, by simp, by simp⟩
  | some e =>
      simp only [hentry] at h
      split at h
      · rename_i hterminal
        simp only [Prod.mk.injEq, Except.error.injEq] at h
        obtain ⟨rfl, rfl⟩ := h
        refine ⟨rfl, ?_, by simp⟩
        rintro ⟨e', he', hlive, -⟩
        cases Option.some.inj he'
        simp [hterminal] at hlive
      · rename_i hterminal
        split at h
        · rename_i last hstale
          simp only [Prod.mk.injEq, Except.error.injEq] at h
          obtain ⟨rfl, rfl⟩ := h
          refine ⟨rfl, ?_, by simp⟩
          rintro ⟨e', he', -, hlast⟩
          cases Option.some.inj he'
          rw [Entry.staleAgainst_eq_none.mpr hlast] at hstale
          cases hstale
        · split at h
          · rename_i hsender
            have hsome := e.senderLive (by simpa using hterminal)
            simp only [Entry.recordFrame_sender] at hsender
            simp [hsender] at hsome
          · simp at h

theorem sendFrame_ok {r r' : Inner} {frame : Frame} {ch : ChanId}
    (h : r.sendFrame frame ch = (.ok (), r')) :
    (r.chans ch).HasRoom ∧ ∃ c, r' = r.setChan ch c ∧ (r.chans ch).Appends frame c := by
  unfold sendFrame at h
  rcases hsend : (r.chans ch).trySend frame with ⟨⟨_ | _⟩ | _, c⟩
  · simp [hsend] at h
  · simp [hsend] at h
  · simp only [hsend, Prod.mk.injEq, true_and] at h
    obtain ⟨hroom, happends⟩ := Channel.trySend_ok_iff.mp hsend
    exact ⟨hroom, c, h.symm, happends⟩

/-- A refused send leaves the router as it was. -/
theorem sendFrame_error {r r' : Inner} {frame : Frame} {ch : ChanId}
    {err : RouterError} (h : r.sendFrame frame ch = (.error err, r')) :
    r' = r ∧ ¬ (r.chans ch).HasRoom := by
  have hsame : ∀ {e c}, (r.chans ch).trySend frame = (.error e, c) →
      r.setChan ch c = r ∧ ¬ (r.chans ch).HasRoom := by
    intro e c hsend
    obtain ⟨rfl, hroom⟩ := Channel.trySend_error hsend
    exact ⟨by simp [setChan], hroom⟩
  unfold sendFrame at h
  rcases hsend : (r.chans ch).trySend frame with ⟨⟨_ | _⟩ | _, c⟩
  · simp only [hsend, Prod.mk.injEq] at h
    rw [← h.2]
    exact hsame hsend
  · simp only [hsend, Prod.mk.injEq] at h
    rw [← h.2]
    exact hsame hsend
  · simp [hsend] at h

theorem takeReceiver_ok {r r' : Inner} {id : RequestId} {ch : ChanId}
    (h : r.takeReceiver id = (.ok ch, r')) :
    ∃ e, r.requests id = some e ∧ e.receiver = some ch ∧
      r' = r.setEntry id e.subscribed := by
  unfold takeReceiver at h
  cases hentry : r.requests id with
  | none => simp [hentry] at h
  | some e =>
      cases hreceiver : e.receiver with
      | none => simp [hentry, hreceiver] at h
      | some k =>
          simp only [hentry, hreceiver, Prod.mk.injEq, Except.ok.injEq] at h
          obtain ⟨rfl, rfl⟩ := h
          exact ⟨e, rfl, hreceiver, rfl⟩

theorem takeReceiver_error {r r' : Inner} {id : RequestId} {err : RouterError}
    (h : r.takeReceiver id = (.error err, r')) : r' = r := by
  unfold takeReceiver at h
  cases hentry : r.requests id with
  | none =>
      simp only [hentry, Prod.mk.injEq] at h
      exact h.2.symm
  | some e =>
      cases hreceiver : e.receiver with
      | none =>
          simp only [hentry, hreceiver, Prod.mk.injEq] at h
          exact h.2.symm
      | some k => simp [hentry, hreceiver] at h

theorem cancelEntry_ok {r r' : Inner} {id : RequestId}
    (h : r.cancelEntry id = (.ok (), r')) :
    ∃ e, r.requests id = some e ∧ e.state.isTerminal = false ∧
      r' = ((r.setEntry id e.cancelled).dropSender e.sender).dropReceiver e.receiver := by
  unfold cancelEntry at h
  cases hentry : r.requests id with
  | none => simp [hentry] at h
  | some e =>
      cases hterminal : e.state.isTerminal with
      | true => simp [hentry, hterminal] at h
      | false =>
          simp only [hentry, hterminal, Bool.false_eq_true, if_false, Prod.mk.injEq,
            true_and] at h
          exact ⟨e, rfl, hterminal, h.symm⟩

/-- A refused cancel leaves the router as it was, and is refused because the id
is unknown or already terminal. -/
theorem cancelEntry_error {r r' : Inner} {id : RequestId} {err : RouterError}
    (h : r.cancelEntry id = (.error err, r')) :
    r' = r ∧ ∀ e, r.requests id = some e → e.state.isTerminal = true := by
  unfold cancelEntry at h
  cases hentry : r.requests id with
  | none =>
      simp only [hentry, Prod.mk.injEq] at h
      exact ⟨h.2.symm, by simp⟩
  | some e =>
      cases hterminal : e.state.isTerminal with
      | true =>
          simp only [hentry, hterminal, if_true, Prod.mk.injEq] at h
          refine ⟨h.2.symm, ?_⟩
          intro e' he'
          cases Option.some.inj he'
          exact hterminal
      | false => simp [hentry, hterminal] at h

end Inner

end Repercep.Router
