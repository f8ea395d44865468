import Repercep.Foundation.Channel
import Mathlib.Logic.Function.Basic
import Mathlib.Tactic.Simps.Basic
set_option autoImplicit false

/-!
# Router: states, errors and entries

The data model of `crates/repercep-router/src/lib.rs`: the request states and
their priorities, the frames, the errors with the data they carry, the per-id
entries, and the `Inner` state that one `Mutex` guards.

Frame indices are `u64` in the source and `Nat` here: the router only compares
them, and the Python class around it refuses what is no `u64`.  A channel half
is a `ChanId`; the channels themselves live in a heap next to the entry map,
because a sender clone outlives the entry it was taken from.
-/

namespace Repercep.Router

open Repercep.Foundation

/-- Per-request lifecycle state. -/
inductive RequestState where
  | received
  | scheduled
  | generating
  | streaming
  | complete
  | cancelled
  | failed
  deriving DecidableEq, Repr

namespace RequestState

/-- Terminal states do not transition further. -/
def isTerminal : RequestState → Bool
  | complete | cancelled | failed => true
  | received | scheduled | generating | streaming => false

/-- Stringly representation used at the Python boundary. -/
def asStr : RequestState → String
  | received => "Received"
  | scheduled => "Scheduled"
  | generating => "Generating"
  | streaming => "Streaming"
  | complete => "Complete"
  | cancelled => "Cancelled"
  | failed => "Failed"

end RequestState

/-- Unique identifier for a request. -/
structure RequestId where
  val : String
  deriving DecidableEq, Repr

/-- Request priority. -/
inductive Priority where
  | low
  | normal
  | high
  deriving DecidableEq, Repr

/-- A request as it enters the router.  Its payload is not read there. -/
structure RouterRequest where
  id : RequestId
  priority : Priority
  deriving DecidableEq, Repr

/-- A single frame the engine driver hands to the router. -/
structure Frame where
  requestId : RequestId
  frameIndex : Nat
  bytes : List UInt8
  isFinal : Bool
  deriving DecidableEq, Repr

/-- The conversion of a Python integer to the `u64` of `PyRouter.push_frame`; where it fails
the call raises `OverflowError`. -/
def frameIndex? (index : Int) : Option Nat :=
  if 0 ≤ index ∧ index < UInt64.size then some index.toNat else none

theorem frameIndex?_eq_some {index : Int} {i : Nat} (h : frameIndex? index = some i) :
    0 ≤ index ∧ i = index.toNat := by
  unfold frameIndex? at h
  split at h
  · rename_i hrange
    exact ⟨hrange.1, (Option.some.inj h).symm⟩
  · cases h

/-- Errors produced by the router. -/
inductive RouterError where
  | unknownRequest (id : RequestId)
  | shuttingDown
  | backpressure (id : RequestId) (depth : Nat)
  | invalidTransition (src dst : RequestState)
  | outOfOrderFrame (id : RequestId) (got last : Nat)
  | duplicateRequest (id : RequestId)
  | invalidPriority (name : String)
  | scheduler (message : String)
  deriving DecidableEq, Repr

/-- `Priority::parse`: the canonical and the lowercase spellings, nothing else. -/
def Priority.parse (s : String) : Except RouterError Priority :=
  if s = "Low" ∨ s = "low" then .ok .low
  else if s = "Normal" ∨ s = "normal" then .ok .normal
  else if s = "High" ∨ s = "high" then .ok .high
  else .error (.invalidPriority s)

/-- A channel, by the order the channels were made in. -/
abbrev ChanId : Type := Nat

/-- Per-request entry the router tracks.  `senderLive` is the invariant behind
the `sender: Option<..>` field: the sender is dropped only on a terminal
transition. -/
structure Entry where
  state : RequestState
  sender : Option ChanId
  receiver : Option ChanId
  lastFrameIndex : Option Nat
  priority : Priority
  senderLive : state.isTerminal = false → sender.isSome = true

namespace Entry

/-- The entry `accept` registers: `Scheduled`, both channel halves parked. -/
@[simps] def accepted (ch : ChanId) (priority : Priority) : Entry where
  state := .scheduled
  sender := some ch
  receiver := some ch
  lastFrameIndex := none
  priority := priority
  senderLive := fun _ => rfl

/-- The state after the first-frame transition: `Scheduled → Generating →
Streaming` in one locked step, any other state unchanged. -/
def firstFrame (state : RequestState) : RequestState :=
  if state = .scheduled then .streaming else state

/-- The entry after a frame index has been recorded. -/
@[simps] def recordFrame (e : Entry) (index : Nat) (hlive : e.state.isTerminal = false) : Entry :=
  { e with
    state := firstFrame e.state
    lastFrameIndex := some index
    senderLive := fun _ => e.senderLive hlive }

/-- The entry after the final frame: `Complete`, sender dropped. -/
@[simps] def completed (e : Entry) : Entry :=
  { e with
    state := .complete
    sender := none
    senderLive := by intro h; cases h }

/-- The entry after a cancel: `Cancelled`, both parked halves dropped. -/
@[simps] def cancelled (e : Entry) : Entry :=
  { e with
    state := .cancelled
    sender := none
    receiver := none
    senderLive := by intro h; cases h }

/-- The entry after its receiver has been handed to a subscriber. -/
@[simps] def subscribed (e : Entry) : Entry :=
  { e with receiver := none }

/-- Recording a frame never makes an entry terminal. -/
theorem firstFrame_isTerminal {state : RequestState} (h : state.isTerminal = false) :
    (firstFrame state).isTerminal = false := by
  unfold firstFrame
  split
  · rfl
  · exact h

end Entry

/-- The shared state of the router: the entry map and the shutdown flag of
`Inner`, the constant channel depth, and the heap of channels. -/
structure Inner where
  requests : RequestId → Option Entry
  shuttingDown : Bool
  queueDepth : Nat
  chans : ChanId → Channel Frame
  nextChan : ChanId
  depthPos : 0 < queueDepth

namespace Inner

/-- `Router::new`: an empty router; a depth of zero is raised to one. -/
def new (perRequestQueueDepth : Nat) : Inner where
  requests := fun _ => none
  shuttingDown := false
  queueDepth := max perRequestQueueDepth 1
  chans := fun _ => Channel.make Frame (max perRequestQueueDepth 1)
  nextChan := 0
  depthPos := by omega

/-- Store an entry under an id. -/
@[simps -fullyApplied] def setEntry (r : Inner) (id : RequestId) (e : Entry) : Inner :=
  { r with requests := Function.update r.requests id (some e) }

/-- Remove the entry of an id. -/
@[simps -fullyApplied] def removeEntry (r : Inner) (id : RequestId) : Inner :=
  { r with requests := Function.update r.requests id none }

/-- Replace a channel of the heap. -/
@[simps -fullyApplied] def setChan (r : Inner) (ch : ChanId) (c : Channel Frame) : Inner :=
  { r with chans := Function.update r.chans ch c }

/-- Drop a sender half, if there is one. -/
def dropSender (r : Inner) : Option ChanId → Inner
  | none => r
  | some ch => r.setChan ch (r.chans ch).dropSender

/-- Drop a receiver half, if there is one. -/
def dropReceiver (r : Inner) : Option ChanId → Inner
  | none => r
  | some ch => r.setChan ch (r.chans ch).dropReceiver

section Fields

variable (r : Inner) (half : Option ChanId)

theorem dropSender_some (ch : ChanId) :
    r.dropSender (some ch) = r.setChan ch (r.chans ch).dropSender := rfl

theorem dropReceiver_some (ch : ChanId) :
    r.dropReceiver (some ch) = r.setChan ch (r.chans ch).dropReceiver := rfl

@[simp] theorem dropSender_requests : (r.dropSender half).requests = r.requests := by
  cases half <;> rfl
@[simp] theorem dropSender_nextChan : (r.dropSender half).nextChan = r.nextChan := by
  cases half <;> rfl
@[simp] theorem dropSender_shuttingDown :
    (r.dropSender half).shuttingDown = r.shuttingDown := by
  cases half <;> rfl
@[simp] theorem dropSender_queueDepth :
    (r.dropSender half).queueDepth = r.queueDepth := by
  cases half <;> rfl

@[simp] theorem dropReceiver_requests : (r.dropReceiver half).requests = r.requests := by
  cases half <;> rfl
@[simp] theorem dropReceiver_nextChan : (r.dropReceiver half).nextChan = r.nextChan := by
  cases half <;> rfl
@[simp] theorem dropReceiver_shuttingDown :
    (r.dropReceiver half).shuttingDown = r.shuttingDown := by
  cases half <;> rfl
@[simp] theorem dropReceiver_queueDepth :
    (r.dropReceiver half).queueDepth = r.queueDepth := by
  cases half <;> rfl

/-- Dropping a sender half leaves every queue and every receiver as it was. -/
@[simp] theorem dropSender_buffer (k : ChanId) :
    ((r.dropSender half).chans k).buffer = (r.chans k).buffer := by
  cases half with
  | none => rfl
  | some ch =>
      by_cases hk : k = ch
      · subst hk; simp [dropSender_some]
      · simp [dropSender_some, hk]

@[simp] theorem dropSender_closed (k : ChanId) :
    ((r.dropSender half).chans k).closed = (r.chans k).closed := by
  cases half with
  | none => rfl
  | some ch =>
      by_cases hk : k = ch
      · subst hk; simp [dropSender_some]
      · simp [dropSender_some, hk]

@[simp] theorem dropSender_capacity (k : ChanId) :
    ((r.dropSender half).chans k).capacity = (r.chans k).capacity := by
  cases half with
  | none => rfl
  | some ch =>
      by_cases hk : k = ch
      · subst hk; simp [dropSender_some]
      · simp [dropSender_some, hk]

/-- Dropping a sender half counts one sender less on its channel. -/
theorem senders_le_dropSender (k : ChanId) :
    (r.chans k).senders ≤ ((r.dropSender half).chans k).senders + 1 ∧
      (half ≠ some k → ((r.dropSender half).chans k).senders = (r.chans k).senders) := by
  cases half with
  | none => exact ⟨Nat.le_succ _, fun _ => rfl⟩
  | some ch =>
      by_cases hk : k = ch
      · subst hk
        refine ⟨?_, fun hne => absurd rfl hne⟩
        simp only [dropSender_some, setChan_chans, Function.update_self, Channel.dropSender_senders]
        omega
      · simp [dropSender_some, hk]

@[simp] theorem dropReceiver_senders (k : ChanId) :
    ((r.dropReceiver half).chans k).senders = (r.chans k).senders := by
  cases half with
  | none => rfl
  | some ch =>
      by_cases hk : k = ch
      · subst hk; simp [dropReceiver_some]
      · simp [dropReceiver_some, hk]

/-- Dropping a receiver half touches only its own channel. -/
theorem dropReceiver_chans_of_ne {k : ChanId} (hk : half ≠ some k) :
    (r.dropReceiver half).chans k = r.chans k := by
  cases half with
  | none => rfl
  | some ch =>
      have hne : k ≠ ch := fun h => hk (by rw [h])
      simp [dropReceiver_some, hne]

@[simp] theorem dropReceiver_some_chans (ch : ChanId) :
    (r.dropReceiver (some ch)).chans ch = (r.chans ch).dropReceiver := by
  simp [dropReceiver_some]

end Fields

end Inner

end Repercep.Router
