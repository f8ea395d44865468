import Repercep.Foundation.Machine
import Repercep.Foundation.Tombstones
set_option autoImplicit false

/-!
# Scheduler: three buckets and a skip-set

The model of `crates/repercep-scheduler/src/lib.rs`.  The buckets sit under one
lock, so every method is one step.  `next` is a loop of attempts around a wait;
each attempt is a step of its own (`poll`), and one that finds nothing still clears
the tombstones it met.

The payload is opaque to the scheduler (`P` here), and `submitted_at` is carried but
not consulted.
-/

namespace Repercep.Scheduling

open Repercep.Foundation

/-- Request priority. -/
inductive Priority where
  | low
  | normal
  | high
  deriving DecidableEq, Repr

/-- Opaque request identifier. -/
structure RequestId where
  val : String
  deriving DecidableEq, Repr

/-- A single scheduled work item. -/
structure ScheduledRequest (P : Type) where
  id : RequestId
  priority : Priority
  submittedAt : Nat
  payload : P
  deriving DecidableEq, Repr

/-- All scheduler-boundary errors. -/
inductive SchedulerError where
  | queueFull (capacity : Nat)
  | notFound (id : RequestId)
  | shuttingDown
  deriving DecidableEq, Repr

variable {P : Type}

/-- The buckets under the lock.  `known` holds every id queued or cancelled but not
yet popped, `cancelled` the ids `next` is to skip. -/
structure Buckets (P : Type) extends Tombstones RequestId where
  high : List (ScheduledRequest P)
  normal : List (ScheduledRequest P)
  low : List (ScheduledRequest P)

namespace Buckets

/-- Nothing is queued. -/
def empty (P : Type) : Buckets P where
  toTombstones := .empty RequestId
  high := []
  normal := []
  low := []

/-- The queue of a priority. -/
def queue (b : Buckets P) : Priority → List (ScheduledRequest P)
  | .high => b.high
  | .normal => b.normal
  | .low => b.low

/-- Replace one queue, and the marks with it. -/
def setQueue (b : Buckets P) (p : Priority) (q : List (ScheduledRequest P))
    (t : Tombstones RequestId) : Buckets P :=
  match p with
  | .high => { b with toTombstones := t, high := q }
  | .normal => { b with toTombstones := t, normal := q }
  | .low => { b with toTombstones := t, low := q }

@[simp] theorem queue_setQueue_self (b : Buckets P) (p : Priority)
    (q : List (ScheduledRequest P)) (t : Tombstones RequestId) :
    (b.setQueue p q t).queue p = q := by
  cases p <;> rfl

theorem queue_setQueue_of_ne (b : Buckets P) {p p' : Priority} (h : p' ≠ p)
    (q : List (ScheduledRequest P)) (t : Tombstones RequestId) :
    (b.setQueue p q t).queue p' = b.queue p' := by
  cases p <;> cases p' <;> first | rfl | exact absurd rfl h

@[simp] theorem toTombstones_setQueue (b : Buckets P) (p : Priority)
    (q : List (ScheduledRequest P)) (t : Tombstones RequestId) :
    (b.setQueue p q t).toTombstones = t := by
  cases p <;> rfl

/-- `Buckets::len`: the slots minus the tombstones, saturating. -/
def len (b : Buckets P) : Nat :=
  (b.high.length + b.normal.length + b.low.length) - b.cancelled.card

/-- Append a request to the queue of its priority. -/
def push (b : Buckets P) (req : ScheduledRequest P) : Buckets P :=
  b.setQueue req.priority (b.queue req.priority ++ [req]) (b.toTombstones.learn req.id)

/-- Mark a known id as cancelled. -/
def mark (b : Buckets P) (id : RequestId) (hknown : id ∈ b.known) : Buckets P :=
  { b with toTombstones := b.toTombstones.bury id hknown }

/-- The inner loop of `pop_next`: drain one queue up to its first live item. -/
def popQueue (b : Buckets P) (p : Priority) : Option (ScheduledRequest P) × Buckets P :=
  let popped := popLive ScheduledRequest.id b.toTombstones (b.queue p)
  (popped.1, b.setQueue p popped.2.1 popped.2.2)

/-- The outer loop of `pop_next` over the queues still to be drained. -/
def popNextFrom : List Priority → Buckets P → Option (ScheduledRequest P) × Buckets P
  | [], b => (none, b)
  | p :: ps, b =>
      match b.popQueue p with
      | (some item, b') => (some item, b')
      | (none, b') => popNextFrom ps b'

/-- `Buckets::pop_next`: drain High, then Normal, then Low. -/
def popNext (b : Buckets P) : Option (ScheduledRequest P) × Buckets P :=
  popNextFrom [.high, .normal, .low] b

end Buckets

/-- The scheduler: its fixed capacity, the buckets and the shutdown flag. -/
structure Scheduler (P : Type) where
  capacity : Nat
  buckets : Buckets P
  shuttingDown : Bool

/-- How one attempt of `next` ends. -/
inductive Poll (P : Type) where
  | item (req : ScheduledRequest P)
  /-- nothing is left and shutdown was requested -/
  | drained
  /-- nothing is left; the caller waits to be woken -/
  | waiting
  deriving DecidableEq, Repr

namespace Scheduler

/-- `Scheduler::new`. -/
def new (P : Type) (capacity : Nat) : Scheduler P where
  capacity := capacity
  buckets := .empty P
  shuttingDown := false

/-- `Scheduler::submit`. -/
def submit (s : Scheduler P) (req : ScheduledRequest P) :
    Except SchedulerError Unit × Scheduler P :=
  if s.shuttingDown then (.error .shuttingDown, s)
  else if s.capacity ≤ s.buckets.len then (.error (.queueFull s.capacity), s)
  else (.ok (), { s with buckets := s.buckets.push req })

/-- One attempt of `Scheduler::next`. -/
def poll (s : Scheduler P) : Poll P × Scheduler P :=
  match s.buckets.popNext with
  | (some item, b) => (.item item, { s with buckets := b })
  | (none, b) =>
      (if s.shuttingDown then .drained else .waiting, { s with buckets := b })

/-- `Scheduler::cancel`: mark the id; the item stays in its queue. -/
def cancel (s : Scheduler P) (id : RequestId) : Except SchedulerError Unit × Scheduler P :=
  if s.shuttingDown then (.error .shuttingDown, s)
  else if hknown : id ∈ s.buckets.known then
    (.ok (), { s with buckets := s.buckets.mark id hknown })
  else (.error (.notFound id), s)

/-- `Scheduler::len`. -/
def len (s : Scheduler P) : Nat := s.buckets.len

/-- `Scheduler::shutdown`. -/
def shutdown (s : Scheduler P) : Scheduler P := { s with shuttingDown := true }

end Scheduler

/-- The calls of one scheduler, as labels. -/
inductive Action (P : Type) where
  | submit (req : ScheduledRequest P)
  | cancel (id : RequestId)
  | next
  | len

/-- What the callers of `submit`, `next` and `len` observe. -/
inductive Event (P : Type) where
  | submitted (result : Except SchedulerError Unit)
  | polled (result : Poll P)
  | length (n : Nat)

/-- The scheduler under a sequence of calls. -/
def Scheduler.step (s : Scheduler P) : Action P → List (Event P) × Scheduler P
  | .submit req => ([.submitted (s.submit req).1], (s.submit req).2)
  | .cancel id => ([], (s.cancel id).2)
  | .next => ([.polled s.poll.1], s.poll.2)
  | .len => ([.length s.len], s)

/-- The scheduler under its calls, one at a time. -/
def machine (P : Type) (capacity : Nat) :
    Machine (Scheduler P) (Action P) (Event P) where
  init := .new P capacity
  step := fun s a => some (s.step a)

end Repercep.Scheduling
