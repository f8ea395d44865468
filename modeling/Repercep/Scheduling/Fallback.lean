import Repercep.Scheduling.Reference
set_option autoImplicit false

/-!
# Scheduler: the pure-Python fallback

`_PythonScheduler` of `runtime/scheduler.py`, used when the native extension is not
built.  It deletes a cancelled item at once, so its queues hold the live requests
and nothing else.  Every method runs under one condition variable and is one step;
`next_blocking` on an empty open queue stands for the call that times out.
-/

namespace Repercep.Scheduling

open Repercep.Foundation

variable {P : Type}

/-- What `next_blocking` hands out: the dict with `id`, `priority` and `payload`. -/
structure Item (P : Type) where
  id : RequestId
  priority : Priority
  payload : P
  deriving DecidableEq, Repr

/-- The dict made of a scheduled request. -/
def ScheduledRequest.item (req : ScheduledRequest P) : Item P :=
  ⟨req.id, req.priority, req.payload⟩

/-- `_PythonScheduler`.  Its constructor refuses a capacity below one. -/
structure PythonScheduler (P : Type) where
  capacity : Nat
  capacity_pos : 1 ≤ capacity
  queues : Priority → List (Item P)
  known : Finset RequestId
  shuttingDown : Bool

namespace PythonScheduler

/-- `_PRIORITIES`, in the order in which the queues are visited. -/
def priorities : List Priority := [.high, .normal, .low]

/-- `_PythonScheduler.__init__`. -/
def new (P : Type) (capacity : Nat) (h : 1 ≤ capacity) : PythonScheduler P where
  capacity := capacity
  capacity_pos := h
  queues := fun _ => []
  known := ∅
  shuttingDown := false

/-- `__len__`. -/
def len (s : PythonScheduler P) : Nat :=
  (s.queues .high).length + (s.queues .normal).length + (s.queues .low).length

/-- `submit`. -/
def submit (s : PythonScheduler P) (req : ScheduledRequest P) :
    Except SchedulerError Unit × PythonScheduler P :=
  if s.shuttingDown then (.error .shuttingDown, s)
  else if s.capacity ≤ s.len then (.error (.queueFull s.capacity), s)
  else (.ok (), { s with
    queues := Function.update s.queues req.priority (s.queues req.priority ++ [req.item])
    known := insert req.id s.known })

/-- The loop of `cancel` over the queues: the first that holds an item of the id. -/
def holder (s : PythonScheduler P) (id : RequestId) : Option Priority :=
  priorities.find? fun p => (s.queues p).any fun item => item.id = id

/-- `cancel`: delete the item from its queue. -/
def cancel (s : PythonScheduler P) (id : RequestId) :
    Except SchedulerError Unit × PythonScheduler P :=
  if s.shuttingDown then (.error .shuttingDown, s)
  else if id ∉ s.known then (.error (.notFound id), s)
  else
    match s.holder id with
    | some p => (.ok (), { s with
        queues := Function.update s.queues p ((s.queues p).eraseP fun item => item.id = id)
        known := s.known.erase id })
    | none => (.error (.notFound id), s)

/-- The loop of `_pop_next_locked` over the queues still to be visited. -/
def popNextFrom (s : PythonScheduler P) : List Priority → Option (Item P) × PythonScheduler P
  | [] => (none, s)
  | p :: ps =>
      match s.queues p with
      | item :: rest => (some item, { s with
          queues := Function.update s.queues p rest
          known := s.known.erase item.id })
      | [] => s.popNextFrom ps

/-- `_pop_next_locked`. -/
def popNext (s : PythonScheduler P) : Option (Item P) × PythonScheduler P :=
  s.popNextFrom priorities

/-- `next_blocking`: an item, or `None` once shut down or timed out. -/
def nextBlocking (s : PythonScheduler P) : Option (Item P) × PythonScheduler P := s.popNext

/-- `shutdown`. -/
def shutdown (s : PythonScheduler P) : PythonScheduler P := { s with shuttingDown := true }

end PythonScheduler

/-- The calls both implementations answer. -/
inductive Call (P : Type) where
  | submit (req : ScheduledRequest P)
  | cancel (id : RequestId)
  | nextBlocking
  | len
  | shutdown

/-- What the caller sees. -/
inductive Answer (P : Type) where
  | submitted (id : RequestId) (result : Except SchedulerError Unit)
  | cancelled (result : Except SchedulerError Unit)
  | delivered (item : Option (Item P))
  | length (n : Nat)
  | done

/-- The Rust scheduler behind its Python wrapper: `next_blocking` is one attempt of
`next` when nothing else goes on, `None` on a timeout as after the drain. -/
def Scheduler.answer (s : Scheduler P) : Call P → Answer P × Scheduler P
  | .submit req => (.submitted req.id (s.submit req).1, (s.submit req).2)
  | .cancel id => (.cancelled (s.cancel id).1, (s.cancel id).2)
  | .nextBlocking =>
      (.delivered (match s.poll.1 with
        | .item req => some req.item
        | .drained | .waiting => none), s.poll.2)
  | .len => (.length s.len, s)
  | .shutdown => (.done, s.shutdown)

/-- The Python scheduler. -/
def PythonScheduler.answer (s : PythonScheduler P) : Call P → Answer P × PythonScheduler P
  | .submit req => (.submitted req.id (s.submit req).1, (s.submit req).2)
  | .cancel id => (.cancelled (s.cancel id).1, (s.cancel id).2)
  | .nextBlocking => (.delivered s.nextBlocking.1, s.nextBlocking.2)
  | .len => (.length s.len, s)
  | .shutdown => (.done, s.shutdown)

/-- The Rust scheduler under a sequence of calls. -/
def rust (P : Type) (capacity : Nat) : Machine (Scheduler P) (Call P) (Answer P) where
  init := .new P capacity
  step := fun s c => some ([(s.answer c).1], (s.answer c).2)

/-- The Python scheduler under a sequence of calls. -/
def python (P : Type) (capacity : Nat) (h : 1 ≤ capacity) :
    Machine (PythonScheduler P) (Call P) (Answer P) where
  init := .new P capacity h
  step := fun s c => some ([(s.answer c).1], (s.answer c).2)

/-- The ids of the accepted submissions, in order. -/
def acceptedIds : List (Answer P) → List RequestId
  | [] => []
  | .submitted id (.ok _) :: as => id :: acceptedIds as
  | _ :: as => acceptedIds as

/-- In the run of the Rust scheduler every id is accepted at most once. -/
def AcceptsOnce (capacity : Nat) (cs : List (Call P)) : Prop :=
  ∀ as s, (rust P capacity).run (rust P capacity).init cs = some (as, s) → (acceptedIds as).Nodup

/-- The id has been cancelled and its item has not been popped yet. -/
def Scheduler.PendingCancel (s : Scheduler P) (id : RequestId) : Prop :=
  s.shuttingDown = false ∧ id ∈ s.buckets.cancelled

/-- How the two answer the same call: alike, except that cancelling an id again before
its item is popped succeeds in one and finds nothing in the other. -/
def AnswersAgree (s : Scheduler P) (t : PythonScheduler P) (c : Call P) : Prop :=
  ((∀ id, c = .cancel id → ¬ s.PendingCancel id) → (s.answer c).1 = (t.answer c).1) ∧
    ∀ id, c = .cancel id → s.PendingCancel id →
      (s.answer c).1 = .cancelled (.ok ()) ∧ (t.answer c).1 = .cancelled (.error (.notFound id))

end Repercep.Scheduling
