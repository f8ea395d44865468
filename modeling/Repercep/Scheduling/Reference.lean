import Repercep.Scheduling.Queue
set_option autoImplicit false

/-!
# Scheduler: the queue it stands for

A caller of the scheduler thinks of one list of live requests in submission order.
Cancelling deletes from it, `next` takes the earliest request of the highest
priority present, and the list never grows beyond the capacity.
-/

namespace Repercep.Scheduling

open Repercep.Foundation

variable {P : Type}

/-- The live requests, in the order of their submission. -/
abbrev Reference (P : Type) : Type := List (ScheduledRequest P)

namespace Reference

/-- A request joins the live ones, if there is room. -/
def submit (capacity : Nat) (live : Reference P) (req : ScheduledRequest P) :
    Except SchedulerError Unit × Reference P :=
  if capacity ≤ live.length then (.error (.queueFull capacity), live)
  else (.ok (), live ++ [req])

/-- Delete the request of an id, if it is queued. -/
def cancel (live : Reference P) (id : RequestId) : Reference P :=
  live.filter (fun x => x.id ≠ id)

/-- Take the earliest request of the first priority of the list that has one. -/
def nextFrom : List Priority → Reference P → Option (ScheduledRequest P) × Reference P
  | [], live => (none, live)
  | p :: ps, live =>
      match live.find? (fun x => x.priority = p) with
      | some item => (some item, live.eraseP (fun x => x.priority = p))
      | none => nextFrom ps live

/-- Take the earliest request of the highest priority. -/
def next (live : Reference P) : Poll P × Reference P :=
  match nextFrom [.high, .normal, .low] live with
  | (some item, rest) => (.item item, rest)
  | (none, rest) => (.waiting, rest)

/-- One call, with what it answers. -/
def step (capacity : Nat) (live : Reference P) : Action P → List (Event P) × Reference P
  | .submit req =>
      ([.submitted (live.submit capacity req).1], (live.submit capacity req).2)
  | .cancel id => ([], live.cancel id)
  | .next => ([.polled live.next.1], live.next.2)
  | .len => ([.length live.length], live)

/-- Callers do not submit an id that is still live. -/
def Fresh (live : Reference P) : Action P → Prop
  | .submit req => ∀ x ∈ live, x.id ≠ req.id
  | .cancel _ | .next | .len => True

instance (live : Reference P) : ∀ a, Decidable (live.Fresh a)
  | .submit req => inferInstanceAs (Decidable (∀ x ∈ live, x.id ≠ req.id))
  | .cancel _ | .next | .len => isTrue trivial

end Reference

/-- The reference queue of a given capacity under a sequence of calls. -/
def reference (P : Type) (capacity : Nat) :
    Machine (Reference P) (Action P) (Event P) where
  init := []
  step := fun live a => some (live.step capacity a)

/-- Erasing the first match of a predicate drops the head of the matches. -/
theorem filter_eraseP_self {α : Type} (p : α → Bool) :
    ∀ l : List α, (l.eraseP p).filter p = (l.filter p).tail
  | [] => rfl
  | x :: l => by
      cases hx : p x with
      | true => simp [hx]
      | false => simp [hx, filter_eraseP_self p l]

/-- Erasing a match of one predicate leaves the matches of a disjoint one. -/
theorem filter_eraseP_of_disjoint {α : Type} {p q : α → Bool}
    (h : ∀ x, p x = true → q x = false) :
    ∀ l : List α, (l.eraseP p).filter q = l.filter q
  | [] => rfl
  | x :: l => by
      cases hx : p x with
      | true => simp [hx, h x hx]
      | false =>
          simp only [List.eraseP_cons, hx, Bool.cond_false, List.filter_cons,
            filter_eraseP_of_disjoint h l]

/-- Every request has one of the three priorities. -/
theorem length_filter_priority :
    ∀ live : Reference P,
      (live.filter (fun x => x.priority = .high)).length +
        (live.filter (fun x => x.priority = .normal)).length +
        (live.filter (fun x => x.priority = .low)).length = live.length
  | [] => rfl
  | x :: live => by
      have ih := length_filter_priority live
      cases hx : x.priority <;> simp [hx] <;> omega

end Repercep.Scheduling
