import Mathlib.Data.List.Basic
set_option autoImplicit false

/-!
# Notify

`tokio::sync::Notify` as documented.  `notify_one` hands its permit to the task that
has waited longest, or stores it when none waits; one permit is stored at most.
`notify_waiters` wakes every task whose `Notified` future exists already, polled or
not: each future remembers how many such calls were made before its creation.
-/

namespace Repercep.Foundation

/-- The stored permit, the registered tasks in the order of their registration, and
the number of `notify_waiters` calls so far. -/
structure Notify (κ : Type) where
  permit : Bool
  waiters : List κ
  generation : Nat
  deriving DecidableEq, Repr

namespace Notify

variable {κ : Type}

/-- `Notify::new`: no permit, and nobody waits. -/
def new (κ : Type) : Notify κ := ⟨false, [], 0⟩

/-- `notify_one`, with the task it wakes. -/
def notifyOne (n : Notify κ) : Option κ × Notify κ :=
  match n.waiters with
  | k :: waiters => (some k, { n with waiters := waiters })
  | [] => (none, { n with permit := true })

/-- `notify_waiters`, with the registered tasks it wakes. -/
def notifyWaiters (n : Notify κ) : List κ × Notify κ :=
  (n.waiters, { n with waiters := [], generation := n.generation + 1 })

/-- The first poll of a `Notified` that the task `k` created in generation `g`:
whether it is ready; one that is not is registered. -/
def poll (n : Notify κ) (k : κ) (g : Nat) : Bool × Notify κ :=
  if n.permit then (true, { n with permit := false })
  else if g = n.generation then (false, { n with waiters := n.waiters ++ [k] })
  else (true, n)

end Notify

end Repercep.Foundation
