import Mathlib.Data.List.Basic
import Mathlib.Tactic.Simps.Basic
set_option autoImplicit false

/-!
# Bounded queues of an event loop

`asyncio.Queue` with a positive `maxsize`: `put_nowait` raises `QueueFull` instead of
waiting, `get` takes the oldest item and waits while there is none.
-/

namespace Repercep.Foundation

/-- A bounded queue, oldest item first. -/
structure AsyncQueue (α : Type) where
  maxsize : Nat
  items : List α
  positive : 0 < maxsize
  fits : items.length ≤ maxsize

namespace AsyncQueue

variable {α : Type}

/-- `asyncio.Queue(maxsize)`. -/
@[simps] def new (α : Type) (maxsize : Nat) (h : 0 < maxsize) : AsyncQueue α where
  maxsize := maxsize
  items := []
  positive := h
  fits := Nat.zero_le _

/-- `full`. -/
def Full (q : AsyncQueue α) : Prop := q.maxsize ≤ q.items.length

instance (q : AsyncQueue α) : Decidable q.Full := inferInstanceAs (Decidable (_ ≤ _))

/-- `put_nowait` on a queue that is not full. -/
@[simps] def put (q : AsyncQueue α) (a : α) (hroom : ¬ q.Full) : AsyncQueue α :=
  { q with
    items := q.items ++ [a]
    fits := by rw [List.length_append]; exact Nat.lt_of_not_le hroom }

/-- `put_nowait` with `QueueFull` suppressed. -/
def offer (q : AsyncQueue α) (a : α) : AsyncQueue α :=
  if h : q.Full then q else q.put a h

/-- `get_nowait` on a queue whose oldest item is known. -/
@[simps] def drop (q : AsyncQueue α) : AsyncQueue α :=
  { q with
    items := q.items.tail
    fits := by rw [List.length_tail]; exact Nat.le_trans (Nat.sub_le ..) q.fits }

theorem put_ne_nil (q : AsyncQueue α) (a : α) (hroom : ¬ q.Full) : (q.put a hroom).items ≠ [] := by
  simp

/-- A full queue holds an item, so after an offer there is one in any case. -/
theorem offer_ne_nil (q : AsyncQueue α) (a : α) : (q.offer a).items ≠ [] := by
  unfold offer
  split
  · rename_i hfull
    intro hnil
    have hpositive := q.positive
    unfold Full at hfull
    rw [hnil, List.length_nil] at hfull
    omega
  · rename_i hroom
    exact q.put_ne_nil a hroom

end AsyncQueue

end Repercep.Foundation
