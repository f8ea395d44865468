import Mathlib.Data.List.Basic
import Mathlib.Tactic.Simps.Basic
set_option autoImplicit false

/-!
# Bounded single-consumer channels

A multi-producer, single-consumer queue with a fixed capacity: senders never
wait, the receiver reads in the order of the sends, and either side can go away.
Dropping the receiver closes the channel and discards what it held; dropping the
last sender lets the receiver drain the rest and then read end-of-stream.
-/

namespace Repercep.Foundation

/-- A channel: the queued items, oldest first, the number of live senders, and
whether the receiver has been dropped. -/
structure Channel (α : Type) where
  capacity : Nat
  buffer : List α
  senders : Nat
  closed : Bool
  fits : buffer.length ≤ capacity

/-- Why a send that does not wait was refused. -/
inductive TrySendError where
  /-- the queue holds `capacity` items -/
  | full
  /-- the receiver is gone -/
  | closed
  deriving DecidableEq, Repr

/-- What the receiver learns from one read. -/
inductive Received (α : Type) where
  /-- the oldest queued item -/
  | item (a : α)
  /-- nothing is queued and no sender is left -/
  | ended
  /-- nothing is queued, but a sender is still alive -/
  | pending
  deriving DecidableEq, Repr

namespace Channel

variable {α : Type}

/-- A fresh channel with one sender and one receiver. -/
@[simps] def make (α : Type) (capacity : Nat) : Channel α where
  capacity := capacity
  buffer := []
  senders := 1
  closed := false
  fits := Nat.zero_le _

/-- The channel can take one more item. -/
def HasRoom (c : Channel α) : Prop :=
  c.closed = false ∧ c.buffer.length < c.capacity

instance (c : Channel α) : Decidable c.HasRoom :=
  inferInstanceAs (Decidable (_ ∧ _))

/-- Queue one item without waiting.  A closed channel is reported as closed even
when it is also full. -/
def trySend (c : Channel α) (a : α) : Except TrySendError Unit × Channel α :=
  if c.closed then (.error .closed, c)
  else if hroom : c.buffer.length < c.capacity then
    (.ok (), { c with
      buffer := c.buffer ++ [a]
      fits := by rw [List.length_append]; exact hroom })
  else (.error .full, c)

/-- Read the oldest item. -/
def recv (c : Channel α) : Received α × Channel α :=
  match hbuffer : c.buffer with
  | a :: rest =>
      (.item a, { c with
        buffer := rest
        fits := by have := c.fits; simp only [hbuffer, List.length_cons] at this; omega })
  | [] => (if c.senders = 0 then .ended else .pending, c)

/-- `Sender::clone`. -/
@[simps] def cloneSender (c : Channel α) : Channel α := { c with senders := c.senders + 1 }

/-- A sender is dropped. -/
@[simps] def dropSender (c : Channel α) : Channel α := { c with senders := c.senders - 1 }

/-- The receiver is dropped: what is buffered is lost, and nothing can be sent any more. -/
@[simps] def dropReceiver (c : Channel α) : Channel α :=
  { c with buffer := [], closed := true, fits := Nat.zero_le _ }

/-- `d` is `c` with one more item queued behind the rest. -/
structure Appends (c : Channel α) (a : α) (d : Channel α) : Prop where
  buffer : d.buffer = c.buffer ++ [a]
  capacity : d.capacity = c.capacity
  senders : d.senders = c.senders
  closed : d.closed = c.closed

/-- `d` is `c` without its oldest item. -/
structure Takes (c : Channel α) (a : α) (d : Channel α) : Prop where
  buffer : c.buffer = a :: d.buffer
  capacity : d.capacity = c.capacity
  senders : d.senders = c.senders
  closed : d.closed = c.closed

/-- A send succeeds exactly when the channel has room, and then appends. -/
theorem trySend_ok_iff {c d : Channel α} {a : α} :
    c.trySend a = (.ok (), d) ↔ c.HasRoom ∧ c.Appends a d := by
  unfold trySend HasRoom
  cases hclosed : c.closed with
  | true => simp
  | false =>
      by_cases hroom : c.buffer.length < c.capacity
      · simp only [hroom, dite_true, Bool.false_eq_true, if_false, Prod.mk.injEq, true_and]
        constructor
        · rintro rfl
          exact ⟨rfl, rfl, rfl, hclosed.symm⟩
        · rintro ⟨hb, hc, hs, hd⟩
          cases d
          simp_all
      · simp [hroom]

/-- A refused send changes nothing, and is refused because there is no room. -/
theorem trySend_error {c d : Channel α} {a : α} {e : TrySendError}
    (h : c.trySend a = (.error e, d)) : d = c ∧ ¬ c.HasRoom := by
  unfold trySend at h
  unfold HasRoom
  split at h
  · simp_all
  · split at h
    · simp at h
    · rename_i hroom
      simp only [Prod.mk.injEq] at h
      exact ⟨h.2.symm, fun hcan => hroom hcan.2⟩

/-- Reading an item takes the oldest one off the queue. -/
theorem recv_item {c d : Channel α} {a : α} (h : c.recv = (.item a, d)) : c.Takes a d := by
  unfold recv at h
  split at h
  · rename_i b rest hbuffer
    simp only [Prod.mk.injEq, Received.item.injEq] at h
    obtain ⟨rfl, rfl⟩ := h
    exact ⟨hbuffer, rfl, rfl, rfl⟩
  · split at h <;> simp at h

/-- End-of-stream is read only from a drained channel without senders. -/
theorem recv_ended {c d : Channel α} (h : c.recv = (.ended, d)) :
    d = c ∧ c.buffer = [] ∧ c.senders = 0 := by
  unfold recv at h
  split at h
  · simp at h
  · rename_i hbuffer
    split at h
    · rename_i hsenders
      simp only [Prod.mk.injEq] at h
      exact ⟨h.2.symm, hbuffer, hsenders⟩
    · simp at h

/-- A queued item is read. -/
theorem recv_cons {c : Channel α} {a : α} {rest : List α} (h : c.buffer = a :: rest) :
    ∃ d, c.recv = (.item a, d) ∧ c.Takes a d := by
  unfold recv
  split
  · rename_i b rest' hbuffer
    obtain ⟨rfl, rfl⟩ := List.cons.inj (h.symm.trans hbuffer)
    exact ⟨_, rfl, hbuffer, rfl, rfl, rfl⟩
  · rename_i hbuffer
    rw [h] at hbuffer
    cases hbuffer

/-- A read of an empty queue changes nothing. -/
theorem recv_nil {c : Channel α} (h : c.buffer = []) :
    c.recv = (if c.senders = 0 then .ended else .pending, c) := by
  unfold recv
  split
  · rename_i b rest hbuffer
    rw [h] at hbuffer
    cases hbuffer
  · rfl

end Channel

end Repercep.Foundation
