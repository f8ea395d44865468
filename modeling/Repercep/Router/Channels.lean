import Repercep.Router.Concurrent
set_option autoImplicit false

/-!
# Router: who writes which channel, and what its reader sees

Two facts that hold under every schedule.  A channel has one writing entry, and
the sender clones in flight on it belong to pushes for that entry's request.  And
a channel is a queue: what has been delivered, followed by what is still queued,
is what has been enqueued, until the receiver is dropped.
-/

namespace Repercep.Router

open Repercep.Foundation

/-! ## Histories of one channel -/

/-- The frame an event puts into a channel. -/
def Event.enqueuedFrame? (ch : ChanId) : Event → Option Frame
  | .enqueued k frame => if k = ch then some frame else none
  | .delivered _ _ => none
  | .ended _ => none

/-- The frame an event takes out of a channel. -/
def Event.deliveredFrame? (ch : ChanId) : Event → Option Frame
  | .enqueued _ _ => none
  | .delivered k frame => if k = ch then some frame else none
  | .ended _ => none

/-- The frames enqueued on a channel, in order. -/
def enqueuedOn (ch : ChanId) (h : List Event) : List Frame :=
  h.filterMap (Event.enqueuedFrame? ch)

/-- The frames the consumer of a channel has received, in order. -/
def deliveredOn (ch : ChanId) (h : List Event) : List Frame :=
  h.filterMap (Event.deliveredFrame? ch)

section Histories

variable (ch k : ChanId) (h : List Event) (frame : Frame)

@[simp] theorem enqueuedOn_nil : enqueuedOn ch [] = [] := rfl
@[simp] theorem deliveredOn_nil : deliveredOn ch [] = [] := rfl

theorem enqueuedOn_enqueued :
    enqueuedOn ch (h ++ [.enqueued k frame]) =
      enqueuedOn ch h ++ if k = ch then [frame] else [] := by
  by_cases hk : k = ch <;> simp [enqueuedOn, Event.enqueuedFrame?, hk]

theorem deliveredOn_delivered :
    deliveredOn ch (h ++ [.delivered k frame]) =
      deliveredOn ch h ++ if k = ch then [frame] else [] := by
  by_cases hk : k = ch <;> simp [deliveredOn, Event.deliveredFrame?, hk]

@[simp] theorem enqueuedOn_delivered :
    enqueuedOn ch (h ++ [.delivered k frame]) = enqueuedOn ch h := by
  simp [enqueuedOn, Event.enqueuedFrame?]

@[simp] theorem enqueuedOn_ended : enqueuedOn ch (h ++ [.ended k]) = enqueuedOn ch h := by
  simp [enqueuedOn, Event.enqueuedFrame?]

@[simp] theorem deliveredOn_enqueued :
    deliveredOn ch (h ++ [.enqueued k frame]) = deliveredOn ch h := by
  simp [deliveredOn, Event.deliveredFrame?]

@[simp] theorem deliveredOn_ended :
    deliveredOn ch (h ++ [.ended k]) = deliveredOn ch h := by
  simp [deliveredOn, Event.deliveredFrame?]

end Histories

/-! ## Writers -/

namespace Inner

/-- The entry of `id` holds the sender of `ch`, its last index being `last`. -/
def Writes (r : Inner) (id : RequestId) (ch : ChanId) (last : Option Nat) : Prop :=
  ∃ e, r.requests id = some e ∧ e.sender = some ch ∧ e.lastFrameIndex = last

/-- A channel either keeps its queue and its receiver, or has lost both. -/
def QueueKept (r r' : Inner) (ch : ChanId) : Prop :=
  ((r'.chans ch).buffer = (r.chans ch).buffer ∧
      (r'.chans ch).closed = (r.chans ch).closed) ∨
    ((r'.chans ch).buffer = [] ∧ (r'.chans ch).closed = true)

theorem writes_congr {r r' : Inner} (h : r'.requests = r.requests) {id : RequestId}
    {ch : ChanId} {last : Option Nat} : r'.Writes id ch last ↔ r.Writes id ch last := by
  simp only [Writes, h]

theorem writes_setEntry {r : Inner} {id k : RequestId} {e : Entry} {ch : ChanId}
    {last : Option Nat} :
    (r.setEntry id e).Writes k ch last ↔
      (k = id ∧ e.sender = some ch ∧ e.lastFrameIndex = last) ∨
        (k ≠ id ∧ r.Writes k ch last) := by
  by_cases hk : k = id
  · subst hk
    simp [Writes]
  · simp [Writes, hk]

theorem writes_removeEntry {r : Inner} {id k : RequestId} {ch : ChanId}
    {last : Option Nat} :
    (r.removeEntry id).Writes k ch last ↔ k ≠ id ∧ r.Writes k ch last := by
  by_cases hk : k = id
  · subst hk
    simp [Writes]
  · simp [Writes, hk]

theorem QueueKept.refl (r : Inner) (ch : ChanId) : r.QueueKept r ch :=
  Or.inl ⟨rfl, rfl⟩

theorem queueKept_dropSender (r : Inner) (half : Option ChanId) (ch : ChanId) :
    r.QueueKept (r.dropSender half) ch :=
  Or.inl ⟨by simp, by simp⟩

theorem QueueKept.trans {r₁ r₂ r₃ : Inner} {ch : ChanId} (h₁ : r₁.QueueKept r₂ ch)
    (h₂ : r₂.QueueKept r₃ ch) : r₁.QueueKept r₃ ch := by
  rcases h₂ with ⟨hb, hc⟩ | hlost
  · rcases h₁ with ⟨hb', hc'⟩ | ⟨hb', hc'⟩
    · exact Or.inl ⟨hb.trans hb', hc.trans hc'⟩
    · exact Or.inr ⟨hb.trans hb', hc.trans hc'⟩
  · exact Or.inr hlost

theorem queueKept_dropReceiver (r : Inner) (half : Option ChanId) (ch : ChanId) :
    r.QueueKept (r.dropReceiver half) ch := by
  by_cases hch : half = some ch
  · subst hch
    exact Or.inr ⟨by simp, by simp⟩
  · rw [QueueKept, dropReceiver_chans_of_ne r half hch]
    exact Or.inl ⟨rfl, rfl⟩

/-- What a section that ends a request's writing does: the sender of `id` goes,
from its entry and from the count of its channel, no other does, and queues are kept
or lost. -/
structure Silences (r r' : Inner) (id : RequestId) : Prop where
  writes : ∀ k ch last, r'.Writes k ch last → k ≠ id ∧ r.Writes k ch last
  senders : ∀ ch, (r'.chans ch).senders = (r.chans ch).senders ∨
    ((∃ last, r.Writes id ch last) ∧ (r.chans ch).senders ≤ (r'.chans ch).senders + 1)
  queues : ∀ ch, r.QueueKept r' ch
  nextChan : r'.nextChan = r.nextChan

/-- Dropping the sender of an entry takes at most its writer off the count. -/
theorem senders_dropSender {r : Inner} {id : RequestId} {e : Entry} (r₁ : Inner)
    (hentry : r.requests id = some e) (hsame : r₁.chans = r.chans) (ch : ChanId) :
    ((r₁.dropSender e.sender).chans ch).senders = (r.chans ch).senders ∨
      ((∃ last, r.Writes id ch last) ∧
        (r.chans ch).senders ≤ ((r₁.dropSender e.sender).chans ch).senders + 1) := by
  obtain ⟨hle, hne⟩ := senders_le_dropSender r₁ e.sender ch
  rw [hsame] at hle hne
  by_cases hsender : e.sender = some ch
  · exact Or.inr ⟨⟨_, e, hentry, hsender, rfl⟩, hle⟩
  · exact Or.inl (hne hsender)

theorem complete_silences (r : Inner) (id : RequestId) : r.Silences (r.complete id) id := by
  unfold complete
  cases hentry : r.requests id with
  | none =>
      refine ⟨?_, fun _ => Or.inl rfl, fun ch => .refl r ch, rfl⟩
      rintro k ch last ⟨e, he, hrest⟩
      refine ⟨?_, e, he, hrest⟩
      rintro rfl
      simp [hentry] at he
  | some e =>
      refine ⟨?_, senders_dropSender (r.setEntry id e.completed) hentry rfl,
        fun ch => queueKept_dropSender (r.setEntry id e.completed) e.sender ch, by simp⟩
      intro k ch last h
      rw [writes_congr (r := r.setEntry id e.completed) (by simp), writes_setEntry] at h
      rcases h with ⟨-, hsender, -⟩ | h
      · simp at hsender
      · exact h

theorem rollback_silences (r : Inner) (id : RequestId) : r.Silences (r.rollback id) id := by
  unfold rollback
  cases hentry : r.requests id with
  | none =>
      refine ⟨?_, fun _ => Or.inl rfl, fun ch => .refl r ch, rfl⟩
      rintro k ch last ⟨e, he, hrest⟩
      refine ⟨?_, e, he, hrest⟩
      rintro rfl
      simp [hentry] at he
  | some e =>
      refine ⟨?_, ?_, fun ch => (queueKept_dropSender (r.removeEntry id) e.sender ch).trans
        (queueKept_dropReceiver _ e.receiver ch), by simp⟩
      · intro k ch last h
        rw [writes_congr (r := r.removeEntry id) (by simp), writes_removeEntry] at h
        exact h
      · intro ch
        rw [dropReceiver_senders]
        exact senders_dropSender (r.removeEntry id) hentry rfl ch

theorem cancelEntry_silences {r r' : Inner} {id : RequestId}
    (h : r.cancelEntry id = (.ok (), r')) : r.Silences r' id := by
  obtain ⟨e, hentry, -, rfl⟩ := cancelEntry_ok h
  refine ⟨?_, ?_,
    fun ch => (queueKept_dropSender (r.setEntry id e.cancelled) e.sender ch).trans
      (queueKept_dropReceiver _ e.receiver ch), by simp⟩
  · intro k ch last hw
    rw [writes_congr (r := r.setEntry id e.cancelled) (by simp), writes_setEntry] at hw
    rcases hw with ⟨-, hsender, -⟩ | hw
    · simp at hsender
    · exact hw
  · intro ch
    rw [dropReceiver_senders]
    exact senders_dropSender (r.setEntry id e.cancelled) hentry rfl ch

/-- Handing out a receiver changes no writer and no queue. -/
theorem takeReceiver_writes {r r' : Inner} {id : RequestId} {ch : ChanId}
    (h : r.takeReceiver id = (.ok ch, r')) {k : RequestId} {j : ChanId}
    {last : Option Nat} (hw : r'.Writes k j last) : r.Writes k j last := by
  obtain ⟨e, hentry, -, rfl⟩ := takeReceiver_ok h
  rcases writes_setEntry.mp hw with ⟨rfl, hsender, hlast⟩ | ⟨-, hw⟩
  · exact ⟨e, hentry, hsender, hlast⟩
  · exact hw

/-- Phase 1 records the index at the request's own entry and nowhere else. -/
theorem validate_writes {r r' : Inner} {frame : Frame} {ch : ChanId}
    (h : r.validate frame = (.ok ch, r')) {k : RequestId} {j : ChanId}
    {last : Option Nat} (hw : r'.Writes k j last) :
    (k = frame.requestId ∧ j = ch ∧ last = some frame.frameIndex) ∨
      (k ≠ frame.requestId ∧ r.Writes k j last) := by
  obtain ⟨e, hlive, hentry, -, hsender, rfl⟩ := validate_ok h
  rw [writes_congr
    (r := r.setEntry frame.requestId (e.recordFrame frame.frameIndex hlive))
    (setChan_requests _ _ _), writes_setEntry] at hw
  rcases hw with ⟨rfl, hj, hlast⟩ | hw
  · simp only [Entry.recordFrame_sender, hsender, Option.some.injEq] at hj
    exact Or.inl ⟨rfl, hj.symm, hlast.symm⟩
  · exact Or.inr hw

/-- A frame passes phase 1 on the channel its request writes, beyond the last
index recorded there; the queues stay as they are. -/
theorem validate_writer {r r' : Inner} {frame : Frame} {ch : ChanId}
    (h : r.validate frame = (.ok ch, r')) :
    (∃ last, r.Writes frame.requestId ch last ∧
      ∀ i, last = some i → i < frame.frameIndex) ∧
    (∀ j, r.QueueKept r' j) ∧ r'.nextChan = r.nextChan := by
  obtain ⟨e, hlive, hentry, hlast, hsender, rfl⟩ := validate_ok h
  refine ⟨⟨e.lastFrameIndex, ⟨e, hentry, hsender, rfl⟩, hlast⟩, ?_, by simp⟩
  intro j
  by_cases hj : j = ch
  · subst hj
    exact Or.inl ⟨by simp, by simp⟩
  · exact Or.inl ⟨by simp [hj], by simp [hj]⟩

end Inner

/-- A program counter that holds no sender clone. -/
def Call.Idle (call : Call) : Prop :=
  ∀ frame ch, call ≠ .sending frame ch ∧ call ≠ .completing frame ch

theorem Call.idle_of_done (result : Except RouterError Unit) : (Call.done result).Idle := by
  intro frame ch
  simp

namespace Sys

/-- A validated push that has not called `try_send` yet. -/
def Sending (s : Sys) (c : CallId) (frame : Frame) (ch : ChanId) : Prop :=
  s.calls c = some (.sending frame ch)

/-- A final push whose frame is queued and whose phase 3 is due. -/
def Completing (s : Sys) (c : CallId) (frame : Frame) (ch : ChanId) : Prop :=
  s.calls c = some (.completing frame ch)

/-- A push that holds a sender clone. -/
def InFlight (s : Sys) (c : CallId) (frame : Frame) (ch : ChanId) : Prop :=
  s.Sending c frame ch ∨ s.Completing c frame ch

section Advance

variable {s : Sys} {c d : CallId} {call : Call} {r : Inner} {frame : Frame} {ch : ChanId}

theorem sending_advance :
    (s.advance c call r).Sending d frame ch ↔
      (d = c ∧ call = .sending frame ch) ∨ (d ≠ c ∧ s.Sending d frame ch) := by
  by_cases hd : d = c
  · subst hd
    simp [Sending]
  · simp [Sending, hd]

theorem completing_advance :
    (s.advance c call r).Completing d frame ch ↔
      (d = c ∧ call = .completing frame ch) ∨ (d ≠ c ∧ s.Completing d frame ch) := by
  by_cases hd : d = c
  · subst hd
    simp [Completing]
  · simp [Completing, hd]

/-- Moving a call to an idle program counter adds no clone. -/
theorem inFlight_of_advance_idle (hidle : call.Idle)
    (h : (s.advance c call r).InFlight d frame ch) : s.InFlight d frame ch := by
  rcases h with h | h
  · rcases sending_advance.mp h with ⟨-, hcall⟩ | ⟨-, h⟩
    · exact absurd hcall (hidle frame ch).1
    · exact Or.inl h
  · rcases completing_advance.mp h with ⟨-, hcall⟩ | ⟨-, h⟩
    · exact absurd hcall (hidle frame ch).2
    · exact Or.inr h

end Advance

/-- What holds of every reachable state and the history that led there. -/
structure Owned (h : List Event) (s : Sys) : Prop where
  writerFresh : ∀ {id ch last}, s.inner.Writes id ch last → ch < s.inner.nextChan
  callFresh : ∀ {c frame ch}, s.InFlight c frame ch → ch < s.inner.nextChan
  unused : ∀ {ch}, s.inner.nextChan ≤ ch → enqueuedOn ch h = [] ∧ deliveredOn ch h = []
  oneWriter : ∀ {id id' ch last last'}, s.inner.Writes id ch last →
    s.inner.Writes id' ch last' → id = id'
  ownFrames : ∀ {c frame ch id last}, s.InFlight c frame ch → s.inner.Writes id ch last →
    frame.requestId = id
  delivered : ∀ ch, deliveredOn ch h ++ (s.inner.chans ch).buffer <+: enqueuedOn ch h
  queued : ∀ ch, (s.inner.chans ch).closed = false →
    deliveredOn ch h ++ (s.inner.chans ch).buffer = enqueuedOn ch h

/-- A step that adds no writer and no clone, and keeps or loses queues, keeps
ownership. -/
theorem Owned.shrink {h : List Event} {s t : Sys} (hs : Owned h s)
    (hwrites : ∀ {id ch last}, t.inner.Writes id ch last →
      ∃ last', s.inner.Writes id ch last')
    (hflight : ∀ {c frame ch}, t.InFlight c frame ch → s.InFlight c frame ch)
    (hqueues : ∀ ch, s.inner.QueueKept t.inner ch)
    (hnext : t.inner.nextChan = s.inner.nextChan) : Owned h t where
  writerFresh hw := by
    obtain ⟨last', hw'⟩ := hwrites hw
    rw [hnext]
    exact hs.writerFresh hw'
  callFresh hc := by
    rw [hnext]
    exact hs.callFresh (hflight hc)
  unused hch := hs.unused (by rwa [hnext] at hch)
  oneWriter hw hw' := by
    obtain ⟨last₁, hw₁⟩ := hwrites hw
    obtain ⟨last₂, hw₂⟩ := hwrites hw'
    exact hs.oneWriter hw₁ hw₂
  ownFrames hc hw := by
    obtain ⟨last', hw'⟩ := hwrites hw
    exact hs.ownFrames (hflight hc) hw'
  delivered ch := by
    rcases hqueues ch with ⟨hbuffer, -⟩ | ⟨hbuffer, -⟩
    · rw [hbuffer]
      exact hs.delivered ch
    · rw [hbuffer, List.append_nil]
      exact (List.prefix_append _ _).trans (hs.delivered ch)
  queued ch hopen := by
    rcases hqueues ch with ⟨hbuffer, hclosed⟩ | ⟨-, hclosed⟩
    · rw [hbuffer]
      exact hs.queued ch (by rwa [hclosed] at hopen)
    · rw [hclosed] at hopen
      cases hopen

/-- Ending a request's writing keeps ownership. -/
theorem Owned.silence {h : List Event} {s : Sys} (hs : Owned h s) {id : RequestId}
    {r : Inner} (hr : s.inner.Silences r id) (c : CallId) (result : Except RouterError Unit) :
    Owned h (s.advance c (.done result) r) :=
  hs.shrink (fun hw => ⟨_, (hr.writes _ _ _ hw).2⟩)
    (inFlight_of_advance_idle (Call.idle_of_done result)) hr.queues hr.nextChan

/-- A call that moves between idle program counters keeps ownership. -/
theorem Owned.idle {h : List Event} {s : Sys} (hs : Owned h s) {call : Call}
    (hidle : call.Idle) (c : CallId) : Owned h (s.advance c call s.inner) :=
  hs.shrink (fun hw => ⟨_, hw⟩) (inFlight_of_advance_idle hidle)
    (fun ch => .refl s.inner ch) rfl

/-- A registered request writes a channel nobody has used; the other writers are
as before. -/
theorem writes_register {r r' : Inner} {req : RouterRequest}
    (h : r.register req = (.ok (), r')) {k : RequestId} {j : ChanId}
    {last : Option Nat} (hw : r'.Writes k j last) :
    (k = req.id ∧ j = r.nextChan) ∨ r.Writes k j last := by
  obtain ⟨hfree, rfl⟩ := Inner.register_ok h
  obtain ⟨e, hentry, hsender, hlast⟩ := hw
  by_cases hk : k = req.id
  · subst hk
    simp only [Function.update_self, Option.some.injEq] at hentry
    subst hentry
    exact Or.inl ⟨rfl, (Option.some.inj hsender).symm⟩
  · simp only [ne_eq, hk, not_false_eq_true, Function.update_of_ne] at hentry
    exact Or.inr ⟨e, hentry, hsender, hlast⟩

/-- Registering a request keeps ownership: its channel is fresh. -/
theorem Owned.register {h : List Event} {s : Sys} (hs : Owned h s) {req : RouterRequest}
    {r : Inner} (hr : s.inner.register req = (.ok (), r)) (c : CallId) :
    Owned h (s.advance c (.submitting req) r) := by
  have hflight : ∀ {d frame ch}, (s.advance c (.submitting req) r).InFlight d frame ch →
      s.InFlight d frame ch :=
    fun hc => inFlight_of_advance_idle (fun _ _ => by simp) hc
  have hnext : r.nextChan = s.inner.nextChan + 1 := by
    obtain ⟨-, rfl⟩ := Inner.register_ok hr
    rfl
  have hfresh : ∀ {id last}, ¬ s.inner.Writes id s.inner.nextChan last :=
    fun hw => absurd (hs.writerFresh hw) (Nat.lt_irrefl _)
  have hchan : ∀ ch, ch ≠ s.inner.nextChan → r.chans ch = s.inner.chans ch := by
    obtain ⟨-, rfl⟩ := Inner.register_ok hr
    intro ch hch
    simp [hch]
  have hmade : r.chans s.inner.nextChan = Channel.make Frame s.inner.queueDepth := by
    obtain ⟨-, rfl⟩ := Inner.register_ok hr
    simp
  refine
    { writerFresh := ?_
      callFresh := ?_
      unused := ?_
      oneWriter := ?_
      ownFrames := ?_
      delivered := ?_
      queued := ?_ }
  · intro id ch last hw
    rw [advance_inner, hnext]
    rcases writes_register hr hw with ⟨-, rfl⟩ | hw
    · exact Nat.lt_succ_self _
    · exact Nat.lt_succ_of_lt (hs.writerFresh hw)
  · intro d frame ch hc
    rw [advance_inner, hnext]
    exact Nat.lt_succ_of_lt (hs.callFresh (hflight hc))
  · intro ch hch
    rw [advance_inner, hnext] at hch
    exact hs.unused (Nat.le_of_succ_le hch)
  · intro id id' ch last last' hw hw'
    rcases writes_register hr hw with ⟨rfl, hj⟩ | hw₁
    · rcases writes_register hr hw' with ⟨rfl, -⟩ | hw₂
      · rfl
      · exact absurd (hj ▸ hw₂) hfresh
    · rcases writes_register hr hw' with ⟨rfl, hj⟩ | hw₂
      · exact absurd (hj ▸ hw₁) hfresh
      · exact hs.oneWriter hw₁ hw₂
  · intro d frame ch id last hc hw
    rcases writes_register hr hw with ⟨-, rfl⟩ | hw
    · exact absurd (hs.callFresh (hflight hc)) (Nat.lt_irrefl _)
    · exact hs.ownFrames (hflight hc) hw
  · intro ch
    by_cases hch : ch = s.inner.nextChan
    · subst hch
      obtain ⟨henq, hdel⟩ := hs.unused (Nat.le_refl _)
      simp [henq, hdel, hmade]
    · rw [advance_inner, hchan ch hch]
      exact hs.delivered ch
  · intro ch hopen
    by_cases hch : ch = s.inner.nextChan
    · subst hch
      obtain ⟨henq, hdel⟩ := hs.unused (Nat.le_refl _)
      simp [henq, hdel, hmade]
    · rw [advance_inner, hchan ch hch] at hopen ⊢
      exact hs.queued ch hopen

/-- A push that passes phase 1 clones the sender of its own request. -/
theorem Owned.validate {h : List Event} {s : Sys} (hs : Owned h s) {frame : Frame}
    {ch : ChanId} {r : Inner} (hr : s.inner.validate frame = (.ok ch, r)) (c : CallId) :
    Owned h (s.advance c (.sending frame ch) r) := by
  obtain ⟨⟨last₀, hown, -⟩, hqueues, hnext⟩ := Inner.validate_writer hr
  have hwrites : ∀ {k j last}, r.Writes k j last → ∃ last', s.inner.Writes k j last' := by
    intro k j last hw
    rcases Inner.validate_writes hr hw with ⟨rfl, rfl, -⟩ | ⟨-, hw⟩
    · exact ⟨last₀, hown⟩
    · exact ⟨last, hw⟩
  have hflight : ∀ {d frame' j}, (s.advance c (.sending frame ch) r).InFlight d frame' j →
      (frame' = frame ∧ j = ch) ∨ s.InFlight d frame' j := by
    rintro d frame' j (hc | hc)
    · rcases sending_advance.mp hc with ⟨-, hcall⟩ | ⟨-, hc⟩
      · cases hcall
        exact Or.inl ⟨rfl, rfl⟩
      · exact Or.inr (Or.inl hc)
    · rcases completing_advance.mp hc with ⟨-, hcall⟩ | ⟨-, hc⟩
      · cases hcall
      · exact Or.inr (Or.inr hc)
  have hkept : Owned h { s with inner := r } :=
    hs.shrink hwrites (fun hc => hc) hqueues hnext
  refine
    { writerFresh := fun hw => hkept.writerFresh hw
      callFresh := ?_
      unused := fun hch => hkept.unused hch
      oneWriter := fun hw hw' => hkept.oneWriter hw hw'
      ownFrames := ?_
      delivered := hkept.delivered
      queued := hkept.queued }
  · intro d frame' j hc
    rw [advance_inner, hnext]
    rcases hflight hc with ⟨-, rfl⟩ | hc
    · exact hs.writerFresh hown
    · exact hs.callFresh hc
  · intro d frame' j id last hc hw
    obtain ⟨last', hw'⟩ := hwrites hw
    rcases hflight hc with ⟨rfl, rfl⟩ | hc
    · exact hs.oneWriter hown hw'
    · exact hs.ownFrames hc hw'

/-- Queuing a frame extends the history by that frame. -/
theorem Owned.enqueue {h : List Event} {s t : Sys} (hs : Owned h s) {c : CallId}
    {frame : Frame} {ch : ChanId} {k : Channel Frame} (hc : s.Sending c frame ch)
    (hopen : (s.inner.chans ch).closed = false)
    (happends : (s.inner.chans ch).Appends frame k)
    (hwrites : ∀ {id j last}, t.inner.Writes id j last → s.inner.Writes id j last)
    (hflight : ∀ {d frame' j}, t.InFlight d frame' j → s.InFlight d frame' j)
    (hnext : t.inner.nextChan = s.inner.nextChan)
    (hchan : (t.inner.chans ch).buffer = k.buffer)
    (hothers : ∀ j, j ≠ ch → s.inner.QueueKept t.inner j) :
    Owned (h ++ [.enqueued ch frame]) t := by
  have hall : deliveredOn ch (h ++ [.enqueued ch frame]) ++ (t.inner.chans ch).buffer =
      enqueuedOn ch (h ++ [.enqueued ch frame]) := by
    rw [deliveredOn_enqueued, enqueuedOn_enqueued, if_pos rfl, hchan, happends.buffer,
      ← List.append_assoc, hs.queued ch hopen]
  refine
    { writerFresh := fun hw => hnext ▸ hs.writerFresh (hwrites hw)
      callFresh := fun hc => hnext ▸ hs.callFresh (hflight hc)
      unused := ?_
      oneWriter := fun hw hw' => hs.oneWriter (hwrites hw) (hwrites hw')
      ownFrames := fun hc hw => hs.ownFrames (hflight hc) (hwrites hw)
      delivered := ?_
      queued := ?_ }
  · intro j hj
    rw [hnext] at hj
    have hne : ch ≠ j := by
      rintro rfl
      exact absurd (hs.callFresh (Or.inl hc)) (Nat.not_lt.mpr hj)
    obtain ⟨henq, hdel⟩ := hs.unused hj
    simp [enqueuedOn_enqueued, henq, hdel, hne]
  · intro j
    by_cases hj : j = ch
    · subst hj
      exact ⟨[], by rw [List.append_nil, hall]⟩
    · have hne : ch ≠ j := fun heq => hj heq.symm
      rw [deliveredOn_enqueued, enqueuedOn_enqueued, if_neg hne, List.append_nil]
      rcases hothers j hj with ⟨hb, -⟩ | ⟨hb, -⟩
      · rw [hb]
        exact hs.delivered j
      · rw [hb, List.append_nil]
        exact (List.prefix_append _ _).trans (hs.delivered j)
  · intro j hclosed
    by_cases hj : j = ch
    · subst hj
      exact hall
    · have hne : ch ≠ j := fun heq => hj heq.symm
      rw [deliveredOn_enqueued, enqueuedOn_enqueued, if_neg hne, List.append_nil]
      rcases hothers j hj with ⟨hb, hcl⟩ | ⟨-, hcl⟩
      · rw [hb]
        exact hs.queued j (by rwa [hcl] at hclosed)
      · rw [hcl] at hclosed
        cases hclosed

/-- A read moves the oldest queued frame to the delivered ones. -/
theorem Owned.deliver {h : List Event} {s : Sys} (hs : Owned h s) {ch : ChanId}
    {frame : Frame} {k : Channel Frame}
    (htakes : (s.inner.chans ch).Takes frame k) :
    Owned (h ++ [.delivered ch frame]) { s with inner := s.inner.setChan ch k } := by
  have hmoved : ∀ j, deliveredOn j (h ++ [.delivered ch frame]) ++
      ((s.inner.setChan ch k).chans j).buffer =
        deliveredOn j h ++ (s.inner.chans j).buffer := by
    intro j
    by_cases hj : j = ch
    · subst hj
      simp [deliveredOn_delivered, htakes.buffer]
    · have hne : ch ≠ j := fun heq => hj heq.symm
      simp [deliveredOn_delivered, hj, hne]
  refine
    { writerFresh := fun hw => hs.writerFresh hw
      callFresh := fun hc => hs.callFresh hc
      unused := ?_
      oneWriter := fun hw hw' => hs.oneWriter hw hw'
      ownFrames := fun hc hw => hs.ownFrames hc hw
      delivered := ?_
      queued := ?_ }
  · intro j hj
    obtain ⟨henq, hdel⟩ := hs.unused hj
    have hne : ch ≠ j := by
      rintro rfl
      have hprefix := hs.delivered ch
      rw [henq, hdel, htakes.buffer] at hprefix
      simp at hprefix
    simp [deliveredOn_delivered, henq, hdel, hne]
  · intro j
    rw [hmoved j, enqueuedOn_delivered]
    exact hs.delivered j
  · intro j hopen
    rw [hmoved j, enqueuedOn_delivered]
    refine hs.queued j ?_
    by_cases hj : j = ch
    · subst hj
      simpa [htakes.closed] using hopen
    · simpa [hj] using hopen

/-- The read that reports the end of a stream changes nothing. -/
theorem Owned.ended {h : List Event} {s : Sys} (hs : Owned h s) (ch : ChanId) :
    Owned (h ++ [.ended ch]) s where
  writerFresh := hs.writerFresh
  callFresh := hs.callFresh
  unused := fun hj => by simpa using hs.unused hj
  oneWriter := hs.oneWriter
  ownFrames := hs.ownFrames
  delivered := by simpa using hs.delivered
  queued := by simpa using hs.queued

/-- Every step keeps ownership. -/
theorem Owned.step {h : List Event} {s t : Sys} {a : Action} {es : List Event}
    (hs : Owned h s) (hstep : s.step a = some (es, t)) : Owned (h ++ es) t := by
  cases a with
  | invoke c op =>
      obtain ⟨-, rfl, rfl⟩ := step_invoke hstep
      simpa using hs.idle (fun _ _ => by simp) c
  | ensureOpen c =>
      obtain ⟨rfl, op, -, ⟨-, rfl⟩ | ⟨e, -, rfl⟩⟩ := step_ensureOpen hstep
      · simpa using hs.idle (fun _ _ => by simp) c
      · simpa using hs.idle (Call.idle_of_done _) c
  | enter c =>
      obtain ⟨rfl, op, -, rfl⟩ := step_enter hstep
      rw [List.append_nil]
      rcases enterOp_cases s c op with ⟨e, heq⟩ | ⟨req, r, -, hregister, heq⟩ |
        ⟨frame, ch, r, -, hvalidate, heq⟩ | ⟨id, ch, r, -, htake, heq⟩ |
        ⟨id, r, -, hcancel, heq⟩
      · rw [heq]
        exact hs.idle (Call.idle_of_done _) c
      · rw [heq]
        exact hs.register hregister c
      · rw [heq]
        exact hs.validate hvalidate c
      · rw [heq]
        refine hs.shrink (fun hw => ⟨_, Inner.takeReceiver_writes htake hw⟩)
          (fun hc => inFlight_of_advance_idle (r := r) (Call.idle_of_done _) hc) ?_ ?_
        · obtain ⟨e, -, -, rfl⟩ := Inner.takeReceiver_ok htake
          exact fun j => .refl s.inner j
        · obtain ⟨e, -, -, rfl⟩ := Inner.takeReceiver_ok htake
          rfl
      · rw [heq]
        exact hs.silence (Inner.cancelEntry_silences hcancel) c _
  | submitted c answer =>
      obtain ⟨rfl, req, -, ⟨e, -, rfl⟩ | ⟨-, rfl⟩⟩ := step_submitted hstep
      · simpa using hs.idle (fun _ _ => by simp) c
      · simpa using hs.idle (Call.idle_of_done _) c
  | rollback c =>
      obtain ⟨rfl, req, e, -, rfl⟩ := step_rollback hstep
      simpa using hs.silence (Inner.rollback_silences s.inner req.id) c _
  | send c =>
      obtain ⟨frame, ch, hc, hsend⟩ := step_send hstep
      rcases sendCall_cases hsend with ⟨rfl, -, e, rfl⟩ |
        ⟨rfl, hroom, k, happends, ⟨-, rfl⟩ | ⟨-, rfl⟩⟩
      · rw [List.append_nil]
        exact hs.shrink (fun hw => ⟨_, (Inner.writes_congr (by simp)).mp hw⟩)
          (inFlight_of_advance_idle (Call.idle_of_done _))
          (fun j => Inner.queueKept_dropSender s.inner (some ch) j) (by simp)
      · refine hs.enqueue hc hroom.1 happends (fun hw => (Inner.writes_congr (by simp)).mp hw)
          ?_ (by simp) (by simp) ?_
        · rintro d frame' j (hd | hd)
          · rcases sending_advance.mp hd with ⟨-, hcall⟩ | ⟨-, hd⟩
            · cases hcall
            · exact Or.inl hd
          · rcases completing_advance.mp hd with ⟨rfl, hcall⟩ | ⟨-, hd⟩
            · cases hcall
              exact Or.inl hc
            · exact Or.inr hd
        · intro j hj
          exact Or.inl ⟨by simp [hj], by simp [hj]⟩
      · refine hs.enqueue hc hroom.1 happends (fun hw => (Inner.writes_congr (by simp)).mp hw)
          (inFlight_of_advance_idle (Call.idle_of_done _)) (by simp) (by simp) ?_
        intro j hj
        exact Or.inl ⟨by simp [hj], by simp [hj]⟩
  | complete c =>
      obtain ⟨rfl, frame, ch, -, rfl⟩ := step_complete hstep
      have hsilent := Inner.complete_silences s.inner frame.requestId
      rw [List.append_nil]
      exact hs.shrink
        (fun hw => ⟨_, (hsilent.writes _ _ _ ((Inner.writes_congr (by simp)).mp hw)).2⟩)
        (inFlight_of_advance_idle (Call.idle_of_done _))
        (fun j => (hsilent.queues j).trans
          (Inner.queueKept_dropSender (s.inner.complete frame.requestId) (some ch) j))
        (by simpa using hsilent.nextChan)
  | recv ch =>
      obtain ⟨-, hread⟩ := step_recv hstep
      rcases read_cases hread with ⟨frame, k, rfl, htakes, rfl⟩ |
        ⟨rfl, rfl, -, -⟩
      · exact hs.deliver htakes
      · exact hs.ended ch
  | dropReceiver ch =>
      obtain ⟨-, rfl, rfl⟩ := step_dropReceiver hstep
      rw [List.append_nil]
      exact hs.shrink (fun hw => ⟨_, (Inner.writes_congr (by simp)).mp hw⟩)
        (fun hc => hc) (fun j => Inner.queueKept_dropReceiver s.inner (some ch) j) (by simp)
  | shutdown =>
      obtain ⟨rfl, rfl⟩ := step_shutdown hstep
      rw [List.append_nil]
      exact hs.shrink (fun hw => ⟨_, hw⟩) (fun hc => hc) (fun j => .refl s.inner j) rfl

theorem Owned.init (depth : Nat) : Owned [] (machine depth).init where
  writerFresh := by
    rintro id ch last ⟨e, he, -⟩
    cases he
  callFresh := by
    rintro c frame ch (hc | hc) <;> cases hc
  unused := fun _ => ⟨rfl, rfl⟩
  oneWriter := by
    rintro id id' ch last last' ⟨e, he, -⟩
    cases he
  ownFrames := by
    rintro c frame ch id last (hc | hc) <;> cases hc
  delivered := fun ch => by simp [machine, Inner.new]
  queued := fun ch _ => by simp [machine, Inner.new]

end Sys

end Repercep.Router
