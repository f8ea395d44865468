import Repercep.Foundation.Machine
import Repercep.Router.Fallback
import Repercep.Router.Ops
set_option autoImplicit false

/-!
# Router: the two implementations agree

The server runs on `Router` of the native extension or on `_PythonRouter`.  The two keep
a request in different ways: a channel with its two halves, against a queue with a closed
flag and a sentinel.  They check in different orders, and Rust records the index of a
frame before it finds the channel full.  For every sequence of whole calls that the app
and the driver make, no caller can tell them apart.

The app subscribes to a request before it can cancel it, and the driver pushes nothing
more for a request after a backpressure error.  A frame index must be a `u64`: the class
around the Rust router raises on any other one, and `_PythonRouter` takes it.
-/

namespace Repercep.Router

open Repercep.Foundation

/-- `frame_to_pydict`. -/
def Frame.toDict (frame : Frame) : FrameDict where
  requestId := frame.requestId
  frameIndex := frame.frameIndex
  payload := frame.bytes
  isFinal := frame.isFinal

namespace Inner

/-- `Router::subscribe`. -/
def subscribe (r : Inner) (id : RequestId) : Except RouterError ChanId × Inner :=
  match r.ensureOpen with
  | .error e => (.error e, r)
  | .ok _ => r.takeReceiver id

/-- `Router::cancel`.  What the scheduler then answers is not looked at. -/
def cancel (r : Inner) (id : RequestId) : Except RouterError Unit × Inner :=
  match r.ensureOpen with
  | .error e => (.error e, r)
  | .ok _ => r.cancelEntry id

end Inner

/-- The frame that `PyRouter.push_frame` makes of its arguments, if the index is a `u64`. -/
def FrameDict.toFrame? (frame : FrameDict) : Option Frame :=
  (frameIndex? frame.frameIndex).map fun index =>
    ⟨frame.requestId, index, frame.payload, frame.isFinal⟩

theorem toFrame?_eq_some {dict : FrameDict} {frame : Frame} (h : dict.toFrame? = some frame) :
    dict = frame.toDict := by
  obtain ⟨index, hindex, rfl⟩ := Option.map_eq_some_iff.mp h
  obtain ⟨hpos, rfl⟩ := frameIndex?_eq_some hindex
  simp [Frame.toDict, Int.toNat_of_nonneg hpos]

/-- A call of the server, or a step of the reader of a stream.  An `accept` carries what
the scheduler answers to its `submit`: the text of its exception if it raises one. -/
inductive ServerCall where
  | accept (id : RequestId) (priority : String) (answer : Except String Unit)
  | subscribe (id : RequestId)
  | pushFrame (frame : FrameDict)
  | cancel (id : RequestId)
  | state (id : RequestId)
  | read (id : RequestId)

/-- What the server sees of a call. -/
inductive ServerEvent where
  /-- the call returns, or it raises -/
  | returned (ok : Bool)
  | told (state : Option RequestState)
  | read (id : RequestId) (result : PythonRead)
  deriving DecidableEq, Repr

/-- The result is no error. -/
def succeeded {ε α : Type} : Except ε α → Bool
  | .ok _ => true
  | .error _ => false

/-! ## The two servers -/

/-- The server over the Rust router: the streams it has handed out, and the requests whose
driver was told of backpressure. -/
structure RustServer where
  inner : Inner
  streams : RequestId → Option ChanId
  stalled : RequestId → Bool

/-- What `__anext__` makes of a read. -/
def readOf : Received Frame → PythonRead
  | .item frame => .frame frame.toDict
  | .ended => .stopped
  | .pending => .waiting

/-- The result is a backpressure error. -/
def isBackpressure {α : Type} : Except RouterError α → Bool
  | .error (.backpressure _ _) => true
  | _ => false

namespace RustServer

/-- The `accept` of the Python class around the router. -/
def accept (r : Inner) (id : RequestId) (priority : String) (answer : Except String Unit) :
    Except RouterError Unit × Inner :=
  match Priority.parse priority with
  | .error e => (.error e, r)
  | .ok p =>
      r.accept (fun _ _ => answer.mapError fun text => .scheduler ("submit: " ++ text)) ⟨id, p⟩

/-- One call of the Python class over the Rust router. -/
def step (s : RustServer) : ServerCall → Option (List ServerEvent × RustServer)
  | .accept id priority answer =>
      some ([.returned (succeeded (accept s.inner id priority answer).1)],
        { s with inner := (accept s.inner id priority answer).2 })
  | .subscribe id =>
      match s.inner.subscribe id with
      | (.error _, r) => some ([.returned false], { s with inner := r })
      | (.ok ch, r) =>
          some ([.returned true],
            { s with inner := r, streams := Function.update s.streams id (some ch) })
  | .pushFrame dict =>
      match dict.toFrame? with
      -- `OverflowError`, before the router is reached
      | none => some ([.returned false], s)
      | some frame =>
          some ([.returned (succeeded (s.inner.pushFrame frame).1)],
            { s with
              inner := (s.inner.pushFrame frame).2
              stalled := Function.update s.stalled frame.requestId
                (s.stalled frame.requestId || isBackpressure (s.inner.pushFrame frame).1) })
  | .cancel id =>
      some ([.returned (succeeded (s.inner.cancel id).1)],
        { s with inner := (s.inner.cancel id).2 })
  | .state id => some ([.told (s.inner.state id)], s)
  | .read id =>
      match s.streams id with
      | none => none
      | some ch =>
          some ([.read id (readOf (s.inner.recv ch).1)],
            { s with inner := (s.inner.recv ch).2 })

end RustServer

/-- The server over the Rust router. -/
def rustServer (depth : Nat) : Machine RustServer ServerCall ServerEvent where
  init := { inner := .new depth, streams := fun _ => none, stalled := fun _ => false }
  step := RustServer.step

namespace PythonRouter

/-- A read of a stream, or of one whose reader waits already. -/
def poll (r : PythonRouter) (id : RequestId) : Option (PythonRead × PythonRouter) :=
  match r.requests id with
  | none => none
  | some e =>
      if e.subscribed = false then none
      else if e.getting = true ∧ e.queue.items = [] then some (.waiting, r)
      else some (e.next.1, r.setEntry id e.next.2)

/-- One call of the router written in Python. -/
def serverStep (r : PythonRouter) : ServerCall → Option (List ServerEvent × PythonRouter)
  | .accept id priority answer =>
      some ([.returned (succeeded (r.accept (fun _ _ => answer) id priority).1)],
        (r.accept (fun _ _ => answer) id priority).2)
  | .subscribe id => some ([.returned (succeeded (r.subscribe id).1)], (r.subscribe id).2)
  | .pushFrame frame => some ([.returned (succeeded (r.pushFrame frame).1)], (r.pushFrame frame).2)
  | .cancel id => some ([.returned (succeeded (r.cancel id).1)], (r.cancel id).2)
  | .state id => some ([.told (r.state id)], r)
  | .read id =>
      match r.poll id with
      | none => none
      | some (result, r') => some ([.read id result], r')

end PythonRouter

/-- The server over the Python router. -/
def pythonServer (depth : Nat) (h : 0 < depth) : Machine PythonRouter ServerCall ServerEvent where
  init := .new depth h
  step := PythonRouter.serverStep

/-- The calls the app and the driver make: a priority that both routers know, no first
subscription to a cancelled request, no negative frame index, and no push of a request between
a backpressure error and its cancel. -/
def Customary (s : RustServer) : ServerCall → Prop
  | .accept _ priority _ =>
      succeeded (Priority.parse priority) = true ∧
        succeeded (PythonRouter.parsePriority priority) = true
  | .subscribe id => s.inner.state id = some .cancelled → (s.streams id).isSome = true
  | .pushFrame frame =>
      0 ≤ frame.frameIndex ∧
        (s.stalled frame.requestId = true → s.inner.state frame.requestId = some .cancelled)
  | _ => True

instance (s : RustServer) (a : ServerCall) : Decidable (Customary s a) := by
  cases a <;> unfold Customary <;> infer_instance

/-- Such a call, and a frame index that is a `u64`. -/
def CustomaryU64 (s : RustServer) : ServerCall → Prop
  | .pushFrame frame => Customary s (.pushFrame frame) ∧ frame.frameIndex < UInt64.size
  | a => Customary s a

instance (s : RustServer) (a : ServerCall) : Decidable (CustomaryU64 s a) := by
  cases a <;> unfold CustomaryU64 <;> infer_instance

/-! ## How a request is kept by the two -/

/-- The queue holds what the channel holds, and the sentinel may follow. -/
structure Carries (c : Channel Frame) (q : AsyncQueue (Option FrameDict))
    (sentinel : List (Option FrameDict)) : Prop where
  receiving : c.closed = false
  capacity : c.capacity = q.maxsize
  items : q.items = c.buffer.map (fun frame => some frame.toDict) ++ sentinel

/-- The receiver is parked, or it has been handed to the subscriber. -/
inductive Handed (ch : ChanId) (stream : Option ChanId) (e : Entry) (p : PythonEntry) : Prop where
  | parked (hreceiver : e.receiver = some ch) (hstream : stream = none)
      (hsubscribed : p.subscribed = false)
  | taken (hreceiver : e.receiver = none) (hstream : stream = some ch)
      (hsubscribed : p.subscribed = true)

theorem Carries.length_items {c : Channel Frame} {q : AsyncQueue (Option FrameDict)}
    (h : Carries c q []) : q.items.length = c.buffer.length := by
  simp [h.items]

theorem Handed.congr {ch : ChanId} {stream : Option ChanId} {e e' : Entry}
    {p p' : PythonEntry} (h : Handed ch stream e p) (hreceiver : e'.receiver = e.receiver)
    (hsubscribed : p'.subscribed = p.subscribed) : Handed ch stream e' p' := by
  cases h with
  | parked hparked hstream hnot =>
      exact .parked (hreceiver.trans hparked) hstream (hsubscribed.trans hnot)
  | taken htaken hstream hyes =>
      exact .taken (hreceiver.trans htaken) hstream (hsubscribed.trans hyes)

/-- A request that goes on. -/
structure Live (ch : ChanId) (c : Channel Frame) (stream : Option ChanId) (stalled : Bool)
    (e : Entry) (p : PythonEntry) : Prop where
  state : p.state = e.state
  phase : e.state = .streaming ∨ (e.state = .scheduled ∧ c.buffer = [])
  sender : e.sender = some ch
  senders : c.senders = 1
  running : p.closed = false
  carries : Carries c p.queue []
  handed : Handed ch stream e p
  index : stalled = false → p.lastFrameIndex = e.lastFrameIndex.map Int.ofNat

/-- A request that has ended, and whose stream can be read. -/
structure Finished (ch : ChanId) (c : Channel Frame) (stream : Option ChanId)
    (e : Entry) (p : PythonEntry) : Prop where
  state : p.state = e.state
  terminal : e.state.isTerminal = true
  senders : c.senders = 0
  closed : p.closed = true
  carries : Carries c p.queue [] ∨ Carries c p.queue [none]
  handed : Handed ch stream e p

/-- A request that was cancelled before anyone subscribed. -/
structure Lost (stream : Option ChanId) (e : Entry) (p : PythonEntry) : Prop where
  cancelled : e.state = .cancelled
  state : p.state = .cancelled
  receiver : e.receiver = none
  stream : stream = none
  subscribed : p.subscribed = false

/-- What the two routers keep of one request. -/
inductive Alike (ch : ChanId) (c : Channel Frame) (stream : Option ChanId) (stalled : Bool) :
    Option Entry → Option PythonEntry → Prop where
  | unknown (h : stream = none) : Alike ch c stream stalled none none
  | live {e : Entry} {p : PythonEntry} (h : Live ch c stream stalled e p) :
      Alike ch c stream stalled (some e) (some p)
  | finished {e : Entry} {p : PythonEntry} (h : Finished ch c stream e p) :
      Alike ch c stream stalled (some e) (some p)
  | lost {e : Entry} {p : PythonEntry} (h : Lost stream e p) :
      Alike ch c stream stalled (some e) (some p)

/-- The simulation: every request is kept alike, each on a channel of its own. -/
structure Mirrors (own : RequestId → ChanId) (s : RustServer) (t : PythonRouter) : Prop where
  depth : t.queueDepth = s.inner.queueDepth
  running : s.inner.shuttingDown = false ∧ t.shuttingDown = false
  below : ∀ id, s.inner.requests id ≠ none → own id < s.inner.nextChan
  apart : ∀ id id', s.inner.requests id ≠ none → s.inner.requests id' ≠ none →
    own id = own id' → id = id'
  alike : ∀ id, Alike (own id) (s.inner.chans (own id)) (s.streams id) (s.stalled id)
    (s.inner.requests id) (t.requests id)

/-- A step changes no more than one request, and its channel. -/
structure Confined (id : RequestId) (ch : ChanId) (s s' : RustServer) (t t' : PythonRouter) :
    Prop where
  depth : s'.inner.queueDepth = s.inner.queueDepth ∧ t'.queueDepth = t.queueDepth
  shut : s'.inner.shuttingDown = s.inner.shuttingDown ∧ t'.shuttingDown = t.shuttingDown
  next : s'.inner.nextChan = s.inner.nextChan
  chans : ∀ k, k ≠ ch → s'.inner.chans k = s.inner.chans k
  requests : ∀ k, k ≠ id → s'.inner.requests k = s.inner.requests k
  streams : ∀ k, k ≠ id → s'.streams k = s.streams k
  stalled : ∀ k, k ≠ id → s'.stalled k = s.stalled k
  entries : ∀ k, k ≠ id → t'.requests k = t.requests k

theorem Mirrors.touch {own : RequestId → ChanId} {s s' : RustServer} {t t' : PythonRouter}
    (id : RequestId) (h : Mirrors own s t) (hknown : s.inner.requests id ≠ none)
    (hconfined : Confined id (own id) s s' t t')
    (halike : Alike (own id) (s'.inner.chans (own id)) (s'.streams id) (s'.stalled id)
      (s'.inner.requests id) (t'.requests id)) : Mirrors own s' t' where
  depth := by rw [hconfined.depth.1, hconfined.depth.2, h.depth]
  running := by rw [hconfined.shut.1, hconfined.shut.2]; exact h.running
  below := by
    intro k hk
    rw [hconfined.next]
    by_cases hid : k = id
    · rw [hid]
      exact h.below id hknown
    · exact h.below k (hconfined.requests k hid ▸ hk)
  apart := by
    have hback : ∀ k, s'.inner.requests k ≠ none → s.inner.requests k ≠ none := by
      intro k hk
      by_cases hid : k = id
      · rw [hid]
        exact hknown
      · rwa [← hconfined.requests k hid]
    intro k k' hk hk'
    exact h.apart k k' (hback k hk) (hback k' hk')
  alike := by
    intro k
    by_cases hid : k = id
    · rw [hid]
      exact halike
    · rw [hconfined.requests k hid, hconfined.streams k hid, hconfined.stalled k hid,
        hconfined.entries k hid]
      have hk := h.alike k
      by_cases hrequest : s.inner.requests k = none
      · rw [hrequest] at hk ⊢
        generalize t.requests k = entry at hk ⊢
        cases hk with
        | unknown hstream => exact .unknown hstream
      · have hne : own k ≠ own id := fun heq => hid (h.apart k id hrequest hknown heq)
        rw [hconfined.chans (own k) hne]
        exact hk

/-! ## The calls -/

variable {own : RequestId → ChanId} {s : RustServer} {t : PythonRouter}

/-- A name the Rust router knows means the same priority to the other. -/
theorem parsePriority_of_parse {name : String} {p : Priority}
    (h : Priority.parse name = .ok p) : PythonRouter.parsePriority name = .ok p := by
  unfold Priority.parse at h
  by_cases hlow : name = "Low" ∨ name = "low"
  · rw [if_pos hlow] at h
    cases h
    rcases hlow with rfl | rfl <;> rfl
  · rw [if_neg hlow] at h
    by_cases hnormal : name = "Normal" ∨ name = "normal"
    · rw [if_pos hnormal] at h
      cases h
      rcases hnormal with rfl | rfl <;> rfl
    · rw [if_neg hnormal] at h
      by_cases hhigh : name = "High" ∨ name = "high"
      · rw [if_pos hhigh] at h
        cases h
        rcases hhigh with rfl | rfl <;> rfl
      · rw [if_neg hhigh] at h
        cases h

theorem Mirrors.ensureOpen (h : Mirrors own s t) : s.inner.ensureOpen = .ok () :=
  Inner.ensureOpen_eq_ok.mpr h.running.1

/-- Both servers take the call, with the same events, and stay alike. -/
def Answers (s : RustServer) (t : PythonRouter) (a : ServerCall) : Prop :=
  ∃ es s' t', s.step a = some (es, s') ∧ t.serverStep a = some (es, t') ∧
    ∃ own, Mirrors own s' t'

theorem Live.isTerminal {ch : ChanId} {c : Channel Frame} {stream : Option ChanId}
    {stalled : Bool} {e : Entry} {p : PythonEntry} (h : Live ch c stream stalled e p) :
    e.state.isTerminal = false := by
  rcases h.phase with hstate | ⟨hstate, -⟩
  · rw [hstate]
    rfl
  · rw [hstate]
    rfl

/-- The close of a live queue: the sentinel goes in if there is room. -/
theorem Carries.close {c c' : Channel Frame} {p : PythonEntry} (h : Carries c p.queue [])
    (hbuffer : c'.buffer = c.buffer) (hclosed : c'.closed = c.closed)
    (hcapacity : c'.capacity = c.capacity) (state : RequestState) :
    Carries c' (p.close state).queue [] ∨ Carries c' (p.close state).queue [none] := by
  rw [PythonEntry.close_queue, AsyncQueue.offer]
  split
  · left
    exact ⟨hclosed.trans h.receiving, hcapacity.trans h.capacity, by rw [hbuffer, h.items]⟩
  · right
    refine ⟨hclosed.trans h.receiving, hcapacity.trans h.capacity, ?_⟩
    rw [AsyncQueue.put_items, hbuffer, h.items, List.append_nil]

/-- `cancel`. -/
theorem Mirrors.cancel (h : Mirrors own s t) (id : RequestId) : Answers s t (.cancel id) := by
  have halike := h.alike id
  have hopen := h.ensureOpen
  generalize hrust : s.inner.requests id = entry at halike
  generalize hpython : t.requests id = entry' at halike
  cases halike with
  | unknown hstream =>
      refine ⟨[.returned false], s, t, ?_, ?_, own, h⟩
      · simp [RustServer.step, Inner.cancel, hopen, Inner.cancelEntry, hrust, succeeded]
      · simp [PythonRouter.serverStep, PythonRouter.cancel, hpython, succeeded]
  | finished hover =>
      have hterminal := hover.terminal
      refine ⟨[.returned false], s, t, ?_, ?_, own, h⟩
      · simp [RustServer.step, Inner.cancel, hopen, Inner.cancelEntry, hrust, hterminal, succeeded]
      · simp [PythonRouter.serverStep, PythonRouter.cancel, hpython, hover.state, hterminal,
          succeeded]
  | lost hlost =>
      refine ⟨[.returned false], s, t, ?_, ?_, own, h⟩
      · simp [RustServer.step, Inner.cancel, hopen, Inner.cancelEntry, hrust, hlost.cancelled,
          RequestState.isTerminal, succeeded]
      · simp [PythonRouter.serverStep, PythonRouter.cancel, hpython, hlost.state,
          RequestState.isTerminal, succeeded]
  | @live e p hlive =>
      have hterminal := hlive.isTerminal
      refine ⟨[.returned true], { s with inner :=
        ((s.inner.setEntry id e.cancelled).dropSender e.sender).dropReceiver e.receiver },
        t.setEntry id (p.close .cancelled), ?_, ?_, own, ?_⟩
      · simp [RustServer.step, Inner.cancel, hopen, Inner.cancelEntry, hrust, hterminal, succeeded]
      · simp [PythonRouter.serverStep, PythonRouter.cancel, hpython, hlive.state, hterminal,
          succeeded]
      · have hknown : s.inner.requests id ≠ none := by simp [hrust]
        refine h.touch _ hknown ?_ ?_
        · exact {
            depth := by simp
            shut := by simp
            next := by simp
            chans := by
              intro k hk
              have hne : e.receiver ≠ some k := by
                rcases hlive.handed with ⟨hreceiver, -, -⟩ | ⟨hreceiver, -, -⟩
                · rw [hreceiver]
                  simpa using Ne.symm hk
                · simp [hreceiver]
              rw [Inner.dropReceiver_chans_of_ne _ _ hne, hlive.sender]
              simp [Inner.dropSender, hk]
            requests := by
              intro k hk
              simp [hk]
            streams := fun _ _ => rfl
            stalled := fun _ _ => rfl
            entries := by
              intro k hk
              simp [hk] }
        · have hrequest : (((s.inner.setEntry id e.cancelled).dropSender
              e.sender).dropReceiver e.receiver).requests id = some e.cancelled := by simp
          simp only [PythonRouter.setEntry_requests, Function.update_self, hrequest]
          rcases hlive.handed with ⟨hreceiver, hstream, hsubscribed⟩ |
            ⟨hreceiver, hstream, hsubscribed⟩
          · exact .lost ⟨rfl, rfl, rfl, hstream, hsubscribed⟩
          · have hsenders : ((((s.inner.setEntry id e.cancelled).dropSender
                e.sender).dropReceiver e.receiver).chans (own id)).senders = 0 := by
              rw [Inner.dropReceiver_senders, hlive.sender]
              simp [Inner.dropSender, hlive.senders]
            refine .finished ⟨rfl, rfl, hsenders, rfl, ?_, .taken rfl hstream hsubscribed⟩
            rw [hreceiver]
            exact hlive.carries.close (by simp [Inner.dropReceiver])
              (by simp [Inner.dropReceiver]) (by simp [Inner.dropReceiver]) .cancelled

/-- A step that only hands the receiver out. -/
theorem Mirrors.handOut (h : Mirrors own s t) {id : RequestId} {e : Entry} {p : PythonEntry}
    (hrust : s.inner.requests id = some e)
    (halike : Alike (own id) (s.inner.chans (own id)) (some (own id)) (s.stalled id)
      (some e.subscribed) (some p.subscribe)) :
    Mirrors own
      { s with
        inner := s.inner.setEntry id e.subscribed
        streams := Function.update s.streams id (some (own id)) }
      (t.setEntry id p.subscribe) := by
  refine h.touch id (by simp [hrust]) ?_ ?_
  · exact {
      depth := ⟨rfl, rfl⟩
      shut := ⟨rfl, rfl⟩
      next := rfl
      chans := fun _ _ => rfl
      requests := fun k hk => by simp [hk]
      streams := fun k hk => by simp [hk]
      stalled := fun _ _ => rfl
      entries := fun k hk => by simp [hk] }
  · simpa using halike

/-- `subscribe`. -/
theorem Mirrors.subscribe (h : Mirrors own s t) {id : RequestId}
    (hcustomary : Customary s (.subscribe id)) : Answers s t (.subscribe id) := by
  have halike := h.alike id
  have hopen := h.ensureOpen
  generalize hrust : s.inner.requests id = entry at halike
  generalize hpython : t.requests id = entry' at halike
  have hparked : ∀ {e : Entry} {p : PythonEntry}, s.inner.requests id = some e →
      t.requests id = some p → e.receiver = some (own id) → p.subscribed = false →
      Alike (own id) (s.inner.chans (own id)) (some (own id)) (s.stalled id)
        (some e.subscribed) (some p.subscribe) → Answers s t (.subscribe id) := by
    intro e p hrust hpython hreceiver hsubscribed halike
    refine ⟨[.returned true], _, _, ?_, ?_, own, h.handOut hrust halike⟩
    · simp [RustServer.step, Inner.subscribe, hopen, Inner.takeReceiver, hrust, hreceiver]
    · simp [PythonRouter.serverStep, PythonRouter.subscribe, hpython, hsubscribed, succeeded]
  have htaken : ∀ {e : Entry} {p : PythonEntry}, s.inner.requests id = some e →
      t.requests id = some p → e.receiver = none → p.subscribed = true →
      Answers s t (.subscribe id) := by
    intro e p hrust hpython hreceiver hsubscribed
    refine ⟨[.returned false], s, t, ?_, ?_, own, h⟩
    · simp [RustServer.step, Inner.subscribe, hopen, Inner.takeReceiver, hrust, hreceiver]
    · simp [PythonRouter.serverStep, PythonRouter.subscribe, hpython, hsubscribed, succeeded]
  cases halike with
  | unknown hstream =>
      refine ⟨[.returned false], s, t, ?_, ?_, own, h⟩
      · simp [RustServer.step, Inner.subscribe, hopen, Inner.takeReceiver, hrust]
      · simp [PythonRouter.serverStep, PythonRouter.subscribe, hpython, succeeded]
  | live hlive =>
      rcases hlive.handed with ⟨hreceiver, hstream, hsubscribed⟩ |
        ⟨hreceiver, hstream, hsubscribed⟩
      · refine hparked hrust hpython hreceiver hsubscribed (.live { hlive with handed := ?_ })
        exact .taken rfl rfl rfl
      · exact htaken hrust hpython hreceiver hsubscribed
  | finished hfinished =>
      rcases hfinished.handed with ⟨hreceiver, hstream, hsubscribed⟩ |
        ⟨hreceiver, hstream, hsubscribed⟩
      · refine hparked hrust hpython hreceiver hsubscribed
          (.finished { hfinished with handed := ?_ })
        exact .taken rfl rfl rfl
      · exact htaken hrust hpython hreceiver hsubscribed
  | lost hlost =>
      have hstate : s.inner.state id = some .cancelled := by
        simp [Inner.state, hrust, hlost.cancelled]
      have hsome := hcustomary hstate
      rw [hlost.stream] at hsome
      cases hsome

/-- A step that makes a channel, and that changes nothing else but one unknown request. -/
theorem Mirrors.allocate {s' : RustServer} {t' : PythonRouter} {id : RequestId}
    (h : Mirrors own s t)
    (hconfined : Confined id s.inner.nextChan s
      { s' with inner := { s'.inner with nextChan := s.inner.nextChan } } t t')
    (hnext : s'.inner.nextChan = s.inner.nextChan + 1)
    (halike : Alike s.inner.nextChan (s'.inner.chans s.inner.nextChan) (s'.streams id)
      (s'.stalled id) (s'.inner.requests id) (t'.requests id)) :
    Mirrors (Function.update own id s.inner.nextChan) s' t' := by
  have hrequests : ∀ k, k ≠ id → s'.inner.requests k = s.inner.requests k :=
    hconfined.requests
  have hbelow : ∀ k, k ≠ id → s'.inner.requests k ≠ none → own k < s.inner.nextChan :=
    fun k hk hknown => h.below k (hrequests k hk ▸ hknown)
  refine ⟨?_, ?_, ?_, ?_, ?_⟩
  · exact hconfined.depth.2.trans (h.depth.trans hconfined.depth.1.symm)
  · exact ⟨hconfined.shut.1.trans h.running.1, hconfined.shut.2.trans h.running.2⟩
  · intro k hknown
    rw [hnext]
    by_cases hk : k = id
    · rw [hk, Function.update_self]
      exact Nat.lt_succ_self _
    · rw [Function.update_of_ne hk]
      exact Nat.lt_succ_of_lt (hbelow k hk hknown)
  · intro k k' hknown hknown' heq
    by_cases hk : k = id
    · by_cases hk' : k' = id
      · rw [hk, hk']
      · rw [hk, Function.update_self, Function.update_of_ne hk'] at heq
        exact absurd heq.symm (Nat.ne_of_lt (hbelow k' hk' hknown'))
    · by_cases hk' : k' = id
      · rw [hk', Function.update_self, Function.update_of_ne hk] at heq
        exact absurd heq (Nat.ne_of_lt (hbelow k hk hknown))
      · rw [Function.update_of_ne hk, Function.update_of_ne hk'] at heq
        exact h.apart k k' (hrequests k hk ▸ hknown) (hrequests k' hk' ▸ hknown') heq
  · intro k
    by_cases hk : k = id
    · rw [hk, Function.update_self]
      exact halike
    · have hold := h.alike k
      have hstream : s'.streams k = s.streams k := hconfined.streams k hk
      have hstalled : s'.stalled k = s.stalled k := hconfined.stalled k hk
      rw [Function.update_of_ne hk, hrequests k hk, hstream, hstalled, hconfined.entries k hk]
      by_cases hknown : s.inner.requests k = none
      · rw [hknown] at hold ⊢
        generalize t.requests k = entry at hold ⊢
        cases hold with
        | unknown hnone => exact .unknown hnone
      · have hchan : s'.inner.chans (own k) = s.inner.chans (own k) :=
          hconfined.chans (own k) (Nat.ne_of_lt (h.below k hknown))
        rw [hchan]
        exact hold

/-- `accept`. -/
theorem Mirrors.accept (h : Mirrors own s t) {id : RequestId} {priority : String}
    {answer : Except String Unit} (hcustomary : Customary s (.accept id priority answer)) :
    Answers s t (.accept id priority answer) := by
  have halike := h.alike id
  have hopen := h.ensureOpen
  obtain ⟨p, hparse⟩ : ∃ p, Priority.parse priority = .ok p := by
    cases hparse : Priority.parse priority with
    | ok p => exact ⟨p, rfl⟩
    | error e => simp [Customary, hparse, succeeded] at hcustomary
  have hparse' := parsePriority_of_parse hparse
  generalize hrust : s.inner.requests id = entry at halike
  generalize hpython : t.requests id = entry' at halike
  have hduplicate : entry ≠ none → entry' ≠ none → Answers s t (.accept id priority answer) := by
    intro hentry hentry'
    obtain ⟨e, rfl⟩ := Option.ne_none_iff_exists'.mp hentry
    obtain ⟨e', rfl⟩ := Option.ne_none_iff_exists'.mp hentry'
    refine ⟨[.returned false], s, t, ?_, ?_, own, h⟩
    · simp [RustServer.step, RustServer.accept, hparse, Inner.accept, hopen, Inner.register,
        hrust, succeeded]
    · simp [PythonRouter.serverStep, PythonRouter.accept, h.running.2, hparse', hpython,
        succeeded]
  cases halike with
  | live hlive => exact hduplicate (by simp) (by simp)
  | finished hfinished => exact hduplicate (by simp) (by simp)
  | lost hlost => exact hduplicate (by simp) (by simp)
  | unknown hstream =>
      let r := { s.inner with
        requests := Function.update s.inner.requests id
          (some (.accepted s.inner.nextChan p))
        chans := Function.update s.inner.chans s.inner.nextChan
          (Channel.make Frame s.inner.queueDepth)
        nextChan := s.inner.nextChan + 1 }
      have hregister : s.inner.register ⟨id, p⟩ = (.ok (), r) := by
        simp [Inner.register, hrust, r]
      cases answer with
      | error message =>
          have hrollback : r.rollback id =
              ((r.removeEntry id).dropSender (some s.inner.nextChan)).dropReceiver
                (some s.inner.nextChan) := by
            simp [Inner.rollback, r]
          refine ⟨[.returned false], { s with inner := r.rollback id }, t, ?_, ?_,
            Function.update own id s.inner.nextChan, h.allocate ?_ ?_ ?_⟩
          · simp [RustServer.step, RustServer.accept, hparse, Inner.accept, hopen, hregister,
              Except.mapError, succeeded]
          · simp [PythonRouter.serverStep, PythonRouter.accept, h.running.2, hparse', hpython,
              succeeded]
          · rw [hrollback]
            exact {
              depth := by simp [r]
              shut := by simp [r]
              next := rfl
              chans := fun k hk => by simp [Inner.dropReceiver, Inner.dropSender, r, hk]
              requests := fun k hk => by simp [r, hk]
              streams := fun _ _ => rfl
              stalled := fun _ _ => rfl
              entries := fun _ _ => rfl }
          · simp [hrollback, r]
          · have hnone : (r.rollback id).requests id = none := by simp [hrollback]
            rw [hnone, hpython]
            exact .unknown hstream
      | ok u =>
          refine ⟨[.returned true], { s with inner := r },
            t.setEntry id (.accepted t.queueDepth t.depth_pos), ?_, ?_,
            Function.update own id s.inner.nextChan, h.allocate ?_ rfl ?_⟩
          · simp [RustServer.step, RustServer.accept, hparse, Inner.accept, hopen, hregister,
              Except.mapError, succeeded]
          · simp [PythonRouter.serverStep, PythonRouter.accept, h.running.2, hparse', hpython,
              succeeded]
          · exact {
              depth := ⟨rfl, rfl⟩
              shut := ⟨rfl, rfl⟩
              next := rfl
              chans := fun k hk => by simp [r, hk]
              requests := fun k hk => by simp [r, hk]
              streams := fun _ _ => rfl
              stalled := fun _ _ => rfl
              entries := fun k hk => by simp [hk] }
          · have hentry : r.requests id = some (.accepted s.inner.nextChan p) := by simp [r]
            have hchan : r.chans s.inner.nextChan = Channel.make Frame s.inner.queueDepth := by
              simp [r]
            simp only [hentry, hchan, PythonRouter.setEntry_requests, Function.update_self]
            exact .live {
              state := rfl
              phase := Or.inr ⟨rfl, rfl⟩
              sender := rfl
              senders := rfl
              running := rfl
              carries := ⟨rfl, h.depth.symm, rfl⟩
              handed := .parked rfl hstream rfl
              index := fun _ => rfl }

/-- `state`. -/
theorem Mirrors.state (h : Mirrors own s t) (id : RequestId) : Answers s t (.state id) := by
  refine ⟨[.told (s.inner.state id)], s, t, rfl, ?_, own, h⟩
  have hsame : t.state id = s.inner.state id := by
    have halike := h.alike id
    rw [PythonRouter.state, Inner.state]
    generalize s.inner.requests id = entry at halike ⊢
    generalize t.requests id = entry' at halike ⊢
    cases halike with
    | unknown hstream => rfl
    | live hlive => simp [hlive.state]
    | finished hfinished => simp [hfinished.state]
    | lost hlost => simp [hlost.state, hlost.cancelled]
  rw [PythonRouter.serverStep, hsame]

/-! ### Pushing a frame -/

/-- What a push leaves of the router: the entry of its request, and the channel. -/
structure Wrote (r r' : Inner) (id : RequestId) (ch : ChanId) (e : Entry)
    (buffer : List Frame) (senders : Nat) : Prop where
  requests : r'.requests = Function.update r.requests id (some e)
  chan : (r'.chans ch).buffer = buffer ∧ (r'.chans ch).senders = senders ∧
    (r'.chans ch).closed = (r.chans ch).closed ∧
    (r'.chans ch).capacity = (r.chans ch).capacity
  chans : ∀ k, k ≠ ch → r'.chans k = r.chans k
  kept : r'.nextChan = r.nextChan ∧ r'.queueDepth = r.queueDepth ∧
    r'.shuttingDown = r.shuttingDown

section Push

variable {r : Inner} {frame : Frame} {e : Entry} {ch : ChanId}

/-- The first phase of a push that goes on. -/
theorem validate_eq (hentry : r.requests frame.requestId = some e)
    (hlive : e.state.isTerminal = false) (hstale : e.staleAgainst frame.frameIndex = none)
    (hsender : e.sender = some ch) :
    r.validate frame = (.ok ch, (r.setEntry frame.requestId
      (e.recordFrame frame.frameIndex hlive)).setChan ch (r.chans ch).cloneSender) := by
  unfold Inner.validate
  simp [hentry, hlive, hstale, hsender]

/-- A push that finds the channel full has recorded its index. -/
theorem pushFrame_full (hopen : r.ensureOpen = .ok ())
    (hentry : r.requests frame.requestId = some e) (hlive : e.state.isTerminal = false)
    (hstale : e.staleAgainst frame.frameIndex = none) (hsender : e.sender = some ch)
    (hreceiving : (r.chans ch).closed = false)
    (hfull : (r.chans ch).capacity ≤ (r.chans ch).buffer.length) :
    ∃ r', r.pushFrame frame =
        (.error (.backpressure frame.requestId r.queueDepth), r') ∧
      Wrote r r' frame.requestId ch (e.recordFrame frame.frameIndex hlive)
        (r.chans ch).buffer (r.chans ch).senders := by
  have hsend : (r.chans ch).cloneSender.trySend frame = (.error .full, (r.chans ch).cloneSender) := by
    simp [Channel.trySend, hreceiving, Nat.not_lt.mpr hfull]
  unfold Inner.pushFrame
  rw [hopen, validate_eq hentry hlive hstale hsender]
  simp only [Inner.sendFrame, Inner.setChan_chans, Function.update_self, hsend]
  refine ⟨_, rfl, ?_⟩
  exact {
    requests := by simp
    chan := by simp [Inner.dropSender]
    chans := fun k hk => by simp [Inner.dropSender, hk]
    kept := by simp }

/-- A push with room queues its frame, and ends the request if the frame is final. -/
theorem pushFrame_sent (hopen : r.ensureOpen = .ok ())
    (hentry : r.requests frame.requestId = some e) (hlive : e.state.isTerminal = false)
    (hstale : e.staleAgainst frame.frameIndex = none) (hsender : e.sender = some ch)
    (hreceiving : (r.chans ch).closed = false)
    (hroom : (r.chans ch).buffer.length < (r.chans ch).capacity) :
    ∃ r', r.pushFrame frame = (.ok (), r') ∧
      Wrote r r' frame.requestId ch
        (if frame.isFinal then (e.recordFrame frame.frameIndex hlive).completed
          else e.recordFrame frame.frameIndex hlive)
        ((r.chans ch).buffer ++ [frame])
        (if frame.isFinal then (r.chans ch).senders - 1 else (r.chans ch).senders) := by
  unfold Inner.pushFrame
  rw [hopen, validate_eq hentry hlive hstale hsender]
  simp only [Inner.sendFrame, Inner.setChan_chans, Function.update_self, Channel.trySend,
    Channel.cloneSender_closed, hreceiving, Bool.false_eq_true, if_false,
    Channel.cloneSender_buffer, Channel.cloneSender_capacity, hroom, dite_true]
  refine ⟨_, rfl, ?_⟩
  cases hfinal : frame.isFinal with
  | false =>
      exact {
        requests := by simp
        chan := by simp [Inner.dropSender, hreceiving]
        chans := fun k hk => by simp [Inner.dropSender, hk]
        kept := by simp }
  | true =>
      simp only [if_true, Inner.complete, Inner.setChan_requests, Inner.setEntry_requests,
        Function.update_self, Entry.recordFrame_sender, hsender]
      exact {
        requests := by simp
        chan := by simp [Inner.dropSender, hreceiving]
        chans := fun k hk => by simp [Inner.dropSender, hk]
        kept := by simp }

end Push

/-- The two compare a frame with the same last index. -/
theorem staleAgainst_toDict {e : Entry} {p : PythonEntry} (index : Nat)
    (h : p.lastFrameIndex = e.lastFrameIndex.map Int.ofNat) :
    p.staleAgainst index = (e.staleAgainst index).map Int.ofNat := by
  unfold PythonEntry.staleAgainst Entry.staleAgainst
  rw [h]
  cases e.lastFrameIndex with
  | none => rfl
  | some last => by_cases hle : index ≤ last <;> simp [hle]

/-- What a push leaves is confined to its request. -/
theorem Wrote.confined {s : RustServer} {t : PythonRouter} {r' : Inner} {e' : Entry} {ch : ChanId} {id : RequestId}
    {buffer : List Frame} {senders : Nat} {stalled : Bool} {t' : PythonRouter}
    (h : Wrote s.inner r' id ch e' buffer senders)
    (hdepth : t'.queueDepth = t.queueDepth) (hshut : t'.shuttingDown = t.shuttingDown)
    (hentries : ∀ k, k ≠ id → t'.requests k = t.requests k) :
    Confined id ch s
      { s with inner := r', stalled := Function.update s.stalled id stalled } t t' where
  depth := ⟨h.kept.2.1, hdepth⟩
  shut := ⟨h.kept.2.2, hshut⟩
  next := h.kept.1
  chans := h.chans
  requests := fun k hk => by simp [h.requests, hk]
  streams := fun _ _ => rfl
  stalled := fun k hk => by simp [hk]
  entries := hentries

theorem RustServer.step_pushFrame (s : RustServer) {dict : FrameDict} {frame : Frame}
    (hframe : dict.toFrame? = some frame) :
    s.step (.pushFrame dict) = some ([.returned (succeeded (s.inner.pushFrame frame).1)],
      { s with
        inner := (s.inner.pushFrame frame).2
        stalled := Function.update s.stalled frame.requestId
          (s.stalled frame.requestId || isBackpressure (s.inner.pushFrame frame).1) }) := by
  simp only [RustServer.step, hframe]

/-- A frame that neither router takes. -/
theorem Mirrors.pushFrame_refused (h : Mirrors own s t) {dict : FrameDict} {frame : Frame}
    (hframe : dict.toFrame? = some frame) (err : RouterError) (err' : PythonRouterError)
    (hother : isBackpressure (Except.error err : Except RouterError Unit) = false)
    (hrefused : s.inner.pushFrame frame = (.error err, s.inner))
    (hrefused' : t.pushFrame dict = (.error err', t)) : Answers s t (.pushFrame dict) := by
  refine ⟨[.returned false], s, t, ?_, ?_, own, h⟩
  · rw [s.step_pushFrame hframe, hrefused]
    simp [hother, succeeded]
  · simp [PythonRouter.serverStep, hrefused', succeeded]

section PushLive

variable {frame : Frame} {e : Entry} {p : PythonEntry}

/-- A frame for a full queue: the Rust router has recorded its index, the other has not. -/
theorem Mirrors.pushFrame_full (h : Mirrors own s t)
    (hframe : frame.toDict.toFrame? = some frame)
    (hrust : s.inner.requests frame.requestId = some e)
    (hpython : t.requests frame.requestId = some p)
    (hlive : Live (own frame.requestId) (s.inner.chans (own frame.requestId))
      (s.streams frame.requestId) (s.stalled frame.requestId) e p)
    (hstale : e.staleAgainst frame.frameIndex = none)
    (hindex : p.staleAgainst frame.frameIndex = none) (hfull : p.queue.Full) :
    Answers s t (.pushFrame frame.toDict) := by
  have hterminal := hlive.isTerminal
  have hfull' : (s.inner.chans (own frame.requestId)).capacity ≤
      (s.inner.chans (own frame.requestId)).buffer.length := by
    rw [hlive.carries.capacity, ← hlive.carries.length_items]
    exact hfull
  obtain ⟨r', hpush, hwrote⟩ := Router.pushFrame_full h.ensureOpen hrust hterminal hstale
    hlive.sender hlive.carries.receiving hfull'
  refine ⟨[.returned false], { s with
      inner := r', stalled := Function.update s.stalled frame.requestId true }, t,
    ?_, ?_, own, h.touch _ (by simp [hrust]) (hwrote.confined rfl rfl fun _ _ => rfl) ?_⟩
  · rw [s.step_pushFrame hframe, hpush]
    simp [isBackpressure, succeeded]
  · simp [PythonRouter.serverStep, PythonRouter.pushFrame, Frame.toDict, hpython, hlive.state,
      hterminal, hindex, hfull, succeeded]
  · -- a queue of a positive depth is full only after a frame
    have hstreaming : e.state = .streaming := by
      rcases hlive.phase with hstreaming | ⟨-, hempty⟩
      · exact hstreaming
      · have hpositive := p.queue.positive
        rw [hempty, List.length_nil, hlive.carries.capacity] at hfull'
        omega
    obtain ⟨hbuffer, hsenders, hclosed, hcapacity⟩ := hwrote.chan
    simp only [hwrote.requests, Function.update_self, hpython]
    exact .live {
      state := by simp [hlive.state, hstreaming, Entry.firstFrame]
      phase := Or.inl (by simp [hstreaming, Entry.firstFrame])
      sender := hlive.sender
      senders := hsenders.trans hlive.senders
      running := hlive.running
      carries := ⟨hclosed.trans hlive.carries.receiving,
        hcapacity.trans hlive.carries.capacity, by rw [hbuffer, hlive.carries.items]⟩
      handed := hlive.handed.congr rfl rfl
      index := by simp }

/-- What both keep of a request after a frame has been queued. -/
theorem Live.pushed {stream : Option ChanId} {stalled : Bool} {ch : ChanId} {r r' : Inner}
    (hlive : Live ch (r.chans ch) stream stalled e p) {id : RequestId}
    (hterminal : e.state.isTerminal = false) (hfull : ¬ p.queue.Full)
    (hwrote : Wrote r r' id ch
      (if frame.isFinal then (e.recordFrame frame.frameIndex hterminal).completed
        else e.recordFrame frame.frameIndex hterminal) ((r.chans ch).buffer ++ [frame])
      (if frame.isFinal then (r.chans ch).senders - 1 else (r.chans ch).senders)) :
    Alike ch (r'.chans ch) stream false
      (some (if frame.isFinal then (e.recordFrame frame.frameIndex hterminal).completed
        else e.recordFrame frame.frameIndex hterminal)) (some (p.push frame.toDict hfull)) := by
  obtain ⟨hbuffer, hsenders, hclosed, hcapacity⟩ := hwrote.chan
  have hcarries : Carries (r'.chans ch) (p.push frame.toDict hfull).queue [] := by
    refine ⟨hclosed.trans hlive.carries.receiving, hcapacity.trans hlive.carries.capacity, ?_⟩
    rw [PythonEntry.push_queue, AsyncQueue.put_items, hlive.carries.items, hbuffer]
    simp
  have hfinal' : frame.toDict.isFinal = frame.isFinal := rfl
  cases hfinal : frame.isFinal with
  | false =>
      rw [hfinal] at hsenders hfinal'
      have hstreaming : Entry.firstFrame e.state = .streaming := by
        rcases hlive.phase with hstate | ⟨hstate, -⟩ <;> simp [hstate, Entry.firstFrame]
      exact .live {
        state := by simp [hfinal', hstreaming]
        phase := Or.inl (by simp [hstreaming])
        sender := hlive.sender
        senders := hsenders.trans hlive.senders
        running := by simp [hlive.running, hfinal']
        carries := hcarries
        handed := hlive.handed.congr rfl rfl
        index := fun _ => rfl }
  | true =>
      rw [hfinal] at hsenders hfinal'
      exact .finished {
        state := by simp [hfinal']
        terminal := rfl
        senders := by simp [hsenders, hlive.senders]
        closed := by simp [hfinal']
        carries := Or.inl hcarries
        handed := hlive.handed.congr rfl rfl }

/-- A frame for a queue with room. -/
theorem Mirrors.pushFrame_sent (h : Mirrors own s t)
    (hframe : frame.toDict.toFrame? = some frame)
    (hrust : s.inner.requests frame.requestId = some e)
    (hpython : t.requests frame.requestId = some p)
    (hlive : Live (own frame.requestId) (s.inner.chans (own frame.requestId))
      (s.streams frame.requestId) (s.stalled frame.requestId) e p)
    (hstalled : s.stalled frame.requestId = false)
    (hstale : e.staleAgainst frame.frameIndex = none)
    (hindex : p.staleAgainst frame.frameIndex = none) (hfull : ¬ p.queue.Full) :
    Answers s t (.pushFrame frame.toDict) := by
  have hterminal := hlive.isTerminal
  have hroom : (s.inner.chans (own frame.requestId)).buffer.length <
      (s.inner.chans (own frame.requestId)).capacity := by
    rw [hlive.carries.capacity, ← hlive.carries.length_items]
    exact Nat.lt_of_not_le hfull
  obtain ⟨r', hpush, hwrote⟩ := Router.pushFrame_sent h.ensureOpen hrust hterminal hstale
    hlive.sender hlive.carries.receiving hroom
  refine ⟨[.returned true], { s with
      inner := r', stalled := Function.update s.stalled frame.requestId false },
    t.setEntry frame.requestId (p.push frame.toDict hfull), ?_, ?_, own,
    h.touch _ (by simp [hrust]) (hwrote.confined rfl rfl fun k hk => by simp [hk]) ?_⟩
  · rw [s.step_pushFrame hframe, hpush]
    simp [hstalled, isBackpressure, succeeded]
  · simp [PythonRouter.serverStep, PythonRouter.pushFrame, Frame.toDict, hpython, hlive.state,
      hterminal, hindex, hfull, succeeded]
  · simp only [hwrote.requests, Function.update_self, PythonRouter.setEntry_requests]
    exact hlive.pushed hterminal hfull hwrote

/-- A frame for a live request. -/
theorem Mirrors.pushFrame_live (h : Mirrors own s t)
    (hframe : frame.toDict.toFrame? = some frame)
    (hcustomary : Customary s (.pushFrame frame.toDict))
    (hrust : s.inner.requests frame.requestId = some e)
    (hpython : t.requests frame.requestId = some p)
    (hlive : Live (own frame.requestId) (s.inner.chans (own frame.requestId))
      (s.streams frame.requestId) (s.stalled frame.requestId) e p) :
    Answers s t (.pushFrame frame.toDict) := by
  have hterminal := hlive.isTerminal
  have hstalled : s.stalled frame.requestId = false := by
    cases hstalled : s.stalled frame.requestId with
    | false => rfl
    | true =>
        have hstate : s.inner.state frame.requestId = some .cancelled := hcustomary.2 hstalled
        simp only [Inner.state, hrust, Option.map_some, Option.some.injEq] at hstate
        rw [hstate] at hterminal
        cases hterminal
  have hindex := staleAgainst_toDict frame.frameIndex (hlive.index hstalled)
  cases hstale : e.staleAgainst frame.frameIndex with
  | some last =>
      rw [hstale, Option.map_some] at hindex
      refine h.pushFrame_refused hframe (.outOfOrderFrame frame.requestId frame.frameIndex last)
        (.outOfOrderFrame frame.requestId frame.frameIndex last) rfl ?_ ?_
      · simp [Inner.pushFrame, h.ensureOpen, Inner.validate, hrust, hterminal, hstale]
      · simp [PythonRouter.pushFrame, Frame.toDict, hpython, hlive.state, hterminal, hindex]
  | none =>
      rw [hstale, Option.map_none] at hindex
      by_cases hfull : p.queue.Full
      · exact h.pushFrame_full hframe hrust hpython hlive hstale hindex hfull
      · exact h.pushFrame_sent hframe hrust hpython hlive hstalled hstale hindex hfull

end PushLive

/-- `push_frame`. -/
theorem Mirrors.pushFrame (h : Mirrors own s t) {dict : FrameDict}
    (hcustomary : CustomaryU64 s (.pushFrame dict)) : Answers s t (.pushFrame dict) := by
  obtain ⟨hcustomary, hu64⟩ := hcustomary
  obtain ⟨frame, hframe⟩ : ∃ frame, dict.toFrame? = some frame := by
    rw [FrameDict.toFrame?, frameIndex?, if_pos ⟨hcustomary.1, hu64⟩]
    exact ⟨_, rfl⟩
  obtain rfl := toFrame?_eq_some hframe
  have halike := h.alike frame.requestId
  have hopen := h.ensureOpen
  generalize hrust : s.inner.requests frame.requestId = entry at halike
  generalize hpython : t.requests frame.requestId = entry' at halike
  cases halike with
  | unknown hstream =>
      refine h.pushFrame_refused hframe (.unknownRequest frame.requestId)
        (.unknownRequest frame.requestId) rfl ?_ ?_
      · simp [Inner.pushFrame, hopen, Inner.validate, hrust]
      · simp [PythonRouter.pushFrame, Frame.toDict, hpython]
  | @finished e p hfinished =>
      have hterminal := hfinished.terminal
      refine h.pushFrame_refused hframe (.invalidTransition e.state
        (if frame.isFinal then .complete else .streaming))
        (.invalidTransition e.state .streaming) rfl ?_ ?_
      · simp [Inner.pushFrame, hopen, Inner.validate, hrust, hterminal]
      · simp [PythonRouter.pushFrame, Frame.toDict, hpython, hfinished.state, hterminal]
  | @lost e p hlost =>
      refine h.pushFrame_refused hframe (.invalidTransition e.state
        (if frame.isFinal then .complete else .streaming))
        (.invalidTransition .cancelled .streaming) rfl ?_ ?_
      · simp [Inner.pushFrame, hopen, Inner.validate, hrust, hlost.cancelled,
          RequestState.isTerminal]
      · simp [PythonRouter.pushFrame, Frame.toDict, hpython, hlost.state,
          RequestState.isTerminal]
  | live hlive => exact h.pushFrame_live hframe hcustomary hrust hpython hlive

/-! ### Reading a stream -/

/-- A read whose result is known to both. -/
theorem Mirrors.polled (h : Mirrors own s t) {id : RequestId} {e : Entry} {p p' : PythonEntry}
    {c : Channel Frame} {result : Received Frame} (hrust : s.inner.requests id = some e)
    (hpython : t.requests id = some p) (hstream : s.streams id = some (own id))
    (hsubscribed : p.subscribed = true) (hidle : ¬ (p.getting = true ∧ p.queue.items = []))
    (hrecv : (s.inner.chans (own id)).recv = (result, c))
    (hnext : p.next = (readOf result, p'))
    (halike : Alike (own id) c (s.streams id) (s.stalled id) (some e) (some p')) :
    Answers s t (.read id) := by
  refine ⟨[.read id (readOf result)], { s with inner := s.inner.setChan (own id) c },
    t.setEntry id p', ?_, ?_, own, h.touch id (by simp [hrust]) ?_ ?_⟩
  · simp [RustServer.step, hstream, Inner.recv, hrecv]
  · simp [PythonRouter.serverStep, PythonRouter.poll, hpython, hsubscribed, hidle, hnext]
  · exact {
      depth := ⟨rfl, rfl⟩
      shut := ⟨rfl, rfl⟩
      next := rfl
      chans := fun k hk => by simp [hk]
      requests := fun _ _ => rfl
      streams := fun _ _ => rfl
      stalled := fun _ _ => rfl
      entries := fun k hk => by simp [hk] }
  · simpa [hrust] using halike

theorem Handed.stream {ch k : ChanId} {stream : Option ChanId} {e : Entry} {p : PythonEntry}
    (h : Handed ch stream e p) (hstream : stream = some k) : k = ch ∧ p.subscribed = true := by
  cases h with
  | parked _ hnone _ =>
      rw [hstream] at hnone
      cases hnone
  | taken _ hsome hsubscribed =>
      rw [hstream] at hsome
      exact ⟨Option.some.inj hsome, hsubscribed⟩

/-- What both queues hold after the oldest frame is taken. -/
theorem Carries.drop {c d : Channel Frame} {p : PythonEntry} {frame : Frame}
    {sentinel : List (Option FrameDict)} (h : Carries c p.queue sentinel)
    (htakes : c.Takes frame d) :
    p.next = (readOf (.item frame), p.drop) ∧ p.queue.items ≠ [] ∧
      Carries d p.drop.queue sentinel := by
  have hitems : p.queue.items =
      some frame.toDict :: (d.buffer.map (fun frame => some frame.toDict) ++ sentinel) := by
    rw [h.items, htakes.buffer]
    rfl
  refine ⟨PythonEntry.next_frame hitems, by simp [hitems], ?_⟩
  exact ⟨htakes.closed.trans h.receiving, htakes.capacity.trans h.capacity, by simp [hitems]⟩

/-- A read of a live stream. -/
theorem Mirrors.read_live (h : Mirrors own s t) {id : RequestId} {e : Entry} {p : PythonEntry}
    (hrust : s.inner.requests id = some e) (hpython : t.requests id = some p)
    (hstream : s.streams id = some (own id))
    (hlive : Live (own id) (s.inner.chans (own id)) (s.streams id) (s.stalled id) e p) :
    Answers s t (.read id) := by
  have hsubscribed := (hlive.handed.stream hstream).2
  cases hbuffer : (s.inner.chans (own id)).buffer with
  | cons frame rest =>
      obtain ⟨d, hrecv, htakes⟩ := Channel.recv_cons hbuffer
      obtain ⟨hnext, hnonempty, hcarries⟩ := hlive.carries.drop htakes
      have hstreaming : e.state = .streaming := by
        rcases hlive.phase with hstreaming | ⟨-, hempty⟩
        · exact hstreaming
        · rw [hbuffer] at hempty
          cases hempty
      refine h.polled hrust hpython hstream hsubscribed (fun hwaits => hnonempty hwaits.2) hrecv
        hnext (.live { hlive with
          phase := Or.inl hstreaming
          senders := htakes.senders.trans hlive.senders
          carries := hcarries
          handed := hlive.handed.congr rfl rfl })
  | nil =>
      have hitems : p.queue.items = [] := by simp [hlive.carries.items, hbuffer]
      have hrecv : (s.inner.chans (own id)).recv = (.pending, s.inner.chans (own id)) := by
        rw [Channel.recv_nil hbuffer, hlive.senders]
        rfl
      by_cases hgetting : p.getting = true
      · refine ⟨[.read id .waiting], s, t, ?_, ?_, own, h⟩
        · simp [RustServer.step, hstream, Inner.recv, hrecv, readOf, Inner.setChan]
        · simp [PythonRouter.serverStep, PythonRouter.poll, hpython, hsubscribed, hgetting,
            hitems]
      · exact h.polled hrust hpython hstream hsubscribed (fun hwaits => hgetting hwaits.1) hrecv
          (PythonEntry.next_open hitems hlive.running) (.live { hlive with
            carries := ⟨hlive.carries.receiving, hlive.carries.capacity, hlive.carries.items⟩
            handed := hlive.handed.congr rfl rfl })

/-- A read of the stream of a request that has ended. -/
theorem Mirrors.read_finished (h : Mirrors own s t) {id : RequestId} {e : Entry}
    {p : PythonEntry} (hrust : s.inner.requests id = some e) (hpython : t.requests id = some p)
    (hstream : s.streams id = some (own id))
    (hfinished : Finished (own id) (s.inner.chans (own id)) (s.streams id) e p) :
    Answers s t (.read id) := by
  have hsubscribed := (hfinished.handed.stream hstream).2
  cases hbuffer : (s.inner.chans (own id)).buffer with
  | cons frame rest =>
      obtain ⟨d, hrecv, htakes⟩ := Channel.recv_cons hbuffer
      have hsenders := htakes.senders.trans hfinished.senders
      rcases hfinished.carries with hplain | hmarked
      · obtain ⟨hnext, hnonempty, hcarries⟩ := hplain.drop htakes
        exact h.polled hrust hpython hstream hsubscribed (fun hwaits => hnonempty hwaits.2) hrecv
          hnext (.finished { hfinished with
            senders := hsenders, carries := Or.inl hcarries
            handed := hfinished.handed.congr rfl rfl })
      · obtain ⟨hnext, hnonempty, hcarries⟩ := hmarked.drop htakes
        exact h.polled hrust hpython hstream hsubscribed (fun hwaits => hnonempty hwaits.2) hrecv
          hnext (.finished { hfinished with
            senders := hsenders, carries := Or.inr hcarries
            handed := hfinished.handed.congr rfl rfl })
  | nil =>
      have hrecv : (s.inner.chans (own id)).recv = (.ended, s.inner.chans (own id)) := by
        rw [Channel.recv_nil hbuffer, hfinished.senders]
        rfl
      rcases hfinished.carries with hplain | hmarked
      · have hitems : p.queue.items = [] := by simp [hplain.items, hbuffer]
        exact h.polled hrust hpython hstream hsubscribed
          (fun hwaits => p.woken hfinished.closed hwaits.1 hwaits.2) hrecv
          (PythonEntry.next_closed hitems hfinished.closed) (.finished hfinished)
      · have hitems : p.queue.items = [none] := by simp [hmarked.items, hbuffer]
        exact h.polled hrust hpython hstream hsubscribed (by simp [hitems]) hrecv
          (PythonEntry.next_sentinel hitems) (.finished { hfinished with
            carries := Or.inl ⟨hmarked.receiving, hmarked.capacity, by simp [hitems, hbuffer]⟩
            handed := hfinished.handed.congr rfl rfl })

/-- A stream that has been handed out is read by both. -/
theorem Mirrors.read (h : Mirrors own s t) {id : RequestId} {ch : ChanId}
    (hstream : s.streams id = some ch) : Answers s t (.read id) := by
  have halike := h.alike id
  generalize hrust : s.inner.requests id = entry at halike
  generalize hpython : t.requests id = entry' at halike
  cases halike with
  | unknown hnone =>
      rw [hstream] at hnone
      cases hnone
  | live hlive =>
      have hch := (hlive.handed.stream hstream).1
      exact h.read_live hrust hpython (hch ▸ hstream) hlive
  | finished hfinished =>
      have hch := (hfinished.handed.stream hstream).1
      exact h.read_finished hrust hpython (hch ▸ hstream) hfinished
  | lost hlost =>
      have hnone := hlost.stream
      rw [hstream] at hnone
      cases hnone

/-- A stream that has not been handed out is read by neither. -/
theorem Mirrors.no_stream (h : Mirrors own s t) {id : RequestId}
    (hstream : s.streams id = none) : t.poll id = none := by
  have halike := h.alike id
  rw [hstream] at halike
  have hunsubscribed : ∀ {e : Entry} {p : PythonEntry}, Handed (own id) none e p →
      p.subscribed = false := by
    intro e p hhanded
    cases hhanded with
    | parked _ _ hsubscribed => exact hsubscribed
    | taken _ hsome _ => cases hsome
  unfold PythonRouter.poll
  generalize s.inner.requests id = entry at halike
  generalize t.requests id = entry' at halike ⊢
  cases halike with
  | unknown hnone => rfl
  | live hlive => simp [hunsubscribed hlive.handed]
  | finished hfinished => simp [hunsubscribed hfinished.handed]
  | lost hlost => simp [hlost.subscribed]

/-! ## All calls -/

theorem Mirrors.init (depth : Nat) (h : 0 < depth) :
    Mirrors (fun _ => 0) (rustServer depth).init (pythonServer depth h).init where
  depth := (Nat.max_eq_left h).symm
  running := ⟨rfl, rfl⟩
  below := fun _ hknown => absurd rfl hknown
  apart := fun _ _ hknown => absurd rfl hknown
  alike := fun _ => .unknown rfl

/-- The two servers move in lock step as long as the calls are customary. -/
theorem servers_lockStep (depth : Nat) (h : 0 < depth) :
    (rustServer depth).LockStep (pythonServer depth h) CustomaryU64
      fun s t => ∃ own, Mirrors own s t := by
  rintro s t a ⟨own, hmirrors⟩
  refine ⟨?_, ?_⟩
  · intro hnone
    cases a with
    | read id =>
        have hstream : s.streams id = none := by
          cases hstream : s.streams id with
          | none => rfl
          | some ch => simp [rustServer, RustServer.step, hstream] at hnone
        simp [pythonServer, PythonRouter.serverStep, hmirrors.no_stream hstream]
    | subscribe id =>
        simp only [rustServer, RustServer.step] at hnone
        split at hnone <;> cases hnone
    | accept id priority answer => cases hnone
    | pushFrame dict =>
        simp only [rustServer, RustServer.step] at hnone
        split at hnone <;> cases hnone
    | cancel id => cases hnone
    | state id => cases hnone
  · intro es s' hcustomary hstep
    have hanswers : Answers s t a := by
      cases a with
      | accept id priority answer => exact hmirrors.accept hcustomary
      | subscribe id => exact hmirrors.subscribe hcustomary
      | pushFrame frame => exact hmirrors.pushFrame hcustomary
      | cancel id => exact hmirrors.cancel id
      | state id => exact hmirrors.state id
      | read id =>
          cases hstream : s.streams id with
          | none => simp [rustServer, RustServer.step, hstream] at hstep
          | some ch => exact hmirrors.read hstream
    obtain ⟨es', s'', t', hrust, hpython, hmirrors'⟩ := hanswers
    cases hstep.symm.trans hrust
    exact ⟨t', hpython, hmirrors'⟩

/-- A push into a full queue, the cancel the driver answers it with, and the reads that
follow. -/
def fullQueueCalls : List ServerCall :=
  [.accept ⟨"r"⟩ "normal" (.ok ()), .subscribe ⟨"r"⟩, .read ⟨"r"⟩,
    .pushFrame ⟨⟨"r"⟩, 0, [], false⟩, .pushFrame ⟨⟨"r"⟩, 1, [], true⟩, .cancel ⟨"r"⟩,
    .state ⟨"r"⟩, .pushFrame ⟨⟨"r"⟩, 1, [], true⟩, .read ⟨"r"⟩, .read ⟨"r"⟩, .read ⟨"r"⟩]

example : ((rustServer 1).run (rustServer 1).init fullQueueCalls).map Prod.fst =
    some [.returned true, .returned true, .read ⟨"r"⟩ .waiting, .returned true,
      .returned false, .returned true, .told (some .cancelled), .returned false,
      .read ⟨"r"⟩ (.frame ⟨⟨"r"⟩, 0, [], false⟩), .read ⟨"r"⟩ .stopped,
      .read ⟨"r"⟩ .stopped] := by
  decide

/-- A frame whose index is one more than the largest `u64`. -/
def overflowCalls : List ServerCall :=
  [.accept ⟨"r"⟩ "normal" (.ok ()), .subscribe ⟨"r"⟩,
    .pushFrame ⟨⟨"r"⟩, UInt64.size, [], true⟩, .read ⟨"r"⟩]

end Repercep.Router
