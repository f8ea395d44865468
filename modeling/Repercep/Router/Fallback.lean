import Repercep.Foundation.AsyncQueue
import Repercep.Foundation.Machine
import Repercep.Router.State
set_option autoImplicit false

/-!
# Router: the pure-Python fallback

`_PythonRouter` and `_PythonFrameStream` of `runtime/router.py`, used when the native
extension is not built.  A request has one bounded queue of frames.  Its end is marked
twice, by the `closed` flag and by a sentinel behind the queued frames, and the sentinel
is left out when the queue is full.  No method awaits anything, so every call is one
step, a cancel from the driver thread too; a reader whose queue is empty waits in
`queue.get`.
-/

namespace Repercep.Router

open Repercep.Foundation

/-- The dict `push_frame` queues. -/
structure FrameDict where
  requestId : RequestId
  frameIndex : Int
  payload : List UInt8
  isFinal : Bool
  deriving DecidableEq, Repr

/-- `_PythonRouterError`, one constructor for each message. -/
inductive PythonRouterError where
  /-- `unknown request: {id!r}` -/
  | unknownRequest (id : RequestId)
  /-- `router is shutting down` -/
  | shuttingDown
  /-- `duplicate request id: {id!r}` -/
  | duplicateRequest (id : RequestId)
  /-- `invalid priority: {name}` -/
  | invalidPriority (name : String)
  /-- `scheduler error: {message}` -/
  | scheduler (message : String)
  /-- `stream already subscribed: {id!r}` -/
  | alreadySubscribed (id : RequestId)
  /-- `invalid state transition: {src} -> {dst}` -/
  | invalidTransition (src dst : RequestState)
  /-- `out-of-order frame for {id!r}: got index {got}, expected > {last}` -/
  | outOfOrderFrame (id : RequestId) (got last : Int)
  /-- `backpressure: queue depth {depth} for request {id!r}` -/
  | backpressure (id : RequestId) (depth : Nat)
  deriving DecidableEq, Repr

/-- `_Entry`.  An item is a frame or, as `none`, the sentinel; `getting` tells whether the
reader waits in `queue.get`.  A reader of a closed entry never waits on an empty queue. -/
structure PythonEntry where
  state : RequestState
  queue : AsyncQueue (Option FrameDict)
  subscribed : Bool
  lastFrameIndex : Option Int
  closed : Bool
  getting : Bool
  woken : closed = true → getting = true → queue.items ≠ []

/-- What one step of a reader gives. -/
inductive PythonRead where
  | frame (frame : FrameDict)
  /-- `StopAsyncIteration` -/
  | stopped
  /-- it waits -/
  | waiting
  deriving DecidableEq, Repr

namespace PythonEntry

/-- The entry `accept` makes. -/
@[simps] def accepted (depth : Nat) (hdepth : 0 < depth) : PythonEntry where
  state := .scheduled
  queue := .new (Option FrameDict) depth hdepth
  subscribed := false
  lastFrameIndex := none
  closed := false
  getting := false
  woken := by simp

/-- The entry with its one subscriber. -/
@[simps] def subscribe (e : PythonEntry) : PythonEntry :=
  { e with subscribed := true }

/-- The last index `frame` does not come after, if there is one. -/
def staleAgainst (e : PythonEntry) (index : Int) : Option Int :=
  match e.lastFrameIndex with
  | some last => if index ≤ last then some last else none
  | none => none

/-- The entry after a frame has been queued. -/
@[simps] def push (e : PythonEntry) (frame : FrameDict) (hroom : ¬ e.queue.Full) : PythonEntry :=
  { e with
    lastFrameIndex := some frame.frameIndex
    state := if frame.isFinal then .complete else .streaming
    closed := e.closed || frame.isFinal
    queue := e.queue.put (some frame) hroom
    woken := fun _ _ => e.queue.put_ne_nil _ hroom }

/-- Close the entry in a state, with a sentinel if there is room. -/
@[simps] def close (e : PythonEntry) (state : RequestState) : PythonEntry :=
  { e with
    state := state
    closed := true
    queue := e.queue.offer none
    woken := fun _ _ => e.queue.offer_ne_nil none }

/-- The oldest item is taken. -/
@[simps] def drop (e : PythonEntry) : PythonEntry :=
  { e with
    queue := e.queue.drop
    getting := false
    woken := by simp }

/-- The reader waits for an item. -/
@[simps] def await (e : PythonEntry) (hopen : e.closed = false) : PythonEntry :=
  { e with
    getting := true
    woken := by simp [hopen] }

/-- `__anext__`, from its start or from where `queue.get` goes on. -/
def next (e : PythonEntry) : PythonRead × PythonEntry :=
  match e.queue.items with
  | some frame :: _ => (.frame frame, e.drop)
  | none :: _ => (.stopped, e.drop)
  | [] =>
      match hclosed : e.closed with
      | true => (.stopped, e)
      | false => (.waiting, e.await hclosed)

theorem next_frame {e : PythonEntry} {frame : FrameDict} {rest : List (Option FrameDict)}
    (h : e.queue.items = some frame :: rest) : e.next = (.frame frame, e.drop) := by
  unfold next
  rw [h]

theorem next_sentinel {e : PythonEntry} {rest : List (Option FrameDict)}
    (h : e.queue.items = none :: rest) : e.next = (.stopped, e.drop) := by
  unfold next
  rw [h]

theorem next_closed {e : PythonEntry} (h : e.queue.items = []) (hclosed : e.closed = true) :
    e.next = (.stopped, e) := by
  unfold next
  rw [h]
  dsimp only
  split
  · rfl
  · rename_i hopen
    rw [hclosed] at hopen
    cases hopen

theorem next_open {e : PythonEntry} (h : e.queue.items = []) (hopen : e.closed = false) :
    e.next = (.waiting, e.await hopen) := by
  unfold next
  rw [h]
  dsimp only
  split
  · rename_i hclosed
    rw [hopen] at hclosed
    cases hclosed
  · rfl

end PythonEntry

/-- `_PythonRouter`.  Its constructor refuses a depth below one. -/
structure PythonRouter where
  queueDepth : Nat
  depth_pos : 0 < queueDepth
  requests : RequestId → Option PythonEntry
  shuttingDown : Bool

namespace PythonRouter

/-- `_PythonRouter.__init__`. -/
def new (depth : Nat) (h : 0 < depth) : PythonRouter where
  queueDepth := depth
  depth_pos := h
  requests := fun _ => none
  shuttingDown := false

/-- `self._requests[id] = entry`. -/
@[simps] def setEntry (r : PythonRouter) (id : RequestId) (e : PythonEntry) : PythonRouter :=
  { r with requests := Function.update r.requests id (some e) }

/-- `_parse_priority`.  No character outside ASCII has a lowercase form made of letters of
these names. -/
def parsePriority (name : String) : Except PythonRouterError Priority :=
  let lower := name.toList.map Char.toLower
  if lower = "low".toList then .ok .low
  else if lower = "normal".toList then .ok .normal
  else if lower = "high".toList then .ok .high
  else .error (.invalidPriority name)

/-- `accept`; `submit` is what the scheduler answers, the text of its exception if it
raises one. -/
def accept (r : PythonRouter) (submit : RequestId → Priority → Except String Unit)
    (id : RequestId) (priority : String) : Except PythonRouterError Unit × PythonRouter :=
  if r.shuttingDown then (.error .shuttingDown, r)
  else
    match parsePriority priority with
    | .error e => (.error e, r)
    | .ok canonical =>
        match r.requests id with
        | some _ => (.error (.duplicateRequest id), r)
        | none =>
            match submit id canonical with
            -- the entry has been stored by then, and is popped
            | .error message => (.error (.scheduler message), r)
            | .ok _ => (.ok (), r.setEntry id (.accepted r.queueDepth r.depth_pos))

/-- `subscribe`. -/
def subscribe (r : PythonRouter) (id : RequestId) : Except PythonRouterError Unit × PythonRouter :=
  match r.requests id with
  | none => (.error (.unknownRequest id), r)
  | some e =>
      if e.subscribed then (.error (.alreadySubscribed id), r)
      else (.ok (), r.setEntry id e.subscribe)

/-- `push_frame`. -/
def pushFrame (r : PythonRouter) (frame : FrameDict) :
    Except PythonRouterError Unit × PythonRouter :=
  match r.requests frame.requestId with
  | none => (.error (.unknownRequest frame.requestId), r)
  | some e =>
      if e.state.isTerminal then (.error (.invalidTransition e.state .streaming), r)
      else
        match e.staleAgainst frame.frameIndex with
        | some last => (.error (.outOfOrderFrame frame.requestId frame.frameIndex last), r)
        | none =>
            if hfull : e.queue.Full then
              (.error (.backpressure frame.requestId r.queueDepth), r)
            else (.ok (), r.setEntry frame.requestId (e.push frame hfull))

/-- `cancel`.  What the scheduler then answers is not looked at. -/
def cancel (r : PythonRouter) (id : RequestId) : Except PythonRouterError Unit × PythonRouter :=
  match r.requests id with
  | none => (.error (.unknownRequest id), r)
  | some e =>
      if e.state.isTerminal then (.error (.invalidTransition e.state .cancelled), r)
      else (.ok (), r.setEntry id (e.close .cancelled))

/-- `state`. -/
def state (r : PythonRouter) (id : RequestId) : Option RequestState :=
  (r.requests id).map PythonEntry.state

/-- `shutdown`: every entry is closed, in the state it is in. -/
def shutdown (r : PythonRouter) : PythonRouter :=
  { r with
    shuttingDown := true
    requests := fun id => (r.requests id).map fun e => e.close e.state }

/-- A step of the reader of a request; not enabled while it would go on waiting. -/
def read (r : PythonRouter) (id : RequestId) : Option (PythonRead × PythonRouter) :=
  match r.requests id with
  | some e =>
      if e.subscribed = true ∧ ¬ (e.getting = true ∧ e.queue.items = []) then
        some (e.next.1, r.setEntry id e.next.2)
      else none
  | none => none

end PythonRouter

/-- A call of the router, or a step of a reader. -/
inductive PythonCall where
  | accept (id : RequestId) (priority : String)
      (submit : RequestId → Priority → Except String Unit)
  | subscribe (id : RequestId)
  | pushFrame (frame : FrameDict)
  | cancel (id : RequestId)
  | state (id : RequestId)
  | read (id : RequestId)
  | shutdown

/-- What the callers see. -/
inductive PythonEvent where
  | accepted (id : RequestId) (result : Except PythonRouterError Unit)
  | returned (result : Except PythonRouterError Unit)
  | told (state : Option RequestState)
  | delivered (id : RequestId) (frame : FrameDict)
  | ended (id : RequestId)

namespace PythonRouter

/-- What a reader sees of a step. -/
def readEvents (id : RequestId) : PythonRead → List PythonEvent
  | .frame frame => [.delivered id frame]
  | .stopped => [.ended id]
  | .waiting => []

/-- The step a call stands for. -/
def step (r : PythonRouter) : PythonCall → Option (List PythonEvent × PythonRouter)
  | .accept id priority submit =>
      some ([.accepted id (r.accept submit id priority).1], (r.accept submit id priority).2)
  | .subscribe id => some ([.returned (r.subscribe id).1], (r.subscribe id).2)
  | .pushFrame frame => some ([.returned (r.pushFrame frame).1], (r.pushFrame frame).2)
  | .cancel id => some ([.returned (r.cancel id).1], (r.cancel id).2)
  | .state id => some ([.told (r.state id)], r)
  | .read id =>
      match r.read id with
      | none => none
      | some (result, r') => some (readEvents id result, r')
  | .shutdown => some ([], r.shutdown)

end PythonRouter

/-- The Python router of the given depth under every sequence of calls. -/
def python (depth : Nat) (h : 0 < depth) : Machine PythonRouter PythonCall PythonEvent where
  init := .new depth h
  step := PythonRouter.step

/-- The frames a reader still gets: those in front of the sentinel. -/
def unread : List (Option FrameDict) → List FrameDict
  | some frame :: rest => frame :: unread rest
  | none :: _ => []
  | [] => []

namespace PythonRouter

/-- The stream is read without waiting: the frames in front of the sentinel, and then the
end. -/
def ReadsToEnd (r : PythonRouter) (id : RequestId) : Prop :=
  ∃ e, r.requests id = some e ∧ ∀ depth (h : 0 < depth), ∃ t,
    (python depth h).run r (List.replicate ((unread e.queue.items).length + 1) (.read id)) =
      some ((unread e.queue.items).map (.delivered id) ++ [.ended id], t)

variable {r t : PythonRouter} {a : PythonCall} {es log : List PythonEvent} {id : RequestId}

/-- Every entry of a router that has been shut down is closed. -/
def Closed (r : PythonRouter) : Prop :=
  r.shuttingDown = true → ∀ id e, r.requests id = some e → e.closed = true

/-! ## What a call does to an entry -/

/-- A call stores at most one entry: the next one of its request, closed if it was, or a
new one. -/
theorem step_entries (h : r.step a = some (es, t)) (hshut : a ≠ .shutdown) :
    t.shuttingDown = r.shuttingDown ∧ (t.requests = r.requests ∨
      ∃ id e', t.requests = Function.update r.requests id (some e') ∧
        ((∃ e, r.requests id = some e ∧ (e.closed = true → e'.closed = true)) ∨
          (r.requests id = none ∧ r.shuttingDown = false ∧ .accepted id (.ok ()) ∈ es))) := by
  cases a with
  | accept id priority submit =>
      simp only [step, Option.some.injEq, Prod.mk.injEq] at h
      obtain ⟨rfl, rfl⟩ := h
      unfold accept
      split
      · exact ⟨rfl, Or.inl rfl⟩
      · rename_i hopen
        split
        · exact ⟨rfl, Or.inl rfl⟩
        · split
          · exact ⟨rfl, Or.inl rfl⟩
          · rename_i hfree
            split
            · exact ⟨rfl, Or.inl rfl⟩
            · exact ⟨rfl, Or.inr ⟨id, _, rfl, Or.inr ⟨hfree, by simpa using hopen, by simp⟩⟩⟩
  | subscribe id =>
      simp only [step, Option.some.injEq, Prod.mk.injEq] at h
      obtain ⟨-, rfl⟩ := h
      unfold subscribe
      split
      · exact ⟨rfl, Or.inl rfl⟩
      · rename_i e hentry
        split
        · exact ⟨rfl, Or.inl rfl⟩
        · exact ⟨rfl, Or.inr ⟨id, _, rfl, Or.inl ⟨e, hentry, fun hclosed => hclosed⟩⟩⟩
  | pushFrame frame =>
      simp only [step, Option.some.injEq, Prod.mk.injEq] at h
      obtain ⟨-, rfl⟩ := h
      unfold pushFrame
      split
      · exact ⟨rfl, Or.inl rfl⟩
      · rename_i e hentry
        split
        · exact ⟨rfl, Or.inl rfl⟩
        · split
          · exact ⟨rfl, Or.inl rfl⟩
          · split
            · exact ⟨rfl, Or.inl rfl⟩
            · exact ⟨rfl, Or.inr ⟨_, _, rfl, Or.inl ⟨e, hentry,
                fun hclosed => by simp [hclosed]⟩⟩⟩
  | cancel id =>
      simp only [step, Option.some.injEq, Prod.mk.injEq] at h
      obtain ⟨-, rfl⟩ := h
      unfold cancel
      split
      · exact ⟨rfl, Or.inl rfl⟩
      · rename_i e hentry
        split
        · exact ⟨rfl, Or.inl rfl⟩
        · exact ⟨rfl, Or.inr ⟨id, _, rfl, Or.inl ⟨e, hentry, fun _ => rfl⟩⟩⟩
  | state id =>
      simp only [step, Option.some.injEq, Prod.mk.injEq] at h
      obtain ⟨-, rfl⟩ := h
      exact ⟨rfl, Or.inl rfl⟩
  | read id =>
      simp only [step, read] at h
      cases hentry : r.requests id with
      | none => simp [hentry] at h
      | some e =>
          simp only [hentry] at h
          split at h
          · cases h
          · rename_i result r' hread
            split at hread
            · cases hread
              cases h
              refine ⟨rfl, Or.inr ⟨id, _, rfl, Or.inl ⟨e, hentry, ?_⟩⟩⟩
              unfold PythonEntry.next
              split
              · exact fun hclosed => hclosed
              · exact fun hclosed => hclosed
              · split
                · exact fun hclosed => hclosed
                · exact fun hclosed => hclosed
            · cases hread
  | shutdown => exact absurd rfl hshut

/-- A router that is shut down stays so, with all its entries closed. -/
theorem Closed.step (hclosed : r.Closed) (h : r.step a = some (es, t)) : t.Closed := by
  by_cases hshut : a = .shutdown
  · subst hshut
    cases h
    intro _ id e hentry
    simp only [shutdown, Option.map_eq_some_iff] at hentry
    obtain ⟨e', -, rfl⟩ := hentry
    rfl
  · obtain ⟨hflag, hentries⟩ := step_entries h hshut
    intro hdown id e hentry
    rw [hflag] at hdown
    rcases hentries with hsame | ⟨k, e', hstored, hwhose⟩
    · rw [hsame] at hentry
      exact hclosed hdown id e hentry
    · by_cases hk : id = k
      · subst hk
        rw [hstored, Function.update_self, Option.some.injEq] at hentry
        subst hentry
        rcases hwhose with ⟨e₀, hentry₀, hlater⟩ | ⟨-, hopen, -⟩
        · exact hlater (hclosed hdown id e₀ hentry₀)
        · rw [hdown] at hopen
          cases hopen
      · rw [hstored, Function.update_of_ne hk] at hentry
        exact hclosed hdown id e hentry

/-- An entry is there for good, and a shutdown is for good. -/
theorem step_known (h : r.step a = some (es, t)) (hknown : ∃ e, r.requests id = some e) :
    ∃ e, t.requests id = some e := by
  obtain ⟨e, hentry⟩ := hknown
  by_cases hshut : a = .shutdown
  · subst hshut
    cases h
    exact ⟨e.close e.state, by simp [shutdown, hentry]⟩
  · obtain ⟨-, hsame | ⟨k, e', hstored, -⟩⟩ := step_entries h hshut
    · exact ⟨e, by rw [hsame]; exact hentry⟩
    · rw [hstored]
      by_cases hk : id = k
      · subst hk
        exact ⟨e', Function.update_self ..⟩
      · exact ⟨e, (Function.update_of_ne hk ..).trans hentry⟩

theorem step_stays_shut (h : r.step a = some (es, t)) (hdown : r.shuttingDown = true) :
    t.shuttingDown = true := by
  by_cases hshut : a = .shutdown
  · subst hshut
    cases h
    rfl
  · exact (step_entries h hshut).1.trans hdown

/-- Only an `accept` that succeeds is told so, and it leaves an entry. -/
theorem step_accepted (h : r.step a = some (es, t)) (haccepted : .accepted id (.ok ()) ∈ es) :
    ∃ e, t.requests id = some e := by
  cases a with
  | accept k priority submit =>
      simp only [step, Option.some.injEq, Prod.mk.injEq] at h
      obtain ⟨rfl, rfl⟩ := h
      unfold accept at haccepted ⊢
      split at haccepted
      · simp at haccepted
      · split at haccepted
        · simp at haccepted
        · split at haccepted
          · simp at haccepted
          · split at haccepted
            · simp at haccepted
            · simp only [List.mem_singleton, PythonEvent.accepted.injEq, and_true] at haccepted
              subst haccepted
              simp_all
  | read k =>
      simp only [step] at h
      split at h
      · cases h
      · rename_i result r' _
        cases h
        cases result <;> simp [readEvents] at haccepted
  | subscribe k | pushFrame frame | cancel k | state k | shutdown =>
      cases h
      simp at haccepted

/-- After any run: what has been accepted is known, and all is closed by a shutdown. -/
theorem known_of_run {depth : Nat} {h : 0 < depth} {cs : List PythonCall}
    (hrun : (python depth h).run (python depth h).init cs = some (log, r)) :
    r.Closed ∧ ∀ id, .accepted id (.ok ()) ∈ log → ∃ e, r.requests id = some e := by
  refine Machine.history_reachable (C := fun _ _ => True) (H := fun log r => Closed r ∧
    ∀ id, .accepted id (.ok ()) ∈ log → ∃ e, r.requests id = some e) ?_ ?_
    (Machine.meets_of_forall fun _ _ _ => trivial) hrun
  · refine ⟨?_, ?_⟩
    · intro hdown
      cases hdown
    · intro id haccepted
      cases haccepted
  · rintro log s a es t ⟨hclosed, hknown⟩ - hstep
    refine ⟨hclosed.step hstep, ?_⟩
    intro id haccepted
    rcases List.mem_append.mp haccepted with hold | hnew
    · exact step_known hstep (hknown id hold)
    · exact step_accepted hstep hnew

/-! ## Reading to the end -/

/-- The stream of a closed entry is read to its end. -/
theorem readsToEnd {e : PythonEntry} (hentry : r.requests id = some e)
    (hclosed : e.closed = true) (hsubscribed : e.subscribed = true) : r.ReadsToEnd id := by
  refine ⟨e, hentry, fun depth h => ?_⟩
  generalize hitems : e.queue.items = items
  induction items generalizing r e with
  | nil =>
      have hidle : ¬ (e.getting = true ∧ e.queue.items = []) :=
        fun hwaits => e.woken hclosed hwaits.1 hwaits.2
      have hnext := PythonEntry.next_closed hitems hclosed
      have hread : r.step (.read id) = some ([.ended id], r.setEntry id e) := by
        simp only [step, read, hentry, hsubscribed, hidle, not_false_eq_true, and_self, if_true,
          hnext, readEvents]
      exact ⟨_, Machine.run_singleton hread⟩
  | cons item rest ih =>
      have hidle : ¬ (e.getting = true ∧ e.queue.items = []) := by
        rw [hitems]
        simp
      cases item with
      | none =>
          have hnext := PythonEntry.next_sentinel hitems
          have hread : r.step (.read id) = some ([.ended id], r.setEntry id e.drop) := by
            simp only [step, read, hentry, hsubscribed, hidle, not_false_eq_true, and_self,
              if_true, hnext, readEvents]
          exact ⟨_, Machine.run_singleton hread⟩
      | some frame =>
          have hnext := PythonEntry.next_frame hitems
          have hread : r.step (.read id) =
              some ([.delivered id frame], r.setEntry id e.drop) := by
            simp only [step, read, hentry, hsubscribed, hidle, not_false_eq_true, and_self,
              if_true, hnext, readEvents]
          obtain ⟨t, hrun⟩ := ih (r := r.setEntry id e.drop) (e := e.drop) (by simp) hclosed
            hsubscribed (by simp [hitems])
          exact ⟨t, Machine.run_cons_eq_some.mpr ⟨_, _, _, hread, hrun, rfl⟩⟩

end PythonRouter

end Repercep.Router
