import Repercep.Driver.Pushes
import Repercep.Router.EndOfStream
set_option autoImplicit false

/-!
# The engine driver: what the subscriber of a request receives

For an engine that yields the announced number of frames, numbered from zero, the
frames queued on the request's channel are the first so many of the encoded
sequence: a push that is refused, or that the driver stops waiting for, is the last
one.  So what the subscriber has received is a prefix of the sequence at any time,
and all of it once the request is `Complete` and its stream is drained.
-/

namespace Repercep.Driver

open Repercep.Foundation
open Repercep.Router

/-- The engine yields as many frames as announced, numbered from zero, each with
that total. -/
structure Job.Regular (job : Job) : Prop where
  announced : job.numFrames = job.frames.length
  numbered : ∀ (j : Nat) (frame : EngineFrame), job.frames[j]? = some frame →
    frame.index = j ∧ frame.total = job.frames.length

/-- The encoded frame sequence; `none` stands where encoding raises. -/
def Job.lines (job : Job) : List (Option (List UInt8)) :=
  job.frames.map EngineFrame.line

/-- What the driver pushes for each frame, in order. -/
def Job.pushes (job : Job) (id : RequestId) : List (Option Frame) :=
  job.frames.map fun frame =>
    frame.line.map fun line => ⟨id, frame.index.toNat, line, frame.isFinal⟩

/-- The payloads the subscriber of a channel has received, in order. -/
def payloadsOn (ch : ChanId) (h : List Event) : List (List UInt8) :=
  (deliveredOn ch h).map Frame.bytes

/-- The subscriber has read its stream to the end, or everything there is to read. -/
def Drained (ch : ChanId) (h : List Event) (s : Sys) : Prop :=
  .ended ch ∈ h ∨ (s.held ch = true ∧ (s.inner.chans ch).buffer = [])

/-- The payloads of the pushes are the encoded sequence. -/
theorem map_pushes (job : Job) (id : RequestId) :
    (job.pushes id).map (Option.map Frame.bytes) = job.lines := by
  unfold Job.pushes Job.lines
  rw [List.map_map]
  refine List.map_congr_left ?_
  intro frame _
  rw [Function.comp_apply]
  cases frame.line with
  | none => rfl
  | some line => rfl

/-- What is pushed for frame number `j`. -/
theorem pushes_getElem? {job : Job} {id : RequestId} {j : Nat} {frame : Frame}
    (h : (job.pushes id)[j]? = some (some frame)) :
    frame.requestId = id ∧ j < job.frames.length ∧
      (job.Regular → frame.isFinal = true → job.frames.length ≤ j + 1) := by
  unfold Job.pushes at h
  rw [List.getElem?_map, Option.map_eq_some_iff] at h
  obtain ⟨engineFrame, hget, hmap⟩ := h
  obtain ⟨line, -, rfl⟩ := Option.map_eq_some_iff.mp hmap
  refine ⟨rfl, (List.getElem?_eq_some_iff.mp hget).1, ?_⟩
  intro hregular hfinal
  obtain ⟨hindex, htotal⟩ := hregular.numbered j engineFrame hget
  have hlast : engineFrame.index = engineFrame.total - 1 := by
    simpa [EngineFrame.isFinal] using hfinal
  omega

/-! ## Where the push of frame `j` stands, `k` frames being queued -/

section Stages

variable (job : Job) (id : RequestId) (router : Sys) (j k : Nat)

/-- Where the call of the push stands. -/
inductive PushAt (c : CallId) : Prop where
  | called {frame : Frame} (hcall : router.calls c = some (.called (.pushFrame frame)))
      (hframe : (job.pushes id)[j]? = some (some frame)) (hk : k = j)
  | opened {frame : Frame} (hcall : router.calls c = some (.opened (.pushFrame frame)))
      (hframe : (job.pushes id)[j]? = some (some frame)) (hk : k = j)
  | sending {frame : Frame} {ch : ChanId} (hcall : router.calls c = some (.sending frame ch))
      (hframe : (job.pushes id)[j]? = some (some frame)) (hk : k = j)
  | completing {frame : Frame} {ch : ChanId}
      (hcall : router.calls c = some (.completing frame ch))
      (hlast : job.frames.length ≤ k) (hk : k = j + 1)
  | accepted (hcall : router.calls c = some (.done (.ok ()))) (hk : k = j + 1)
  | refused {e : RouterError} (hcall : router.calls c = some (.done (.error e)))

/-- The push slot of the driver. -/
inductive Slot : PushFuture → Prop where
  | idle : Slot .idle
  | scheduled {index : Int} {payload : List UInt8} {isFinal : Bool}
      (hframe : ∀ i, frameIndex? index = some i →
        (job.pushes id)[j]? = some (some ⟨id, i, payload, isFinal⟩)) (hk : k = j) :
      Slot (.scheduled index payload isFinal)
  | running {c : CallId} (hat : PushAt job id router j k c) : Slot (.running c)
  | failed : Slot .failed

/-- Which frames the driver has dealt with at a program counter. -/
def Position : Pc → Prop
  | .waiting => k = 0
  | .pulling rest index => rest = job.frames.drop k ∧ index = (k : Int) - 1
  | .checkingStop frame rest | .checkingState frame rest => job.frames.drop k = frame :: rest
  | .awaitingFrame rest index => rest = job.frames.drop (j + 1) ∧ index = j
  | .awaitingMarker => False
  | .cancelling | .awaitingCancel _ | .returned => True

end Stages

/-- `k` frames are queued on the channel of the request, and the driver stands
accordingly. -/
structure Progress (job : Job) (id : RequestId) (h : List Event) (s : State) (ch : ChanId)
    (j k : Nat) : Prop where
  serves : s.router.Serves id ch
  stream : ∀ {ch'}, s.stream = some ch' → ch' = ch
  queued : (enqueuedOn ch h).map some = (job.pushes id).take k
  bound : k ≤ job.frames.length
  slot : Slot job id s.router j k s.push
  position : Position job j k s.pc
  complete : s.router.inner.state id = some .complete → job.frames.length ≤ k

/-- The request has not been accepted yet. -/
structure Unborn (id : RequestId) (s : State) : Prop where
  free : s.router.inner.requests id = none
  waiting : s.pc = .waiting
  stream : s.stream = none

section RouterSteps

variable {job : Job} {id : RequestId} {router r : Sys} {push : PushFuture}
  {a : Router.Action} {es h : List Event} {ch : ChanId} {j k : Nat}

/-- Only the driver's own push queues a frame on the request's channel. -/
theorem queued_same (hserves : router.Serves id ch) (hlone : Lone id router push)
    (hrule : router.Rule a es r) (hnot : ∀ c, push = .running c → a ≠ .send c)
    (h : List Event) : enqueuedOn ch (h ++ es) = enqueuedOn ch h := by
  rcases hrule.enqueuedOn_append h ch with hsame | ⟨c, frame, ha, hc⟩
  · exact hsame
  · have hid : frame.requestId = id := hserves.sole (Or.inr ⟨c, frame, Or.inl hc, rfl⟩)
    exact absurd ha (hnot c (hlone c frame ⟨_, hc, rfl⟩ hid))

/-- One step of the router moves the driver's push by at most one stage, and queues
the frame when it is sent. -/
theorem PushAt.step {c : CallId} (hat : PushAt job id router j k c) (hregular : job.Regular)
    (hserves : router.Serves id ch) (hlone : Lone id router (.running c))
    (hqueued : (enqueuedOn ch h).map some = (job.pushes id).take k) (hbound : k ≤ job.frames.length)
    (hrule : router.Rule a es r) :
    ∃ k', k ≤ k' ∧ k' ≤ job.frames.length ∧ PushAt job id r j k' c ∧
      (enqueuedOn ch (h ++ es)).map some = (job.pushes id).take k' := by
  by_cases hcaller : a.caller = some c
  · have hkeep : a ≠ .send c → PushAt job id r j k c →
        ∃ k', k ≤ k' ∧ k' ≤ job.frames.length ∧ PushAt job id r j k' c ∧
          (enqueuedOn ch (h ++ es)).map some = (job.pushes id).take k' := by
      intro hsend hat'
      refine ⟨k, le_rfl, hbound, hat', ?_⟩
      rw [queued_same hserves hlone hrule ?_ h, hqueued]
      rintro d hd rfl
      cases hd
      exact hsend rfl
    cases hat with
    | called hcall hframe hk =>
        have hfinds := hrule.finds hcaller hcall
        cases a with
        | ensureOpen d =>
            cases hcaller
            refine hkeep (by simp) ?_
            cases hrule with
            | opens hcall' _ =>
                cases hcall.symm.trans hcall'
                exact .opened Sys.advance_calls_self hframe hk
            | shut _ _ => exact .refused Sys.advance_calls_self
        | _ => cases hfinds
    | opened hcall hframe hk =>
        have hfinds := hrule.finds hcaller hcall
        cases a with
        | enter d =>
            cases hcaller
            refine hkeep (by simp) ?_
            cases hrule with
            | refuse _ _ => exact .refused Sys.advance_calls_self
            | validate hcall' _ =>
                cases hcall.symm.trans hcall'
                exact .sending Sys.advance_calls_self hframe hk
            | register hcall' _ => cases hcall.symm.trans hcall'
            | subscribe hcall' _ => cases hcall.symm.trans hcall'
            | cancel hcall' _ => cases hcall.symm.trans hcall'
        | _ => cases hfinds
    | @sending frame ch' hcall hframe hk =>
        have hfinds := hrule.finds hcaller hcall
        obtain ⟨hid, hlt, hfinal⟩ := pushes_getElem? hframe
        have hch : ch' = ch := hserves.own (Or.inr ⟨c, frame, Or.inl hcall, hid⟩)
        subst hch
        subst hk
        have htake : (job.pushes id).take (k + 1) = (job.pushes id).take k ++ [some frame] := by
          rw [List.take_add_one, hframe]
          rfl
        cases a with
        | send d =>
            cases hcaller
            cases hrule with
            | unsent _ _ =>
                exact ⟨k, le_rfl, hbound, .refused Sys.advance_calls_self, by simpa using hqueued⟩
            | sentFinal hcall' _ _ hisFinal =>
                cases hcall.symm.trans hcall'
                refine ⟨k + 1, Nat.le_succ k, hlt,
                  .completing Sys.advance_calls_self (hfinal hregular hisFinal) rfl, ?_⟩
                rw [enqueuedOn_enqueued, if_pos rfl, List.map_append, hqueued, htake]
                rfl
            | sent hcall' _ _ _ =>
                cases hcall.symm.trans hcall'
                refine ⟨k + 1, Nat.le_succ k, hlt, .accepted Sys.advance_calls_self rfl, ?_⟩
                rw [enqueuedOn_enqueued, if_pos rfl, List.map_append, hqueued, htake]
                rfl
        | _ => cases hfinds
    | completing hcall hlast hk =>
        have hfinds := hrule.finds hcaller hcall
        cases a with
        | complete d =>
            cases hcaller
            refine hkeep (by simp) ?_
            cases hrule with
            | complete _ => exact .accepted Sys.advance_calls_self hk
        | _ => cases hfinds
    | accepted hcall hk =>
        have hfinds := hrule.finds hcaller hcall
        cases a <;> cases hfinds
    | refused hcall =>
        have hfinds := hrule.finds hcaller hcall
        cases a <;> cases hfinds
  · have hsame := hrule.calls_of_ne hcaller
    refine ⟨k, le_rfl, hbound, ?_, ?_⟩
    · cases hat with
      | called hcall hframe hk => exact .called (hsame.trans hcall) hframe hk
      | opened hcall hframe hk => exact .opened (hsame.trans hcall) hframe hk
      | sending hcall hframe hk => exact .sending (hsame.trans hcall) hframe hk
      | completing hcall hlast hk => exact .completing (hsame.trans hcall) hlast hk
      | accepted hcall hk => exact .accepted (hsame.trans hcall) hk
      | refused hcall => exact .refused (hsame.trans hcall)
    · rw [queued_same hserves hlone hrule ?_ h, hqueued]
      rintro d hd rfl
      cases hd
      exact hcaller rfl

/-- One step of the router moves whatever is in the push slot by at most one stage. -/
theorem Slot.step (hslot : Slot job id router j k push) (hregular : job.Regular)
    (hserves : router.Serves id ch) (hlone : Lone id router push)
    (hqueued : (enqueuedOn ch h).map some = (job.pushes id).take k)
    (hbound : k ≤ job.frames.length) (hrule : router.Rule a es r) :
    ∃ k', k ≤ k' ∧ k' ≤ job.frames.length ∧ Slot job id r j k' push ∧
      (enqueuedOn ch (h ++ es)).map some = (job.pushes id).take k' ∧
      (push = .idle → k' = k) := by
  have hquiet : (∀ c, push ≠ .running c) →
      (enqueuedOn ch (h ++ es)).map some = (job.pushes id).take k := by
    intro hnot
    rw [queued_same hserves hlone hrule (fun c hc => absurd hc (hnot c)) h, hqueued]
  cases hslot with
  | idle => exact ⟨k, le_rfl, hbound, .idle, hquiet (by simp), fun _ => rfl⟩
  | scheduled hframe hk =>
      exact ⟨k, le_rfl, hbound, .scheduled hframe hk, hquiet (by simp), fun _ => rfl⟩
  | failed => exact ⟨k, le_rfl, hbound, .failed, hquiet (by simp), fun _ => rfl⟩
  | running hat =>
      obtain ⟨k', hle, hbound', hat', hqueued'⟩ :=
        hat.step hregular hserves hlone hqueued hbound hrule
      exact ⟨k', hle, hbound', .running hat', hqueued', fun hidle => by cases hidle⟩

/-- While a push is out, what the driver knows does not depend on what is queued. -/
theorem Position.of_not_between {pc : Pc} {k' : Nat} (hbetween : pc.betweenPushes = false)
    (hposition : Position job j k pc) : Position job j k' pc := by
  cases pc with
  | waiting => cases hbetween
  | pulling rest index => cases hbetween
  | checkingStop frame rest => cases hbetween
  | checkingState frame rest => cases hbetween
  | _ => exact hposition

end RouterSteps

section Stream

variable {id : RequestId} {s : State} {a : Router.Action} {ch : ChanId}

/-- The stream changes only when the request's parked receiver is handed out. -/
theorem streamAfter_eq_some (h : s.streamAfter id a = some ch) :
    s.stream = some ch ∨
      ∃ e, s.router.inner.requests id = some e ∧ e.receiver = some ch := by
  unfold State.streamAfter at h
  split at h
  · split at h
    · rename_i k hcall
      split at h
      · split at h
        · rename_i j r htake
          cases h
          obtain ⟨e, hentry, hreceiver, -⟩ := Inner.takeReceiver_ok htake
          exact Or.inr ⟨e, hentry, hreceiver⟩
        · exact Or.inl h
      · exact Or.inl h
    · exact Or.inl h
  · exact Or.inl h

end Stream

/-! ## Steps of the driver -/

section DriverSteps

variable {job : Job} {id : RequestId} {s t : State} {h es : List Event} {ch : ChanId} {j k : Nat}

/-- A driver step that does not touch the router. -/
theorem Progress.goto (hprogress : Progress job id h s ch j k) {pc : Pc} {push : PushFuture}
    {j' : Nat} (hslot : Slot job id s.router j' k push) (hposition : Position job j' k pc) :
    Progress job id h { s with pc := pc, push := push } ch j' k where
  serves := hprogress.serves
  stream := hprogress.stream
  queued := hprogress.queued
  bound := hprogress.bound
  slot := hslot
  position := hposition
  complete := hprogress.complete

/-- A step of the router. -/
theorem Progress.router_step (hprogress : Progress job id h s ch j k) (hregular : job.Regular)
    (hsolo : Solo id s) {a : Router.Action} {r : Sys} (hrule : s.router.Rule a es r)
    {stream : Option ChanId} (hstream : ∀ {ch'}, stream = some ch' → ch' = ch) :
    ∃ k', Progress job id (h ++ es) { s with router := r, stream := stream } ch j k' := by
  obtain ⟨k', hle, hbound, hslot, hqueued, hidle⟩ := hprogress.slot.step hregular
    hprogress.serves hsolo.lone hprogress.queued hprogress.bound hrule
  refine ⟨k', hprogress.serves.step hsolo.kept hrule, hstream, hqueued, hbound, hslot, ?_, ?_⟩
  · cases hbetween : s.pc.betweenPushes with
    | true =>
        rw [hidle (hsolo.idle hbetween)]
        exact hprogress.position
    | false => exact hprogress.position.of_not_between hbetween
  · intro hstate
    rcases hrule.completes hstate with hold | ⟨c, frame, ch', hcall, hid⟩
    · exact (hprogress.complete hold).trans hle
    · -- phase 3 of the driver's own push: the last frame is queued
      have hpush : s.push = .running c := hsolo.lone c frame ⟨_, hcall, rfl⟩ hid
      have hold := hprogress.slot
      rw [hpush] at hold
      cases hold with
      | running hat =>
          cases hat with
          | completing _ hlast _ => exact hlast.trans hle
          | called hcall' => cases hcall.symm.trans hcall'
          | opened hcall' => cases hcall.symm.trans hcall'
          | sending hcall' => cases hcall.symm.trans hcall'
          | accepted hcall' => cases hcall.symm.trans hcall'
          | refused hcall' => cases hcall.symm.trans hcall'

/-- A push that has been accepted has queued its frame. -/
theorem Slot.accepted {router : Sys} {c : CallId} (hslot : Slot job id router j k (.running c))
    (hcall : router.calls c = some (.done (.ok ()))) : k = j + 1 := by
  cases hslot with
  | running hat =>
      cases hat with
      | accepted _ hk => exact hk
      | called hcall' => cases hcall.symm.trans hcall'
      | opened hcall' => cases hcall.symm.trans hcall'
      | sending hcall' => cases hcall.symm.trans hcall'
      | completing hcall' => cases hcall.symm.trans hcall'
      | refused hcall' => cases hcall.symm.trans hcall'

/-- Having pulled everything, the driver has seen the last announced index. -/
theorem drained_index (hregular : job.Regular) (hrest : [] = job.frames.drop k)
    (hbound : k ≤ job.frames.length) : (k : Int) - 1 = job.numFrames - 1 := by
  have hle : job.frames.length ≤ k := List.drop_eq_nil_iff.mp hrest.symm
  have heq : k = job.frames.length := Nat.le_antisymm hbound hle
  rw [hregular.announced, heq]

/-- Every step keeps the account of what is queued. -/
theorem Progress.step (hprogress : Progress job id h s ch j k) (hregular : job.Regular)
    (hsolo : Solo id s) {a : Action} (hrule : s.Rule job id a es t) :
    ∃ j' k', Progress job id (h ++ es) t ch j' k' := by
  have hposition := hprogress.position
  have hslot := hprogress.slot
  cases hrule with
  | pop hpc _ _ =>
      rw [hpc] at hposition
      cases hposition
      rw [List.append_nil]
      exact ⟨j, 0, hprogress.goto hslot ⟨List.drop_zero.symm, rfl⟩⟩
  | pull hpc =>
      rw [hpc] at hposition
      rw [List.append_nil]
      exact ⟨j, k, hprogress.goto hslot hposition.1.symm⟩
  | pushMarker hpc _ _ hlast =>
      rw [hpc] at hposition
      obtain ⟨hrest, hindex⟩ := hposition
      exact absurd (hindex.trans (drained_index hregular hrest hprogress.bound)) hlast
  | notStopped hpc _ =>
      rw [hpc] at hposition
      rw [List.append_nil]
      exact ⟨j, k, hprogress.goto hslot hposition⟩
  | @pushFrame frame rest line hpc _ hline =>
      rw [hpc] at hposition
      have hget : job.frames[k]? = some frame := by
        rw [← List.head?_drop, hposition]
        rfl
      have hrest : rest = job.frames.drop (k + 1) := by
        rw [← List.tail_drop, hposition]
        rfl
      rw [List.append_nil]
      refine ⟨k, k, hprogress.goto (.scheduled ?_ rfl) ⟨hrest, (hregular.numbered k frame hget).1⟩⟩
      intro i hi
      obtain ⟨-, rfl⟩ := frameIndex?_eq_some hi
      unfold Job.pushes
      rw [List.getElem?_map, hget, Option.map_some, hline]
      rfl
  | @pushed next c hpc hpush hcall =>
      rw [hpush] at hslot
      have hk := hslot.accepted hcall
      rw [List.append_nil]
      refine ⟨j, k, hprogress.goto .idle ?_⟩
      cases hat : s.pc with
      | awaitingFrame rest index =>
          rw [hat] at hposition hpc
          cases hpc
          obtain ⟨hrest, hindex⟩ := hposition
          subst hk
          exact ⟨hrest, by omega⟩
      | awaitingMarker =>
          rw [hat] at hposition
          cases hposition
      | _ =>
          rw [hat] at hpc
          cases hpc
  | @launch c index i payload isFinal hpush hindex hfree =>
      rw [hpush] at hslot
      cases hslot with
      | scheduled hframe hk =>
          rw [List.append_nil]
          refine ⟨j, k, ⟨hprogress.serves.step hsolo.kept (.invoke hfree), hprogress.stream,
            hprogress.queued, hprogress.bound,
            .running (.called Sys.advance_calls_self (hframe i hindex) hk), hposition,
            hprogress.complete⟩⟩
  | launchFailed _ _ =>
      rw [List.append_nil]
      exact ⟨j, k, hprogress.goto .failed hposition⟩
  | @cancel c _ hfree =>
      have hinvoke : s.router.Rule (.invoke c (.cancel id)) []
          (s.router.advance c (.called (.cancel id)) s.router.inner) := .invoke hfree
      obtain ⟨k', hnext⟩ := hprogress.router_step hregular hsolo hinvoke hprogress.stream
      exact ⟨j, k', hnext.goto hnext.slot trivial⟩
  | setStop =>
      rw [List.append_nil]
      exact ⟨j, k, hprogress.serves, hprogress.stream, hprogress.queued, hprogress.bound, hslot,
        hposition, hprogress.complete⟩
  | env _ hrouter =>
      refine ⟨j, hprogress.router_step hregular hsolo hrouter ?_⟩
      intro ch' hch'
      rcases streamAfter_eq_some hch' with hold | ⟨e, hentry, hreceiver⟩
      · exact hprogress.stream hold
      · exact hprogress.serves.own (Or.inl ⟨e, hentry, Or.inr hreceiver⟩)
  | _ =>
      rw [List.append_nil]
      exact ⟨j, k, hprogress.goto hslot trivial⟩

/-- A request that has just been registered has a channel with nothing on it. -/
theorem Progress.of_register {r : Sys} {a : Router.Action} {req : RouterRequest}
    (hunborn : Unborn req.id s) (hsolo : Solo req.id s) (hstreams : s.router.Streams h)
    (hrule : s.router.Rule a es r) (hregister : s.router.inner.register req = (.ok (), r.inner)) :
    Progress job req.id (h ++ es) { s with router := r } s.router.inner.nextChan 0 0 := by
  have hidle : s.push = .idle := hsolo.idle (by rw [hunborn.waiting]; rfl)
  have hquiet : ∀ c frame ch, s.router.InFlight c frame ch → frame.requestId ≠ req.id := by
    rintro c frame ch (hc | hc)
    · exact hsolo.lone.quiet (by simp [hidle]) ⟨_, hc, rfl⟩
    · exact hsolo.lone.quiet (by simp [hidle]) ⟨_, hc, rfl⟩
  have hqueued : enqueuedOn s.router.inner.nextChan (h ++ es) = [] := by
    rcases hrule.enqueuedOn_append h s.router.inner.nextChan with hsame | ⟨c, frame, -, hc⟩
    · rw [hsame]
      exact (hstreams.owned.unused le_rfl).1
    · exact absurd (hstreams.owned.callFresh (Or.inl hc)) (Nat.lt_irrefl _)
  refine ⟨.of_register hstreams.tied hrule hregister hquiet, ?_, ?_, Nat.zero_le _, ?_, ?_, ?_⟩
  · intro ch' hch'
    cases hunborn.stream.symm.trans hch'
  · rw [hqueued]
    rfl
  · rw [hidle]
    exact .idle
  · rw [hunborn.waiting]
    rfl
  · intro hstate
    obtain ⟨-, hinner⟩ := Inner.register_ok hregister
    rw [hinner] at hstate
    simp [Inner.state] at hstate

/-- Until it is registered, the request waits to be popped. -/
theorem Unborn.step (hunborn : Unborn id s) (hsolo : Solo id s) (hstreams : s.router.Streams h)
    {a : Action} (hrule : s.Rule job id a es t) :
    Unborn id t ∨ ∃ ch, Progress job id (h ++ es) t ch 0 0 := by
  have hwaiting := hunborn.waiting
  have hidle : s.push = .idle := hsolo.idle (by rw [hwaiting]; rfl)
  have hresume : ∀ {next : Pc}, s.pc.onPushed ≠ some next := by
    rw [hwaiting]
    simp [Pc.onPushed]
  cases hrule with
  | pop _ hentry _ => cases hunborn.free.symm.trans hentry
  | popMalformed _ hentry _ => cases hunborn.free.symm.trans hentry
  | pushed hpc _ _ => exact absurd hpc hresume
  | pushFailed hpc _ => exact absurd hpc hresume
  | timeout hpc => exact absurd hpc hresume
  | launch hpush _ _ => cases hidle.symm.trans hpush
  | launchFailed hpush _ => cases hidle.symm.trans hpush
  | setStop => exact Or.inl ⟨hunborn.free, hwaiting, hunborn.stream⟩
  | @env b es r _ hrouter =>
      have hstream : s.streamAfter id b = none := by
        refine Option.eq_none_iff_forall_ne_some.mpr ?_
        intro ch hch
        rcases streamAfter_eq_some hch with hold | ⟨e, hentry, -⟩
        · cases hunborn.stream.symm.trans hold
        · cases hunborn.free.symm.trans hentry
      rcases hrouter.entry_none hunborn.free with hfree | ⟨c, req, -, -, rfl, hregister⟩
      · exact Or.inl ⟨hfree, hwaiting, hstream⟩
      · have hborn : Progress job req.id (h ++ es) { s with router := _ }
            s.router.inner.nextChan 0 0 :=
          .of_register hunborn hsolo hstreams hrouter hregister
        rw [hunborn.stream.trans hstream.symm] at hborn
        exact Or.inr ⟨_, hborn⟩
  | _ hpc => cases hwaiting.symm.trans hpc

end DriverSteps

/-- A step of the driver is a step of its router, or leaves it alone. -/
theorem router_step {job : Job} {id : RequestId} {s t : State} {a : Action} {es : List Event}
    (h : s.step job id a = some (es, t)) :
    (t.router = s.router ∧ es = []) ∨ ∃ b, s.router.step b = some (es, t.router) := by
  cases State.step_rule h with
  | @launch c index i payload isFinal _ _ hfree =>
      exact Or.inr ⟨.invoke c (.pushFrame ⟨id, i, payload, isFinal⟩), by simp [Sys.step, hfree]⟩
  | @cancel c _ hfree => exact Or.inr ⟨.invoke c (.cancel id), by simp [Sys.step, hfree]⟩
  | @env b es r hout _ =>
      cases hrouter : s.router.step b with
      | none => simp [State.step, hout, hrouter] at h
      | some next =>
          simp only [State.step, hout, hrouter, if_true, Option.some.injEq, Prod.mk.injEq,
            State.mk.injEq] at h
          exact Or.inr ⟨b, by rw [hrouter, ← h.1, ← h.2.1]⟩
  | _ => exact Or.inl ⟨rfl, rfl⟩

/-- What holds in every state of every run. -/
structure Account (job : Job) (id : RequestId) (h : List Event) (s : State) : Prop where
  solo : Solo id s
  streams : s.router.Streams h
  progress : Unborn id s ∨ ∃ ch j k, Progress job id h s ch j k

theorem Account.step {job : Job} {id : RequestId} {s t : State} {a : Action} {h es : List Event}
    (hs : Account job id h s) (hregular : job.Regular) (hstep : s.step job id a = some (es, t)) :
    Account job id (h ++ es) t := by
  have hrule := State.step_rule hstep
  refine ⟨hs.solo.step hrule, ?_, ?_⟩
  · rcases router_step hstep with ⟨hrouter, rfl⟩ | ⟨b, hrouter⟩
    · rw [hrouter, List.append_nil]
      exact hs.streams
    · exact hs.streams.step hrouter
  · rcases hs.progress with hunborn | ⟨ch, j, k, hprogress⟩
    · rcases hunborn.step hs.solo hs.streams hrule with hstill | ⟨ch, hborn⟩
      · exact Or.inl hstill
      · exact Or.inr ⟨ch, 0, 0, hborn⟩
    · exact Or.inr ⟨ch, hprogress.step hregular hs.solo hrule⟩

/-- What the subscriber has received is the start of the encoded sequence, and all of it
once the request is complete and the stream drained. -/
theorem Account.received {job : Job} {id : RequestId} {s : State} {h : List Event} {ch : ChanId}
    (hs : Account job id h s) (hstream : s.stream = some ch) :
    (payloadsOn ch h).map some <+: job.lines ∧
      (s.router.inner.state id = some .complete → Drained ch h s.router →
        (payloadsOn ch h).map some = job.lines) := by
  rcases hs.progress with hunborn | ⟨ch', j, k, hprogress⟩
  · cases hunborn.stream.symm.trans hstream
  · cases hprogress.stream hstream
    have hqueued : ((enqueuedOn ch h).map Frame.bytes).map some = job.lines.take k := by
      have hbytes := congrArg (List.map (Option.map Frame.bytes)) hprogress.queued
      rw [List.map_take, map_pushes, List.map_map] at hbytes
      rw [← hbytes, List.map_map]
      rfl
    refine ⟨?_, ?_⟩
    · have hdelivered : deliveredOn ch h <+: enqueuedOn ch h :=
        (List.prefix_append _ _).trans (hs.streams.owned.delivered ch)
      have hprefix : (payloadsOn ch h).map some <+: job.lines.take k := by
        rw [← hqueued]
        exact (hdelivered.map Frame.bytes).map some
      exact hprefix.trans (List.take_prefix k job.lines)
    · intro hcomplete hdrained
      have hall : deliveredOn ch h = enqueuedOn ch h := by
        rcases hdrained with hended | ⟨hheld, hbuffer⟩
        · exact (hs.streams.ended ch hended).received
        · exact hs.streams.drained hheld hbuffer
      unfold payloadsOn
      rw [hall, hqueued]
      refine List.take_of_length_le ?_
      unfold Job.lines
      rw [List.length_map]
      exact hprogress.complete hcomplete

/-- For an engine that yields the announced number of frames, numbered from zero, at
any channel depth and on any schedule: what the subscriber has received is at all
times the start of the encoded sequence, in order and without a gap, and once the
request is `Complete` and its stream is drained it is the whole sequence. -/
theorem received_prefix_complete {job : Job} (hregular : job.Regular) {id : RequestId}
    {depth : Nat} {as : List Action} {es : List Event} {s : State} {ch : ChanId}
    (hrun : (machine depth id job).run (machine depth id job).init as = some (es, s))
    (hstream : s.stream = some ch) :
    (payloadsOn ch es).map some <+: job.lines ∧
      (s.router.inner.state id = some .complete → Drained ch es s.router →
        (payloadsOn ch es).map some = job.lines) := by
  have haccount : Account job id es s :=
    Machine.history_reachable (C := fun _ _ => True) (H := Account job id)
      ⟨.init depth id job, .init depth, Or.inl ⟨rfl, rfl, rfl⟩⟩
      (fun _ _ _ _ _ hs _ hstep => hs.step hregular hstep)
      (Machine.meets_of_forall fun _ _ _ => trivial) hrun
  exact haccount.received hstream

/-- An engine that yields two frames. -/
def twoFrames : Job := ⟨true, 2, [⟨0, 2, some [10]⟩, ⟨1, 2, some [11]⟩], false, []⟩

/-- Both frames are pushed through a channel with room for one, and read. -/
def twoFramesRun : List Action :=
  [.env (.invoke 0 (.accept ⟨⟨"a"⟩, .normal⟩)), .env (.ensureOpen 0), .env (.enter 0),
    .env (.submitted 0 (.ok ())), .env (.invoke 1 (.subscribe ⟨"a"⟩)), .env (.ensureOpen 1),
    .env (.enter 1), .pop,
    .advance, .advance, .advance, .launch 2, .env (.ensureOpen 2), .env (.enter 2),
    .env (.send 2), .advance, .env (.recv 0),
    .advance, .advance, .advance, .launch 3, .env (.ensureOpen 3), .env (.enter 3),
    .env (.send 3), .env (.recv 0), .env (.complete 3), .env (.recv 0), .advance, .advance]

theorem twoFrames_regular : twoFrames.Regular where
  announced := rfl
  numbered := by
    intro j frame hget
    match j with
    | 0 =>
        cases hget
        exact ⟨rfl, rfl⟩
    | 1 =>
        cases hget
        exact ⟨rfl, rfl⟩
    | _ + 2 => cases hget

/-- The subscriber has both frames when the driver has returned. -/
theorem twoFrames_received :
    ∃ es s, (machine 1 ⟨"a"⟩ twoFrames).run (machine 1 ⟨"a"⟩ twoFrames).init twoFramesRun =
        some (es, s) ∧ s.pc = .returned ∧ s.router.inner.state ⟨"a"⟩ = some .complete ∧
      (payloadsOn 0 es).map some = twoFrames.lines := by
  have hdrained : ∃ es s, (machine 1 ⟨"a"⟩ twoFrames).run (machine 1 ⟨"a"⟩ twoFrames).init
        twoFramesRun = some (es, s) ∧ s.pc = .returned ∧
      s.router.inner.state ⟨"a"⟩ = some .complete ∧ s.stream = some 0 ∧ .ended 0 ∈ es :=
    ⟨_, _, rfl, rfl, rfl, rfl, by simp⟩
  obtain ⟨es, s, hrun, hreturned, hcomplete, hstream, hended⟩ := hdrained
  exact ⟨es, s, hrun, hreturned, hcomplete,
    (received_prefix_complete twoFrames_regular hrun hstream).2 hcomplete (Or.inl hended)⟩

end Repercep.Driver
