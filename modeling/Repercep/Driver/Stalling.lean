import Repercep.Driver.Termination
set_option autoImplicit false

/-!
# The engine driver: a job that stalls

The other half of the termination result: for every job that stalls there is a run,
with nobody cancelling and room for every frame, in which `_run_one` returns and
the request is still live.  The run is built frame by frame from a state in which
the driver is about to pull, and every push goes through its phases undisturbed.
-/

namespace Repercep.Driver

open Repercep.Foundation
open Repercep.Router

/-- The router takes the next `room` frames of the request, if their indices go on
beyond `last`. -/
structure Ready (id : RequestId) (room : Nat) (last : Option Nat) (r : Inner) : Prop where
  isOpen : r.shuttingDown = false
  entry : ∃ e ch, r.requests id = some e ∧ e.state.isTerminal = false ∧
    e.lastFrameIndex = last ∧ e.sender = some ch ∧ (r.chans ch).closed = false ∧
    (r.chans ch).buffer.length + room ≤ (r.chans ch).capacity

theorem Ready.not_terminal {id : RequestId} {room : Nat} {last : Option Nat} {r : Inner}
    (h : Ready id room last r) : ¬ r.Terminal id := by
  rintro ⟨e', hentry', hterminal⟩
  obtain ⟨e, ch, hentry, hlive, -⟩ := h.entry
  cases hentry.symm.trans hentry'
  rw [hlive] at hterminal
  cases hterminal

theorem Ready.not_cancelled {id : RequestId} {room : Nat} {last : Option Nat} {r : Inner}
    (h : Ready id room last r) : r.state id ≠ some .cancelled := by
  intro hstate
  obtain ⟨e, ch, hentry, hlive, -⟩ := h.entry
  rw [Inner.state, hentry, Option.map_some, Option.some.injEq] at hstate
  rw [hstate] at hlive
  cases hlive

/-- A ready router takes a frame that is not final, through both phases. -/
theorem Ready.push {room : Nat} {last : Option Nat} {r : Inner} {frame : Frame}
    (h : Ready frame.requestId (room + 1) last r)
    (hafter : ∀ j, last = some j → j < frame.frameIndex) :
    ∃ ch r₁ r₂, r.validate frame = (.ok ch, r₁) ∧ r₁.sendFrame frame ch = (.ok (), r₂) ∧
      Ready frame.requestId room (some frame.frameIndex) (r₂.dropSender (some ch)) := by
  obtain ⟨e, ch, hentry, hlive, rfl, hsender, hclosed, hroom⟩ := h.entry
  rcases hvalidate : r.validate frame with ⟨err | ch', r₁⟩
  · exact absurd ⟨e, hentry, hlive, hafter⟩ (Inner.validate_error hvalidate).2.1
  · obtain ⟨e', hlive', hentry', -, hsender', rfl⟩ := Inner.validate_ok hvalidate
    cases hentry.symm.trans hentry'
    cases hsender.symm.trans hsender'
    rcases hsend : ((r.setEntry frame.requestId (e.recordFrame frame.frameIndex hlive')).setChan ch
      (r.chans ch).cloneSender).sendFrame frame ch with ⟨err | _, r₂⟩
    · refine absurd ⟨?_, ?_⟩ (Inner.sendFrame_error hsend).2
      · simpa using hclosed
      · simp only [Inner.setChan_chans, Function.update_self, Channel.cloneSender_buffer,
          Channel.cloneSender_capacity]
        omega
    · refine ⟨ch, _, r₂, rfl, hsend, ?_⟩
      obtain ⟨-, k, rfl, happends⟩ := Inner.sendFrame_ok hsend
      have hbuffer : k.buffer = (r.chans ch).buffer ++ [frame] := by
        simpa using happends.buffer
      have hcapacity : k.capacity = (r.chans ch).capacity := by
        simpa using happends.capacity
      have hopen : k.closed = false := by
        simpa [hclosed] using happends.closed
      refine ⟨by simpa using h.isOpen, e.recordFrame frame.frameIndex hlive', ch, by simp,
        Entry.firstFrame_isTerminal hlive', rfl, hsender, by simpa using hopen, ?_⟩
      simp only [Inner.dropSender_buffer, Inner.dropSender_capacity, Inner.setChan_chans,
        Function.update_self, hbuffer, hcapacity, List.length_append, List.length_singleton]
      omega

/-- The labels of a run on an open router. -/
def KeepsOpen (a : Action) : Prop := a ≠ .env .shutdown

/-- About to pull: nothing is cancelled or stopped, and the router is ready. -/
structure Calm (id : RequestId) (room : Nat) (rest : List EngineFrame) (index : Int)
    (last : Option Nat) (s : State) : Prop where
  pc : s.pc = .pulling rest index
  stop : s.stop = false
  ready : Ready id room last s.router.inner
  free : ∃ c, ∀ d, c ≤ d → s.router.calls d = none

section Steps

variable {depth : Nat} {id : RequestId} {job : Job} {s : State}

theorem reaches_step {t : State} {a : Action} {es : List Event}
    (h : s.step job id a = some (es, t)) (ha : KeepsOpen a) :
    (machine depth id job).Reaches KeepsOpen s t :=
  .single ha h

theorem State.step_advance {t : State} (h : s.advance job id = some t) :
    s.step job id .advance = some ([], t) := by
  simp only [State.step, h]

theorem State.step_env {a : Router.Action} {es : List Event} {r : Sys}
    (hout : outside id s.router a = true) (hstream : s.streamAfter id a = s.stream)
    (h : s.router.step a = some (es, r)) :
    s.step job id (.env a) = some (es, { s with router := r }) := by
  simp only [State.step, hout, if_true, h, hstream]

/-- From pulling a frame to the call of `push_frame`. -/
theorem Calm.launches {room : Nat} {frame : EngineFrame} {rest : List EngineFrame}
    {index : Int} {last : Option Nat} {line : List UInt8} {i : Nat} {c : CallId}
    (h : Calm id room (frame :: rest) index last s) (hline : frame.line = some line)
    (hindex : frameIndex? frame.index = some i) (hfree : s.router.calls c = none) :
    (machine depth id job).Reaches KeepsOpen s { s with
      router := s.router.advance c (.called (.pushFrame ⟨id, i, line, frame.isFinal⟩))
        s.router.inner
      pc := .awaitingFrame rest frame.index
      push := .running c } := by
  have hpull : s.step job id .advance =
      some ([], { s with pc := .checkingStop frame rest }) := by
    refine State.step_advance ?_
    simp only [State.advance, h.pc]
  have hrun : State.step job id { s with pc := .checkingStop frame rest } .advance =
      some ([], { s with pc := .checkingState frame rest }) := by
    refine State.step_advance ?_
    simp only [State.advance, h.stop, Bool.false_eq_true, if_false]
  have hpush : State.step job id { s with pc := .checkingState frame rest } .advance =
      some ([], { s with
        pc := .awaitingFrame rest frame.index
        push := .scheduled frame.index line frame.isFinal }) := by
    refine State.step_advance ?_
    simp only [State.advance, h.ready.not_cancelled, if_false, hline]
  have hlaunch : State.step job id { s with
        pc := .awaitingFrame rest frame.index
        push := .scheduled frame.index line frame.isFinal } (.launch c) =
      some ([], { s with
        router := s.router.advance c (.called (.pushFrame ⟨id, i, line, frame.isFinal⟩))
          s.router.inner
        pc := .awaitingFrame rest frame.index
        push := .running c }) := by
    simp only [State.step, hindex, Sys.step, hfree]
  refine (reaches_step hpull (by simp [KeepsOpen])).trans ?_
  refine (reaches_step hrun (by simp [KeepsOpen])).trans ?_
  refine (reaches_step hpush (by simp [KeepsOpen])).trans ?_
  exact reaches_step hlaunch (by simp [KeepsOpen])

variable (depth job) in
/-- A launched push of a frame that is not final runs through its phases and
returns. -/
theorem exists_push_returns {room : Nat} {last : Option Nat} {c : CallId} {frame : Frame}
    (hid : frame.requestId = id) (hready : Ready id (room + 1) last s.router.inner)
    (hafter : ∀ j, last = some j → j < frame.frameIndex) (hfinal : frame.isFinal = false)
    (hcall : s.router.calls c = some (.called (.pushFrame frame))) :
    ∃ r, (machine depth id job).Reaches KeepsOpen s
        { s with router := s.router.advance c (.done (.ok ())) r } ∧
      Ready id room (some frame.frameIndex) r := by
  subst hid
  obtain ⟨ch, r₁, r₂, hvalidate, hsend, hready'⟩ := hready.push hafter
  have hopens : s.router.step (.ensureOpen c) =
      some ([], s.router.advance c (.opened (.pushFrame frame)) s.router.inner) := by
    simp only [Sys.step, hcall, Inner.ensureOpen_eq_ok.mpr hready.isOpen]
  have henter : (s.router.advance c (.opened (.pushFrame frame)) s.router.inner).step
      (.enter c) = some ([], s.router.advance c (.sending frame ch) r₁) := by
    simp [Sys.step, Sys.enterOp, hvalidate, Sys.advance]
  have hsent : (s.router.advance c (.sending frame ch) r₁).step (.send c) =
      some ([.enqueued ch frame],
        s.router.advance c (.done (.ok ())) (r₂.dropSender (some ch))) := by
    simp [Sys.step, Sys.sendCall, hsend, hfinal, Sys.advance]
  have hstream : State.streamAfter frame.requestId
      { s with router := s.router.advance c (.opened (.pushFrame frame)) s.router.inner }
      (.enter c) = s.stream := by
    simp [State.streamAfter]
  refine ⟨r₂.dropSender (some ch), ?_, hready'⟩
  refine (reaches_step (State.step_env rfl rfl hopens) (by simp [KeepsOpen])).trans ?_
  refine (reaches_step (State.step_env rfl hstream henter) (by simp [KeepsOpen])).trans ?_
  exact reaches_step (State.step_env rfl rfl hsent) (by simp [KeepsOpen])

variable (depth job) in
/-- A frame that passes leaves the driver about to pull the next one. -/
theorem Calm.push {room : Nat} {frame : EngineFrame} {rest : List EngineFrame}
    {index : Int} {last : Option Nat} {line : List UInt8} {i : Nat}
    (h : Calm id (room + 1) (frame :: rest) index last s) (hline : frame.line = some line)
    (hindex : frameIndex? frame.index = some i) (hafter : ∀ j, last = some j → j < i)
    (hfinal : frame.isFinal = false) :
    ∃ t, (machine depth id job).Reaches KeepsOpen s t ∧
      Calm id room rest frame.index (some i) t := by
  obtain ⟨c, hfree⟩ := h.free
  let launched : State := { s with
    router := s.router.advance c (.called (.pushFrame ⟨id, i, line, frame.isFinal⟩))
      s.router.inner
    pc := .awaitingFrame rest frame.index
    push := .running c }
  have hlaunched : (machine depth id job).Reaches KeepsOpen s launched :=
    h.launches hline hindex (hfree c le_rfl)
  obtain ⟨r, hreturned, hready⟩ := exists_push_returns depth job (s := launched) rfl
    h.ready hafter hfinal Sys.advance_calls_self
  have hcollect : State.step job id
        { launched with router := launched.router.advance c (.done (.ok ())) r } .advance =
      some ([], { launched with
        router := launched.router.advance c (.done (.ok ())) r
        pc := .pulling rest frame.index
        push := .idle }) := by
    refine State.step_advance ?_
    simp [State.advance, State.pushResult, launched]
  refine ⟨_, (hlaunched.trans hreturned).trans
    (reaches_step hcollect (by simp [KeepsOpen])), rfl, h.stop, hready, c + 1, ?_⟩
  intro d hd
  have hne : d ≠ c := Nat.ne_of_gt hd
  have hle : c ≤ d := Nat.le_of_succ_le hd
  simpa [launched, hne] using hfree d hle

variable (depth job) in
/-- All frames of an unfinished engine run pass. -/
theorem Calm.drain {room : Nat} {frames : List EngineFrame} :
    ∀ {index : Int} {last : Option Nat} {s : State}, Calm id (frames.length + room) frames
      index last s → Unfinished frames →
      (∀ frame, frames.head? = some frame → ∀ j, last = some j → (j : Int) < frame.index) →
      ∃ t last', (machine depth id job).Reaches KeepsOpen s t ∧
        Calm id room [] ((frames.getLast?.map EngineFrame.index).getD index) last' t := by
  induction frames with
  | nil =>
      intro index last s h _ _
      exact ⟨s, last, .refl s, by simpa using h⟩
  | cons frame rest ih =>
      intro index last s h hunfinished hfirst
      obtain ⟨line, hline⟩ := hunfinished.encoded frame List.mem_cons_self
      obtain ⟨i, hindex⟩ := hunfinished.inRange frame List.mem_cons_self
      obtain ⟨hpos, hi⟩ := frameIndex?_eq_some hindex
      have hafter : ∀ j, last = some j → j < i := by
        intro j hj
        have hlt := hfirst frame rfl j hj
        omega
      have hcalm : Calm id (rest.length + room + 1) (frame :: rest) index last s := by
        have hlength : (frame :: rest).length + room = rest.length + room + 1 := by
          rw [List.length_cons]
          omega
        rwa [hlength] at h
      obtain ⟨t, hreach, ht⟩ := hcalm.push depth job hline hindex hafter
        (hunfinished.notFinal frame List.mem_cons_self)
      obtain ⟨hnext, hrest⟩ := List.isChain_cons.mp hunfinished.increasing
      have hunfinished' : Unfinished rest :=
        { encoded := fun g hg => hunfinished.encoded g (List.mem_cons_of_mem frame hg)
          inRange := fun g hg => hunfinished.inRange g (List.mem_cons_of_mem frame hg)
          increasing := hrest
          notFinal := fun g hg => hunfinished.notFinal g (List.mem_cons_of_mem frame hg) }
      obtain ⟨u, last', hreach', hu⟩ := ih ht hunfinished' (by
        intro next hhead j hj
        have hlt := hnext next hhead
        cases hj
        omega)
      refine ⟨u, last', hreach.trans hreach', ?_⟩
      rw [List.getLast?_cons]
      cases hlast : rest.getLast? with
      | none => simpa [hlast] using hu
      | some g => simpa [hlast] using hu

/-- The request accepted, queued and popped, with nothing else going on. -/
theorem exists_calm (id : RequestId) (job : Job) (depth : Nat)
    (hform : job.wellFormed = true) :
    ∃ t, (machine depth id job).Reaches KeepsOpen (machine depth id job).init t ∧
      Calm id depth job.frames (-1) none t := by
  let req : RouterRequest := ⟨id, .normal⟩
  let registered : Inner := { Inner.new depth with
    requests := Function.update (fun _ => none) id (some (.accepted 0 .normal))
    chans := Function.update (fun _ => Channel.make Frame (max depth 1)) 0
      (Channel.make Frame (max depth 1))
    nextChan := 1 }
  let accepted : Sys := (machine depth id job).init.router.advance 0 (.done (.ok ())) registered
  have haccept : (machine depth id job).Reaches KeepsOpen (machine depth id job).init
      { (machine depth id job).init with router := accepted } := by
    refine ⟨[.env (.invoke 0 (.accept req)), .env (.ensureOpen 0), .env (.enter 0),
      .env (.submitted 0 (.ok ()))], [], by simp [KeepsOpen], ?_⟩
    simp [Machine.run, State.step, outside, State.streamAfter, machine, Router.machine, Sys.step,
      Sys.enterOp, Inner.register, Inner.ensureOpen, Inner.new, Sys.advance, accepted, registered,
      req]
  have hpop : State.step job id { (machine depth id job).init with router := accepted } .pop =
      some ([], { (machine depth id job).init with
        router := accepted
        pc := .pulling job.frames (-1) }) := by
    simp [State.step, machine, accepted, registered, hform]
  refine ⟨_, haccept.trans (reaches_step hpop (by simp [KeepsOpen])), rfl, rfl, ?_, 1, ?_⟩
  · refine ⟨rfl, .accepted 0 .normal, 0, by simp [accepted, registered], rfl, rfl, rfl, ?_, ?_⟩
    · simp [accepted, registered]
    · exact (Nat.zero_add depth).le.trans (Nat.le_max_left depth 1)
  · intro d hd
    have hne : d ≠ 0 := Nat.ne_of_gt hd
    simp [accepted, hne, machine, Router.machine]

end Steps

/-- A job that stalls has a run that leaves its request live. -/
theorem not_leavesTerminal_of_stalls {id : RequestId} {job : Job} (hstalls : job.Stalls) :
    ¬ LeavesTerminal id job := by
  intro hleaves
  obtain ⟨s, hreach, hs⟩ := exists_calm id job job.frames.length hstalls.wellFormed
  have hcalm : Calm id (job.frames.length + 0) job.frames (-1) none s := hs
  obtain ⟨t, last, hreach', ht⟩ := hcalm.drain job.frames.length job hstalls.unfinished (by simp)
  have hexhausted : t.step job id .advance = some ([], { t with pc := .returned }) := by
    refine State.step_advance ?_
    have hmarker : ¬ (0 ≤ lastIndex job.frames ∧ lastIndex job.frames ≠ job.numFrames - 1) := by
      rintro ⟨hindex, hne⟩
      exact hne (hstalls.noMarker hindex)
    have hpc : t.pc = .pulling [] (lastIndex job.frames) := ht.pc
    simp only [State.advance, hpc, hstalls.exhausts, Bool.false_eq_true, if_false, hmarker]
  obtain ⟨as, es, hopen, hrun⟩ :=
    (hreach.trans hreach').trans (reaches_step hexhausted (by simp [KeepsOpen]))
  have hterminal := hleaves _ as es _ hrun hopen rfl
  exact ht.ready.not_terminal hterminal

/-- On the Rust router the request is always left terminal exactly by the jobs that do not
stall. -/
theorem rust_leavesTerminal_iff (id : RequestId) (job : Job) :
    LeavesTerminal id job ↔ ¬ job.Stalls := by
  constructor
  · intro hleaves hstalls
    exact not_leavesTerminal_of_stalls hstalls hleaves
  · exact leavesTerminal_of_not_stalls

end Repercep.Driver
