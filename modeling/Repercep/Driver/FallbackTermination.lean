import Repercep.Driver.Stalling
import Repercep.Router.FallbackRules
import Repercep.Router.Parity
set_option autoImplicit false

/-!
# The engine driver on the Python router

`_run_one` on `_PythonRouter`.  There a call runs in one go, a push when the event loop
starts it, and nothing is refused because the router is shut.  What differs for the request is
the index: `push_frame` compares a Python integer with the one before, and takes a negative
one or one beyond `u64`.  The loop variable of the driver is negative after a negative index,
and then the marker is left out as if there had been no frame.
-/

namespace Repercep.Driver

open Repercep.Foundation
open Repercep.Router

/-! ## The driver over `_PythonRouter` -/

/-- The push coroutine; it awaits nothing once it has been started. -/
inductive FallbackFuture where
  | idle
  | scheduled (index : Int) (payload : List UInt8) (isFinal : Bool)
  | done (ok : Bool)
  deriving DecidableEq, Repr

/-- What can happen next: the driver goes on, or somebody else calls the router. -/
inductive FallbackAction where
  | pop
  | advance
  | launch
  | timeout
  | cancel
  | setStop
  | env (a : PythonCall)

/-- The driver, its push and its stop flag next to the router.  The driver is never in the
middle of a `cancel`. -/
structure FallbackState where
  router : PythonRouter
  pc : Pc
  push : FallbackFuture
  stop : Bool

/-- What the other callers may do: nobody else pushes frames of the request. -/
def fallbackOutside (id : RequestId) : PythonCall → Bool
  | .pushFrame frame => frame.requestId != id
  | _ => true

namespace FallbackState

variable (job : Job) (id : RequestId) (s : FallbackState)

/-- One step of the driver thread; `none` while it waits. -/
def advance : Option FallbackState :=
  match s.pc with
  | .pulling (frame :: rest) _ => some { s with pc := .checkingStop frame rest }
  | .pulling [] index =>
      if job.raises then some { s with pc := .cancelling }
      else if 0 ≤ index ∧ index ≠ job.numFrames - 1 then
        some { s with pc := .awaitingMarker, push := .scheduled (index + 1) job.marker true }
      else some { s with pc := .returned }
  | .checkingStop frame rest =>
      if s.stop then some { s with pc := .cancelling }
      else some { s with pc := .checkingState frame rest }
  | .checkingState frame rest =>
      if s.router.state id = some .cancelled then some { s with pc := .returned }
      else
        match frame.line with
        | none => some { s with pc := .cancelling }
        | some line => some { s with
            pc := .awaitingFrame rest frame.index
            push := .scheduled frame.index line frame.isFinal }
  | .awaitingFrame rest index =>
      match s.push with
      | .done true => some { s with pc := .pulling rest index, push := .idle }
      | .done false => some { s with pc := .cancelling }
      | _ => none
  | .awaitingMarker =>
      match s.push with
      | .done true => some { s with pc := .returned, push := .idle }
      | .done false => some { s with pc := .cancelling }
      | _ => none
  | .waiting | .cancelling | .awaitingCancel _ | .returned => none

/-- The step a label stands for. -/
def step : FallbackAction → Option (List PythonEvent × FallbackState)
  | .pop =>
      match s.pc, s.router.requests id with
      | .waiting, some _ => some ([], { s with
          pc := if job.wellFormed then .pulling job.frames (-1) else .cancelling })
      | _, _ => none
  | .advance => (s.advance job id).map fun t => ([], t)
  | .launch =>
      match s.push with
      | .scheduled index payload isFinal =>
          let answer := s.router.pushFrame ⟨id, index, payload, isFinal⟩
          some ([], { s with router := answer.2, push := .done (succeeded answer.1) })
      | _ => none
  | .timeout =>
      match s.pc.onPushed with
      | none => none
      | some _ => some ([], { s with pc := .cancelling })
  | .cancel =>
      match s.pc with
      | .cancelling => some ([], { s with router := (s.router.cancel id).2, pc := .returned })
      | _ => none
  | .setStop => some ([], { s with stop := true })
  | .env a =>
      if fallbackOutside id a then
        (s.router.step a).map fun r => (r.1, { s with router := r.2 })
      else none

end FallbackState

/-- One item, popped at some point of a run of the Python router of the given depth. -/
def fallbackMachine (depth : Nat) (h : 0 < depth) (id : RequestId) (job : Job) :
    Machine FallbackState FallbackAction PythonEvent where
  init :=
    { router := .new depth h
      pc := .waiting
      push := .idle
      stop := false }
  step := FallbackState.step job id

/-- However the run went on an open router, the request is terminal once `_run_one` has
returned. -/
def FallbackLeavesTerminal (id : RequestId) (job : Job) : Prop :=
  ∀ depth (h : 0 < depth) as es s,
    (fallbackMachine depth h id job).run (fallbackMachine depth h id job).init as = some (es, s) →
    (∀ a ∈ as, a ≠ .env .shutdown) → s.pc = .returned → s.router.Terminal id

/-! ## A returned request is terminal -/

namespace FallbackState

section Knowledge

variable (job : Job) (id : RequestId)

/-- The frames `pre` have all passed. -/
structure Passed (r : PythonRouter) (pre : List EngineFrame) : Prop where
  wellFormed : job.wellFormed = true
  unchecked : Unchecked pre
  recorded : r.Recorded id (pre.getLast?.map EngineFrame.index)

/-- What the driver may rely on at a program counter, of a request that has not ended. -/
def AtPc (r : PythonRouter) (push : FallbackFuture) : Pc → Prop
  | .waiting => push = .idle ∧ (r.requests id = none ∨ r.Recorded id none)
  | .pulling rest index => push = .idle ∧
      ∃ pre, job.frames = pre ++ rest ∧ index = lastIndex pre ∧ Passed job id r pre
  | .checkingStop frame rest | .checkingState frame rest => push = .idle ∧
      ∃ pre, job.frames = pre ++ frame :: rest ∧ Passed job id r pre
  | .awaitingFrame rest index => ∃ pre frame line, job.frames = pre ++ frame :: rest ∧
      index = frame.index ∧ frame.line = some line ∧
      (push = .scheduled frame.index line frame.isFinal ∧ Passed job id r pre ∨
        push = .done true ∧ Passed job id r (pre ++ [frame]) ∨
        push = .done false ∧ ∃ last, r.Recorded id last)
  | .awaitingMarker => ((∃ index payload, push = .scheduled index payload true) ∨
      push = .done false) ∧ ∃ last, r.Recorded id last
  | .cancelling => ∃ last, r.Recorded id last
  | .awaitingCancel _ => False
  | .returned => job.StallsUnchecked

end Knowledge

variable {job : Job} {id : RequestId} {s t : FallbackState}

/-- What holds of the request in every state of a run. -/
def Inv (job : Job) (id : RequestId) (s : FallbackState) : Prop :=
  s.router.Terminal id ∨ AtPc job id s.router s.push s.pc

/-- A frame that the router has taken has passed, unless it is final. -/
theorem Passed.push {r : PythonRouter} {pre : List EngineFrame} {frame : EngineFrame}
    {line : List UInt8} {e : PythonEntry} (hpassed : Passed job id r pre)
    (hline : frame.line = some line) (hentry : r.requests id = some e)
    (hstale : e.staleAgainst frame.index = none) (hroom : ¬ e.queue.Full) :
    (r.setEntry id (e.push ⟨id, frame.index, line, frame.isFinal⟩ hroom)).Terminal id ∨
      Passed job id (r.setEntry id (e.push ⟨id, frame.index, line, frame.isFinal⟩ hroom))
        (pre ++ [frame]) := by
  obtain ⟨e', hentry', hlast⟩ := hpassed.recorded
  cases hentry.symm.trans hentry'
  cases hfinal : frame.isFinal with
  | true => exact Or.inl ⟨_, Function.update_self .., rfl⟩
  | false =>
      refine Or.inr ⟨hpassed.wellFormed, hpassed.unchecked.append hline hfinal ?_, _,
        Function.update_self .., ?_⟩
      · intro last hmem
        rw [Option.mem_def.mp hmem, Option.map_some] at hlast
        unfold PythonEntry.staleAgainst at hstale
        rw [hlast] at hstale
        by_contra hle
        simp [Int.not_lt.mp hle] at hstale
      · simp

/-- What others do to the router leaves what the driver knows. -/
theorem AtPc.others {r r' : PythonRouter} {push : FallbackFuture} {pc : Pc} {a : PythonCall}
    {es : List PythonEvent} (hat : AtPc job id r push pc) (hout : fallbackOutside id a = true)
    (h : r.step a = some (es, r')) : AtPc job id r' push pc := by
  have hnot : ¬ ∃ frame, a = .pushFrame frame ∧ frame.requestId = id := by
    rintro ⟨frame, rfl, hid⟩
    simp [fallbackOutside, hid] at hout
  have hrecorded : ∀ {last}, r.Recorded id last → r'.Recorded id last :=
    fun hrecorded => hrecorded.step h hnot
  have hpassed : ∀ {pre}, Passed job id r pre → Passed job id r' pre :=
    fun hpassed => ⟨hpassed.wellFormed, hpassed.unchecked, hrecorded hpassed.recorded⟩
  cases pc with
  | waiting =>
      obtain ⟨hidle, hfree | hnone⟩ := hat
      · exact ⟨hidle, PythonRouter.step_unknown h hfree⟩
      · exact ⟨hidle, Or.inr (hrecorded hnone)⟩
  | pulling rest index =>
      obtain ⟨hidle, pre, hframes, hindex, hpre⟩ := hat
      exact ⟨hidle, pre, hframes, hindex, hpassed hpre⟩
  | checkingStop frame rest | checkingState frame rest =>
      obtain ⟨hidle, pre, hframes, hpre⟩ := hat
      exact ⟨hidle, pre, hframes, hpassed hpre⟩
  | awaitingFrame rest index =>
      obtain ⟨pre, frame, line, hframes, hindex, hline, hpush⟩ := hat
      refine ⟨pre, frame, line, hframes, hindex, hline, ?_⟩
      rcases hpush with ⟨hpush, hpre⟩ | ⟨hpush, hpre⟩ | ⟨hpush, last, hlast⟩
      · exact Or.inl ⟨hpush, hpassed hpre⟩
      · exact Or.inr (Or.inl ⟨hpush, hpassed hpre⟩)
      · exact Or.inr (Or.inr ⟨hpush, last, hrecorded hlast⟩)
  | awaitingMarker =>
      obtain ⟨hpush, last, hlast⟩ := hat
      exact ⟨hpush, last, hrecorded hlast⟩
  | cancelling =>
      obtain ⟨last, hlast⟩ := hat
      exact ⟨last, hrecorded hlast⟩
  | awaitingCancel c => exact hat
  | returned => exact hat

/-- The driver's own thread. -/
theorem AtPc.advance (hat : AtPc job id s.router s.push s.pc) (h : s.advance job id = some t) :
    t.Inv job id := by
  unfold FallbackState.advance at h
  split at h
  · next frame rest index hpc =>
      cases h
      rw [hpc] at hat
      obtain ⟨hidle, pre, hframes, -, hpre⟩ := hat
      exact Or.inr ⟨hidle, pre, hframes, hpre⟩
  · next index hpc =>
      rw [hpc] at hat
      obtain ⟨hidle, pre, hframes, hindex, hpre⟩ := hat
      rw [List.append_nil] at hframes
      split at h
      · cases h
        exact Or.inr ⟨_, hpre.recorded⟩
      · next hraises =>
          split at h
          · cases h
            exact Or.inr ⟨Or.inl ⟨_, _, rfl⟩, _, hpre.recorded⟩
          · next hmarker =>
              cases h
              refine Or.inr ⟨hpre.wellFormed, by simpa using hraises, hframes ▸ hpre.unchecked,
                fun hpos => ?_⟩
              rw [hframes, ← hindex] at hpos ⊢
              by_contra hne
              exact hmarker ⟨hpos, hne⟩
  · next frame rest hpc =>
      rw [hpc] at hat
      obtain ⟨hidle, pre, hframes, hpre⟩ := hat
      split at h
      · cases h
        exact Or.inr ⟨_, hpre.recorded⟩
      · cases h
        exact Or.inr ⟨hidle, pre, hframes, hpre⟩
  · next frame rest hpc =>
      rw [hpc] at hat
      obtain ⟨hidle, pre, hframes, hpre⟩ := hat
      split at h
      · next hstate =>
          cases h
          obtain ⟨e, hentry, hcancelled⟩ := Option.map_eq_some_iff.mp hstate
          exact Or.inl ⟨e, hentry, by rw [hcancelled]; rfl⟩
      · split at h
        · cases h
          exact Or.inr ⟨_, hpre.recorded⟩
        · next line hline =>
            cases h
            exact Or.inr ⟨pre, frame, line, hframes, rfl, hline, Or.inl ⟨rfl, hpre⟩⟩
  · next rest index hpc =>
      rw [hpc] at hat
      obtain ⟨pre, frame, line, hframes, rfl, hline, hpush⟩ := hat
      split at h
      · next hdone =>
          cases h
          rw [hdone] at hpush
          rcases hpush with ⟨hpush, -⟩ | ⟨-, hpre⟩ | ⟨hpush, -⟩
          · cases hpush
          · exact Or.inr ⟨rfl, pre ++ [frame], by simp [hframes], (lastIndex_append pre frame).symm,
              hpre⟩
          · cases hpush
      · next hdone =>
          cases h
          rw [hdone] at hpush
          rcases hpush with ⟨hpush, -⟩ | ⟨hpush, -⟩ | ⟨-, hlast⟩
          · cases hpush
          · cases hpush
          · exact Or.inr hlast
      · cases h
  · next hpc =>
      rw [hpc] at hat
      obtain ⟨hpush, hlast⟩ := hat
      split at h
      · next hdone =>
          rw [hdone] at hpush
          rcases hpush with ⟨index, payload, hpush⟩ | hpush
          · cases hpush
          · cases hpush
      · cases h
        exact Or.inr hlast
      · cases h
  all_goals cases h

/-- The event loop starts the push. -/
theorem AtPc.launch {index : Int} {payload : List UInt8} {isFinal : Bool}
    (hat : AtPc job id s.router s.push s.pc) (hpush : s.push = .scheduled index payload isFinal) :
    Inv job id { s with
      router := (s.router.pushFrame ⟨id, index, payload, isFinal⟩).2
      push := .done (succeeded (s.router.pushFrame ⟨id, index, payload, isFinal⟩).1) } := by
  have hcases := s.router.pushFrame_cases ⟨id, index, payload, isFinal⟩
  dsimp only at hcases
  have hknown : ∀ {last}, s.router.Recorded id last →
      ∃ last, (s.router.pushFrame ⟨id, index, payload, isFinal⟩).2.Recorded id last := by
    intro last hlast
    rcases hcases with ⟨-, hsame⟩ | ⟨e, hroom, -, -, -, htaken⟩
    · rw [hsame]
      exact ⟨last, hlast⟩
    · rw [htaken]
      exact ⟨_, _, Function.update_self .., rfl⟩
  cases hpc : s.pc with
  | waiting | pulling | checkingStop | checkingState =>
      rw [hpc, hpush] at hat
      cases hat.1
  | awaitingFrame rest i =>
      rw [hpc, hpush] at hat
      obtain ⟨pre, frame, line, hframes, hindex, hline, hsame | ⟨hdone, -⟩ | ⟨hdone, -⟩⟩ := hat
      · obtain ⟨hscheduled, hpre⟩ := hsame
        cases hscheduled
        rcases hcases with ⟨⟨err, herr⟩, hsame⟩ | ⟨e, hroom, hentry, -, hstale, htaken⟩
        · refine Or.inr ?_
          dsimp only
          rw [hsame, herr]
          exact ⟨pre, frame, payload, hframes, hindex, hline,
            Or.inr (Or.inr ⟨rfl, _, hpre.recorded⟩)⟩
        · rw [htaken]
          rcases hpre.push hline hentry hstale hroom with hterminal | hpassed
          · exact Or.inl hterminal
          · exact Or.inr ⟨pre, frame, payload, hframes, hindex, hline, Or.inr (Or.inl ⟨rfl, hpassed⟩)⟩
      · cases hdone
      · cases hdone
  | awaitingMarker =>
      rw [hpc, hpush] at hat
      obtain ⟨⟨index', payload', hscheduled⟩ | hdone, last, hlast⟩ := hat
      · cases hscheduled
        rcases hcases with ⟨⟨err, herr⟩, hsame⟩ | ⟨e, hroom, -, -, -, htaken⟩
        · refine Or.inr ?_
          dsimp only
          rw [hsame, herr]
          exact ⟨Or.inr rfl, last, hlast⟩
        · rw [htaken]
          exact Or.inl ⟨_, Function.update_self .., rfl⟩
      · cases hdone
  | cancelling =>
      rw [hpc] at hat
      obtain ⟨last, hlast⟩ := hat
      exact Or.inr (hknown hlast)
  | awaitingCancel c =>
      rw [hpc] at hat
      exact hat.elim
  | returned =>
      rw [hpc] at hat
      exact Or.inr hat

theorem Inv.init (job : Job) (id : RequestId) (depth : Nat) (h : 0 < depth) :
    Inv job id (fallbackMachine depth h id job).init :=
  Or.inr ⟨rfl, Or.inl rfl⟩

/-- What a step does to the router is a call of it, if anything. -/
theorem step_router {a : FallbackAction} {es : List PythonEvent}
    (h : s.step job id a = some (es, t)) :
    t.router = s.router ∨ ∃ c log, s.router.step c = some (log, t.router) := by
  cases a with
  | pop =>
      simp only [step] at h
      split at h
      · cases h
        exact Or.inl rfl
      · cases h
  | advance =>
      obtain ⟨u, hadvance, heq⟩ := Option.map_eq_some_iff.mp h
      cases heq
      unfold FallbackState.advance at hadvance
      repeat' split at hadvance
      all_goals first
        | cases hadvance; exact Or.inl rfl
        | cases hadvance
  | launch =>
      simp only [step] at h
      split at h
      · cases h
        exact Or.inr ⟨.pushFrame _, _, rfl⟩
      · cases h
  | timeout =>
      simp only [step] at h
      split at h
      · cases h
      · cases h
        exact Or.inl rfl
  | cancel =>
      simp only [step] at h
      split at h
      · cases h
        exact Or.inr ⟨.cancel id, _, rfl⟩
      · cases h
  | setStop =>
      cases h
      exact Or.inl rfl
  | env c =>
      simp only [step] at h
      split at h
      · obtain ⟨r, hstep, heq⟩ := Option.map_eq_some_iff.mp h
        cases heq
        exact Or.inr ⟨c, r.1, hstep⟩
      · cases h

/-- Every step keeps the invariant. -/
theorem Inv.step {a : FallbackAction} {es : List PythonEvent} (hinv : Inv job id s)
    (h : s.step job id a = some (es, t)) : Inv job id t := by
  rcases hinv with hterminal | hat
  · rcases step_router h with hsame | ⟨c, log, hstep⟩
    · exact Or.inl (hsame ▸ hterminal)
    · exact Or.inl (hterminal.step hstep)
  cases a with
  | pop =>
      simp only [FallbackState.step] at h
      split at h
      · next e hpc hentry =>
          cases h
          rw [hpc] at hat
          obtain ⟨hidle, hfree | hnone⟩ := hat
          · cases hfree.symm.trans hentry
          · cases hform : job.wellFormed with
            | true => exact Or.inr ⟨hidle, [], rfl, rfl, hform, .nil, hnone⟩
            | false => exact Or.inr ⟨_, hnone⟩
      · cases h
  | advance =>
      obtain ⟨u, hadvance, heq⟩ := Option.map_eq_some_iff.mp h
      cases heq
      exact hat.advance hadvance
  | launch =>
      simp only [FallbackState.step] at h
      split at h
      · next index payload isFinal hpush =>
          cases h
          exact hat.launch hpush
      · cases h
  | timeout =>
      simp only [FallbackState.step] at h
      split at h
      · cases h
      · next next hpc =>
          cases h
          cases hpc' : s.pc with
          | awaitingFrame rest index =>
              rw [hpc'] at hat
              obtain ⟨pre, frame, line, -, -, -, ⟨-, hpre⟩ | ⟨-, hpre⟩ | ⟨-, hlast⟩⟩ := hat
              · exact Or.inr ⟨_, hpre.recorded⟩
              · exact Or.inr ⟨_, hpre.recorded⟩
              · exact Or.inr hlast
          | awaitingMarker =>
              rw [hpc'] at hat
              exact Or.inr hat.2
          | _ =>
              rw [hpc'] at hpc
              cases hpc
  | cancel =>
      simp only [FallbackState.step] at h
      split at h
      · next hpc =>
          cases h
          rw [hpc] at hat
          obtain ⟨last, e, hentry, -⟩ := hat
          exact Or.inl (PythonRouter.cancel_terminal ⟨e, hentry⟩)
      · cases h
  | setStop =>
      cases h
      exact Or.inr hat
  | env c =>
      simp only [FallbackState.step] at h
      split at h
      · next hout =>
          obtain ⟨r, hstep, heq⟩ := Option.map_eq_some_iff.mp h
          cases heq
          exact Or.inr (hat.others hout hstep)
      · cases h

/-- A job that does not stall is left terminal. -/
theorem fallbackLeavesTerminal_of_not_stalls (hcloses : ¬ job.StallsUnchecked) :
    FallbackLeavesTerminal id job := by
  intro depth hdepth as es s hrun _ hreturned
  have hinv : Inv job id s :=
    Machine.invariant_run (fun _ _ _ _ hinv hstep => hinv.step hstep)
      (.init job id depth hdepth) hrun
  rcases hinv with hterminal | hat
  · exact hterminal
  · rw [hreturned] at hat
    exact absurd hat hcloses

/-! ## A job that stalls -/

/-- About to pull: nothing is cancelled or stopped, and there is room for `room` frames. -/
structure Calm (id : RequestId) (room : Nat) (rest : List EngineFrame) (index : Int)
    (last : Option Int) (s : FallbackState) : Prop where
  pc : s.pc = .pulling rest index
  stop : s.stop = false
  entry : ∃ e, s.router.requests id = some e ∧ e.state.isTerminal = false ∧
    e.lastFrameIndex = last ∧ e.queue.items.length + room ≤ e.queue.maxsize

theorem Calm.not_terminal {room : Nat} {rest : List EngineFrame} {index : Int}
    {last : Option Int} (h : Calm id room rest index last s) : ¬ s.router.Terminal id := by
  rintro ⟨e', hentry', hend⟩
  obtain ⟨e, hentry, hlive, -⟩ := h.entry
  cases hentry.symm.trans hentry'
  rw [hlive] at hend
  cases hend

/-- The labels of a run on an open router. -/
def KeepsOpen (a : FallbackAction) : Prop := a ≠ .env .shutdown

variable {depth : Nat} {hdepth : 0 < depth}

theorem reaches_step {a : FallbackAction} {es : List PythonEvent}
    (h : s.step job id a = some (es, t)) (ha : KeepsOpen a) :
    (fallbackMachine depth hdepth id job).Reaches KeepsOpen s t :=
  .single ha h

theorem reaches_advance (h : s.advance job id = some t) :
    (fallbackMachine depth hdepth id job).Reaches KeepsOpen s t := by
  have hstep : s.step job id .advance = some ([], t) := by
    simp only [step, h, Option.map_some]
  exact reaches_step hstep (by simp [KeepsOpen])

variable (job depth hdepth) in
/-- A frame that passes leaves the driver about to pull the next one. -/
theorem Calm.push {room : Nat} {frame : EngineFrame} {rest : List EngineFrame} {index : Int}
    {last : Option Int} {line : List UInt8} (h : Calm id (room + 1) (frame :: rest) index last s)
    (hline : frame.line = some line) (hafter : ∀ j, last = some j → j < frame.index)
    (hfinal : frame.isFinal = false) :
    ∃ t, (fallbackMachine depth hdepth id job).Reaches KeepsOpen s t ∧
      Calm id room rest frame.index (some frame.index) t := by
  obtain ⟨e, hentry, hlive, hlast, hfits⟩ := h.entry
  have hroom : ¬ e.queue.Full := by
    unfold AsyncQueue.Full
    omega
  have hstale : e.staleAgainst frame.index = none := by
    unfold PythonEntry.staleAgainst
    rw [hlast]
    cases last with
    | none => rfl
    | some j => exact if_neg (Int.not_le.mpr (hafter j rfl))
  have hstate : s.router.state id ≠ some .cancelled := by
    rw [PythonRouter.state, hentry]
    intro hcancelled
    rw [Option.some.inj hcancelled] at hlive
    cases hlive
  let queued := s.router.setEntry id (e.push ⟨id, frame.index, line, false⟩ hroom)
  have hpull : s.advance job id = some { s with pc := .checkingStop frame rest } := by
    simp only [FallbackState.advance, h.pc]
  have hcheck : FallbackState.advance job id { s with pc := .checkingStop frame rest } =
      some { s with pc := .checkingState frame rest } := by
    simp only [FallbackState.advance, h.stop, Bool.false_eq_true, if_false]
  have hschedule : FallbackState.advance job id { s with pc := .checkingState frame rest } =
      some { s with
        pc := .awaitingFrame rest frame.index
        push := .scheduled frame.index line false } := by
    simp only [FallbackState.advance, hstate, if_false, hline, hfinal]
  have hlaunch : FallbackState.step job id { s with
        pc := .awaitingFrame rest frame.index
        push := .scheduled frame.index line false } .launch =
      some ([], { s with
        router := queued, pc := .awaitingFrame rest frame.index, push := .done true }) := by
    have hpush : s.router.pushFrame ⟨id, frame.index, line, false⟩ = (.ok (), queued) := by
      simp [PythonRouter.pushFrame, hentry, hlive, hstale, hroom, queued]
    simp only [step, hpush, succeeded]
  have hcollect : FallbackState.advance job id { s with
        router := queued, pc := .awaitingFrame rest frame.index, push := .done true } =
      some { s with router := queued, pc := .pulling rest frame.index, push := .idle } := by
    simp only [FallbackState.advance]
  refine ⟨_, (reaches_advance hpull).trans ((reaches_advance hcheck).trans
    ((reaches_advance hschedule).trans ((reaches_step hlaunch (by simp [KeepsOpen])).trans
      (reaches_advance hcollect)))), rfl, h.stop, _, Function.update_self .., rfl, rfl, ?_⟩
  simp only [PythonEntry.push_queue, AsyncQueue.put_items, AsyncQueue.put_maxsize,
    List.length_append, List.length_singleton]
  omega

variable (job depth hdepth) in
/-- All frames of an engine run that passes unchecked. -/
theorem Calm.drain {frames : List EngineFrame} :
    ∀ {index : Int} {last : Option Int} {s : FallbackState},
      Calm id frames.length frames index last s → Unchecked frames →
      (∀ frame ∈ frames.head?, ∀ j, last = some j → j < frame.index) →
      ∃ t last', (fallbackMachine depth hdepth id job).Reaches KeepsOpen s t ∧
        Calm id 0 [] ((frames.getLast?.map EngineFrame.index).getD index) last' t := by
  induction frames with
  | nil =>
      intro index last s h _ _
      exact ⟨s, last, .refl s, h⟩
  | cons frame rest ih =>
      intro index last s h hunchecked hfirst
      obtain ⟨line, hline⟩ := hunchecked.encoded frame List.mem_cons_self
      obtain ⟨t, hreach, ht⟩ := h.push job depth hdepth hline (hfirst frame rfl)
        (hunchecked.notFinal frame List.mem_cons_self)
      obtain ⟨hnext, hincreasing⟩ := List.isChain_cons.mp hunchecked.increasing
      have hrest : Unchecked rest :=
        { encoded := fun g hg => hunchecked.encoded g (List.mem_cons_of_mem frame hg)
          increasing := hincreasing
          notFinal := fun g hg => hunchecked.notFinal g (List.mem_cons_of_mem frame hg) }
      obtain ⟨u, last', hreach', hu⟩ := ih ht hrest fun next hhead j hj => by
        cases hj
        exact hnext next hhead
      refine ⟨u, last', hreach.trans hreach', ?_⟩
      rw [List.getLast?_cons]
      cases hlast : rest.getLast? with
      | none => simpa [hlast] using hu
      | some g => simpa [hlast] using hu

/-- The request accepted and popped, with nothing else going on. -/
theorem exists_calm (id : RequestId) (job : Job) (depth : Nat) (hdepth : 0 < depth)
    (hform : job.wellFormed = true) :
    ∃ t, (fallbackMachine depth hdepth id job).Reaches KeepsOpen
        (fallbackMachine depth hdepth id job).init t ∧
      Calm id depth job.frames (-1) none t := by
  let accepted := (PythonRouter.new depth hdepth).setEntry id (.accepted depth hdepth)
  have haccept : FallbackState.step job id (fallbackMachine depth hdepth id job).init
      (.env (.accept id "normal" fun _ _ => .ok ())) = some ([.accepted id (.ok ())],
        { (fallbackMachine depth hdepth id job).init with router := accepted }) := by
    rfl
  have hpop : FallbackState.step job id
      { (fallbackMachine depth hdepth id job).init with router := accepted } .pop =
        some ([], { (fallbackMachine depth hdepth id job).init with
          router := accepted
          pc := .pulling job.frames (-1) }) := by
    simp [step, fallbackMachine, accepted, hform]
  refine ⟨_, (reaches_step haccept (by simp [KeepsOpen])).trans
    (reaches_step hpop (by simp [KeepsOpen])), rfl, rfl, _, Function.update_self .., rfl, rfl, ?_⟩
  simp

/-- A job that stalls has a run that leaves its request live. -/
theorem not_fallbackLeavesTerminal_of_stalls (hstalls : job.StallsUnchecked) :
    ¬ FallbackLeavesTerminal id job := by
  intro hleaves
  obtain ⟨s, hreach, hs⟩ := exists_calm id job (job.frames.length + 1) (Nat.succ_pos _)
    hstalls.wellFormed
  have hcalm : Calm id job.frames.length job.frames (-1) none s := by
    obtain ⟨e, hentry, hlive, hlast, hfits⟩ := hs.entry
    exact ⟨hs.pc, hs.stop, e, hentry, hlive, hlast, by omega⟩
  obtain ⟨t, last, hreach', ht⟩ := hcalm.drain job (job.frames.length + 1) (Nat.succ_pos _)
    hstalls.unchecked (by simp)
  have hexhausted : t.advance job id = some { t with pc := .returned } := by
    have hmarker : ¬ (0 ≤ lastIndex job.frames ∧ lastIndex job.frames ≠ job.numFrames - 1) := by
      rintro ⟨hindex, hne⟩
      exact hne (hstalls.noMarker hindex)
    have hpc : t.pc = .pulling [] (lastIndex job.frames) := ht.pc
    simp only [FallbackState.advance, hpc, hstalls.exhausts, Bool.false_eq_true, if_false,
      hmarker]
  obtain ⟨as, es, hopen, hrun⟩ := (hreach.trans hreach').trans (reaches_advance hexhausted)
  have hterminal := hleaves _ _ as es _ hrun hopen rfl
  exact ht.not_terminal hterminal

end FallbackState

/-- An engine that yields no frame. -/
def noFrames : Job := ⟨true, 16, [], false, []⟩

/-- The item is popped, the engine ends at once and the driver returns. -/
def noFramesRun : List Action :=
  [.env (.invoke 0 (.accept ⟨⟨"a"⟩, .normal⟩)), .env (.ensureOpen 0), .env (.enter 0),
    .env (.submitted 0 (.ok ())), .pop, .advance]

/-- An engine that yields one frame, with a negative index. -/
def negativeIndex : Job := ⟨true, 16, [⟨-1, 16, some []⟩], false, []⟩

/-- The item is popped, the frame is pushed, and the driver returns without a marker. -/
def negativeIndexRun : List FallbackAction :=
  [.env (.accept ⟨"a"⟩ "normal" fun _ _ => .ok ()), .pop, .advance, .advance, .advance, .launch,
    .advance, .advance]

end Repercep.Driver
