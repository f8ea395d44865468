import Repercep.Driver.Pushes
import Mathlib.Data.List.Chain
set_option autoImplicit false

/-!
# The engine driver: a returned request is terminal

When `_run_one` returns, the request is meant to be `Complete`, `Cancelled` or
`Failed`.  Every failure path cancels it, and a final frame or the synthetic marker
completes it.  One way through the loop does neither: the engine ends normally,
every frame it yielded was accepted and none was final, and the marker is not due,
because there was no frame at all or because the last index is the one
`num_frames` announces.
-/

namespace Repercep.Driver

open Repercep.Foundation
open Repercep.Router

/-- The loop variable `index` after these frames. -/
def lastIndex (frames : List EngineFrame) : Int :=
  (frames.getLast?.map EngineFrame.index).getD (-1)

/-- The index the router has recorded after these frames. -/
def recordedIndex (frames : List EngineFrame) : Option Nat :=
  frames.getLast?.map fun frame => frame.index.toNat

/-- Frames that all pass, none of them final, on a router that takes every index: each is
encoded, and its index is beyond the one before. -/
structure Unchecked (frames : List EngineFrame) : Prop where
  encoded : ∀ frame ∈ frames, ∃ line, frame.line = some line
  increasing : frames.IsChain fun frame next => frame.index < next.index
  notFinal : ∀ frame ∈ frames, frame.isFinal = false

/-- Frames that all pass on the Rust router: each index is a `u64`, too. -/
structure Unfinished (frames : List EngineFrame) : Prop extends Unchecked frames where
  inRange : ∀ frame ∈ frames, ∃ i, frameIndex? frame.index = some i

/-- The driver gets through the whole job without a failure, a final frame or the
marker. -/
structure Job.Stalls (job : Job) : Prop where
  wellFormed : job.wellFormed = true
  exhausts : job.raises = false
  unfinished : Unfinished job.frames
  noMarker : 0 ≤ lastIndex job.frames → lastIndex job.frames = job.numFrames - 1

/-- The same on a router that takes every index. -/
structure Job.StallsUnchecked (job : Job) : Prop where
  wellFormed : job.wellFormed = true
  exhausts : job.raises = false
  unchecked : Unchecked job.frames
  noMarker : 0 ≤ lastIndex job.frames → lastIndex job.frames = job.numFrames - 1

/-- What tells the two apart is an index that is no `u64`. -/
theorem Job.stalls_iff {job : Job} : job.Stalls ↔ job.StallsUnchecked ∧
    ∀ frame ∈ job.frames, ∃ i, frameIndex? frame.index = some i := by
  constructor
  · intro h
    exact ⟨⟨h.wellFormed, h.exhausts, h.unfinished.toUnchecked, h.noMarker⟩, h.unfinished.inRange⟩
  · rintro ⟨h, hrange⟩
    exact ⟨h.wellFormed, h.exhausts, ⟨h.unchecked, hrange⟩, h.noMarker⟩

/-- However the run went on an open router, the request is terminal once
`_run_one` has returned. -/
def LeavesTerminal (id : RequestId) (job : Job) : Prop :=
  ∀ depth as es s, (machine depth id job).run (machine depth id job).init as = some (es, s) →
    (∀ a ∈ as, a ≠ .env .shutdown) → s.pc = .returned → s.router.inner.Terminal id

theorem recordedIndex_append (pre : List EngineFrame) (frame : EngineFrame) :
    recordedIndex (pre ++ [frame]) = some frame.index.toNat := by
  simp [recordedIndex]

theorem lastIndex_append (pre : List EngineFrame) (frame : EngineFrame) :
    lastIndex (pre ++ [frame]) = frame.index := by
  simp [lastIndex]

theorem Unchecked.nil : Unchecked [] where
  encoded := by simp
  increasing := .nil
  notFinal := by simp

/-- One more frame passes when it is encoded, not final, and beyond the one before. -/
theorem Unchecked.append {pre : List EngineFrame} {frame : EngineFrame} {line : List UInt8}
    (hpre : Unchecked pre) (hline : frame.line = some line) (hnotFinal : frame.isFinal = false)
    (hafter : ∀ last ∈ pre.getLast?, last.index < frame.index) : Unchecked (pre ++ [frame]) where
  encoded := by
    intro g hg
    rcases List.mem_append.mp hg with hg | hg
    · exact hpre.encoded g hg
    · rw [List.mem_singleton.mp hg]
      exact ⟨line, hline⟩
  increasing := by
    refine List.isChain_append.mpr ⟨hpre.increasing, .singleton frame, ?_⟩
    intro g hg next hnext
    cases hnext
    exact hafter g hg
  notFinal := by
    intro g hg
    rcases List.mem_append.mp hg with hg | hg
    · exact hpre.notFinal g hg
    · rw [List.mem_singleton.mp hg]
      exact hnotFinal

theorem Unfinished.nil : Unfinished [] where
  toUnchecked := .nil
  inRange := by simp

/-- One more frame passes when it is encoded, in range, not final, and beyond the
last recorded index. -/
theorem unfinished_append {pre : List EngineFrame} {frame : EngineFrame} {line : List UInt8}
    {i : Nat} (hpre : Unfinished pre) (hline : frame.line = some line)
    (hindex : frameIndex? frame.index = some i) (hnotFinal : frame.isFinal = false)
    (hafter : ∀ last, recordedIndex pre = some last → last < i) :
    Unfinished (pre ++ [frame]) where
  toUnchecked := by
    refine hpre.toUnchecked.append hline hnotFinal ?_
    intro g hg
    have hlast : recordedIndex pre = some g.index.toNat := by
      unfold recordedIndex
      rw [Option.mem_def.mp hg]
      rfl
    obtain ⟨hpos, rfl⟩ := frameIndex?_eq_some hindex
    have hlt := hafter _ hlast
    omega
  inRange := by
    intro g hg
    rcases List.mem_append.mp hg with hg | hg
    · exact hpre.inRange g hg
    · rw [List.mem_singleton.mp hg]
      exact ⟨i, hindex⟩

/-! ## What the driver knows at each program counter -/

section Stages

variable (job : Job) (id : RequestId) (router : Sys) (push : PushFuture)

/-- The push the driver has scheduled, `last` being the last recorded index before. -/
inductive Outstanding (index : Int) (payload : List UInt8) (isFinal : Bool)
    (last : Option Nat) : Prop where
  | scheduled (hpush : push = .scheduled index payload isFinal)
      (hlast : router.inner.Recorded id last)
  | running {c : CallId} {i : Nat} (hpush : push = .running c)
      (hindex : frameIndex? index = some i)
      (hstage : router.PushStage c ⟨id, i, payload, isFinal⟩ last)
  | failed (hpush : push = .failed)

/-- The request has ended, or the frames so far have all passed. -/
def Passed (pre : List EngineFrame) : Prop :=
  router.inner.Terminal id ∨ (job.wellFormed = true ∧ Unfinished pre)

/-- Between two pushes: the frames `pre` have been dealt with. -/
structure Reached (pre : List EngineFrame) : Prop where
  passed : Passed job id router pre
  recorded : router.inner.Recorded id (recordedIndex pre)

/-- What the driver may rely on at a program counter. -/
def AtPc : Pc → Prop
  | .waiting => router.inner.requests id = none ∨ router.inner.Recorded id none
  | .pulling rest index => ∃ pre, job.frames = pre ++ rest ∧ index = lastIndex pre ∧
      Reached job id router pre
  | .checkingStop frame rest | .checkingState frame rest =>
      ∃ pre, job.frames = pre ++ frame :: rest ∧ Reached job id router pre
  | .awaitingFrame rest index => ∃ pre frame line, job.frames = pre ++ frame :: rest ∧
      index = frame.index ∧ frame.line = some line ∧ Passed job id router pre ∧
      Outstanding id router push frame.index line frame.isFinal (recordedIndex pre)
  | .awaitingMarker => ∃ index payload last, Outstanding id router push index payload true last
  | .cancelling => True
  | .awaitingCancel c => router.CancelStage c id
  | .returned => router.inner.Terminal id ∨ job.Stalls

end Stages

/-- What the driver knows of a request it has popped, whether the router is open or not. -/
structure Tracked (job : Job) (id : RequestId) (s : State) : Prop where
  solo : Solo id s
  known : s.pc ≠ .waiting → ∃ e, s.router.inner.requests id = some e
  atPc : AtPc job id s.router s.push s.pc

/-- What holds of the request in every state of a run on an open router. -/
structure Inv (job : Job) (id : RequestId) (s : State) : Prop where
  solo : Solo id s
  isOpen : s.router.inner.shuttingDown = false
  known : s.pc ≠ .waiting → ∃ e, s.router.inner.requests id = some e
  atPc : AtPc job id s.router s.push s.pc

theorem Inv.tracked {job : Job} {id : RequestId} {s : State} (hinv : Inv job id s) :
    Tracked job id s := ⟨hinv.solo, hinv.known, hinv.atPc⟩

/-- The step turns no cancel of a live request away because the router is shut. -/
def Unrefused (id : RequestId) (s : State) (a : Action) : Prop :=
  ∀ c, a = .env (.ensureOpen c) → s.pc = .awaitingCancel c →
    s.router.inner.shuttingDown = true → s.router.inner.Terminal id

theorem Inv.init (job : Job) (id : RequestId) (depth : Nat) :
    Inv job id (machine depth id job).init where
  solo := .init depth id job
  isOpen := rfl
  known := fun hpc => absurd rfl hpc
  atPc := Or.inl rfl

/-! ## Router steps -/

section RouterSteps

variable {job : Job} {id : RequestId} {router r : Sys} {push : PushFuture}
  {a : Router.Action} {es : List Event}

theorem Outstanding.router_step {index : Int} {payload : List UInt8} {isFinal : Bool}
    {last : Option Nat} (hout : Outstanding id router push index payload isFinal last)
    (hkept : router.Kept id) (hlone : Lone id router push) (h : router.Rule a es r) :
    Outstanding id r push index payload isFinal last := by
  cases hout with
  | scheduled hpush hlast =>
      refine .scheduled hpush (h.recorded hkept ?_ hlast)
      intro c frame _ hcall
      exact hlone.quiet (by simp [hpush]) ⟨_, hcall, rfl⟩
  | @running c i hpush hindex hstage =>
      refine .running hpush hindex (hstage.step h hkept ?_)
      intro d g hcall hid
      have hrunning := hlone d g ⟨_, hcall, rfl⟩ hid
      rw [hpush] at hrunning
      cases hrunning
      rfl
  | failed hpush => exact .failed hpush

theorem Passed.router_step {pre : List EngineFrame} (hpassed : Passed job id router pre)
    (hkept : router.Kept id) (h : router.Rule a es r) : Passed job id r pre := by
  rcases hpassed with hterminal | hpre
  · exact Or.inl (h.terminal hkept hterminal)
  · exact Or.inr hpre

theorem Reached.router_step {pre : List EngineFrame} (hreached : Reached job id router pre)
    (hkept : router.Kept id) (hlone : Lone id router .idle) (h : router.Rule a es r) :
    Reached job id r pre where
  passed := hreached.passed.router_step hkept h
  recorded := by
    refine h.recorded hkept ?_ hreached.recorded
    intro c frame _ hcall
    exact hlone.quiet (by simp) ⟨_, hcall, rfl⟩

/-- Whatever a caller of the router does, the driver still knows what it knew. -/
theorem AtPc.router_step {pc : Pc} (hat : AtPc job id router push pc)
    (hkept : router.Kept id) (hlone : Lone id router push)
    (hidle : pc.betweenPushes = true → push = .idle)
    (hunrefused : ∀ c, a = .ensureOpen c → pc = .awaitingCancel c →
      router.inner.shuttingDown = true → router.inner.Terminal id)
    (hknown : pc ≠ .waiting → ∃ e, router.inner.requests id = some e)
    (h : router.Rule a es r) : AtPc job id r push pc := by
  cases pc with
  | waiting =>
      cases hidle rfl
      rcases hat with hfree | hlast
      · rcases h.entry_none hfree with hfree | ⟨c, req, -, -, rfl, hregister⟩
        · exact Or.inl hfree
        · exact Or.inr (.of_register hregister)
      · refine Or.inr (h.recorded hkept ?_ hlast)
        intro c frame _ hcall
        exact hlone.quiet (by simp) ⟨_, hcall, rfl⟩
  | pulling rest index =>
      cases hidle rfl
      obtain ⟨pre, hframes, hindex, hreached⟩ := hat
      exact ⟨pre, hframes, hindex, hreached.router_step hkept hlone h⟩
  | checkingStop frame rest =>
      cases hidle rfl
      obtain ⟨pre, hframes, hreached⟩ := hat
      exact ⟨pre, hframes, hreached.router_step hkept hlone h⟩
  | checkingState frame rest =>
      cases hidle rfl
      obtain ⟨pre, hframes, hreached⟩ := hat
      exact ⟨pre, hframes, hreached.router_step hkept hlone h⟩
  | awaitingFrame rest index =>
      obtain ⟨pre, frame, line, hframes, hindex, hline, hpassed, hout⟩ := hat
      exact ⟨pre, frame, line, hframes, hindex, hline, hpassed.router_step hkept h,
        hout.router_step hkept hlone h⟩
  | awaitingMarker =>
      obtain ⟨index, payload, last, hout⟩ := hat
      exact ⟨index, payload, last, hout.router_step hkept hlone h⟩
  | cancelling => trivial
  | awaitingCancel c =>
      exact Sys.CancelStage.step hat h hkept (fun hopens => hunrefused c hopens rfl)
        (hknown (by simp))
  | returned =>
      rcases hat with hterminal | hstalls
      · exact Or.inl (h.terminal hkept hterminal)
      · exact Or.inr hstalls

/-- A request that is known stays known. -/
theorem known_step (hkept : router.Kept id) (h : router.Rule a es r) {pc : Pc}
    (hknown : pc ≠ .waiting → ∃ e, router.inner.requests id = some e) :
    pc ≠ .waiting → ∃ e, r.inner.requests id = some e := by
  intro hne
  obtain ⟨e, hentry⟩ := hknown hne
  obtain ⟨e', hentry', -⟩ := h.entry hkept hentry
  exact ⟨e', hentry'⟩

end RouterSteps

/-! ## Driver steps -/

section DriverSteps

variable {job : Job} {id : RequestId} {s t : State}

/-- A driver step that does not touch the router. -/
theorem Tracked.goto {pc : Pc} {push : PushFuture}
    (hsolo : Solo id { s with pc := pc, push := push })
    (hknown : ∃ e, s.router.inner.requests id = some e)
    (hat : AtPc job id s.router push pc) : Tracked job id { s with pc := pc, push := push } where
  solo := hsolo
  known := fun _ => hknown
  atPc := hat

/-- A push that has returned without error went through all its stages. -/
theorem Outstanding.accepted {router : Sys} {c : CallId} {index : Int} {payload : List UInt8}
    {isFinal : Bool} {last : Option Nat}
    (hout : Outstanding id router (.running c) index payload isFinal last)
    (hcall : router.calls c = some (.done (.ok ()))) :
    ∃ i, frameIndex? index = some i ∧ (∀ j, last = some j → j < i) ∧
      router.inner.Recorded id (some i) ∧
      (isFinal = true → router.inner.Terminal id) := by
  cases hout with
  | scheduled hpush => cases hpush
  | failed hpush => cases hpush
  | @running d i hpush hindex hstage =>
      cases hpush
      refine ⟨i, hindex, ?_⟩
      cases hstage with
      | accepted hcall' hafter hlast hfinal => exact ⟨hafter, hlast, hfinal⟩
      | called hcall' => cases hcall.symm.trans hcall'
      | opened hcall' => cases hcall.symm.trans hcall'
      | sending hcall' => cases hcall.symm.trans hcall'
      | completing hcall' => cases hcall.symm.trans hcall'
      | refused hcall' => cases hcall.symm.trans hcall'

/-- After an accepted frame the driver has dealt with one frame more. -/
theorem Passed.append {router : Sys} {pre : List EngineFrame} {frame : EngineFrame}
    {line : List UInt8} {i : Nat} (hpassed : Passed job id router pre)
    (hline : frame.line = some line) (hindex : frameIndex? frame.index = some i)
    (hafter : ∀ j, recordedIndex pre = some j → j < i)
    (hfinal : frame.isFinal = true → router.inner.Terminal id) :
    Passed job id router (pre ++ [frame]) := by
  rcases hpassed with hterminal | ⟨hform, hpre⟩
  · exact Or.inl hterminal
  · cases hisFinal : frame.isFinal with
    | true => exact Or.inl (hfinal hisFinal)
    | false => exact Or.inr ⟨hform, unfinished_append hpre hline hindex hisFinal hafter⟩

/-- Replacing a scheduled push by what became of it. -/
theorem AtPc.replace {pc : Pc} {router : Sys} {push push' : PushFuture}
    (hat : AtPc job id router push pc) (hbetween : pc.betweenPushes = false)
    (hpush : ∀ index payload isFinal last, Outstanding id router push index payload isFinal last →
      Outstanding id router push' index payload isFinal last) :
    AtPc job id router push' pc := by
  cases pc with
  | waiting => cases hbetween
  | pulling rest index => cases hbetween
  | checkingStop frame rest => cases hbetween
  | checkingState frame rest => cases hbetween
  | awaitingFrame rest index =>
      obtain ⟨pre, frame, line, hframes, hindex, hline, hpassed, hout⟩ := hat
      exact ⟨pre, frame, line, hframes, hindex, hline, hpassed, hpush _ _ _ _ hout⟩
  | awaitingMarker =>
      obtain ⟨index', payload', last, hout⟩ := hat
      exact ⟨index', payload', last, hpush _ _ _ _ hout⟩
  | cancelling => trivial
  | awaitingCancel d => exact hat
  | returned => exact hat

/-- The push the driver waits for has gone through. -/
theorem Tracked.pushed {next : Pc} {c : CallId} (htracked : Tracked job id s)
    (hpc : s.pc.onPushed = some next) (hpush : s.push = .running c)
    (hcall : s.router.calls c = some (.done (.ok ())))
    (hsolo : Solo id { s with pc := next, push := .idle }) :
    Tracked job id { s with pc := next, push := .idle } := by
  have hat := htracked.atPc
  have hknown := htracked.known
  rw [hpush] at hat
  cases hpc' : s.pc with
  | awaitingFrame rest index =>
      rw [hpc'] at hat hknown hpc
      cases hpc
      obtain ⟨pre, frame, line, hframes, rfl, hline, hpassed, hout⟩ := hat
      obtain ⟨i, hindex, hafter, hrecorded, hfinal⟩ := hout.accepted hcall
      refine .goto hsolo (hknown (by simp))
        ⟨pre ++ [frame], by simp [hframes], (lastIndex_append pre frame).symm,
          hpassed.append hline hindex hafter hfinal, ?_⟩
      rw [recordedIndex_append, ← (frameIndex?_eq_some hindex).2]
      exact hrecorded
  | awaitingMarker =>
      rw [hpc'] at hat hknown hpc
      cases hpc
      obtain ⟨index, payload, last, hout⟩ := hat
      obtain ⟨i, -, -, -, hfinal⟩ := hout.accepted hcall
      exact .goto hsolo (hknown (by simp)) (Or.inl (hfinal rfl))
  | waiting | pulling | checkingStop | checkingState | cancelling | awaitingCancel
  | returned =>
      rw [hpc'] at hpc
      cases hpc

/-- The scheduled push becomes a call of the router. -/
theorem Tracked.launch {c : CallId} {index : Int} {i : Nat} {payload : List UInt8}
    {isFinal : Bool} (htracked : Tracked job id s)
    (hpush : s.push = .scheduled index payload isFinal) (hindex : frameIndex? index = some i)
    (hfree : s.router.calls c = none)
    (hsolo : Solo id { s with
      router := s.router.advance c (.called (.pushFrame ⟨id, i, payload, isFinal⟩)) s.router.inner
      push := .running c }) :
    Tracked job id { s with
      router := s.router.advance c (.called (.pushFrame ⟨id, i, payload, isFinal⟩)) s.router.inner
      push := .running c } := by
  have hstep : s.router.Rule (.invoke c (.pushFrame ⟨id, i, payload, isFinal⟩)) []
      (s.router.advance c (.called (.pushFrame ⟨id, i, payload, isFinal⟩)) s.router.inner) :=
    .invoke hfree
  refine ⟨hsolo, htracked.known, ?_⟩
  have hmoved := htracked.atPc.router_step htracked.solo.kept htracked.solo.lone
    htracked.solo.idle (by simp) htracked.known hstep
  rw [hpush] at hmoved
  refine hmoved.replace (htracked.solo.not_between (by simp [hpush])) ?_
  intro index' payload' isFinal' last hout
  cases hout with
  | scheduled hsame hlast =>
      cases hsame
      exact .running rfl hindex (.called Sys.advance_calls_self hlast)
  | running hsame => cases hsame
  | failed hsame => cases hsame

/-- Every step that does not turn the driver's cancel away keeps what it knows. -/
theorem Tracked.step {a : Action} {es : List Event} (htracked : Tracked job id s)
    (hunrefused : Unrefused id s a) (h : s.Rule job id a es t) : Tracked job id t := by
  have hsolo := htracked.solo.step h
  have hat := htracked.atPc
  have hknown := htracked.known
  cases h with
  | @pop e hpc hentry hform =>
      rw [hpc] at hat
      rcases hat with hfree | hlast
      · cases hfree.symm.trans hentry
      · exact .goto hsolo ⟨e, hentry⟩ ⟨[], rfl, rfl, Or.inr ⟨hform, .nil⟩, hlast⟩
  | @popMalformed e hpc hentry hform => exact .goto hsolo ⟨e, hentry⟩ trivial
  | pull hpc =>
      rw [hpc] at hat hknown
      obtain ⟨pre, hframes, -, hreached⟩ := hat
      exact .goto hsolo (hknown (by simp)) ⟨pre, hframes, hreached⟩
  | raised hpc hraises =>
      rw [hpc] at hknown
      exact .goto hsolo (hknown (by simp)) trivial
  | pushMarker hpc hraises hindex hlast =>
      rw [hpc] at hat hknown
      obtain ⟨pre, -, -, hreached⟩ := hat
      exact .goto hsolo (hknown (by simp)) ⟨_, _, _, .scheduled rfl hreached.recorded⟩
  | exhausted hpc hraises hlast =>
      rw [hpc] at hat hknown
      obtain ⟨pre, hframes, rfl, hreached⟩ := hat
      rw [List.append_nil] at hframes
      subst hframes
      refine .goto hsolo (hknown (by simp)) ?_
      rcases hreached.passed with hterminal | ⟨hform, hpre⟩
      · exact Or.inl hterminal
      · exact Or.inr ⟨hform, hraises, hpre, hlast⟩
  | stopped hpc hstop =>
      rw [hpc] at hknown
      exact .goto hsolo (hknown (by simp)) trivial
  | notStopped hpc hstop =>
      rw [hpc] at hat hknown
      exact .goto hsolo (hknown (by simp)) hat
  | seenCancelled hpc hstate =>
      rw [hpc] at hknown
      obtain ⟨e, hentry⟩ := hknown (by simp)
      refine .goto hsolo ⟨e, hentry⟩ (Or.inl ⟨e, hentry, ?_⟩)
      rw [Inner.state, hentry, Option.map_some, Option.some.injEq] at hstate
      rw [hstate]
      rfl
  | unencodable hpc hline =>
      rw [hpc] at hknown
      exact .goto hsolo (hknown (by simp)) trivial
  | pushFrame hpc hstate hline =>
      rw [hpc] at hat hknown
      obtain ⟨pre, hframes, hreached⟩ := hat
      exact .goto hsolo (hknown (by simp))
        ⟨pre, _, _, hframes, rfl, hline, hreached.passed, .scheduled rfl hreached.recorded⟩
  | pushed hpc hpush hcall => exact htracked.pushed hpc hpush hcall hsolo
  | pushFailed hpc hresult =>
      refine .goto hsolo (hknown ?_) trivial
      intro hwaiting
      rw [hwaiting] at hpc
      cases hpc
  | cancelReturned hpc hcall =>
      rw [hpc] at hat hknown
      refine .goto hsolo (hknown (by simp)) (Or.inl ?_)
      cases hat with
      | called hcall' => cases hcall.symm.trans hcall'
      | opened hcall' => cases hcall.symm.trans hcall'
      | done hcall' hterminal => exact hterminal
  | launch hpush hindex hfree => exact htracked.launch hpush hindex hfree hsolo
  | @launchFailed c index payload isFinal hpush hindex =>
      exact ⟨hsolo, hknown,
        hat.replace (htracked.solo.not_between (by simp [hpush])) fun _ _ _ _ _ => .failed rfl⟩
  | timeout hpc =>
      refine .goto hsolo (hknown ?_) trivial
      intro hwaiting
      rw [hwaiting] at hpc
      cases hpc
  | @cancel c hpc hfree =>
      rw [hpc] at hknown
      exact ⟨hsolo, fun _ => hknown (by simp), .called Sys.advance_calls_self⟩
  | setStop => exact ⟨hsolo, hknown, hat⟩
  | @env b es r hout hrule =>
      refine ⟨hsolo, known_step htracked.solo.kept hrule hknown, ?_⟩
      refine hat.router_step htracked.solo.kept htracked.solo.lone htracked.solo.idle ?_ hknown
        hrule
      rintro c rfl
      exact hunrefused c rfl

/-- The driver's own steps and those of the other callers leave the flag alone. -/
theorem State.Rule.shuttingDown {a : Action} {es : List Event} (h : s.Rule job id a es t)
    (hopen : a ≠ .env .shutdown) :
    t.router.inner.shuttingDown = s.router.inner.shuttingDown := by
  cases h with
  | @env b es r hout hrule =>
      refine hrule.shuttingDown ?_
      rintro rfl
      exact hopen rfl
  | _ => rfl

/-- Every step on an open router keeps the invariant. -/
theorem Inv.step {a : Action} {es : List Event} (hinv : Inv job id s)
    (hopen : a ≠ .env .shutdown) (h : s.Rule job id a es t) : Inv job id t := by
  have hunrefused : Unrefused id s a := by
    intro c _ _ hshut
    rw [hinv.isOpen] at hshut
    cases hshut
  have htracked := hinv.tracked.step hunrefused h
  exact ⟨htracked.solo, (h.shuttingDown hopen).trans hinv.isOpen, htracked.known,
    htracked.atPc⟩

end DriverSteps

/-- A job that does not stall is left terminal, on every schedule. -/
theorem leavesTerminal_of_not_stalls {id : RequestId} {job : Job} (hcloses : ¬ job.Stalls) :
    LeavesTerminal id job := by
  intro depth as es s hrun hopen hreturned
  have hinv : Inv job id s :=
    Machine.history_reachable (C := fun _ a => a ≠ .env .shutdown) (H := fun _ s => Inv job id s)
      (.init job id depth)
      (fun _ _ _ _ _ hinv ha hstep => hinv.step ha (State.step_rule hstep))
      (Machine.meets_of_forall fun a ha _ => hopen a ha) hrun
  have hat := hinv.atPc
  rw [hreturned] at hat
  rcases hat with hterminal | hstalls
  · exact hterminal
  · exact absurd hstalls hcloses

end Repercep.Driver
