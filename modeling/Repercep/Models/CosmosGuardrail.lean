import Mathlib
import Repercep.Models.Cosmos
set_option autoImplicit false

/-!
# Cosmos: what the guardrail lets through

When no call finds the pipeline before its guardrail is there, every frame the engine yields
is one of a video that the guardrail has let through, for a prompt it has let through.  But
`load` sets `self._pipe` before it loads the guardrail: if that raises, no later call loads
it, and from then on the engine serves every prompt and every video as they are.
-/

namespace Repercep.Models.Cosmos

open Repercep.Foundation
open Repercep.Driver (EngineOutput)

/-! ## What a call has produced and yielded -/

/-- The videos the pipeline has returned to a call. -/
def producedBy (c : CallId) (log : List Event) : List (Tensor UInt8) :=
  log.filterMap fun e =>
    match e with
    | .produced d video => if d = c then some video else none
    | _ => none

/-- The frames a call has yielded. -/
def yieldedBy (c : CallId) (log : List Event) : List EngineOutput :=
  log.filterMap fun e =>
    match e with
    | .yielded d frame => if d = c then some frame else none
    | _ => none

@[simp] theorem producedBy_nil (c : CallId) : producedBy c [] = [] := rfl

@[simp] theorem yieldedBy_nil (c : CallId) : yieldedBy c [] = [] := rfl

@[simp] theorem producedBy_append (c : CallId) (h es : List Event) :
    producedBy c (h ++ es) = producedBy c h ++ producedBy c es :=
  List.filterMap_append

@[simp] theorem yieldedBy_append (c : CallId) (h es : List Event) :
    yieldedBy c (h ++ es) = yieldedBy c h ++ yieldedBy c es :=
  List.filterMap_append

/-- Which requests are run, and which video is yielded in place of which. -/
structure Policy where
  approves : GenerationRequest → Prop
  passes : Tensor UInt8 → Tensor UInt8 → Prop

/-- The guardrail's answers are heeded. -/
def Guardrail.policy (guardrail : Guardrail) : Policy where
  approves request := guardrail.checkTextSafety request.prompt = true
  passes video checked := applyVideoGuardrail guardrail video = some checked

/-- Every request is run, and its video yielded as it is. -/
def unguardedPolicy : Policy where
  approves _ := True
  passes video checked := checked = video

/-- The policy is followed with the guardrail there, or not. -/
structure Policy.Followed (policy : Policy) (guardrail : Guardrail) (guarded : Bool) : Prop where
  approves : ∀ request, (guarded = true → guardrail.checkTextSafety request.prompt = true) →
    policy.approves request
  filtered : guarded = true → ∀ video checked,
    applyVideoGuardrail guardrail video = some checked → policy.passes video checked
  unfiltered : guarded = false → ∀ video, policy.passes video video

theorem Guardrail.followed (guardrail : Guardrail) : guardrail.policy.Followed guardrail true where
  approves _ h := h rfl
  filtered _ _ _ h := h
  unfiltered h := by cases h

theorem unguarded_followed (guardrail : Guardrail) :
    unguardedPolicy.Followed guardrail false where
  approves _ _ := trivial
  filtered h := by cases h
  unfiltered _ _ := rfl

namespace Policy

variable {policy : Policy} {c : CallId} {h : List Event} {request : Option GenerationRequest}

/-- The request is approved. -/
def Runs (policy : Policy) (request : Option GenerationRequest) : Prop :=
  ∃ r, request = some r ∧ policy.approves r

/-- The video is what is to be yielded of the one the pipeline has returned. -/
def Shows (policy : Policy) (c : CallId) (h : List Event) (request : Option GenerationRequest)
    (checked : Tensor UInt8) : Prop :=
  policy.Runs request ∧ ∃ video, producedBy c h = [video] ∧ policy.passes video checked

/-- What a call has produced and yielded where it is. -/
def Stage (policy : Policy) (c : CallId) (h : List Event) (request : Option GenerationRequest) :
    Pc → Prop
  | .gating | .swapping | .calling | .running _ =>
      policy.Runs request ∧ producedBy c h = [] ∧ yieldedBy c h = []
  | .checkingVideo video =>
      policy.Runs request ∧ producedBy c h = [video] ∧ yieldedBy c h = []
  | .yielding checked index =>
      policy.Shows c h request checked ∧ yieldedBy c h = (framesOf checked).take index
  | .returned =>
      (request = none ∧ yieldedBy c h = []) ∨
        ∃ checked, policy.Shows c h request checked ∧ yieldedBy c h = framesOf checked
  | .raised =>
      yieldedBy c h = [] ∨
        ∃ checked, policy.Shows c h request checked ∧ yieldedBy c h <+: framesOf checked
  | .loading | .building | .compiling _ | .publishing _ | .loadingGuardrail | .checkingText =>
      producedBy c h = [] ∧ yieldedBy c h = []

/-- The stage of a call that may not have begun. -/
def StageAt (policy : Policy) (c : CallId) (h : List Event) (s : Engine) : Prop :=
  match s.calls c with
  | none => producedBy c h = [] ∧ yieldedBy c h = []
  | some call => policy.Stage c h call.request call.pc

theorem stageAt_of_calls {s : Engine} {call : Call} (hcall : s.calls c = some call) :
    policy.StageAt c h s ↔ policy.Stage c h call.request call.pc := by
  rw [StageAt, hcall]

/-- Whatever a call has yielded is a beginning of the frames it is to yield. -/
theorem Stage.raised {pc : Pc} (hstage : policy.Stage c h request pc) :
    policy.Stage c h request .raised := by
  cases pc with
  | raised => exact hstage
  | yielding checked index =>
      obtain ⟨hshows, hyielded⟩ := hstage
      exact Or.inr ⟨checked, hshows, hyielded ▸ List.take_prefix _ _⟩
  | returned =>
      rcases hstage with ⟨-, hnone⟩ | ⟨checked, hshows, hyielded⟩
      · exact Or.inl hnone
      · exact Or.inr ⟨checked, hshows, hyielded ▸ List.prefix_refl _⟩
  | gating | swapping | calling | running | checkingVideo => exact Or.inl hstage.2.2
  | _ => exact Or.inl hstage.2

theorem stage_afterLoad (hproduced : producedBy c h = []) (hyielded : yieldedBy c h = []) :
    policy.Stage c h request (Engine.afterLoad request) := by
  cases request with
  | none => exact Or.inl ⟨rfl, hyielded⟩
  | some r => exact ⟨hproduced, hyielded⟩

theorem stage_startYielding {checked : Tensor UInt8} (hshows : policy.Shows c h request checked)
    (hyielded : yieldedBy c h = []) :
    policy.Stage c h request (Engine.startYielding checked) := by
  unfold Engine.startYielding
  split
  · exact Or.inl hyielded
  · exact ⟨hshows, by rw [hyielded, List.take_zero]⟩

/-- A step of a loaded call leads from stage to stage. -/
theorem Stage.next {config : CosmosConfig} {guardrail : Guardrail} {s : Engine} {pc pc' : Pc}
    {es : List Event} (hfollowed : policy.Followed guardrail s.guarded)
    (hstage : policy.Stage c h request pc)
    (hnext : Engine.Next config guardrail s c request pc es pc') :
    policy.Stage c (h ++ es) request pc' := by
  cases hnext with
  | @checked r hrequest hsafe =>
      rw [List.append_nil]
      exact ⟨⟨r, hrequest, hfollowed.approves r hsafe⟩, hstage⟩
  | trip | pass | call =>
      rw [List.append_nil]
      exact hstage
  | @produce pipe video frames hframes =>
      obtain ⟨hruns, hproduced, hyielded⟩ := hstage
      refine ⟨hruns, ?_, ?_⟩
      · rw [producedBy_append, hproduced]
        simp [producedBy]
      · rw [yieldedBy_append, hyielded]
        rfl
  | @filtered video checked hguarded hchecked =>
      obtain ⟨hruns, hproduced, hyielded⟩ := hstage
      rw [List.append_nil]
      exact stage_startYielding
        ⟨hruns, video, hproduced, hfollowed.filtered hguarded video checked hchecked⟩ hyielded
  | @unfiltered video hguarded =>
      obtain ⟨hruns, hproduced, hyielded⟩ := hstage
      rw [List.append_nil]
      exact stage_startYielding
        ⟨hruns, video, hproduced, hfollowed.unfiltered hguarded video⟩ hyielded
  | @emit checked index frame hframe =>
      obtain ⟨⟨hruns, video, hproduced, hpasses⟩, hyielded⟩ := hstage
      refine ⟨⟨hruns, video, ?_, hpasses⟩, ?_⟩
      · rw [producedBy_append, hproduced]
        rfl
      · rw [yieldedBy_append, hyielded, List.take_add_one, hframe]
        simp [yieldedBy]
  | @done checked index hend =>
      obtain ⟨hshows, hyielded⟩ := hstage
      rw [List.append_nil]
      refine Or.inr ⟨checked, hshows, ?_⟩
      rw [hyielded, List.take_of_length_le (List.getElem?_eq_none_iff.mp hend)]

theorem quiet_of_next {config : CosmosConfig} {guardrail : Guardrail} {s : Engine}
    {d : CallId} {pc pc' : Pc} {es : List Event} (hne : c ≠ d)
    (hnext : Engine.Next config guardrail s d request pc es pc') :
    producedBy c es = [] ∧ yieldedBy c es = [] := by
  cases hnext with
  | produce | emit => simp [producedBy, yieldedBy, Ne.symm hne]
  | _ => exact ⟨rfl, rfl⟩

/-- A stage only depends on what the call has produced and yielded. -/
theorem Stage.congr {h' : List Event} {pc : Pc} (hproduced : producedBy c h' = producedBy c h)
    (hyielded : yieldedBy c h' = yieldedBy c h) (hstage : policy.Stage c h request pc) :
    policy.Stage c h' request pc := by
  cases pc <;> simpa only [Stage, Shows, hproduced, hyielded] using hstage

/-- The steps of other calls do not touch the stage of a call. -/
theorem StageAt.quiet {s t : Engine} {es : List Event} (hstage : policy.StageAt c h s)
    (hcalls : t.calls c = s.calls c) (hquiet : producedBy c es = [] ∧ yieldedBy c es = []) :
    policy.StageAt c (h ++ es) t := by
  have hproduced : producedBy c (h ++ es) = producedBy c h := by
    rw [producedBy_append, hquiet.1, List.append_nil]
  have hyielded : yieldedBy c (h ++ es) = yieldedBy c h := by
    rw [yieldedBy_append, hquiet.2, List.append_nil]
  unfold StageAt at hstage ⊢
  rw [hcalls]
  cases hcall : s.calls c with
  | none =>
      rw [hcall] at hstage
      rwa [hproduced, hyielded]
  | some call =>
      rw [hcall] at hstage
      exact hstage.congr hproduced hyielded

/-- A step leads from stage to stage, where the calls that have loaded follow the policy. -/
theorem StageAt.step {config : CosmosConfig} {guardrail : Guardrail} {s t : Engine} {a : Action}
    {es : List Event} (hstage : policy.StageAt c h s)
    (hfollowed : ∀ call, s.calls c = some call → call.pc.pastLoad = true →
      policy.Followed guardrail s.guarded)
    (hrule : Engine.Rule config guardrail s a es t) : policy.StageAt c (h ++ es) t := by
  have hmove : ∀ {u : Engine} {d : CallId} {r : Option GenerationRequest} {pc pc' : Pc},
      u.calls = s.calls → s.calls d = some ⟨r, pc⟩ →
      (c ≠ d → producedBy c es = [] ∧ yieldedBy c es = []) →
      (c = d → policy.Stage c h r pc → policy.Stage c (h ++ es) r pc') →
      policy.StageAt c (h ++ es) (u.setCall d r pc') := by
    intro u d r pc pc' hcalls hd hquiet hown
    by_cases hc : c = d
    · subst hc
      exact (stageAt_of_calls (Engine.setCall_self ..)).mpr
        (hown rfl ((stageAt_of_calls hd).mp hstage))
    · exact hstage.quiet (by rw [Engine.setCall_of_ne u hc, hcalls]) (hquiet hc)
  have hnone : producedBy c [] = [] ∧ yieldedBy c [] = [] := ⟨rfl, rfl⟩
  cases hrule with
  | @start _ d r hnew =>
      by_cases hc : c = d
      · subst hc
        rw [List.append_nil]
        unfold StageAt at hstage
        rw [hnew] at hstage
        exact (stageAt_of_calls (Engine.setCall_self ..)).mpr hstage
      · exact hstage.quiet (Engine.setCall_of_ne s hc ..) hnone
  | found hcall | guard hcall =>
      refine hmove rfl hcall (fun _ => hnone) fun _ hown => ?_
      rw [List.append_nil]
      exact stage_afterLoad hown.1 hown.2
  | begin hcall | built hcall =>
      refine hmove rfl hcall (fun _ => hnone) fun _ hown => ?_
      rwa [List.append_nil]
  | keep hcall =>
      refine hmove (by rw [Engine.keepUncompiled_eq]) hcall (fun _ => hnone) fun _ hown => ?_
      rwa [List.append_nil]
  | publish hcall =>
      refine hmove rfl hcall (fun _ => hnone) fun _ hown => ?_
      rw [List.append_nil]
      split
      · exact hown
      · exact stage_afterLoad hown.1 hown.2
  | @next _ d r pc pc' _ hcall hnext =>
      refine hmove rfl hcall (fun hc => quiet_of_next hc hnext) fun hc hown => ?_
      subst hc
      exact hown.next (hfollowed _ hcall hnext.pastLoad) hnext
  | swap hcall =>
      refine hmove (Engine.swap_calls s) hcall (fun _ => hnone) fun _ hown => ?_
      rwa [List.append_nil]
  | forward => exact hstage.quiet rfl ⟨rfl, rfl⟩
  | raise hcall =>
      refine hmove rfl hcall (fun _ => hnone) fun _ hown => ?_
      rw [List.append_nil]
      exact hown.raised

end Policy

/-! ## The guardrail is there -/

namespace Engine

variable {config : CosmosConfig} {guardrail : Guardrail} {s t : Engine} {a : Action}
  {es : List Event}

/-- No call finds the pipeline before the guardrail is there. -/
def FindsGuarded (s : Engine) (a : Action) : Prop :=
  ∀ c request, a = .advance c → s.calls c = some ⟨request, .loading⟩ → s.pipe.isSome = true →
    s.guarded = true

theorem Rule.guarded_mono (h : Rule config guardrail s a es t) (hguarded : s.guarded = true) :
    t.guarded = true := by
  rcases h.guarded_eq with hsame | ⟨c, request, -, htrue, -⟩
  · rw [hsame, hguarded]
  · exact htrue

/-- Once the guardrail is there, every call finds it. -/
theorem meets_of_guarded : ∀ (as : List Action) {s : Engine}, s.guarded = true →
    (cosmos config guardrail).Meets FindsGuarded s as := by
  intro as
  induction as with
  | nil => exact fun _ => trivial
  | cons a as ih =>
      intro s hguarded es t hstep
      exact ⟨fun _ _ _ _ _ => hguarded, ih ((step_rule hstep).guarded_mono hguarded)⟩

/-- The guardrail is there for every call that has loaded. -/
def Covered (s : Engine) : Prop :=
  ∀ c call, s.calls c = some call → call.pc.pastLoad = true → s.guarded = true

theorem covered_new : Covered new := by simp [Covered, new]

theorem Covered.step (hcovered : s.Covered) (henabled : config.enableGuardrail = true)
    (hfinds : s.FindsGuarded a) (h : Rule config guardrail s a es t) : t.Covered := by
  intro c call hcall hpast
  have hmono := h.guarded_mono
  have hmove : ∀ {u : Engine} {d : CallId} {r : Option GenerationRequest} {pc : Pc},
      t = u.setCall d r pc → u.calls = s.calls → (pc.pastLoad = true → t.guarded = true) →
      t.guarded = true := by
    rintro u d r pc rfl hcalls hown
    rcases calls_setCall hcall with ⟨rfl, rfl⟩ | ⟨-, hother⟩
    · exact hown hpast
    · exact hmono (hcovered c call (hcalls ▸ hother) hpast)
  cases h with
  | start hnew => exact hmove rfl rfl fun h => by cases h
  | found hd hpipe => exact hmove rfl rfl fun _ => hfinds _ _ rfl hd hpipe
  | begin | built | raise => exact hmove rfl rfl fun h => by cases h
  | keep => exact hmove rfl (by rw [keepUncompiled_eq]) fun h => by cases h
  | publish =>
      refine hmove rfl rfl fun h => ?_
      rw [henabled] at h
      cases h
  | guard => rfl
  | next hd hnext => exact hmove rfl rfl fun _ => hcovered _ _ hd hnext.pastLoad
  | swap hd => exact hmove rfl (swap_calls s) fun _ => hmono (hcovered _ _ hd rfl)
  | forward => exact hcovered c call hcall hpast

end Engine

/-- With the guardrail enabled, in every interleaving of calls in which none finds the
pipeline before the guardrail is there, whatever raises: a call has yielded nothing and is
no generator that has returned; or its prompt has been let through, what it has yielded is a
beginning of the frames of the video the guardrail made of the one video the pipeline
returned to it, and all of them once it has returned. -/
theorem frames_guarded {config : CosmosConfig} {guardrail : Guardrail}
    (henabled : config.enableGuardrail = true) {as : List Action} {log : List Event} {s : Engine}
    (hrun : (cosmos config guardrail).run (cosmos config guardrail).init as = some (log, s))
    (hfinds : (cosmos config guardrail).Meets Engine.FindsGuarded
      (cosmos config guardrail).init as)
    {c : CallId} {request : Option GenerationRequest} {pc : Pc}
    (hcall : s.calls c = some ⟨request, pc⟩) :
    (yieldedBy c log = [] ∧ (pc = .returned → request = none)) ∨
      ∃ r video checked, request = some r ∧ guardrail.checkTextSafety r.prompt = true ∧
        producedBy c log = [video] ∧ applyVideoGuardrail guardrail video = some checked ∧
        yieldedBy c log <+: framesOf checked ∧
        (pc = .returned → yieldedBy c log = framesOf checked) := by
  have hnew : guardrail.policy.StageAt c [] Engine.new := ⟨rfl, rfl⟩
  have hinv : s.Covered ∧ guardrail.policy.StageAt c log s :=
    Machine.history_reachable
      (H := fun h s => Engine.Covered s ∧ guardrail.policy.StageAt c h s)
      ⟨Engine.covered_new, hnew⟩
      (fun h s a es t hs hfinds hstep => by
        have hrule := Engine.step_rule hstep
        refine ⟨hs.1.step henabled hfinds hrule, hs.2.step (fun call hcall hpast => ?_) hrule⟩
        rw [hs.1 c call hcall hpast]
        exact guardrail.followed) hfinds hrun
  have hstage := (Policy.stageAt_of_calls hcall).mp hinv.2
  by_cases hreturned : pc = .returned
  · subst hreturned
    rcases hstage with ⟨hload, hnone⟩ |
      ⟨checked, ⟨⟨r, hrequest, hsafe⟩, video, hproduced, hpasses⟩, hall⟩
    · exact Or.inl ⟨hnone, fun _ => hload⟩
    · exact Or.inr ⟨r, video, checked, hrequest, hsafe, hproduced, hpasses,
        hall ▸ List.prefix_refl _, fun _ => hall⟩
  · rcases hstage.raised with
      hnone | ⟨checked, ⟨⟨r, hrequest, hsafe⟩, video, hproduced, hpasses⟩, hbegin⟩
    · exact Or.inl ⟨hnone, fun h => absurd h hreturned⟩
    · exact Or.inr ⟨r, video, checked, hrequest, hsafe, hproduced, hpasses, hbegin,
        fun h => absurd h hreturned⟩

/-- A picture of one red pixel, as the pipeline returns it. -/
def redPicture : Tensor ℚ := ⟨[1, 3, 1, 1], [1, 0, 0], rfl⟩

/-- A video of two pixels, a white one and a blue one. -/
def bluePictures : Tensor ℚ := ⟨[2, 3, 1, 1], [1, 1, 1, 0, 0, 1], rfl⟩

/-- It lets every prompt but one through, and takes out every other pixel value of a video. -/
def blurringGuardrail : Guardrail where
  checkTextSafety prompt := prompt != "unsafe"
  checkVideoSafety video := some (.bytes (video.mapIdx fun idx x =>
    if idx.sum % 2 = 0 then 127 else x))

theorem pipelineLoaded_finds (guardrail : Guardrail) (request : GenerationRequest) :
    (cosmos guardedConfig guardrail).Meets Engine.FindsGuarded
      (cosmos guardedConfig guardrail).init (pipelineLoaded request ++ [.advance ⟨0⟩]) := by
  have hloading : ∀ {s : Engine} {pc : Pc}, s.calls ⟨0⟩ = some ⟨some request, pc⟩ →
      (pc = .loading → s.pipe = none) → s.FindsGuarded (.advance ⟨0⟩) := by
    rintro s pc hcall hnone c r ⟨⟩ hloading hpipe
    cases hcall.symm.trans hloading
    rw [hnone rfl] at hpipe
    cases hpipe
  refine (Machine.meets_cons rfl).mpr ⟨by rintro c r ⟨⟩, ?_⟩
  refine (Machine.meets_cons rfl).mpr ⟨hloading rfl fun _ => rfl, ?_⟩
  refine (Machine.meets_cons rfl).mpr ⟨hloading rfl (by simp), ?_⟩
  refine (Machine.meets_cons rfl).mpr ⟨hloading rfl (by simp), ?_⟩
  refine (Machine.meets_cons rfl).mpr ⟨hloading rfl (by simp), ?_⟩
  exact (Machine.meets_cons rfl).mpr ⟨hloading rfl (by rintro ⟨⟩), trivial⟩

/-- The first call has loaded.  A second one begins while the first checks its prompt; both
run the pipeline at once, the second gets its video first, and they yield by turns. -/
def twoCallsServed : List Action :=
  .advance ⟨0⟩ :: .generate ⟨1⟩ ⟨"clouds", 2⟩ ::
    (List.replicate 4 (.advance ⟨1⟩) ++ List.replicate 2 (.advance ⟨0⟩) ++
      [.produce ⟨1⟩ bluePictures, .produce ⟨0⟩ redPicture, .advance ⟨0⟩, .advance ⟨1⟩,
        .advance ⟨1⟩, .advance ⟨0⟩, .advance ⟨1⟩, .advance ⟨0⟩, .advance ⟨1⟩])

/-- The bytes of the pictures a call has yielded. -/
def pixelsBy (c : CallId) (log : List Event) : List (List UInt8) :=
  (yieldedBy c log).map fun frame => frame.pixels.data

/-- Both calls have yielded what the guardrail made of their own videos. -/
theorem twoCallsServed_guarded : ∃ log s red blue,
    (cosmos guardedConfig blurringGuardrail).run (cosmos guardedConfig blurringGuardrail).init
      (pipelineLoaded ⟨"safe", 1⟩ ++ [.advance ⟨0⟩] ++ twoCallsServed) = some (log, s) ∧
      producedBy ⟨0⟩ log = [red] ∧ producedBy ⟨1⟩ log = [blue] ∧
      (applyVideoGuardrail blurringGuardrail red).map framesOf = some (yieldedBy ⟨0⟩ log) ∧
      (applyVideoGuardrail blurringGuardrail blue).map framesOf = some (yieldedBy ⟨1⟩ log) ∧
      pixelsBy ⟨0⟩ log = [[127, 0, 127]] ∧
      pixelsBy ⟨1⟩ log = [[127, 255, 127], [0, 127, 255]] := by
  have hfinds := (Machine.along_append rfl).mpr
    ⟨pipelineLoaded_finds blurringGuardrail ⟨"safe", 1⟩,
      Engine.meets_of_guarded twoCallsServed rfl⟩
  obtain ⟨log, s, hrun, hfirst, hsecond, hpixels⟩ : ∃ log s,
      (cosmos guardedConfig blurringGuardrail).run (cosmos guardedConfig blurringGuardrail).init
        (pipelineLoaded ⟨"safe", 1⟩ ++ [.advance ⟨0⟩] ++ twoCallsServed) = some (log, s) ∧
        s.calls ⟨0⟩ = some ⟨some ⟨"safe", 1⟩, .returned⟩ ∧
        s.calls ⟨1⟩ = some ⟨some ⟨"clouds", 2⟩, .returned⟩ ∧
        pixelsBy ⟨0⟩ log = [[127, 0, 127]] ∧
        pixelsBy ⟨1⟩ log = [[127, 255, 127], [0, 127, 255]] :=
    ⟨_, _, rfl, rfl, rfl, by decide +kernel, by decide +kernel⟩
  rcases frames_guarded rfl hrun hfinds hfirst with
    ⟨-, hload⟩ | ⟨_, red, _, -, -, hred, hpassed, -, hall⟩
  · cases hload rfl
  · rcases frames_guarded rfl hrun hfinds hsecond with
      ⟨-, hload⟩ | ⟨_, blue, _, -, -, hblue, hpassed', -, hall'⟩
    · cases hload rfl
    · refine ⟨log, s, red, blue, hrun, hred, hblue, ?_, ?_, hpixels⟩
      · rw [hpassed, hall rfl]
        rfl
      · rw [hpassed', hall' rfl]
        rfl

/-! ## The guardrail is lost -/

namespace Engine

variable {config : CosmosConfig} {guardrail : Guardrail} {s t : Engine} {a : Action}
  {es : List Event}

/-- The pipeline is there without its guardrail, and no call is loading one. -/
structure Bare (s : Engine) : Prop where
  pipe : s.pipe.isSome = true
  unguarded : s.guarded = false
  idle : ∀ c call, s.calls c = some call → call.pc.inLoad = false

theorem Bare.step (hbare : s.Bare) (h : Rule config guardrail s a es t) : t.Bare := by
  refine ⟨h.pipe_isSome hbare.pipe, ?_, fun c call hcall => ?_⟩
  · rcases h.guarded_eq with hsame | ⟨c, request, hcall, -, -⟩
    · rw [hsame, hbare.unguarded]
    · cases hbare.idle c _ hcall
  · cases hin : call.pc.inLoad with
    | false => rfl
    | true =>
        rcases h.inLoad_before hcall hin with ⟨call₀, hcall₀, hin₀⟩ | ⟨request, -, hnone, -⟩
        · cases (hbare.idle c call₀ hcall₀).symm.trans hin₀
        · have hpipe := hbare.pipe
          rw [hnone] at hpipe
          cases hpipe

/-- Where the only call that loads raises while it loads the guardrail, the pipeline stays
behind without one. -/
theorem Loads.bare_of_raised (hloads : s.Loads) {c : CallId} {request : Option GenerationRequest}
    (hcall : s.calls c = some ⟨request, .loadingGuardrail⟩) :
    (s.setCall c request .raised).Bare where
  pipe := hloads.loaded c _ hcall rfl
  unguarded := hloads.unguarded c _ hcall rfl
  idle := by
    intro d call hd
    rcases calls_setCall hd with ⟨-, rfl⟩ | ⟨hne, hother⟩
    · rfl
    · cases hin : call.pc.inLoad with
      | false => rfl
      | true => exact absurd (hloads.single d c call _ hother hcall hin rfl) hne

theorem shape_asFrameTensor {video : Tensor ℚ} {frames : Tensor UInt8}
    (hframes : asFrameTensor video = some frames) : frames.shape ≠ [] := by
  unfold asFrameTensor at hframes
  split at hframes
  · cases hframes
    split
    · exact fun h => by cases h
    · next hshape _ =>
        intro h
        change video.shape = [] at h
        rw [hshape] at h
        cases h
  · cases hframes

/-- Some run from the state has the call return when it has yielded these frames. -/
def Serves (config : CosmosConfig) (guardrail : Guardrail) (c : CallId)
    (request : GenerationRequest) (frames : List EngineOutput) (s : Engine) : Prop :=
  ∃ as log t, (cosmos config guardrail).run s as = some (log, t) ∧
    t.calls c = some ⟨some request, .returned⟩ ∧ yieldedBy c log = frames

theorem Serves.before {c : CallId} {request : GenerationRequest} {frames : List EngineOutput}
    (hstep : s.step config guardrail a = some (es, t))
    (hserves : Serves config guardrail c request frames t) :
    Serves config guardrail c request (yieldedBy c es ++ frames) s := by
  obtain ⟨as, log, u, hrun, hreturned, hframes⟩ := hserves
  refine ⟨a :: as, es ++ log, u, Machine.run_cons_eq_some.mpr ⟨es, t, log, hstep, hrun, rfl⟩,
    hreturned, ?_⟩
  rw [yieldedBy_append, hframes]

theorem serves_yielding {c : CallId} {request : GenerationRequest} {video : Tensor UInt8} :
    ∀ (left index : Nat) (s : Engine), left + index = (framesOf video).length →
      s.calls c = some ⟨some request, .yielding video index⟩ →
      Serves config guardrail c request ((framesOf video).drop index) s := by
  intro left
  induction left with
  | zero =>
      intro index s hlength hcall
      have hend : (framesOf video)[index]? = none := by
        rw [List.getElem?_eq_none_iff]
        omega
      have hstep : s.step config guardrail (.advance c) =
          some ([], s.setCall c (some request) .returned) := by
        simp only [Engine.step, hcall, advance, hend]
      refine ⟨[.advance c], [], _, Machine.run_singleton hstep, setCall_self .., ?_⟩
      rw [List.drop_eq_nil_of_le (by omega), yieldedBy_nil]
  | succ left ih =>
      intro index s hlength hcall
      have hlt : index < (framesOf video).length := by omega
      have hstep : s.step config guardrail (.advance c) =
          some ([.yielded c (framesOf video)[index]],
            s.setCall c (some request) (.yielding video (index + 1))) := by
        simp only [Engine.step, hcall, advance, List.getElem?_eq_getElem hlt]
      have hserves := (ih (index + 1) _ (by omega) (setCall_self ..)).before hstep
      have hone : yieldedBy c [.yielded c (framesOf video)[index]] = [(framesOf video)[index]] := by
        simp [yieldedBy]
      rw [hone] at hserves
      rw [List.drop_eq_getElem_cons hlt]
      exact hserves

theorem Serves.silent {c : CallId} {request : GenerationRequest} {frames : List EngineOutput}
    (hstep : s.step config guardrail a = some ([], t))
    (hserves : Serves config guardrail c request frames t) :
    Serves config guardrail c request frames s :=
  hserves.before hstep

/-- Once the pipeline is called without a guardrail, it can return any video, and its frames
are yielded as they are. -/
theorem serves_calling {c : CallId} {request : GenerationRequest} {video : Tensor ℚ}
    {frames : Tensor UInt8} (hframes : asFrameTensor video = some frames)
    (hpipe : s.pipe.isSome = true) (hguarded : s.guarded = false)
    (hcall : s.calls c = some ⟨some request, .calling⟩) :
    Serves config guardrail c request (framesOf frames) s := by
  obtain ⟨pipe, hpipe⟩ := Option.isSome_iff_exists.mp hpipe
  have hcalled : s.step config guardrail (.advance c) =
      some ([], s.setCall c (some request) (.running pipe)) := by
    simp only [Engine.step, hcall, advance, hpipe]
  refine Serves.silent hcalled ?_
  generalize hs : s.setCall c (some request) (.running pipe) = u
  have hu : u.calls c = some ⟨some request, .running pipe⟩ := by rw [← hs, setCall_self]
  have huguarded : u.guarded = false := by rw [← hs, setCall_guarded, hguarded]
  have hproduced : u.step config guardrail (.produce c video) =
      some ([.produced c frames], u.setCall c (some request) (.checkingVideo frames)) := by
    simp only [Engine.step, hu, hframes]
  refine Serves.before hproduced ?_
  have hchecked : (u.setCall c (some request) (.checkingVideo frames)).step config guardrail
      (.advance c) = some ([], (u.setCall c (some request) (.checkingVideo frames)).setCall c
        (some request) (.yielding frames 0)) := by
    simp [Engine.step, advance, huguarded, startYielding, shape_asFrameTensor hframes]
  exact Serves.silent hchecked (serves_yielding _ 0 _ rfl (setCall_self ..))

/-- Without a guardrail every prompt gets to the pipeline. -/
theorem Bare.serves (hbare : s.Bare) {c : CallId} (hnew : s.calls c = none)
    (request : GenerationRequest) {video : Tensor ℚ} {frames : Tensor UInt8}
    (hframes : asFrameTensor video = some frames) :
    Serves config guardrail c request (framesOf frames) s := by
  -- whatever the state, the step of the call leads to a state without a guardrail again
  have hmove : ∀ {u : Engine} (b : Action) (pc : Pc), u.Bare →
      u.step config guardrail b = some ([], u.setCall c (some request) pc) →
      (∀ v : Engine, v.Bare → v.calls c = some ⟨some request, pc⟩ →
        Serves config guardrail c request (framesOf frames) v) →
      Serves config guardrail c request (framesOf frames) u :=
    fun _ _ hu hstep hrest => Serves.silent hstep
      (hrest _ (hu.step (step_rule hstep)) (setCall_self ..))
  refine hmove (.generate c request) .loading hbare (by simp only [Engine.step, hnew]) fun s₁ h₁ hcall₁ => ?_
  refine hmove (.advance c) .checkingText h₁
    (by simp only [Engine.step, hcall₁, advance, h₁.pipe, if_true, afterLoad]) fun s₂ h₂ hcall₂ => ?_
  refine hmove (.advance c) .gating h₂ (by simp [Engine.step, hcall₂, advance, h₂.unguarded])
    fun s₃ h₃ hcall₃ => ?_
  cases htrips : s₃.trips config request.numFrames with
  | false =>
      refine hmove (.advance c) .calling h₃ (by simp [Engine.step, hcall₃, advance, htrips])
        fun s₄ h₄ hcall₄ => ?_
      exact serves_calling hframes h₄.pipe h₄.unguarded hcall₄
  | true =>
      refine hmove (.advance c) .swapping h₃ (by simp [Engine.step, hcall₃, advance, htrips])
        fun s₄ h₄ hcall₄ => ?_
      have hswap : s₄.step config guardrail (.advance c) =
          some ([], s₄.swap.setCall c (some request) .calling) := by
        simp only [Engine.step, hcall₄, advance]
      have h₅ := h₄.step (step_rule hswap)
      exact Serves.silent hswap (serves_calling hframes h₅.pipe h₅.unguarded (setCall_self ..))

end Engine

/-- Where, in a run in which no call begins to load while another one loads, the guardrail
cannot be loaded: in whatever follows, the guardrail is never there, and what later calls
yield are the frames the pipeline returned; and there is no prompt, and no video, that a
later call could not yield. -/
theorem guardrail_lost {config : CosmosConfig} {guardrail : Guardrail} {as : List Action}
    {h : List Event} {s s' : Engine}
    (hrun : (cosmos config guardrail).run (cosmos config guardrail).init as = some (h, s))
    (halone : (cosmos config guardrail).Meets Engine.Alone (cosmos config guardrail).init as)
    {c : CallId} {request : Option GenerationRequest}
    (hcall : s.calls c = some ⟨request, .loadingGuardrail⟩)
    (hraised : (cosmos config guardrail).step s (.raise c) = some ([], s')) :
    (∀ bs log t, (cosmos config guardrail).run s' bs = some (log, t) →
      t.guarded = false ∧ ∀ d, s'.calls d = none →
        yieldedBy d log = [] ∨
          ∃ video, producedBy d log = [video] ∧ yieldedBy d log <+: framesOf video) ∧
    (∀ d r video frames, s'.calls d = none → asFrameTensor video = some frames →
      ∃ bs log t, (cosmos config guardrail).run s' bs = some (log, t) ∧
        t.calls d = some ⟨some r, .returned⟩ ∧ yieldedBy d log = framesOf frames) := by
  have hloads : s.Loads :=
    Machine.history_reachable (H := fun _ s => Engine.Loads s) Engine.Loads.new
      (fun _ s a es t hloads halone hstep => hloads.step halone (Engine.step_rule hstep))
      halone hrun
  have hafter : s' = s.setCall c request .raised := by
    have hstep : (cosmos config guardrail).step s (.raise c) =
        some ([], s.setCall c request .raised) := by
      change Engine.step config guardrail s (.raise c) = _
      simp only [Engine.step, hcall]
    exact (Prod.mk.inj (Option.some.inj (hraised.symm.trans hstep))).2
  have hbare : s'.Bare := hafter ▸ hloads.bare_of_raised hcall
  refine ⟨fun bs log t hrun' => ?_, fun d r video frames hnew hframes =>
    hbare.serves hnew r hframes⟩
  refine ⟨(Machine.invariant_run (fun _ _ _ _ hs hstep => hs.step (Engine.step_rule hstep))
    hbare hrun').unguarded, fun d hnew => ?_⟩
  have hstage₀ : unguardedPolicy.StageAt d [] s' := by
    unfold Policy.StageAt
    rw [hnew]
    exact ⟨rfl, rfl⟩
  have hinv : t.Bare ∧ unguardedPolicy.StageAt d ([] ++ log) t :=
    Machine.history_run (C := fun _ _ => True)
      (H := fun h s => Engine.Bare s ∧ unguardedPolicy.StageAt d h s)
      (fun h s a es t hs _ hstep => by
        have hrule := Engine.step_rule hstep
        refine ⟨hs.1.step hrule, hs.2.step (fun _ _ _ => ?_) hrule⟩
        rw [hs.1.unguarded]
        exact unguarded_followed guardrail)
      bs [] s' log t ⟨hbare, hstage₀⟩ (Machine.meets_of_forall fun _ _ _ => trivial) hrun'
  rw [List.nil_append] at hinv
  cases hd : t.calls d with
  | none =>
      have hstage := hinv.2
      unfold Policy.StageAt at hstage
      rw [hd] at hstage
      exact Or.inl hstage.2
  | some call =>
      rcases ((Policy.stageAt_of_calls hd).mp hinv.2).raised with
        hnone | ⟨checked, ⟨-, video, hproduced, rfl⟩, hbegin⟩
      · exact Or.inl hnone
      · exact Or.inr ⟨_, hproduced, hbegin⟩

/-- The first call loses the guardrail, and a second one yields the picture for a prompt the
guardrail does not let through. -/
theorem pipelineLoaded_lost : ∃ h s s' bs log t,
    (cosmos guardedConfig someGuardrail).run (cosmos guardedConfig someGuardrail).init
      (pipelineLoaded ⟨"safe", 1⟩) = some (h, s) ∧
      (cosmos guardedConfig someGuardrail).step s (.raise ⟨0⟩) = some ([], s') ∧
      (cosmos guardedConfig someGuardrail).run s' bs = some (log, t) ∧
      t.calls ⟨1⟩ = some ⟨some ⟨"unsafe", 1⟩, .returned⟩ ∧ yieldedBy ⟨1⟩ log ≠ [] := by
  obtain ⟨h, s, s', hrun, hcall, hraised, hnew⟩ : ∃ h s s',
      (cosmos guardedConfig someGuardrail).run (cosmos guardedConfig someGuardrail).init
        (pipelineLoaded ⟨"safe", 1⟩) = some (h, s) ∧
        s.calls ⟨0⟩ = some ⟨some ⟨"safe", 1⟩, .loadingGuardrail⟩ ∧
        (cosmos guardedConfig someGuardrail).step s (.raise ⟨0⟩) = some ([], s') ∧
        s'.calls ⟨1⟩ = none := ⟨_, _, _, rfl, rfl, rfl, rfl⟩
  obtain ⟨bs, log, t, hafter, hreturned, hyielded⟩ :=
    (guardrail_lost hrun (pipelineLoaded_alone _) hcall hraised).2 ⟨1⟩ ⟨"unsafe", 1⟩ redPicture _
      hnew rfl
  refine ⟨h, s, s', bs, log, t, hrun, hraised, hafter, hreturned, ?_⟩
  rw [hyielded]
  exact List.cons_ne_nil _ _

end Repercep.Models.Cosmos
