import Mathlib
import Repercep.Models.Cosmos
set_option autoImplicit false

/-!
# Cosmos: the compile gate

With `compile_max_frames` positive, no request with more frames than that runs a compiled
transformer, in whatever order the calls take their steps, as long as no call begins to load
while another one loads.  The transformer that is taken off is not put back: after such a
request none runs a compiled transformer.
-/

namespace Repercep.Models.Cosmos

open Repercep.Foundation

/-- The request has more frames than the gate lets through. -/
def CosmosConfig.Above (config : CosmosConfig) (request : Option GenerationRequest) : Prop :=
  ∃ r, request = some r ∧ 0 < config.compileMaxFrames ∧ config.compileMaxFrames < r.numFrames

/-- A call has a pipeline it has not published. -/
def Pc.holdsPipe : Pc → Bool
  | .compiling _ | .publishing _ => true
  | _ => false

theorem Pc.holdsPipe_of_inLoad {pc : Pc} (h : pc.inLoad = false) : pc.holdsPipe = false := by
  cases pc <;> first | rfl | cases h

/-- About to call the pipeline, or in it. -/
def Pc.isRunning : Pc → Bool
  | .calling | .running _ => true
  | _ => false

namespace Engine

variable {config : CosmosConfig} {guardrail : Guardrail} {s t : Engine} {a : Action}
  {es : List Event}

/-- The published pipeline runs its own transformer. -/
def Off (s : Engine) : Prop :=
  ∃ pipe, s.pipe = some pipe ∧ s.transformer pipe = .original pipe

/-- What the transformers are, and what is kept of them. -/
structure Gate (config : CosmosConfig) (s : Engine) : Prop where
  unbuilt : ∀ pipe : PipeId, s.built ≤ pipe.val → s.transformer pipe = .original pipe
  building : ∀ c request pipe, s.calls c = some ⟨request, .compiling pipe⟩ ∨
    s.calls c = some ⟨request, .publishing pipe⟩ →
      pipe.val < s.built ∧ s.transformer pipe = .original pipe
  kept : ∀ c request pipe, s.calls c = some ⟨request, .publishing pipe⟩ →
    config.compileTransformer = true → s.uncompiledTransformer = some (.original pipe)
  published : ∀ pipe, s.pipe = some pipe → pipe.val < s.built ∧
    (config.compileTransformer = true → s.uncompiledTransformer = some (.original pipe)) ∧
    (config.compileTransformer = false → s.transformer pipe = .original pipe)
  uncompiling : config.compileTransformer = false → s.uncompiledTransformer = none
  running : ∀ c request pipe, s.calls c = some ⟨request, .running pipe⟩ → s.pipe = some pipe
  gated : ∀ c call, s.calls c = some call → call.pc.isRunning = true →
    config.Above call.request → ∀ pipe, s.pipe = some pipe → s.transformer pipe = .original pipe

theorem Gate.new (config : CosmosConfig) : Gate config new where
  unbuilt _ _ := rfl
  building := by simp [Engine.new]
  kept := by simp [Engine.new]
  published := by simp [Engine.new]
  uncompiling _ := rfl
  running := by simp [Engine.new]
  gated := by simp [Engine.new]

/-- A step that only moves one call, to a place where nothing is asked of it. -/
theorem Gate.setCall (hgate : Gate config s) {c : CallId} {request : Option GenerationRequest}
    {pc : Pc} (hholds : pc.holdsPipe = false)
    (hrunning : ∀ pipe, pc = .running pipe → s.pipe = some pipe)
    (hgated : pc.isRunning = true → config.Above request →
      ∀ pipe, s.pipe = some pipe → s.transformer pipe = .original pipe) :
    Gate config (s.setCall c request pc) where
  unbuilt := hgate.unbuilt
  building := by
    rintro d r pipe (hcall | hcall)
    · rcases calls_setCall hcall with ⟨-, heq⟩ | ⟨-, hother⟩
      · cases heq
        cases hholds
      · exact hgate.building d r pipe (Or.inl hother)
    · rcases calls_setCall hcall with ⟨-, heq⟩ | ⟨-, hother⟩
      · cases heq
        cases hholds
      · exact hgate.building d r pipe (Or.inr hother)
  kept := by
    intro d r pipe hcall
    rcases calls_setCall hcall with ⟨-, heq⟩ | ⟨-, hother⟩
    · cases heq
      cases hholds
    · exact hgate.kept d r pipe hother
  published := hgate.published
  uncompiling := hgate.uncompiling
  running := by
    intro d r pipe hcall
    rcases calls_setCall hcall with ⟨-, heq⟩ | ⟨-, hother⟩
    · cases heq
      exact hrunning pipe rfl
    · exact hgate.running d r pipe hother
  gated := by
    intro d call hcall
    rcases calls_setCall hcall with ⟨-, rfl⟩ | ⟨-, hother⟩
    · exact hgated
    · exact hgate.gated d call hother

/-- The same, to a place that does not run. -/
theorem Gate.setCall_idle (hgate : Gate config s) {c : CallId}
    {request : Option GenerationRequest} {pc : Pc} (hholds : pc.holdsPipe = false)
    (hrunning : pc.isRunning = false) : Gate config (s.setCall c request pc) := by
  refine hgate.setCall hholds ?_ fun h => ?_
  · rintro pipe rfl
    cases hrunning
  · cases hrunning.symm.trans h

/-- What the gate takes off is what was kept. -/
theorem Gate.swap (hgate : Gate config s) : Gate config s.swap ∧
    ∀ pipe, s.pipe = some pipe → s.swap.transformer pipe = .original pipe := by
  cases hcompile : config.compileTransformer with
  | false =>
      have hsame : s.swap = s := by
        have hnone := hgate.uncompiling hcompile
        unfold Engine.swap
        rw [hnone]
        split
        · next h => cases h
        · rfl
      rw [hsame]
      exact ⟨hgate, fun pipe hpipe => (hgate.published pipe hpipe).2.2 hcompile⟩
  | true =>
      cases hpipe : s.pipe with
      | none =>
          have hsame : s.swap = s := by
            unfold Engine.swap
            rw [hpipe]
          rw [hsame]
          exact ⟨hgate, fun pipe h => by cases h⟩
      | some pipe =>
          obtain ⟨hbuilt, hkept, -⟩ := hgate.published pipe hpipe
          have hoff : ∀ q : PipeId, s.transformer q = .original q ∨ q = pipe →
              Function.update s.transformer pipe (.original pipe) q = .original q := by
            intro q hq
            by_cases h : q = pipe
            · rw [h, Function.update_self]
            · rw [Function.update_of_ne h]
              exact hq.resolve_right h
          rw [swap_eq hpipe (hkept hcompile)]
          refine ⟨⟨?_, ?_, hgate.kept, ?_, hgate.uncompiling, hgate.running, ?_⟩, ?_⟩
          · exact fun q hq => hoff q (Or.inl (hgate.unbuilt q hq))
          · intro c r q hcall
            obtain ⟨hlt, horiginal⟩ := hgate.building c r q hcall
            exact ⟨hlt, hoff q (Or.inl horiginal)⟩
          · intro q hq
            obtain ⟨hlt, hq', -⟩ := hgate.published q hq
            exact ⟨hlt, hq', fun h => by cases hcompile.symm.trans h⟩
          · intro c call _ _ _ q hq
            cases hpipe.symm.trans hq
            exact hoff pipe (Or.inr rfl)
          · rintro q ⟨⟩
            exact hoff pipe (Or.inr rfl)

theorem isRunning_afterLoad (request : Option GenerationRequest) :
    (afterLoad request).isRunning = false := by
  cases request <;> rfl

theorem isRunning_startYielding (video : Tensor UInt8) :
    (startYielding video).isRunning = false := by
  unfold startYielding
  split <;> rfl

theorem Gate.next (hgate : Gate config s) {c : CallId}
    {request : Option GenerationRequest} {pc pc' : Pc} (hcall : s.calls c = some ⟨request, pc⟩)
    (hnext : Next config guardrail s c request pc es pc') :
    Gate config (s.setCall c request pc') := by
  have hholds := Pc.holdsPipe_of_inLoad hnext.inLoad
  cases hnext with
  | @pass r hrequest htrips =>
      refine hgate.setCall rfl (fun pipe h => by cases h) fun _ habove pipe hpipe => ?_
      -- the gate would have tripped, had anything been kept
      obtain ⟨r', hrequest', hceiling⟩ := habove
      cases hrequest.symm.trans hrequest'
      obtain ⟨-, hkept, hplain⟩ := hgate.published pipe hpipe
      cases hcompile : config.compileTransformer with
      | false => exact hplain hcompile
      | true =>
          rw [trips, hpipe, hkept hcompile] at htrips
          simp [hceiling] at htrips
  | @call pipe hpipe =>
      refine hgate.setCall rfl (fun q h => by cases h; exact hpipe) fun _ habove => ?_
      exact hgate.gated c _ hcall rfl habove
  | filtered | unfiltered => exact hgate.setCall_idle hholds (isRunning_startYielding _)
  | _ => exact hgate.setCall_idle hholds rfl

/-- A pipeline is built. -/
theorem Gate.built (hgate : Gate config s) {c : CallId} {request : Option GenerationRequest} :
    Gate config
      ({ s with built := s.built + 1 }.setCall c request (.compiling ⟨s.built⟩)) where
  unbuilt pipe hpipe := hgate.unbuilt pipe (Nat.le_of_succ_le hpipe)
  building := by
    have hother : ∀ d r pipe, s.calls d = some ⟨r, .compiling pipe⟩ ∨
        s.calls d = some ⟨r, .publishing pipe⟩ →
        pipe.val < s.built + 1 ∧ s.transformer pipe = .original pipe := fun d r pipe h =>
      ⟨Nat.lt_succ_of_lt (hgate.building d r pipe h).1, (hgate.building d r pipe h).2⟩
    rintro d r pipe (hcall | hcall)
    · rcases calls_setCall hcall with ⟨-, heq⟩ | ⟨-, hbefore⟩
      · cases heq
        exact ⟨Nat.lt_succ_self _, hgate.unbuilt _ le_rfl⟩
      · exact hother d r pipe (Or.inl hbefore)
    · rcases calls_setCall hcall with ⟨-, heq⟩ | ⟨-, hbefore⟩
      · cases heq
      · exact hother d r pipe (Or.inr hbefore)
  kept := by
    intro d r pipe hcall
    rcases calls_setCall hcall with ⟨-, heq⟩ | ⟨-, hbefore⟩
    · cases heq
    · exact hgate.kept d r pipe hbefore
  published pipe hpipe :=
    ⟨Nat.lt_succ_of_lt (hgate.published pipe hpipe).1, (hgate.published pipe hpipe).2⟩
  uncompiling := hgate.uncompiling
  running := by
    intro d r pipe hcall
    rcases calls_setCall hcall with ⟨-, heq⟩ | ⟨-, hbefore⟩
    · cases heq
    · exact hgate.running d r pipe hbefore
  gated := by
    intro d call hcall hrunning
    rcases calls_setCall hcall with ⟨-, rfl⟩ | ⟨-, hbefore⟩
    · cases hrunning
    · exact hgate.gated d call hbefore hrunning

/-- The transformer of the pipeline is kept. -/
theorem Gate.keep (hgate : Gate config s) (hloads : s.Loads) {c : CallId}
    {request : Option GenerationRequest} {pipe : PipeId}
    (hcall : s.calls c = some ⟨request, .compiling pipe⟩) :
    Gate config ((s.keepUncompiled config pipe).setCall c request (.publishing pipe)) := by
  obtain ⟨hlt, horiginal⟩ := hgate.building c request pipe (Or.inl hcall)
  have hnone : s.pipe = none := hloads.unpublished c _ hcall rfl
  have halone : ∀ d r q, s.calls d = some ⟨r, .publishing q⟩ → d = c := fun d r q hd =>
    hloads.single d c _ _ hd hcall rfl rfl
  rw [keepUncompiled_eq, horiginal]
  refine ⟨hgate.unbuilt, ?_, ?_, ?_, ?_, ?_, ?_⟩
  · rintro d r q (hd | hd)
    · rcases calls_setCall hd with ⟨-, heq⟩ | ⟨-, hbefore⟩
      · cases heq
      · exact hgate.building d r q (Or.inl hbefore)
    · rcases calls_setCall hd with ⟨-, heq⟩ | ⟨-, hbefore⟩
      · cases heq
        exact ⟨hlt, horiginal⟩
      · exact hgate.building d r q (Or.inr hbefore)
  · intro d r q hd hcompile
    rcases calls_setCall hd with ⟨-, heq⟩ | ⟨hne, hbefore⟩
    · cases heq
      rw [setCall_uncompiled, if_pos hcompile]
    · exact absurd (halone d r q hbefore) hne
  · intro q hq
    cases hnone.symm.trans hq
  · intro hcompile
    rw [setCall_uncompiled, if_neg (by rw [hcompile]; exact Bool.false_ne_true)]
    exact hgate.uncompiling hcompile
  · intro d r q hd
    rcases calls_setCall hd with ⟨-, heq⟩ | ⟨-, hbefore⟩
    · cases heq
    · exact hgate.running d r q hbefore
  · intro d call hd hrunning habove q hq
    cases hnone.symm.trans hq

/-- The pipeline is published: nobody runs one yet. -/
theorem Gate.publish (hgate : Gate config s) (hloads : s.Loads) {c : CallId}
    {request : Option GenerationRequest} {pipe : PipeId} {pc : Pc}
    (hcall : s.calls c = some ⟨request, .publishing pipe⟩) (hholds : pc.holdsPipe = false)
    (hrunning : pc.isRunning = false) :
    Gate config ((s.publish config pipe).setCall c request pc) := by
  obtain ⟨hlt, horiginal⟩ := hgate.building c request pipe (Or.inr hcall)
  have hnone : s.pipe = none := hloads.unpublished c _ hcall rfl
  have hidle : ∀ d call, s.calls d = some call → call.pc.isRunning = false := by
    intro d call hd
    cases hrun : call.pc.isRunning with
    | false => rfl
    | true =>
        have hpipe := hloads.loaded d call hd (by
          cases hpc : call.pc with
          | calling | running => rfl
          | _ => rw [hpc] at hrun; cases hrun)
        rw [hnone] at hpipe
        cases hpipe
  have hsame : ∀ q : PipeId, q ≠ pipe →
      (s.publish config pipe).transformer q = s.transformer q := by
    intro q hq
    unfold Engine.publish
    split
    · exact Function.update_of_ne hq ..
    · rfl
  have hother : ∀ d r q, d ≠ c → s.calls d = some ⟨r, .compiling q⟩ ∨
      s.calls d = some ⟨r, .publishing q⟩ → False := by
    rintro d r q hne (hd | hd)
    · exact hne (hloads.single d c _ _ hd hcall rfl rfl)
    · exact hne (hloads.single d c _ _ hd hcall rfl rfl)
  refine ⟨?_, ?_, ?_, ?_, hgate.uncompiling, ?_, ?_⟩
  · intro q hq
    have hne : q ≠ pipe := by
      rintro rfl
      exact Nat.lt_irrefl _ (Nat.lt_of_lt_of_le hlt hq)
    exact (hsame q hne).trans (hgate.unbuilt q hq)
  · rintro d r q (hd | hd)
    · rcases calls_setCall hd with ⟨-, heq⟩ | ⟨hne, hbefore⟩
      · cases heq
        cases hholds
      · exact (hother d r q hne (Or.inl hbefore)).elim
    · rcases calls_setCall hd with ⟨-, heq⟩ | ⟨hne, hbefore⟩
      · cases heq
        cases hholds
      · exact (hother d r q hne (Or.inr hbefore)).elim
  · intro d r q hd
    rcases calls_setCall hd with ⟨-, heq⟩ | ⟨hne, hbefore⟩
    · cases heq
      cases hholds
    · exact (hother d r q hne (Or.inr hbefore)).elim
  · rintro q ⟨⟩
    refine ⟨hlt, hgate.kept c request pipe hcall, fun hcompile => ?_⟩
    rw [setCall_transformer, Engine.publish, hcompile]
    exact horiginal
  · intro d r q hd
    rcases calls_setCall hd with ⟨-, heq⟩ | ⟨-, hbefore⟩
    · cases heq
      cases hrunning
    · cases hidle d _ hbefore
  · intro d call hd hrun
    rcases calls_setCall hd with ⟨-, rfl⟩ | ⟨-, hbefore⟩
    · cases hrunning.symm.trans hrun
    · cases (hidle d call hbefore).symm.trans hrun

theorem Gate.step (hgate : Gate config s) (hloads : s.Loads)
    (h : Rule config guardrail s a es t) : Gate config t := by
  cases h with
  | start hnew => exact hgate.setCall_idle rfl rfl
  | found hcall hpipe =>
      exact hgate.setCall_idle (Pc.holdsPipe_of_inLoad (inLoad_afterLoad _))
        (isRunning_afterLoad _)
  | begin => exact hgate.setCall_idle rfl rfl
  | built hcall => exact hgate.built
  | keep hcall => exact hgate.keep hloads hcall
  | publish hcall =>
      refine hgate.publish hloads hcall ?_ ?_
      · split
        · rfl
        · exact Pc.holdsPipe_of_inLoad (inLoad_afterLoad _)
      · split
        · rfl
        · exact isRunning_afterLoad _
  | guard hcall =>
      have hguarded : Gate config { s with guarded := true } :=
        ⟨hgate.unbuilt, hgate.building, hgate.kept, hgate.published, hgate.uncompiling,
          hgate.running, hgate.gated⟩
      exact hguarded.setCall_idle (Pc.holdsPipe_of_inLoad (inLoad_afterLoad _))
        (isRunning_afterLoad _)
  | next hcall hnext => exact hgate.next hcall hnext
  | swap hcall =>
      obtain ⟨hswapped, hoff⟩ := hgate.swap
      refine hswapped.setCall rfl (fun pipe h => by cases h) fun _ _ pipe hpipe => ?_
      exact hoff pipe ((swap_pipe s).symm.trans hpipe)
  | forward => exact hgate
  | raise => exact hgate.setCall_idle rfl rfl

/-- A transformer that is off stays off. -/
theorem Off.step (hoff : s.Off) (hgate : Gate config s) (hloads : s.Loads)
    (h : Rule config guardrail s a es t) : t.Off := by
  obtain ⟨pipe, hpipe, horiginal⟩ := hoff
  cases h with
  | publish hcall => cases (hloads.unpublished _ _ hcall rfl).symm.trans hpipe
  | swap => exact ⟨pipe, (swap_pipe s).trans hpipe, hgate.swap.2 pipe hpipe⟩
  | keep =>
      rw [keepUncompiled_eq]
      exact ⟨pipe, hpipe, horiginal⟩
  | _ => exact ⟨pipe, hpipe, horiginal⟩

/-- A call whose request has more frames than the gate lets through. -/
def IsAbove (config : CosmosConfig) (s : Engine) (c : CallId) : Prop :=
  ∃ request pc, s.calls c = some ⟨request, pc⟩ ∧ config.Above request

/-- A transformer has run: its call is there. -/
structure Ran (config : CosmosConfig) (h : List Event) (s : Engine) : Prop where
  calls : ∀ c dit, .ran c dit ∈ h → (s.calls c).isSome = true
  original : ∀ c dit, .ran c dit ∈ h → IsAbove config s c → dit.isCompiled = false
  off : ∀ before c dit after, h = before ++ .ran c dit :: after → IsAbove config s c →
    s.Off ∧ ∀ d dit', .ran d dit' ∈ after → dit'.isCompiled = false

/-- A step in which a transformer runs is nothing else. -/
theorem Rule.ran (h : Rule config guardrail s a es t) {c : CallId} {dit : Dit}
    (hmem : .ran c dit ∈ es) : es = [.ran c dit] ∧ t = s ∧
      ∃ request pipe, s.calls c = some ⟨request, .running pipe⟩ ∧ dit = s.transformer pipe := by
  cases h with
  | forward hcall =>
      cases List.mem_singleton.mp hmem
      exact ⟨rfl, rfl, _, _, hcall, rfl⟩
  | next hcall hnext =>
      cases hnext with
      | produce | emit => cases List.mem_singleton.mp hmem
      | _ => cases hmem
  | _ => cases hmem

/-- Whether a call is above is settled when it begins. -/
theorem IsAbove.before (h : Rule config guardrail s a es t) {c : CallId}
    (hcall : (s.calls c).isSome = true) (habove : IsAbove config t c) : IsAbove config s c := by
  obtain ⟨⟨request, pc⟩, hbefore⟩ := Option.isSome_iff_exists.mp hcall
  obtain ⟨request', pc', hafter, habove⟩ := habove
  obtain ⟨pc'', hsame⟩ := h.request_eq hbefore
  cases hsame.symm.trans hafter
  exact ⟨request, pc, hbefore, habove⟩

theorem Ran.new (config : CosmosConfig) : Ran config [] new where
  calls := by simp
  original := by simp
  off := by simp

theorem Ran.step {h : List Event} (hran : Ran config h s) (hgate : Gate config s)
    (hloads : s.Loads) (hrule : Rule config guardrail s a es t) : Ran config (h ++ es) t := by
  have hkeeps : ∀ c, (s.calls c).isSome = true → (t.calls c).isSome = true := by
    intro c hsome
    obtain ⟨⟨request, pc⟩, hbefore⟩ := Option.isSome_iff_exists.mp hsome
    obtain ⟨pc', hafter⟩ := hrule.request_eq hbefore
    rw [hafter]
    rfl
  -- what runs in this step: a call above has had its pipeline gated
  have hgated : ∀ c dit, .ran c dit ∈ es → IsAbove config t c → s.Off := by
    intro c dit hmem habove
    obtain ⟨-, -, request, pipe, hcall, -⟩ := hrule.ran hmem
    obtain ⟨request', pc, hcall', habove⟩ := habove.before hrule (by rw [hcall]; rfl)
    cases hcall.symm.trans hcall'
    have hpipe := hgate.running c request pipe hcall
    exact ⟨pipe, hpipe, hgate.gated c _ hcall rfl habove pipe hpipe⟩
  have hrunning : s.Off → ∀ c dit, .ran c dit ∈ es → dit.isCompiled = false := by
    rintro ⟨pipe, hpipe, horiginal⟩ c dit hmem
    obtain ⟨-, -, request, pipe', hcall, rfl⟩ := hrule.ran hmem
    cases hpipe.symm.trans (hgate.running c request pipe' hcall)
    rw [horiginal]
    rfl
  refine ⟨fun c dit hmem => ?_, fun c dit hmem habove => ?_, ?_⟩
  · rcases List.mem_append.mp hmem with hold | hnew
    · exact hkeeps c (hran.calls c dit hold)
    · obtain ⟨-, -, request, pipe, hcall, -⟩ := hrule.ran hnew
      exact hkeeps c (by rw [hcall]; rfl)
  · rcases List.mem_append.mp hmem with hold | hnew
    · exact hran.original c dit hold (habove.before hrule (hran.calls c dit hold))
    · exact hrunning (hgated c dit hnew habove) c dit hnew
  · intro before c dit after hsplit habove
    have hnow : .ran c dit ∈ es → after = [] → t.Off ∧ ∀ d dit', .ran d dit' ∈ after →
        dit'.isCompiled = false := by
      rintro hmem rfl
      exact ⟨(hgated c dit hmem habove).step hgate hloads hrule, by simp⟩
    rcases List.append_eq_append_iff.mp hsplit with ⟨mid, -, hes⟩ | ⟨mid, hold, hmid⟩
    · have hmem : .ran c dit ∈ es := by simp [hes]
      refine hnow hmem ?_
      rw [(hrule.ran hmem).1] at hes
      cases mid with
      | nil => exact (List.cons.inj hes).2.symm
      | cons e mid => cases mid <;> cases hes
    · cases mid with
      | nil =>
          have hmem : .ran c dit ∈ es := by
            rw [List.nil_append] at hmid
            simp [← hmid]
          refine hnow hmem ?_
          rw [(hrule.ran hmem).1] at hmid
          exact (List.cons.inj hmid).2
      | cons e mid =>
          obtain ⟨rfl, rfl⟩ := List.cons.inj hmid
          have hcall := hran.calls c dit (by simp [hold])
          obtain ⟨hoff, hlater⟩ := hran.off before c dit mid hold (habove.before hrule hcall)
          refine ⟨hoff.step hgate hloads hrule, fun d dit' hmem => ?_⟩
          rcases List.mem_append.mp hmem with hmem | hmem
          · exact hlater d dit' hmem
          · exact hrunning hoff d dit' hmem

end Engine

/-- In every interleaving of calls in which none begins to load while another one loads: a
request with more frames than the gate lets through never runs a compiled transformer, and
once it has run, no request does. -/
theorem gate_keeps {config : CosmosConfig} {guardrail : Guardrail} {as : List Action}
    {log : List Event} {s : Engine}
    (hrun : (cosmos config guardrail).run (cosmos config guardrail).init as = some (log, s))
    (halone : (cosmos config guardrail).Meets Engine.Alone (cosmos config guardrail).init as)
    {before after : List Event} {c : CallId} {dit : Dit}
    (hlog : log = before ++ .ran c dit :: after) {request : GenerationRequest} {pc : Pc}
    (hcall : s.calls c = some ⟨some request, pc⟩) (hpositive : 0 < config.compileMaxFrames)
    (habove : config.compileMaxFrames < request.numFrames) :
    dit.isCompiled = false ∧ ∀ d dit', .ran d dit' ∈ after → dit'.isCompiled = false := by
  have hinv : Engine.Ran config log s ∧ Engine.Gate config s ∧ s.Loads :=
    Machine.history_reachable
      (H := fun h s => Engine.Ran config h s ∧ Engine.Gate config s ∧ Engine.Loads s)
      ⟨Engine.Ran.new config, Engine.Gate.new config, Engine.Loads.new⟩
      (fun h s a es t hs halone hstep => by
        have hrule := Engine.step_rule hstep
        obtain ⟨hran, hgate, hloads⟩ := hs
        exact ⟨hran.step hgate hloads hrule, hgate.step hloads hrule, hloads.step halone hrule⟩)
      halone hrun
  have hisAbove : Engine.IsAbove config s c :=
    ⟨some request, pc, hcall, request, rfl, hpositive, habove⟩
  refine ⟨hinv.1.original c dit (by simp [hlog]) hisAbove, ?_⟩
  exact (hinv.1.off before c dit after hlog hisAbove).2

/-- A first request is above the gate, and a second one is not. -/
def gatedThenSmall : List Action :=
  List.replicate 5 (.advance ⟨0⟩) ++ [.forward ⟨0⟩, .generate ⟨1⟩ ⟨"safe", 1⟩] ++
    List.replicate 4 (.advance ⟨1⟩) ++ [.forward ⟨1⟩]

theorem gatedThenSmall_uncompiled : ∃ log s before dit dit',
    (cosmos guardedConfig someGuardrail).run (cosmos guardedConfig someGuardrail).init
      (pipelineLoaded ⟨"safe", 121⟩ ++ gatedThenSmall) = some (log, s) ∧
      log = before ++ [.ran ⟨0⟩ dit, .ran ⟨1⟩ dit'] ∧ dit.isCompiled = false ∧
      dit'.isCompiled = false := by
  have halone := (Machine.along_append rfl).mpr
    ⟨pipelineLoaded_alone ⟨"safe", 121⟩, Engine.meets_alone gatedThenSmall rfl⟩
  obtain ⟨log, s, dit, dit', hrun, hcall, hlog⟩ : ∃ log s dit dit',
      (cosmos guardedConfig someGuardrail).run (cosmos guardedConfig someGuardrail).init
        (pipelineLoaded ⟨"safe", 121⟩ ++ gatedThenSmall) = some (log, s) ∧
        s.calls ⟨0⟩ = some ⟨some ⟨"safe", 121⟩, .running ⟨0⟩⟩ ∧
        log = [] ++ .ran ⟨0⟩ dit :: [.ran ⟨1⟩ dit'] := ⟨_, _, _, _, rfl, rfl, rfl⟩
  obtain ⟨hfirst, hlater⟩ := gate_keeps hrun halone hlog hcall (by decide) (by decide)
  exact ⟨log, s, [], dit, dit', hrun, hlog, hfirst, hlater ⟨1⟩ dit' (by simp)⟩

end Repercep.Models.Cosmos
