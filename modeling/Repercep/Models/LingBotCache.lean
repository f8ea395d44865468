import Mathlib
import Repercep.Models.LingBotSessions
set_option autoImplicit false

/-!
# LingBot-VA: what a session's cache is made of

The cache of a session is kept by the transformer, under the session's name: a pass leaves
nothing in it (`update_cache=0`), a prediction (1) or something real (2), and
`create_empty_cache` and `clear_pred_cache` clear it.  How much of it a later pass still
attends to is the transformer's affair.

What the engine decides is which passes it has written since the cache was last cleared,
which frames they cover, and where each of them comes from.  Between two calls this is told
here for every session none of whose calls has raised: only the very first executed actions
are ever pushed, with the observed latents they were executed from, and all that follows is
one prediction after the other.
-/

namespace Repercep.Models.LingBotVA

open Repercep.Foundation

variable {R K X : Type}

/-! ## The cache, from the calls -/

/-- A pass that writes to the cache. -/
structure Pass (R : Type) where
  mode : Mode
  updateCache : Nat
  start : Nat
  latents : Tensor R

/-- The frames a pass writes. -/
structure Span where
  mode : Mode
  updateCache : Nat
  start : Nat
  frames : Nat
  deriving DecidableEq, Repr

/-- The frames of a pass. -/
def Pass.span (e : Pass R) : Span := ⟨e.mode, e.updateCache, e.start, frameCount e.latents⟩

/-- The passes that have been written since the cache was last cleared. -/
def written (passes : List (Pass R)) : Outcome R → List (Pass R)
  | .cache .create | .cache .clearPred => []
  | .cache (.forward 0 _ _) => passes
  | .cache (.forward updateCache start input) =>
      passes ++ [⟨input.mode, updateCache, start, input.noisyLatents⟩]
  | .state _ | .proposed _ | .raised => passes

theorem written_of_ne (passes : List (Pass R)) {outcome : Outcome R}
    (hne : ∀ call, outcome ≠ .cache call) : written passes outcome = passes := by
  cases outcome with
  | cache call => exact absurd rfl (hne call)
  | _ => rfl

/-- What a session has seen, in order. -/
def outcomesOf (id : SessionId) (log : List (Event R)) : List (Outcome R) :=
  log.filterMap fun e => if e.session = id then some e.outcome else none

/-- What a session has written since its cache was last cleared. -/
def passesOf (id : SessionId) (log : List (Event R)) : List (Pass R) :=
  (outcomesOf id log).foldl written []

/-- What a session's calls of the transformer have made of its cache. -/
def replayOf {K X : Type} (parts : Parts R K X) (id : SessionId) (log : List (Event R)) : K :=
  (outcomesOf id log).foldl (Outcome.replay parts) parts.createEmptyCache

/-- The executed actions a label brings. -/
def Action.executed : Action R → List (List R)
  | .step values => [values]
  | _ => []

/-- The executed actions of a session, in order. -/
def stepsOf (id : SessionId) (labels : List (Label R)) : List (List R) :=
  labels.flatMap fun label => if label.session = id then label.action.executed else []

/-- Executed actions, as `_recondition` gives them to the model. -/
def executedLatents [Field R] [Inhabited R] (task : Task R) (config : LingBotVAConfig)
    (values : List R) : Option (Tensor R) :=
  (parseActionChunk config values).bind
    (normalizeActions task config.actionPerFrame config.actionDim)

/-- A predicted chunk. -/
def chunkSpans (config : LingBotVAConfig) (start : Nat) : List Span :=
  [⟨.video, 1, start, config.frameChunkSize⟩, ⟨.action, 1, start, config.frameChunkSize⟩]

/-- Predicted chunks, each where the one before it ends. -/
def chunksFrom (config : LingBotVAConfig) (start n : Nat) : List Span :=
  (List.range n).flatMap fun i => chunkSpans config (start + i * config.frameChunkSize)

theorem chunksFrom_succ (config : LingBotVAConfig) (start n : Nat) :
    chunksFrom config start (n + 1) =
      chunksFrom config start n ++ chunkSpans config (start + n * config.frameChunkSize) := by
  simp [chunksFrom, List.range_succ]

theorem outcomesOf_append (id : SessionId) (log more : List (Event R)) :
    outcomesOf id (log ++ more) = outcomesOf id log ++ outcomesOf id more :=
  List.filterMap_append

theorem outcomesOf_mine (id : SessionId) (outcomes : List (Outcome R)) :
    outcomesOf id (outcomes.map (Event.mk id)) = outcomes := by
  simp [outcomesOf, List.filterMap_map]

theorem outcomesOf_other {id other : SessionId} (hne : other ≠ id)
    (outcomes : List (Outcome R)) : outcomesOf id (outcomes.map (Event.mk other)) = [] := by
  simp [outcomesOf, List.filterMap_map, hne]

theorem passesOf_mine (id : SessionId) (log : List (Event R)) (outcomes : List (Outcome R)) :
    passesOf id (log ++ outcomes.map (Event.mk id)) =
      outcomes.foldl written (passesOf id log) := by
  rw [passesOf, outcomesOf_append, outcomesOf_mine, List.foldl_append]
  rfl

theorem passesOf_other {id other : SessionId} (hne : other ≠ id) (log : List (Event R))
    (outcomes : List (Outcome R)) :
    passesOf id (log ++ outcomes.map (Event.mk other)) = passesOf id log := by
  rw [passesOf, outcomesOf_append, outcomesOf_other hne, List.append_nil]
  rfl

theorem replayOf_mine {K X : Type} {parts : Parts R K X} (id : SessionId) (log : List (Event R))
    (outcomes : List (Outcome R)) :
    replayOf parts id (log ++ outcomes.map (Event.mk id)) =
      outcomes.foldl (Outcome.replay parts) (replayOf parts id log) := by
  rw [replayOf, outcomesOf_append, outcomesOf_mine, List.foldl_append]
  rfl

theorem replayOf_other {K X : Type} {parts : Parts R K X} {id other : SessionId}
    (hne : other ≠ id) (log : List (Event R)) (outcomes : List (Outcome R)) :
    replayOf parts id (log ++ outcomes.map (Event.mk other)) = replayOf parts id log := by
  rw [replayOf, outcomesOf_append, outcomesOf_other hne, List.append_nil]
  rfl

theorem stepsOf_snoc (id : SessionId) (labels : List (Label R)) (label : Label R) :
    stepsOf id (labels ++ [label]) =
      stepsOf id labels ++ if label.session = id then label.action.executed else [] := by
  simp [stepsOf]

/-! ## What each step leaves of it -/

section Invariant

variable [Field R] [Inhabited R]
variable {parts : Parts R K X} {task : Task R} {config : LingBotVAConfig}
variable {table : Mode → List R}

/-- What is written with no prediction under way, by what has been executed and the frame the next
prediction starts at. -/
inductive Settled (task : Task R) (config : LingBotVAConfig) (latent : Tensor R) :
    List (List R) → Nat → List (Pass R) → Prop
  | fresh : Settled task config latent [] 0 []
  | grounded {values : List R} {rest : List (List R)} {full : Tensor R}
      {predicted : List (Pass R)} (hfull : executedLatents task config values = some full)
      (hpredicted : predicted.map Pass.span =
        chunksFrom config (frameCount latent) rest.length) :
      Settled task config latent (values :: rest)
        (frameCount latent + rest.length * config.frameChunkSize)
        (⟨.video, 2, 0, latent⟩ :: ⟨.action, 2, 0, full⟩ :: predicted)

/-- The same with a part of the prediction. -/
def Extended (task : Task R) (config : LingBotVAConfig) (latent : Tensor R)
    (executed : List (List R)) (start : Nat) (spans : List Span) (passes : List (Pass R)) :
    Prop :=
  ∃ settled predicted, Settled task config latent executed start settled ∧
    passes = settled ++ predicted ∧ predicted.map Pass.span = spans

/-- How far a call has come, with what has been written. -/
def Stage (task : Task R) (config : LingBotVAConfig) (latent : Tensor R)
    (executed : List (List R)) (passes : List (Pass R)) (start : Nat)
    (pending : Option (Tensor R)) : Pc R → Prop
  | .encoding => False
  | .idle =>
      (pending = none ∧ executed = [] ∧ start = 0 ∧ passes = []) ∨
        (pending.isSome = true ∧
          Extended task config latent executed start (chunkSpans config start) passes)
  | .pushingVideo video full =>
      video = latent ∧ start = 0 ∧ passes = [] ∧
        ∃ values, executed = [values] ∧ executedLatents task config values = some full
  | .pushingActions frames full =>
      frames = frameCount latent ∧ start = 0 ∧ passes = [⟨.video, 2, 0, latent⟩] ∧
        ∃ values, executed = [values] ∧ executedLatents task config values = some full
  | .drawing _ => Settled task config latent executed start passes
  | .scheduled _ latents actions | .denoisingVideo _ latents actions _ =>
      (frameCount latents = config.frameChunkSize ∧ frameCount actions = config.frameChunkSize) ∧
        Settled task config latent executed start passes
  | .denoisingActions _ _ actions _ =>
      frameCount actions = config.frameChunkSize ∧
        Extended task config latent executed start
          [⟨.video, 1, start, config.frameChunkSize⟩] passes

/-- A session whose calls have not raised. -/
def Stands (task : Task R) (config : LingBotVAConfig) (executed : List (List R))
    (passes : List (Pass R)) (s : Session R K) : Prop :=
  if s.registered then
    ∃ latent, s.initLatent = some latent ∧ 0 < frameCount latent ∧
      Stage task config latent executed passes s.frameStId s.pendingActions s.pc
  else
    s.pc = .encoding ∧ executed = [] ∧ passes = [] ∧ s.frameStId = 0 ∧ s.pendingActions = none

omit [Field R] in
theorem frameCount_videoLatents (s : Session R K) (latents : Tensor R) :
    frameCount (s.videoLatents latents) = frameCount latents := by
  unfold Session.videoLatents
  split <;> rfl

theorem frameCount_cleanActions (s : Session R K) (actions : Tensor R) :
    frameCount (s.cleanActions actions) = frameCount actions := by
  unfold Session.cleanActions
  split <;> rfl

theorem frameCount_actionLatents (s : Session R K) (actions : Tensor R) :
    frameCount (s.actionLatents task actions) = frameCount actions :=
  frameCount_cleanActions s actions

/-- A predicted chunk stays when the clock moves past it. -/
theorem Extended.settle {latent : Tensor R} {values : List R} {rest : List (List R)}
    {start : Nat} {passes : List (Pass R)} (more : List R)
    (h : Extended task config latent (values :: rest) start (chunkSpans config start) passes) :
    Settled task config latent (values :: rest ++ [more]) (start + config.frameChunkSize)
      passes := by
  obtain ⟨settled, predicted, hsettled, rfl, hspans⟩ := h
  cases hsettled with
  | grounded hfull hpredicted =>
      have hnext := @Settled.grounded _ _ _ task config latent values (rest ++ [more]) _
        (_ ++ predicted) hfull (by
          rw [List.map_append, hpredicted, hspans, List.length_append, List.length_singleton,
            chunksFrom_succ])
      have hclock : frameCount latent + rest.length * config.frameChunkSize +
          config.frameChunkSize =
            frameCount latent + (rest ++ [more]).length * config.frameChunkSize := by
        rw [List.length_append, List.length_singleton, Nat.succ_mul, Nat.add_assoc]
      rw [hclock]
      exact hnext

/-- With executed actions the clock has left zero. -/
theorem Settled.executed_nil {latent : Tensor R} {executed : List (List R)} {start : Nat}
    {passes : List (Pass R)} (h : Settled task config latent executed start passes)
    (hpos : 0 < frameCount latent) (hstart : start = 0) : executed = [] := by
  cases h with
  | fresh => rfl
  | grounded => omega

theorem Settled.start_zero {latent : Tensor R} {start : Nat}
    {passes : List (Pass R)} (h : Settled task config latent [] start passes) : start = 0 := by
  cases h
  rfl

section Stages

variable {latent latents actions full : Tensor R} {executed : List (List R)}
variable {passes : List (Pass R)} {start : Nat} {pending : Option (Tensor R)}
variable {purpose : Purpose} {values : List R}

theorem Stage.ground
    (h : Stage task config latent executed passes start pending .idle)
    (hpos : 0 < frameCount latent) (hstart : start = 0)
    (hfull : executedLatents task config values = some full) :
    Stage task config latent (executed ++ [values]) [] start pending
      (.pushingVideo latent full) := by
  have hexecuted : executed = [] := by
    rcases h with ⟨-, hexecuted, -, -⟩ | ⟨-, settled, predicted, hsettled, -, -⟩
    · exact hexecuted
    · exact hsettled.executed_nil hpos hstart
  rw [hexecuted]
  exact ⟨rfl, hstart, rfl, values, rfl, hfull⟩

theorem Stage.imagine (h : Stage task config latent executed passes start pending .idle)
    (hstart : start ≠ 0) (more : List R) (purpose : Purpose) :
    Stage task config latent (executed ++ [more]) passes (start + config.frameChunkSize) pending
      (.drawing purpose) := by
  rcases h with ⟨-, -, hzero, -⟩ | ⟨-, hpasses⟩
  · exact absurd hzero hstart
  · cases executed with
    | nil =>
        obtain ⟨settled, predicted, hsettled, -, -⟩ := hpasses
        exact absurd hsettled.start_zero hstart
    | cons first rest => exact hpasses.settle more

theorem Stage.plan (h : Stage task config latent executed passes start pending .idle)
    (hpending : pending = none) (purpose : Purpose) :
    Stage task config latent executed passes start pending (.drawing purpose) := by
  rcases h with ⟨-, hexecuted, hstart, hpasses⟩ | ⟨hsome, -⟩
  · rw [hexecuted, hpasses, hstart]
    exact .fresh
  · rw [hpending] at hsome
    cases hsome

theorem Stage.pushVideo {input : Input R}
    (h : Stage task config latent executed passes start pending (.pushingVideo latents full))
    (hmode : input.mode = .video) (hinput : input.noisyLatents = latents) :
    Stage task config latent executed (written passes (.cache (.forward 2 start input)))
      start pending (.pushingActions (frameCount latents) full) := by
  obtain ⟨rfl, hstart, hpasses, hfull⟩ := h
  refine ⟨rfl, hstart, ?_, hfull⟩
  simp only [written, hpasses, hmode, hinput, hstart, List.nil_append]

theorem Stage.pushActions {input : Input R} {frames : Nat}
    (h : Stage task config latent executed passes start pending (.pushingActions frames full))
    (hmode : input.mode = .action) (hinput : input.noisyLatents = full) (purpose : Purpose) :
    Stage task config latent executed (written passes (.cache (.forward 2 start input)))
      (start + frames) pending (.drawing purpose) := by
  obtain ⟨rfl, hstart, hpasses, values, hexecuted, hfull⟩ := h
  have hsettled := @Settled.grounded _ _ _ task config latent values [] _ [] hfull rfl
  simpa [Stage, written, hpasses, hmode, hinput, hstart, hexecuted] using hsettled

theorem Stage.videoPass {next : Tensor R} {timesteps rest : List R}
    (h : Stage task config latent executed passes start pending
      (.denoisingVideo purpose latents actions timesteps))
    (hnext : frameCount next = frameCount latents) :
    Stage task config latent executed passes start pending
      (.denoisingVideo purpose next actions rest) :=
  ⟨⟨hnext.trans h.1.1, h.1.2⟩, h.2⟩

theorem Stage.videoDone {next : Tensor R} {timesteps rest : List R} {input : Input R}
    (h : Stage task config latent executed passes start pending
      (.denoisingVideo purpose latents actions timesteps))
    (hmode : input.mode = .video) (hinput : frameCount input.noisyLatents = frameCount latents) :
    Stage task config latent executed (written passes (.cache (.forward 1 start input)))
      start pending (.denoisingActions purpose next actions rest) := by
  obtain ⟨⟨hlatents, hactions⟩, hsettled⟩ := h
  refine ⟨hactions, passes, [⟨input.mode, 1, start, input.noisyLatents⟩], hsettled, rfl, ?_⟩
  simp only [List.map_cons, List.map_nil, Pass.span, hmode, hinput, hlatents]

theorem Stage.actionPass {next : Tensor R} {timesteps rest : List R}
    (h : Stage task config latent executed passes start pending
      (.denoisingActions purpose latents actions timesteps))
    (hnext : frameCount next = frameCount actions) :
    Stage task config latent executed passes start pending
      (.denoisingActions purpose latents next rest) :=
  ⟨hnext.trans h.1, h.2⟩

theorem Stage.actionDone {timesteps : List R} {input : Input R}
    (h : Stage task config latent executed passes start pending
      (.denoisingActions purpose latents actions timesteps))
    (hmode : input.mode = .action) (hinput : frameCount input.noisyLatents = frameCount actions)
    (proposed : Tensor R) :
    Stage task config latent executed (written passes (.cache (.forward 1 start input)))
      start (some proposed) .idle := by
  obtain ⟨hactions, settled, predicted, hsettled, rfl, hspans⟩ := h
  refine Or.inr ⟨rfl, settled, predicted ++ [⟨input.mode, 1, start, input.noisyLatents⟩],
    hsettled, by simp only [written, List.append_assoc], ?_⟩
  simp only [List.map_append, hspans, List.map_cons, List.map_nil, Pass.span, hmode, hinput,
    hactions, chunkSpans, List.cons_append, List.nil_append]

end Stages

/-- A step of a session that is in the dictionary. -/
theorem Stands.next {s s' : Session R K} {executed executed' : List (List R)}
    {passes passes' : List (Pass R)} {pc : Pc R}
    (h : Stands task config executed passes s) (hpc : s.pc = pc) (hne : pc ≠ .encoding)
    (hregistered : s'.registered = s.registered) (hinit : s'.initLatent = s.initLatent)
    (hstage : ∀ latent, s.initLatent = some latent → 0 < frameCount latent →
      Stage task config latent executed passes s.frameStId s.pendingActions pc →
      Stage task config latent executed' passes' s'.frameStId s'.pendingActions s'.pc) :
    Stands task config executed' passes' s' := by
  subst hpc
  unfold Stands at h ⊢
  rw [hregistered, hinit]
  split at h
  · next hregistered' =>
      obtain ⟨latent, hlatent, hpos, hbefore⟩ := h
      rw [if_pos hregistered']
      exact ⟨latent, hlatent, hpos, hstage latent hlatent hpos hbefore⟩
  · exact absurd h.1 hne

theorem Stands.encoded {s : Session R K} {executed : List (List R)} {passes : List (Pass R)}
    {latent : Tensor R} (h : Stands task config executed passes s) (hpc : s.pc = .encoding)
    (hpos : 0 < frameCount latent) :
    Stands task config executed passes
      { s with initLatent := some latent, registered := true, pc := .idle } := by
  unfold Stands at h
  split at h
  · obtain ⟨_, -, -, hstage⟩ := h
    rw [hpc] at hstage
    exact hstage.elim
  · obtain ⟨-, hexecuted, hpasses, hframe, hpending⟩ := h
    exact ⟨latent, rfl, hpos, Or.inl ⟨hpending, hexecuted, hframe, hpasses⟩⟩

omit [Field R] [Inhabited R] in
theorem executed_advance (executed : List (List R)) :
    executed ++ (Action.advance : Action R).executed = executed :=
  List.append_nil executed

/-- Each step that does not raise. -/
theorem Stands.does {s s' : Session R K} {a : Action R} {es : List (Outcome R)}
    {executed : List (List R)} {passes : List (Pass R)}
    (hdenoise : ∀ mode ts pred t latents,
      frameCount (parts.denoise mode ts pred t latents) = frameCount latents)
    (hstands : Stands task config executed passes s)
    (hdoes : Session.Does parts task config table s a es (some s'))
    (hencoded : ∀ latent, a = .encoded latent → 0 < frameCount latent)
    (hraised : .raised ∉ es) :
    Stands task config (executed ++ a.executed) (es.foldl written passes) s' := by
  cases hdoes with
  | @encoded latent context hpc =>
      rw [show executed ++ (Action.encoded latent).executed = executed from List.append_nil _]
      exact hstands.encoded hpc (hencoded latent rfl)
  | failed hraised' => exact absurd hraised' hraised
  | @ground values latent actions full hpc hinit hframe hparsed hfull =>
      have hexecuted : executedLatents task config values = some full := by
        rw [executedLatents, hparsed]
        exact hfull
      refine hstands.next hpc nofun rfl rfl fun latent' hinit' hpos hstage => ?_
      cases hinit.symm.trans hinit'
      exact hstage.ground hpos hframe hexecuted
  | @imagine values hpc hlate =>
      refine hstands.next hpc nofun rfl rfl fun latent hinit _ hstage => ?_
      exact hstage.imagine (hlate.resolve_left (by simp [hinit])) values .step
  | parked => exact (List.append_nil executed).symm ▸ hstands
  | planned hpc hpending =>
      refine hstands.next hpc nofun rfl rfl fun latent _ _ hstage => ?_
      exact (List.append_nil executed).symm ▸ hstage.plan hpending .plan
  | drawn hpc hlatents hactions =>
      refine hstands.next hpc nofun rfl rfl fun latent _ _ hstage => ?_
      exact (List.append_nil executed).symm ▸ ⟨⟨hlatents, hactions⟩, hstage⟩
  | scheduled hpc =>
      rw [executed_advance]
      exact hstands.next hpc nofun rfl rfl fun latent _ _ hstage => hstage
  | pushedVideo hpc hmode hinput =>
      rw [executed_advance]
      exact hstands.next hpc nofun rfl rfl fun latent _ _ hstage =>
        hstage.pushVideo hmode hinput
  | pushedActions hpc hmode hinput =>
      rw [executed_advance]
      exact hstands.next hpc nofun rfl rfl fun latent _ _ hstage =>
        hstage.pushActions hmode hinput .step
  | videoPass hpc hnext =>
      rw [executed_advance]
      refine hstands.next hpc nofun rfl rfl fun latent _ _ hstage => hstage.videoPass ?_
      rw [hnext, frameCount_videoLatents, hdenoise, frameCount_videoLatents]
  | videoDone hpc hmode hinput =>
      rw [executed_advance]
      refine hstands.next hpc nofun rfl rfl fun latent _ _ hstage => hstage.videoDone hmode ?_
      rw [hinput, frameCount_videoLatents]
  | actionPass hpc hnext =>
      rw [executed_advance]
      refine hstands.next hpc nofun rfl rfl fun latent _ _ hstage => hstage.actionPass ?_
      rw [hnext, frameCount_cleanActions, hdenoise, frameCount_actionLatents]
  | @actionDone purpose latents actions proposed t rest input outcome hpc hmode hinput houtcome =>
      rw [executed_advance]
      refine hstands.next hpc nofun rfl rfl fun latent _ _ hstage => ?_
      have hdone := hstage.actionDone hmode (by rw [hinput, frameCount_actionLatents]) proposed
      rw [List.foldl_cons, List.foldl_cons, written_of_ne _ houtcome]
      exact hdone

/-! ## Whole runs -/

/-- A session in a run in which none of its calls has raised. -/
structure Covers (task : Task R) (config : LingBotVAConfig) (id : SessionId)
    (labels : List (Label R)) (log : List (Event R)) (s : Engine R K) : Prop where
  unissued : s.issued id = false → s.sessions id = none ∧ stepsOf id labels = []
  stands : ∀ session, s.sessions id = some session →
    Stands task config (stepsOf id labels) (passesOf id log) session

omit [Field R] [Inhabited R] in
/-- A call on a session that is not there executes nothing unless it raises. -/
theorem unknown_quiet {a : Action R} {outcomes : List (Outcome R)}
    (hunknown : Engine.unknown a = some outcomes) (hraised : .raised ∉ outcomes) :
    outcomes = [] ∧ a.executed = [] := by
  cases a with
  | step | plan =>
      cases hunknown
      exact absurd (List.mem_singleton_self _) hraised
  | release =>
      cases hunknown
      exact ⟨rfl, rfl⟩
  | _ => cases hunknown

/-- A step of another session. -/
theorem Covers.other {s s' : Engine R K} {id : SessionId} {labels : List (Label R)}
    {label : Label R} {log es : List (Event R)} (h : Covers task config id labels log s)
    (hid : label.session ≠ id) (hstep : s.step parts task config label = some (es, s')) :
    Covers task config id (labels ++ [label]) (log ++ es) s' := by
  have hothers : ∀ u : Option (Session R K),
      Function.update s.sessions label.session u id = s.sessions id := fun u =>
    Function.update_of_ne (Ne.symm hid) ..
  have hsteps : stepsOf id (labels ++ [label]) = stepsOf id labels := by
    rw [stepsOf_snoc, if_neg hid, List.append_nil]
  -- whatever the step emits, and whatever it leaves of the other session
  have hmove : ∀ (outcomes : List (Outcome R)) (t : Engine R K), t.sessions id = s.sessions id →
      t.issued id = s.issued id →
      Covers task config id (labels ++ [label])
        (log ++ outcomes.map (Event.mk label.session)) t := by
    intro outcomes t hsession hissued
    refine ⟨fun hfresh => ?_, fun mine hmine => ?_⟩
    · rw [hsteps, hsession]
      exact h.unissued (hissued ▸ hfresh)
    · rw [hsteps, passesOf_other hid]
      exact h.stands mine (hsession ▸ hmine)
  rcases Engine.step_cases hstep with ⟨-, -, -, rfl, rfl⟩ | ⟨outcomes, -, -, rfl, rfl⟩ |
    ⟨session, outcomes, after, -, -, rfl, rfl⟩
  · exact hmove [.cache .create] _ (hothers _) (Function.update_of_ne (Ne.symm hid) ..)
  · exact hmove outcomes _ rfl rfl
  · exact hmove outcomes _ (hothers _) rfl

/-- A step of the session itself. -/
theorem Covers.mine {s s' : Engine R K} {labels : List (Label R)}
    {label : Label R} {log es : List (Event R)}
    (hdenoise : ∀ mode ts pred t latents,
      frameCount (parts.denoise mode ts pred t latents) = frameCount latents)
    (h : Covers task config label.session labels log s)
    (hstep : s.step parts task config label = some (es, s'))
    (hencoded : ∀ latent, label.action = .encoded latent → 0 < frameCount latent)
    (hraised : ∀ e ∈ es, e.session = label.session → e.outcome ≠ .raised) :
    Covers task config label.session (labels ++ [label]) (log ++ es) s' := by
  rcases Engine.step_cases hstep with
    ⟨hnone, hreset, hissued, rfl, rfl⟩ | ⟨outcomes, hnone, hunknown, rfl, rfl⟩ |
    ⟨session, outcomes, after, hsession, hact, rfl, rfl⟩
  · obtain ⟨-, hsteps⟩ := h.unissued hissued
    have hsteps' : stepsOf label.session (labels ++ [label]) = [] := by
      rw [stepsOf_snoc, hsteps, if_pos rfl, hreset]
      rfl
    refine ⟨fun hfresh => by simp [Engine.opened] at hfresh, fun session hsession => ?_⟩
    have hopened : session = Session.opened parts config := by
      simpa [Engine.opened, Engine.setSession, eq_comm] using hsession
    have hpasses : passesOf label.session (log ++ [⟨label.session, .cache .create⟩]) = [] :=
      passesOf_mine label.session log [.cache .create]
    rw [hopened, hsteps', hpasses]
    exact ⟨rfl, rfl, rfl, rfl, rfl⟩
  · obtain ⟨rfl, hexecuted⟩ := unknown_quiet hunknown fun hmem =>
      hraised _ (List.mem_map_of_mem hmem) rfl rfl
    have hsteps : stepsOf label.session (labels ++ [label]) = stepsOf label.session labels := by
      rw [stepsOf_snoc, if_pos rfl, hexecuted, List.append_nil]
    refine ⟨fun hfresh => ?_, fun mine hmine => ?_⟩
    · rw [hsteps]
      exact h.unissued hfresh
    · rw [hnone] at hmine
      cases hmine
  · refine ⟨fun hfresh => ?_, fun session' hsession' => ?_⟩
    · have hnone := (h.unissued hfresh).1
      rw [hsession] at hnone
      cases hnone
    · have hafter : after = some session' := by
        simpa [Engine.acted, Engine.setSession] using hsession'
      subst hafter
      rw [stepsOf_snoc, if_pos rfl, passesOf_mine]
      exact (h.stands session hsession).does hdenoise (Session.act_does hact) hencoded
        fun hmem => hraised _ (List.mem_map_of_mem hmem) rfl rfl

theorem covers_run
    (hdenoise : ∀ mode ts pred t latents,
      frameCount (parts.denoise mode ts pred t latents) = frameCount latents) {id : SessionId}
    {labels : List (Label R)} : ∀ {log : List (Event R)} {s : Engine R K},
      (lingBotVA parts task config table).run (lingBotVA parts task config table).init
        labels = some (log, s) →
      (∀ latent, Label.mk id (.encoded latent) ∈ labels → 0 < frameCount latent) →
      (∀ e ∈ log, e.session = id → e.outcome ≠ .raised) →
      Covers task config id labels log s := by
  induction labels using List.reverseRecOn with
  | nil =>
      intro log s hrun _ _
      cases hrun
      exact ⟨fun _ => ⟨rfl, rfl⟩, nofun⟩
  | append_singleton labels label ih =>
      intro log s hrun hencoded hraised
      obtain ⟨before, t, es, hbefore, hstep, rfl⟩ := Machine.run_snoc_eq_some.mp hrun
      have hcovers := ih hbefore (fun latent hmem => hencoded latent (List.mem_append_left _ hmem))
        fun e he => hraised e (List.mem_append_left _ he)
      by_cases hid : label.session = id
      · subst hid
        refine hcovers.mine hdenoise hstep (fun latent haction => hencoded latent ?_)
          fun e he => hraised e (List.mem_append_right _ he)
        rw [← haction]
        exact List.mem_append_right _ (List.mem_singleton_self _)
      · exact hcovers.other hid hstep

/-- In every run, whatever raises, a session's cache is what its own calls have made of it. -/
theorem cache_replays {labels : List (Label R)} {log : List (Event R)} {s : Engine R K}
    (hrun : (lingBotVA parts task config table).run (lingBotVA parts task config table).init
      labels = some (log, s)) {id : SessionId} {session : Session R K}
    (hsession : s.sessions id = some session) : session.cache = replayOf parts id log := by
  refine Machine.history_reachable (M := lingBotVA parts task config table)
    (C := fun _ _ => True) (H := fun log s => ∀ session, s.sessions id = some session →
      session.cache = replayOf parts id log) nofun ?_
    (Machine.meets_of_forall fun _ _ _ => trivial) hrun session hsession
  intro log s label es s' hs _ hstep session hsession
  by_cases hid : label.session = id
  · subst hid
    rcases Engine.step_cases hstep with
      ⟨-, -, -, rfl, rfl⟩ | ⟨outcomes, hnone, -, rfl, rfl⟩ |
      ⟨before, outcomes, after, hbefore, hact, rfl, rfl⟩
    · have hopened : session = Session.opened parts config := by
        simpa [Engine.opened, Engine.setSession, eq_comm] using hsession
      rw [hopened]
      exact (replayOf_mine label.session log [.cache .create]).symm
    · rw [hnone] at hsession
      cases hsession
    · have hafter : after = some session := by
        simpa [Engine.acted, Engine.setSession] using hsession
      subst hafter
      rw [replayOf_mine, ← hs before hbefore]
      exact (Session.act_does hact).cache
  · have hothers : ∀ u : Option (Session R K),
        Function.update s.sessions label.session u id = s.sessions id := fun u =>
      Function.update_of_ne (Ne.symm hid) ..
    rcases Engine.step_cases hstep with ⟨-, -, -, rfl, rfl⟩ | ⟨outcomes, -, -, rfl, rfl⟩ |
      ⟨before, outcomes, after, -, -, rfl, rfl⟩
    · rw [hs session ((hothers _).symm.trans hsession)]
      exact (replayOf_other hid log [.cache .create]).symm
    · rw [replayOf_other hid]
      exact hs session hsession
    · rw [replayOf_other hid]
      exact hs session ((hothers _).symm.trans hsession)

/-- When none of a session's calls has raised, what it has written between two calls since its
cache was last cleared is: nothing or one prediction, as long as nothing has been executed; then
the observed latents and the first executed actions, both from the first frame on, and after the
last observed frame one predicted chunk for each executed one, each where the one before it ends
and the last at the session's clock.  Actions executed later are never pushed.  The cache is what
the session's calls of the transformer have made of it. -/
theorem cache_covers
    (hdenoise : ∀ mode ts pred t latents,
      frameCount (parts.denoise mode ts pred t latents) = frameCount latents)
    {labels : List (Label R)} {log : List (Event R)} {s : Engine R K}
    (hrun : (lingBotVA parts task config table).run (lingBotVA parts task config table).init
      labels = some (log, s)) {id : SessionId}
    (hencoded : ∀ latent, Label.mk id (.encoded latent) ∈ labels → 0 < frameCount latent)
    (hraised : ∀ e ∈ log, e.session = id → e.outcome ≠ .raised) {session : Session R K}
    (hsession : s.sessions id = some session) (hidle : session.pc = .idle) :
    session.cache = replayOf parts id log ∧ ∃ latent, session.initLatent = some latent ∧
      (stepsOf id labels = [] → session.frameStId = 0 ∧
        (passesOf id log).map Pass.span =
          if session.pendingActions.isSome then chunkSpans config 0 else []) ∧
      ∀ values rest, stepsOf id labels = values :: rest → ∃ full predicted,
        executedLatents task config values = some full ∧
        session.frameStId = frameCount latent + rest.length * config.frameChunkSize ∧
        passesOf id log =
          ⟨.video, 2, 0, latent⟩ :: ⟨.action, 2, 0, full⟩ :: predicted ∧
        predicted.map Pass.span = chunksFrom config (frameCount latent) (rest.length + 1) := by
  refine ⟨cache_replays hrun hsession, ?_⟩
  have hstands := (covers_run hdenoise hrun hencoded hraised).stands session hsession
  unfold Stands at hstands
  split at hstands
  · obtain ⟨latent, hinit, -, hstage⟩ := hstands
    rw [hidle] at hstage
    refine ⟨latent, hinit, fun hnil => ?_, fun values rest hsteps => ?_⟩
    · rw [hnil] at hstage
      rcases hstage with ⟨hpending, -, hframe, hpasses⟩ | ⟨hpending, settled, predicted, hsettled,
        hpasses, hspans⟩
      · rw [hpending, hpasses]
        exact ⟨hframe, rfl⟩
      · have hframe := hsettled.start_zero
        rw [hframe] at hsettled hspans
        cases hsettled
        rw [hpasses, List.nil_append, hspans, if_pos hpending]
        exact ⟨hframe, rfl⟩
    · rw [hsteps] at hstage
      rcases hstage with ⟨-, hexecuted, -, -⟩ | ⟨-, settled, predicted, hsettled, hpasses,
        hspans⟩
      · cases hexecuted
      · generalize hstart : session.frameStId = start at hsettled hspans
        cases hsettled with
        | @grounded _ _ full earlier hfull hearlier =>
            refine ⟨full, earlier ++ predicted, hfull, rfl, hpasses, ?_⟩
            rw [List.map_append, hearlier, hspans, chunksFrom_succ]
  · rw [hidle] at hstands
    cases hstands.1

end Invariant

/-- The call of this outcome raised. -/
def Outcome.raises : Outcome R → Bool
  | .raised => true
  | _ => false

/-- No call is under way. -/
def Pc.isIdle : Pc R → Bool
  | .idle => true
  | _ => false

/-- One session executes two chunks; another opens in between. -/
def twoSteps : List (Label ℚ) :=
  [⟨⟨0⟩, .reset⟩, ⟨⟨0⟩, .encoded onePixel⟩, ⟨⟨0⟩, .step [1]⟩, ⟨⟨0⟩, .advance⟩, ⟨⟨1⟩, .reset⟩,
    ⟨⟨0⟩, .advance⟩, ⟨⟨0⟩, .draw onePixel onePixel⟩, ⟨⟨0⟩, .advance⟩, ⟨⟨0⟩, .advance⟩,
    ⟨⟨0⟩, .advance⟩, ⟨⟨0⟩, .advance⟩, ⟨⟨0⟩, .advance⟩, ⟨⟨0⟩, .step [1]⟩,
    ⟨⟨0⟩, .draw onePixel onePixel⟩, ⟨⟨0⟩, .advance⟩, ⟨⟨0⟩, .advance⟩, ⟨⟨0⟩, .advance⟩,
    ⟨⟨0⟩, .advance⟩, ⟨⟨0⟩, .advance⟩]

theorem twoSteps_covers :
    ∃ log s session latent full predicted,
      (lingBotVA countingParts oneChannel oneFrame fun _ => []).run
        (lingBotVA countingParts oneChannel oneFrame fun _ => []).init twoSteps =
          some (log, s) ∧
      s.sessions ⟨0⟩ = some session ∧ session.frameStId = frameCount latent + 1 ∧
      passesOf ⟨0⟩ log =
        ⟨.video, 2, 0, latent⟩ :: ⟨.action, 2, 0, full⟩ :: predicted ∧
      predicted.map Pass.span = chunksFrom oneFrame (frameCount latent) 2 := by
  have hruns : ((lingBotVA countingParts oneChannel oneFrame fun _ => []).run
      (lingBotVA countingParts oneChannel oneFrame fun _ => []).init twoSteps).any (fun r =>
        r.1.all (fun e => !e.outcome.raises) &&
          (r.2.sessions ⟨0⟩).any fun session => session.pc.isIdle) = true := by
    decide
  obtain ⟨⟨log, s⟩, hrun, hchecks⟩ := (Option.any_eq_true ..).mp hruns
  obtain ⟨hquiet, hidle⟩ := Bool.and_eq_true_iff.mp hchecks
  obtain ⟨session, hsession, hidle⟩ := (Option.any_eq_true ..).mp hidle
  have hencoded : ∀ latent, Label.mk ⟨0⟩ (.encoded latent) ∈ twoSteps → 0 < frameCount latent := by
    intro latent hmem
    simp only [twoSteps, List.mem_cons, Label.mk.injEq, Action.encoded.injEq, reduceCtorEq,
      and_false, false_or, true_and, List.not_mem_nil, or_false] at hmem
    rw [hmem]
    exact Nat.one_pos
  have hraised : ∀ e ∈ log, e.session = ⟨0⟩ → e.outcome ≠ .raised := by
    intro e he _ hraised
    have hnot := List.all_eq_true.mp hquiet e he
    rw [hraised] at hnot
    cases hnot
  have hpc : session.pc = .idle := by
    cases hpc : session.pc with
    | idle => rfl
    | _ =>
        rw [hpc] at hidle
        cases hidle
  obtain ⟨-, latent, -, -, hsteps⟩ := cache_covers (fun _ _ _ _ _ => rfl) hrun hencoded hraised
    hsession hpc
  obtain ⟨full, predicted, -, hframe, hpasses, hspans⟩ := hsteps [1] [[1]] rfl
  exact ⟨log, s, session, latent, full, predicted, hrun, hsession, hframe, hpasses, hspans⟩

end Repercep.Models.LingBotVA
