import Repercep.Foundation.Batch
import Repercep.VJepa.CachedStepping
set_option autoImplicit false

/-!
# The three ways to score candidates

`_candidate_energies` scores the sampled action sequences one by one with
`_rollout_energy`, all at once with `_rollout_energy_batched`, or all at once against a
shared cache with `_rollout_energy_batched_cached`.  Under the `reinit` policy the first
two return the same energies in every state the engine can reach, and the third returns
these or declines; so a plan does not depend on the settings that choose among them.
-/

namespace Repercep.VJepa

open Foundation (Effect Machine stepAll)
open Foundation.Effect (ofOption outcome Paired)

variable {α Cache Rng : Type}

namespace Engine

variable {e : Engine α Cache Rng} {C : Cache → Block α → Prop} {D : Cache → List (Block α) → Prop}

/-- The predictor treats the candidates of a batch one by one. -/
def Pointwise (e : Engine α Cache Rng) : Prop :=
  ∀ {contexts : List (Block α)} {actions : List (Vec α)}, actions.length = contexts.length →
    e.predictor.callBatch contexts actions =
      (contexts.zip actions).mapM fun p => (e.predictor.call p.1 p.2).map Prediction.rows

/-- A candidate that can be rolled out: one action of at least one entry a step, as
`Action` has it. -/
def Candidate (horizon : Nat) (sequence : Sequence α) : Prop :=
  sequence.length = horizon ∧ ∀ values ∈ sequence, values ≠ []

/-- A context after the frame predicted under an action. -/
def extend (e : Engine α Cache Rng) (context : Block α) (values : Vec α) : Option (Block α) :=
  (e.predictor.call context values).map fun nxt =>
    lastRows (e.config.contextFrames * e.tokensPerFrame) (context ++ e.maybeNorm nxt.rows)

/-- The energy of the context a rollout ends in. -/
def energyAt (e : Engine α Cache Rng) (goal context : Block α) : α :=
  e.torch.distance (e.terminal context) goal

/-- The energy of a candidate, without any engine state. -/
def energyOf (e : Engine α Cache Rng) (context goal : Block α) (sequence : Sequence α) :
    Option α :=
  (sequence.foldlM e.extend context).map (e.energyAt goal)

/-! ## The batched rollout -/

theorem length_actionsAt (seqs : List (Sequence α)) (t : Nat) :
    (actionsAt seqs t).length = seqs.length :=
  List.length_map ..

/-- A timestep of the batched rollout extends every context. -/
theorem batchStep_eq (hpointwise : e.Pointwise) {seqs : List (Sequence α)}
    {contexts : List (Block α)} (hlength : contexts.length = seqs.length) (t : Nat) :
    e.batchStep seqs contexts t = stepAll e.extend contexts (actionsAt seqs t) := by
  have hactions : (actionsAt seqs t).length = contexts.length := by
    rw [length_actionsAt, hlength]
  have hfst : (contexts.zip (actionsAt seqs t)).map Prod.fst = contexts :=
    List.map_fst_zip (Nat.le_of_eq hactions.symm)
  have hcombined := Foundation.map_zipWith_mapM
    (fun p : Block α × Vec α => (e.predictor.call p.1 p.2).map Prediction.rows)
    (fun p block => lastRows (e.config.contextFrames * e.tokensPerFrame)
      (p.1 ++ e.maybeNorm block)) (contexts.zip (actionsAt seqs t))
  rw [← hpointwise hactions] at hcombined
  rw [batchStep, stepAll]
  simp only [extend]
  have hstep : ∀ p : Block α × Vec α,
      ((e.predictor.call p.1 p.2).map Prediction.rows).map
          (fun block => lastRows (e.config.contextFrames * e.tokensPerFrame)
            (p.1 ++ e.maybeNorm block)) =
        (e.predictor.call p.1 p.2).map fun nxt =>
          lastRows (e.config.contextFrames * e.tokensPerFrame)
            (p.1 ++ e.maybeNorm nxt.rows) := fun p => Option.map_map ..
  simp only [hstep] at hcombined
  rw [← hcombined]
  have hcut : ∀ blocks : List (Block α),
      (List.zipWith (fun context block => context ++ e.maybeNorm block) contexts blocks).map
          (lastRows (e.config.contextFrames * e.tokensPerFrame)) =
        List.zipWith (fun p block => lastRows (e.config.contextFrames * e.tokensPerFrame)
          (p.1 ++ e.maybeNorm block)) (contexts.zip (actionsAt seqs t)) blocks := by
    intro blocks
    have hleft := @List.zipWith_map_left _ _ _ _ (contexts.zip (actionsAt seqs t)) blocks
      (f := Prod.fst) (g := fun context block =>
        lastRows (e.config.contextFrames * e.tokensPerFrame) (context ++ e.maybeNorm block))
    rw [hfst] at hleft
    rw [List.map_zipWith, ← hleft]
  cases e.predictor.callBatch contexts (actionsAt seqs t) with
  | none => rfl
  | some blocks => exact congrArg some (hcut blocks)

theorem foldlM_batchStep (hpointwise : e.Pointwise) {seqs : List (Sequence α)} :
    ∀ (times : List Nat) {contexts : List (Block α)}, contexts.length = seqs.length →
      times.foldlM (e.batchStep seqs) contexts =
        times.foldlM (fun contexts t => stepAll e.extend contexts (actionsAt seqs t)) contexts := by
  intro times
  induction times with
  | nil => exact fun _ => rfl
  | cons t times ih =>
      intro contexts hlength
      rw [List.foldlM_cons, List.foldlM_cons, batchStep_eq hpointwise hlength t]
      apply Option.bind_congr
      intro grown hgrown
      apply ih
      rw [Foundation.length_of_mapM hgrown, List.length_zip, length_actionsAt, hlength,
        Nat.min_self]

/-- The batched energies are those of the candidates, one by one. -/
theorem rolloutEnergyBatched_eq (hpointwise : e.Pointwise) {state : WorldState α}
    {seqs : List (Sequence α)} {horizon : Nat} (goal : Block α)
    (hseqs : ∀ sequence ∈ seqs, sequence.length = horizon) :
    e.rolloutEnergyBatched state seqs horizon goal =
      seqs.mapM (e.energyOf state.context goal) := by
  have hstart : List.replicate seqs.length state.context =
      (seqs.map fun sequence => (state.context, sequence)).map Prod.fst := by
    rw [List.map_map]
    exact List.map_const'.symm
  have hrows : ∀ t, actionsAt seqs t =
      (seqs.map fun sequence => (state.context, sequence)).map
        fun item => item.2.getD t [] := by
    intro t
    rw [List.map_map]
    rfl
  have hroll := Foundation.foldlM_stepAll e.extend ([] : Vec α) horizon 0
    (seqs.map fun sequence => (state.context, sequence)) (by
      intro item hitem
      obtain ⟨sequence, hmem, rfl⟩ := List.mem_map.mp hitem
      rw [hseqs sequence hmem, Nat.zero_add])
  simp only [← hrows, ← hstart] at hroll
  rw [List.mapM_map, ← List.range_eq_range'] at hroll
  rw [rolloutEnergyBatched, foldlM_batchStep hpointwise _ List.length_replicate, hroll]
  have hscored := Foundation.map_map_mapM
    (fun sequence => sequence.foldlM e.extend state.context) (e.energyAt goal) seqs
  refine Eq.trans ?_ hscored
  change (seqs.mapM fun sequence => List.foldlM e.extend state.context sequence).bind _ = _
  cases seqs.mapM fun sequence => List.foldlM e.extend state.context sequence with
  | none => rfl
  | some contexts => rfl

/-! ## The rollouts one by one -/

section Loop

variable [BEq α] {t : EngineState α Cache Rng}

/-- Without the cache a step only extends the context. -/
theorem outcome_step_extend (huse : e.config.useKvCache = false) (state : WorldState α)
    (action : Action α) :
    outcome (e.step state action) t =
      ((e.extend state.context action.values).map fun context =>
        ({ context := context, stepIndex := state.stepIndex + 1, sessionId := state.sessionId },
          ⟨state.stepIndex + 1⟩), t) := by
  rw [outcome_step_uncached huse, extend, Option.map_map]
  rfl

/-- So a rollout extends it by one frame after the other. -/
theorem outcome_rolled (huse : e.config.useKvCache = false) (sequence : Sequence α) :
    ∀ (state : WorldState α), (∀ values ∈ sequence, values ≠ []) →
      outcome (sequence.foldlM
        (fun rolled values => do
          let action ← ofOption (Action.make values "raw")
          let result ← e.step rolled action
          pure result.1) state) t =
        ((sequence.foldlM e.extend state.context).map fun context =>
          ({ context := context
             stepIndex := state.stepIndex + sequence.length
             sessionId := state.sessionId } : WorldState α), t) := by
  induction sequence with
  | nil => exact fun _ _ => rfl
  | cons values sequence ih =>
      intro state hvalues
      have hmake : Action.make values "raw" = some ⟨values, "raw"⟩ := by
        rw [Action.make, List.isEmpty_eq_false_iff.mpr (hvalues values List.mem_cons_self)]
        rfl
      rw [List.foldlM_cons, List.foldlM_cons, hmake]
      simp only [Effect.outcome_bind, Effect.outcome_ofOption, outcome_step_extend huse]
      cases hextend : e.extend state.context values with
      | none => rfl
      | some context =>
          have hrest := ih ⟨context, state.stepIndex + 1, state.sessionId⟩
            fun row hrow => hvalues row (List.mem_cons_of_mem values hrow)
          simp only [Option.map_some, Effect.outcome_pure, hrest]
          rw [List.length_cons, Nat.add_right_comm, ← Nat.add_assoc]
          rfl

/-- The loop's energy of a candidate. -/
theorem outcome_rolloutEnergy (huse : e.config.useKvCache = false) (state : WorldState α)
    (goal : Block α) {horizon : Nat} {sequence : Sequence α} (hcandidate : Candidate horizon sequence) :
    outcome (e.rolloutEnergy state goal sequence) t =
      (e.energyOf state.context goal sequence, t) := by
  have hrolled := outcome_rolled huse sequence (t := t) state hcandidate.2
  have hscore : e.rolloutEnergy state goal sequence = (sequence.foldlM
      (fun rolled values => do
        let action ← ofOption (Action.make values "raw")
        let result ← e.step rolled action
        pure result.1) state) >>= fun rolled => pure (e.energyAt goal rolled.context) := rfl
  rw [hscore, Effect.outcome_bind, hrolled, energyOf]
  cases sequence.foldlM e.extend state.context with
  | none => rfl
  | some context => rfl

/-- A loop whose items leave the state alone. -/
theorem outcome_mapM {β γ σ : Type} {f : β → Effect σ γ} {g : β → Option γ} {s : σ}
    (xs : List β) (h : ∀ x ∈ xs, outcome (f x) s = (g x, s)) :
    outcome (xs.mapM f) s = (xs.mapM g, s) := by
  induction xs with
  | nil => rfl
  | cons x xs ih =>
      have hhead := h x List.mem_cons_self
      have htail := ih fun y hy => h y (List.mem_cons_of_mem x hy)
      rw [List.mapM_cons, List.mapM_cons]
      cases hx : g x with
      | none =>
          rw [hx] at hhead
          rw [Effect.outcome_bind_of_none hhead]
          rfl
      | some y =>
          rw [hx] at hhead
          rw [Effect.outcome_bind_of_some hhead]
          cases hxs : xs.mapM g with
          | none =>
              rw [hxs] at htail
              rw [Effect.outcome_bind_of_none htail]
              rfl
          | some ys =>
              rw [hxs] at htail
              rw [Effect.outcome_bind_of_some htail]
              rfl

end Loop

/-! ## Planning -/

/-- The engine with the two settings that choose how candidates are scored. -/
def withPaths (e : Engine α Cache Rng) (batched batchedKv : Bool) : Engine α Cache Rng :=
  { e with config := { e.config with planBatched := batched, planBatchedKv := batchedKv } }

/-- A tensor `(H, A)`. -/
def Shaped (horizon dim : Nat) (sequence : Sequence α) : Prop :=
  sequence.length = horizon ∧ ∀ row ∈ sequence, row.length = dim

end Engine

/-- The shapes of what torch returns: `randn` draws what it is asked for, `topk` finds `k`
indices or raises where there are fewer entries, and the statistics of some sequences have
the shape of each. -/
structure Torch.Shapes (torch : Torch α Rng) : Prop where
  randn : ∀ rng samples horizon dim, ∀ noise ∈ (torch.randn rng samples horizon dim).1,
    Engine.Shaped horizon dim noise
  refused : ∀ {energies : List α} {k : Nat}, energies.length < k →
    torch.smallest energies k = none
  smallest : ∀ {energies : List α} {k : Nat} {indices : List Nat},
    torch.smallest energies k = some indices →
      indices.length = k ∧ ∀ i ∈ indices, i < energies.length
  mean : ∀ {elite : List (Sequence α)} {horizon dim : Nat}, elite ≠ [] →
    (∀ sequence ∈ elite, Engine.Shaped horizon dim sequence) →
      Engine.Shaped horizon dim (torch.mean elite)
  std : ∀ {elite : List (Sequence α)} {horizon dim : Nat}, elite ≠ [] →
    (∀ sequence ∈ elite, Engine.Shaped horizon dim sequence) →
      Engine.Shaped horizon dim (torch.std elite)

namespace Engine

variable {e : Engine α Cache Rng} {C : Cache → Block α → Prop} {D : Cache → List (Block α) → Prop}
  {horizon dim : Nat}

/-- Entrywise operations keep the shape. -/
theorem Shaped.zipWith (f : α → α → α) {a b : Sequence α} (ha : Shaped horizon dim a)
    (hb : Shaped horizon dim b) : Shaped horizon dim (List.zipWith (List.zipWith f) a b) := by
  refine ⟨by rw [List.length_zipWith, ha.1, hb.1, Nat.min_self], ?_⟩
  intro row hrow
  rw [← List.map_uncurry_zip_eq_zipWith] at hrow
  obtain ⟨⟨x, y⟩, hpair, rfl⟩ := List.mem_map.mp hrow
  obtain ⟨hx, hy⟩ := List.of_mem_zip hpair
  rw [Function.uncurry_apply_pair, List.length_zipWith, ha.2 x hx, hb.2 y hy, Nat.min_self]

theorem Shaped.candidate {mean std noise : Sequence α} (hmean : Shaped horizon dim mean)
    (hstd : Shaped horizon dim std) (hnoise : Shaped horizon dim noise) :
    Shaped horizon dim (e.candidate mean std noise) :=
  hmean.zipWith e.torch.add (hstd.zipWith e.torch.mul hnoise)

/-- A sequence of rows that are not empty can be rolled out. -/
theorem Shaped.rollable {sequence : Sequence α} (h : Shaped horizon dim sequence)
    (hdim : 0 < dim) : Candidate horizon sequence := by
  refine ⟨h.1, ?_⟩
  intro values hvalues hnil
  have hlength := h.2 values hvalues
  rw [hnil, List.length_nil] at hlength
  omega

/-- The sequences at some indices, of which there is at least one. -/
theorem elite_shaped {torch : Torch α Rng} (hshapes : torch.Shapes) {energies : List α} {k : Nat}
    {indices : List Nat} (hk : 0 < k) (htop : torch.smallest energies k = some indices)
    {seqs : List (Sequence α)} (hlength : energies.length = seqs.length)
    (hseqs : ∀ sequence ∈ seqs, Shaped horizon dim sequence) :
    (indices.filterMap fun i => seqs[i]?) ≠ [] ∧
      ∀ sequence ∈ indices.filterMap fun i => seqs[i]?, Shaped horizon dim sequence := by
  obtain ⟨hcount, hbound⟩ := hshapes.smallest htop
  constructor
  · obtain ⟨i, rest, rfl⟩ := List.exists_cons_of_length_pos (hcount ▸ hk)
    have hi : i < seqs.length := hlength ▸ hbound i List.mem_cons_self
    rw [List.filterMap_cons_some (List.getElem?_eq_getElem hi)]
    exact List.cons_ne_nil _ _
  · intro sequence hmem
    obtain ⟨i, -, hi⟩ := List.mem_filterMap.mp hmem
    exact hseqs sequence (List.mem_of_getElem? hi)

section Uncached

variable [BEq α] (huse : e.config.useKvCache = false) (hpointwise : e.Pointwise)

include huse hpointwise

/-- Without the cache the candidates get their energies on either path; the loop has
nothing to stack when there are none. -/
theorem outcome_candidateEnergies (state : WorldState α) (goal : Block α)
    {seqs : List (Sequence α)} (hseqs : ∀ sequence ∈ seqs, Candidate horizon sequence)
    (t : EngineState α Cache Rng) :
    outcome (e.candidateEnergies state seqs horizon goal) t =
        (seqs.mapM (e.energyOf state.context goal), t) ∨
      outcome (e.candidateEnergies state seqs horizon goal) t =
        ((seqs.mapM (e.energyOf state.context goal)).bind stack, t) := by
  have hloop := outcome_mapM (s := t) seqs fun sequence hmem =>
    outcome_rolloutEnergy (e := e) huse state goal (hseqs sequence hmem)
  unfold candidateEnergies
  split
  · next =>
      rw [huse, Bool.and_false, if_neg Bool.false_ne_true, Effect.outcome_ofOption,
        rolloutEnergyBatched_eq hpointwise goal fun sequence hmem => (hseqs sequence hmem).1]
      exact .inl rfl
  · next =>
      apply Or.inr
      cases henergies : seqs.mapM (e.energyOf state.context goal) with
      | none =>
          rw [henergies] at hloop
          rw [Effect.outcome_bind_of_none hloop]
          rfl
      | some energies =>
          rw [henergies] at hloop
          rw [Effect.outcome_bind_of_some hloop, Effect.outcome_ofOption]
          rfl

/-- One iteration of the search, as the energies of the candidates decide it. -/
theorem outcome_refine_succ (hshapes : e.torch.Shapes) (hdim : 0 < e.config.actionDim)
    (helites : 0 < e.config.planElites) (state : WorldState α) (goal : Block α) (iters : Nat)
    {mean std : Sequence α} (hmean : Shaped horizon e.config.actionDim mean)
    (hstd : Shaped horizon e.config.actionDim std) (t : EngineState α Cache Rng) :
    let drawn := e.torch.randn t.rng e.config.planSamples horizon e.config.actionDim
    let seqs := drawn.1.map (e.candidate mean std)
    outcome (e.refine state goal horizon (iters + 1) mean std) t =
      match (seqs.mapM (e.energyOf state.context goal)).bind fun energies =>
          e.torch.smallest energies e.config.planElites with
      | none => (none, { t with rng := drawn.2 })
      | some indices =>
          outcome (e.refine state goal horizon iters
              (e.torch.mean (indices.filterMap fun i => seqs[i]?))
              (e.torch.std (indices.filterMap fun i => seqs[i]?))) { t with rng := drawn.2 } := by
  intro drawn seqs
  have hseqs : ∀ sequence ∈ seqs, Candidate horizon sequence := by
    intro sequence hmem
    obtain ⟨noise, hnoise, rfl⟩ := List.mem_map.mp hmem
    exact (hmean.candidate hstd (hshapes.randn _ _ _ _ noise hnoise)).rollable hdim
  have hdraw : outcome (e.drawNoise horizon) t = (some drawn.1, { t with rng := drawn.2 }) := rfl
  rw [refine, Effect.outcome_bind_of_some hdraw]
  have hempty : e.torch.smallest [] e.config.planElites = none := hshapes.refused helites
  rcases outcome_candidateEnergies huse hpointwise state goal hseqs { t with rng := drawn.2 } with
    hscored | hscored
  · cases henergies : seqs.mapM (e.energyOf state.context goal) with
    | none =>
        rw [henergies] at hscored
        rw [Effect.outcome_bind_of_none hscored]
        rfl
    | some energies =>
        rw [henergies] at hscored
        rw [Effect.outcome_bind_of_some hscored, Effect.outcome_bind, Effect.outcome_ofOption,
          Option.bind_some]
        cases e.torch.smallest energies e.config.planElites with
        | none => rfl
        | some indices => rfl
  · cases henergies : seqs.mapM (e.energyOf state.context goal) with
    | none =>
        rw [henergies] at hscored
        rw [Effect.outcome_bind_of_none hscored]
        rfl
    | some energies =>
        rw [henergies] at hscored
        cases energies with
        | nil =>
            rw [Effect.outcome_bind_of_none hscored, Option.bind_some, hempty]
        | cons energy energies =>
            rw [Effect.outcome_bind_of_some hscored, Effect.outcome_bind,
              Effect.outcome_ofOption, Option.bind_some]
            cases e.torch.smallest (energy :: energies) e.config.planElites with
            | none => rfl
            | some indices => rfl

/-- The search takes the same course on either path. -/
theorem outcome_refine_paths (hshapes : e.torch.Shapes) (hdim : 0 < e.config.actionDim)
    (helites : 0 < e.config.planElites) (state : WorldState α) (goal : Block α)
    (batched batchedKv batched' batchedKv' : Bool) (iters : Nat) :
    ∀ {mean std : Sequence α} {t : EngineState α Cache Rng},
      Shaped horizon e.config.actionDim mean → Shaped horizon e.config.actionDim std →
        outcome ((e.withPaths batched batchedKv).refine state goal horizon iters mean std) t =
          outcome ((e.withPaths batched' batchedKv').refine state goal horizon iters mean std) t := by
  induction iters with
  | zero => exact fun _ _ => rfl
  | succ iters ih =>
      intro mean std t hmean hstd
      rw [outcome_refine_succ (e := e.withPaths batched batchedKv) huse hpointwise hshapes hdim
          helites state goal iters hmean hstd t,
        outcome_refine_succ (e := e.withPaths batched' batchedKv') huse hpointwise hshapes hdim
          helites state goal iters hmean hstd t]
      let drawn := e.torch.randn t.rng e.config.planSamples horizon e.config.actionDim
      let seqs := drawn.1.map (e.candidate mean std)
      change (match (seqs.mapM (e.energyOf state.context goal)).bind fun energies =>
          e.torch.smallest energies e.config.planElites with
        | none => _
        | some indices => _) = (match (seqs.mapM (e.energyOf state.context goal)).bind
          fun energies => e.torch.smallest energies e.config.planElites with
        | none => _
        | some indices => _)
      cases hbest : (seqs.mapM (e.energyOf state.context goal)).bind fun energies =>
          e.torch.smallest energies e.config.planElites with
      | none => rfl
      | some indices =>
          obtain ⟨energies, henergies, htop⟩ := Option.bind_eq_some_iff.mp hbest
          have hseqs : ∀ sequence ∈ seqs, Shaped horizon e.config.actionDim sequence := by
            intro sequence hmem
            obtain ⟨noise, hnoise, rfl⟩ := List.mem_map.mp hmem
            exact hmean.candidate hstd (hshapes.randn _ _ _ _ noise hnoise)
          obtain ⟨hne, helite⟩ := elite_shaped hshapes helites htop
            (Foundation.length_of_mapM henergies) hseqs
          exact ih (hshapes.mean hne helite) (hshapes.std hne helite)

end Uncached

/-- The warm start has the shape of a candidate. -/
theorem outcome_warmStartMean (horizon : Nat) (sessionId : SessionId) (t : EngineState α Cache Rng) :
    ∃ mean, outcome (e.warmStartMean sessionId horizon) t = (some mean, t) ∧
      Shaped horizon e.config.actionDim mean := by
  have hzeros : Shaped horizon e.config.actionDim
      (List.replicate horizon (List.replicate e.config.actionDim e.torch.zero)) := by
    refine ⟨List.length_replicate, ?_⟩
    intro row hrow
    rw [(List.mem_replicate.mp hrow).2, List.length_replicate]
  cases hprev : if e.config.planWarmStart then t.planMean sessionId else none with
  | none =>
      refine ⟨_, ?_, hzeros⟩
      simp [warmStartMean, Effect.outcome_bind, hprev]
  | some prev =>
      by_cases hshape : prev.length = horizon ∧ ∀ row ∈ prev, row.length = e.config.actionDim
      · refine ⟨prev.drop 1 ++ lastRows 1 prev, ?_, ?_, ?_⟩
        · simp only [warmStartMean, Effect.outcome_bind, Effect.outcome_get, hprev,
            if_pos hshape, Effect.outcome_pure]
        · rw [lastRows, if_neg Nat.one_ne_zero, List.length_append, List.length_drop,
            List.length_drop, ← hshape.1]
          omega
        · intro row hrow
          rcases List.mem_append.mp hrow with hrow | hrow
          · exact hshape.2 row (List.mem_of_mem_drop hrow)
          · rw [lastRows, if_neg Nat.one_ne_zero] at hrow
            exact hshape.2 row (List.mem_of_mem_drop hrow)
      · refine ⟨_, ?_, hzeros⟩
        simp only [warmStartMean, Effect.outcome_bind, Effect.outcome_get, hprev,
          if_neg hshape, Effect.outcome_pure]

/-- Without the cache a plan does not depend on the path. -/
theorem outcome_plan_paths [BEq α] (huse : e.config.useKvCache = false)
    (hpointwise : e.Pointwise) (hshapes : e.torch.Shapes) (hdim : 0 < e.config.actionDim)
    (helites : 0 < e.config.planElites) (state : WorldState α) (goal : Block α)
    (batched batchedKv batched' batchedKv' : Bool) (t : EngineState α Cache Rng) :
    outcome ((e.withPaths batched batchedKv).plan state goal horizon) t =
      outcome ((e.withPaths batched' batchedKv').plan state goal horizon) t := by
  obtain ⟨mean, hwarm, hmean⟩ := outcome_warmStartMean (e := e) horizon
    state.sessionId t
  have hones : Shaped horizon e.config.actionDim
      (mean.map fun row => row.map fun _ => e.torch.one) := by
    refine ⟨by rw [List.length_map, hmean.1], ?_⟩
    intro row hrow
    obtain ⟨old, hold, rfl⟩ := List.mem_map.mp hrow
    rw [List.length_map, hmean.2 old hold]
  have hrefine : outcome ((e.withPaths batched batchedKv).refine state goal horizon
        (e.withPaths batched batchedKv).config.planIters mean
        (mean.map fun row => row.map fun _ => (e.withPaths batched batchedKv).torch.one)) t =
      outcome ((e.withPaths batched' batchedKv').refine state goal horizon
        (e.withPaths batched' batchedKv').config.planIters mean
        (mean.map fun row => row.map fun _ => (e.withPaths batched' batchedKv').torch.one)) t :=
    outcome_refine_paths huse hpointwise hshapes hdim helites state goal batched batchedKv
      batched' batchedKv' e.config.planIters hmean hones
  have hsequence : outcome ((e.withPaths batched batchedKv).planSequence state goal horizon) t =
      outcome ((e.withPaths batched' batchedKv').planSequence state goal horizon) t := by
    have hwarm₁ : outcome ((e.withPaths batched batchedKv).warmStartMean state.sessionId horizon)
        t = (some mean, t) := hwarm
    have hwarm₂ : outcome ((e.withPaths batched' batchedKv').warmStartMean state.sessionId
        horizon) t = (some mean, t) := hwarm
    rw [planSequence, planSequence, Effect.outcome_bind_of_some hwarm₁,
      Effect.outcome_bind_of_some hwarm₂, Effect.outcome_bind, Effect.outcome_bind, hrefine]
    rfl
  rw [plan, plan, Effect.outcome_bind, Effect.outcome_bind, hsequence]

/-! ## The states the engine reaches -/

theorem Coherent.withPaths (h : e.Coherent C) (batched batchedKv : Bool) :
    (e.withPaths batched batchedKv).Coherent C where
  frame := h.frame
  raises := h.raises
  init := h.init
  step := h.step
  append := h.append

theorem CoherentBatch.withPaths (h : e.CoherentBatch D) (batched batchedKv : Bool) :
    (e.withPaths batched batchedKv).CoherentBatch D where
  frames := h.frames
  raises := h.raises
  init := h.init
  step := h.step
  append := h.append

variable [BEq α] (hreinit : e.config.kvEvictPolicy = .reinit) (hcoherent : e.Coherent C)
  (hbatch : e.CoherentBatch D) (heq : ∀ x y : α, (x == y) = true → x = y)

include hreinit hcoherent hbatch heq

/-- Every cache the engine holds after a run is coherent. -/
theorem synced_of_run {rng : Rng} {calls : List (Call α)} {answers : List (Option (Answer α))}
    {s : EngineState α Cache Rng} (hsensible : ∀ call ∈ calls, e.Sensible call)
    (hrun : (e.machine rng).run (e.machine rng).init calls = some (answers, s)) :
    ∃ t, Synced e C s t := by
  apply Machine.history_reachable (C := fun _ call => e.Sensible call)
    (H := fun _ s => ∃ t, Synced e C s t) ?_ ?_
    (Machine.meets_of_forall fun call hmem _ => hsensible call hmem) hrun
  · exact ⟨_, { planMean := rfl, rng := rfl, cached := fun _ _ h => by simp [machine] at h }⟩
  · rintro _ s call es s' ⟨t, h⟩ hcall hstep
    obtain ⟨-, -, h'⟩ :=
      perform_paired hreinit hcoherent (fun _ => hbatch) heq hcall s t h
    cases hstep
    exact ⟨_, h'⟩

/-- **The three ways to score candidates agree.**  Under the `reinit` policy, with a
predictor that is pointwise on a batch and coherent about its caches, in every state the
engine reaches and from every world state: the loop and the batched rollout give any
number of candidates the same energies over any horizon, the cached batched rollout gives
these or declines, and planning returns the same action whichever of the three it uses. -/
theorem energies_agree (hpointwise : e.Pointwise) (hshapes : e.torch.Shapes)
    (hdim : 0 < e.config.actionDim) (helites : 0 < e.config.planElites) {rng : Rng}
    {calls : List (Call α)} {answers : List (Option (Answer α))} {s : EngineState α Cache Rng}
    (hsensible : ∀ call ∈ calls, e.Sensible call)
    (hrun : (e.machine rng).run (e.machine rng).init calls = some (answers, s))
    {state : WorldState α} (hwhole : e.Whole state.context) (goal : Block α)
    (hhorizon : 0 < horizon) :
    (∀ seqs : List (Sequence α), (∀ sequence ∈ seqs, Candidate horizon sequence) →
      (outcome (seqs.mapM (e.rolloutEnergy state goal)) s).1 =
          e.rolloutEnergyBatched state seqs horizon goal ∧
        (e.rolloutEnergyBatchedCached state seqs horizon goal = some none ∨
          e.rolloutEnergyBatchedCached state seqs horizon goal =
            (e.rolloutEnergyBatched state seqs horizon goal).map some)) ∧
    ∀ batched batchedKv batched' batchedKv' : Bool,
      (outcome ((e.withPaths batched batchedKv).plan state goal horizon) s).1 =
        (outcome ((e.withPaths batched' batchedKv').plan state goal horizon) s).1 := by
  obtain ⟨t, hsynced⟩ := synced_of_run hreinit hcoherent hbatch heq hsensible hrun
  constructor
  · intro seqs hseqs
    refine ⟨?_, rolloutEnergyBatchedCached_eq hbatch hwhole seqs hhorizon goal⟩
    obtain ⟨hsame, -, -⟩ :=
      Paired.mapM (rolloutEnergy_paired hreinit hcoherent heq hwhole goal) seqs s t hsynced
    rw [hsame, outcome_mapM (s := t) seqs fun sequence hmem =>
        outcome_rolloutEnergy (e := e.withKvCache false) rfl state goal (hseqs sequence hmem),
      rolloutEnergyBatched_eq hpointwise goal fun sequence hmem => (hseqs sequence hmem).1]
    rfl
  · intro batched batchedKv batched' batchedKv'
    have huncached : ∀ b k : Bool,
        (outcome ((e.withPaths b k).plan state goal horizon) s).1 =
          (outcome (((e.withKvCache false).withPaths b k).plan state goal horizon) t).1 := by
      intro b k
      exact (plan_paired (e := e.withPaths b k) hreinit (hcoherent.withPaths b k)
        (fun _ => hbatch.withPaths b k) heq hwhole hhorizon goal s t
        ⟨hsynced.planMean, hsynced.rng, hsynced.cached⟩).1
    rw [huncached, huncached, outcome_plan_paths (e := e.withKvCache false) rfl hpointwise
      hshapes hdim helites state goal batched batchedKv batched' batchedKv' t]

end Engine

theorem summing_pointwise : summingEngine.Pointwise := by
  intro contexts actions _
  have hall : (contexts.zip actions).mapM (fun p => (summing.call p.1 p.2).map Prediction.rows) =
      some ((contexts.zip actions).map fun p => [[total p.1 + p.2.headD 0]]) :=
    List.mapM_pure (m := Option) (l := contexts.zip actions)
      (f := fun p => [[total p.1 + p.2.headD 0]])
  change some _ = (contexts.zip actions).mapM fun p =>
    (summing.call p.1 p.2).map Prediction.rows
  rw [hall, ← List.map_uncurry_zip_eq_zipWith]
  rfl

theorem summing_shapes : summingEngine.torch.Shapes where
  randn := by
    intro rng samples horizon dim noise hnoise
    rw [(List.mem_replicate.mp hnoise).2]
    refine ⟨List.length_replicate, ?_⟩
    intro row hrow
    rw [(List.mem_replicate.mp hrow).2, List.length_replicate]
  refused := fun hshort => if_pos hshort
  smallest := by
    intro energies k indices htop
    change (if energies.length < k then none else some (List.range k)) = some indices at htop
    split at htop
    · cases htop
    · cases htop
      refine ⟨List.length_range, ?_⟩
      intro i hi
      have hik := List.mem_range.mp hi
      omega
  mean := by
    intro elite horizon dim hne helite
    obtain ⟨sequence, rest, rfl⟩ := List.exists_cons_of_ne_nil hne
    exact helite sequence List.mem_cons_self
  std := by
    intro elite horizon dim hne helite
    obtain ⟨sequence, rest, rfl⟩ := List.exists_cons_of_ne_nil hne
    exact helite sequence List.mem_cons_self

/-- The summing engine, after two steps of a session, scores two candidates: from a context
that fills the window on the way, where the cached rollout declines, and from a shorter one,
where it answers. -/
theorem summing_energies_agree :
    let calls : List (Call Int) := [
      .reset (.rows [[1], [2]]) "a",
      .step ⟨[[1], [2]], 0, "a"⟩ ⟨[5], "raw"⟩]
    let seqs : List (Sequence Int) := [[[4], [1]], [[2], [4]]]
    ∃ answers s, (summingEngine.machine ()).run (summingEngine.machine ()).init calls =
        some (answers, s) ∧
      (outcome (seqs.mapM (summingEngine.rolloutEnergy ⟨[[1], [2]], 0, "a"⟩ [[9]])) s).1 =
        summingEngine.rolloutEnergyBatched ⟨[[1], [2]], 0, "a"⟩ seqs 2 [[9]] ∧
      summingEngine.rolloutEnergyBatchedCached ⟨[[1]], 0, "a"⟩ seqs 2 [[9]] =
        some (some [2, 1]) ∧
      (outcome (seqs.mapM (summingEngine.rolloutEnergy ⟨[[1]], 0, "a"⟩ [[9]])) s).1 =
        some [2, 1] := by
  refine ⟨_, _, rfl, ?_⟩
  have hrun : (summingEngine.machine ()).run (summingEngine.machine ()).init
      [.reset (.rows [[1], [2]]) "a", .step ⟨[[1], [2]], 0, "a"⟩ ⟨[5], "raw"⟩] = some (_, _) := rfl
  have hseqs : ∀ sequence ∈ ([[[4], [1]], [[2], [4]]] : List (Sequence Int)),
      Engine.Candidate 2 sequence := by
    simp [Engine.Candidate]
  have henergies (context : Block Int) (hwhole : summingEngine.Whole context) :=
    (@Engine.energies_agree _ _ _ summingEngine _ _ 2 _ rfl summing_coherent
      summing_coherentBatch (fun _ _ h => eq_of_beq h) summing_pointwise summing_shapes (by decide)
      (by decide) () _ _ _ (by decide) hrun ⟨context, 0, "a"⟩ hwhole [[9]] (by decide)).1 _ hseqs
  have hlong := henergies [[1], [2]] ⟨2, rfl⟩
  have hshort := henergies [[1]] ⟨1, rfl⟩
  have hcached : summingEngine.rolloutEnergyBatchedCached ⟨[[1]], 0, "a"⟩
      [[[4], [1]], [[2], [4]]] 2 [[9]] = some (some [2, 1]) := rfl
  refine ⟨hlong.1, hcached, ?_⟩
  rcases hshort.2 with hnone | hsome
  · rw [hcached] at hnone
    cases hnone
  · rw [hcached] at hsome
    rw [hshort.1]
    cases hbatched : summingEngine.rolloutEnergyBatched ⟨[[1]], 0, "a"⟩
        [[[4], [1]], [[2], [4]]] 2 [[9]] with
    | none =>
        rw [hbatched] at hsome
        cases hsome
    | some energies =>
        rw [hbatched] at hsome
        cases hsome
        rfl

end Repercep.VJepa
