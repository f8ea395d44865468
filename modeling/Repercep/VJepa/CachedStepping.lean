import Mathlib.Algebra.Ring.Int.Defs
import Repercep.Foundation.CausalStack
import Repercep.VJepa.Engine
set_option autoImplicit false

/-!
# Cached stepping against full recomputation

Under the `reinit` policy the predictor cache changes no answer.  The invariant is
that every session's cache is coherent with the context its entry records; a
step that finds its context in the entry may then predict from the cache, and a
step whose window is full leaves no entry behind.  What coherence asks of the
predictor is stated in `Coherent`, over an arbitrary relation between caches and
contexts.
-/

namespace Repercep.VJepa

open Foundation (Effect Machine zipWith_of_forall_left)
open Foundation.Effect (ofOption outcome Paired)

variable {α Cache Rng : Type}

namespace Engine

/-- The engine with `use_kv_cache` set. -/
def withKvCache (e : Engine α Cache Rng) (use : Bool) : Engine α Cache Rng :=
  { e with config := { e.config with useKvCache := use } }

/-- The context holds a whole number of frames. -/
def Whole (e : Engine α Cache Rng) (context : Block α) : Prop :=
  e.tokensPerFrame ∣ context.length

/-- The cached API of the predictor is coherent: `C cache context` says that the
cache stands for the context.  A fresh cache does, stepping a cache predicts what
the predictor predicts on its context, and appending the new normed block keeps
it in step.  A predicted block is one frame. -/
structure Coherent (e : Engine α Cache Rng) (C : Cache → Block α → Prop) : Prop where
  frame : ∀ {context action nxt}, e.Whole context →
    e.predictor.call context action = some nxt → nxt.rows.length = e.tokensPerFrame
  raises : ∀ {context}, e.Whole context → e.predictor.initCache context = none →
    ∀ action, e.predictor.call context action = none
  init : ∀ {context cache}, e.Whole context →
    e.predictor.initCache context = some cache → C cache context
  step : ∀ {cache context}, C cache context → ∀ action,
    (e.predictor.stepCached cache action).map Prod.fst = e.predictor.call context action
  append : ∀ {cache context action nxt staged}, C cache context →
    e.predictor.stepCached cache action = some (nxt, staged) →
    ∃ grown, e.predictor.appendFrame staged (e.maybeNorm nxt.rows) = some grown ∧
      C grown (context ++ e.maybeNorm nxt.rows)

/-- The same of the candidate batch, where one fresh cache stands for every
candidate's copy of the context. -/
structure CoherentBatch (e : Engine α Cache Rng) (C : Cache → List (Block α) → Prop) :
    Prop where
  frames : ∀ {contexts actions blocks}, (∀ context ∈ contexts, e.Whole context) →
    actions.length = contexts.length → e.predictor.callBatch contexts actions = some blocks →
    blocks.length = contexts.length ∧ ∀ block ∈ blocks, block.length = e.tokensPerFrame
  raises : ∀ {context}, e.Whole context → e.predictor.initCache context = none →
    ∀ actions, e.predictor.callBatch (List.replicate actions.length context) actions = none
  init : ∀ {context cache}, e.Whole context → e.predictor.initCache context = some cache →
    ∀ samples, C cache (List.replicate samples context)
  step : ∀ {cache contexts}, C cache contexts → ∀ actions, actions.length = contexts.length →
    (e.predictor.stepCachedBatch cache actions).map Prod.fst =
      e.predictor.callBatch contexts actions
  append : ∀ {cache contexts actions blocks staged}, C cache contexts →
    actions.length = contexts.length →
    e.predictor.stepCachedBatch cache actions = some (blocks, staged) →
    ∃ grown, e.predictor.appendFrameBatch staged (blocks.map e.maybeNorm) = some grown ∧
      C grown (List.zipWith (fun context block => context ++ e.maybeNorm block) contexts blocks)

end Engine

/-! ## The window -/

theorem Engine.maybeNorm_length (e : Engine α Cache Rng) (reps : Block α) :
    (e.maybeNorm reps).length = reps.length := by
  unfold Engine.maybeNorm
  split
  · exact List.length_map _
  · rfl

/-- Below the cap nothing is cut off. -/
theorem lastRows_of_le {β : Type} {keep : Nat} {rows : List β} (h : rows.length ≤ keep) :
    lastRows keep rows = rows := by
  unfold lastRows
  split
  · rfl
  · rw [Nat.sub_eq_zero_of_le h, List.drop_zero]

/-- A whole number of frames is cut to a whole number of frames. -/
theorem dvd_length_lastRows {β : Type} {tokens frames : Nat} {rows : List β}
    (h : tokens ∣ rows.length) : tokens ∣ (lastRows (frames * tokens) rows).length := by
  unfold lastRows
  split
  · exact h
  · rw [List.length_drop, Nat.sub_sub_eq_min]
    obtain ⟨k, hk⟩ := h
    rw [hk, Nat.mul_comm frames, Nat.mul_min_mul_left]
    exact Nat.dvd_mul_right _ _

namespace Engine

/-- Below the window's cap a step only appends. -/
theorem advance_context_of_lt {e : Engine α Cache Rng} {state : WorldState α} {block : Block α}
    (hwhole : e.Whole state.context) (hblock : block.length = e.tokensPerFrame)
    (hroom : e.framesNow state.context < e.config.contextFrames) :
    (e.advance state block).context = state.context ++ block := by
  apply lastRows_of_le
  obtain ⟨frames, hframes⟩ := hwhole
  rw [List.length_append, hblock, hframes]
  cases htokens : e.tokensPerFrame with
  | zero => simp
  | succ tokens =>
      have hnow : e.framesNow state.context = frames := by
        rw [framesNow, hframes, htokens, Nat.mul_div_cancel_left _ (Nat.succ_pos tokens)]
      rw [hnow] at hroom
      calc (tokens + 1) * frames + (tokens + 1)
          = (frames + 1) * (tokens + 1) := by
            rw [Nat.succ_mul frames, Nat.mul_comm frames]
        _ ≤ e.config.contextFrames * (tokens + 1) := Nat.mul_le_mul_right _ hroom

/-- A step keeps whole frames. -/
theorem whole_advance {e : Engine α Cache Rng} {state : WorldState α} {block : Block α}
    (hwhole : e.Whole state.context) (hblock : block.length = e.tokensPerFrame) :
    e.Whole (e.advance state block).context := by
  apply dvd_length_lastRows
  rw [List.length_append, hblock]
  exact Nat.dvd_add hwhole (Nat.dvd_refl _)

/-! ## One step -/

/-- The states of the two engines: the same warm starts and generator, and every
cache kept is coherent with its recorded context. -/
structure Synced (e : Engine α Cache Rng) (C : Cache → Block α → Prop)
    (s t : EngineState α Cache Rng) : Prop where
  planMean : s.planMean = t.planMean
  rng : s.rng = t.rng
  cached : ∀ sessionId entry, s.kvCache sessionId = some entry →
    e.Whole entry.lastContext ∧ C entry.cache entry.lastContext

variable {e : Engine α Cache Rng} {C : Cache → Block α → Prop} {s t : EngineState α Cache Rng}

/-- Writing a session's entry keeps the engines synced when the entry is coherent. -/
theorem Synced.update (h : Synced e C s t) (sessionId : SessionId)
    {written : Option (CacheEntry α Cache)}
    (hwritten : ∀ entry, written = some entry →
      e.Whole entry.lastContext ∧ C entry.cache entry.lastContext) :
    Synced e C { s with kvCache := Function.update s.kvCache sessionId written } t where
  planMean := h.planMean
  rng := h.rng
  cached := by
    intro i entry hentry
    by_cases hi : i = sessionId
    · subst hi
      exact hwritten entry (by simpa using hentry)
    · exact h.cached i entry (by simpa [hi] using hentry)

theorem Synced.drop (h : Synced e C s t) (sessionId : SessionId) :
    Synced e C { s with kvCache := Function.update s.kvCache sessionId none } t :=
  h.update sessionId (by simp)

theorem Synced.keep (h : Synced e C s t) (sessionId : SessionId) (entry : CacheEntry α Cache)
    (hwhole : e.Whole entry.lastContext) (hcoherent : C entry.cache entry.lastContext) :
    Synced e C { s with kvCache := Function.update s.kvCache sessionId (some entry) } t :=
  h.update sessionId (by simp [hwhole, hcoherent])

/-- What the cached path leaves of the session's entry. -/
theorem syncKvCache_synced (hreinit : e.config.kvEvictPolicy = .reinit) (h : Synced e C s t)
    {state : WorldState α} (hwhole : e.Whole state.context) {nxt : Prediction α}
    (hframe : nxt.rows.length = e.tokensPerFrame) {staged grown : Cache}
    (happend : e.predictor.appendFrame staged (e.maybeNorm nxt.rows) = some grown)
    (hgrown : C grown (state.context ++ e.maybeNorm nxt.rows)) :
    ∃ s', outcome (e.syncKvCache state state.sessionId
        (e.advance state (e.maybeNorm nxt.rows)).context staged (e.maybeNorm nxt.rows)) s =
          (some PUnit.unit, s') ∧ Synced e C s' t := by
  have hblock : (e.maybeNorm nxt.rows).length = e.tokensPerFrame := by
    rw [maybeNorm_length, hframe]
  by_cases hfull : e.config.contextFrames ≤ e.framesNow state.context
  · refine ⟨_, ?_, h.drop state.sessionId⟩
    simp [syncKvCache, hfull, hreinit, dropCache]
  · have hcontext : C grown (e.advance state (e.maybeNorm nxt.rows)).context := by
      rw [advance_context_of_lt hwhole hblock (Nat.lt_of_not_le hfull)]
      exact hgrown
    refine ⟨_, ?_, h.keep state.sessionId ⟨grown, _⟩ (whole_advance hwhole hblock) hcontext⟩
    simp [syncKvCache, hfull, happend, keepCache, Effect.outcome_bind]

section Steps

variable [BEq α]

/-- Without the cache a step is the predictor's call on the context. -/
theorem outcome_step_uncached (huse : e.config.useKvCache = false) (state : WorldState α)
    (action : Action α) :
    outcome (e.step state action) t =
      ((e.predictor.call state.context action.values).map (e.stepped state), t) := by
  have hpath : ∀ entry, e.cachedPath entry state.context = false := by
    intro entry
    simp [cachedPath, huse]
  simp only [step, huse, hpath, Bool.false_and, Bool.false_eq_true, if_false,
    Effect.outcome_bind, Effect.outcome_get, Effect.outcome_ofOption]
  cases e.predictor.call state.context action.values with
  | none => rfl
  | some nxt => rfl

/-- On the cached path a step predicts from the session's cache and then syncs it. -/
theorem outcome_step_of_cachedPath {state : WorldState α}
    (hpath : e.cachedPath (s.kvCache state.sessionId) state.context = true)
    (action : Action α) :
    outcome (e.step state action) s =
      outcome (do
        let predicted ← e.stepCached state action.values
        e.syncKvCache state state.sessionId
          (e.advance state (e.maybeNorm predicted.1.rows)).context predicted.2
          (e.maybeNorm predicted.1.rows)
        pure (e.stepped state predicted.1)) s := by
  simp [step, hpath, Effect.outcome_bind]
  rfl

/-- A cached prediction leaves the state alone. -/
theorem outcome_stepCached (state : WorldState α) (action : Vec α) :
    outcome (e.stepCached state action) s =
      ((e.cacheFor (s.kvCache state.sessionId) state.context).bind
        fun cache => e.predictor.stepCached cache action, s) := by
  simp only [stepCached, Effect.outcome_bind, Effect.outcome_get, Effect.outcome_ofOption]
  cases e.cacheFor (s.kvCache state.sessionId) state.context <;> rfl

/-- What an entry-by-entry comparison of lists finds. -/
theorem eq_of_beq_list {β : Type} [BEq β] (heq : ∀ x y : β, (x == y) = true → x = y) :
    ∀ xs ys : List β, (xs == ys) = true → xs = ys := by
  intro xs
  induction xs with
  | nil =>
      intro ys h
      cases ys with
      | nil => rfl
      | cons y ys => simp at h
  | cons x xs ih =>
      intro ys h
      cases ys with
      | nil => simp at h
      | cons y ys =>
          rw [List.cons_beq_cons, Bool.and_eq_true] at h
          rw [heq x y h.1, ih ys h.2]

/-- A context found the same is the same context. -/
theorem eq_of_sameTensor (heq : ∀ x y : α, (x == y) = true → x = y) {a b : Block α}
    (h : sameTensor a b = true) : a = b := by
  rw [sameTensor, Bool.and_eq_true] at h
  exact eq_of_beq_list (eq_of_beq_list heq) a b h.2

/-- The cache a step predicts from stands for the context it is given: the session's
entry is reused only where its recorded context is that one. -/
theorem cacheFor_coherent (hcoherent : e.Coherent C)
    (heq : ∀ x y : α, (x == y) = true → x = y) (h : Synced e C s t) (sessionId : SessionId)
    {context : Block α} (hwhole : e.Whole context) :
    (e.cacheFor (s.kvCache sessionId) context = none ∧
      ∀ action, e.predictor.call context action = none) ∨
    ∃ cache, e.cacheFor (s.kvCache sessionId) context = some cache ∧ C cache context := by
  have hfresh : (e.predictor.initCache context = none ∧
        ∀ action, e.predictor.call context action = none) ∨
      ∃ cache, e.predictor.initCache context = some cache ∧ C cache context := by
    cases hinit : e.predictor.initCache context with
    | none => exact Or.inl ⟨rfl, hcoherent.raises hwhole hinit⟩
    | some cache => exact Or.inr ⟨cache, rfl, hcoherent.init hwhole hinit⟩
  cases hentry : s.kvCache sessionId with
  | none => exact hfresh
  | some entry =>
      cases hsame : sameTensor entry.lastContext context with
      | false => simpa [cacheFor, hsame] using hfresh
      | true =>
          have hcache := (h.cached sessionId entry hentry).2
          rw [eq_of_sameTensor heq hsame] at hcache
          exact Or.inr ⟨entry.cache, by simp [cacheFor, hsame], hcache⟩

variable (hreinit : e.config.kvEvictPolicy = .reinit) (hcoherent : e.Coherent C)
  (heq : ∀ x y : α, (x == y) = true → x = y) {state : WorldState α}
  (hwhole : e.Whole state.context)

include hreinit hcoherent heq hwhole

/-- With the cache a step returns the predictor's answer on the context as well, and
leaves the engines synced. -/
theorem outcome_step_cached (h : Synced e C s t) (action : Action α) :
    ∃ s', outcome (e.step state action) s =
        ((e.predictor.call state.context action.values).map (e.stepped state), s') ∧
      Synced e C s' t := by
  cases hpath : e.cachedPath (s.kvCache state.sessionId) state.context with
  | false =>
      cases hcapable : e.config.useKvCache && e.predictor.supportsKvCache with
      | false =>
          refine ⟨s, ?_, h⟩
          simp [step, hpath, hcapable, Effect.outcome_bind]
      | true =>
          refine ⟨_, ?_, h.drop state.sessionId⟩
          simp [step, hpath, hcapable, Effect.outcome_bind, dropCache]
  | true =>
      rw [outcome_step_of_cachedPath hpath]
      have hpredict := outcome_stepCached (e := e) (s := s) state action.values
      rcases cacheFor_coherent hcoherent heq h state.sessionId hwhole with
        ⟨hnone, hraises⟩ | ⟨cache, hsome, hcache⟩
      · rw [hnone, Option.bind_none] at hpredict
        rw [Effect.outcome_bind_of_none hpredict, hraises]
        exact ⟨s, rfl, h⟩
      · rw [hsome, Option.bind_some] at hpredict
        rw [← hcoherent.step hcache action.values]
        cases hstep : e.predictor.stepCached cache action.values with
        | none =>
            rw [hstep] at hpredict
            rw [Effect.outcome_bind_of_none hpredict]
            exact ⟨s, rfl, h⟩
        | some predicted =>
            rw [hstep] at hpredict
            have hcall : e.predictor.call state.context action.values = some predicted.1 := by
              rw [← hcoherent.step hcache, hstep, Option.map_some]
            obtain ⟨grown, happend, hgrown⟩ := hcoherent.append hcache hstep
            obtain ⟨s', hsync, hs'⟩ := syncKvCache_synced hreinit h hwhole
              (hcoherent.frame hwhole hcall) happend hgrown
            rw [Effect.outcome_bind_of_some hpredict, Effect.outcome_bind_of_some hsync]
            exact ⟨s', rfl, hs'⟩

/-- A step returns the same with the cache and without it. -/
theorem step_paired (action : Action α) :
    Paired (Synced e C) (fun result => e.Whole result.1.context) (e.step state action)
      ((e.withKvCache false).step state action) := by
  apply Paired.of_outcome
  intro s t h
  obtain ⟨s', hcached, hs'⟩ := outcome_step_cached hreinit hcoherent heq hwhole h action
  refine ⟨_, s', t, hcached, outcome_step_uncached rfl state action, ?_, hs'⟩
  intro result hresult
  obtain ⟨nxt, hcall, rfl⟩ := Option.map_eq_some_iff.mp hresult
  apply whole_advance hwhole
  rw [maybeNorm_length, hcoherent.frame hwhole hcall]

/-! ## Planning -/

/-- A rollout scores the same, and so does each of its steps. -/
theorem rolloutEnergy_paired (goal : Block α) (sequence : Sequence α) :
    Paired (Synced e C) (fun _ => True) (e.rolloutEnergy state goal sequence)
      ((e.withKvCache false).rolloutEnergy state goal sequence) := by
  have hrolled : Paired (Synced e C) (fun rolled => e.Whole rolled.context)
      (sequence.foldlM (fun rolled values => do
        let action ← ofOption (Action.make values "raw")
        let result ← e.step rolled action
        pure result.1) state)
      (sequence.foldlM (fun rolled values => do
        let action ← ofOption (Action.make values "raw")
        let result ← (e.withKvCache false).step rolled action
        pure result.1) state) := by
    refine Paired.foldlM ?_ sequence state hwhole
    intro rolled values hrolled
    apply Paired.bind (Paired.ofOption (Q := fun _ => True) fun _ _ => trivial)
    intro action _
    apply Paired.bind (step_paired hreinit hcoherent heq hrolled action)
    intro result hresult
    exact Paired.pure hresult
  apply hrolled.bind
  intro rolled _
  exact Paired.pure trivial

end Steps

/-! ### The candidate batch -/

/-- How far the batched rollouts have come: `frames` frames in every candidate's
window, a cache that stands for them, and the last normed frames at their ends. -/
structure Rolled (e : Engine α Cache Rng) (D : Cache → List (Block α) → Prop)
    (seqs : List (Sequence α)) (frames : Nat) (rolled : Option (List (Block α)) × Cache)
    (contexts : List (Block α)) : Prop where
  cache : D rolled.2 contexts
  samples : contexts.length = seqs.length
  window : ∀ context ∈ contexts, context.length = frames * e.tokensPerFrame
  last : ∀ terminal, rolled.1 = some terminal → terminal = contexts.map e.terminal

variable {D : Cache → List (Block α) → Prop}

/-- The last frame of a context is the block just appended. -/
theorem terminal_append {context block : Block α} {frames : Nat}
    (hcontext : context.length = frames * e.tokensPerFrame)
    (hblock : block.length = e.tokensPerFrame) : e.terminal (context ++ block) = block := by
  unfold terminal lastRows
  split
  next hzero =>
      have hnil : context = [] := by
        rw [← List.length_eq_zero_iff, hcontext, hzero, Nat.mul_zero]
      rw [hnil, List.nil_append]
  next =>
      rw [List.length_append, hblock, Nat.add_sub_cancel, List.drop_left]

/-- The window of each candidate after a timestep. -/
theorem length_of_mem_grown {contexts blocks : List (Block α)} {frames : Nat}
    (hcontexts : ∀ context ∈ contexts, context.length = frames * e.tokensPerFrame)
    (hblocks : ∀ block ∈ blocks, block.length = e.tokensPerFrame) :
    ∀ context ∈ List.zipWith (fun context block => context ++ e.maybeNorm block) contexts blocks,
      context.length = (frames + 1) * e.tokensPerFrame := by
  intro context hmem
  rw [← List.map_uncurry_zip_eq_zipWith] at hmem
  obtain ⟨⟨prior, block⟩, hpair, rfl⟩ := List.mem_map.mp hmem
  obtain ⟨hprior, hblock⟩ := List.of_mem_zip hpair
  rw [Function.uncurry_apply_pair, List.length_append, hcontexts prior hprior,
    maybeNorm_length, hblocks block hblock, Nat.succ_mul]

/-- The last frames of the windows after a timestep are the normed predictions. -/
theorem map_terminal_grown {frames : Nat} :
    ∀ {contexts blocks : List (Block α)}, blocks.length = contexts.length →
      (∀ context ∈ contexts, context.length = frames * e.tokensPerFrame) →
      (∀ block ∈ blocks, block.length = e.tokensPerFrame) →
      (List.zipWith (fun context block => context ++ e.maybeNorm block) contexts blocks).map
        e.terminal = blocks.map e.maybeNorm := by
  intro contexts
  induction contexts with
  | nil =>
      intro blocks hlength _ _
      rw [List.eq_nil_of_length_eq_zero hlength]
      rfl
  | cons context contexts ih =>
      intro blocks hlength hcontexts hblocks
      cases blocks with
      | nil => simp at hlength
      | cons block blocks =>
          have hblock := hblocks block List.mem_cons_self
          rw [List.zipWith_cons_cons, List.map_cons, List.map_cons,
            terminal_append (hcontexts context List.mem_cons_self)
              ((e.maybeNorm_length block).trans hblock),
            ih (Nat.succ.inj hlength) (fun c hc => hcontexts c (List.mem_cons_of_mem _ hc))
              (fun b hb => hblocks b (List.mem_cons_of_mem _ hb))]

/-- One timestep keeps the two batched rollouts together while the window has room. -/
theorem Rolled.step (hbatch : e.CoherentBatch D) {seqs : List (Sequence α)} {frames : Nat}
    {rolled : Option (List (Block α)) × Cache} {contexts : List (Block α)}
    (h : e.Rolled D seqs frames rolled contexts) (hroom : frames < e.config.contextFrames)
    (t : Nat) :
    (e.cachedBatchStep seqs rolled t = none ∧ e.batchStep seqs contexts t = none) ∨
    ∃ rolled' contexts', e.cachedBatchStep seqs rolled t = some rolled' ∧
      e.batchStep seqs contexts t = some contexts' ∧
      e.Rolled D seqs (frames + 1) rolled' contexts' ∧
      rolled'.1 = some (contexts'.map e.terminal) := by
  have hactions : (actionsAt seqs t).length = contexts.length := by
    rw [actionsAt, List.length_map, h.samples]
  have hwhole : ∀ context ∈ contexts, e.Whole context :=
    fun context hmem => ⟨frames, by rw [h.window context hmem, Nat.mul_comm]⟩
  have hcall := hbatch.step h.cache _ hactions
  cases hstep : e.predictor.stepCachedBatch rolled.2 (actionsAt seqs t) with
  | none =>
      rw [hstep, Option.map_none] at hcall
      exact Or.inl ⟨by simp [cachedBatchStep, hstep], by simp [batchStep, ← hcall]⟩
  | some predicted =>
      obtain ⟨blocks, staged⟩ := predicted
      rw [hstep, Option.map_some] at hcall
      obtain ⟨grown, happend, hgrown⟩ := hbatch.append h.cache hactions hstep
      obtain ⟨hlength, hframes⟩ := hbatch.frames hwhole hactions hcall.symm
      have hwindow := length_of_mem_grown (e := e) h.window hframes
      have hterminal := map_terminal_grown (e := e) hlength h.window hframes
      have huncut : (List.zipWith (fun context block => context ++ e.maybeNorm block)
          contexts blocks).map (lastRows (e.config.contextFrames * e.tokensPerFrame)) =
            List.zipWith (fun context block => context ++ e.maybeNorm block) contexts blocks := by
        rw [List.map_congr_left (g := id), List.map_id]
        intro context hmem
        apply lastRows_of_le
        rw [hwindow context hmem]
        exact Nat.mul_le_mul_right _ hroom
      have hcached : e.cachedBatchStep seqs rolled t =
          some (some (blocks.map e.maybeNorm), grown) := by
        simp [cachedBatchStep, hstep, happend]
      have hplain : e.batchStep seqs contexts t =
          some (List.zipWith (fun context block => context ++ e.maybeNorm block)
            contexts blocks) := by
        rw [batchStep, ← hcall, ← huncut]
        rfl
      refine Or.inr ⟨_, _, hcached, hplain, ?_, by rw [hterminal]⟩
      exact {
        cache := hgrown
        samples := by rw [List.length_zipWith, hlength, Nat.min_self, h.samples]
        window := hwindow
        last := by
          intro terminal hlast
          rw [← Option.some.inj hlast, hterminal]
      }

/-- A whole rollout of the candidates: both versions raise, or both end with the same
last frames. -/
theorem Rolled.run (hbatch : e.CoherentBatch D) {seqs : List (Sequence α)} :
    ∀ (times : List Nat) {frames : Nat} {rolled : Option (List (Block α)) × Cache}
      {contexts : List (Block α)}, e.Rolled D seqs frames rolled contexts →
      frames + times.length ≤ e.config.contextFrames →
      (times.foldlM (e.cachedBatchStep seqs) rolled = none ∧
        times.foldlM (e.batchStep seqs) contexts = none) ∨
      ∃ rolled' contexts', times.foldlM (e.cachedBatchStep seqs) rolled = some rolled' ∧
        times.foldlM (e.batchStep seqs) contexts = some contexts' ∧
        (rolled.1 ≠ none ∨ times ≠ [] → rolled'.1 = some (contexts'.map e.terminal)) := by
  intro times
  induction times with
  | nil =>
      intro frames rolled contexts h _
      refine Or.inr ⟨rolled, contexts, rfl, rfl, ?_⟩
      intro hsome
      obtain ⟨terminal, hterminal⟩ := Option.ne_none_iff_exists'.mp (hsome.resolve_right (by simp))
      rw [hterminal, h.last terminal hterminal]
  | cons t times ih =>
      intro frames rolled contexts h hroom
      rw [List.length_cons] at hroom
      rcases h.step hbatch (by omega) t with ⟨hnone, hnone'⟩ |
        ⟨rolled', contexts', hstep, hstep', h', hlast⟩
      · exact Or.inl ⟨by simp [List.foldlM_cons, hnone], by simp [List.foldlM_cons, hnone']⟩
      · rcases ih h' (by omega) with ⟨hrest, hrest'⟩ | ⟨last, ends, hrest, hrest', hterminal⟩
        · exact Or.inl ⟨by simp [List.foldlM_cons, hstep, hrest],
            by simp [List.foldlM_cons, hstep', hrest']⟩
        · exact Or.inr ⟨last, ends, by simp [List.foldlM_cons, hstep, hrest],
            by simp [List.foldlM_cons, hstep', hrest'],
            fun _ => hterminal (Or.inl (by simp [hlast]))⟩

/-- The cached energies are the plain batched ones, where they do not decline. -/
theorem rolloutEnergyBatchedCached_eq (hbatch : e.CoherentBatch D) {state : WorldState α}
    (hwhole : e.Whole state.context) (seqs : List (Sequence α)) {horizon : Nat}
    (hhorizon : 0 < horizon) (goal : Block α) :
    e.rolloutEnergyBatchedCached state seqs horizon goal = some none ∨
    e.rolloutEnergyBatchedCached state seqs horizon goal =
      (e.rolloutEnergyBatched state seqs horizon goal).map some := by
  unfold rolloutEnergyBatchedCached
  cases hcapable : e.predictor.supportsKvCache with
  | false => exact Or.inl rfl
  | true =>
      rw [Bool.not_true, if_neg Bool.false_ne_true]
      split
      next => exact Or.inl rfl
      next hfits =>
        apply Or.inr
        have hwindow : state.context.length =
            e.framesNow state.context * e.tokensPerFrame :=
          (Nat.div_mul_cancel hwhole).symm
        cases hinit : e.predictor.initCache state.context with
        | none =>
            have hraises := hbatch.raises hwhole hinit (actionsAt seqs 0)
            rw [actionsAt, List.length_map, ← actionsAt] at hraises
            obtain ⟨later, rfl⟩ := Nat.exists_eq_succ_of_ne_zero (Nat.ne_of_gt hhorizon)
            simp [rolloutEnergyBatched, List.range_succ_eq_map, batchStep, hraises]
        | some cache =>
            have hstart : e.Rolled D seqs (e.framesNow state.context) (none, cache)
                (List.replicate seqs.length state.context) := {
              cache := hbatch.init hwhole hinit _
              samples := List.length_replicate
              window := by
                intro context hmem
                rw [(List.mem_replicate.mp hmem).2]
                exact hwindow
              last := by simp }
            have hrange : List.range horizon ≠ [] := by
              rw [Ne, List.range_eq_nil]
              omega
            rcases hstart.run hbatch (List.range horizon) (by rw [List.length_range]; omega) with
              ⟨hnone, hnone'⟩ | ⟨rolled, contexts, hsome, hsome', hterminal⟩
            · simp [rolloutEnergyBatched, hnone, hnone']
            · simp [rolloutEnergyBatched, hsome, hsome', hterminal (Or.inr hrange)]

/-- Writing a session's warm start on both sides. -/
theorem Synced.warmStart (h : Synced e C s t) (sessionId : SessionId)
    (mean : Option (Sequence α)) :
    Synced e C { s with planMean := Function.update s.planMean sessionId mean }
      { t with planMean := Function.update t.planMean sessionId mean } where
  planMean := by rw [h.planMean]
  rng := h.rng
  cached := h.cached

theorem warmStartMean_paired (sessionId : SessionId) (horizon : Nat) :
    Paired (Synced e C) (fun _ => True) (e.warmStartMean sessionId horizon)
      ((e.withKvCache false).warmStartMean sessionId horizon) := by
  apply Paired.of_outcome
  intro s t h
  have hmean : ∀ u : EngineState α Cache Rng, outcome (e.warmStartMean sessionId horizon) u =
      ((outcome (e.warmStartMean sessionId horizon) u).1, u) := by
    intro u
    simp only [warmStartMean, Effect.outcome_bind, Effect.outcome_get]
    split
    · rfl
    · split <;> rfl
  have hsame : outcome (e.warmStartMean sessionId horizon) t =
      ((outcome (e.warmStartMean sessionId horizon) s).1, t) := by
    rw [hmean t]
    simp only [warmStartMean, Effect.outcome_bind, Effect.outcome_get, h.planMean]
    congr 1
    split
    · rfl
    · split <;> rfl
  exact ⟨_, s, t, hmean s, hsame, fun _ _ => trivial, h⟩

theorem drawNoise_paired (horizon : Nat) :
    Paired (Synced e C) (fun _ => True) (e.drawNoise horizon)
      ((e.withKvCache false).drawNoise horizon) := by
  apply Paired.of_outcome
  intro s t h
  have hdraw : ∀ u : EngineState α Cache Rng, outcome (e.drawNoise horizon) u =
      (some (e.torch.randn u.rng e.config.planSamples horizon e.config.actionDim).1,
        { u with rng := (e.torch.randn u.rng e.config.planSamples horizon
          e.config.actionDim).2 }) := fun _ => rfl
  have hdraw' := hdraw t
  rw [← h.rng] at hdraw'
  exact ⟨_, _, _, hdraw s, hdraw', fun _ _ => trivial,
    { planMean := h.planMean, rng := rfl, cached := h.cached }⟩

section Plans

variable [BEq α] (hreinit : e.config.kvEvictPolicy = .reinit) (hcoherent : e.Coherent C)
  (hbatch : e.predictor.supportsBatch = true → e.CoherentBatch D)
  (heq : ∀ x y : α, (x == y) = true → x = y) {state : WorldState α}
  (hwhole : e.Whole state.context) {horizon : Nat} (hhorizon : 0 < horizon)

include hreinit hcoherent hbatch heq hwhole hhorizon

/-- The candidates are scored the same, by whichever of the three ways. -/
theorem candidateEnergies_paired (seqs : List (Sequence α)) (goal : Block α) :
    Paired (Synced e C) (fun _ => True) (e.candidateEnergies state seqs horizon goal)
      ((e.withKvCache false).candidateEnergies state seqs horizon goal) := by
  unfold candidateEnergies
  cases hpath : e.config.planBatched && e.predictor.supportsBatch with
  | false =>
      have hpath' : ((e.withKvCache false).config.planBatched &&
          (e.withKvCache false).predictor.supportsBatch) = false := hpath
      rw [hpath', if_neg Bool.false_ne_true, if_neg Bool.false_ne_true]
      apply (Paired.mapM (rolloutEnergy_paired hreinit hcoherent heq hwhole goal) seqs).bind
      intro energies _
      exact Paired.ofOption fun _ _ => trivial
  | true =>
      have hpath' : ((e.withKvCache false).config.planBatched &&
          (e.withKvCache false).predictor.supportsBatch) = true := hpath
      have hkv' : ((e.withKvCache false).config.planBatchedKv &&
          (e.withKvCache false).config.useKvCache) = false := Bool.and_false _
      rw [hpath', hkv', if_pos rfl, if_pos rfl, if_neg Bool.false_ne_true]
      have hplain : (e.withKvCache false).rolloutEnergyBatched state seqs horizon goal =
          e.rolloutEnergyBatched state seqs horizon goal := rfl
      rw [hplain]
      split
      next =>
        have hbatched := hbatch (Bool.and_eq_true_iff.mp hpath).2
        apply Paired.of_outcome
        intro s t h
        rcases rolloutEnergyBatchedCached_eq hbatched hwhole seqs hhorizon goal with hcached | hcached
        · refine ⟨_, s, t, ?_, Effect.outcome_ofOption _ t, fun _ _ => trivial, h⟩
          rw [hcached, Effect.outcome_bind, Effect.outcome_ofOption]
          exact Effect.outcome_ofOption _ s
        · refine ⟨_, s, t, ?_, Effect.outcome_ofOption _ t, fun _ _ => trivial, h⟩
          rw [hcached, Effect.outcome_bind, Effect.outcome_ofOption]
          cases e.rolloutEnergyBatched state seqs horizon goal <;> rfl
      next => exact Paired.ofOption fun _ _ => trivial

/-- The refinement loop, iteration by iteration. -/
theorem refine_paired (goal : Block α) (iters : Nat) : ∀ mean std : Sequence α,
    Paired (Synced e C) (fun _ => True) (e.refine state goal horizon iters mean std)
      ((e.withKvCache false).refine state goal horizon iters mean std) := by
  induction iters with
  | zero =>
      intro mean std
      exact Paired.pure trivial
  | succ iters ih =>
      intro mean std
      unfold refine
      apply (drawNoise_paired horizon).bind
      intro noise _
      apply (candidateEnergies_paired hreinit hcoherent hbatch heq hwhole hhorizon _ goal).bind
      intro energies _
      apply Paired.bind (Paired.ofOption (Q := fun _ => True) fun _ _ => trivial)
      intro eliteIdx _
      exact ih _ _

/-- Planning returns the same action. -/
theorem plan_paired (goal : Block α) :
    Paired (Synced e C) (fun _ => True) (e.plan state goal horizon)
      ((e.withKvCache false).plan state goal horizon) := by
  have hsequence : Paired (Synced e C) (fun _ => True) (e.planSequence state goal horizon)
      ((e.withKvCache false).planSequence state goal horizon) := by
    apply (warmStartMean_paired state.sessionId horizon).bind
    intro mean _
    apply (refine_paired hreinit hcoherent hbatch heq hwhole hhorizon goal _ mean _).bind
    intro best _
    cases hwarm : e.config.planWarmStart with
    | false =>
        have hwarm' : (e.withKvCache false).config.planWarmStart = false := hwarm
        rw [hwarm', if_neg Bool.false_ne_true]
        exact Paired.pure trivial
    | true =>
        have hwarm' : (e.withKvCache false).config.planWarmStart = true := hwarm
        rw [hwarm', if_pos rfl]
        apply (Paired.modify fun s t h => h.warmStart state.sessionId (some best)).bind
        intro _ _
        exact Paired.pure trivial
  apply hsequence.bind
  intro sequence _
  apply Paired.bind (Paired.ofOption (Q := fun _ => True) fun _ _ => trivial)
  intro first _
  exact Paired.ofOption fun _ _ => trivial

end Plans

/-! ## Runs -/

/-- What callers promise: the states they step or plan from hold a whole number of
frames, and a plan looks at least one step ahead. -/
def Sensible (e : Engine α Cache Rng) : Call α → Prop
  | .reset _ _ => True
  | .step state _ => e.Whole state.context
  | .plan state _ horizon => e.Whole state.context ∧ 0 < horizon
  | .release _ => True

instance (e : Engine α Cache Rng) (call : Call α) : Decidable (e.Sensible call) :=
  match call with
  | .reset _ _ => inferInstanceAs (Decidable True)
  | .step state _ => inferInstanceAs (Decidable (e.tokensPerFrame ∣ state.context.length))
  | .plan state _ horizon =>
      inferInstanceAs (Decidable (e.tokensPerFrame ∣ state.context.length ∧ 0 < horizon))
  | .release _ => inferInstanceAs (Decidable True)

variable [BEq α]

/-- Each call is answered the same. -/
theorem perform_paired (hreinit : e.config.kvEvictPolicy = .reinit)
    (hcoherent : e.Coherent C) (hbatch : e.predictor.supportsBatch = true → e.CoherentBatch D)
    (heq : ∀ x y : α, (x == y) = true → x = y) {call : Call α} (hsensible : e.Sensible call) :
    Paired (Synced e C) (fun _ => True) (e.perform call)
      ((e.withKvCache false).perform call) := by
  cases call with
  | reset features sessionId =>
      apply Paired.bind (Q := fun _ => True) ?_ fun _ _ => Paired.pure trivial
      apply Paired.bind (Paired.ofOption (Q := fun _ => True) fun _ _ => trivial)
      intro rows _
      exact Paired.pure trivial
  | step state action =>
      apply (step_paired hreinit hcoherent heq hsensible action).bind
      intro result _
      exact Paired.pure trivial
  | plan state goal horizon =>
      apply (plan_paired hreinit hcoherent hbatch heq hsensible.1 hsensible.2 goal).bind
      intro action _
      exact Paired.pure trivial
  | release state =>
      have hrelease : Paired (Synced e C) (fun _ => True)
          (Engine.release state.sessionId) (Engine.release state.sessionId) := by
        apply Paired.modify
        intro s t h
        exact {
          planMean := by rw [h.planMean]
          rng := h.rng
          cached := (h.drop state.sessionId).cached }
      apply hrelease.bind
      intro _ _
      exact Paired.pure trivial

/-- **Cached stepping is full recomputation.**  Under the `reinit` policy, with a
coherent predictor and any generator, the engine answers every sequence of calls
as it does with `use_kv_cache` off: the same states and step results, the same
actions planned, and a raise where the other raises.  The states stepped from are
any at all, older ones of the same session included. -/
theorem answers_eq_uncached (hreinit : e.config.kvEvictPolicy = .reinit)
    (hcoherent : e.Coherent C) (hbatch : e.predictor.supportsBatch = true → e.CoherentBatch D)
    (heq : ∀ x y : α, (x == y) = true → x = y) (rng : Rng) {calls : List (Call α)}
    (hsensible : ∀ call ∈ calls, e.Sensible call) :
    (((e.withKvCache false).machine rng).run ((e.withKvCache false).machine rng).init calls).map
        Prod.fst =
      ((e.machine rng).run (e.machine rng).init calls).map Prod.fst := by
  have hlock : (e.machine rng).LockStep ((e.withKvCache false).machine rng)
      (fun _ call => e.Sensible call) (Synced e C) := by
    intro s t call h
    refine ⟨fun hnone => by simp [machine] at hnone, ?_⟩
    intro answers s' hcall hstep
    obtain ⟨hanswer, -, h'⟩ := perform_paired hreinit hcoherent hbatch heq hcall s t h
    simp only [machine, Option.some.injEq, Prod.mk.injEq] at hstep
    obtain ⟨rfl, rfl⟩ := hstep
    exact ⟨_, by simp [machine, hanswer], h'⟩
  apply hlock.run calls
  · exact { planMean := rfl, rng := rfl, cached := fun _ _ h => by simp [machine] at h }
  · exact Machine.meets_of_forall fun call hmem _ => hsensible call hmem

end Engine

/-! ## A predictor whose cache is a running sum -/

/-- The sum of the first entries of the rows. -/
def total (context : Block Int) : Int :=
  (context.map fun row => row.headD 0).sum

theorem total_append (context block : Block Int) :
    total (context ++ block) = total context + total block := by
  rw [total, List.map_append, List.sum_append]
  rfl

/-- The next frame is the sum of the frames so far plus the action.  The cache is
that sum, shared by all candidates until they diverge. -/
def summing : Predictor Int (Int ⊕ List Int) where
  call context action := some (.embedding [total context + action.headD 0])
  callBatch contexts actions :=
    some (List.zipWith (fun context action => [[total context + action.headD 0]])
      contexts actions)
  supportsBatch := true
  supportsKvCache := true
  initCache context := some (.inl (total context))
  stepCached cache action :=
    match cache with
    | .inl sum => some (.embedding [sum + action.headD 0], .inl sum)
    | .inr _ => none
  stepCachedBatch cache actions :=
    match cache with
    | .inl sum => some (actions.map fun action => [[sum + action.headD 0]], .inl sum)
    | .inr sums =>
        some (List.zipWith (fun sum action => [[sum + action.headD 0]]) sums actions, .inr sums)
  appendFrame cache block :=
    match cache with
    | .inl sum => some (.inl (sum + total block))
    | .inr _ => none
  appendFrameBatch cache blocks :=
    match cache with
    | .inl sum => some (.inr (blocks.map fun block => sum + total block))
    | .inr sums => some (.inr (List.zipWith (fun sum block => sum + total block) sums blocks))
  evict cache _ := some cache

/-- A summing engine with three frames of context and no refinement iterations; its
torch is that of the integers. -/
def summingEngine : Engine Int (Int ⊕ List Int) Unit where
  config := { contextFrames := 3, planIters := 0, actionDim := 1, planBatchedKv := true }
  predictor := summing
  torch := {
    zero := 0
    one := 1
    add := (· + ·)
    mul := (· * ·)
    layerNorm := id
    distance := fun terminal goal => (total terminal - total goal).natAbs
    smallest := fun energies k => if energies.length < k then none else some (List.range k)
    mean := fun elite => elite.headD []
    std := fun elite => elite.headD []
    randn := fun _ samples horizon dim =>
      (List.replicate samples (List.replicate horizon (List.replicate dim 1)), ()) }
  tokensPerFrame := 1
  normalizeReps := false

/-- A running sum stands for the contexts it is the sum of. -/
def SumsTo (cache : Int ⊕ List Int) (contexts : List (Block Int)) : Prop :=
  cache = .inr (contexts.map total) ∨
    ∃ sum, cache = .inl sum ∧ ∀ context ∈ contexts, total context = sum

theorem summing_coherent :
    summingEngine.Coherent fun cache context => cache = .inl (total context) where
  frame := by
    intro context action nxt _ hcall
    rw [← Option.some.inj hcall]
    rfl
  raises := by
    intro context _ hinit
    simp [summingEngine, summing] at hinit
  init := by
    intro context cache _ hinit
    exact (Option.some.inj hinit).symm
  step := by
    intro cache context hcache action
    rw [hcache]
    rfl
  append := by
    intro cache context action nxt staged hcache hstep
    rw [hcache] at hstep
    cases hstep
    exact ⟨_, rfl, by rw [total_append]⟩

theorem summing_coherentBatch : summingEngine.CoherentBatch SumsTo where
  frames := by
    intro contexts actions blocks _ hlength hcall
    rw [← Option.some.inj hcall]
    refine ⟨by rw [List.length_zipWith, hlength, Nat.min_self], ?_⟩
    intro block hblock
    rw [← List.map_uncurry_zip_eq_zipWith] at hblock
    obtain ⟨pair, -, rfl⟩ := List.mem_map.mp hblock
    rfl
  raises := by
    intro context _ hinit
    simp [summingEngine, summing] at hinit
  init := by
    intro context cache _ hinit samples
    refine Or.inr ⟨total context, (Option.some.inj hinit).symm, ?_⟩
    intro copy hcopy
    rw [(List.mem_replicate.mp hcopy).2]
  step := by
    intro cache contexts hcache actions hlength
    rcases hcache with rfl | ⟨sum, rfl, hsum⟩
    · change some (List.zipWith _ (contexts.map total) actions) = some _
      rw [List.zipWith_map_left]
    · have hmap := zipWith_of_forall_left
        (f := fun context action => [[total context + action.headD 0]])
        (g := fun action => [[sum + action.headD 0]]) hlength.symm
        (fun context hmem => by rw [hsum context hmem])
      change some (actions.map _) = some _
      rw [← hmap]
  append := by
    intro cache contexts actions blocks staged hcache hlength hstep
    have hnorm : summingEngine.maybeNorm = id := rfl
    rcases hcache with rfl | ⟨sum, rfl, hsum⟩
    · cases hstep
      refine ⟨_, rfl, Or.inl ?_⟩
      rw [hnorm, List.map_id, List.map_zipWith, List.zipWith_map_left]
      simp only [total_append, id]
    · have hblocks : blocks.length = contexts.length := by
        cases hstep
        rw [List.length_map, hlength]
      cases hstep
      refine ⟨_, rfl, Or.inl ?_⟩
      rw [hnorm, List.map_id, List.map_zipWith, zipWith_of_forall_left hblocks.symm]
      intro context hmem
      simp only [total_append, hsum context hmem, id]

/-- The summing engine, stepped on from an older state and across the full window. -/
theorem summing_answers_eq_uncached :
    let calls : List (Call Int) := [
      .reset (.rows [[1], [2]]) "a",
      .step ⟨[[1], [2]], 0, "a"⟩ ⟨[5], "raw"⟩,
      .step ⟨[[1], [2]], 0, "a"⟩ ⟨[7], "raw"⟩,
      .step ⟨[[1], [2], [10]], 1, "a"⟩ ⟨[1], "raw"⟩,
      .plan ⟨[[1]], 0, "b"⟩ [[4]] 2,
      .release ⟨[[1]], 0, "b"⟩]
    (((summingEngine.withKvCache false).machine ()).run
        ((summingEngine.withKvCache false).machine ()).init calls).map Prod.fst =
      ((summingEngine.machine ()).run (summingEngine.machine ()).init calls).map Prod.fst :=
  Engine.answers_eq_uncached rfl summing_coherent (fun _ => summing_coherentBatch)
    (fun _ _ h => eq_of_beq h) () (by decide)

end Repercep.VJepa
