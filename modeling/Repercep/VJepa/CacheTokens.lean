import Repercep.VJepa.CacheParity
import Repercep.VJepa.CachedStepping
set_option autoImplicit false

/-!
# What the stored caches hold

Every cache the engine keeps for a session is in step with the context it is filed
under: its frames but the last are processed, the last is pending, and every layer has the
tokens of the processed ones.  Under `reinit` an entry goes when its window is full; under
`slide` the frame that leaves the window is cut out of every layer, sinks excepted, and the
entry stays in step for ever.
-/

namespace Repercep.VJepa

open Foundation (Effect Machine view flatten_view length_of_mem_view length_flatten_of_forall)
open Foundation.Effect (outcome)

/-! ## What a step may do to the entries -/

namespace Engine

variable {α Cache Rng : Type} {e : Engine α Cache Rng}

/-- The entry a step files for a state: the cache it predicted from has taken the normed
prediction in, and where the window was full a frame went, as only `slide` has it. -/
structure Files [BEq α] (e : Engine α Cache Rng) (s : EngineState α Cache Rng)
    (state : WorldState α) (action : Vec α) (entry : CacheEntry α Cache) : Prop where
  filed : ∃ cache nxt staged grown,
    e.cacheFor (s.kvCache state.sessionId) state.context = some cache ∧
    e.predictor.stepCached cache action = some (nxt, staged) ∧
    e.predictor.appendFrame staged (e.maybeNorm nxt.rows) = some grown ∧
    entry.lastContext = (e.advance state (e.maybeNorm nxt.rows)).context ∧
    ((e.framesNow state.context < e.config.contextFrames ∧ entry.cache = grown) ∨
      (e.config.contextFrames ≤ e.framesNow state.context ∧ e.config.kvEvictPolicy = .slide ∧
        e.predictor.evict grown e.config.kvSinkFrames = some entry.cache))

/-- What syncing leaves: nothing new, where it raises, no entry, where the policy is
`reinit` and the window full, or the grown cache. -/
theorem outcome_syncKvCache (state : WorldState α) (sessionId : SessionId)
    (newContext : Block α) (cache : Cache) (block : Block α) (s : EngineState α Cache Rng) :
    outcome (e.syncKvCache state sessionId newContext cache block) s = (none, s) ∨
    outcome (e.syncKvCache state sessionId newContext cache block) s =
      (some PUnit.unit, { s with kvCache := Function.update s.kvCache sessionId none }) ∨
    ∃ grown kept, e.predictor.appendFrame cache block = some grown ∧
      ((e.framesNow state.context < e.config.contextFrames ∧ kept = grown) ∨
        (e.config.contextFrames ≤ e.framesNow state.context ∧
          e.config.kvEvictPolicy = .slide ∧
          e.predictor.evict grown e.config.kvSinkFrames = some kept)) ∧
      outcome (e.syncKvCache state sessionId newContext cache block) s =
        (some PUnit.unit,
          { s with kvCache := Function.update s.kvCache sessionId (some ⟨kept, newContext⟩) }) := by
  by_cases hfull : e.config.contextFrames ≤ e.framesNow state.context
  · cases hpolicy : e.config.kvEvictPolicy with
    | reinit =>
        refine .inr (.inl ?_)
        simp [syncKvCache, hfull, hpolicy, dropCache]
    | slide =>
        cases happend : e.predictor.appendFrame cache block with
        | none =>
            refine .inl ?_
            simp [syncKvCache, hfull, hpolicy, happend, Effect.outcome_bind]
        | some grown =>
            cases hevict : e.predictor.evict grown e.config.kvSinkFrames with
            | none =>
                refine .inl ?_
                simp [syncKvCache, hfull, hpolicy, happend, hevict, Effect.outcome_bind]
            | some kept =>
                refine .inr (.inr ⟨grown, kept, rfl, .inr ⟨hfull, rfl, hevict⟩, ?_⟩)
                simp [syncKvCache, hfull, hpolicy, happend, hevict, keepCache,
                  Effect.outcome_bind]
  · cases happend : e.predictor.appendFrame cache block with
    | none =>
        refine .inl ?_
        simp [syncKvCache, hfull, happend, Effect.outcome_bind]
    | some grown =>
        refine .inr (.inr ⟨grown, grown, rfl, .inl ⟨Nat.lt_of_not_le hfull, rfl⟩, ?_⟩)
        simp [syncKvCache, hfull, happend, keepCache, Effect.outcome_bind]

variable [BEq α]

/-- A step leaves the entries as they are, drops that of its session, or files one; and a
state it returns is that of some predicted frame. -/
theorem step_kvCache {state : WorldState α} {action : Action α} {s s' : EngineState α Cache Rng}
    {answer : Option (WorldState α × LatentStep)}
    (h : outcome (e.step state action) s = (answer, s')) :
    (∀ result, answer = some result → ∃ block, result.1 = e.advance state block) ∧
      (s'.kvCache = s.kvCache ∨
        s'.kvCache = Function.update s.kvCache state.sessionId none ∨
        ∃ entry, e.Files s state action.values entry ∧
          s'.kvCache = Function.update s.kvCache state.sessionId (some entry)) := by
  cases hpath : e.cachedPath (s.kvCache state.sessionId) state.context with
  | false =>
      have hadvanced : ∀ result, (e.predictor.call state.context action.values).map
          (e.stepped state) = some result → ∃ block, result.1 = e.advance state block := by
        intro result hresult
        obtain ⟨nxt, -, rfl⟩ := Option.map_eq_some_iff.mp hresult
        exact ⟨_, rfl⟩
      cases hcapable : e.config.useKvCache && e.predictor.supportsKvCache with
      | false =>
          have houtcome : outcome (e.step state action) s =
              ((e.predictor.call state.context action.values).map (e.stepped state), s) := by
            simp [step, hpath, hcapable, Effect.outcome_bind]
          cases houtcome.symm.trans h
          exact ⟨hadvanced, .inl rfl⟩
      | true =>
          have houtcome : outcome (e.step state action) s =
              ((e.predictor.call state.context action.values).map (e.stepped state),
                { s with kvCache := Function.update s.kvCache state.sessionId none }) := by
            simp [step, hpath, hcapable, Effect.outcome_bind, dropCache]
          cases houtcome.symm.trans h
          exact ⟨hadvanced, .inr (.inl rfl)⟩
  | true =>
      rw [outcome_step_of_cachedPath hpath] at h
      have hpredict := outcome_stepCached (e := e) (s := s) state action.values
      cases hpredicted : (e.cacheFor (s.kvCache state.sessionId) state.context).bind
          fun cache => e.predictor.stepCached cache action.values with
      | none =>
          rw [hpredicted] at hpredict
          rw [Effect.outcome_bind_of_none hpredict] at h
          cases h
          exact ⟨by simp, .inl rfl⟩
      | some predicted =>
          obtain ⟨cache, hcache, hstep⟩ := Option.bind_eq_some_iff.mp hpredicted
          rw [hpredicted] at hpredict
          rw [Effect.outcome_bind_of_some hpredict] at h
          rcases outcome_syncKvCache (e := e) state state.sessionId
              (e.advance state (e.maybeNorm predicted.1.rows)).context predicted.2
              (e.maybeNorm predicted.1.rows) s with
            hsync | hsync | ⟨grown, kept, happend, hkept, hsync⟩
          · rw [Effect.outcome_bind_of_none hsync] at h
            cases h
            exact ⟨by simp, .inl rfl⟩
          · rw [Effect.outcome_bind_of_some hsync] at h
            cases h
            exact ⟨fun _ hsome => ⟨_, by cases hsome; rfl⟩, .inr (.inl rfl)⟩
          · rw [Effect.outcome_bind_of_some hsync] at h
            cases h
            refine ⟨fun _ hsome => ⟨_, by cases hsome; rfl⟩, .inr (.inr ⟨⟨kept, _⟩, ?_, rfl⟩)⟩
            exact ⟨⟨cache, predicted.1, predicted.2, grown, hcache, hstep, happend, rfl, hkept⟩⟩

end Engine

/-! ## The tokens of the layers -/

namespace AcPredictorAdapter

variable {α : Type} [Field α] {a : AcPredictorAdapter α}

/-- Every layer has the tokens of that many frames. -/
def Holds (a : AcPredictorAdapter α) (layerKv : List (FrameKv α)) (frames : Nat) : Prop :=
  layerKv.length = a.predictor.predictorBlocks.length ∧
    ∀ kv ∈ layerKv, kv.1.length = frames * (a.predictor.actionTokens + a.p) ∧
      kv.2.length = frames * (a.predictor.actionTokens + a.p)

/-- The cache is in step with a context: all its frames but the last are processed, the
last is pending, and the layers hold the tokens of the processed ones. -/
structure InStep (a : AcPredictorAdapter α) (cache : AcKVCache α) (context : Block α) : Prop where
  frames : context.length = (cache.processedFrames + 1) * a.p
  pending : cache.pending = some (lastRows a.p context)
  layers : a.Holds cache.layerKv cache.processedFrames

omit [Field α] in
theorem perFrame_eq : a.predictor.perFrame = a.predictor.actionTokens + a.p := by
  rw [AcPredictor.perFrame, a.grid]

omit [Field α] in
/-- The tokens of a frame are its conditioning tokens and its patches. -/
theorem length_frameTokens (action state : Vec α) (entries : Vec α) (visual : List (Vec α)) :
    (a.predictor.frameTokens action state
      (if a.predictor.useExtrinsics then some entries else none) visual).length =
        a.predictor.actionTokens + visual.length := by
  rw [AcPredictor.frameTokens, AcPredictor.actionTokens]
  cases a.predictor.useExtrinsics with
  | false =>
      simp only [Bool.false_eq_true, if_false, Option.map_none, Option.toList_none,
        List.cons_append, List.nil_append, List.length_cons]
      omega
  | true =>
      simp only [if_true, Option.map_some, Option.toList_some, List.cons_append,
        List.nil_append, List.length_cons]
      omega

/-- One frame of queries stays one frame under rotation. -/
theorem length_rotate_frame (attn : Attention α) (frameOffset : Nat) {raw : List (Heads α)}
    (h : raw.length = a.predictor.perFrame) :
    (attn.rotateAugmented a.predictor.rotary raw 1 a.predictor.gridHeight a.predictor.gridWidth
      a.predictor.actionTokens frameOffset).length = raw.length := by
  have hrotate := rotateAugmented_flatten a.predictor attn frameOffset [raw] (by simp [h])
  rw [List.flatten_cons, List.flatten_nil, List.append_nil, List.length_singleton] at hrotate
  rw [hrotate]
  simp [AcPredictor.rotateFrames]

/-- The layer loop adds one frame of tokens to every layer. -/
theorem advanceLayers_lengths {frames : Nat} :
    ∀ {blocks : List (PredictorBlock α)} {layers : List (FrameKv α)} {x : List (Vec α)}
      {out : List (Vec α) × List (FrameKv α)},
      (∀ kv ∈ layers, kv.1.length = frames * a.predictor.perFrame ∧
        kv.2.length = frames * a.predictor.perFrame) →
      x.length = a.predictor.perFrame →
      a.advanceLayers frames blocks layers x = some out →
        out.2.length = blocks.length ∧
          ∀ kv ∈ out.2, kv.1.length = (frames + 1) * a.predictor.perFrame ∧
            kv.2.length = (frames + 1) * a.predictor.perFrame := by
  intro blocks
  induction blocks with
  | nil =>
      intro layers x out _ _ h
      rw [advanceLayers] at h
      cases h
      exact ⟨rfl, by simp⟩
  | cons block blocks ih =>
      intro layers x out hlayers hx h
      cases layers with
      | nil => simp [advanceLayers] at h
      | cons layer layers =>
          obtain ⟨kOld, vOld⟩ := layer
          rw [advanceLayers] at h
          obtain ⟨rest, hrest, hout⟩ := Option.bind_eq_some_iff.mp h
          cases hout
          obtain ⟨hkOld, hvOld⟩ := hlayers (kOld, vOld) List.mem_cons_self
          obtain ⟨hcount, hlengths⟩ := ih
            (fun kv hkv => hlayers kv (List.mem_cons_of_mem _ hkv)) (by
              rw [List.length_zipWith, List.length_map, length_rotate_frame, List.length_map,
                Nat.min_self, hx]
              rw [List.length_map, hx]) hrest
          refine ⟨by rw [List.length_cons, List.length_cons, hcount], ?_⟩
          intro kv hkv
          rcases List.mem_cons.mp hkv with rfl | hkv
          · have hempty : ∀ old : List (Heads α), old.length = frames * a.predictor.perFrame →
                (if frames = 0 then [] else old).length = frames * a.predictor.perFrame := by
              intro old hold
              split
              · next hzero => rw [hzero, Nat.zero_mul, List.length_nil]
              · exact hold
            simp only [List.length_append, hempty _ hkOld, hempty _ hvOld, List.length_map, hx,
              Nat.succ_mul]
            exact ⟨trivial, trivial⟩
          · exact hlengths kv hkv

/-- The capture loop records whole frames in every layer. -/
theorem captureLayers_lengths {frames : Nat} :
    ∀ {blocks : List (PredictorBlock α)} {x : List (Vec α)},
      x.length = frames * a.predictor.perFrame →
        (a.captureLayers frames blocks x).length = blocks.length ∧
          ∀ kv ∈ a.captureLayers frames blocks x,
            kv.1.length = frames * a.predictor.perFrame ∧
              kv.2.length = frames * a.predictor.perFrame := by
  intro blocks
  induction blocks with
  | nil => exact fun _ => ⟨rfl, fun _ hkv => absurd hkv List.not_mem_nil⟩
  | cons block blocks ih =>
      intro x hx
      have hforward : (a.predictor.blockForward block x frames).length =
          frames * a.predictor.perFrame := by
        have hgroups := length_of_mem_view hx
        have hblock := AcPredictor.blockForward_flatten block hgroups
        rw [flatten_view hx, Foundation.length_view] at hblock
        rw [hblock, length_flatten_of_forall (a.predictor.length_of_mem_whole block [] hgroups),
          Foundation.CausalLayer.length_whole, Foundation.length_view]
      obtain ⟨hcount, hlengths⟩ := ih hforward
      refine ⟨by rw [captureLayers, List.length_cons, List.length_cons, hcount], ?_⟩
      intro kv hkv
      rw [captureLayers] at hkv
      rcases List.mem_cons.mp hkv with rfl | hkv
      · exact ⟨(List.length_map _).trans hx, (List.length_map _).trans hx⟩
      · exact hlengths kv hkv

/-- The prefix of a fresh cache. -/
theorem encodeZeroActionPrefix_holds {visual : Block α} {frames : Nat}
    (h : visual.length = frames * a.p) : a.Holds (a.encodeZeroActionPrefix visual) frames := by
  have hcount : visual.length / a.p = frames := by
    rw [h, Nat.mul_div_cancel _ a.patches]
  rw [encodeZeroActionPrefix, hcount, Holds, ← perFrame_eq]
  apply captureLayers_lengths
  have hembedded : (visual.map a.predictor.predictorEmbed).length = frames * a.p := by
    rw [List.length_map, h]
  have hgroups := length_of_mem_view hembedded
  rw [@length_flatten_of_forall _ a.predictor.perFrame, List.length_map,
    Foundation.length_view]
  intro group hgroup
  obtain ⟨rows, hrows, rfl⟩ := List.mem_map.mp hgroup
  rw [length_frameTokens, hgroups rows hrows, perFrame_eq]

/-- A fresh cache is in step with its context. -/
theorem initCache_inStep {context : Block α} {cache : AcKVCache α}
    (h : a.initCache context = some cache) : a.InStep cache context := by
  rw [initCache] at h
  split at h
  · cases h
  · next hwhole =>
      split at h
      · cases h
      · next hsome =>
          have hlength : context.length = context.length / a.p * a.p :=
            (Nat.div_mul_cancel (Nat.dvd_of_mod_eq_zero (Decidable.not_not.mp hwhole))).symm
          split at h
          · next hone =>
              cases h
              refine ⟨?_, rfl, List.length_map _, ?_⟩
              · rw [hlength, hone]
              · intro kv hkv
                obtain ⟨block, -, rfl⟩ := List.mem_map.mp hkv
                rw [Nat.zero_mul]
                exact ⟨rfl, rfl⟩
          · cases h
            have hframes : context.length / a.p - 1 + 1 = context.length / a.p :=
              Nat.sub_add_cancel (Nat.le_of_not_lt hsome)
            refine ⟨by rw [hframes, ← hlength], rfl, ?_⟩
            apply encodeZeroActionPrefix_holds
            rw [List.length_take, Nat.sub_mul, Nat.one_mul, ← hlength,
              Nat.min_eq_left (Nat.sub_le _ _)]

/-- A pass of the pending frame completes it: nothing is pending, and every layer has
one frame more. -/
theorem advancePending_holds {cache : AcKVCache α} {context : Block α}
    (h : a.InStep cache context) {action : Vec α} {out : Block α × AcKVCache α}
    (hout : a.advancePending cache action = some out) :
    out.2.pending = none ∧ out.2.processedFrames = cache.processedFrames + 1 ∧
      a.Holds out.2.layerKv (cache.processedFrames + 1) := by
  have hpending : (lastRows a.p context).length = a.p := by
    rw [lastRows, if_neg (Nat.ne_of_gt a.patches), List.length_drop, h.frames, Nat.succ_mul]
    omega
  rw [advancePending, h.pending] at hout
  obtain ⟨visual, hvisual, hout⟩ := Option.bind_eq_some_iff.mp hout
  cases hvisual
  obtain ⟨advanced, hadvanced, hout⟩ := Option.bind_eq_some_iff.mp hout
  cases hout
  have hlayers := advanceLayers_lengths (a := a)
    (fun kv hkv => by
      rw [perFrame_eq]
      exact h.layers.2 kv hkv)
    (by rw [length_frameTokens, List.length_map, hpending, perFrame_eq]) hadvanced
  rw [perFrame_eq] at hlayers
  exact ⟨rfl, rfl, hlayers⟩

theorem stepCached_holds {cache staged : AcKVCache α} {context : Block α}
    (h : a.InStep cache context) {action : Vec α} {nxt : Block α}
    (hstep : a.stepCached cache action = some (nxt, staged)) :
    staged.processedFrames = cache.processedFrames + 1 ∧
      a.Holds staged.layerKv (cache.processedFrames + 1) := by
  rw [stepCached] at hstep
  obtain ⟨predicted, -, hstep⟩ := Option.bind_eq_some_iff.mp hstep
  obtain ⟨committed, hcommitted, hstep⟩ := Option.bind_eq_some_iff.mp hstep
  cases hstep
  exact (advancePending_holds h hcommitted).2

omit [Field α] in
/-- What `append_frame` lets through. -/
theorem appendFrame_eq_some {staged grown : AcKVCache α} {block : Block α}
    (h : a.appendFrame staged block = some grown) :
    block.length = a.p ∧ grown = { staged with pending := some block } := by
  rw [appendFrame] at h
  split at h
  · cases h
  · split at h
    · cases h
    · next hlength =>
        cases h
        exact ⟨Decidable.not_not.mp hlength, rfl⟩

/-- Cutting a whole frame out of the tokens of some frames. -/
theorem length_cut {β : Type} {tokens : List β} {frames sinks count : Nat}
    (h : tokens.length = (frames + 1) * count) (hsinks : sinks ≤ frames) :
    (tokens.take (sinks * count) ++ tokens.drop (sinks * count + count)).length =
      frames * count := by
  have hle : sinks * count ≤ frames * count := Nat.mul_le_mul_right count hsinks
  rw [List.length_append, List.length_take, List.length_drop, h, Nat.succ_mul]
  omega

omit [Field α] in
/-- Eviction takes one frame of tokens out of every layer. -/
theorem evict_holds {cache kept : AcKVCache α} {frames sinkFrames : Nat}
    (hframes : cache.processedFrames = frames + 1) (h : a.Holds cache.layerKv (frames + 1))
    (hevict : a.evict cache sinkFrames = some kept) :
    kept.pending = cache.pending ∧ kept.processedFrames = frames ∧
      a.Holds kept.layerKv frames := by
  rw [evict] at hevict
  split at hevict
  · cases hevict
  · next hsinks =>
      cases hevict
      refine ⟨rfl, by rw [hframes, Nat.add_sub_cancel], ?_, ?_⟩
      · rw [List.length_map]
        exact h.1
      · intro kv hkv
        obtain ⟨old, hold, rfl⟩ := List.mem_map.mp hkv
        obtain ⟨hkey, hvalue⟩ := h.2 old hold
        exact ⟨length_cut hkey (by omega), length_cut hvalue (by omega)⟩

/-! ## The engine over the adapter -/

/-- The adapter as the engine sees it; the batched calls are those of the planner. -/
def toPredictor (a : AcPredictorAdapter α)
    (callBatch : List (Block α) → List (Vec α) → Option (List (Block α)))
    (stepCachedBatch : AcKVCache α → List (Vec α) → Option (List (Block α) × AcKVCache α))
    (appendFrameBatch : AcKVCache α → List (Block α) → Option (AcKVCache α)) :
    Predictor α (AcKVCache α) where
  call context action := (a.call context action).map .block
  callBatch := callBatch
  supportsBatch := true
  supportsKvCache := true
  initCache := a.initCache
  stepCached cache action := (a.stepCached cache action).map fun p => (.block p.1, p.2)
  stepCachedBatch := stepCachedBatch
  appendFrame := a.appendFrame
  appendFrameBatch := appendFrameBatch
  evict := a.evict

/-- An entry of the engine: its cache is in step with the context it is filed under, which
fits in the window. -/
structure EntryInvariant (a : AcPredictorAdapter α) (contextFrames : Nat)
    (entry : CacheEntry α (AcKVCache α)) : Prop where
  inStep : a.InStep entry.cache entry.lastContext
  bounded : entry.cache.processedFrames + 1 ≤ contextFrames

end AcPredictorAdapter

/-! ## Every entry a step files -/

section Window

variable {β : Type} {tokens frames : Nat} {rows block : List β}

/-- The last frame of a window is the block just appended. -/
theorem lastRows_append_block (htokens : 0 < tokens) (hblock : block.length = tokens) :
    lastRows tokens (rows ++ block) = block := by
  rw [lastRows, if_neg (Nat.ne_of_gt htokens), List.length_append, hblock, Nat.add_sub_cancel,
    List.drop_left]

/-- A full window takes a block in by giving its first frame up. -/
theorem lastRows_full (htokens : 0 < tokens) (hrows : rows.length = (frames + 1) * tokens)
    (hblock : block.length = tokens) :
    lastRows ((frames + 1) * tokens) (rows ++ block) = rows.drop tokens ++ block := by
  have hpos : (frames + 1) * tokens ≠ 0 := Nat.mul_ne_zero (Nat.succ_ne_zero frames)
    (Nat.ne_of_gt htokens)
  have hle : tokens ≤ rows.length := by
    rw [hrows]
    exact Nat.le_mul_of_pos_left tokens (Nat.succ_pos frames)
  rw [lastRows, if_neg hpos, List.length_append, hrows, hblock, Nat.add_sub_cancel_left,
    List.drop_append_of_le_length hle]

end Window

namespace AcPredictorAdapter

variable {α Rng : Type} [Field α] {a : AcPredictorAdapter α}

/-- An engine whose predictor is the adapter. -/
structure Drives (a : AcPredictorAdapter α) (e : Engine α (AcKVCache α) Rng) : Prop where
  tokensPerFrame : e.tokensPerFrame = a.p
  predictor : ∃ callBatch stepCachedBatch appendFrameBatch,
    e.predictor = a.toPredictor callBatch stepCachedBatch appendFrameBatch

/-- A number of sink frames that leaves one to evict when the window is full. -/
def AdmissibleSinks (config : Config) : Prop :=
  config.kvEvictPolicy = .slide → config.kvSinkFrames < config.contextFrames

/-- A context within the window, where there is one. -/
def Windowed (a : AcPredictorAdapter α) (config : Config) (context : Block α) : Prop :=
  config.contextFrames = 0 ∨ context.length ≤ config.contextFrames * a.p

variable {e : Engine α (AcKVCache α) Rng} {s : EngineState α (AcKVCache α) Rng}

/-- What the engine predicts from is in step with the context it is given. -/
theorem cacheFor_inStep [BEq α] (h : a.Drives e) (heq : ∀ x y : α, (x == y) = true → x = y)
    {entry : Option (CacheEntry α (AcKVCache α))}
    (hentry : ∀ kept, entry = some kept → a.InStep kept.cache kept.lastContext)
    {context : Block α} {cache : AcKVCache α} (hcache : e.cacheFor entry context = some cache) :
    a.InStep cache context := by
  obtain ⟨callBatch, stepCachedBatch, appendFrameBatch, hpredictor⟩ := h.predictor
  have hfresh : e.predictor.initCache context = some cache → a.InStep cache context := by
    rw [hpredictor]
    exact initCache_inStep
  cases entry with
  | none => exact hfresh hcache
  | some kept =>
      rw [Engine.cacheFor] at hcache
      split at hcache
      · next hsame =>
          cases hcache
          rw [← Engine.eq_of_sameTensor heq hsame]
          exact hentry kept rfl
      · exact hfresh hcache

/-- A step files an entry that keeps the invariant: in a growing window the pending frame
joins the processed ones, in a full one a processed frame goes as well. -/
theorem entryInvariant_of_files [BEq α] (h : a.Drives e)
    (heq : ∀ x y : α, (x == y) = true → x = y) {state : WorldState α} {action : Vec α}
    (hold : ∀ kept, s.kvCache state.sessionId = some kept →
      a.EntryInvariant e.config.contextFrames kept)
    (hsinks : AdmissibleSinks e.config) (hwindow : a.Windowed e.config state.context)
    {entry : CacheEntry α (AcKVCache α)} (hfiles : e.Files s state action entry) :
    a.EntryInvariant e.config.contextFrames entry := by
  obtain ⟨cache, nxt, staged, grown, hcache, hstep, happend, hcontext, hkept⟩ := hfiles.filed
  have hinStep := cacheFor_inStep h heq (fun kept hk => (hold kept hk).inStep) hcache
  obtain ⟨callBatch, stepCachedBatch, appendFrameBatch, hpredictor⟩ := h.predictor
  have htokens := h.tokensPerFrame
  rw [hpredictor] at hstep happend hkept
  obtain ⟨⟨predicted, committed⟩, hadapter, hpair⟩ := Option.map_eq_some_iff.mp hstep
  obtain ⟨rfl, rfl⟩ := Prod.mk.inj hpair
  obtain ⟨hprocessed, hlayers⟩ := stepCached_holds hinStep hadapter
  obtain ⟨hblock, hgrown⟩ := appendFrame_eq_some happend
  have hframes := hinStep.frames
  have hnow : e.framesNow state.context = cache.processedFrames + 1 := by
    rw [Engine.framesNow, htokens, hframes, Nat.mul_div_cancel _ a.patches]
  have hlast : entry.lastContext = lastRows (e.config.contextFrames * a.p)
      (state.context ++ e.maybeNorm (Prediction.block predicted).rows) := by
    rw [hcontext, Engine.advance, htokens]
  rcases hkept with ⟨hroom, hsame⟩ | ⟨hfull, hslide, hevict⟩
  · -- the window grows by the appended frame
    rw [hnow] at hroom
    have hlength : (state.context ++ e.maybeNorm (Prediction.block predicted).rows).length =
        (cache.processedFrames + 2) * a.p := by
      rw [List.length_append, hframes, hblock, ← Nat.succ_mul]
    have huncut : lastRows (e.config.contextFrames * a.p)
        (state.context ++ e.maybeNorm (Prediction.block predicted).rows) =
          state.context ++ e.maybeNorm (Prediction.block predicted).rows := by
      apply lastRows_of_le
      rw [hlength]
      exact Nat.mul_le_mul_right a.p hroom
    rw [huncut] at hlast
    rw [hgrown] at hsame
    refine ⟨⟨?_, ?_, ?_⟩, ?_⟩
    · rw [hlast, hlength, hsame, hprocessed]
    · rw [hlast, lastRows_append_block a.patches hblock, hsame]
    · rw [hsame, hprocessed]
      exact hlayers
    · rw [hsame, hprocessed]
      exact hroom
  · -- the window was full, and stays so
    rw [hnow] at hfull
    have hpositive : 0 < e.config.contextFrames := Nat.lt_of_le_of_lt (Nat.zero_le _)
      (hsinks hslide)
    have hexact : e.config.contextFrames = cache.processedFrames + 1 := by
      rcases hwindow with hzero | hle
      · omega
      · rw [hframes] at hle
        exact Nat.le_antisymm hfull (Nat.le_of_mul_le_mul_right hle a.patches)
    rw [hgrown] at hevict
    obtain ⟨hpending, hprocessed', hlayers'⟩ :=
      evict_holds (by exact hprocessed) (by exact hlayers) hevict
    rw [hexact, lastRows_full a.patches hframes hblock] at hlast
    refine ⟨⟨?_, ?_, ?_⟩, ?_⟩
    · rw [hlast, hprocessed', List.length_append, List.length_drop, hframes, hblock,
        Nat.succ_mul]
      omega
    · rw [hlast, lastRows_append_block a.patches hblock, hpending]
    · rw [hprocessed']
      exact hlayers'
    · rw [hprocessed', hexact]

end AcPredictorAdapter

/-! ## Resets and steps -/

/-- A call of a client: a reset, or a step from any of the states returned so far. -/
inductive SessionCall (α : Type) where
  | reset (features : Features α) (sessionId : SessionId)
  | step (origin : Nat) (action : Action α)

/-- The engine under resets and steps, with the states it has returned, oldest first. -/
def Engine.sessions {α Cache Rng : Type} [BEq α] (e : Engine α Cache Rng) (rng : Rng) :
    Machine (EngineState α Cache Rng × List (WorldState α)) (SessionCall α)
      (Option (WorldState α)) where
  init := ({ planMean := fun _ => none, kvCache := fun _ => none, rng := rng }, [])
  step
    | (s, known), .reset features sessionId =>
        let (answer, t) := outcome (e.reset features sessionId) s
        some ([answer], (t, known ++ answer.toList))
    | (s, known), .step origin action =>
        match known[origin]? with
        | none => none
        | some state =>
            let (answer, t) := outcome (e.step state action) s
            some ([answer.map Prod.fst], (t, known ++ (answer.map Prod.fst).toList))

/-- A reset returns the last rows of the features, normed, and changes nothing. -/
theorem Engine.outcome_reset {α Cache Rng : Type} {e : Engine α Cache Rng}
    {features : Features α} {sessionId : SessionId} {s t : EngineState α Cache Rng}
    {answer : Option (WorldState α)} (h : outcome (e.reset features sessionId) s = (answer, t)) :
    t = s ∧ ∀ state, answer = some state →
      ∃ rows frames, (e.config.contextFrames ≠ 0 → frames ≠ 0) ∧
        frames ≤ e.config.contextFrames ∧
        state.context = e.maybeNorm (lastRows (frames * e.tokensPerFrame) rows) := by
  rw [reset, Effect.outcome_bind, Effect.outcome_ofOption] at h
  cases hrows : asContext features with
  | none =>
      rw [hrows] at h
      cases h
      exact ⟨rfl, fun _ hnone => nomatch hnone⟩
  | some rows =>
      rw [hrows] at h
      cases h
      refine ⟨rfl, ?_⟩
      intro state hstate
      cases hstate
      refine ⟨rows, _, ?_, Nat.min_le_right _ _, rfl⟩
      intro hwindow
      split
      · rwa [Nat.min_self]
      · rwa [Nat.min_self]
      · next frames hframes _ =>
          have hseed : frames ≠ 0 := fun hzero => hframes (by rw [hzero])
          omega

namespace AcPredictorAdapter

variable {α Rng : Type} [Field α] {a : AcPredictorAdapter α}
  {e : Engine α (AcKVCache α) Rng}

theorem length_lastRows_le {β : Type} {keep : Nat} (hkeep : keep ≠ 0) (rows : List β) :
    (lastRows keep rows).length ≤ keep := by
  rw [lastRows, if_neg hkeep, List.length_drop]
  omega

/-- The states the engine returns fit in the window. -/
theorem windowed_of_reset (h : a.Drives e) {state : WorldState α} {rows : Block α}
    {frames : Nat} (hpositive : e.config.contextFrames ≠ 0 → frames ≠ 0)
    (hle : frames ≤ e.config.contextFrames)
    (hcontext : state.context = e.maybeNorm (lastRows (frames * e.tokensPerFrame) rows)) :
    a.Windowed e.config state.context := by
  by_cases hzero : e.config.contextFrames = 0
  · exact .inl hzero
  · apply Or.inr
    rw [hcontext, Engine.maybeNorm_length, h.tokensPerFrame]
    exact Nat.le_trans (length_lastRows_le
      (Nat.mul_ne_zero (hpositive hzero) (Nat.ne_of_gt a.patches)) rows)
      (Nat.mul_le_mul_right a.p hle)

theorem windowed_of_advance (h : a.Drives e) (state : WorldState α) (block : Block α) :
    a.Windowed e.config (e.advance state block).context := by
  by_cases hzero : e.config.contextFrames = 0
  · exact .inl hzero
  · apply Or.inr
    rw [Engine.advance, h.tokensPerFrame]
    exact length_lastRows_le (Nat.mul_ne_zero hzero (Nat.ne_of_gt a.patches)) _

/-- What every step keeps: the entries are in step with their contexts, and the states
known to clients fit in the window. -/
structure SessionsInvariant (a : AcPredictorAdapter α) (config : Config)
    (s : EngineState α (AcKVCache α) Rng × List (WorldState α)) : Prop where
  entries : ∀ sessionId entry, s.1.kvCache sessionId = some entry →
    a.EntryInvariant config.contextFrames entry
  known : ∀ state ∈ s.2, a.Windowed config state.context

theorem SessionsInvariant.step [BEq α] (h : a.Drives e)
    (heq : ∀ x y : α, (x == y) = true → x = y) (hsinks : AdmissibleSinks e.config) {rng : Rng}
    {s t : EngineState α (AcKVCache α) Rng × List (WorldState α)} {call : SessionCall α}
    {answers : List (Option (WorldState α))} (hs : a.SessionsInvariant e.config s)
    (hstep : (e.sessions rng).step s call = some (answers, t)) :
    a.SessionsInvariant e.config t := by
  obtain ⟨s, known⟩ := s
  cases call with
  | reset features sessionId =>
      cases houtcome : outcome (e.reset features sessionId) s with
      | mk answer s' =>
          obtain ⟨rfl, hreturned⟩ := Engine.outcome_reset houtcome
          simp only [Engine.sessions, houtcome, Option.some.injEq, Prod.mk.injEq] at hstep
          obtain ⟨-, rfl⟩ := hstep
          refine ⟨hs.entries, ?_⟩
          intro state hstate
          rcases List.mem_append.mp hstate with hold | hnew
          · exact hs.known state hold
          · obtain ⟨rows, frames, hpositive, hle, hcontext⟩ :=
              hreturned state (Option.mem_toList.mp hnew)
            exact windowed_of_reset h hpositive hle hcontext
  | step origin action =>
      cases horigin : known[origin]? with
      | none => simp [Engine.sessions, horigin] at hstep
      | some state =>
          cases houtcome : outcome (e.step state action) s with
          | mk answer s' =>
              simp only [Engine.sessions, horigin, houtcome, Option.some.injEq,
                Prod.mk.injEq] at hstep
              obtain ⟨-, rfl⟩ := hstep
              obtain ⟨hreturned, hcache⟩ := Engine.step_kvCache houtcome
              have hwindow := hs.known state (List.mem_of_getElem? horigin)
              have hupdate : ∀ written : Option (CacheEntry α (AcKVCache α)),
                  s'.kvCache = Function.update s.kvCache state.sessionId written →
                  (∀ entry, written = some entry →
                    a.EntryInvariant e.config.contextFrames entry) →
                  ∀ sessionId entry, s'.kvCache sessionId = some entry →
                    a.EntryInvariant e.config.contextFrames entry := by
                intro written heq' hwritten sessionId entry hentry
                rw [heq'] at hentry
                by_cases hsession : sessionId = state.sessionId
                · rw [hsession, Function.update_self] at hentry
                  exact hwritten entry hentry
                · rw [Function.update_of_ne hsession] at hentry
                  exact hs.entries sessionId entry hentry
              refine ⟨?_, ?_⟩
              · rcases hcache with hsame | hdropped | ⟨entry, hfiles, hfiled⟩
                · rw [hsame]
                  exact hs.entries
                · exact hupdate none hdropped fun _ hnone => nomatch hnone
                · apply hupdate (some entry) hfiled
                  intro kept hkept
                  cases hkept
                  exact entryInvariant_of_files h heq (hs.entries state.sessionId) hsinks
                    hwindow hfiles
              · intro state' hstate'
                rcases List.mem_append.mp hstate' with hold | hnew
                · exact hs.known state' hold
                · obtain ⟨result, hresult, rfl⟩ :=
                    Option.map_eq_some_iff.mp (Option.mem_toList.mp hnew)
                  obtain ⟨block, hadvanced⟩ := hreturned result hresult
                  rw [hadvanced]
                  exact windowed_of_advance h state block

/-- **The representation invariant.**  After any resets and steps, over any sessions and
from any states returned so far, under either policy and with any admissible number of
sinks, every entry holds a cache in step with its context: the processed frames and the
pending one are the frames of the context, no more than the window has, the pending one is
the last of them, and every layer has the keys and values of the processed ones. -/
theorem entries_invariant [BEq α] (h : a.Drives e) (heq : ∀ x y : α, (x == y) = true → x = y)
    (hsinks : AdmissibleSinks e.config) (rng : Rng) {calls : List (SessionCall α)}
    {answers : List (Option (WorldState α))} {s : EngineState α (AcKVCache α) Rng}
    {known : List (WorldState α)}
    (hrun : (e.sessions rng).run (e.sessions rng).init calls = some (answers, (s, known)))
    {sessionId : SessionId} {entry : CacheEntry α (AcKVCache α)}
    (hentry : s.kvCache sessionId = some entry) :
    a.EntryInvariant e.config.contextFrames entry := by
  have hinit : a.SessionsInvariant e.config (e.sessions rng).init :=
    ⟨fun _ _ hnone => (nomatch hnone), fun _ hnil => absurd hnil List.not_mem_nil⟩
  have hfinal := Machine.invariant_run (M := e.sessions rng) (I := a.SessionsInvariant e.config)
    (fun _ _ _ _ hs hstep => hs.step h heq hsinks hstep) hinit hrun
  exact hfinal.entries sessionId entry hentry

end AcPredictorAdapter

/-! ## A window that slides -/

/-- An engine over the two-block adapter with a window of two frames, the first of which
is a sink; nothing is planned with it. -/
def slidingEngine : Engine Rat (AcKVCache Rat) Unit where
  config := { contextFrames := 2, kvEvictPolicy := .slide, kvSinkFrames := 1 }
  predictor := weighingAdapter.toPredictor (fun _ _ => none) (fun _ _ => none) (fun _ _ => none)
  torch := {
    zero := 0
    one := 1
    add := (· + ·)
    mul := (· * ·)
    layerNorm := id
    distance := fun _ _ => 0
    smallest := fun _ _ => none
    mean := fun elite => elite.headD []
    std := fun elite => elite.headD []
    randn := fun rng _ _ _ => ([], rng) }
  tokensPerFrame := 1
  normalizeReps := false

/-- A session reset to a full window and stepped twice from there: each step slides. -/
theorem slidingEngine_entry :
    ∃ answers s known entry,
      (slidingEngine.sessions ()).run (slidingEngine.sessions ()).init
          [.reset (.rows [[1, 0], [0, 2]]) "a", .step 0 ⟨[1, 1], "raw"⟩,
            .step 0 ⟨[3, 0], "raw"⟩] = some (answers, (s, known)) ∧
        s.kvCache "a" = some entry ∧ weighingAdapter.EntryInvariant 2 entry := by
  obtain ⟨answers, s, known, entry, hrun, hentry⟩ : ∃ answers s known entry,
      (slidingEngine.sessions ()).run (slidingEngine.sessions ()).init
          [.reset (.rows [[1, 0], [0, 2]]) "a", .step 0 ⟨[1, 1], "raw"⟩,
            .step 0 ⟨[3, 0], "raw"⟩] = some (answers, (s, known)) ∧
        s.kvCache "a" = some entry := ⟨_, _, _, _, rfl, rfl⟩
  exact ⟨answers, s, known, entry, hrun, hentry, AcPredictorAdapter.entries_invariant
    (e := slidingEngine) ⟨rfl, _, _, _, rfl⟩ (fun _ _ h => eq_of_beq h) (fun _ => by decide) ()
    hrun hentry⟩

end Repercep.VJepa
