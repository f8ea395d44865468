import Mathlib.Algebra.Field.Rat
import Repercep.VJepa.Adapter
set_option autoImplicit false

/-!
# Parity of the predictor's cache

Each block of the predictor is a causal layer on whole frames: it keeps the raw
keys and values of a frame, and rotates and attends when a later frame looks back.
The flat tensors of the adapter are these kept values, concatenated.  The library
on causal stacks then says that one pending frame through the caches is the frame
a full forward would append, and that committing it under a zero action leaves
the caches the longer prefix would have.
-/

namespace Repercep.VJepa

open Foundation (view view_flatten length_flatten_of_forall zipWith_of_forall_left CausalLayer)
open Foundation.CausalLayer (runStack keptBy advance)

variable {α : Type} [Field α]

/-! ## Rotation, frame by frame -/

section Rotation

variable (p : AcPredictor α) (attn : Attention α)

/-- The patch tokens of one frame turn by consecutive ids. -/
theorem rotateVisual_slots (frame : Nat) (tokens : List (Heads α)) :
    tokens.mapIdx (fun slot token =>
        p.rotateToken attn frame (slot + p.actionTokens) token) =
      List.zipWith (attn.rotateVisual p.rotary p.gridHeight p.gridWidth)
        (List.range' (frame * p.gridHeight * p.gridWidth) tokens.length) tokens := by
  apply List.ext_getElem
  · simp
  · intro slot hleft hright
    simp [AcPredictor.rotateToken]

/-- The conditioning tokens of one frame turn by the frame. -/
theorem rotateCond_slots (frame : Nat) {tokens : List (Heads α)}
    (h : tokens.length ≤ p.actionTokens) :
    tokens.mapIdx (fun slot token => p.rotateToken attn frame slot token) =
      tokens.map (attn.rotateCond p.rotary frame) := by
  apply List.ext_getElem
  · simp
  · intro slot hleft hright
    rw [List.length_mapIdx] at hleft
    simp [AcPredictor.rotateToken, Nat.lt_of_lt_of_le hleft h]

/-- One frame, cut into its conditioning and its patch tokens. -/
theorem rotate_frame (frame : Nat) {tokens : List (Heads α)}
    (h : tokens.length = p.actionTokens + p.gridHeight * p.gridWidth) :
    (tokens.take p.actionTokens).map (attn.rotateCond p.rotary frame) ++
        List.zipWith (attn.rotateVisual p.rotary p.gridHeight p.gridWidth)
          (List.range' (frame * p.gridHeight * p.gridWidth) (p.gridHeight * p.gridWidth))
          (tokens.drop p.actionTokens) =
      tokens.mapIdx fun slot token => p.rotateToken attn frame slot token := by
  have htake : (tokens.take p.actionTokens).length = p.actionTokens := by
    rw [List.length_take, h]
    exact Nat.min_eq_left (Nat.le_add_right _ _)
  have hdrop : (tokens.drop p.actionTokens).length = p.gridHeight * p.gridWidth := by
    rw [List.length_drop, h, Nat.add_sub_cancel_left]
  have hcut : (tokens.take p.actionTokens ++ tokens.drop p.actionTokens).mapIdx
      (fun slot token => p.rotateToken attn frame slot token) = _ := List.mapIdx_append
  rw [List.take_append_drop, htake, rotateVisual_slots, hdrop,
    rotateCond_slots p attn frame (Nat.le_of_eq htake)] at hcut
  exact hcut.symm

/-- The frames' parts, cut out of the flat tokens and put together again. -/
theorem rotate_groups (frameOffset : Nat) {frames : List (List (Heads α))}
    (h : ∀ tokens ∈ frames, tokens.length = p.actionTokens + p.gridHeight * p.gridWidth) :
    List.zipWith (· ++ ·)
        (List.zipWith (fun pos group =>
            (group.take p.actionTokens).map (attn.rotateCond p.rotary pos))
          (List.range' frameOffset frames.length) frames)
        (view (p.gridHeight * p.gridWidth) frames.length
          (List.zipWith (attn.rotateVisual p.rotary p.gridHeight p.gridWidth)
            (List.range' (frameOffset * p.gridHeight * p.gridWidth)
              (frames.length * (p.gridHeight * p.gridWidth)))
            (frames.map (List.drop p.actionTokens)).flatten)) =
      p.rotateFrames attn frameOffset frames := by
  induction frames generalizing frameOffset with
  | nil => rfl
  | cons tokens frames ih =>
      have htokens := h tokens List.mem_cons_self
      have hdrop : (tokens.drop p.actionTokens).length = p.gridHeight * p.gridWidth := by
        rw [List.length_drop, htokens, Nat.add_sub_cancel_left]
      have hids : List.range' (frameOffset * p.gridHeight * p.gridWidth)
            ((frames.length + 1) * (p.gridHeight * p.gridWidth)) =
          List.range' (frameOffset * p.gridHeight * p.gridWidth) (p.gridHeight * p.gridWidth) ++
            List.range' ((frameOffset + 1) * p.gridHeight * p.gridWidth)
              (frames.length * (p.gridHeight * p.gridWidth)) := by
        rw [Nat.succ_mul, Nat.add_comm, ← List.range'_append_1, Nat.succ_mul, Nat.add_mul]
      have hfirst : (List.zipWith (attn.rotateVisual p.rotary p.gridHeight p.gridWidth)
          (List.range' (frameOffset * p.gridHeight * p.gridWidth) (p.gridHeight * p.gridWidth))
          (tokens.drop p.actionTokens)).length = p.gridHeight * p.gridWidth := by
        rw [List.length_zipWith, List.length_range', hdrop, Nat.min_self]
      have hrest := ih (frameOffset + 1) fun other hother =>
        h other (List.mem_cons_of_mem _ hother)
      rw [List.length_cons, hids, List.map_cons, List.flatten_cons,
        List.zipWith_append (by rw [List.length_range', hdrop]), List.range'_succ,
        List.zipWith_cons_cons, view, List.take_left' hfirst, List.drop_left' hfirst,
        List.zipWith_cons_cons, hrest, rotate_frame p attn frameOffset htokens]
      simp [AcPredictor.rotateFrames, List.mapIdx_cons, Nat.add_comm, Nat.add_left_comm]

/-- **Positions.**  The adapter's rotation of concatenated frames is the rotation of
each token by its own frame, counted from the offset, and its slot in it. -/
theorem rotateAugmented_flatten (frameOffset : Nat) (frames : List (List (Heads α)))
    (h : ∀ tokens ∈ frames, tokens.length = p.actionTokens + p.gridHeight * p.gridWidth) :
    attn.rotateAugmented p.rotary frames.flatten frames.length p.gridHeight p.gridWidth
        p.actionTokens frameOffset =
      (p.rotateFrames attn frameOffset frames).flatten := by
  unfold Attention.rotateAugmented
  rw [view_flatten h, ← rotate_groups p attn frameOffset h]

end Rotation

/-! ## Blocks as causal layers -/

/-- What a block keeps of a frame: raw keys and values. -/
abbrev FrameKv (α : Type) := List (Heads α) × List (Heads α)

/-- The flat keys and values of some frames. -/
def flatKv (kept : List (FrameKv α)) : FrameKv α :=
  ((kept.map Prod.fst).flatten, (kept.map Prod.snd).flatten)

namespace AcPredictor

variable (p : AcPredictor α)

/-- Tokens of one frame. -/
abbrev perFrame : Nat := p.actionTokens + p.gridHeight * p.gridWidth

/-- A block on whole frames. -/
def layer (block : PredictorBlock α) : CausalLayer (List (Vec α)) (FrameKv α) where
  keep frame := (frame.map block.rawKey, frame.map block.rawValue)
  out kept frame :=
    let keys := (p.rotateFrames block.attn 0
      (kept.map Prod.fst ++ [frame.map block.rawKey])).flatten
    let values := (kept.map Prod.snd ++ [frame.map block.rawValue]).flatten
    frame.mapIdx fun slot x =>
      let q := p.rotateToken block.attn kept.length slot (block.rawQuery x)
      block.residual x (block.attn.attend q keys values)

/-- The stack of blocks. -/
def layers : List (CausalLayer (List (Vec α)) (FrameKv α)) :=
  p.predictorBlocks.map p.layer

/-- The assumed forward of a block is its causal layer. -/
theorem blockFrames_eq (block : PredictorBlock α) (prior frames : List (List (Vec α))) :
    p.blockFrames block prior frames =
      (p.layer block).whole (prior.map (p.layer block).keep) frames := by
  induction frames generalizing prior with
  | nil => rfl
  | cons frame frames ih =>
      have hframe : p.blockFrame block prior frame =
          (p.layer block).out (prior.map (p.layer block).keep) frame := by
        simp [blockFrame, layer, Function.comp_def, List.map_flatten]
      rw [blockFrames, CausalLayer.whole, hframe, ih, List.map_append]
      rfl

/-- A layer keeps the number of tokens in a frame. -/
theorem length_of_mem_whole (block : PredictorBlock α) {count : Nat}
    {frames : List (List (Vec α))} (kept : List (FrameKv α))
    (h : ∀ frame ∈ frames, frame.length = count) :
    ∀ frame ∈ (p.layer block).whole kept frames, frame.length = count := by
  induction frames generalizing kept with
  | nil => simp [CausalLayer.whole]
  | cons frame frames ih =>
      intro out hout
      rw [CausalLayer.whole, List.mem_cons] at hout
      rcases hout with rfl | hout
      · rw [← h frame List.mem_cons_self]
        exact List.length_mapIdx
      · exact ih _ (fun other hother => h other (List.mem_cons_of_mem _ hother)) out hout

variable {p}

/-- A block on flat tokens. -/
theorem blockForward_flatten (block : PredictorBlock α) {frames : List (List (Vec α))}
    (h : ∀ frame ∈ frames, frame.length = p.perFrame) :
    p.blockForward block frames.flatten frames.length =
      ((p.layer block).whole [] frames).flatten := by
  rw [blockForward, view_flatten h, blockFrames_eq]
  rfl

/-- The blocks on flat tokens are the stack on frames. -/
theorem runBlocks_flatten {frames : List (List (Vec α))}
    (h : ∀ frame ∈ frames, frame.length = p.perFrame) :
    p.runBlocks frames.flatten frames.length = (runStack p.layers frames).flatten := by
  unfold runBlocks layers
  induction p.predictorBlocks generalizing frames with
  | nil => rfl
  | cons block blocks ih =>
      have hnext := ih (p.length_of_mem_whole block [] h)
      rw [CausalLayer.length_whole] at hnext
      rw [List.foldl_cons, blockForward_flatten block h, hnext]
      rfl

/-- What a stack kept of some frames, layer by layer: one entry a frame, of the
frame's tokens. -/
def Shaped (p : AcPredictor α) (count : Nat) (kept : List (FrameKv α)) : Prop :=
  kept.length = count ∧ ∀ kv ∈ kept, kv.1.length = p.perFrame

theorem shaped_of_mem_keptBy {frames : List (List (Vec α))}
    (h : ∀ frame ∈ frames, frame.length = p.perFrame) :
    ∀ kept ∈ keptBy p.layers frames, p.Shaped frames.length kept := by
  unfold layers
  induction p.predictorBlocks generalizing frames with
  | nil => simp [keptBy]
  | cons block blocks ih =>
      intro kept hmem
      rw [List.map_cons, keptBy, List.mem_cons] at hmem
      rcases hmem with rfl | hmem
      · refine ⟨List.length_map _, ?_⟩
        intro kv hkv
        obtain ⟨frame, hframe, rfl⟩ := List.mem_map.mp hkv
        exact (List.length_map _).trans (h frame hframe)
      · have hnext := ih (p.length_of_mem_whole block [] h) kept hmem
        rwa [CausalLayer.length_whole] at hnext

/-- The stack keeps the number of tokens in a frame. -/
theorem length_of_mem_runStack {frames : List (List (Vec α))}
    (h : ∀ frame ∈ frames, frame.length = p.perFrame) :
    ∀ frame ∈ runStack p.layers frames, frame.length = p.perFrame := by
  unfold layers
  induction p.predictorBlocks generalizing frames with
  | nil => exact h
  | cons block blocks ih => exact ih (p.length_of_mem_whole block [] h)

/-- The patch rows the predictor gives for one frame's output tokens. -/
def readout (p : AcPredictor α) (tokens : List (Vec α)) : List (Vec α) :=
  (tokens.drop p.actionTokens).map fun token => p.predictorProj (p.predictorNorm token)

omit [Field α] in
theorem length_readout {tokens : List (Vec α)} (h : tokens.length = p.perFrame) :
    (p.readout tokens).length = p.gridHeight * p.gridWidth := by
  rw [readout, List.length_map, List.length_drop, h, Nat.add_sub_cancel_left]

/-- The assumed forward on whole frames is the stack, read out frame by frame. -/
theorem forward_flatten (hext : p.useExtrinsics = false)
    (hgrid : 0 < p.gridHeight * p.gridWidth) {visuals : List (List (Vec α))}
    (hvisuals : ∀ visual ∈ visuals, visual.length = p.gridHeight * p.gridWidth)
    (actions states : List (Vec α)) (frames : List (List (Vec α)))
    (hframes : frames = List.zipWith (fun actionState rows =>
      p.frameTokens actionState.1 actionState.2 none rows) (actions.zip states)
        (visuals.map (List.map p.predictorEmbed)))
    (hcount : frames.length = visuals.length)
    (htokens : ∀ frame ∈ frames, frame.length = p.perFrame) :
    p.forward visuals.flatten actions states =
      some ((runStack p.layers frames).map p.readout).flatten := by
  have hlength := length_flatten_of_forall hvisuals
  have hdiv : visuals.flatten.length / (p.gridHeight * p.gridWidth) = visuals.length := by
    rw [hlength, Nat.mul_div_cancel _ hgrid]
  have hmod : visuals.flatten.length % (p.gridHeight * p.gridWidth) = 0 := by
    rw [hlength, Nat.mul_mod_left]
  have hembed := Foundation.view_map_flatten p.predictorEmbed hvisuals
  have hout : view p.perFrame visuals.length (p.runBlocks frames.flatten visuals.length) =
      runStack p.layers frames := by
    rw [← hcount, runBlocks_flatten htokens, ← CausalLayer.length_runStack p.layers frames]
    exact view_flatten (length_of_mem_runStack htokens)
  unfold forward
  simp only [hdiv, hmod, hext, hembed, ← hframes, hout]
  have hreadout : p.readout = fun tokens => (tokens.drop p.actionTokens).map
      fun token => p.predictorProj (p.predictorNorm token) := rfl
  rw [hreadout]
  simp [List.map_flatten, Function.comp_def]

end AcPredictor

/-! ## The adapter's loops -/

namespace AcPredictorAdapter

variable (a : AcPredictorAdapter α)

/-- The capture loop keeps what the stack keeps. -/
theorem captureLayers_flatten {frames : List (List (Vec α))}
    (h : ∀ frame ∈ frames, frame.length = a.predictor.perFrame) :
    a.captureLayers frames.length a.predictor.predictorBlocks frames.flatten =
      (keptBy a.predictor.layers frames).map flatKv := by
  unfold AcPredictor.layers
  induction a.predictor.predictorBlocks generalizing frames with
  | nil => rfl
  | cons block blocks ih =>
      have hnext := ih (a.predictor.length_of_mem_whole block [] h)
      rw [CausalLayer.length_whole] at hnext
      rw [captureLayers, AcPredictor.blockForward_flatten block h, hnext, List.map_cons, keptBy,
        List.map_cons]
      congr 1
      simp [flatKv, AcPredictor.layer, Function.comp_def, List.map_flatten]

/-- One layer of `_advance_pending` is one item through the layer. -/
theorem advance_layer (block : PredictorBlock α) {kept : List (FrameKv α)} {x : List (Vec α)}
    (hkept : a.predictor.Shaped kept.length kept) (hx : x.length = a.predictor.perFrame) :
    List.zipWith block.residual x
        ((block.attn.rotateAugmented a.predictor.rotary (x.map block.rawQuery) 1
          a.predictor.gridHeight a.predictor.gridWidth a.predictor.actionTokens
          kept.length).map fun query =>
            block.attn.attend query
              (block.attn.rotateAugmented a.predictor.rotary
                ((flatKv kept).1 ++ x.map block.rawKey) (kept.length + 1)
                a.predictor.gridHeight a.predictor.gridWidth a.predictor.actionTokens 0)
              ((flatKv kept).2 ++ x.map block.rawValue)) =
      (a.predictor.layer block).out kept x := by
  have hqueries := rotateAugmented_flatten a.predictor block.attn kept.length
    [x.map block.rawQuery] (by simp [hx])
  have hkeys := rotateAugmented_flatten a.predictor block.attn 0
    (kept.map Prod.fst ++ [x.map block.rawKey]) (by
      intro tokens hmem
      rcases List.mem_append.mp hmem with hmem | hmem
      · obtain ⟨kv, hkv, rfl⟩ := List.mem_map.mp hmem
        exact hkept.2 kv hkv
      · rw [List.mem_singleton.mp hmem, List.length_map, hx])
  rw [List.flatten_cons, List.flatten_nil, List.append_nil, List.length_singleton] at hqueries
  rw [List.flatten_append, List.flatten_cons, List.flatten_nil, List.append_nil,
    List.length_append, List.length_map, List.length_singleton] at hkeys
  rw [hqueries, show (flatKv kept).1 = (kept.map Prod.fst).flatten from rfl, hkeys]
  apply List.ext_getElem
  · simp [AcPredictor.rotateFrames, AcPredictor.layer]
  · intro slot hleft hright
    simp [AcPredictor.rotateFrames, AcPredictor.layer, flatKv]

/-- The layer loop of `_advance_pending` is one item through the stack. -/
theorem advanceLayers_eq {count : Nat} {caches : List (List (FrameKv α))} {x : List (Vec α)}
    (hshaped : ∀ kept ∈ caches, a.predictor.Shaped count kept)
    (hlayers : caches.length = a.predictor.predictorBlocks.length)
    (hx : x.length = a.predictor.perFrame) :
    a.advanceLayers count a.predictor.predictorBlocks (caches.map flatKv) x =
      some ((advance a.predictor.layers caches x).1,
        (advance a.predictor.layers caches x).2.map flatKv) := by
  unfold AcPredictor.layers
  generalize a.predictor.predictorBlocks = blocks at hlayers ⊢
  induction blocks generalizing caches x with
  | nil =>
      rw [List.eq_nil_of_length_eq_zero hlayers]
      rfl
  | cons block blocks ih =>
      cases caches with
      | nil => simp at hlayers
      | cons kept caches =>
          obtain ⟨hcount, htokens⟩ := hshaped kept List.mem_cons_self
          subst hcount
          have hempty : kept.length = 0 → flatKv kept = ([], []) := by
            intro hzero
            rw [List.eq_nil_of_length_eq_zero hzero]
            rfl
          have hnext : ((a.predictor.layer block).out kept x).length = a.predictor.perFrame :=
            List.length_mapIdx.trans hx
          have hrest := ih (fun other hother => hshaped other (List.mem_cons_of_mem _ hother))
            hnext (Nat.succ.inj hlayers)
          have hout := a.advance_layer block ⟨rfl, htokens⟩ hx
          have hflat : flatKv (kept ++ [(a.predictor.layer block).keep x]) =
              ((flatKv kept).1 ++ x.map block.rawKey, (flatKv kept).2 ++ x.map block.rawValue) := by
            simp [flatKv, AcPredictor.layer]
          have hold : (if kept.length = 0 then [] else (flatKv kept).1) = (flatKv kept).1 := by
            split
            next hzero => rw [hempty hzero]
            next => rfl
          have hold' : (if kept.length = 0 then [] else (flatKv kept).2) = (flatKv kept).2 := by
            split
            next hzero => rw [hempty hzero]
            next => rfl
          rw [List.map_cons, advanceLayers]
          simp only [hold, hold', hout, hrest]
          rw [List.map_cons, advance, List.map_cons, hflat]
          rfl

/-! ## Prediction from a prefix and a pending frame -/

/-- The tokens of a frame under an action, with zero state. -/
def frameUnder (action : Vec α) (visual : Block α) : List (Vec α) :=
  a.predictor.frameTokens action a.zeros none (visual.map a.predictor.predictorEmbed)

/-- What the layers keep of frames processed with zero actions. -/
def prefixKv (visuals : List (Block α)) : List (List (FrameKv α)) :=
  keptBy a.predictor.layers (visuals.map (a.frameUnder a.zeros))

/-- The next frame after completed frames and a pending one driven by an action. -/
def nextFrame (visuals : List (Block α)) (pending : Block α) (action : Vec α) : Block α :=
  a.predictor.readout (advance a.predictor.layers (a.prefixKv visuals) (a.frameUnder action pending)).1

/-- The cache stands for the context: it holds what the layers keep of all frames but
the last, and the last one pending. -/
def Stands (cache : AcKVCache α) (context : Block α) : Prop :=
  ∃ visuals pending, (∀ visual ∈ visuals, visual.length = a.p) ∧ pending.length = a.p ∧
    context = visuals.flatten ++ pending ∧
    cache = { layerKv := (a.prefixKv visuals).map flatKv
              processedFrames := visuals.length
              pending := some pending }

/-- The frames under the actions `__call__` supplies: zeros for all but the last. -/
theorem framesUnder_eq_zipWith (visuals : List (Block α)) (pending : Block α)
    (action : Vec α) :
    List.zipWith (fun actionState rows =>
        a.predictor.frameTokens actionState.1 actionState.2 none rows)
      ((List.replicate visuals.length a.zeros ++ [action]).zip
        (List.replicate (visuals.length + 1) a.zeros))
      ((visuals ++ [pending]).map (List.map a.predictor.predictorEmbed)) =
      visuals.map (a.frameUnder a.zeros) ++ [a.frameUnder action pending] := by
  rw [List.replicate_succ', List.zip_append (by simp), List.map_append,
    List.zipWith_append (by simp), List.zip_replicate', zipWith_of_forall_left (by simp)
      (g := a.predictor.frameTokens a.zeros a.zeros none)]
  · simp [frameUnder, Function.comp_def]
  · intro actionState hmem
    rw [(List.mem_replicate.mp hmem).2]

section NoExtrinsics

variable {a} (hext : a.predictor.useExtrinsics = false)

include hext

omit [Field α] in
theorem actionTokens_eq : a.predictor.actionTokens = 2 := by
  rw [AcPredictor.actionTokens, hext]
  rfl

theorem length_frameUnder (action : Vec α) {visual : Block α} (h : visual.length = a.p) :
    (a.frameUnder action visual).length = a.predictor.perFrame := by
  rw [frameUnder, AcPredictor.frameTokens, AcPredictor.perFrame, actionTokens_eq hext, ← a.grid]
  simp only [List.length_append, List.length_cons, List.length_map, h, Option.map_none,
    Option.toList_none, List.length_nil]

theorem length_of_mem_framesUnder {visuals : List (Block α)}
    (hvisuals : ∀ visual ∈ visuals, visual.length = a.p) :
    ∀ frame ∈ visuals.map (a.frameUnder a.zeros), frame.length = a.predictor.perFrame := by
  intro frame hframe
  obtain ⟨visual, hvisual, rfl⟩ := List.mem_map.mp hframe
  exact length_frameUnder hext _ (hvisuals visual hvisual)

omit [Field α] hext in
/-- The rows of a context with a last frame. -/
theorem length_context {visuals : List (Block α)} {pending : Block α}
    (hvisuals : ∀ visual ∈ visuals, visual.length = a.p) (hpending : pending.length = a.p) :
    (visuals.flatten ++ pending).length = (visuals.length + 1) * a.p := by
  rw [List.length_append, length_flatten_of_forall hvisuals, hpending, Nat.succ_mul]

omit [Field α] hext in
/-- The last rows after others are the rows appended. -/
theorem lastRows_append {count : Nat} {rows last : List (Vec α)} (hpos : 0 < count)
    (hlast : last.length = count) : lastRows count (rows ++ last) = last := by
  rw [lastRows, if_neg (Nat.ne_of_gt hpos), List.length_append, hlast, Nat.add_sub_cancel,
    List.drop_left]

theorem length_of_mem_tokens {visuals : List (Block α)} {pending : Block α}
    (hvisuals : ∀ visual ∈ visuals, visual.length = a.p) (hpending : pending.length = a.p)
    (action : Vec α) :
    ∀ frame ∈ visuals.map (a.frameUnder a.zeros) ++ [a.frameUnder action pending],
      frame.length = a.predictor.perFrame := by
  intro frame hmem
  rcases List.mem_append.mp hmem with hmem | hmem
  · exact length_of_mem_framesUnder hext hvisuals frame hmem
  · rw [List.mem_singleton.mp hmem, length_frameUnder hext action hpending]

/-- The prediction has the patch rows of one frame. -/
theorem length_nextFrame {visuals : List (Block α)} {pending : Block α}
    (hvisuals : ∀ visual ∈ visuals, visual.length = a.p) (hpending : pending.length = a.p)
    (action : Vec α) : (a.nextFrame visuals pending action).length = a.p := by
  rw [a.grid]
  apply AcPredictor.length_readout
  apply AcPredictor.length_of_mem_runStack (length_of_mem_tokens hext hvisuals hpending action)
  rw [(CausalLayer.advance_keptBy a.predictor.layers _ _).1]
  exact List.mem_append_right _ List.mem_cons_self

/-- The uncached call is the prediction from the prefix and the pending frame: earlier
frames carry zero actions, and no earlier frame sees the last one. -/
theorem call_eq {visuals : List (Block α)} {pending : Block α}
    (hvisuals : ∀ visual ∈ visuals, visual.length = a.p) (hpending : pending.length = a.p)
    {action : Vec α} (haction : action.length = a.adim) :
    a.call (visuals.flatten ++ pending) action = some (a.nextFrame visuals pending action) := by
  have hlength := length_context hvisuals hpending
  have hdiv : (visuals.flatten ++ pending).length / a.p = visuals.length + 1 := by
    rw [hlength, Nat.mul_div_cancel _ a.patches]
  have hall : ∀ visual ∈ visuals ++ [pending], visual.length =
      a.predictor.gridHeight * a.predictor.gridWidth := by
    intro visual hmem
    rw [← a.grid]
    rcases List.mem_append.mp hmem with hmem | hmem
    · exact hvisuals visual hmem
    · rw [List.mem_singleton.mp hmem, hpending]
  have htokens := length_of_mem_tokens hext hvisuals hpending action
  have hforward := AcPredictor.forward_flatten hext (a.grid ▸ a.patches) hall
    (List.replicate visuals.length a.zeros ++ [action])
    (List.replicate (visuals.length + 1) a.zeros)
    (visuals.map (a.frameUnder a.zeros) ++ [a.frameUnder action pending])
    (a.framesUnder_eq_zipWith visuals pending action).symm (by simp) htokens
  rw [List.flatten_append, List.flatten_cons, List.flatten_nil, List.append_nil] at hforward
  obtain ⟨hrun, -⟩ := CausalLayer.advance_keptBy a.predictor.layers
    (visuals.map (a.frameUnder a.zeros)) (a.frameUnder action pending)
  have hlast := length_nextFrame hext hvisuals hpending action
  rw [call]
  simp only [hdiv, Nat.succ_ne_zero, if_false, Nat.add_sub_cancel, actionRow, if_pos haction,
    Option.bind_eq_bind, Option.bind_some, hforward, hrun, List.map_append, List.map_cons,
    List.map_nil, List.flatten_append, List.flatten_cons, List.flatten_nil, List.append_nil]
  exact congrArg some (lastRows_append a.patches hlast)

/-- The captured prefix is what the layers keep of its frames. -/
theorem encodeZeroActionPrefix_flatten {visuals : List (Block α)}
    (hvisuals : ∀ visual ∈ visuals, visual.length = a.p) :
    a.encodeZeroActionPrefix visuals.flatten = (a.prefixKv visuals).map flatKv := by
  have hdiv : visuals.flatten.length / a.p = visuals.length := by
    rw [length_flatten_of_forall hvisuals, Nat.mul_div_cancel _ a.patches]
  have hgroups := Foundation.view_map_flatten a.predictor.predictorEmbed hvisuals
  have hcapture := a.captureLayers_flatten (length_of_mem_framesUnder hext hvisuals)
  rw [List.length_map] at hcapture
  simp only [encodeZeroActionPrefix, hdiv, hext, Bool.false_eq_true, if_false, hgroups,
    List.map_map]
  exact hcapture

/-- A fresh cache stands for its context. -/
theorem initCache_stands {visuals : List (Block α)} {pending : Block α}
    (hvisuals : ∀ visual ∈ visuals, visual.length = a.p) (hpending : pending.length = a.p) :
    ∃ cache, a.initCache (visuals.flatten ++ pending) = some cache ∧
      a.Stands cache (visuals.flatten ++ pending) := by
  have hlength := length_context hvisuals hpending
  have hdiv : (visuals.flatten ++ pending).length / a.p = visuals.length + 1 := by
    rw [hlength, Nat.mul_div_cancel _ a.patches]
  have hmod : (visuals.flatten ++ pending).length % a.p = 0 := by
    rw [hlength, Nat.mul_mod_left]
  have htake : (visuals.flatten ++ pending).take
      ((visuals.flatten ++ pending).length - a.p) = visuals.flatten := by
    rw [List.length_append, hpending, Nat.add_sub_cancel, List.take_left]
  refine ⟨{ layerKv := (a.prefixKv visuals).map flatKv
            processedFrames := visuals.length
            pending := some pending }, ?_, visuals, pending, hvisuals, hpending, rfl, rfl⟩
  unfold initCache
  simp only [hdiv, hmod, htake, lastRows_append a.patches hpending]
  cases visuals with
  | nil =>
      simp [prefixKv, CausalLayer.keptBy_nil, AcPredictor.layers, flatKv, Function.comp_def]
  | cons visual visuals =>
      simpa using encodeZeroActionPrefix_flatten hext hvisuals

/-- One frame through the cache: the prediction, and the prefix with it completed. -/
theorem advancePending_eq {visuals : List (Block α)} {pending : Block α}
    (hvisuals : ∀ visual ∈ visuals, visual.length = a.p) (hpending : pending.length = a.p)
    {action : Vec α} (haction : action.length = a.adim) :
    a.advancePending { layerKv := (a.prefixKv visuals).map flatKv
                       processedFrames := visuals.length
                       pending := some pending } action =
      some (a.nextFrame visuals pending action,
        { layerKv := (keptBy a.predictor.layers (visuals.map (a.frameUnder a.zeros) ++
            [a.frameUnder action pending])).map flatKv
          processedFrames := visuals.length + 1
          pending := none }) := by
  have hshaped := AcPredictor.shaped_of_mem_keptBy (length_of_mem_framesUnder hext hvisuals)
  rw [List.length_map] at hshaped
  have hlayers : (a.prefixKv visuals).length = a.predictor.predictorBlocks.length := by
    rw [prefixKv, CausalLayer.length_keptBy, AcPredictor.layers, List.length_map]
  have hadvance := a.advanceLayers_eq hshaped hlayers
    (length_frameUnder hext action hpending)
  have hkept := (CausalLayer.advance_keptBy a.predictor.layers
    (visuals.map (a.frameUnder a.zeros)) (a.frameUnder action pending)).2
  have hx : a.predictor.frameTokens action (List.replicate action.length (0 : α)) none
      (pending.map a.predictor.predictorEmbed) = a.frameUnder action pending := by
    rw [haction]
    rfl
  rw [hkept] at hadvance
  simp only [advancePending, Option.bind_eq_bind, Option.bind_some, hext, Bool.false_eq_true,
    if_false, hx, prefixKv, hadvance]
  rfl

/-! ## Parity -/

omit [Field α] hext in
/-- A context of at least one whole frame has a last one. -/
theorem exists_frames {context : Block α} (hwhole : a.p ∣ context.length)
    (hframe : context ≠ []) :
    ∃ (visuals : List (Block α)) (pending : Block α),
      (∀ visual ∈ visuals, visual.length = a.p) ∧ pending.length = a.p ∧
        context = visuals.flatten ++ pending := by
  obtain ⟨count, hcount⟩ := hwhole
  rw [Nat.mul_comm] at hcount
  have hgroups := Foundation.length_of_mem_view hcount
  have hflatten := Foundation.flatten_view hcount
  rcases (view a.p count context).eq_nil_or_concat' with hnil | ⟨visuals, pending, hsnoc⟩
  · rw [hnil] at hflatten
    exact absurd hflatten.symm hframe
  · rw [hsnoc] at hgroups hflatten
    refine ⟨visuals, pending,
      fun visual hmem => hgroups visual (List.mem_append_left _ hmem),
      hgroups pending (List.mem_append_right _ List.mem_cons_self), ?_⟩
    rw [← hflatten, List.flatten_append, List.flatten_cons, List.flatten_nil, List.append_nil]

/-- **One step.**  From a cache that stands for a context, `step_cached` predicts what
the call on the context predicts, and appending the normed prediction gives a cache
that stands for the grown context. -/
theorem Stands.step {cache : AcKVCache α} {context : Block α} (h : a.Stands cache context)
    (norm : Vec α → Vec α) {action : Vec α} (haction : action.length = a.adim) :
    ∃ nxt staged grown, a.call context action = some nxt ∧
      a.stepCached cache action = some (nxt, staged) ∧
      a.appendFrame staged (nxt.map norm) = some grown ∧
      a.Stands grown (context ++ nxt.map norm) := by
  obtain ⟨visuals, pending, hvisuals, hpending, rfl, rfl⟩ := h
  have hpredict := advancePending_eq hext hvisuals hpending haction
  have hcommit := advancePending_eq hext hvisuals hpending
    (show a.zeros.length = a.adim from List.length_replicate)
  have hnorm : ((a.nextFrame visuals pending action).map norm).length = a.p := by
    rw [List.length_map, length_nextFrame hext hvisuals hpending]
  have hcommitted : keptBy a.predictor.layers (visuals.map (a.frameUnder a.zeros) ++
      [a.frameUnder a.zeros pending]) = a.prefixKv (visuals ++ [pending]) := by
    rw [prefixKv, List.map_append]
    rfl
  rw [hcommitted] at hcommit
  refine ⟨a.nextFrame visuals pending action,
    { layerKv := (a.prefixKv (visuals ++ [pending])).map flatKv
      processedFrames := visuals.length + 1
      pending := none },
    { layerKv := (a.prefixKv (visuals ++ [pending])).map flatKv
      processedFrames := visuals.length + 1
      pending := some ((a.nextFrame visuals pending action).map norm) },
    call_eq hext hvisuals hpending haction, ?_, ?_,
    visuals ++ [pending], (a.nextFrame visuals pending action).map norm, ?_, hnorm, ?_, ?_⟩
  · have hzeros : List.replicate action.length (0 : α) = a.zeros := by
      rw [haction]
      rfl
    rw [stepCached, hzeros]
    simp only [hpredict, hcommit, Option.bind_eq_bind, Option.bind_some]
  · simp [appendFrame, length_nextFrame hext hvisuals hpending]
  · intro visual hmem
    rcases List.mem_append.mp hmem with hmem | hmem
    · exact hvisuals visual hmem
    · rw [List.mem_singleton.mp hmem, hpending]
  · simp
  · simp

/-- From a cache that stands for the context the rollouts predict the same frames. -/
theorem Stands.rolledOut (norm : Vec α → Vec α) {actions : List (Vec α)}
    (hactions : ∀ action ∈ actions, action.length = a.adim) :
    ∀ {cache : AcKVCache α} {context : Block α}, a.Stands cache context →
      ∃ frames, a.rolledOut norm cache actions = some frames ∧
        a.recomputed norm context actions = some frames ∧ frames.length = actions.length := by
  induction actions with
  | nil =>
      intro cache context _
      exact ⟨[], rfl, rfl, rfl⟩
  | cons action actions ih =>
      intro cache context h
      obtain ⟨nxt, staged, grown, hcall, hstep, happend, hgrown⟩ :=
        h.step hext norm (hactions action List.mem_cons_self)
      obtain ⟨frames, hrolled, hrecomputed, hlength⟩ :=
        ih (fun other hother => hactions other (List.mem_cons_of_mem _ hother)) hgrown
      refine ⟨nxt :: frames, ?_, ?_, by rw [List.length_cons, hlength, List.length_cons]⟩
      · simp [AcPredictorAdapter.rolledOut, hstep, happend, hrolled]
      · simp [recomputed, hcall, hrecomputed]

/-- **Cache parity.**  For every predictor, every context of at least one whole frame
and every sequence of actions, the frames predicted incrementally through the cache
are those predicted by calling the adapter on the whole grown context, at every
step. -/
theorem incremental_eq_recomputed (norm : Vec α → Vec α) {context : Block α}
    (hwhole : a.p ∣ context.length) (hframe : context ≠ []) {actions : List (Vec α)}
    (hactions : ∀ action ∈ actions, action.length = a.adim) :
    ∃ frames, a.incremental norm context actions = some frames ∧
      a.recomputed norm context actions = some frames ∧ frames.length = actions.length := by
  obtain ⟨visuals, pending, hvisuals, hpending, rfl⟩ := exists_frames hwhole hframe
  obtain ⟨cache, hinit, hstands⟩ := initCache_stands hext hvisuals hpending
  obtain ⟨frames, hrolled, hrecomputed, hlength⟩ := hstands.rolledOut hext norm hactions
  exact ⟨frames, by simp [incremental, hinit, hrolled], hrecomputed, hlength⟩

end NoExtrinsics

end AcPredictorAdapter

/-! ## A one-layer predictor over the rationals -/

/-- Attention over one head of two entries.  A key weighs by the square of its product with
the query. -/
def weighingBlock : PredictorBlock Rat where
  norm1 := id
  attn := {
    numHeads := 1
    qkv := fun x => x ++ x ++ x
    proj := id
    sdpa := fun query keys values =>
      let weights := keys.map fun key => 1 + (List.zipWith (· * ·) query key).sum ^ 2
      let mixed := List.zipWith (fun weight value => value.map (weight * ·)) weights values
      (mixed.foldl vecAdd [0, 0]).map fun entry => entry / weights.sum
    dDim := 2
    hDim := 0
    wDim := 0
    gridSize := 1
    separatePositions := fun id _ _ => (id, 0, 0) }
  norm2 := id
  mlp := fun x => x

/-- Two such blocks over one patch token a frame; a frame is a quarter turn. -/
def weighingAdapter : AcPredictorAdapter Rat where
  predictor := {
    predictorEmbed := id
    actionEncoder := id
    stateEncoder := id
    useExtrinsics := false
    extrinsicsEncoder := id
    predictorBlocks := [weighingBlock, weighingBlock]
    predictorNorm := id
    predictorProj := id
    gridHeight := 1
    gridWidth := 1
    rotary := {
      sin := fun turns => if turns = 1 then 1 else if turns = 3 then -1 else 0
      cos := fun turns => if turns = 0 then 1 else if turns = 2 then -1 else 0
      omega := fun _ _ => 1 } }
  p := 1
  adim := 2
  grid := rfl
  patches := Nat.one_pos

/-- Two frames grown by two more. -/
theorem weighingAdapter_incremental :
    ∃ frames, weighingAdapter.incremental id [[1, 0], [0, 2]] [[1, 1], [3, 0]] = some frames ∧
      weighingAdapter.recomputed id [[1, 0], [0, 2]] [[1, 1], [3, 0]] = some frames ∧
        frames.length = 2 :=
  AcPredictorAdapter.incremental_eq_recomputed rfl id (by decide) (by decide) (by decide)

end Repercep.VJepa
