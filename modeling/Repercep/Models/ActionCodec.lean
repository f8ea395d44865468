import Mathlib
import Repercep.Foundation.Tensor
set_option autoImplicit false

/-!
# LingBot-VA actions, there and back

The model's actions have the axes batch, channel, frame, action and one more of a single
element, and are normalised; the executed ones are rows of the used channels, in their own
order and units.  `models/lingbot_va_pipeline.py` takes the first to the second after a
prediction, and the second to the first when it conditions the next one on what was executed.
Arithmetic is exact, and the quantiles are given for each channel.
-/

namespace Repercep.Models

open Foundation

namespace LingBotVA

variable {R : Type} [Field R]

/-- What both directions need of the task. -/
structure Task (R : Type) where
  q01 : Nat → R
  q99 : Nat → R
  usedActionChannelIds : List Nat

/-- The width of a channel's range, as both directions compute it. -/
def Task.span (task : Task R) (c : Nat) : R :=
  task.q99 c - task.q01 c + 0.000001

theorem atLeastTwo_two : Nat.AtLeastTwo 2 := ⟨le_rfl⟩

attribute [local instance] atLeastTwo_two

section Codec

variable [Inhabited R]

/-- `_denormalize_actions`. -/
def denormalizeActions (task : Task R) (actions : Tensor R) : Option (Tensor R) := do
  let a ← actions.select 0
  let a ← a.selectLast 0
  let a := a.mapIdx fun idx x =>
    (x + 1) / 2 * (task.q99 (idx.headD 0) - task.q01 (idx.headD 0) + 0.000001) +
      task.q01 (idx.headD 0)
  let a ← a.indexSelect task.usedActionChannelIds
  (a.permute [1, 2, 0]).reshape [-1, ((a.shape.headD 0 : Nat) : Int)]

/-- The used channels in the model's units, all others zero; a block of one column is broadcast
to all used channels. -/
def scatterNormalized (task : Task R) (k actionPerFrame actionDim : Nat) (a : Tensor R) :
    Tensor R :=
  let ids := task.usedActionChannelIds
  let aNorm := fun f h u =>
    (a.get [f, h, if a.shape.getLastD 0 = 1 then 0 else u] - task.q01 (ids.getD u 0)) /
      (task.q99 (ids.getD u 0) - task.q01 (ids.getD u 0) + 0.000001) * 2 - 1
  Tensor.ofFn [k, actionPerFrame, actionDim] fun idx =>
    let c := idx.getD 2 0
    if c ∈ ids then aNorm (idx.getD 0 0) (idx.getD 1 0) (ids.idxOf c) else 0

/-- The part of `_recondition` that takes executed actions back.  No other number of columns
fits than that of the used channels, or one. -/
def normalizeActions (task : Task R) (actionPerFrame actionDim : Nat) (actions : Tensor R) :
    Option (Tensor R) :=
  if actionPerFrame = 0 then
    none
  else do
    let k := actions.shape.headD 0 / actionPerFrame
    let a ← actions.reshape [(k : Int), (actionPerFrame : Int), -1]
    if (a.shape.getLastD 0 = task.usedActionChannelIds.length ∨ a.shape.getLastD 0 = 1) ∧
        task.usedActionChannelIds.all (· < actionDim) then
      let full := scatterNormalized task k actionPerFrame actionDim a
      return (full.permute [2, 0, 1]).unsqueeze.unsqueezeLast
    else
      none

/-- The channels that `_infer_chunk` leaves alone; it makes all others zero. -/
def maskActions (task : Task R) (actions : Tensor R) : Tensor R :=
  actions.mapIdx fun idx x => if idx.getD 1 0 ∈ task.usedActionChannelIds then x else 0

end Codec

section RoundTrip

variable [Inhabited R] {C frames H : Nat} {task : Task R} {actions : Tensor R}

theorem inside_block {a b c n₁ n₂ n₃ : Nat} (ha : a < n₁) (hb : b < n₂) (hc : c < n₃) :
    Inside [a, b, c] [n₁, n₂, n₃] :=
  .cons ha (.cons hb (.cons hc .nil))

/-- An executed action, from the model's. -/
def Task.denormalized (task : Task R) (c : Nat) (x : R) : R :=
  (x + 1) / 2 * (task.q99 c - task.q01 c + 0.000001) + task.q01 c

/-- Rows of the used channels, one for each action of each frame. -/
structure Executed (task : Task R) (actions rows : Tensor R) (frames H : Nat) : Prop where
  shape : rows.shape = [frames * H, task.usedActionChannelIds.length]
  block : ∃ block : Tensor R, block.shape = [frames, H, task.usedActionChannelIds.length] ∧
    block.data = rows.data ∧
    ∀ f < frames, ∀ h < H, ∀ u < task.usedActionChannelIds.length, block.get [f, h, u] =
      task.denormalized (task.usedActionChannelIds.getD u 0)
        (actions.get [0, task.usedActionChannelIds.getD u 0, f, h, 0])

theorem denormalizeActions_eq (hshape : actions.shape = [1, C, frames, H, 1])
    (hids : ∀ c ∈ task.usedActionChannelIds, c < C) (hused : task.usedActionChannelIds ≠ []) :
    ∃ rows, denormalizeActions task actions = some rows ∧ Executed task actions rows frames H := by
  have hpos : 0 < task.usedActionChannelIds.length := List.length_pos_iff.mpr hused
  let normalized : Tensor R := Tensor.ofFn [C, frames, H, 1] fun idx => actions.get (0 :: idx)
  let inner : Tensor R := Tensor.ofFn [C, frames, H] fun idx => normalized.get (idx ++ [0])
  let scaled : Tensor R := inner.mapIdx fun idx x => task.denormalized (idx.headD 0) x
  let used : Tensor R := Tensor.ofFn [task.usedActionChannelIds.length, frames, H] fun idx =>
    scaled.get (task.usedActionChannelIds.getD (idx.headD 0) 0 :: idx.tail)
  have hselect : actions.select 0 = some normalized := Tensor.select_eq hshape Nat.one_pos
  have hlast : normalized.selectLast 0 = some inner :=
    @Tensor.selectLast_eq _ _ normalized _ _ [C, frames, H] rfl Nat.one_pos
  have hgather : scaled.indexSelect task.usedActionChannelIds = some used :=
    Tensor.indexSelect_eq (t := scaled) rfl hids
  have hinfer : Tensor.inferShape (used.permute [1, 2, 0]).shape.prod
      [-1, (task.usedActionChannelIds.length : Int)] =
        some [frames * H, task.usedActionChannelIds.length] := by
    have hfirst := @Tensor.inferShape_first [task.usedActionChannelIds.length] (frames * H)
      (by rw [List.prod_singleton]; exact hpos)
    rw [List.prod_singleton] at hfirst
    have hprod : (used.permute [1, 2, 0]).shape.prod =
        frames * H * task.usedActionChannelIds.length := by
      change [frames, H, task.usedActionChannelIds.length].prod = _
      simp only [List.prod_cons, List.prod_nil]
      ring
    rw [hprod]
    exact hfirst
  obtain ⟨rows, hrows, hrowsShape, hrowsData⟩ := Tensor.reshape_eq hinfer (by
    change [frames, H, task.usedActionChannelIds.length].prod = _
    simp only [List.prod_cons, List.prod_nil]
    ring)
  refine ⟨rows, ?_, hrowsShape, used.permute [1, 2, 0], rfl, hrowsData.symm, ?_⟩
  · rw [denormalizeActions, hselect, Option.bind_eq_bind, Option.bind_some, hlast,
      Option.bind_some]
    change (scaled.indexSelect task.usedActionChannelIds).bind _ = _
    rw [hgather]
    exact hrows
  · intro f hf h hh u hu
    have hc : task.usedActionChannelIds.getD u 0 < C := by
      rw [List.getD_eq_getElem _ _ hu]
      exact hids _ (List.getElem_mem hu)
    have hmoved : (used.permute [1, 2, 0]).get [f, h, u] = used.get [u, f, h] :=
      @Tensor.get_permute _ _ used [1, 2, 0] [f, h, u] (inside_block hf hh hu)
    have hused' : used.get [u, f, h] = scaled.get [task.usedActionChannelIds.getD u 0, f, h] :=
      Tensor.get_ofFn _ (inside_block hu hf hh)
    have hscaled : scaled.get [task.usedActionChannelIds.getD u 0, f, h] =
        task.denormalized (task.usedActionChannelIds.getD u 0)
          (inner.get [task.usedActionChannelIds.getD u 0, f, h]) :=
      Tensor.get_mapIdx inner _ (inside_block hc hf hh)
    have hinner : inner.get [task.usedActionChannelIds.getD u 0, f, h] =
        normalized.get [task.usedActionChannelIds.getD u 0, f, h, 0] :=
      Tensor.get_ofFn _ (inside_block hc hf hh)
    have hnormalized : normalized.get [task.usedActionChannelIds.getD u 0, f, h, 0] =
        actions.get [0, task.usedActionChannelIds.getD u 0, f, h, 0] :=
      Tensor.get_ofFn _ (.cons hc (.cons hf (.cons hh (.cons Nat.one_pos .nil))))
    rw [hmoved, hused', hscaled, hinner, hnormalized]

omit [Inhabited R] in
/-- Normalising undoes denormalising. -/
theorem Task.normalized (task : Task R) {c : Nat} (hspan : task.span c ≠ 0) (htwo : (2 : R) ≠ 0)
    (x : R) : (task.denormalized c x - task.q01 c) / (task.q99 c - task.q01 c + 0.000001) * 2 - 1 =
      x := by
  have hspan' : task.q99 c - task.q01 c + 0.000001 ≠ 0 := hspan
  rw [Task.denormalized, add_sub_cancel_right]
  field_simp
  ring

/-- An element of the executed actions, where `_recondition` puts it. -/
theorem get_scatterNormalized (a : Tensor R) {c f h : Nat} (hc : c < C) (hf : f < frames)
    (hh : h < H) :
    ((scatterNormalized task frames H C a).permute [2, 0, 1]).unsqueeze.unsqueezeLast.get
        [0, c, f, h, 0] =
      if c ∈ task.usedActionChannelIds then
        (a.get [f, h, if a.shape.getLastD 0 = 1 then 0 else task.usedActionChannelIds.idxOf c] -
            task.q01 (task.usedActionChannelIds.getD (task.usedActionChannelIds.idxOf c) 0)) /
          (task.q99 (task.usedActionChannelIds.getD (task.usedActionChannelIds.idxOf c) 0) -
            task.q01 (task.usedActionChannelIds.getD (task.usedActionChannelIds.idxOf c) 0) +
            0.000001) * 2 - 1
      else 0 := by
  generalize hfull : scatterNormalized task frames H C a = full
  have hshape : full.shape = [frames, H, C] := hfull ▸ rfl
  have hinside : Inside [0, c, f, h] (full.permute [2, 0, 1]).unsqueeze.shape := by
    change Inside _ (1 :: Tensor.pick [2, 0, 1] full.shape)
    rw [hshape]
    exact .cons Nat.one_pos (inside_block hc hf hh)
  have hlast : (full.permute [2, 0, 1]).unsqueeze.unsqueezeLast.get [0, c, f, h, 0] =
      (full.permute [2, 0, 1]).unsqueeze.get [0, c, f, h] :=
    Tensor.get_unsqueezeLast _ hinside
  have hfirst : (full.permute [2, 0, 1]).unsqueeze.get [0, c, f, h] =
      (full.permute [2, 0, 1]).get [c, f, h] := Tensor.get_unsqueeze _ [c, f, h]
  have hmoved : (full.permute [2, 0, 1]).get [c, f, h] = full.get [f, h, c] := by
    refine @Tensor.get_permute _ _ full [2, 0, 1] [c, f, h] ?_
    rw [hshape]
    exact inside_block hc hf hh
  rw [hlast, hfirst, hmoved, ← hfull]
  exact Tensor.get_ofFn _ (inside_block hf hh hc)

theorem normalizeActions_eq {rows : Tensor R} (hframes : 0 < frames) (hH : 0 < H)
    (hids : ∀ c ∈ task.usedActionChannelIds, c < C) (hused : task.usedActionChannelIds ≠ [])
    (hspan : ∀ c ∈ task.usedActionChannelIds, task.span c ≠ 0) (htwo : (2 : R) ≠ 0)
    (hrows : Executed task actions rows frames H) :
    ∃ back, normalizeActions task H C rows = some back ∧ back.shape = [1, C, frames, H, 1] ∧
      ∀ c < C, ∀ f < frames, ∀ h < H, back.get [0, c, f, h, 0] =
        if c ∈ task.usedActionChannelIds then actions.get [0, c, f, h, 0] else 0 := by
  have hpos : 0 < task.usedActionChannelIds.length := List.length_pos_iff.mpr hused
  obtain ⟨hrowsShape, block, hblockShape, hblockData, hblock⟩ := hrows
  have hk : rows.shape.headD 0 / H = frames := by
    rw [hrowsShape]
    exact Nat.mul_div_cancel frames hH
  have hinfer : Tensor.inferShape rows.shape.prod [(frames : Int), (H : Int), -1] =
      some [frames, H, task.usedActionChannelIds.length] := by
    have hprod : [frames, H].prod = frames * H := by
      simp only [List.prod_cons, List.prod_nil, Nat.mul_one]
    have hlast := @Tensor.inferShape_last [frames, H] task.usedActionChannelIds.length
      (by rw [hprod]; exact Nat.mul_pos hframes hH)
    rw [hprod] at hlast
    rw [hrowsShape, List.prod_cons, List.prod_singleton]
    exact hlast
  obtain ⟨a, ha, haShape, haData⟩ := Tensor.reshape_eq hinfer (by
    rw [hrowsShape]
    simp only [List.prod_cons, List.prod_nil]
    ring)
  have hsame : a = block :=
    Tensor.ext (haShape.trans hblockShape.symm) (haData.trans hblockData.symm)
  have hcolumns : a.shape.getLastD 0 = task.usedActionChannelIds.length := by
    rw [haShape]
    rfl
  have hfits : (a.shape.getLastD 0 = task.usedActionChannelIds.length ∨
      a.shape.getLastD 0 = 1) ∧ task.usedActionChannelIds.all (· < C) :=
    ⟨Or.inl hcolumns, List.all_eq_true.mpr fun c hc => decide_eq_true (hids c hc)⟩
  have hrun : normalizeActions task H C rows = some
      ((scatterNormalized task frames H C a).permute [2, 0, 1]).unsqueeze.unsqueezeLast := by
    rw [normalizeActions, if_neg (Nat.ne_of_gt hH)]
    simp only [hk, ha, Option.bind_eq_bind, Option.bind_some, if_pos hfits]
    rfl
  refine ⟨_, hrun, rfl, ?_⟩
  intro c hc f hf h hh
  rw [get_scatterNormalized a hc hf hh]
  split
  · next hmem =>
      have hu : task.usedActionChannelIds.idxOf c < task.usedActionChannelIds.length :=
        List.idxOf_lt_length_of_mem hmem
      have hchannel : task.usedActionChannelIds.getD (task.usedActionChannelIds.idxOf c) 0 = c := by
        rw [List.getD_eq_getElem _ _ hu, List.getElem_idxOf hu]
      have hcolumn : (if a.shape.getLastD 0 = 1 then 0 else task.usedActionChannelIds.idxOf c) =
          task.usedActionChannelIds.idxOf c := by
        rw [hcolumns]
        split
        · omega
        · rfl
      rw [hcolumn, hsame, hblock f hf h hh _ hu, hchannel]
      exact task.normalized (hspan c hmem) htwo _
  · rfl

/-- A prediction has nothing in its other channels, so all of it comes back. -/
theorem maskActions_eq {back : Tensor R} (hshape : actions.shape = [1, C, frames, H, 1])
    (hbackShape : back.shape = [1, C, frames, H, 1])
    (hback : ∀ c < C, ∀ f < frames, ∀ h < H, back.get [0, c, f, h, 0] =
      if c ∈ task.usedActionChannelIds then actions.get [0, c, f, h, 0] else 0) :
    back = maskActions task actions := by
  have hmaskShape : (maskActions task actions).shape = [1, C, frames, H, 1] := hshape
  refine Tensor.ext_get (hbackShape.trans hmaskShape.symm) fun idx hidx => ?_
  rw [hbackShape] at hidx
  cases hidx with
  | @cons b _ _ _ hb hidx =>
    cases hidx with
    | @cons c _ _ _ hc hidx =>
      cases hidx with
      | @cons f _ _ _ hf hidx =>
        cases hidx with
        | @cons h _ _ _ hh hidx =>
          cases hidx with
          | @cons z _ _ _ hz hidx =>
            cases hidx
            obtain rfl : b = 0 := Nat.lt_one_iff.mp hb
            obtain rfl : z = 0 := Nat.lt_one_iff.mp hz
            have hmasked : (maskActions task actions).get [0, c, f, h, 0] =
                if c ∈ task.usedActionChannelIds then actions.get [0, c, f, h, 0] else 0 := by
              refine Tensor.get_mapIdx actions _ ?_
              rw [hshape]
              exact .cons hb (.cons hc (.cons hf (.cons hh (.cons hz .nil))))
            rw [hback c hc f hf h hh, hmasked]

/-- What the encoder makes of the decoder's rows has the original values on the used channels
and zero on the others; a prediction, masked, comes back whole.  There is at least one frame,
one action for each and one used channel. -/
theorem actions_roundTrip [CharZero R] (hframes : 0 < frames) (hH : 0 < H)
    (hused : task.usedActionChannelIds ≠ []) (hids : ∀ c ∈ task.usedActionChannelIds, c < C)
    (hspan : ∀ c ∈ task.usedActionChannelIds, task.span c ≠ 0)
    (hshape : actions.shape = [1, C, frames, H, 1]) :
    ∃ rows back, denormalizeActions task actions = some rows ∧
      rows.shape = [frames * H, task.usedActionChannelIds.length] ∧
      normalizeActions task H C rows = some back ∧ back.shape = [1, C, frames, H, 1] ∧
      (∀ c < C, ∀ f < frames, ∀ h < H, back.get [0, c, f, h, 0] =
        if c ∈ task.usedActionChannelIds then actions.get [0, c, f, h, 0] else 0) ∧
      back = maskActions task actions := by
  obtain ⟨rows, hrows, hexecuted⟩ := denormalizeActions_eq hshape hids hused
  obtain ⟨back, hrun, hbackShape, hback⟩ :=
    normalizeActions_eq hframes hH hids hused hspan two_ne_zero hexecuted
  exact ⟨rows, back, hrows, hexecuted.shape, hrun, hbackShape, hback,
    maskActions_eq hshape hbackShape hback⟩

end RoundTrip

/-- Two of three channels, in the other order. -/
theorem actions_roundTrip_two :
    ∃ rows back, denormalizeActions (⟨fun _ => 0, fun _ => 1, [2, 0]⟩ : Task ℚ)
        (Tensor.ofFn [1, 3, 1, 2, 1] fun idx => (ravel [1, 3, 1, 2, 1] idx : ℚ)) = some rows ∧
      normalizeActions (⟨fun _ => 0, fun _ => 1, [2, 0]⟩ : Task ℚ) 2 3 rows = some back ∧
      back.shape = [1, 3, 1, 2, 1] := by
  obtain ⟨rows, back, hrows, -, hback, hshape, -⟩ := @actions_roundTrip ℚ _ _ 3 1 2
    ⟨fun _ => 0, fun _ => 1, [2, 0]⟩
    (Tensor.ofFn [1, 3, 1, 2, 1] fun idx => (ravel [1, 3, 1, 2, 1] idx : ℚ)) _ Nat.one_pos
    Nat.two_pos (List.cons_ne_nil 2 [0]) (by decide)
    (fun c _ => by simp only [Task.span]; norm_num) rfl
  exact ⟨rows, back, hrows, hback, hshape⟩

/-- Without a used channel the decoder's last reshape has an axis it cannot infer, and without
actions in a frame the encoder divides by zero. -/
theorem actions_noRoundTrip :
    denormalizeActions (⟨fun _ => 0, fun _ => 1, []⟩ : Task ℚ)
        (Tensor.ofFn [1, 1, 1, 1, 1] fun _ => 0) = none ∧
      ∃ rows, denormalizeActions (⟨fun _ => 0, fun _ => 1, [0]⟩ : Task ℚ)
          (Tensor.ofFn [1, 1, 1, 0, 1] fun _ => 0) = some rows ∧
        normalizeActions (⟨fun _ => 0, fun _ => 1, [0]⟩ : Task ℚ) 0 1 rows = none :=
  ⟨rfl, _, rfl, rfl⟩

end LingBotVA

end Repercep.Models
