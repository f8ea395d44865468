import Mathlib
import Repercep.Foundation.Tensor
set_option autoImplicit false

/-!
# Latents as rows

A video latent has the axes batch, channel, time, height and width.  The world state keeps it
as one row for each time step; `models/lingbot_va_pipeline.py` and `models/dreamzero_pipeline.py`
each have their own way there and back.
-/

namespace Repercep.Models

open Foundation

namespace Latents

variable {α : Type} [Inhabited α]

/-! ## LingBot-VA -/

/-- `flatten_latent5d`. -/
def flattenLatent5d (latent5d : Tensor α) : Option (Tensor α) :=
  match latent5d.shape with
  | [_, _, t, _, _] => do
    let latent ← latent5d.select 0
    (latent.permute [1, 0, 2, 3]).reshape [(t : Int), -1]
  | _ => none

/-- `unflatten_latent`. -/
def unflattenLatent (flat : Tensor α) (c h w : Nat) : Option (Tensor α) := do
  let frames ← flat.reshape [-1, (c : Int), (h : Int), (w : Int)]
  return (frames.permute [1, 0, 2, 3]).unsqueeze

/-! ## DreamZero -/

/-- `_flatten_latent`. -/
def flattenLatent (latent5d : Tensor α) : Option (Tensor α) :=
  match latent5d.shape with
  | [_, c, t, h, w] => do
    let latent ← latent5d.select 0
    (latent.permute [1, 0, 2, 3]).reshape [(t : Int), ((c * h * w : Nat) : Int)]
  | _ => none

/-- `_unflatten_latent`. -/
def unflattenLatentDroid (flat : Tensor α) : Option (Tensor α) := do
  let c := 16
  let h := 44
  let w := 80
  let frames ← flat.reshape [-1, (c : Int), (h : Int), (w : Int)]
  return (frames.permute [1, 0, 2, 3]).unsqueeze

/-! ## There and back -/

section RoundTrip

variable {C T H W : Nat}

/-- The column of an element of a frame. -/
def column (H W c h w : Nat) : Nat :=
  (c * H + h) * W + w

/-- The rows of a latent. -/
structure Rows (x y : Tensor α) (C T H W : Nat) : Prop where
  shape : y.shape = [T, C * H * W]
  get : ∀ c < C, ∀ t < T, ∀ h < H, ∀ w < W,
    y.get [t, column H W c h w] = x.get [0, c, t, h, w]

theorem inside_frames {c t h w : Nat} (hc : c < C) (ht : t < T) (hh : h < H) (hw : w < W) :
    Inside [c, t, h, w] [C, T, H, W] :=
  .cons hc (.cons ht (.cons hh (.cons hw .nil)))

/-- Swapping the first two axes twice. -/
theorem permute_swapped (t : Tensor α) (hshape : t.shape.length = 4) :
    (t.permute [1, 0, 2, 3]).permute [1, 0, 2, 3] = t := by
  have hdims : [1, 0, 2, 3].Perm (List.range t.shape.length) := by
    rw [hshape]
    decide
  exact Tensor.permute_permute hdims rfl

/-- What both do on the way to rows, up to the shape they ask for. -/
def toRows (dims : List Int) (x : Tensor α) : Option (Tensor α) := do
  let latent ← x.select 0
  (latent.permute [1, 0, 2, 3]).reshape dims

/-- What both do on the way back. -/
def toLatent (dims : List Int) (y : Tensor α) : Option (Tensor α) := do
  let frames ← y.reshape dims
  return (frames.permute [1, 0, 2, 3]).unsqueeze

theorem frames_prod : [T, C, H, W].prod = [T, C * H * W].prod := by
  simp only [List.prod_cons, List.prod_nil]
  ring

/-- A latent's rows hold its elements, and give it back. -/
theorem toRows_eq {x : Tensor α} (hx : x.shape = [1, C, T, H, W]) {dims dims' : List Int}
    (hdims : Tensor.inferShape [T, C, H, W].prod dims = some [T, C * H * W])
    (hdims' : Tensor.inferShape [T, C * H * W].prod dims' = some [T, C, H, W]) :
    ∃ y, toRows dims x = some y ∧ Rows x y C T H W ∧ toLatent dims' y = some x := by
  have hselect := Tensor.select_eq hx Nat.one_pos
  generalize hlatent : Tensor.ofFn [C, T, H, W] (fun idx => x.get (0 :: idx)) = latent at hselect
  obtain ⟨hshape, hback⟩ := Tensor.unsqueeze_select hx hselect
  have hmoved : (latent.permute [1, 0, 2, 3]).shape = [T, C, H, W] := by
    rw [Tensor.permute, hshape]
    rfl
  obtain ⟨y, hy, hyShape, hyData⟩ := Tensor.reshape_eq (t := latent.permute [1, 0, 2, 3])
    (hmoved ▸ hdims) (hmoved ▸ frames_prod)
  obtain ⟨frames, hframes, hframesShape, hframesData⟩ := Tensor.reshape_eq (t := y)
    (hyShape ▸ hdims') (hyShape ▸ frames_prod.symm)
  have hsame : frames = latent.permute [1, 0, 2, 3] :=
    Tensor.ext (hframesShape.trans hmoved.symm) (hframesData.trans hyData)
  refine ⟨y, ?_, ⟨hyShape, ?_⟩, ?_⟩
  · rw [toRows, hselect]
    exact hy
  · intro c hc t ht h hh w hw
    have hplace : ravel y.shape [t, column H W c h w] =
        ravel (latent.permute [1, 0, 2, 3]).shape [t, c, h, w] := by
      rw [hyShape, hmoved]
      simp only [ravel, column, List.prod_cons, List.prod_nil]
      ring
    have hinside : Inside [t, c, h, w] (Tensor.pick [1, 0, 2, 3] latent.shape) := by
      rw [hshape]
      exact inside_frames ht hc hh hw
    rw [Tensor.get_of_data _ y hyData hplace, Tensor.get_permute hinside, ← hlatent]
    exact Tensor.get_ofFn _ (inside_frames hc ht hh hw)
  · rw [toLatent, hframes]
    change some ((frames.permute [1, 0, 2, 3]).unsqueeze) = some x
    rw [hsame, permute_swapped latent (by rw [hshape]; rfl), hback]

/-- Rows make a latent, and it has these rows. -/
theorem toLatent_eq {y : Tensor α} (hy : y.shape = [T, C * H * W]) {dims dims' : List Int}
    (hdims : Tensor.inferShape [T, C, H, W].prod dims = some [T, C * H * W])
    (hdims' : Tensor.inferShape [T, C * H * W].prod dims' = some [T, C, H, W]) :
    ∃ x, toLatent dims' y = some x ∧ x.shape = [1, C, T, H, W] ∧ toRows dims x = some y := by
  obtain ⟨frames, hframes, hframesShape, hframesData⟩ := Tensor.reshape_eq (t := y)
    (hy ▸ hdims') (hy ▸ frames_prod.symm)
  obtain ⟨y', hy', hyShape, hyData⟩ := Tensor.reshape_eq (t := frames)
    (hframesShape ▸ hdims) (hframesShape ▸ frames_prod)
  have hsame : y' = y := Tensor.ext (hyShape.trans hy.symm) (hyData.trans hframesData)
  refine ⟨(frames.permute [1, 0, 2, 3]).unsqueeze, ?_, ?_, ?_⟩
  · rw [toLatent, hframes]
    rfl
  · change 1 :: Tensor.pick [1, 0, 2, 3] frames.shape = _
    rw [hframesShape]
    rfl
  · rw [toRows, Tensor.select_unsqueeze]
    change Tensor.reshape ((frames.permute [1, 0, 2, 3]).permute [1, 0, 2, 3]) dims = some y
    rw [permute_swapped frames (by rw [hframesShape]; rfl), hy', hsame]

/-- Every column is that of one element. -/
theorem column_bijective {r : Nat} (hr : r < C * H * W) :
    ∃! p : Nat × Nat × Nat, (p.1 < C ∧ p.2.1 < H ∧ p.2.2 < W) ∧ column H W p.1 p.2.1 p.2.2 = r := by
  have hW : 0 < W := Nat.pos_of_ne_zero fun hzero => by
    rw [hzero, Nat.mul_zero] at hr
    exact Nat.not_lt_zero r hr
  have hrow : r / W < C * H := Nat.div_lt_of_lt_mul (Nat.mul_comm (C * H) W ▸ hr)
  have hH : 0 < H := Nat.pos_of_ne_zero fun hzero => by
    rw [hzero, Nat.mul_zero] at hrow
    exact Nat.not_lt_zero _ hrow
  refine ⟨(r / W / H, r / W % H, r % W), ⟨⟨?_, Nat.mod_lt _ hH, Nat.mod_lt _ hW⟩, ?_⟩, ?_⟩
  · exact Nat.div_lt_of_lt_mul (Nat.mul_comm C H ▸ hrow)
  · rw [column, Nat.div_add_mod', Nat.div_add_mod']
  · intro p hp
    obtain ⟨⟨-, hh, hw⟩, hcolumn⟩ := hp
    obtain ⟨hrow', hw'⟩ := rowMajor_injective hw (Nat.mod_lt r hW)
      (hcolumn.trans (Nat.div_add_mod' r W).symm)
    obtain ⟨hc', hh'⟩ := rowMajor_injective hh (Nat.mod_lt (r / W) hH)
      (hrow'.trans (Nat.div_add_mod' (r / W) H).symm)
    exact Prod.ext hc' (Prod.ext hh' hw')

/-- The shapes that LingBot-VA asks for, and the frames that both do. -/
theorem inferShape_rows (hT : 0 < T) :
    Tensor.inferShape [T, C, H, W].prod [(T : Int), -1] = some [T, C * H * W] := by
  have hlast := @Tensor.inferShape_last [T] (C * H * W) (by rw [List.prod_singleton]; exact hT)
  rw [List.prod_singleton] at hlast
  rw [frames_prod, List.prod_cons, List.prod_singleton]
  exact hlast

theorem inferShape_frames (T : Nat) (hpos : 0 < C * H * W) :
    Tensor.inferShape [T, C * H * W].prod [-1, (C : Int), (H : Int), (W : Int)] =
      some [T, C, H, W] := by
  have hprod : [C, H, W].prod = C * H * W := by
    simp only [List.prod_cons, List.prod_nil]
    ring
  have hfirst := @Tensor.inferShape_first [C, H, W] T (by rw [hprod]; exact hpos)
  rw [hprod] at hfirst
  rw [List.prod_cons, List.prod_singleton]
  exact hfirst

theorem inferShape_known_rows (T C H W : Nat) :
    Tensor.inferShape [T, C, H, W].prod [(T : Int), ((C * H * W : Nat) : Int)] =
      some [T, C * H * W] := by
  rw [frames_prod]
  exact Tensor.inferShape_known [T, C * H * W]

theorem flattenLatent5d_eq {x : Tensor α} (hx : x.shape = [1, C, T, H, W]) :
    flattenLatent5d x = toRows [(T : Int), -1] x := by
  rw [flattenLatent5d, hx]
  rfl

theorem flattenLatent_eq {x : Tensor α} (hx : x.shape = [1, C, T, H, W]) :
    flattenLatent x = toRows [(T : Int), ((C * H * W : Nat) : Int)] x := by
  rw [flattenLatent, hx]
  rfl

/-- Both pairs of functions are bijections between latents and rows, each element of a latent
in the row of its time step and in a column of its own. -/
theorem latents_bijective (C T H W : Nat) (hC : 0 < C) (hT : 0 < T) (hH : 0 < H) (hW : 0 < W) :
    (∀ x : Tensor α, x.shape = [1, C, T, H, W] → ∃ y, flattenLatent5d x = some y ∧
      Rows x y C T H W ∧ unflattenLatent y C H W = some x) ∧
    (∀ y : Tensor α, y.shape = [T, C * H * W] → ∃ x, unflattenLatent y C H W = some x ∧
      x.shape = [1, C, T, H, W] ∧ flattenLatent5d x = some y) ∧
    (∀ r < C * H * W, ∃! p : Nat × Nat × Nat, (p.1 < C ∧ p.2.1 < H ∧ p.2.2 < W) ∧
      column H W p.1 p.2.1 p.2.2 = r) ∧
    (∀ (t : Nat) (x : Tensor α), x.shape = [1, 16, t, 44, 80] → ∃ y, flattenLatent x = some y ∧
      Rows x y 16 t 44 80 ∧ unflattenLatentDroid y = some x) ∧
    ∀ (t : Nat) (y : Tensor α), y.shape = [t, 16 * 44 * 80] → ∃ x,
      unflattenLatentDroid y = some x ∧ x.shape = [1, 16, t, 44, 80] ∧
        flattenLatent x = some y := by
  have hpos : 0 < C * H * W := Nat.mul_pos (Nat.mul_pos hC hH) hW
  have hpos' : 0 < 16 * 44 * 80 := by decide
  refine ⟨?_, ?_, fun r hr => column_bijective hr, ?_, ?_⟩
  · intro x hx
    rw [flattenLatent5d_eq hx]
    exact toRows_eq hx (inferShape_rows hT) (inferShape_frames T hpos)
  · intro y hy
    obtain ⟨x, hrun, hx, hback⟩ := toLatent_eq hy (inferShape_rows hT) (inferShape_frames T hpos)
    exact ⟨x, hrun, hx, (flattenLatent5d_eq hx).trans hback⟩
  · intro t x hx
    rw [flattenLatent_eq hx]
    exact toRows_eq hx (inferShape_known_rows t 16 44 80) (inferShape_frames t hpos')
  · intro t y hy
    obtain ⟨x, hrun, hx, hback⟩ := toLatent_eq hy (inferShape_known_rows t 16 44 80)
      (inferShape_frames t hpos')
    exact ⟨x, hrun, hx, (flattenLatent_eq hx).trans hback⟩

end RoundTrip

/-- Two channels and two frames of one row. -/
theorem latents_bijective_two :
    ∃ y, flattenLatent5d (Tensor.ofFn [1, 2, 2, 1, 3] fun idx => ravel [1, 2, 2, 1, 3] idx) =
        some y ∧ y.shape = [2, 6] ∧
      unflattenLatent y 2 1 3 = some (Tensor.ofFn [1, 2, 2, 1, 3] fun idx =>
        ravel [1, 2, 2, 1, 3] idx) := by
  obtain ⟨y, hy, hrows, hback⟩ := (latents_bijective 2 2 1 3 Nat.two_pos Nat.two_pos Nat.one_pos
    (by decide)).1 (Tensor.ofFn [1, 2, 2, 1, 3] fun idx => ravel [1, 2, 2, 1, 3] idx) rfl
  exact ⟨y, hy, hrows.shape, hback⟩

end Latents

end Repercep.Models
