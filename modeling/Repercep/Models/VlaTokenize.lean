import Mathlib
import Repercep.Foundation.Rounding
set_option autoImplicit false

/-!
# Action tokens

`models/vla_tokenize.py`.  Each dimension of an action has its own range, cut into a uniform
grid of `bins` values; a token is the number of the nearest one.  The leading axes of a tensor
are one index type, and arithmetic is exact.
-/

namespace Repercep.Models

open Foundation

namespace VlaTokenize

section Codec

variable {F ι : Type} [Field F] [LinearOrder F] {D : Nat}

/-- `_safe_span`, of one dimension. -/
def safeSpan (low high : F) : F :=
  let span := high - low
  if span = 0 then 1 else span

/-- The text of the `ValueError`. -/
def binsError (bins : Int) : String :=
  s!"bins must be >= 2, got {bins}"

/-- `discretize_actions`: from actions to tokens. -/
def discretizeActions [FloorRing F] (actions : ι → Fin D → F) (low high : Fin D → F)
    (bins : Int) : Except String (ι → Fin D → Int) :=
  if bins < 2 then
    .error (binsError bins)
  else
    .ok fun i d =>
      let clipped := min (max (actions i d) (low d)) (high d)
      let frac := (clipped - low d) / safeSpan (low d) (high d)
      let idx := roundEven (frac * ((bins - 1 : Int) : F))
      min (max idx 0) (bins - 1)

/-- `undiscretize_actions`: from tokens to actions. -/
def undiscretizeActions (tokens : ι → Fin D → Int) (low high : Fin D → F) (bins : Int) :
    Except String (ι → Fin D → F) :=
  if bins < 2 then
    .error (binsError bins)
  else
    .ok fun i d =>
      let frac := (tokens i d : F) / ((bins - 1 : Int) : F)
      low d + frac * (high d - low d)

end Codec

/-! ## One dimension -/

section Grid

variable {F : Type} [Field F] [LinearOrder F]

/-- An action inside its range. -/
def clip (a low high : F) : F :=
  min (max a low) high

/-- Where an action is on the grid, in steps. -/
def position (a low high : F) (bins : Int) : F :=
  (clip a low high - low) / safeSpan low high * ((bins - 1 : Int) : F)

/-- The token of an action. -/
def token [FloorRing F] (a low high : F) (bins : Int) : Int :=
  min (max (roundEven (position a low high bins)) 0) (bins - 1)

/-- The action of a token. -/
def gridPoint (t : Int) (low high : F) (bins : Int) : F :=
  low + (t : F) / ((bins - 1 : Int) : F) * (high - low)

variable [IsStrictOrderedRing F] {a a' low high : F} {bins : Int}

theorem steps_pos (hbins : 2 ≤ bins) : (0 : F) < ((bins - 1 : Int) : F) :=
  Int.cast_pos.mpr (by omega)

/-- The division is by a positive number, in a range without width too. -/
theorem safeSpan_pos (h : low ≤ high) : 0 < safeSpan low high := by
  rw [safeSpan]
  split
  · exact one_pos
  · next hspan => exact lt_of_le_of_ne (sub_nonneg.mpr h) (Ne.symm hspan)

theorem safeSpan_of_lt (h : low < high) : safeSpan low high = high - low :=
  if_neg (ne_of_gt (sub_pos.mpr h))

omit [Field F] [IsStrictOrderedRing F] in
theorem clip_mem (h : low ≤ high) : low ≤ clip a low high ∧ clip a low high ≤ high :=
  ⟨le_min (le_max_right a low) h, min_le_right _ _⟩

theorem position_mem (h : low ≤ high) (hbins : 2 ≤ bins) :
    0 ≤ position a low high bins ∧ position a low high bins ≤ ((bins - 1 : Int) : F) := by
  have hspan := safeSpan_pos h
  have hsteps : (0 : F) < ((bins - 1 : Int) : F) := steps_pos hbins
  obtain ⟨hlow, hhigh⟩ := clip_mem (a := a) h
  have hfrac : (clip a low high - low) / safeSpan low high ≤ 1 := by
    rw [div_le_one hspan, safeSpan]
    split
    · next hzero => linarith
    · exact sub_le_sub_right hhigh low
  constructor
  · exact mul_nonneg (div_nonneg (sub_nonneg.mpr hlow) hspan.le) hsteps.le
  · exact mul_le_of_le_one_left hsteps.le hfrac

variable [FloorRing F]

/-- The clamp of the token changes nothing. -/
theorem token_eq (h : low ≤ high) (hbins : 2 ≤ bins) :
    token a low high bins = roundEven (position a low high bins) ∧
      0 ≤ token a low high bins ∧ token a low high bins ≤ bins - 1 := by
  obtain ⟨hpos, hle⟩ := position_mem (a := a) h hbins
  obtain ⟨hlow, hhigh⟩ := roundEven_mem (a := 0) (by rwa [Int.cast_zero]) hle
  have htoken : token a low high bins = roundEven (position a low high bins) := by
    rw [token, max_eq_left hlow, min_eq_left hhigh]
  rw [htoken]
  exact ⟨rfl, hlow, hhigh⟩

/-- Decoding a token is off by half a step at most. -/
theorem gridPoint_token (h : low ≤ high) (hbins : 2 ≤ bins) :
    |gridPoint (token a low high bins) low high bins - clip a low high| ≤
      (high - low) / (2 * ((bins - 1 : Int) : F)) := by
  have hsteps : (0 : F) < ((bins - 1 : Int) : F) := steps_pos hbins
  rw [(token_eq h hbins).1]
  rcases eq_or_lt_of_le h with rfl | hlt
  · have hclip : clip a low low = low := le_antisymm (clip_mem h).2 (clip_mem h).1
    rw [gridPoint, hclip, sub_self, mul_zero, add_zero, sub_self, abs_zero, zero_div]
  · have hspan : 0 < high - low := sub_pos.mpr hlt
    have hstep : 0 < (high - low) / ((bins - 1 : Int) : F) := div_pos hspan hsteps
    have hposition : position a low high bins =
        (clip a low high - low) / ((high - low) / ((bins - 1 : Int) : F)) := by
      rw [position, safeSpan_of_lt hlt, div_div_eq_mul_div, div_mul_eq_mul_div]
    have hpoint : gridPoint (roundEven (position a low high bins)) low high bins -
        clip a low high = (roundEven (position a low high bins) : F) *
          ((high - low) / ((bins - 1 : Int) : F)) - (clip a low high - low) := by
      rw [gridPoint]
      ring
    rw [hpoint, hposition]
    refine (roundEven_scaled hstep _).trans (le_of_eq ?_)
    rw [div_div, mul_comm (2 : F)]

theorem token_mono (h : low ≤ high) (hbins : 2 ≤ bins) (ha : a ≤ a') :
    token a low high bins ≤ token a' low high bins := by
  rw [(token_eq h hbins).1, (token_eq h hbins).1]
  refine roundEven_mono (mul_le_mul_of_nonneg_right ?_ (steps_pos hbins).le)
  refine div_le_div_of_nonneg_right (sub_le_sub_right ?_ low) (safeSpan_pos h).le
  exact min_le_min_right high (max_le_max_right low ha)

/-- A token is the token of its action. -/
theorem token_gridPoint (h : low < high) (hbins : 2 ≤ bins) {t : Int} (ht : 0 ≤ t)
    (ht' : t ≤ bins - 1) : token (gridPoint t low high bins) low high bins = t := by
  have hsteps : (0 : F) < ((bins - 1 : Int) : F) := steps_pos hbins
  have hspan : 0 < high - low := sub_pos.mpr h
  have hfrac : (t : F) / ((bins - 1 : Int) : F) ≤ 1 := by
    rw [div_le_one hsteps]
    exact Int.cast_le.mpr ht'
  have hfrac' : 0 ≤ (t : F) / ((bins - 1 : Int) : F) :=
    div_nonneg (Int.cast_nonneg ht) hsteps.le
  have hclip : clip (gridPoint t low high bins) low high = gridPoint t low high bins := by
    have hlow : low ≤ gridPoint t low high bins :=
      le_add_of_nonneg_right (mul_nonneg hfrac' hspan.le)
    have hhigh : gridPoint t low high bins ≤ high := by
      have hmul := mul_le_of_le_one_left hspan.le hfrac
      rw [gridPoint]
      linarith
    rw [clip, max_eq_left hlow, min_eq_left hhigh]
  have hposition : position (gridPoint t low high bins) low high bins = t := by
    rw [position, hclip, safeSpan_of_lt h, gridPoint]
    field_simp
    ring
  rw [(token_eq h.le hbins).1, hposition, roundEven_intCast]

/-- Below the range every action has the first token, above it the last one. -/
theorem token_saturated (h : low ≤ high) (hbins : 2 ≤ bins) :
    (a ≤ low → token a low high bins = 0) ∧
      (high ≤ a → token a low high bins = if low = high then 0 else bins - 1) := by
  have hzero : clip a low high = low → token a low high bins = 0 := by
    intro hclip
    have hround := roundEven_intCast (F := F) 0
    rw [Int.cast_zero] at hround
    rw [(token_eq h hbins).1, position, hclip, sub_self, zero_div, zero_mul, hround]
  constructor
  · intro ha
    refine hzero ?_
    rw [clip, max_eq_right ha, min_eq_left h]
  · intro ha
    have hclip : clip a low high = high := by
      rw [clip, max_eq_left (h.trans ha), min_eq_right ha]
    split
    · next heq => exact hzero (hclip.trans heq.symm)
    · next hne =>
        have hlt : low < high := lt_of_le_of_ne h hne
        rw [(token_eq h hbins).1, position, hclip, safeSpan_of_lt hlt,
          div_self (ne_of_gt (sub_pos.mpr hlt)), one_mul, roundEven_intCast]

end Grid

/-! ## The codec -/

section RoundTrip

variable {F : Type} [Field F] [LinearOrder F] [IsStrictOrderedRing F] [FloorRing F]

/-- Every action is decoded to within half a step of itself, clamped; tokens grow with the
actions and saturate outside the range; every token of a dimension with a width is the token
of its action; a dimension without one decodes to its only value, and nothing is divided by
zero. -/
theorem codec_roundTrip {ι : Type} {D : Nat} (low high : Fin D → F) (bins : Int)
    (hrange : ∀ d, low d ≤ high d) (hbins : 2 ≤ bins) :
    (∀ d, safeSpan (low d) (high d) ≠ 0 ∧ ((bins - 1 : Int) : F) ≠ 0) ∧
    (∀ actions : ι → Fin D → F, ∃ tokens decoded,
      discretizeActions actions low high bins = .ok tokens ∧
      undiscretizeActions tokens low high bins = .ok decoded ∧
      ∀ i d, 0 ≤ tokens i d ∧ tokens i d ≤ bins - 1 ∧
        |decoded i d - min (max (actions i d) (low d)) (high d)| ≤
          (high d - low d) / (2 * ((bins - 1 : Int) : F)) ∧
        (actions i d ≤ low d → tokens i d = 0) ∧
        (high d ≤ actions i d → tokens i d = if low d = high d then 0 else bins - 1)) ∧
    (∀ (actions actions' : ι → Fin D → F) tokens tokens',
      discretizeActions actions low high bins = .ok tokens →
      discretizeActions actions' low high bins = .ok tokens' →
      ∀ i j d, actions i d ≤ actions' j d → tokens i d ≤ tokens' j d) ∧
    ∀ tokens : ι → Fin D → Int, ∃ decoded tokens',
      undiscretizeActions tokens low high bins = .ok decoded ∧
      discretizeActions decoded low high bins = .ok tokens' ∧
      ∀ i d, (low d < high d → 0 ≤ tokens i d → tokens i d ≤ bins - 1 →
          tokens' i d = tokens i d) ∧
        (low d = high d → decoded i d = low d) := by
  have hok : ¬ bins < 2 := Int.not_lt.mpr hbins
  refine ⟨?_, ?_, ?_, ?_⟩
  · exact fun d => ⟨ne_of_gt (safeSpan_pos (hrange d)), ne_of_gt (steps_pos hbins)⟩
  · intro actions
    refine ⟨fun i d => token (actions i d) (low d) (high d) bins,
      fun i d => gridPoint (token (actions i d) (low d) (high d) bins) (low d) (high d) bins,
      if_neg hok, if_neg hok, ?_⟩
    intro i d
    obtain ⟨-, hlow, hhigh⟩ := token_eq (a := actions i d) (hrange d) hbins
    obtain ⟨hbelow, habove⟩ := token_saturated (a := actions i d) (hrange d) hbins
    exact ⟨hlow, hhigh, gridPoint_token (hrange d) hbins, hbelow, habove⟩
  · intro actions actions' tokens tokens' htokens htokens' i j d hle
    rw [discretizeActions, if_neg hok] at htokens htokens'
    cases htokens
    cases htokens'
    exact token_mono (hrange d) hbins hle
  · intro tokens
    refine ⟨fun i d => gridPoint (tokens i d) (low d) (high d) bins,
      fun i d => token (gridPoint (tokens i d) (low d) (high d) bins) (low d) (high d) bins,
      if_neg hok, if_neg hok, ?_⟩
    intro i d
    refine ⟨fun hlt ht ht' => token_gridPoint hlt hbins ht ht', fun heq => ?_⟩
    change low d + _ * (high d - low d) = low d
    rw [heq, sub_self, mul_zero, add_zero]

end RoundTrip

/-- Two dimensions, one without a width, and three bins. -/
theorem codec_roundTrip_three :
    ∃ tokens decoded, discretizeActions (fun _ : Unit => ![(2 : ℚ), 7]) ![0, 5] ![4, 5] 3 =
        .ok tokens ∧
      undiscretizeActions tokens ![(0 : ℚ), 5] ![4, 5] 3 = .ok decoded ∧
      |decoded () 0 - 2| ≤ 1 ∧ tokens () 1 = 0 := by
  have hrange : ∀ d : Fin 2, (![0, 5] : Fin 2 → ℚ) d ≤ ![4, 5] d := by decide
  obtain ⟨tokens, decoded, htokens, hdecoded, hspec⟩ :=
    (codec_roundTrip ![(0 : ℚ), 5] ![4, 5] 3 hrange (by decide)).2.1
      fun _ : Unit => ![(2 : ℚ), 7]
  refine ⟨tokens, decoded, htokens, hdecoded, ?_, ?_⟩
  · have herror := (hspec () 0).2.2.1
    norm_num at herror
    exact herror
  · have hsaturated := (hspec () 1).2.2.2.2 (by decide)
    exact hsaturated

end VlaTokenize

end Repercep.Models
