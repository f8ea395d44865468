import Mathlib
set_option autoImplicit false

/-!
# Softmax in one pass

A softmax-weighted sum needs the largest score before it can weigh anything.  The one-pass
form keeps, for what it has seen, the largest score, the sum of the weights and the weighted
sum, both relative to that score; a new tile of scores first rescales the two sums to the new
maximum.  A score of minus infinity is masked out.
-/

namespace Repercep.Foundation

variable {F δ : Type}

/-- A score relative to a finite one. -/
def below [Sub F] (m : F) (s : WithBot F) : WithBot F :=
  s.map (· - m)

theorem sup_ne_bot [LinearOrder F] {s : Nat → WithBot F} {n : Nat} (hn : 0 < n) (hs : s 0 ≠ ⊥) :
    (Finset.range n).sup s ≠ ⊥ := by
  intro h
  exact hs ((Finset.sup_eq_bot_iff s _).mp h 0 (Finset.mem_range.mpr hn))

theorem univ_sup_fin [LinearOrder F] (n : Nat) (s : Nat → WithBot F) :
    Finset.univ.sup (fun j : Fin n => s j) = (Finset.range n).sup s := by
  apply le_antisymm
  · exact Finset.sup_le fun j _ => Finset.le_sup (Finset.mem_range.mpr j.isLt)
  · refine Finset.sup_le fun j hj => ?_
    exact Finset.le_sup (f := fun j : Fin n => s j)
      (Finset.mem_univ ⟨j, Finset.mem_range.mp hj⟩)

/-- What is kept of one row. -/
structure RowState (F δ : Type) where
  max : WithBot F
  sum : F
  acc : δ → F

namespace RowState

/-- Nothing seen. -/
def start [Zero F] : RowState F δ :=
  ⟨⊥, 0, fun _ => 0⟩

section Absorb

variable [Field F] [LinearOrder F]

/-- The weights of a tile's scores, relative to `m`. -/
def weights (expPs : WithBot F → F) (s : Nat → WithBot F) (m : F) (j : Nat) : F :=
  expPs (below m (s j))

/-- The state relative to the new maximum `m`, the tile's `w` weights summed in. -/
def rescaled (stdExp expPs : WithBot F → F) (w : Nat) (s : Nat → WithBot F) (m : F)
    (st : RowState F δ) : RowState F δ :=
  let alpha := stdExp (below m st.max)
  ⟨m, alpha * st.sum + ∑ j ∈ Finset.range w, weights expPs s m j, fun d => alpha * st.acc d⟩

/-- More for the weighted sums. -/
def add (st : RowState F δ) (more : δ → F) : RowState F δ :=
  { st with acc := fun d => st.acc d + more d }

/-- A tile of `w` scores taken in.  `stdExp` rescales and `expPs` weighs; `weighted` makes the
tile's weighted sum from its weights.  While every score so far is minus infinity there is
nothing to be relative to, and no result. -/
def absorb (stdExp expPs : WithBot F → F) (w : Nat) (s : Nat → WithBot F)
    (weighted : (Nat → F) → δ → F) (st : RowState F δ) : Option (RowState F δ) :=
  match Max.max st.max ((Finset.range w).sup s) with
  | ⊥ => none
  | (m : F) => some ((st.rescaled stdExp expPs w s m).add (weighted (weights expPs s m)))

variable {stdExp expPs : WithBot F → F} {w : Nat} {s : Nat → WithBot F}
  {weighted : (Nat → F) → δ → F} {st : RowState F δ}

theorem absorb_eq {m : F} (h : Max.max st.max ((Finset.range w).sup s) = (m : WithBot F)) :
    st.absorb stdExp expPs w s weighted =
      some ((st.rescaled stdExp expPs w s m).add (weighted (weights expPs s m))) := by
  rw [absorb, h]

theorem absorb_eq_some {st' : RowState F δ}
    (h : st.absorb stdExp expPs w s weighted = some st') :
    ∃ m : F, Max.max st.max ((Finset.range w).sup s) = m ∧
      st' = (st.rescaled stdExp expPs w s m).add (weighted (weights expPs s m)) := by
  rw [absorb] at h
  split at h
  · cases h
  · next m hm => exact ⟨m, hm, (Option.some_inj.mp h).symm⟩

/-- The new maxima of rows that take a tile in. -/
theorem absorb_rows {n : Nat} {rows rows' : Nat → RowState F δ} {scores : Nat → Nat → WithBot F}
    (h : ∀ i < n, (rows i).absorb stdExp expPs w (scores i) weighted = some (rows' i)) :
    ∃ m : Nat → F, ∀ i < n,
      Max.max (rows i).max ((Finset.range w).sup (scores i)) = m i ∧
        rows' i = ((rows i).rescaled stdExp expPs w (scores i) (m i)).add
          (weighted (weights expPs (scores i) (m i))) := by
  have hrow : ∀ i, ∃ m : F, i < n →
      Max.max (rows i).max ((Finset.range w).sup (scores i)) = m ∧
        rows' i = ((rows i).rescaled stdExp expPs w (scores i) m).add
          (weighted (weights expPs (scores i) m)) := by
    intro i
    by_cases hi : i < n
    · obtain ⟨m, hm⟩ := absorb_eq_some (h i hi)
      exact ⟨m, fun _ => hm⟩
    · exact ⟨0, fun hi' => absurd hi' hi⟩
  exact Classical.axiomOfChoice hrow

end Absorb

end RowState

/-! ## The ideal exponential -/

/-- An exponential that sends minus infinity to zero. -/
structure IsExp [Field F] [LinearOrder F] (e : WithBot F → F) : Prop where
  bot : e ⊥ = 0
  pos : ∀ x : F, 0 < e x
  add : ∀ x y : F, e (x + y : F) = e x * e y

section Ideal

variable [Field F] [LinearOrder F] {e : WithBot F → F} (he : IsExp e)
include he

theorem IsExp.nonneg (s : WithBot F) : 0 ≤ e s := by
  induction s using WithBot.recBotCoe with
  | bot => exact le_of_eq he.bot.symm
  | coe x => exact le_of_lt (he.pos x)

/-- Moving every score by the same amount scales every weight. -/
theorem IsExp.below (m : F) (s : WithBot F) :
    e (Foundation.below m s) = e s * e (-m : F) := by
  induction s using WithBot.recBotCoe with
  | bot =>
      change e ⊥ = e ⊥ * e (-m : F)
      rw [he.bot, zero_mul]
  | coe x =>
      change e ((x - m : F) : WithBot F) = e x * e (-m : F)
      rw [sub_eq_add_neg, he.add]

theorem IsExp.mul_neg (m : F) : e m * e (-m : F) = 1 := by
  have hzero : e (0 : F) = e (0 : F) * e (0 : F) := by rw [← he.add, add_zero]
  rw [← he.add, add_neg_cancel]
  exact (mul_eq_left₀ (ne_of_gt (he.pos 0))).mp hzero.symm

end Ideal

/-- The weighted mean of the first `n` values, softmax of the scores as weights. -/
def softmaxRow [Field F] (e : WithBot F → F) (n : Nat) (s : Nat → WithBot F) (v : Nat → δ → F)
    (d : δ) : F :=
  (∑ j ∈ Finset.range n, e (s j) * v j d) / ∑ j ∈ Finset.range n, e (s j)

namespace RowState

variable [Field F] [LinearOrder F]

/-- The state is that of the first `n` scores and values. -/
structure Tracks (e : WithBot F → F) (s : Nat → WithBot F) (v : Nat → δ → F) (n : Nat)
    (st : RowState F δ) : Prop where
  max : st.max = (Finset.range n).sup s
  sum : ∀ m : F, st.max = m → st.sum = ∑ j ∈ Finset.range n, e (below m (s j))
  acc : ∀ m : F, st.max = m → ∀ d, st.acc d = ∑ j ∈ Finset.range n, e (below m (s j)) * v j d

variable {e : WithBot F → F} {s : Nat → WithBot F} {v : Nat → δ → F} {n : Nat}
  {st : RowState F δ}

theorem tracks_start : Tracks e s v 0 (start : RowState F δ) where
  max := rfl
  sum := fun _ h => absurd h WithBot.bot_ne_coe
  acc := fun _ h => absurd h WithBot.bot_ne_coe

section Exact

variable (he : IsExp e)
include he

/-- Rescaling what was summed relative to one maximum to another. -/
theorem rescale (hmax : st.max = (Finset.range n).sup s) {x : F} {f : Nat → F}
    (hx : ∀ m : F, st.max = m → x = ∑ j ∈ Finset.range n, e (below m (s j)) * f j) (M : F) :
    e (below M st.max) * x = ∑ j ∈ Finset.range n, e (below M (s j)) * f j := by
  cases hst : st.max with
  | bot =>
      have hall : ∀ j ∈ Finset.range n, s j = ⊥ :=
        (Finset.sup_eq_bot_iff s _).mp (hmax.symm.trans hst)
      change e ⊥ * x = _
      rw [he.bot, zero_mul]
      refine (Finset.sum_eq_zero fun j hj => ?_).symm
      rw [hall j hj]
      change e ⊥ * f j = 0
      rw [he.bot, zero_mul]
  | coe m =>
      rw [hx m hst, Finset.mul_sum]
      refine Finset.sum_congr rfl fun j _ => ?_
      rw [he.below, he.below, he.below M (s j)]
      calc e m * e (-M : F) * (e (s j) * e (-m : F) * f j)
          = e (s j) * e (-M : F) * f j * (e m * e (-m : F)) := by ring
        _ = e (s j) * e (-M : F) * f j := by rw [he.mul_neg, mul_one]

/-- A tile taken in, with the ideal exponential for both, is tracked. -/
theorem Tracks.absorb (h : Tracks e s v n st) {w : Nat} {weighted : (Nat → F) → δ → F}
    (hweighted : ∀ p d, weighted p d = ∑ j ∈ Finset.range w, p j * v (n + j) d) {m : F}
    (hm : (Finset.range (n + w)).sup s = (m : WithBot F)) :
    ∃ st', st.absorb e e w (fun j => s (n + j)) weighted = some st' ∧
      Tracks e s v (n + w) st' ∧ st'.max = m := by
  have hsup : Max.max st.max ((Finset.range w).sup fun j => s (n + j)) =
      (Finset.range (n + w)).sup s := by
    rw [h.max, Finset.range_add_eq_union, Finset.sup_union, Finset.sup_map]
    rfl
  refine ⟨_, absorb_eq (hsup.trans hm), ⟨hm.symm, ?_, ?_⟩, rfl⟩
  · intro m' hm'
    cases hm'
    have hone : ∀ m : F, st.max = m → st.sum = ∑ j ∈ Finset.range n, e (below m (s j)) * 1 := by
      intro m hst
      simpa using h.sum m hst
    change e (below m st.max) * st.sum + _ = _
    rw [rescale he h.max hone m, Finset.sum_range_add]
    simp only [mul_one]
    rfl
  · intro m' hm' d
    cases hm'
    have hacc := rescale he h.max (fun m hst => h.acc m hst d) m
    rw [Finset.sum_range_add, ← hacc]
    exact congrArg (e (below m st.max) * st.acc d + ·) (hweighted _ d)

/-- The sum of the weights is not zero once a score is visible. -/
theorem Tracks.sum_pos [IsStrictOrderedRing F] (h : Tracks e s v n st) {m : F}
    (hm : st.max = m) : 0 < st.sum := by
  rw [h.sum m hm]
  have hvisible : ∃ j ∈ Finset.range n, s j ≠ ⊥ := by
    by_contra hnone
    have hbot : (Finset.range n).sup s = ⊥ :=
      (Finset.sup_eq_bot_iff s _).mpr fun j hj => by
        by_contra hj'
        exact hnone ⟨j, hj, hj'⟩
    rw [← h.max, hm] at hbot
    exact WithBot.coe_ne_bot hbot
  obtain ⟨j, hj, hne⟩ := hvisible
  refine Finset.sum_pos' (fun k _ => he.nonneg _) ⟨j, hj, ?_⟩
  obtain ⟨x, hx⟩ := WithBot.ne_bot_iff_exists.mp hne
  rw [← hx]
  exact he.pos (x - m)

/-- The weighted sum over the sum of the weights is the softmax row. -/
theorem Tracks.finish (h : Tracks e s v n st) {m : F} (hm : st.max = m) (d : δ) :
    st.acc d * (1 / st.sum) = softmaxRow e n s v d := by
  have hpull : ∀ f : Nat → F, ∑ j ∈ Finset.range n, e (below m (s j)) * f j =
      (∑ j ∈ Finset.range n, e (s j) * f j) * e (-m : F) := by
    intro f
    rw [Finset.sum_mul]
    refine Finset.sum_congr rfl fun j _ => ?_
    rw [he.below]
    ring
  have hsum : st.sum = (∑ j ∈ Finset.range n, e (s j)) * e (-m : F) := by
    rw [h.sum m hm]
    simpa using hpull fun _ => 1
  rw [h.acc m hm d, hpull, hsum, softmaxRow, mul_one_div,
    mul_div_mul_right _ _ (ne_of_gt (he.pos (-m)))]

end Exact

end RowState

/-- Only the scores and values up to `n` count. -/
theorem softmaxRow_congr {δ' : Type} [Field F] {e : WithBot F → F} {n : Nat}
    {s s' : Nat → WithBot F} {v : Nat → δ → F} {v' : Nat → δ' → F} {d : δ} {d' : δ'}
    (hs : ∀ j < n, s j = s' j) (hv : ∀ j < n, v j d = v' j d') :
    softmaxRow e n s v d = softmaxRow e n s' v' d' := by
  rw [softmaxRow, softmaxRow]
  refine congrArg₂ (· / ·) (Finset.sum_congr rfl fun j hj => ?_)
    (Finset.sum_congr rfl fun j hj => ?_)
  · rw [hs j (Finset.mem_range.mp hj), hv j (Finset.mem_range.mp hj)]
  · rw [hs j (Finset.mem_range.mp hj)]

/-- Masked scores at the end do not count. -/
theorem softmaxRow_masked [Field F] [LinearOrder F] {e : WithBot F → F} (he : IsExp e)
    {n n' : Nat} (hn : n ≤ n') {s : Nat → WithBot F} (hmasked : ∀ j, n ≤ j → j < n' → s j = ⊥)
    (v : Nat → δ → F) (d : δ) : softmaxRow e n' s v d = softmaxRow e n s v d := by
  obtain ⟨k, rfl⟩ := Nat.exists_eq_add_of_le hn
  have hzero : ∀ j ∈ Finset.range k, e (s (n + j)) = 0 := by
    intro j hj
    rw [hmasked (n + j) (Nat.le_add_right n j) (Nat.add_lt_add_left (Finset.mem_range.mp hj) n),
      he.bot]
  have hzero' : ∀ j ∈ Finset.range k, e (s (n + j)) * v (n + j) d = 0 := by
    intro j hj
    rw [hzero j hj, zero_mul]
  rw [softmaxRow, softmaxRow, Finset.sum_range_add, Finset.sum_range_add,
    Finset.sum_eq_zero hzero, Finset.sum_eq_zero hzero', add_zero, add_zero]

end Repercep.Foundation
