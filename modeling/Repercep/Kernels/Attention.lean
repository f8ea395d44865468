import Mathlib
import Repercep.Foundation.OnlineSoftmax
set_option autoImplicit false

/-!
# Softmax attention

What the attention kernels are for: each row of the output is the mean of the value rows,
weighted by the softmax of the row's scaled scores, a causal mask taking later keys out.
-/

namespace Repercep.Kernels

open Foundation

/-- The real exponential, zero at minus infinity. -/
noncomputable def realExp : WithBot ℝ → ℝ
  | ⊥ => 0
  | (x : ℝ) => Real.exp x

theorem realExp_isExp : IsExp realExp where
  bot := rfl
  pos := fun x => Real.exp_pos x
  add := fun x y => Real.exp_add x y

/-- Row `i` of `softmax (scale * Q Kᵀ + mask) V`, for `S` keys of `D` features. -/
noncomputable def attention (S D : Nat) (scale : ℝ) (isCausal : Bool) (Q K V : Nat → Nat → ℝ)
    (i d : Nat) : ℝ :=
  softmaxRow realExp S
    (fun j => if isCausal ∧ i < j then ⊥
      else ((scale * ∑ c ∈ Finset.range D, Q i c * K j c : ℝ) : WithBot ℝ)) V d

/-- A row of the output depends on its own query, and on the keys and the values. -/
theorem attention_congr {S D : Nat} {scale : ℝ} {isCausal : Bool} {Q Q' K K' V V' : Nat → Nat → ℝ}
    {i d : Nat} (hQ : ∀ c < D, Q i c = Q' i c) (hK : ∀ j < S, ∀ c < D, K j c = K' j c)
    (hV : ∀ j < S, V j d = V' j d) :
    attention S D scale isCausal Q K V i d = attention S D scale isCausal Q' K' V' i d := by
  refine softmaxRow_congr (fun j hj => ?_) hV
  have hdot : ∑ c ∈ Finset.range D, Q i c * K j c = ∑ c ∈ Finset.range D, Q' i c * K' j c := by
    refine Finset.sum_congr rfl fun c hc => ?_
    rw [hQ c (Finset.mem_range.mp hc), hK j hj c (Finset.mem_range.mp hc)]
  rw [hdot]

end Repercep.Kernels
