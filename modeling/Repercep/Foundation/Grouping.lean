import Mathlib.Algebra.BigOperators.Group.List.Basic
set_option autoImplicit false

/-!
# Sums by group

A list whose elements have keys, grouped by key: the sums of the groups add up to the
sum of the list.
-/

namespace Repercep.Foundation

variable {α κ M : Type} [DecidableEq κ] [AddCommMonoid M]

/-- Of distinct keys, one is met once. -/
theorem sum_single {k : κ} {ks : List κ} (hnodup : ks.Nodup) (hk : k ∈ ks) (c : M) :
    (ks.map fun j => if k = j then c else 0).sum = c := by
  induction ks with
  | nil => cases hk
  | cons j ks ih =>
      rw [List.nodup_cons] at hnodup
      rw [List.map_cons, List.sum_cons]
      cases List.mem_cons.mp hk with
      | inl heq =>
          have hzero : (ks.map fun i => if k = i then c else 0).sum = 0 := by
            apply List.sum_eq_zero
            intro x hx
            obtain ⟨i, hi, rfl⟩ := List.mem_map.mp hx
            apply if_neg
            intro hki
            exact hnodup.1 (heq ▸ hki ▸ hi)
          rw [if_pos heq, hzero, add_zero]
      | inr hmem =>
          have hne : k ≠ j := fun heq => hnodup.1 (heq ▸ hmem)
          rw [if_neg hne, zero_add, ih hnodup.2 hmem]

/-- The sums of the groups add up to the sum of the list. -/
theorem sum_groups {key : α → κ} (f : α → M) {ks : List κ} (hnodup : ks.Nodup)
    {l : List α} (hmem : ∀ a ∈ l, key a ∈ ks) :
    (ks.map fun k => ((l.filter fun a => key a = k).map f).sum).sum = (l.map f).sum := by
  induction l with
  | nil =>
      apply List.sum_eq_zero
      intro x hx
      obtain ⟨k, -, rfl⟩ := List.mem_map.mp hx
      rfl
  | cons a l ih =>
      have hsplit : ∀ k, (((a :: l).filter fun b => key b = k).map f).sum =
          (if key a = k then f a else 0) + ((l.filter fun b => key b = k).map f).sum := by
        intro k
        by_cases hk : key a = k
        · simp [hk]
        · simp [hk]
      simp only [hsplit]
      rw [List.sum_map_add, sum_single hnodup (hmem a List.mem_cons_self),
        ih fun b hb => hmem b (List.mem_cons_of_mem a hb), List.map_cons, List.sum_cons]

end Repercep.Foundation
