import Mathlib.Data.List.Basic
set_option autoImplicit false

/-!
# Counting entries of a list

How many processes of a system are in some set of phases, when one of them moves.
-/

namespace Repercep.Foundation

variable {α : Type}

/-- Replacing one entry moves at most one unit of the count. -/
theorem countP_set_add {l : List α} {i : Nat} {x : α} (hx : l[i]? = some x) (y : α)
    (p : α → Bool) : (l.set i y).countP p + (p x).toNat = l.countP p + (p y).toNat := by
  obtain ⟨hi, rfl⟩ := List.getElem?_eq_some_iff.mp hx
  have hpos : (p l[i]).toNat ≤ l.countP p := by
    cases hp : p l[i] with
    | false => exact Nat.zero_le _
    | true => exact List.countP_pos_iff.mpr ⟨_, List.getElem_mem hi, hp⟩
  rw [List.countP_set hi]
  cases hp : p l[i] with
  | false => cases p y <;> simp
  | true =>
      rw [hp, Bool.toNat_true] at hpos
      cases p y <;> simp <;> omega

theorem countP_append_singleton (l : List α) (x : α) (p : α → Bool) :
    (l ++ [x]).countP p = l.countP p + (p x).toNat := by
  rw [List.countP_append]
  cases hp : p x <;> simp [hp]

/-- The entry at `j` after the one at `i` has been replaced. -/
theorem getElem?_set_of_some {l : List α} {i : Nat} {x : α} (hx : l[i]? = some x) (y : α)
    (j : Nat) : (l.set i y)[j]? = if i = j then some y else l[j]? := by
  have hi := (List.getElem?_eq_some_iff.mp hx).1
  rw [List.getElem?_set]
  by_cases hij : i = j
  · rw [if_pos hij, if_pos hij, if_pos hi]
  · rw [if_neg hij, if_neg hij]

/-- An entry of the changed list is the new one or an old one. -/
theorem getElem?_set_cases {l : List α} {i j : Nat} {x y z : α} (hx : l[i]? = some x)
    (hz : (l.set i y)[j]? = some z) : (i = j ∧ z = y) ∨ (i ≠ j ∧ l[j]? = some z) := by
  rw [getElem?_set_of_some hx] at hz
  by_cases hij : i = j
  · rw [if_pos hij] at hz
    exact Or.inl ⟨hij, (Option.some.inj hz).symm⟩
  · rw [if_neg hij] at hz
    exact Or.inr ⟨hij, hz⟩

/-- An entry of the extended list is an old one or the last. -/
theorem getElem?_append_cases {l : List α} {i : Nat} {x z : α}
    (hz : (l ++ [x])[i]? = some z) : l[i]? = some z ∨ (i = l.length ∧ z = x) := by
  rw [List.getElem?_append] at hz
  split at hz
  · exact Or.inl hz
  · rename_i hi
    rw [List.getElem?_singleton] at hz
    split at hz
    · exact Or.inr ⟨by omega, (Option.some.inj hz).symm⟩
    · cases hz

end Repercep.Foundation
