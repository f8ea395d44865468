import Mathlib.Data.List.GetD
import Mathlib.Data.List.Zip
set_option autoImplicit false

/-!
# Rolling a batch forward together

Items that each consume a sequence of inputs may be rolled forward one after the other,
or together, one input of each at a time.  A step may fail; the two ways fail together, and
otherwise end in the same states.
-/

namespace Repercep.Foundation

variable {σ τ β γ δ : Type}

/-- What a list of fallible results has in common with its items. -/
theorem length_of_mapM {f : β → Option γ} :
    ∀ {xs : List β} {ys : List γ}, xs.mapM f = some ys → ys.length = xs.length := by
  intro xs
  induction xs with
  | nil =>
      intro ys h
      cases h
      rfl
  | cons x xs ih =>
      intro ys h
      rw [List.mapM_cons] at h
      obtain ⟨y, -, h⟩ := Option.bind_eq_some_iff.mp h
      obtain ⟨rest, hrest, h⟩ := Option.bind_eq_some_iff.mp h
      cases h
      rw [List.length_cons, List.length_cons, ih hrest]

/-- The same results from the same items. -/
theorem mapM_congr_mem {f g : β → Option γ} {xs : List β} (h : ∀ x ∈ xs, f x = g x) :
    xs.mapM f = xs.mapM g := by
  induction xs with
  | nil => rfl
  | cons x xs ih =>
      rw [List.mapM_cons, List.mapM_cons, h x List.mem_cons_self,
        ih fun y hy => h y (List.mem_cons_of_mem x hy)]

/-- Combining each result with its item afterwards, or at once. -/
theorem map_zipWith_mapM (f : β → Option γ) (g : β → γ → δ) (xs : List β) :
    (xs.mapM f).map (List.zipWith g xs) = xs.mapM fun x => (f x).map (g x) := by
  induction xs with
  | nil => rfl
  | cons x xs ih =>
      rw [List.mapM_cons, List.mapM_cons, ← ih]
      cases f x with
      | none => rfl
      | some y =>
          cases xs.mapM f with
          | none => rfl
          | some ys => rfl

theorem map_map_mapM (f : β → Option γ) (g : γ → δ) (xs : List β) :
    (xs.mapM f).map (List.map g) = xs.mapM fun x => (f x).map g := by
  induction xs with
  | nil => rfl
  | cons x xs ih =>
      rw [List.mapM_cons, List.mapM_cons, ← ih]
      cases f x with
      | none => rfl
      | some y =>
          cases xs.mapM f with
          | none => rfl
          | some ys => rfl

/-- Two fallible passes over a list are one. -/
theorem mapM_bind (f : β → Option γ) (g : β → γ → Option δ) (xs : List β) :
    (xs.mapM fun x => (f x).bind (g x)) =
      (xs.mapM f).bind fun ys => (xs.zip ys).mapM fun p => g p.1 p.2 := by
  induction xs with
  | nil => rfl
  | cons x xs ih =>
      rw [List.mapM_cons, List.mapM_cons, ih]
      cases f x with
      | none => rfl
      | some y =>
          cases xs.mapM f with
          | none => cases hg : g x y <;> simp [hg]
          | some ys => simp [List.mapM_cons]

/-- One input of every item. -/
def stepAll (f : σ → β → Option σ) (states : List σ) (inputs : List β) : Option (List σ) :=
  (states.zip inputs).mapM fun p => f p.1 p.2

/-- Items rolled forward together, over the inputs from `start` on, end as each does on
its own. -/
theorem foldlM_stepAll (f : σ → β → Option σ) (blank : β) (steps : Nat) :
    ∀ (start : Nat) (items : List (σ × List β)),
      (∀ item ∈ items, item.2.length = start + steps) →
        (List.range' start steps).foldlM
            (fun states t => stepAll f states (items.map fun item => item.2.getD t blank))
            (items.map Prod.fst) =
          items.mapM fun item => (item.2.drop start).foldlM f item.1 := by
  induction steps with
  | zero =>
      intro start items hlength
      have hdone : ∀ item ∈ items, (item.2.drop start).foldlM f item.1 = some item.1 := by
        intro item hitem
        have hend : item.2.drop start = [] := List.drop_eq_nil_of_le (Nat.le_of_eq (hlength item hitem))
        rw [hend]
        rfl
      rw [mapM_congr_mem hdone]
      exact (List.mapM_pure).symm
  | succ steps ih =>
      intro start items hlength
      have hrow : ∀ item ∈ items, (item.2.drop start).foldlM f item.1 =
          (f item.1 (item.2.getD start blank)).bind
            fun state => (item.2.drop (start + 1)).foldlM f state := by
        intro item hitem
        have hstart : start < item.2.length := by
          rw [hlength item hitem]
          omega
        rw [List.drop_eq_getElem_cons hstart, List.foldlM_cons,
          List.getD_eq_getElem item.2 blank hstart]
        rfl
      have hfirst : stepAll f (items.map Prod.fst)
          (items.map fun item => item.2.getD start blank) =
            items.mapM fun item => f item.1 (item.2.getD start blank) := by
        rw [stepAll, List.zip_map', List.mapM_map]
        rfl
      rw [mapM_congr_mem hrow, mapM_bind, List.range'_succ, List.foldlM_cons, hfirst]
      apply Option.bind_congr
      intro states hstates
      have hcount := length_of_mapM hstates
      -- the states the items are in now, with the inputs they had
      have hnext := ih (start + 1) (states.zip (items.map Prod.snd)) (by
        intro item hitem
        obtain ⟨-, hinputs⟩ := List.of_mem_zip hitem
        obtain ⟨old, hold, heq⟩ := List.mem_map.mp hinputs
        rw [← heq, hlength old hold]
        omega)
      have hstates' : (states.zip (items.map Prod.snd)).map Prod.fst = states :=
        List.map_fst_zip (by simp [hcount])
      have hinputs : ∀ t, ((states.zip (items.map Prod.snd)).map fun item =>
          item.2.getD t blank) = items.map fun item => item.2.getD t blank := by
        intro t
        have hsnd : (states.zip (items.map Prod.snd)).map Prod.snd = items.map Prod.snd :=
          List.map_snd_zip (by simp [hcount])
        have hmap := congrArg (List.map fun inputs : List β => inputs.getD t blank) hsnd
        rw [List.map_map, List.map_map] at hmap
        exact hmap
      rw [hstates'] at hnext
      simp only [hinputs] at hnext
      have hzip : states.zip (items.map Prod.snd) =
          (items.zip states).map fun p => (p.2, p.1.2) := by
        rw [List.zip_map_right, ← List.zip_swap items states, List.map_map]
        rfl
      rw [hnext, hzip, List.mapM_map]
      rfl

end Repercep.Foundation
