import Mathlib.Data.List.Basic
set_option autoImplicit false

/-!
# Paired computations

A computation that updates a state and may raise is run beside another one over
its own state.  `Paired R Q x y` says that from states related by `R` the two end
alike: both raise or both return the same value, which then satisfies `Q`, and
the states they leave are related again.  A raise keeps what was written before
it.  The rules below follow the ways such computations are put together, so that
two programs that differ in one operation are compared at that operation only.
-/

namespace Repercep.Foundation

/-- A computation over a state `σ` that may raise; what it wrote before the raise
stays written. -/
abbrev Effect (σ α : Type) := OptionT (StateM σ) α

namespace Effect

variable {σ τ α β : Type}

/-- The outcome of a computation, `none` where it raises, and the state it leaves. -/
def outcome (x : Effect σ α) (s : σ) : Option α × σ := x.run.run s

@[simp] theorem outcome_pure (a : α) (s : σ) :
    outcome (pure a : Effect σ α) s = (some a, s) := rfl

@[simp] theorem outcome_get (s : σ) : outcome (get : Effect σ σ) s = (some s, s) := rfl

@[simp] theorem outcome_modify (f : σ → σ) (s : σ) :
    outcome (modify f : Effect σ PUnit) s = (some PUnit.unit, f s) := rfl

/-- A bind runs the second computation where the first one returned. -/
theorem outcome_bind (x : Effect σ α) (f : α → Effect σ β) (s : σ) :
    outcome (x >>= f) s =
      match outcome x s with
      | (some a, t) => outcome (f a) t
      | (none, t) => (none, t) := by
  change (OptionT.bind x f).run.run s = _
  cases hx : outcome x s with
  | mk result t =>
      have hrun : StateT.run x s = (result, t) := hx
      cases result with
      | none =>
          simp only [OptionT.bind, OptionT.run, OptionT.mk, StateT.run_bind, hrun]
          rfl
      | some a =>
          simp only [OptionT.bind, OptionT.run, OptionT.mk, StateT.run_bind, hrun]
          rfl

theorem outcome_bind_of_some {x : Effect σ α} {s t : σ} {a : α} (h : outcome x s = (some a, t))
    (f : α → Effect σ β) : outcome (x >>= f) s = outcome (f a) t := by
  rw [outcome_bind, h]

theorem outcome_bind_of_none {x : Effect σ α} {s t : σ} (h : outcome x s = (none, t))
    (f : α → Effect σ β) : outcome (x >>= f) s = (none, t) := by
  rw [outcome_bind, h]

@[simp] theorem outcome_map (f : α → β) (x : Effect σ α) (s : σ) :
    outcome (f <$> x) s = ((outcome x s).1.map f, (outcome x s).2) := by
  rw [← bind_pure_comp, outcome_bind]
  cases outcome x s with
  | mk result t => cases result <;> rfl

/-- A call outside the state that raises on `none`. -/
def ofOption (a : Option α) : Effect σ α :=
  match a with
  | some a => pure a
  | none => failure

@[simp] theorem outcome_ofOption (a : Option α) (s : σ) :
    outcome (ofOption a : Effect σ α) s = (a, s) := by
  cases a <;> rfl

/-! ## Two computations side by side -/

/-- From states related by `R` the computations end alike, with a value that
satisfies `Q` where they return, and leave related states. -/
def Paired (R : σ → τ → Prop) (Q : α → Prop) (x : Effect σ α) (y : Effect τ α) : Prop :=
  ∀ s t, R s t → (outcome x s).1 = (outcome y t).1 ∧
    (∀ a, (outcome x s).1 = some a → Q a) ∧ R (outcome x s).2 (outcome y t).2

variable {R : σ → τ → Prop} {Q : α → Prop} {P : β → Prop}

/-- Two computations known by their outcomes. -/
theorem Paired.of_outcome {x : Effect σ α} {y : Effect τ α}
    (h : ∀ s t, R s t → ∃ a s' t', outcome x s = (a, s') ∧ outcome y t = (a, t') ∧
      (∀ v, a = some v → Q v) ∧ R s' t') : Paired R Q x y := by
  intro s t hR
  obtain ⟨a, s', t', hx, hy, hQ, hR'⟩ := h s t hR
  rw [hx, hy]
  exact ⟨rfl, hQ, hR'⟩

theorem Paired.pure {a : α} (hQ : Q a) :
    Paired R Q (Pure.pure a : Effect σ α) (Pure.pure a : Effect τ α) := by
  intro s t hR
  refine ⟨rfl, ?_, hR⟩
  intro b hb
  rw [outcome_pure, Option.some.injEq] at hb
  exact hb ▸ hQ

/-- The same outside call on both sides. -/
theorem Paired.ofOption {a : Option α} (hQ : ∀ v, a = some v → Q v) :
    Paired R Q (Effect.ofOption a : Effect σ α) (Effect.ofOption a : Effect τ α) := by
  intro s t hR
  rw [outcome_ofOption, outcome_ofOption]
  exact ⟨rfl, hQ, hR⟩

theorem Paired.bind {x : Effect σ α} {y : Effect τ α} {f : α → Effect σ β}
    {g : α → Effect τ β} (h : Paired R Q x y) (hnext : ∀ a, Q a → Paired R P (f a) (g a)) :
    Paired R P (x >>= f) (y >>= g) := by
  intro s t hR
  obtain ⟨hvalue, hQ, hR'⟩ := h s t hR
  rw [outcome_bind, outcome_bind]
  cases hx : outcome x s with
  | mk a s' =>
      cases hy : outcome y t with
      | mk b t' =>
          rw [hx, hy] at hvalue hR'
          rw [hx] at hQ
          cases hvalue
          cases a with
          | none => exact ⟨rfl, fun v hv => by simp at hv, hR'⟩
          | some v => exact hnext v (hQ v rfl) s' t' hR'

/-- A write whose two sides keep the states related. -/
theorem Paired.modify {f : σ → σ} {g : τ → τ} (h : ∀ s t, R s t → R (f s) (g t)) :
    Paired R (fun _ => True) (modify f : Effect σ PUnit) (modify g : Effect τ PUnit) := by
  intro s t hR
  rw [outcome_modify, outcome_modify]
  exact ⟨rfl, fun _ _ => trivial, h s t hR⟩

/-- A loop over the same items, with an invariant of what it accumulates. -/
theorem Paired.foldlM {γ : Type} {f : β → γ → Effect σ β} {g : β → γ → Effect τ β}
    (h : ∀ b c, P b → Paired R P (f b c) (g b c)) (items : List γ) :
    ∀ b, P b → Paired R P (items.foldlM f b) (items.foldlM g b) := by
  induction items with
  | nil =>
      intro b hb
      exact Paired.pure hb
  | cons c items ih =>
      intro b hb
      rw [List.foldlM_cons, List.foldlM_cons]
      exact (h b c hb).bind ih

/-- The same computation for each of the same items. -/
theorem Paired.mapM {γ : Type} {f : γ → Effect σ β} {g : γ → Effect τ β}
    (h : ∀ c, Paired R P (f c) (g c)) (items : List γ) :
    Paired R (fun _ => True) (items.mapM f) (items.mapM g) := by
  induction items with
  | nil =>
      rw [List.mapM_nil, List.mapM_nil]
      exact Paired.pure trivial
  | cons c items ih =>
      rw [List.mapM_cons, List.mapM_cons]
      apply (h c).bind
      intro b _
      apply ih.bind
      intro bs _
      exact Paired.pure trivial

end Effect

end Repercep.Foundation
