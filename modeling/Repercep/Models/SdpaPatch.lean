import Repercep.Foundation.Machine
import Mathlib.Data.List.Induction
import Mathlib.Logic.Function.Basic
set_option autoImplicit false

/-!
# The scoped patch of the attention function

The model of `_sdpa_dtype_harmonizer` in `models/vjepa2_ac.py`, a context manager that
saves the global `F.scaled_dot_product_attention`, installs a wrapper of it, and puts
the saved function back in its `finally`.  Every forward of a bf16 predictor runs under
one guard, and the forwards of different sessions run on threads of a pool, so the
three steps of different guards interleave.

Save and restore undoes itself when guards do not overlap, or nest.  In general the
last guard to leave decides what stays: the function that was in place when it was
entered.
-/

namespace Repercep.Models

open Repercep.Foundation

/-- What `F.scaled_dot_product_attention` can be: torch's own function, or the closure
`harmonized` of a guard over the function it saved. -/
inductive Attention where
  | original
  | harmonized (orig : Attention)
  deriving DecidableEq, Repr

/-- Where a thread is in its guard. -/
inductive GuardPhase where
  | outside
  /-- the guard has read the function to restore -/
  | entering (orig : Attention)
  /-- the wrapper is installed, the forward runs -/
  | inside (orig : Attention)
  deriving DecidableEq, Repr

/-- The global function and the guards of all threads. -/
structure PatchState where
  attention : Attention
  phase : Nat → GuardPhase

/-- The steps of the guard of the thread `t`. -/
inductive GuardStep where
  /-- `orig = F.scaled_dot_product_attention` -/
  | save (t : Nat)
  /-- `F.scaled_dot_product_attention = harmonized` -/
  | install (t : Nat)
  /-- `F.scaled_dot_product_attention = orig`, in the `finally` -/
  | restore (t : Nat)
  deriving DecidableEq, Repr

namespace PatchState

/-- A thread moves to another phase of its guard. -/
def goto (s : PatchState) (t : Nat) (p : GuardPhase) : PatchState :=
  { s with phase := Function.update s.phase t p }

@[simp] theorem goto_attention (s : PatchState) (t : Nat) (p : GuardPhase) :
    (s.goto t p).attention = s.attention := rfl

@[simp] theorem goto_phase_self (s : PatchState) (t : Nat) (p : GuardPhase) :
    (s.goto t p).phase t = p := by
  simp [goto]

theorem goto_phase_ne (s : PatchState) {t u : Nat} (p : GuardPhase) (hne : u ≠ t) :
    (s.goto t p).phase u = s.phase u := by
  simp [goto, hne]

/-- One step of one guard; a thread takes the steps of its guard in order. -/
def step (s : PatchState) : GuardStep → Option (List Empty × PatchState)
  | .save t =>
      match s.phase t with
      | .outside => some ([], s.goto t (.entering s.attention))
      | _ => none
  | .install t =>
      match s.phase t with
      | .entering orig =>
          some ([], { s.goto t (.inside orig) with attention := .harmonized orig })
      | _ => none
  | .restore t =>
      match s.phase t with
      | .inside orig => some ([], { s.goto t .outside with attention := orig })
      | _ => none

/-- No guard is active. -/
def Idle (s : PatchState) : Prop := ∀ t, s.phase t = .outside

/-- The guard of the thread `t` is the only active one, and its forward is done. -/
def LeavesLast (s : PatchState) (t : Nat) : Prop :=
  (∃ orig, s.phase t = .inside orig) ∧ ∀ u, u ≠ t → s.phase u = .outside

end PatchState

/-- The guards of the threads of one process. -/
def sdpaGuards : Machine PatchState GuardStep Empty where
  init := ⟨.original, fun _ => .outside⟩
  step := PatchState.step

/-- The guard that the thread `t` entered last in a schedule was entered while torch's
own function was in place. -/
def EnteredOnOriginal (as : List GuardStep) (t : Nat) : Prop :=
  ∃ before after es s, as = before ++ .save t :: after ∧ .save t ∉ after ∧
    sdpaGuards.run sdpaGuards.init before = some (es, s) ∧ s.attention = .original

/-! ## One step -/

/-- The three steps, each with what it leaves of the global and of the phases. -/
theorem PatchState.step_cases {s s' : PatchState} {a : GuardStep} {es : List Empty}
    (h : s.step a = some (es, s')) :
    (∃ t, a = .save t ∧ s.phase t = .outside ∧
        s' = s.goto t (.entering s.attention)) ∨
      (∃ t orig, a = .install t ∧ s.phase t = .entering orig ∧
        s' = { s.goto t (.inside orig) with attention := .harmonized orig }) ∨
      (∃ t orig, a = .restore t ∧ s.phase t = .inside orig ∧
        s' = { s.goto t .outside with attention := orig }) := by
  cases a with
  | save t =>
      simp only [step] at h
      split at h
      · next hphase =>
          cases h
          exact .inl ⟨t, rfl, hphase, rfl⟩
      · cases h
  | install t =>
      simp only [step] at h
      split at h
      · next orig hphase =>
          cases h
          exact .inr (.inl ⟨t, orig, rfl, hphase, rfl⟩)
      · cases h
  | restore t =>
      simp only [step] at h
      split at h
      · next orig hphase =>
          cases h
          exact .inr (.inr ⟨t, orig, rfl, hphase, rfl⟩)
      · cases h

theorem PatchState.step_save {s s' : PatchState} {t : Nat} {es : List Empty}
    (h : s.step (.save t) = some (es, s')) : s' = s.goto t (.entering s.attention) := by
  simp only [step] at h
  split at h
  · cases h
    rfl
  · cases h

/-- What the guard of the thread `t` saved, while it is active. -/
def GuardPhase.saved : GuardPhase → Option Attention
  | .outside => none
  | .entering orig => some orig
  | .inside orig => some orig

/-- A guard keeps what it saved until it leaves; only entering another guard saves
again. -/
theorem PatchState.step_saved {s s' : PatchState} {a : GuardStep} {es : List Empty}
    {t : Nat} {orig : Attention} (h : s.step a = some (es, s')) (hnot : a ≠ .save t)
    (hsaved : (s'.phase t).saved = some orig) : (s.phase t).saved = some orig := by
  obtain ⟨u, rfl, hu, rfl⟩ | ⟨u, saved, rfl, hu, rfl⟩ | ⟨u, saved, rfl, hu, rfl⟩ :=
    step_cases h
  · have hne : t ≠ u := fun heq => hnot (heq ▸ rfl)
    rwa [goto_phase_ne s _ hne] at hsaved
  · by_cases heq : t = u
    · subst heq
      rw [hu]
      simpa [goto, GuardPhase.saved] using hsaved
    · simpa [goto, heq] using hsaved
  · by_cases heq : t = u
    · subst heq
      simp [goto, GuardPhase.saved] at hsaved
    · simpa [goto, heq] using hsaved

/-- The step that leaves no guard active is the last guard leaving. -/
theorem PatchState.step_idle {s s' : PatchState} {a : GuardStep} {es : List Empty}
    (h : s.step a = some (es, s')) (hidle : s'.Idle) :
    ∃ t, a = .restore t ∧ s.LeavesLast t := by
  obtain ⟨t, rfl, -, rfl⟩ | ⟨t, saved, rfl, -, rfl⟩ | ⟨t, saved, rfl, ht, rfl⟩ :=
    step_cases h
  · have hout := hidle t
    rw [goto_phase_self] at hout
    cases hout
  · have hout := hidle t
    simp [goto] at hout
  · refine ⟨t, rfl, ⟨saved, ht⟩, ?_⟩
    intro u hu
    have hout := hidle u
    simpa [goto, hu] using hout

/-- The last guard to leave puts back what it saved. -/
theorem PatchState.LeavesLast.restore {s : PatchState} {t : Nat} (h : s.LeavesLast t) :
    ∃ orig s', s.phase t = .inside orig ∧ s.step (.restore t) = some ([], s') ∧
      s'.attention = orig ∧ s'.Idle := by
  obtain ⟨⟨orig, ht⟩, hothers⟩ := h
  refine ⟨orig, { s.goto t .outside with attention := orig }, ht, ?_, rfl, ?_⟩
  · simp only [step, ht]
  · intro u
    by_cases hu : u = t
    · simp [goto, hu]
    · simpa [goto, hu] using hothers u hu

/-! ## Runs -/

theorem saved_of_run {as : List GuardStep} {s s' : PatchState} {es : List Empty} {t : Nat}
    {orig : Attention} (hrun : sdpaGuards.run s as = some (es, s'))
    (hnot : GuardStep.save t ∉ as) (hsaved : (s'.phase t).saved = some orig) :
    (s.phase t).saved = some orig := by
  induction as generalizing s es with
  | nil =>
      cases hrun
      exact hsaved
  | cons a as ih =>
      obtain ⟨es₁, s₁, es₂, hstep, hrest, -⟩ := Machine.run_cons_eq_some.mp hrun
      rw [List.mem_cons, not_or] at hnot
      exact PatchState.step_saved hstep (Ne.symm hnot.1) (ih hrest hnot.2)

/-- What an active guard saved is the function that was in place when it was entered. -/
theorem entered_of_saved {as : List GuardStep} {s : PatchState} {es : List Empty} {t : Nat}
    {orig : Attention} (hrun : sdpaGuards.run sdpaGuards.init as = some (es, s))
    (hsaved : (s.phase t).saved = some orig) :
    ∃ before after es₁ s₁, as = before ++ .save t :: after ∧ .save t ∉ after ∧
      sdpaGuards.run sdpaGuards.init before = some (es₁, s₁) ∧ s₁.attention = orig := by
  induction as using List.reverseRecOn generalizing s es with
  | nil =>
      cases hrun
      cases hsaved
  | append_singleton as a ih =>
      obtain ⟨es₁, s₁, es₂, hpre, hstep, -⟩ := Machine.run_snoc_eq_some.mp hrun
      by_cases ha : a = .save t
      · subst ha
        refine ⟨as, [], es₁, s₁, rfl, List.not_mem_nil, hpre, ?_⟩
        rw [PatchState.step_save hstep, PatchState.goto_phase_self] at hsaved
        exact Option.some.inj hsaved
      · obtain ⟨before, after, es₀, s₀, rfl, hafter, hbefore, horig⟩ :=
          ih hpre (PatchState.step_saved hstep ha hsaved)
        refine ⟨before, after ++ [a], es₀, s₀, by simp, ?_, hbefore, horig⟩
        rw [List.mem_append, List.mem_singleton, not_or]
        exact ⟨hafter, Ne.symm ha⟩

/-- A guard that was entered on torch's own function has saved it. -/
theorem EnteredOnOriginal.saved {as : List GuardStep} {s : PatchState} {es : List Empty}
    {t : Nat} {orig : Attention} (h : EnteredOnOriginal as t)
    (hrun : sdpaGuards.run sdpaGuards.init as = some (es, s))
    (hsaved : (s.phase t).saved = some orig) : orig = .original := by
  obtain ⟨before, after, es₁, s₁, rfl, hafter, hbefore, horig⟩ := h
  obtain ⟨es₂, s₂, es₃, hpre, hrest, -⟩ := Machine.run_append_eq_some.mp hrun
  cases hbefore.symm.trans hpre
  obtain ⟨es₄, s₄, es₅, hstep, htail, -⟩ := Machine.run_cons_eq_some.mp hrest
  have hsave := saved_of_run htail hafter hsaved
  rw [PatchState.step_save hstep, PatchState.goto_phase_self, GuardPhase.saved,
    horig] at hsave
  exact (Option.some.inj hsave).symm

/-- Where every guard that leaves last was entered on torch's own function, that function is
in place whenever no guard is active. -/
theorem original_of_entered {as : List GuardStep}
    (hentered : ∀ before t after es s, as = before ++ .restore t :: after →
      sdpaGuards.run sdpaGuards.init before = some (es, s) → s.LeavesLast t →
      EnteredOnOriginal before t)
    {before after : List GuardStep} {es : List Empty} {s : PatchState}
    (has : as = before ++ after) (hrun : sdpaGuards.run sdpaGuards.init before = some (es, s))
    (hidle : s.Idle) : s.attention = .original := by
  cases before using List.reverseRecOn with
  | nil =>
      cases hrun
      rfl
  | append_singleton before a _ =>
      obtain ⟨es₁, s₁, es₂, hpre, hstep, -⟩ := Machine.run_snoc_eq_some.mp hrun
      obtain ⟨t, rfl, hlast⟩ := PatchState.step_idle hstep hidle
      have horiginal := hentered before t after es₁ s₁ (by simp [has]) hpre hlast
      obtain ⟨orig, s', ht, hrestore, rfl, -⟩ := hlast.restore
      cases hstep.symm.trans hrestore
      exact horiginal.saved hpre (by rw [ht, GuardPhase.saved])

/-- Along a schedule, torch's own function is in place whenever no guard is active,
exactly when every guard that leaves last was entered while it was in place. -/
theorem sdpaPatch_undone_iff (as : List GuardStep) :
    (∀ before after es s, as = before ++ after →
        sdpaGuards.run sdpaGuards.init before = some (es, s) → s.Idle →
        s.attention = .original) ↔
      ∀ before t after es s, as = before ++ .restore t :: after →
        sdpaGuards.run sdpaGuards.init before = some (es, s) → s.LeavesLast t →
        EnteredOnOriginal before t := by
  constructor
  · intro hundone before t after es s has hrun hlast
    obtain ⟨orig, s', ht, hrestore, rfl, hidle⟩ := hlast.restore
    have hstep : sdpaGuards.step s (.restore t) = some ([], s') := hrestore
    have horig := hundone (before ++ [.restore t]) after _ s' (by simp [has])
      (Machine.run_snoc hrun hstep) hidle
    apply entered_of_saved hrun
    rw [ht, GuardPhase.saved, horig]
  · intro hentered before after es s has hrun hidle
    exact original_of_entered hentered has hrun hidle

/-- Guards that are entered only while torch's own function is in place, as when the
forwards run one after another, undo their patch. -/
theorem sdpaPatch_undone_of_apart {as : List GuardStep} {es : List Empty} {s : PatchState}
    (hmeets : sdpaGuards.Meets (fun s a => ∀ t, a = .save t → s.attention = .original)
      sdpaGuards.init as)
    (hrun : sdpaGuards.run sdpaGuards.init as = some (es, s)) (hidle : s.Idle) :
    s.attention = .original := by
  refine original_of_entered ?_ (List.append_nil as).symm hrun hidle
  intro before t after es₁ s₁ has hpre hlast
  obtain ⟨orig, ht⟩ := hlast.1
  obtain ⟨before₁, after₁, es₂, s₂, rfl, hafter, hbefore, -⟩ :=
    entered_of_saved hpre (show (s₁.phase t).saved = some orig by rw [ht, GuardPhase.saved])
  refine ⟨before₁, after₁, es₂, s₂, rfl, hafter, hbefore, ?_⟩
  obtain ⟨es₃, s₃, es₄, hpre₁, hrest, -⟩ := Machine.run_append_eq_some.mp hpre
  cases hbefore.symm.trans hpre₁
  obtain ⟨es₅, s₄, es₆, hstep, -, -⟩ := Machine.run_cons_eq_some.mp hrest
  exact Machine.along_iff_split.mp hmeets before₁ (.save t) (after₁ ++ .restore t :: after)
    es₂ s₂ es₅ s₄ (by simp [has]) hbefore hstep t rfl

/-- Two overlapping guards: the second is entered on the first one's wrapper and leaves
after it, so that wrapper stays in place for good. -/
theorem sdpaPatch_overlap_stays :
    ¬ ∀ (as : List GuardStep) (es : List Empty) (s : PatchState),
      sdpaGuards.run sdpaGuards.init as = some (es, s) → s.Idle →
        s.attention = .original := by
  intro h
  have hstays := h [.save 0, .install 0, .save 1, .install 1, .restore 0, .restore 1] []
    ⟨.harmonized .original, _⟩ rfl (by
      intro t
      by_cases h0 : t = 0
      · simp [PatchState.goto, h0]
      · by_cases h1 : t = 1
        · simp [PatchState.goto, h1]
        · simp [PatchState.goto, sdpaGuards, h0, h1])
  cases hstays

end Repercep.Models
