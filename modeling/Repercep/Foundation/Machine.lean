import Mathlib.Data.List.Basic
set_option autoImplicit false

/-!
# Scheduled machines

A concurrent system is a deterministic machine once the schedule is an input:
every choice (who moves, what the environment answers) is a label, and a run is
a list of labels.  This module fixes that reading once: runs and the events they
emit, conditions checked at every step of a run, the induction that carries a
history invariant along a run, and the simulation of one machine by another.
-/

namespace Repercep.Foundation

/-- A machine with states `σ`, labels `α` and emitted events `ε`.  `step s a` is
`none` when the label `a` is not enabled in `s`. -/
structure Machine (σ α ε : Type) where
  init : σ
  step : σ → α → Option (List ε × σ)

namespace Machine

variable {σ τ α ε : Type}

/-- The run of a schedule: the events it emits, in order, and the state it ends
in; `none` when some label was not enabled. -/
def run (M : Machine σ α ε) : σ → List α → Option (List ε × σ)
  | s, [] => some ([], s)
  | s, a :: as =>
      match M.step s a with
      | none => none
      | some (es, t) =>
          match run M t as with
          | none => none
          | some (fs, u) => some (es ++ fs, u)

@[simp] theorem run_nil (M : Machine σ α ε) (s : σ) :
    M.run s [] = some ([], s) := rfl

theorem run_cons (M : Machine σ α ε) (s : σ) (a : α) (as : List α) :
    M.run s (a :: as) =
      match M.step s a with
      | none => none
      | some (es, t) =>
          match M.run t as with
          | none => none
          | some (fs, u) => some (es ++ fs, u) := rfl

/-- A nonempty run is one step followed by a run. -/
theorem run_cons_eq_some {M : Machine σ α ε} {s u : σ} {a : α} {as : List α}
    {gs : List ε} :
    M.run s (a :: as) = some (gs, u) ↔
      ∃ es t fs, M.step s a = some (es, t) ∧ M.run t as = some (fs, u) ∧
        gs = es ++ fs := by
  constructor
  · intro h
    rw [run_cons] at h
    cases hstep : M.step s a with
    | none => simp [hstep] at h
    | some p =>
        obtain ⟨es, t⟩ := p
        cases hrest : M.run t as with
        | none => simp [hstep, hrest] at h
        | some q =>
            obtain ⟨fs, v⟩ := q
            simp only [hstep, hrest, Option.some.injEq, Prod.mk.injEq] at h
            obtain ⟨rfl, rfl⟩ := h
            exact ⟨es, t, fs, rfl, hrest, rfl⟩
  · rintro ⟨es, t, fs, hstep, hrest, rfl⟩
    simp [run_cons, hstep, hrest]

/-- Runs compose along concatenated schedules. -/
theorem run_append_eq_some {M : Machine σ α ε} {s u : σ} {as bs : List α}
    {gs : List ε} :
    M.run s (as ++ bs) = some (gs, u) ↔
      ∃ es t fs, M.run s as = some (es, t) ∧ M.run t bs = some (fs, u) ∧
        gs = es ++ fs := by
  induction as generalizing s gs with
  | nil => simp
  | cons a as ih =>
      rw [List.cons_append, run_cons_eq_some]
      constructor
      · rintro ⟨es, t, fs, hstep, hrest, rfl⟩
        obtain ⟨es', t', fs', hpre, hpost, rfl⟩ := ih.mp hrest
        exact ⟨es ++ es', t', fs', run_cons_eq_some.mpr ⟨es, t, es', hstep, hpre, rfl⟩,
          hpost, by simp⟩
      · rintro ⟨es, t, fs, hpre, hpost, rfl⟩
        obtain ⟨es₁, t₁, fs₁, hstep, hrest, rfl⟩ := run_cons_eq_some.mp hpre
        exact ⟨es₁, t₁, fs₁ ++ fs, hstep, ih.mpr ⟨fs₁, t, fs, hrest, hpost, rfl⟩, by simp⟩

theorem run_singleton {M : Machine σ α ε} {s t : σ} {a : α} {es : List ε}
    (hstep : M.step s a = some (es, t)) : M.run s [a] = some (es, t) :=
  run_cons_eq_some.mpr ⟨es, t, [], hstep, rfl, by simp⟩

/-- A run extended by one step. -/
theorem run_snoc {M : Machine σ α ε} {s t u : σ} {as : List α} {a : α} {es fs : List ε}
    (hrun : M.run s as = some (es, t)) (hstep : M.step t a = some (fs, u)) :
    M.run s (as ++ [a]) = some (es ++ fs, u) :=
  run_append_eq_some.mpr ⟨es, t, fs, hrun, run_singleton hstep, rfl⟩

/-- The last step of a run. -/
theorem run_snoc_eq_some {M : Machine σ α ε} {s u : σ} {as : List α} {a : α}
    {gs : List ε} :
    M.run s (as ++ [a]) = some (gs, u) ↔
      ∃ es t fs, M.run s as = some (es, t) ∧ M.step t a = some (fs, u) ∧
        gs = es ++ fs := by
  rw [run_append_eq_some]
  constructor
  · rintro ⟨es, t, fs, hpre, hone, rfl⟩
    obtain ⟨es₁, t₁, fs₁, hstep, hnil, rfl⟩ := run_cons_eq_some.mp hone
    cases hnil
    exact ⟨es, t, es₁, hpre, hstep, by simp⟩
  · rintro ⟨es, t, fs, hpre, hstep, rfl⟩
    exact ⟨es, t, fs, hpre, run_singleton hstep, rfl⟩

/-- What is left of a run after a beginning of it and one more step. -/
theorem run_rest {M : Machine σ α ε} {s t u v : σ} {as bs : List α} {a : α}
    {es fs gs : List ε} (hrun : M.run s (as ++ a :: bs) = some (gs, u))
    (hpre : M.run s as = some (es, t)) (hstep : M.step t a = some (fs, v)) :
    ∃ rest, M.run v bs = some (rest, u) ∧ gs = es ++ (fs ++ rest) := by
  obtain ⟨es', t', _, hpre', htail, rfl⟩ := run_append_eq_some.mp hrun
  cases hpre.symm.trans hpre'
  obtain ⟨fs', v', rest, hstep', hrest, rfl⟩ := run_cons_eq_some.mp htail
  cases hstep.symm.trans hstep'
  exact ⟨rest, hrest, rfl⟩

/-- Where every step emits one event, an event of a run is that of one of its labels. -/
theorem run_split_event {M : Machine σ α ε}
    (hone : ∀ s a es t, M.step s a = some (es, t) → ∃ e, es = [e]) {e : ε} {after : List ε}
    {u : σ} :
    ∀ (before : List ε) (s : σ) (as : List α), M.run s as = some (before ++ e :: after, u) →
      ∃ as₁ a as₂ t v, as = as₁ ++ a :: as₂ ∧ M.run s as₁ = some (before, t) ∧
        M.step t a = some ([e], v) ∧ M.run v as₂ = some (after, u) := by
  intro before
  induction before with
  | nil =>
      intro s as hrun
      cases as with
      | nil => cases hrun
      | cons a as =>
          obtain ⟨es, t, fs, hstep, hrest, heq⟩ := run_cons_eq_some.mp hrun
          obtain ⟨e', rfl⟩ := hone s a es t hstep
          obtain ⟨rfl, rfl⟩ := List.cons.inj heq
          exact ⟨[], a, as, s, t, rfl, rfl, hstep, hrest⟩
  | cons b before ih =>
      intro s as hrun
      cases as with
      | nil => cases hrun
      | cons a as =>
          obtain ⟨es, t, fs, hstep, hrest, heq⟩ := run_cons_eq_some.mp hrun
          obtain ⟨e', rfl⟩ := hone s a es t hstep
          obtain ⟨rfl, rfl⟩ := List.cons.inj heq
          obtain ⟨as₁, a', as₂, v, w, rfl, hpre, hmid, hpost⟩ := ih t as hrest
          exact ⟨a :: as₁, a', as₂, v, w, rfl,
            run_cons_eq_some.mpr ⟨[b], t, before, hstep, hpre, rfl⟩, hmid, hpost⟩

/-! ## Conditions on every step of a run -/

/-- Every step the schedule takes from `s` satisfies `P`. -/
def Along (M : Machine σ α ε) (P : σ → α → σ → Prop) : σ → List α → Prop
  | _, [] => True
  | s, a :: as => ∀ es t, M.step s a = some (es, t) → P s a t ∧ Along M P t as

/-- Every label of the schedule is taken in a state where `C` allows it. -/
def Meets (M : Machine σ α ε) (C : σ → α → Prop) (s : σ) (as : List α) : Prop :=
  M.Along (fun s a _ => C s a) s as

@[simp] theorem along_nil (M : Machine σ α ε) (P : σ → α → σ → Prop) (s : σ) :
    M.Along P s [] := trivial

theorem along_cons {M : Machine σ α ε} {P : σ → α → σ → Prop} {s t : σ} {a : α}
    {as : List α} {es : List ε} (hstep : M.step s a = some (es, t)) :
    M.Along P s (a :: as) ↔ P s a t ∧ M.Along P t as := by
  constructor
  · intro h
    exact h es t hstep
  · intro h es' t' hstep'
    have heq : (es, t) = (es', t') := Option.some.inj (hstep.symm.trans hstep')
    obtain ⟨rfl, rfl⟩ := Prod.mk.inj heq
    exact h

theorem meets_cons {M : Machine σ α ε} {C : σ → α → Prop} {s t : σ} {a : α}
    {as : List α} {es : List ε} (hstep : M.step s a = some (es, t)) :
    M.Meets C s (a :: as) ↔ C s a ∧ M.Meets C t as :=
  along_cons hstep

/-- Whether a schedule meets a decidable condition can be computed by running it. -/
instance decidableMeets (M : Machine σ α ε) (C : σ → α → Prop)
    [∀ s a, Decidable (C s a)] : ∀ (s : σ) (as : List α), Decidable (M.Meets C s as)
  | _, [] => isTrue trivial
  | s, a :: as =>
      match hstep : M.step s a with
      | none => isTrue fun es t h => by
          rw [hstep] at h
          cases h
      | some (_, t) =>
          have := decidableMeets M C t as
          decidable_of_iff (C s a ∧ M.Meets C t as) (meets_cons hstep).symm

theorem along_append {M : Machine σ α ε} {P : σ → α → σ → Prop} {s t : σ}
    {as bs : List α} {es : List ε} (hrun : M.run s as = some (es, t)) :
    M.Along P s (as ++ bs) ↔ M.Along P s as ∧ M.Along P t bs := by
  induction as generalizing s es with
  | nil =>
      simp only [run_nil, Option.some.injEq, Prod.mk.injEq] at hrun
      obtain ⟨-, rfl⟩ := hrun
      simp
  | cons a as ih =>
      obtain ⟨es₁, t₁, fs, hstep, hrest, -⟩ := run_cons_eq_some.mp hrun
      rw [List.cons_append, along_cons hstep, along_cons hstep, ih hrest, and_assoc]

/-- Two step conditions that agree on every step agree on every run. -/
theorem along_congr {M : Machine σ α ε} {P Q : σ → α → σ → Prop}
    (hiff : ∀ s a es t, M.step s a = some (es, t) → (P s a t ↔ Q s a t)) :
    ∀ (as : List α) (s : σ), M.Along P s as ↔ M.Along Q s as := by
  intro as
  induction as with
  | nil => intro s; simp
  | cons a as ih =>
      intro s
      constructor
      · intro h es t hstep
        exact ⟨(hiff s a es t hstep).mp (h es t hstep).1, (ih t).mp (h es t hstep).2⟩
      · intro h es t hstep
        exact ⟨(hiff s a es t hstep).mpr (h es t hstep).1, (ih t).mpr (h es t hstep).2⟩

/-! ## Invariants -/

/-- A history invariant relates the events emitted so far to the current state.
One that every step meeting `C` preserves holds along every run whose steps all
meet `C`. -/
theorem history_run {M : Machine σ α ε} {C : σ → α → Prop} {H : List ε → σ → Prop}
    (hstep : ∀ h s a es t, H h s → C s a → M.step s a = some (es, t) → H (h ++ es) t) :
    ∀ (as : List α) (h : List ε) (s : σ) (es : List ε) (t : σ), H h s →
      M.Meets C s as → M.run s as = some (es, t) → H (h ++ es) t := by
  intro as
  induction as with
  | nil =>
      intro h s es t hs _ hrun
      simp only [run_nil, Option.some.injEq, Prod.mk.injEq] at hrun
      obtain ⟨rfl, rfl⟩ := hrun
      simpa using hs
  | cons a as ih =>
      intro h s es t hs hmeets hrun
      obtain ⟨es₁, t₁, fs, hone, hrest, rfl⟩ := run_cons_eq_some.mp hrun
      obtain ⟨hC, hmeets'⟩ := hmeets es₁ t₁ hone
      rw [← List.append_assoc]
      exact ih (h ++ es₁) t₁ fs t (hstep h s a es₁ t₁ hs hC hone) hmeets' hrest

/-- `history_run` from the initial state. -/
theorem history_reachable {M : Machine σ α ε} {C : σ → α → Prop}
    {H : List ε → σ → Prop} (hinit : H [] M.init)
    (hstep : ∀ h s a es t, H h s → C s a → M.step s a = some (es, t) → H (h ++ es) t)
    {as : List α} {es : List ε} {t : σ} (hmeets : M.Meets C M.init as)
    (hrun : M.run M.init as = some (es, t)) : H es t := by
  simpa using history_run hstep as [] M.init es t hinit hmeets hrun

/-- A schedule meets a condition that each of its labels meets in every state. -/
theorem meets_of_forall {M : Machine σ α ε} {C : σ → α → Prop} :
    ∀ {as : List α} {s : σ}, (∀ a ∈ as, ∀ s, C s a) → M.Meets C s as := by
  intro as
  induction as with
  | nil => intro s _; trivial
  | cons a as ih =>
      intro s hall es t hstep
      exact ⟨hall a List.mem_cons_self s, ih fun b hb => hall b (List.mem_cons_of_mem a hb)⟩

/-- A state invariant that every step preserves holds along every run. -/
theorem invariant_run {M : Machine σ α ε} {I : σ → Prop}
    (hstep : ∀ s a es t, I s → M.step s a = some (es, t) → I t)
    {as : List α} {s t : σ} {es : List ε} (hs : I s)
    (hrun : M.run s as = some (es, t)) : I t :=
  history_run (C := fun _ _ => True) (H := fun _ s => I s)
    (fun _ s a es t hI _ h => hstep s a es t hI h) as [] s es t hs
    (meets_of_forall fun _ _ _ => trivial) hrun

/-- What one label brings about and every step keeps holds at the end of every run that
takes the label. -/
theorem holds_of_mem {M : Machine σ α ε} {I : σ → Prop} {b : α}
    (hset : ∀ s es t, M.step s b = some (es, t) → I t)
    (hstep : ∀ s a es t, I s → M.step s a = some (es, t) → I t)
    {as : List α} {s t : σ} {es : List ε} (hmem : b ∈ as) (hrun : M.run s as = some (es, t)) :
    I t := by
  obtain ⟨before, after, rfl⟩ := List.append_of_mem hmem
  obtain ⟨es₁, t₁, fs₁, -, hrest, -⟩ := run_append_eq_some.mp hrun
  obtain ⟨es₂, t₂, fs₂, hone, hafter, -⟩ := run_cons_eq_some.mp hrest
  exact invariant_run hstep (hset _ _ _ hone) hafter

/-- A step condition holds along a schedule when it holds at every point the
schedule reaches. -/
theorem along_iff_split {M : Machine σ α ε} {P : σ → α → σ → Prop} :
    ∀ {as : List α} {s : σ}, M.Along P s as ↔
      ∀ as₁ a as₂ es₁ t es₂ v, as = as₁ ++ a :: as₂ → M.run s as₁ = some (es₁, t) →
        M.step t a = some (es₂, v) → P t a v := by
  intro as
  induction as with
  | nil => intro s; simp
  | cons b as ih =>
      intro s
      constructor
      · rintro h as₁ a as₂ es₁ t es₂ v has hpre hstep
        cases as₁ with
        | nil =>
            cases has
            cases hpre
            exact (h es₂ v hstep).1
        | cons b' as₁ =>
            cases has
            obtain ⟨fs₁, u, fs₂, hone, hrest, -⟩ := run_cons_eq_some.mp hpre
            exact ih.mp (h fs₁ u hone).2 as₁ a as₂ fs₂ t es₂ v rfl hrest hstep
      · intro h es t hstep
        refine ⟨h [] b as [] s es t rfl rfl hstep, ih.mpr ?_⟩
        rintro as₁ a as₂ es₁ u es₂ v rfl hpre ha
        exact h (b :: as₁) a as₂ (es ++ es₁) u es₂ v rfl
          (run_cons_eq_some.mpr ⟨es, t, es₁, hstep, hpre, rfl⟩) ha

/-- What every step from a state satisfying an invariant satisfies holds along every
schedule. -/
theorem along_of_invariant {M : Machine σ α ε} {P : σ → α → σ → Prop} {I : σ → Prop}
    (hstep : ∀ s a es t, I s → M.step s a = some (es, t) → I t ∧ P s a t) :
    ∀ (as : List α) (s : σ), I s → M.Along P s as := by
  intro as
  induction as with
  | nil => intro s _; trivial
  | cons a as ih =>
      intro s hs es t hone
      obtain ⟨ht, hP⟩ := hstep s a es t hs hone
      exact ⟨hP, ih t ht⟩

/-- Two step conditions that agree on every step from a state satisfying an invariant
agree on every run. -/
theorem along_congr_of_invariant {M : Machine σ α ε} {P Q : σ → α → σ → Prop} {I : σ → Prop}
    (hstep : ∀ s a es t, I s → M.step s a = some (es, t) → I t ∧ (P s a t ↔ Q s a t)) :
    ∀ (as : List α) (s : σ), I s → (M.Along P s as ↔ M.Along Q s as) := by
  intro as
  induction as with
  | nil => intro s _; exact Iff.rfl
  | cons a as ih =>
      intro s hs
      constructor
      · intro h es t hone
        obtain ⟨ht, hiff⟩ := hstep s a es t hs hone
        exact ⟨hiff.mp (h es t hone).1, (ih t ht).mp (h es t hone).2⟩
      · intro h es t hone
        obtain ⟨ht, hiff⟩ := hstep s a es t hs hone
        exact ⟨hiff.mpr (h es t hone).1, (ih t ht).mpr (h es t hone).2⟩

/-- The state property holds in every state the schedule leads through from `s`, `s`
itself among them. -/
def Throughout (M : Machine σ α ε) (I : σ → Prop) (s : σ) (as : List α) : Prop :=
  ∀ as₁ as₂ es t, as = as₁ ++ as₂ → M.run s as₁ = some (es, t) → I t

theorem throughout_iff_along {M : Machine σ α ε} {I : σ → Prop} :
    ∀ (as : List α) (s : σ),
      M.Throughout I s as ↔ I s ∧ M.Along (fun _ _ t => I t) s as := by
  intro as s
  constructor
  · intro h
    refine ⟨h [] as [] s rfl rfl, along_iff_split.mpr ?_⟩
    intro as₁ a as₂ es₁ t es₂ v has hrun hstep
    refine h (as₁ ++ [a]) as₂ (es₁ ++ es₂) v ?_ (run_snoc hrun hstep)
    rw [has, List.append_assoc, List.singleton_append]
  · rintro ⟨hs, halong⟩ as₁ as₂ es t rfl hrun
    rcases List.eq_nil_or_concat' as₁ with rfl | ⟨as₁, a, rfl⟩
    · cases hrun
      exact hs
    · obtain ⟨es₁, u, es₂, hpre, hstep, -⟩ := run_snoc_eq_some.mp hrun
      refine along_iff_split.mp halong as₁ a as₂ es₁ u es₂ t ?_ hpre hstep
      rw [List.append_assoc, List.singleton_append]

/-- When one step from a state satisfying both properties keeps `J`, and keeps `I` exactly
if its label meets `C`, the states of a run all satisfy `I` exactly if its labels all meet
`C`. -/
theorem throughout_iff_meets {M : Machine σ α ε} {I J : σ → Prop} {C : σ → α → Prop}
    (hstep : ∀ s a es t, J s → I s → M.step s a = some (es, t) → J t ∧ (I t ↔ C s a)) :
    ∀ (as : List α) (s : σ), J s → I s → (M.Throughout I s as ↔ M.Meets C s as) := by
  intro as
  induction as with
  | nil =>
      intro s _ hI
      rw [throughout_iff_along]
      simp [Meets, hI]
  | cons a as ih =>
      intro s hJ hI
      rw [throughout_iff_along]
      constructor
      · rintro ⟨-, halong⟩ es t hone
        obtain ⟨hJt, hiff⟩ := hstep s a es t hJ hI hone
        obtain ⟨hIt, hrest⟩ := halong es t hone
        exact ⟨hiff.mp hIt, (ih t hJt hIt).mp ((throughout_iff_along as t).mpr ⟨hIt, hrest⟩)⟩
      · intro hmeets
        refine ⟨hI, fun es t hone => ?_⟩
        obtain ⟨hJt, hiff⟩ := hstep s a es t hJ hI hone
        obtain ⟨hC, hrest⟩ := hmeets es t hone
        have hIt := hiff.mpr hC
        exact ⟨hIt, ((throughout_iff_along as t).mp ((ih t hJt hIt).mpr hrest)).2⟩

/-- A state property that every step satisfying `P` preserves survives a run
along which `P` holds. -/
theorem Along.preserves {M : Machine σ α ε} {P : σ → α → σ → Prop} {I : σ → Prop}
    (hstep : ∀ s a t, P s a t → I s → I t) :
    ∀ {as : List α} {s t : σ} {es : List ε}, M.Along P s as →
      M.run s as = some (es, t) → I s → I t := by
  intro as
  induction as with
  | nil =>
      intro s t es _ hrun hs
      simp only [run_nil, Option.some.injEq, Prod.mk.injEq] at hrun
      obtain ⟨-, rfl⟩ := hrun
      exact hs
  | cons a as ih =>
      intro s t es halong hrun hs
      obtain ⟨es₁, t₁, fs, hone, hrest, -⟩ := run_cons_eq_some.mp hrun
      obtain ⟨hP, htail⟩ := (along_cons hone).mp halong
      exact ih htail hrest (hstep s a t₁ hP hs)

/-! ## Counting steps -/

/-- How many steps of the schedule satisfy `p`. -/
def count (M : Machine σ α ε) (p : σ → α → Bool) : σ → List α → Nat
  | _, [] => 0
  | s, a :: as =>
      match M.step s a with
      | none => 0
      | some (_, t) => (p s a).toNat + count M p t as

theorem count_step (M : Machine σ α ε) (p : σ → α → Bool) (s : σ) (a : α) (as : List α) :
    M.count p s (a :: as) =
      match M.step s a with
      | none => 0
      | some (_, t) => (p s a).toNat + M.count p t as := rfl

theorem count_cons {M : Machine σ α ε} {p : σ → α → Bool} {s t : σ} {a : α} {as : List α}
    {es : List ε} (hstep : M.step s a = some (es, t)) :
    M.count p s (a :: as) = (p s a).toNat + M.count p t as := by
  simp only [count_step, hstep]

theorem count_of_disabled {M : Machine σ α ε} {p : σ → α → Bool} {s : σ} {a : α}
    {as : List α} (hstep : M.step s a = none) : M.count p s (a :: as) = 0 := by
  simp only [count_step, hstep]

/-- From a state with a property that rules the step out and that every step preserves,
no step is counted. -/
theorem count_eq_zero {M : Machine σ α ε} {p : σ → α → Bool} {Q : σ → Prop}
    (hspent : ∀ s a es t, Q s → M.step s a = some (es, t) → p s a = false ∧ Q t) :
    ∀ (as : List α) (s : σ), Q s → M.count p s as = 0 := by
  intro as
  induction as with
  | nil => exact fun _ _ => rfl
  | cons a as ih =>
      intro s hs
      cases hstep : M.step s a with
      | none => exact count_of_disabled hstep
      | some q =>
          obtain ⟨es, t⟩ := q
          obtain ⟨hp, ht⟩ := hspent s a es t hs hstep
          rw [count_cons hstep, hp, ih t ht]
          rfl

/-- When a counted step leads to such a state, at most one step is counted. -/
theorem count_le_one {M : Machine σ α ε} {p : σ → α → Bool} {I Q : σ → Prop}
    (hstep : ∀ s a es t, I s → M.step s a = some (es, t) → (p s a = false ∧ I t) ∨ Q t)
    (hspent : ∀ s a es t, Q s → M.step s a = some (es, t) → p s a = false ∧ Q t) :
    ∀ (as : List α) (s : σ), I s → M.count p s as ≤ 1 := by
  intro as
  induction as with
  | nil => exact fun _ _ => Nat.zero_le 1
  | cons a as ih =>
      intro s hs
      cases hone : M.step s a with
      | none =>
          rw [count_of_disabled hone]
          exact Nat.zero_le 1
      | some q =>
          obtain ⟨es, t⟩ := q
          rw [count_cons hone]
          rcases hstep s a es t hs hone with ⟨hp, ht⟩ | ht
          · rw [hp, Bool.toNat_false, Nat.zero_add]
            exact ih t ht
          · rw [count_eq_zero hspent as t ht]
            exact Bool.toNat_le (p s a)

/-! ## Reachability -/

/-- Some schedule of labels that satisfy `P` leads from `s` to `t`. -/
def Reaches (M : Machine σ α ε) (P : α → Prop) (s t : σ) : Prop :=
  ∃ as es, (∀ a ∈ as, P a) ∧ M.run s as = some (es, t)

theorem Reaches.refl {M : Machine σ α ε} {P : α → Prop} (s : σ) : M.Reaches P s s :=
  ⟨[], [], by simp, rfl⟩

theorem Reaches.single {M : Machine σ α ε} {P : α → Prop} {s t : σ} {a : α} {es : List ε}
    (ha : P a) (hstep : M.step s a = some (es, t)) : M.Reaches P s t :=
  ⟨[a], es, by simpa using ha, run_singleton hstep⟩

theorem Reaches.trans {M : Machine σ α ε} {P : α → Prop} {s t u : σ}
    (h₁ : M.Reaches P s t) (h₂ : M.Reaches P t u) : M.Reaches P s u := by
  obtain ⟨as, es, has, hrun⟩ := h₁
  obtain ⟨bs, fs, hbs, hrun'⟩ := h₂
  refine ⟨as ++ bs, es ++ fs, ?_, run_append_eq_some.mpr ⟨es, t, fs, hrun, hrun', rfl⟩⟩
  intro a ha
  rcases List.mem_append.mp ha with ha | ha
  · exact has a ha
  · exact hbs a ha

/-! ## Simulation -/

/-- `R` simulates `M` by `N` under the conditions `C` and `D`: whenever `M` takes a
step that meets `C` from related states, `N` can take it too, and where the label
meets `D` it emits the same events and leads to related states. -/
def Simulates (M : Machine σ α ε) (N : Machine τ α ε) (C : σ → α → Prop)
    (D : τ → α → Prop) (R : σ → τ → Prop) : Prop :=
  ∀ s t a es s', R s t → C s a → M.step s a = some (es, s') →
    ∃ fs t', N.step t a = some (fs, t') ∧ (D t a → fs = es ∧ R s' t')

/-- A simulation lifts from steps to runs: same schedule, same events. -/
theorem Simulates.run {M : Machine σ α ε} {N : Machine τ α ε} {C : σ → α → Prop}
    {D : τ → α → Prop} {R : σ → τ → Prop} (hsim : M.Simulates N C D R) :
    ∀ (as : List α) (s : σ) (t : τ) (es : List ε) (s' : σ), R s t →
      M.Meets C s as → N.Meets D t as → M.run s as = some (es, s') →
        ∃ t', N.run t as = some (es, t') ∧ R s' t' := by
  intro as
  induction as with
  | nil =>
      intro s t es s' hR _ _ hrun
      simp only [run_nil, Option.some.injEq, Prod.mk.injEq] at hrun
      obtain ⟨rfl, rfl⟩ := hrun
      exact ⟨t, rfl, hR⟩
  | cons a as ih =>
      intro s t es s' hR hC hD hrun
      obtain ⟨es₁, s₁, fs, hstep, hrest, rfl⟩ := run_cons_eq_some.mp hrun
      obtain ⟨hCa, hC'⟩ := hC es₁ s₁ hstep
      obtain ⟨gs, t₁, hstepN, hmatch⟩ := hsim s t a es₁ s₁ hR hCa hstep
      obtain ⟨hDa, hD'⟩ := hD gs t₁ hstepN
      obtain ⟨rfl, hR₁⟩ := hmatch hDa
      obtain ⟨t', hrunN, hR'⟩ := ih s₁ t₁ fs s' hR₁ hC' hD' hrest
      exact ⟨t', run_cons_eq_some.mpr ⟨gs, t₁, fs, hstepN, hrunN, rfl⟩, hR'⟩

/-- Two machines in lock step: from related states the same labels are enabled in both,
and one that meets `C` has the same events in both and leads to related states. -/
def LockStep (M : Machine σ α ε) (N : Machine τ α ε) (C : σ → α → Prop)
    (R : σ → τ → Prop) : Prop :=
  ∀ s t a, R s t → (M.step s a = none → N.step t a = none) ∧
    ∀ es s', C s a → M.step s a = some (es, s') →
      ∃ t', N.step t a = some (es, t') ∧ R s' t'

/-- Machines in lock step run the same schedules, with the same events. -/
theorem LockStep.run {M : Machine σ α ε} {N : Machine τ α ε} {C : σ → α → Prop}
    {R : σ → τ → Prop} (hlock : M.LockStep N C R) :
    ∀ (as : List α) (s : σ) (t : τ), R s t → M.Meets C s as →
      (N.run t as).map Prod.fst = (M.run s as).map Prod.fst := by
  intro as
  induction as with
  | nil =>
      intro s t _ _
      rfl
  | cons a as ih =>
      intro s t hR hC
      obtain ⟨hnone, hsome⟩ := hlock s t a hR
      simp only [run_cons]
      cases hstep : M.step s a with
      | none => simp [hnone hstep]
      | some p =>
          obtain ⟨es, s'⟩ := p
          obtain ⟨hCa, hC'⟩ := (meets_cons hstep).mp hC
          obtain ⟨t', hstepN, hR'⟩ := hsome es s' hCa hstep
          have hrest := ih s' t' hR' hC'
          rw [hstepN]
          cases hM : M.run s' as with
          | none =>
              rw [hM, Option.map_none, Option.map_eq_none_iff] at hrest
              simp [hM, hrest]
          | some q =>
              rw [hM] at hrest
              obtain ⟨q', hN, hfst⟩ := Option.map_eq_some_iff.mp hrest
              simp [hM, hN, hfst]

/-! ## Projection -/

/-- `R` relates the states of `M` to those of an agent running alone in `N`: the
agent's own steps are steps of `N` with the same events, and the other steps are not
noticed and emit none of its events.  Then the agent's part of a run is a run. -/
theorem run_project {M : Machine σ α ε} {N : Machine τ α ε} {C : σ → α → Prop}
    {R : σ → τ → Prop} {mine : α → Bool} {own : ε → Bool}
    (hmine : ∀ s t a es s', R s t → C s a → mine a = true → M.step s a = some (es, s') →
      (∀ e ∈ es, own e = true) ∧ ∃ t', N.step t a = some (es, t') ∧ R s' t')
    (hother : ∀ s t a es s', R s t → C s a → mine a = false → M.step s a = some (es, s') →
      (∀ e ∈ es, own e = false) ∧ R s' t) :
    ∀ (as : List α) (s : σ) (t : τ) (es : List ε) (s' : σ), R s t → M.Meets C s as →
      M.run s as = some (es, s') →
        ∃ t', N.run t (as.filter mine) = some (es.filter own, t') ∧ R s' t' := by
  intro as
  induction as with
  | nil =>
      intro s t es s' hR _ hrun
      simp only [run_nil, Option.some.injEq, Prod.mk.injEq] at hrun
      obtain ⟨rfl, rfl⟩ := hrun
      exact ⟨t, rfl, hR⟩
  | cons a as ih =>
      intro s t es s' hR hC hrun
      obtain ⟨es₁, s₁, fs, hstep, hrest, rfl⟩ := run_cons_eq_some.mp hrun
      obtain ⟨hCa, hC'⟩ := hC es₁ s₁ hstep
      rw [List.filter_append]
      cases ha : mine a with
      | true =>
          obtain ⟨hown, t₁, hstepN, hR₁⟩ := hmine s t a es₁ s₁ hR hCa ha hstep
          obtain ⟨t', hrunN, hR'⟩ := ih s₁ t₁ fs s' hR₁ hC' hrest
          rw [List.filter_cons_of_pos ha, List.filter_eq_self.mpr hown]
          exact ⟨t', run_cons_eq_some.mpr ⟨es₁, t₁, _, hstepN, hrunN, rfl⟩, hR'⟩
      | false =>
          obtain ⟨hquiet, hR₁⟩ := hother s t a es₁ s₁ hR hCa ha hstep
          have hnone : es₁.filter own = [] :=
            List.filter_eq_nil_iff.mpr fun e he => by simp [hquiet e he]
          rw [List.filter_cons_of_neg (by simp [ha]), hnone, List.nil_append]
          exact ih s₁ t fs s' hR₁ hC' hrest

/-- A machine with other labels and coarser events that answers each step of `M` with a run
of its own, the relation `R` between the history, the two states and what comes being kept. -/
theorem run_matched {β δ : Type} {M : Machine σ α ε} {N : Machine τ β δ} {seen : ε → Option δ}
    {C : σ → α → Prop} {R : List ε → σ → τ → Prop}
    (hstep : ∀ h s t a es s', R h s t → C s a → M.step s a = some (es, s') →
      ∃ bs t', N.run t bs = some (es.filterMap seen, t') ∧ R (h ++ es) s' t') :
    ∀ (as : List α) (h : List ε) (s : σ) (t : τ) (es : List ε) (s' : σ), R h s t →
      M.Meets C s as → M.run s as = some (es, s') →
        ∃ bs t', N.run t bs = some (es.filterMap seen, t') ∧ R (h ++ es) s' t' := by
  intro as
  induction as with
  | nil =>
      intro h s t es s' hR _ hrun
      simp only [run_nil, Option.some.injEq, Prod.mk.injEq] at hrun
      obtain ⟨rfl, rfl⟩ := hrun
      exact ⟨[], t, rfl, by rwa [List.append_nil]⟩
  | cons a as ih =>
      intro h s t es s' hR hC hrun
      obtain ⟨es₁, s₁, fs, hone, hrest, rfl⟩ := run_cons_eq_some.mp hrun
      obtain ⟨hCa, hC'⟩ := hC es₁ s₁ hone
      obtain ⟨bs₁, t₁, hrun₁, hR₁⟩ := hstep h s t a es₁ s₁ hR hCa hone
      obtain ⟨bs₂, t', hrun₂, hR'⟩ := ih (h ++ es₁) s₁ t₁ fs s' hR₁ hC' hrest
      refine ⟨bs₁ ++ bs₂, t', ?_, by rwa [← List.append_assoc]⟩
      rw [List.filterMap_append]
      exact run_append_eq_some.mpr ⟨_, t₁, _, hrun₁, hrun₂, rfl⟩

end Machine

end Repercep.Foundation
