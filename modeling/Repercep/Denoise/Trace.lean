import Mathlib.Data.List.Induction
import Repercep.Denoise.Loop
set_option autoImplicit false

/-!
# Denoising: the trace law of the cache gate

Which steps skip the transformer, said of the trace of the steps before: the last full
step, and the steps skipped since.
-/

namespace Repercep.Denoise

open Repercep.Foundation

variable {S T L X N : Type}

/-! ## The steps since the last full one -/

/-- The last full step of a trace, and the steps skipped since. -/
def sinceFull (done : List (StepRecord X N)) :
    Option (StepRecord X N × List (StepRecord X N)) :=
  done.foldl (fun last r =>
    if r.skipped then last.map fun p => (p.1, p.2 ++ [r]) else some (r, [])) none

@[simp] theorem sinceFull_nil : sinceFull ([] : List (StepRecord X N)) = none := rfl

theorem sinceFull_snoc (done : List (StepRecord X N)) (r : StepRecord X N) :
    sinceFull (done ++ [r]) =
      if r.skipped then (sinceFull done).map fun p => (p.1, p.2 ++ [r]) else some (r, []) := by
  rw [sinceFull, List.foldl_append]
  rfl

theorem sinceFull_eq_some {done : List (StepRecord X N)} {f : StepRecord X N}
    {skips : List (StepRecord X N)} :
    sinceFull done = some (f, skips) ↔
      f.skipped = false ∧ (∀ r ∈ skips, r.skipped = true) ∧ ∃ pre, done = pre ++ f :: skips := by
  induction done using List.reverseRecOn generalizing skips with
  | nil => simp
  | append_singleton done r ih =>
      rw [sinceFull_snoc]
      cases hskipped : r.skipped with
      | true =>
          simp only [if_true, Option.map_eq_some_iff, Prod.mk.injEq]
          constructor
          · rintro ⟨⟨f', skips'⟩, hlast, rfl, rfl⟩
            obtain ⟨hfull, hskips, pre, rfl⟩ := ih.mp hlast
            refine ⟨hfull, ?_, pre, by simp⟩
            intro r' hr'
            rcases List.mem_append.mp hr' with hr' | hr'
            · exact hskips r' hr'
            · exact List.mem_singleton.mp hr' ▸ hskipped
          · rintro ⟨hfull, hskips, pre, hsplit⟩
            rcases List.eq_nil_or_concat' skips with rfl | ⟨skips', r', rfl⟩
            · obtain ⟨-, hlast⟩ := List.append_inj' hsplit rfl
              cases List.singleton_inj.mp hlast
              cases hfull.symm.trans hskipped
            · rw [← List.cons_append, ← List.append_assoc] at hsplit
              obtain ⟨hdone, hlast⟩ := List.append_inj' hsplit rfl
              cases List.singleton_inj.mp hlast
              exact ⟨(f, skips'), ih.mpr ⟨hfull,
                fun r' hr' => hskips r' (List.mem_append_left _ hr'), pre, hdone⟩, rfl, rfl⟩
      | false =>
          simp only [Bool.false_eq_true, if_false, Option.some.injEq, Prod.mk.injEq]
          constructor
          · rintro ⟨rfl, rfl⟩
            exact ⟨hskipped, (fun r' hr' => nomatch hr'), done, rfl⟩
          · rintro ⟨hfull, hskips, pre, hsplit⟩
            rcases List.eq_nil_or_concat' skips with rfl | ⟨skips', r', rfl⟩
            · obtain ⟨-, hlast⟩ := List.append_inj' hsplit rfl
              exact ⟨List.singleton_inj.mp hlast, rfl⟩
            · rw [← List.cons_append, ← List.append_assoc] at hsplit
              obtain ⟨-, hlast⟩ := List.append_inj' hsplit rfl
              cases List.singleton_inj.mp hlast
              have hskip := hskips r (List.mem_append_right _ (List.mem_singleton_self r))
              cases hskip.symm.trans hskipped

/-- There is a last full step once there is a full one. -/
theorem sinceFull_isSome {done : List (StepRecord X N)} :
    (sinceFull done).isSome = true ↔ ∃ f ∈ done, f.skipped = false := by
  induction done using List.reverseRecOn with
  | nil => simp
  | append_singleton done r ih =>
      rw [sinceFull_snoc]
      cases hskipped : r.skipped with
      | true => simp [ih, or_and_right, exists_or, hskipped]
      | false => simp [or_and_right, exists_or, hskipped]

/-- The distances of some steps to the input of a full one, added up in order. -/
def accumulated (relL1 : X → X → Float) (f : StepRecord X N) (steps : List (StepRecord X N)) :
    Float :=
  steps.foldl (fun sum r => sum + relL1 r.input f.input) 0.0

theorem accumulated_snoc (relL1 : X → X → Float) (f : StepRecord X N)
    (steps : List (StepRecord X N)) (r : StepRecord X N) :
    accumulated relL1 f (steps ++ [r]) = accumulated relL1 f steps + relL1 r.input f.input := by
  rw [accumulated, List.foldl_append]
  rfl

/-! ## The law -/

/-- When the step after a trace is skipped. -/
def Skips (relL1 : X → X → Float) (c : CacheSettings) (totalSteps : Nat)
    (done : List (StepRecord X N)) (r : StepRecord X N) : Prop :=
  match c.effectiveMode with
  | .none => False
  | .fixed => 2 ≤ c.skipEvery ∧ c.warmupSteps ≤ done.length ∧
      (∃ f ∈ done, f.skipped = false) ∧ (done.length - c.warmupSteps) % c.skipEvery ≠ 0
  | .adaptive => ∃ f skips, sinceFull done = some (f, skips) ∧
      c.warmupSteps ≤ done.length ∧ done.length + 1 ≠ totalSteps ∧
      (c.forceFullEvery ≤ 0 ∨ skips.length < c.forceFullEvery) ∧
      accumulated relL1 f (skips ++ [r]) < c.adaptiveThreshold

/-- The law of one step of a trace. -/
structure StepLaw (relL1 : X → X → Float) (c : CacheSettings) (totalSteps : Nat)
    (done : List (StepRecord X N)) (r : StepRecord X N) : Prop where
  skipped : r.skipped = true ↔ Skips relL1 c totalSteps done r
  /-- a skipped step uses the prediction of the last full one -/
  reused : r.skipped = true →
    ∃ f skips, sinceFull done = some (f, skips) ∧ r.noisePred = f.noisePred

/-- What the variables of the loop say of the trace so far. -/
structure Tracks (relL1 : X → X → Float) (c : CacheSettings) (done : List (StepRecord X N))
    (s : LoopState S L X N) : Prop where
  stepIdx : s.stepIdx = done.length
  cachedNoisePred : s.cachedNoisePred = (sinceFull done).map fun p => p.1.noisePred
  lastFullInput : c.effectiveMode = .adaptive →
    s.lastFullInput = (sinceFull done).map fun p => p.1.input
  accumulatedRelL1 : c.effectiveMode = .adaptive → ∀ f skips,
    sinceFull done = some (f, skips) → s.accumulatedRelL1 = accumulated relL1 f skips
  stepsSinceFull : c.effectiveMode = .adaptive → ∀ f skips,
    sinceFull done = some (f, skips) → s.stepsSinceFull = skips.length

theorem Tracks.cached_none_iff {relL1 : X → X → Float} {c : CacheSettings}
    {done : List (StepRecord X N)} {s : LoopState S L X N} (h : Tracks relL1 c done s) :
    s.cachedNoisePred = none ↔ sinceFull done = none := by
  rw [h.cachedNoisePred, Option.map_eq_none_iff]

/-! ## One step -/

/-- What the gate decides on a model input. -/
structure Decides (relL1 : X → X → Float) (c : CacheSettings) (totalSteps : Nat)
    (done : List (StepRecord X N)) (s : LoopState S L X N) (input : X) (v : Verdict) :
    Prop where
  shouldSkip : ∀ r : StepRecord X N, r.input = input →
    (v.shouldSkip = true ↔ Skips relL1 c totalSteps done r)
  cached : v.shouldSkip = true → ∃ f skips, sinceFull done = some (f, skips)
  accumulated : c.effectiveMode = .adaptive → v.shouldSkip = true →
    ∀ f skips, sinceFull done = some (f, skips) →
      v.accumulatedRelL1 = s.accumulatedRelL1 + relL1 input f.input

variable {relL1 : X → X → Float} {c : CacheSettings} {totalSteps : Nat}
  {done : List (StepRecord X N)} {s : LoopState S L X N}

theorem gate_none (hmode : c.effectiveMode = .none) (input : X) :
    ∃ v, gate relL1 c totalSteps s input = some v ∧
      Decides relL1 c totalSteps done s input v := by
  refine ⟨⟨false, "full", 0.0, s.accumulatedRelL1⟩, by simp [gate, hmode], ?_, ?_, ?_⟩
  · intro r _
    simp [Skips, hmode]
  · intro hskip
    cases hskip
  · intro _ hskip
    cases hskip

theorem gate_fixed (h : Tracks relL1 c done s) (hmode : c.effectiveMode = .fixed)
    (input : X) :
    ∃ v, gate relL1 c totalSteps s input = some v ∧
      Decides relL1 c totalSteps done s input v := by
  have hcached : s.cachedNoisePred.isSome = true ↔ ∃ f ∈ done, f.skipped = false := by
    rw [h.cachedNoisePred, Option.isSome_map, sinceFull_isSome]
  unfold gate
  simp only [hmode]
  refine ⟨_, rfl, ?_, ?_, ?_⟩
  · intro r _
    simp only [Skips, hmode, Bool.and_eq_true, decide_eq_true_eq, hcached, h.stepIdx, and_assoc]
  · intro hskip
    simp only [Bool.and_eq_true] at hskip
    obtain ⟨⟨f, skips⟩, hlast⟩ := Option.isSome_iff_exists.mp
      (sinceFull_isSome.mpr (hcached.mp hskip.1.2))
    exact ⟨f, skips, hlast⟩
  · intro hadaptive
    cases hmode.symm.trans hadaptive

theorem gate_adaptive (h : Tracks relL1 c done s) (hmode : c.effectiveMode = .adaptive)
    (input : X) :
    ∃ v, gate relL1 c totalSteps s input = some v ∧
      Decides relL1 c totalSteps done s input v := by
  -- a step that is full whatever the distance
  have hfull : ∀ (skipReason : String) (rel acc : Float),
      (∀ r : StepRecord X N, r.input = input → ¬ Skips relL1 c totalSteps done r) →
        Decides relL1 c totalSteps done s input ⟨false, skipReason, rel, acc⟩ := by
    intro skipReason rel acc hnot
    refine ⟨fun r hr => iff_of_false Bool.false_ne_true (hnot r hr), ?_, ?_⟩
    · intro hskip
      cases hskip
    · intro _ hskip
      cases hskip
  have hskips : ∀ r : StepRecord X N, Skips relL1 c totalSteps done r ↔
      ∃ f skips, sinceFull done = some (f, skips) ∧
        c.warmupSteps ≤ done.length ∧ done.length + 1 ≠ totalSteps ∧
        (c.forceFullEvery ≤ 0 ∨ skips.length < c.forceFullEvery) ∧
        accumulated relL1 f (skips ++ [r]) < c.adaptiveThreshold := by
    intro r
    simp only [Skips, hmode]
  unfold gate
  simp only [hmode, h.stepIdx]
  split
  · next halways =>
      refine ⟨_, rfl, hfull _ _ _ fun r _ hskip => ?_⟩
      obtain ⟨f, skips, hlast, hwarmup, hnotlast, -⟩ := (hskips r).mp hskip
      have hcached : s.cachedNoisePred ≠ none := by
        rw [ne_eq, h.cached_none_iff, hlast]
        exact Option.some_ne_none _
      simp only [Bool.or_eq_true, decide_eq_true_eq, Option.isNone_iff_eq_none] at halways
      rcases halways with (hin | hlaststep) | hnone
      · omega
      · exact hnotlast hlaststep
      · exact hcached hnone
  · next hopen =>
      simp only [Bool.or_eq_true, decide_eq_true_eq, Option.isNone_iff_eq_none, not_or] at hopen
      obtain ⟨⟨hwarmup, hnotlast⟩, hcached⟩ := hopen
      obtain ⟨⟨f, skips⟩, hlast⟩ : ∃ p, sinceFull done = some p :=
        Option.ne_none_iff_exists'.mp (mt h.cached_none_iff.mpr hcached)
      have hsince := h.stepsSinceFull hmode f skips hlast
      split
      · next hfloor =>
          refine ⟨_, rfl, hfull _ _ _ fun r _ hskip => ?_⟩
          obtain ⟨f', skips', hlast', -, -, hallowed, -⟩ := (hskips r).mp hskip
          cases hlast.symm.trans hlast'
          omega
      · next hnofloor =>
          have hinput := h.lastFullInput hmode
          rw [hlast, Option.map_some] at hinput
          have hsum := h.accumulatedRelL1 hmode f skips hlast
          rw [hinput]
          dsimp only
          have hiff : ∀ r : StepRecord X N, r.input = input →
              (s.accumulatedRelL1 + relL1 input f.input < c.adaptiveThreshold ↔
                Skips relL1 c totalSteps done r) := by
            intro r hr
            rw [hskips, hsum, ← hr, ← accumulated_snoc]
            constructor
            · intro hbelow
              exact ⟨f, skips, hlast, by omega, hnotlast, by omega, hbelow⟩
            · rintro ⟨f', skips', hlast', -, -, -, hbelow⟩
              cases hlast.symm.trans hlast'
              exact hbelow
          split
          · next hbelow =>
              refine ⟨_, rfl, fun r hr => iff_of_true rfl ((hiff r hr).mp hbelow), ?_, ?_⟩
              · exact fun _ => ⟨f, skips, hlast⟩
              · intro _ _ f' skips' hlast'
                cases hlast.symm.trans hlast'
                rfl
          · next habove =>
              exact ⟨_, rfl, hfull _ _ _ fun r hr hskip => habove ((hiff r hr).mpr hskip)⟩

/-- The gate decides in every state of a trace: its assertion never fails. -/
theorem gate_decides (h : Tracks relL1 c done s) (totalSteps : Nat) (input : X) :
    ∃ v, gate relL1 c totalSteps s input = some v ∧
      Decides relL1 c totalSteps done s input v := by
  cases hmode : c.effectiveMode with
  | none => exact gate_none hmode input
  | fixed => exact gate_fixed h hmode input
  | adaptive => exact gate_adaptive h hmode input

/-- A step obeys the law, and leaves the variables in agreement with the trace. -/
theorem step_tracks (pipe : Pipe S T L X N) (h : Tracks pipe.relL1 c done s)
    (totalSteps : Nat) (t : T) :
    ∃ r s', step pipe c totalSteps s t = some ([r], s') ∧
      StepLaw pipe.relL1 c totalSteps done r ∧ Tracks pipe.relL1 c (done ++ [r]) s' ∧
      s'.stats = s.stats.map (·.record r) := by
  obtain ⟨v, hgate, hdecides⟩ :=
    gate_decides h totalSteps (pipe.scaleModelInput s.pipe s.latents t).1
  unfold step
  simp only [hgate]
  cases hskip : v.shouldSkip with
  | true =>
      obtain ⟨f, skips, hlast⟩ := hdecides.cached hskip
      have hcached : s.cachedNoisePred = some f.noisePred := by
        rw [h.cachedNoisePred, hlast, Option.map_some]
      simp only [if_true, hcached]
      refine ⟨_, _, rfl, ⟨?_, ?_⟩, ?_, rfl⟩
      · exact (iff_of_true rfl hskip).trans (hdecides.shouldSkip _ rfl)
      · exact fun _ => ⟨f, skips, hlast, rfl⟩
      · have hnext := sinceFull_snoc done (⟨(pipe.scaleModelInput s.pipe s.latents t).1, true,
          v.skipReason, v.relL1Value, f.noisePred⟩ : StepRecord X N)
        rw [if_pos rfl, hlast, Option.map_some] at hnext
        refine ⟨?_, ?_, ?_, ?_, ?_⟩
        · simp [LoopState.advance, h.stepIdx]
        · rw [hnext]
          rfl
        · intro hmode
          rw [hnext]
          have hinput := h.lastFullInput hmode
          rwa [hlast, Option.map_some] at hinput
        · intro hmode f' skips' hlast'
          cases hnext.symm.trans hlast'
          rw [accumulated_snoc, ← h.accumulatedRelL1 hmode f skips hlast]
          exact hdecides.accumulated hmode hskip f skips hlast
        · intro hmode f' skips' hlast'
          cases hnext.symm.trans hlast'
          simp [LoopState.advance, h.stepsSinceFull hmode f skips hlast]
  | false =>
      simp only [Bool.false_eq_true, if_false]
      refine ⟨_, _, rfl, ⟨?_, ?_⟩, ?_, rfl⟩
      · refine (iff_of_false Bool.false_ne_true ?_).trans (hdecides.shouldSkip _ rfl)
        rw [hskip]
        exact Bool.false_ne_true
      · intro hskipped
        cases hskipped
      · have hnext := sinceFull_snoc done (⟨(pipe.scaleModelInput s.pipe s.latents t).1, false,
          v.skipReason, v.relL1Value, (pipe.forward (pipe.scaleModelInput s.pipe s.latents t).2
            (pipe.scaleModelInput s.pipe s.latents t).1 t).1⟩ : StepRecord X N)
        rw [if_neg Bool.false_ne_true] at hnext
        refine ⟨?_, ?_, ?_, ?_, ?_⟩
        · simp [LoopState.advance, h.stepIdx]
        · rw [hnext]
          rfl
        · intro hmode
          rw [hnext]
          simp [LoopState.advance, hmode]
        · intro hmode f' skips' hlast'
          cases hnext.symm.trans hlast'
          simp [LoopState.advance, hmode, accumulated]
        · intro hmode f' skips' hlast'
          cases hnext.symm.trans hlast'
          simp [LoopState.advance, hmode]

/-! ## Runs -/

/-- The variables the loop starts with agree with the empty trace. -/
theorem Tracks.init (pipe : Pipe S T L X N) (c : CacheSettings) (totalSteps : Nat) (start : S)
    (latents : L) (stats : Option DenoiseStats) :
    Tracks pipe.relL1 c ([] : List (StepRecord X N))
      (loop pipe c totalSteps start latents stats).init where
  stepIdx := rfl
  cachedNoisePred := rfl
  lastFullInput := fun _ => rfl
  accumulatedRelL1 := fun _ _ _ hlast => nomatch hlast
  stepsSinceFull := fun _ _ _ hlast => nomatch hlast

section Run

variable {pipe : Pipe S T L X N} {start : S} {latents : L} {stats : Option DenoiseStats}

/-- The loop runs to its end, one record a step. -/
theorem run_tracks (timesteps : List T) :
    ∀ (done : List (StepRecord X N)) (s : LoopState S L X N), Tracks pipe.relL1 c done s →
      ∃ records s', (loop pipe c totalSteps start latents stats).run s timesteps =
          some (records, s') ∧ records.length = timesteps.length ∧
        Tracks pipe.relL1 c (done ++ records) s' ∧
        s'.stats = s.stats.map fun st => records.foldl DenoiseStats.record st := by
  induction timesteps with
  | nil => exact fun done s h => ⟨[], s, rfl, rfl, by simpa using h, by simp⟩
  | cons t timesteps ih =>
      intro done s h
      obtain ⟨r, s₁, hstep, -, htracks, hstats⟩ := step_tracks pipe h totalSteps t
      obtain ⟨records, s', hrun, hlength, htracks', hstats'⟩ := ih (done ++ [r]) s₁ htracks
      refine ⟨r :: records, s', ?_, ?_, ?_, ?_⟩
      · exact Machine.run_cons_eq_some.mpr ⟨[r], s₁, records, hstep, hrun, rfl⟩
      · rw [List.length_cons, List.length_cons, hlength]
      · simpa using htracks'
      · rw [hstats', hstats, Option.map_map]
        rfl

theorem tracks_of_run {timesteps : List T} {records : List (StepRecord X N)}
    {s : LoopState S L X N}
    (hrun : (loop pipe c totalSteps start latents stats).run
      (loop pipe c totalSteps start latents stats).init timesteps = some (records, s)) :
    records.length = timesteps.length ∧ Tracks pipe.relL1 c records s := by
  obtain ⟨records', s', hrun', hlength, htracks, -⟩ :=
    run_tracks timesteps [] _ (Tracks.init pipe c totalSteps start latents stats)
  cases hrun.symm.trans hrun'
  exact ⟨hlength, htracks⟩

/-- A step leaves one record, of the model input of its latents. -/
theorem step_record {s s' : LoopState S L X N} {t : T} {es : List (StepRecord X N)}
    (hstep : step pipe c totalSteps s t = some (es, s')) :
    ∃ r, es = [r] ∧ r.input = (pipe.scaleModelInput s.pipe s.latents t).1 := by
  unfold step at hstep
  dsimp only at hstep
  split at hstep
  · cases hstep
  · split at hstep
    · split at hstep
      · cases hstep
      · cases hstep
        exact ⟨_, rfl, rfl⟩
    · cases hstep
      exact ⟨_, rfl, rfl⟩

/-- The step of a run that left a record, and the state it was taken in. -/
theorem step_of_run {timesteps : List T} {done rest : List (StepRecord X N)}
    {r : StepRecord X N} {s : LoopState S L X N}
    (hrun : (loop pipe c totalSteps start latents stats).run
      (loop pipe c totalSteps start latents stats).init timesteps = some (done ++ r :: rest, s)) :
    ∃ before t after u v, timesteps = before ++ t :: after ∧
      (loop pipe c totalSteps start latents stats).run
        (loop pipe c totalSteps start latents stats).init before = some (done, u) ∧
      step pipe c totalSteps u t = some ([r], v) ∧ Tracks pipe.relL1 c done u ∧
      StepLaw pipe.relL1 c totalSteps done r := by
  obtain ⟨before, t, after, u, v, htimesteps, hpre, hstep, -⟩ :=
    Machine.run_split_event (fun _ _ _ _ h => (step_record h).imp fun _ => And.left) done _ _
      hrun
  have htracks := (tracks_of_run hpre).2
  obtain ⟨r', v', hstep', hlaw, -, -⟩ := step_tracks pipe htracks totalSteps t
  cases hstep.symm.trans hstep'
  exact ⟨before, t, after, u, _, htimesteps, hpre, hstep', htracks, hlaw⟩

end Run

/-! ## What `stats` counts -/

/-- What a run adds to the statistics it is given. -/
structure DenoiseStats.Covers (st₀ st : DenoiseStats) (records : List (StepRecord X N)) :
    Prop where
  fullForwards : st.fullForwards = st₀.fullForwards + records.countP (fun r => !r.skipped)
  skipped : st.skipped = st₀.skipped + records.countP (fun r => r.skipped)
  relL1History : st.relL1History = st₀.relL1History ++ records.map StepRecord.relL1Value
  skipReasons : st.skipReasons = st₀.skipReasons ++ records.map StepRecord.skipReason

theorem DenoiseStats.covers_foldl (records : List (StepRecord X N)) :
    ∀ st : DenoiseStats, st.Covers (records.foldl DenoiseStats.record st) records := by
  induction records with
  | nil => exact fun st => ⟨rfl, rfl, (List.append_nil _).symm, (List.append_nil _).symm⟩
  | cons r records ih =>
      intro st
      obtain ⟨hfull, hskipped, hhistory, hreasons⟩ := ih (st.record r)
      rw [List.foldl_cons]
      refine ⟨?_, ?_, ?_, ?_⟩
      · rw [hfull]
        cases hr : r.skipped with
        | true => simp [DenoiseStats.record, hr]
        | false =>
            simp [DenoiseStats.record, hr]
            omega
      · rw [hskipped]
        cases hr : r.skipped with
        | true =>
            simp [DenoiseStats.record, hr]
            omega
        | false => simp [DenoiseStats.record, hr]
      · rw [hhistory]
        simp [DenoiseStats.record]
      · rw [hreasons]
        simp [DenoiseStats.record]

/-- What a run adds is one entry a step. -/
theorem DenoiseStats.Covers.count {st₀ st : DenoiseStats} {records : List (StepRecord X N)}
    (h : st₀.Covers st records) :
    st.fullForwards + st.skipped = st₀.fullForwards + st₀.skipped + records.length ∧
      st.relL1History.length = st₀.relL1History.length + records.length ∧
      st.skipReasons.length = st₀.skipReasons.length + records.length := by
  have hsplit := List.length_eq_countP_add_countP (fun r : StepRecord X N => r.skipped) (l := records)
  have hother : records.countP (fun r => !r.skipped)
      = records.countP fun r => decide (¬ (r.skipped = true)) := by
    apply List.countP_congr
    intro r _
    simp
  refine ⟨?_, ?_, ?_⟩
  · rw [h.fullForwards, h.skipped, hother]
    omega
  · rw [h.relL1History, List.length_append, List.length_map]
  · rw [h.skipReasons, List.length_append, List.length_map]

/-- The trace law of the cache gate.  Whatever the pipe computes and however the cache is
set, the loop runs to its end and leaves one record a step; every step is skipped exactly
when the law says so, and then uses the prediction of the last full step; and fresh
statistics count every step once, in each of their histories too. -/
theorem denoise_trace_law (pipe : Pipe S T L X N) (c : CacheSettings) (start : S)
    (latents : L) (stats : Option DenoiseStats) (timesteps : List T) :
    ∃ records s, (loop pipe c timesteps.length start latents stats).run
        (loop pipe c timesteps.length start latents stats).init timesteps = some (records, s) ∧
      records.length = timesteps.length ∧
      (∀ done r rest, records = done ++ r :: rest →
        StepLaw pipe.relL1 c timesteps.length done r) ∧
      (∀ st₀, stats = some st₀ → ∃ st, s.stats = some st ∧ st₀.Covers st records) ∧
      (stats = some .new → ∃ st, s.stats = some st ∧
        st.fullForwards + st.skipped = timesteps.length ∧
        st.relL1History.length = timesteps.length ∧
        st.skipReasons.length = timesteps.length) := by
  obtain ⟨records, s, hrun, hlength, -, hstats⟩ := run_tracks timesteps []
    _ (Tracks.init pipe c timesteps.length start latents stats)
  have hcovers : ∀ st₀, stats = some st₀ → ∃ st, s.stats = some st ∧ st₀.Covers st records := by
    rintro st₀ rfl
    exact ⟨_, hstats, DenoiseStats.covers_foldl records st₀⟩
  refine ⟨records, s, hrun, hlength, ?_, hcovers, ?_⟩
  · rintro done r rest rfl
    obtain ⟨-, -, -, -, -, -, -, -, -, hlaw⟩ := step_of_run hrun
    exact hlaw
  · intro hnew
    obtain ⟨st, hst, hcover⟩ := hcovers .new hnew
    obtain ⟨hcount, hhistory, hreasons⟩ := hcover.count
    rw [hlength] at hcount hhistory hreasons
    exact ⟨st, hst, by simpa [DenoiseStats.new] using hcount,
      by simpa [DenoiseStats.new] using hhistory, by simpa [DenoiseStats.new] using hreasons⟩

end Repercep.Denoise
