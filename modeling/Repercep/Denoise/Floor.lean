import Repercep.Denoise.Trace
set_option autoImplicit false

/-!
# Denoising: the forced full forward

`cache_force_full_every = N` is to force a full forward at least every `N` steps.  The
counter it is compared with counts the steps skipped since the last full one, so the
floor lets `N` of them through: two full steps can be `N + 1` apart.
-/

namespace Repercep.Denoise

open Repercep.Foundation

variable {S T L X N : Type}

/-- Two full steps without a full one between them are at most `n` apart. -/
def FullWithin (n : Int) (records : List (StepRecord X N)) : Prop :=
  ∀ pre f skips g post, records = pre ++ f :: (skips ++ g :: post) → f.skipped = false →
    g.skipped = false → (∀ r ∈ skips, r.skipped = true) → (skips.length : Int) + 1 ≤ n

/-- A step before which all but one of the `N` steps of the floor have been skipped is full
for another reason: the warm-up, the end, no prediction to reuse, or the distance. -/
def FloorIdle (pipe : Pipe S T L X N) (c : CacheSettings) (totalSteps : Nat)
    (s : LoopState S L X N) (t : T) : Prop :=
  s.stepsSinceFull + 1 = c.forceFullEvery →
    s.stepIdx < c.warmupSteps ∨ s.stepIdx + 1 = totalSteps ∨ s.cachedNoisePred = none ∨
      ∀ lastFullInput, s.lastFullInput = some lastFullInput →
        ¬ s.accumulatedRelL1 + pipe.relL1 (pipe.scaleModelInput s.pipe s.latents t).1
            lastFullInput < c.adaptiveThreshold

theorem effectiveMode_adaptive {c : CacheSettings} (hmode : c.mode = .adaptive) :
    c.effectiveMode = .adaptive := by
  simp [CacheSettings.effectiveMode, hmode]

/-- A step records the model input of its latents. -/
theorem step_input {pipe : Pipe S T L X N} {c : CacheSettings} {totalSteps : Nat}
    {s s' : LoopState S L X N} {t : T} {r : StepRecord X N}
    (hstep : step pipe c totalSteps s t = some ([r], s')) :
    r.input = (pipe.scaleModelInput s.pipe s.latents t).1 := by
  obtain ⟨r', hrecord, hinput⟩ := step_record hstep
  cases hrecord
  exact hinput

/-- One step short of the floor, the condition is that the step is full. -/
theorem floorIdle_iff {pipe : Pipe S T L X N} {c : CacheSettings} {totalSteps : Nat}
    {done : List (StepRecord X N)} {s : LoopState S L X N} {t : T} {r : StepRecord X N}
    (hmode : c.effectiveMode = .adaptive) (htracks : Tracks pipe.relL1 c done s)
    (hlaw : StepLaw pipe.relL1 c totalSteps done r)
    (hinput : r.input = (pipe.scaleModelInput s.pipe s.latents t).1)
    (hcounter : (s.stepsSinceFull : Int) + 1 = c.forceFullEvery) :
    FloorIdle pipe c totalSteps s t ↔ r.skipped = false := by
  rw [← Bool.not_eq_true, hlaw.skipped]
  simp only [Skips, hmode]
  rw [FloorIdle, htracks.stepIdx, ← hinput]
  constructor
  · rintro hidle ⟨f, skips, hlast, hwarmup, hnotlast, -, hbelow⟩
    rw [accumulated_snoc, ← htracks.accumulatedRelL1 hmode f skips hlast] at hbelow
    rcases hidle hcounter with hin | hend | hnone | habove
    · omega
    · exact hnotlast hend
    · rw [htracks.cached_none_iff, hlast] at hnone
      cases hnone
    · refine habove f.input ?_ hbelow
      rw [htracks.lastFullInput hmode, hlast]
      rfl
  · intro hnot _
    by_contra hall
    simp only [not_or, not_forall, not_not] at hall
    obtain ⟨hwarmup, hnotlast, hcached, lastFullInput, hlastInput, hbelow⟩ := hall
    obtain ⟨⟨f, skips⟩, hlast⟩ : ∃ p, sinceFull done = some p :=
      Option.ne_none_iff_exists'.mp (mt htracks.cached_none_iff.mpr hcached)
    have hsince := htracks.stepsSinceFull hmode f skips hlast
    have hsame := htracks.lastFullInput hmode
    rw [hlast, Option.map_some, hlastInput] at hsame
    cases hsame
    apply hnot
    refine ⟨f, skips, hlast, by omega, hnotlast, .inr (by omega), ?_⟩
    rwa [accumulated_snoc, ← htracks.accumulatedRelL1 hmode f skips hlast]

section Run

variable {pipe : Pipe S T L X N} {c : CacheSettings} {start : S} {latents : L}
  {stats : Option DenoiseStats} {timesteps : List T} {records : List (StepRecord X N)}
  {s : LoopState S L X N}

/-- After a skipped step another full one comes: the last step of the loop is full. -/
theorem full_after_skipped (hmode : c.effectiveMode = .adaptive)
    (hrun : (loop pipe c timesteps.length start latents stats).run
      (loop pipe c timesteps.length start latents stats).init timesteps = some (records, s))
    {done rest : List (StepRecord X N)} {r : StepRecord X N}
    (hsplit : records = done ++ r :: rest) (hskipped : r.skipped = true) :
    ∃ more g post, rest = more ++ g :: post ∧ g.skipped = false ∧
      ∀ r ∈ more, r.skipped = true := by
  have hlength := (tracks_of_run hrun).1
  -- the last record
  obtain ⟨front, g, hfront⟩ : ∃ front g, r :: rest = front ++ [g] := by
    rcases List.eq_nil_or_concat' (r :: rest) with hnil | ⟨front, g, hlast⟩
    · cases hnil
    · exact ⟨front, g, hlast⟩
  have hend : g.skipped = false := by
    have hlast : records = (done ++ front) ++ g :: [] := by
      rw [hsplit, hfront, List.append_assoc]
    rw [hlast] at hrun hlength
    obtain ⟨-, -, -, -, -, -, -, -, -, hlaw⟩ := step_of_run hrun
    rw [← Bool.not_eq_true, hlaw.skipped]
    simp only [Skips, hmode]
    rintro ⟨f, skips, -, -, hnotlast, -⟩
    rw [List.length_append, List.length_singleton] at hlength
    exact hnotlast hlength
  have hmem : g ∈ rest := by
    have hin : g ∈ r :: rest := hfront ▸ List.mem_append_right _ (List.mem_singleton_self g)
    rcases List.mem_cons.mp hin with rfl | hin
    · cases hskipped.symm.trans hend
    · exact hin
  -- the first full one after the step
  cases hfind : rest.find? fun r => !r.skipped with
  | none =>
      have hnone := List.find?_eq_none.mp hfind g hmem
      simp [hend] at hnone
  | some g' =>
      obtain ⟨hfull, more, post, hrest, hmore⟩ := List.find?_eq_some_iff_append.mp hfind
      exact ⟨more, g', post, hrest, by simpa using hfull, by simpa using hmore⟩

/-- Full steps are close where a step that finds all but one of `n` skipped is full. -/
theorem fullWithin_of_full {n : Int} (hn : 0 < n) {records : List (StepRecord X N)}
    (h : ∀ done r rest f skips, records = done ++ r :: rest → sinceFull done = some (f, skips) →
      (skips.length : Int) + 1 = n → r.skipped = false) : FullWithin n records := by
  intro pre f skips g post hsplit hf _ hall
  by_contra hfar
  -- the step before which all but one have been skipped
  have hlong : n.toNat - 1 < skips.length := by omega
  obtain ⟨skips₁, r, skips₂, rfl, hlength⟩ : ∃ skips₁ r skips₂,
      skips = skips₁ ++ r :: skips₂ ∧ skips₁.length = n.toNat - 1 :=
    ⟨skips.take (n.toNat - 1), skips[n.toNat - 1], skips.drop (n.toNat - 1 + 1),
      by simp, by simp; omega⟩
  have hlast : sinceFull (pre ++ f :: skips₁) = some (f, skips₁) :=
    sinceFull_eq_some.mpr ⟨hf, fun r' hr' => hall r' (List.mem_append_left _ hr'), pre, rfl⟩
  have hfull := h _ r (skips₂ ++ g :: post) f skips₁ (by simp [hsplit]) hlast (by omega)
  cases (hall r (List.mem_append_right _ List.mem_cons_self)).symm.trans hfull

/-- In a whole run where full steps are close, a step that finds all but one of `n` skipped
is full. -/
theorem full_of_fullWithin (hmode : c.effectiveMode = .adaptive)
    (hrun : (loop pipe c timesteps.length start latents stats).run
      (loop pipe c timesteps.length start latents stats).init timesteps = some (records, s))
    {n : Int} (hwithin : FullWithin n records) {done rest : List (StepRecord X N)}
    {r : StepRecord X N} (hsplit : records = done ++ r :: rest) {f : StepRecord X N}
    {skips : List (StepRecord X N)} (hlast : sinceFull done = some (f, skips))
    (hn : (skips.length : Int) + 1 = n) : r.skipped = false := by
  cases hskipped : r.skipped with
  | false => rfl
  | true =>
      obtain ⟨more, g, post, rfl, hg, hmore⟩ := full_after_skipped hmode hrun hsplit hskipped
      obtain ⟨hf, hall, pre, rfl⟩ := sinceFull_eq_some.mp hlast
      have hbetween : ∀ r' ∈ skips ++ r :: more, r'.skipped = true := by
        intro r' hr'
        rcases List.mem_append.mp hr' with hr' | hr'
        · exact hall r' hr'
        · rcases List.mem_cons.mp hr' with rfl | hr'
          · exact hskipped
          · exact hmore r' hr'
      have hapart := hwithin pre f (skips ++ r :: more) g post (by simp [hsplit]) hf hg hbetween
      rw [List.length_append, List.length_cons] at hapart
      omega

/-- Two consecutive full steps of a run are at most `N` apart exactly if no step of it that
finds `N - 1` steps skipped is skipped too. -/
theorem forced_full_iff (pipe : Pipe S T L X N) {c : CacheSettings} (start : S) (latents : L)
    (stats : Option DenoiseStats) (timesteps : List T) (hmode : c.mode = .adaptive)
    (hfloor : 0 < c.forceFullEvery) :
    (∃ records s, (loop pipe c timesteps.length start latents stats).run
        (loop pipe c timesteps.length start latents stats).init timesteps = some (records, s) ∧
      FullWithin c.forceFullEvery records) ↔
    (loop pipe c timesteps.length start latents stats).Meets
      (FloorIdle pipe c timesteps.length)
      (loop pipe c timesteps.length start latents stats).init timesteps := by
  have heffective := effectiveMode_adaptive hmode
  constructor
  · rintro ⟨records, s, hrun, hwithin⟩
    apply Machine.along_iff_split.mpr
    intro before t after done u es v htimesteps hpre hstep hcounter
    have htracks := (tracks_of_run hpre).2
    obtain ⟨r, u', hstep', hlaw, -, -⟩ := step_tracks pipe htracks timesteps.length t
    cases hstep.symm.trans hstep'
    have hwhole : (loop pipe c timesteps.length start latents stats).run
        (loop pipe c timesteps.length start latents stats).init (before ++ t :: after) =
          some (records, s) := by
      rw [← htimesteps]
      exact hrun
    obtain ⟨rest, -, hrecords⟩ := Machine.run_rest hwhole hpre hstep
    refine (floorIdle_iff heffective htracks hlaw (step_input hstep) hcounter).mpr ?_ hcounter
    rw [← Bool.not_eq_true]
    intro hskipped
    have hskips := hlaw.skipped.mp hskipped
    simp only [Skips, heffective] at hskips
    obtain ⟨f, skips, hlast, -⟩ := hskips
    have hsince := htracks.stepsSinceFull heffective f skips hlast
    have hfull := full_of_fullWithin heffective hrun hwithin hrecords hlast (by omega)
    cases hskipped.symm.trans hfull
  · intro hmeets
    obtain ⟨records, s, hrun, -, -, -⟩ := run_tracks timesteps []
      _ (Tracks.init pipe c timesteps.length start latents stats)
    refine ⟨records, s, hrun, fullWithin_of_full hfloor ?_⟩
    intro done r rest f skips hrecords hlast hlength
    rw [hrecords] at hrun
    obtain ⟨before, t, after, u, v, htimesteps, hpre, hstep, htracks, hlaw⟩ := step_of_run hrun
    have hsince := htracks.stepsSinceFull heffective f skips hlast
    have hidle := Machine.along_iff_split.mp hmeets before t after _ u _ v htimesteps hpre hstep
    exact (floorIdle_iff heffective htracks hlaw (step_input hstep) (by omega)).mp hidle

end Run

/-- A pipe whose model inputs do not change. -/
def stillPipe : Pipe Unit Unit Unit Unit Unit where
  scaleModelInput := fun _ _ _ => ((), ())
  forward := fun _ _ _ => ((), ())
  relL1 := fun _ _ => 0.0
  advance := fun _ _ _ _ => ((), ())

/-- A full forward at least every `n` steps. -/
def everySettings (n : Int) : CacheSettings where
  mode := .adaptive
  skipEvery := 1
  warmupSteps := 0
  adaptiveThreshold := 0.5
  forceFullEvery := n

/-- With a full forward asked for at every step, the second of four is skipped. -/
theorem forced_full_late :
    ¬ ∀ records s, (loop stillPipe (everySettings 1) 4 () () none).run
        (loop stillPipe (everySettings 1) 4 () () none).init [(), (), (), ()] =
          some (records, s) →
      FullWithin (everySettings 1).forceFullEvery records := by
  intro hall
  obtain ⟨⟨records, s⟩, hrun⟩ : ∃ p, (loop stillPipe (everySettings 1) 4 () () none).run
      (loop stillPipe (everySettings 1) 4 () () none).init [(), (), (), ()] = some p :=
    ⟨_, rfl⟩
  have hwithin := hall records s hrun
  cases hrun
  have hapart := hwithin [] _ [_] _ [_] rfl rfl rfl (by simp)
  exact absurd hapart (by decide)

/-- A pipe whose model inputs move by the same distance at every step. -/
def driftPipe : Pipe Unit Unit Unit Unit Unit where
  scaleModelInput := fun _ _ _ => ((), ())
  forward := fun _ _ _ => ((), ())
  relL1 := fun _ _ => 0.2
  advance := fun _ _ _ _ => ((), ())

/-- A floor of three is kept in a run of six steps: the fourth finds two steps skipped, and the
accumulated distance crosses the threshold there. -/
theorem forced_full_kept :
    ∃ records s, (loop driftPipe (everySettings 3) 6 () () none).run
        (loop driftPipe (everySettings 3) 6 () () none).init [(), (), (), (), (), ()] =
          some (records, s) ∧
      FullWithin (everySettings 3).forceFullEvery records := by
  apply (forced_full_iff driftPipe () () none [(), (), (), (), (), ()] rfl (by decide)).mpr
  refine (Machine.meets_cons rfl).mpr ⟨fun h => absurd h (by decide), ?_⟩
  refine (Machine.meets_cons rfl).mpr ⟨fun h => absurd h (by decide), ?_⟩
  refine (Machine.meets_cons rfl).mpr ⟨fun h => absurd h (by decide), ?_⟩
  refine (Machine.meets_cons rfl).mpr ⟨fun _ => .inr (.inr (.inr fun _ _ => ?_)), ?_⟩
  · change ¬ (0.0 : Float) + 0.2 + 0.2 + 0.2 < 0.5
    decide
  refine (Machine.meets_cons rfl).mpr ⟨fun h => absurd h (by decide), ?_⟩
  refine (Machine.meets_cons rfl).mpr ⟨fun h => absurd h (by decide), ?_⟩
  trivial

end Repercep.Denoise
