import Mathlib
import Repercep.Models.LingBotVA
set_option autoImplicit false

/-!
# LingBot-VA: sessions do not see each other

The caches are named and the rest is kept by session, so that only the schedulers are
shared; every call sets them to the same tables before it reads them.  Whatever the sessions
do, in whatever order, each gets what it gets alone.
-/

namespace Repercep.Models.LingBotVA

open Repercep.Foundation

variable {R K X : Type} [Field R] [Inhabited R]
variable {parts : Parts R K X} {task : Task R} {config : LingBotVAConfig}

/-- The call reads the tables of the schedulers. -/
def Pc.readsTable : Pc R → Bool
  | .scheduled _ _ _ | .denoisingVideo _ _ _ _ | .denoisingActions _ _ _ _ => true
  | _ => false

/-- The tables every call sets. -/
def configured (parts : Parts R K X) (config : LingBotVAConfig) (mode : Mode) : List R :=
  parts.timesteps mode (config.steps mode)

namespace Session

variable {s : Session R K} {table table' : Mode → List R} {a : Action R}

/-- A session reads the tables only where its call has set them. -/
theorem act_congr (htable : s.pc.readsTable = true → table = table') :
    s.act parts task config table a = s.act parts task config table' a := by
  cases a with
  | advance =>
      cases hpc : s.pc with
      | scheduled | denoisingVideo | denoisingActions =>
          rw [hpc] at htable
          rw [htable rfl]
      | pushingVideo | pushingActions =>
          unfold act advance
          rw [hpc]
          cases s.prompt <;> rfl
      | _ =>
          unfold act advance
          rw [hpc]
  | _ => rfl

/-- A session that reads the tables after a step has just set them, or has read them
before. -/
theorem Does.readsTable {es : List (Outcome R)} {s' : Session R K}
    (h : Does parts task config table s a es (some s')) (hreads : s'.pc.readsTable = true) :
    (∃ latents actions, a = .draw latents actions) ∨ s.pc.readsTable = true := by
  cases h with
  | drawn => exact Or.inl ⟨_, _, rfl⟩
  | parked => exact Or.inr hreads
  | scheduled hpc | videoPass hpc | videoDone hpc | actionPass hpc =>
      rw [hpc]
      exact Or.inr rfl
  | failed _ hpc _ =>
      rw [hpc] at hreads
      cases hreads
  | _ => cases hreads

end Session

namespace Engine

variable {s t s' : Engine R K} {label : Label R} {es : List (Event R)} {id : SessionId}

/-- A session is in both engines alike, and where its call reads the tables, both have those
every call sets. -/
structure Agrees (parts : Parts R K X) (config : LingBotVAConfig) (id : SessionId)
    (s t : Engine R K) : Prop where
  session : t.sessions id = s.sessions id
  issued : t.issued id = s.issued id
  tables : ∀ session, s.sessions id = some session → session.pc.readsTable = true →
    s.table = configured parts config ∧ t.table = configured parts config

omit [Field R] [Inhabited R] in
/-- Tables that are what every call sets stay so. -/
theorem tableAfter_configured (htable : s.table = configured parts config) (a : Action R) :
    s.tableAfter parts config a = configured parts config := by
  cases a with
  | draw => rfl
  | _ => exact htable

/-- A step of another session. -/
theorem Agrees.other (hagrees : Agrees parts config id s t) (hne : label.session ≠ id)
    (hstep : s.step parts task config label = some (es, s')) :
    (∀ e ∈ es, decide (e.session = id) = false) ∧ Agrees parts config id s' t := by
  have hothers : ∀ u : Option (Session R K),
      Function.update s.sessions label.session u id = s.sessions id := fun u =>
    Function.update_of_ne (Ne.symm hne) ..
  rcases step_cases hstep with ⟨-, -, -, rfl, rfl⟩ | ⟨outcomes, -, -, rfl, rfl⟩ |
    ⟨session, outcomes, after, -, -, rfl, rfl⟩
  · refine ⟨fun e he => ?_, hagrees.session.trans (hothers _).symm, ?_, fun mine hmine => ?_⟩
    · rw [List.mem_singleton.mp he]
      exact decide_eq_false hne
    · exact hagrees.issued.trans (Function.update_of_ne (Ne.symm hne) ..).symm
    · exact hagrees.tables mine ((hothers _).symm.trans hmine)
  · refine ⟨fun e he => ?_, hagrees⟩
    obtain ⟨outcome, -, rfl⟩ := List.mem_map.mp he
    exact decide_eq_false hne
  · refine ⟨fun e he => ?_, hagrees.session.trans (hothers _).symm, hagrees.issued,
      fun mine hmine hreads => ?_⟩
    · obtain ⟨outcome, -, rfl⟩ := List.mem_map.mp he
      exact decide_eq_false hne
    · obtain ⟨hs, ht⟩ := hagrees.tables mine ((hothers _).symm.trans hmine) hreads
      exact ⟨tableAfter_configured hs label.action, ht⟩

/-- A step of the session itself. -/
theorem Agrees.mine (hagrees : Agrees parts config id s t) (hid : label.session = id)
    (hstep : s.step parts task config label = some (es, s')) :
    (∀ e ∈ es, decide (e.session = id) = true) ∧
      ∃ t', t.step parts task config label = some (es, t') ∧ Agrees parts config id s' t' := by
  subst hid
  rcases step_cases hstep with
    ⟨hnone, hreset, hissued, rfl, rfl⟩ | ⟨outcomes, hnone, hunknown, rfl, rfl⟩ |
    ⟨session, outcomes, after, hsession, hact, rfl, rfl⟩
  · refine ⟨fun e he => ?_, t.opened parts config label.session, ?_, ?_, ?_,
      fun mine hmine hreads => ?_⟩
    · rw [List.mem_singleton.mp he]
      exact decide_eq_true rfl
    · exact step_of_none (hagrees.session.trans hnone) hreset (hagrees.issued.trans hissued)
    · simp [opened, setSession]
    · simp [opened, setSession]
    · simp only [opened, setSession, Function.update_self, Option.some.injEq] at hmine
      subst hmine
      cases hreads
  · refine ⟨fun e he => ?_, t, step_of_unknown (hagrees.session.trans hnone) hunknown, hagrees⟩
    obtain ⟨outcome, -, rfl⟩ := List.mem_map.mp he
    exact decide_eq_true rfl
  · -- the tables are only looked at where they are the same
    have hact' : session.act parts task config t.table label.action = some (outcomes, after) := by
      rw [← hact]
      refine (Session.act_congr fun hreads => ?_).symm
      obtain ⟨hs, ht⟩ := hagrees.tables session hsession hreads
      rw [hs, ht]
    refine ⟨fun e he => ?_, t.acted parts config label after, ?_, ?_, hagrees.issued,
      fun mine hmine hreads => ?_⟩
    · obtain ⟨outcome, -, rfl⟩ := List.mem_map.mp he
      exact decide_eq_true rfl
    · exact step_of_some (hagrees.session.trans hsession) hact'
    · simp [acted, setSession]
    · simp only [acted, setSession, Function.update_self] at hmine
      subst hmine
      rcases (Session.act_does hact).readsTable hreads with ⟨latents, actions, ha⟩ | hbefore
      · simp only [acted, ha, tableAfter]
        exact ⟨rfl, rfl⟩
      · obtain ⟨hs, ht⟩ := hagrees.tables session hsession hbefore
        exact ⟨tableAfter_configured hs label.action, tableAfter_configured ht label.action⟩

end Engine

/-- Whatever the sessions do, in whatever order: each sees of the engine what it sees when
its calls are made alone, on an engine whose schedulers may have been left with any
tables. -/
theorem sessions_separate (table table' : Mode → List R) {labels : List (Label R)}
    {log : List (Event R)} {s : Engine R K}
    (hrun : (lingBotVA parts task config table).run (lingBotVA parts task config table).init
      labels = some (log, s)) (id : SessionId) :
    ∃ t, (lingBotVA parts task config table').run (lingBotVA parts task config table').init
      (labels.filter fun label => label.session = id) =
        some (log.filter fun e => e.session = id, t) ∧ t.sessions id = s.sessions id := by
  have hagrees : Engine.Agrees parts config id (lingBotVA parts task config table).init
      (lingBotVA parts task config table').init := ⟨rfl, rfl, fun _ hnone _ => by cases hnone⟩
  obtain ⟨t, hown, hafter⟩ := Machine.run_project (M := lingBotVA parts task config table)
    (N := lingBotVA parts task config table') (C := fun _ _ => True)
    (R := Engine.Agrees parts config id)
    (fun s t label es s' hR _ hid hstep => hR.mine (of_decide_eq_true hid) hstep)
    (fun s t label es s' hR _ hid hstep => hR.other (of_decide_eq_false hid) hstep)
    labels _ _ log s hagrees (Machine.meets_of_forall fun _ _ _ => trivial) hrun
  exact ⟨t, hown, hafter.session⟩

/-- A transformer that counts its calls, with schedulers of one step. -/
def countingParts : Parts ℚ Nat Nat where
  createEmptyCache := 0
  clearPredCache := id
  forward cache _ _ _ := (cache, cache + 1)
  timesteps _ n := List.replicate n 1
  denoise _ _ _ _ latents := latents

/-- A task whose actions have one channel. -/
def oneChannel : Task ℚ := ⟨fun _ => 0, fun _ => 1, [0]⟩

/-- A configuration of one frame in a chunk, and one pass of each kind. -/
def oneFrame : LingBotVAConfig where
  prompt := some "open the drawer"
  frameChunkSize := 1
  actionDim := 1
  usedActionDim := some 1
  actionPerFrame := 1
  numInferenceSteps := 1
  actionNumInferenceSteps := 1

/-- The latent of an observation of one pixel. -/
def onePixel : Tensor ℚ := ⟨[1, 1, 1, 1, 1], [1], rfl⟩

/-- The second session opens and draws its noise between the first one's passes. -/
def twoPlans : List (Label ℚ) :=
  [⟨⟨0⟩, .reset⟩, ⟨⟨0⟩, .encoded onePixel⟩, ⟨⟨1⟩, .reset⟩, ⟨⟨0⟩, .plan⟩,
    ⟨⟨0⟩, .draw onePixel onePixel⟩, ⟨⟨1⟩, .encoded onePixel⟩, ⟨⟨0⟩, .advance⟩, ⟨⟨1⟩, .plan⟩,
    ⟨⟨1⟩, .draw onePixel onePixel⟩, ⟨⟨0⟩, .advance⟩, ⟨⟨1⟩, .advance⟩, ⟨⟨0⟩, .advance⟩,
    ⟨⟨0⟩, .advance⟩, ⟨⟨0⟩, .advance⟩]

theorem twoPlans_separate :
    ∃ log s t,
      (lingBotVA countingParts oneChannel oneFrame fun _ => []).run
        (lingBotVA countingParts oneChannel oneFrame fun _ => []).init twoPlans =
          some (log, s) ∧
      (lingBotVA countingParts oneChannel oneFrame fun _ => [2]).run
        (lingBotVA countingParts oneChannel oneFrame fun _ => [2]).init
        (twoPlans.filter fun label => label.session = ⟨0⟩) =
          some (log.filter fun e => e.session = ⟨0⟩, t) ∧
      t.sessions ⟨0⟩ = s.sessions ⟨0⟩ := by
  have hruns : ((lingBotVA countingParts oneChannel oneFrame fun _ => []).run
      (lingBotVA countingParts oneChannel oneFrame fun _ => []).init twoPlans).isSome = true := by
    decide
  obtain ⟨⟨log, s⟩, hrun⟩ := Option.isSome_iff_exists.mp hruns
  obtain ⟨t, hown, hsame⟩ := sessions_separate (fun _ => []) (fun _ => [2]) hrun ⟨0⟩
  exact ⟨log, s, t, hrun, hown, hsame⟩

end Repercep.Models.LingBotVA
