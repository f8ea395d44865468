import Repercep.Serving.WorldSession
set_option autoImplicit false

/-!
# World sessions: what the pipeline still holds

A handler can release only a session it knows of, and it learns the id when `reset`
returns.  If `encode_observation` raises, the pipeline session is open and its id is
lost.  Nothing else leaks: every other pipeline session is some handler's until it is
closed.
-/

namespace Repercep.Serving

open Repercep.Foundation

variable {C : Type}

/-- The pipeline session a handler, or the `reset` it awaits, knows of. -/
def Handler.session (h : Handler C) : Option SessionId :=
  match h.phase with
  | .encoding id => some id
  | _ => h.openedState.map WorldState.sessionId

/-- Before `reset` has returned. -/
def Phase.early : Phase → Bool
  | .accepting | .refusing | .awaitReset | .rejecting | .opening | .encoding _ => true
  | _ => false

/-- No id is known to two handlers, and all have been minted. -/
structure Distinct (minted : Nat) (handlers : List (Handler C)) : Prop where
  unopened : ∀ (i : Nat) (h : Handler C), handlers[i]? = some h → h.phase.early = true →
    h.openedState = none
  minted : ∀ (i : Nat) (h : Handler C) (id : SessionId), handlers[i]? = some h →
    h.session = some id → id.val < minted
  distinct : ∀ (i j : Nat) (h g : Handler C) (id : SessionId), handlers[i]? = some h →
    handlers[j]? = some g → h.session = some id → g.session = some id → i = j

namespace Distinct

variable {minted : Nat} {handlers : List (Handler C)}

/-- A handler that learns no id. -/
theorem goto (hs : Distinct minted handlers) {i : Nat} {h h' : Handler C}
    (hhandler : handlers[i]? = some h)
    (hunopened : h'.phase.early = true → h'.openedState = none)
    (hsession : ∀ id, h'.session = some id → h.session = some id) :
    Distinct minted (handlers.set i h') where
  unopened := by
    intro j g hg hearly
    rcases getElem?_set_cases hhandler hg with ⟨-, rfl⟩ | ⟨-, hold⟩
    · exact hunopened hearly
    · exact hs.unopened j g hold hearly
  minted := by
    intro j g id hg hid
    rcases getElem?_set_cases hhandler hg with ⟨-, rfl⟩ | ⟨-, hold⟩
    · exact hs.minted i h id hhandler (hsession id hid)
    · exact hs.minted j g id hold hid
  distinct := by
    intro j k g g' id hg hg' hid hid'
    rcases getElem?_set_cases hhandler hg with ⟨rfl, rfl⟩ | ⟨-, hold⟩
    · rcases getElem?_set_cases hhandler hg' with ⟨rfl, -⟩ | ⟨-, hold'⟩
      · rfl
      · exact hs.distinct i k h g' id hhandler hold' (hsession id hid) hid'
    · rcases getElem?_set_cases hhandler hg' with ⟨rfl, rfl⟩ | ⟨-, hold'⟩
      · exact hs.distinct j i g h id hold hhandler hid (hsession id hid')
      · exact hs.distinct j k g g' id hold hold' hid hid'

/-- A handler whose `reset` opens a session. -/
theorem openSession (hs : Distinct minted handlers) {i : Nat}
    (hhandler : handlers[i]? = some ⟨.opening, none⟩) :
    Distinct (minted + 1) (handlers.set i ⟨.encoding ⟨minted⟩, none⟩) where
  unopened := by
    intro j g hg hearly
    rcases getElem?_set_cases hhandler hg with ⟨-, rfl⟩ | ⟨-, hold⟩
    · rfl
    · exact hs.unopened j g hold hearly
  minted := by
    intro j g id hg hid
    rcases getElem?_set_cases hhandler hg with ⟨-, rfl⟩ | ⟨-, hold⟩
    · cases hid
      exact Nat.lt_succ_self minted
    · exact Nat.lt_succ_of_lt (hs.minted j g id hold hid)
  distinct := by
    intro j k g g' id hg hg' hid hid'
    have hfresh : ∀ l (f : Handler C), handlers[l]? = some f → f.session ≠ some ⟨minted⟩ :=
      fun l f hf hsome => lt_irrefl minted (hs.minted l f _ hf hsome)
    rcases getElem?_set_cases hhandler hg with ⟨rfl, rfl⟩ | ⟨-, hold⟩
    · cases hid
      rcases getElem?_set_cases hhandler hg' with ⟨rfl, -⟩ | ⟨-, hold'⟩
      · rfl
      · exact absurd hid' (hfresh k g' hold')
    · rcases getElem?_set_cases hhandler hg' with ⟨rfl, rfl⟩ | ⟨-, hold'⟩
      · cases hid'
        exact absurd hid (hfresh j g hold)
      · exact hs.distinct j k g g' id hold hold' hid hid'

theorem connect (hs : Distinct minted handlers) :
    Distinct minted (handlers ++ [⟨.accepting, none⟩]) where
  unopened := by
    intro i h hh hearly
    rcases getElem?_append_cases hh with hold | ⟨-, rfl⟩
    · exact hs.unopened i h hold hearly
    · rfl
  minted := by
    intro i h id hh hid
    rcases getElem?_append_cases hh with hold | ⟨-, rfl⟩
    · exact hs.minted i h id hold hid
    · cases hid
  distinct := by
    intro i j h g id hh hg hid hid'
    rcases getElem?_append_cases hh with hold | ⟨-, rfl⟩
    · rcases getElem?_append_cases hg with hold' | ⟨-, rfl⟩
      · exact hs.distinct i j h g id hold hold' hid hid'
      · cases hid'
    · cases hid

end Distinct

/-- Every pipeline session is known to a handler that has yet to exit. -/
def Held (pipeline : Finset SessionId) (handlers : List (Handler C)) : Prop :=
  ∀ id ∈ pipeline, ∃ (i : Nat) (h : Handler C),
    handlers[i]? = some h ∧ h.session = some id ∧ h.phase ≠ .exited

/-- Some pipeline session is known to nobody. -/
def Leaked (e : Engine) (handlers : List (Handler C)) : Prop :=
  ∃ id ∈ e.pipeline, id.val < e.minted ∧
    ∀ (i : Nat) (h : Handler C), handlers[i]? = some h → h.session ≠ some id

/-- A handler that keeps what it knows of, or knows of nothing the pipeline holds. -/
theorem Held.goto {pipeline : Finset SessionId} {handlers : List (Handler C)}
    (hs : Held pipeline handlers) {i : Nat} {h h' : Handler C} (hhandler : handlers[i]? = some h)
    (hkeeps : ∀ id ∈ pipeline, h.session = some id → h'.session = some id ∧ h'.phase ≠ .exited) :
    Held pipeline (handlers.set i h') := by
  intro id hid
  obtain ⟨j, g, hg, hsession, hphase⟩ := hs id hid
  by_cases hij : i = j
  · subst hij
    have hgh : g = h := Option.some.inj (hg.symm.trans hhandler)
    subst hgh
    obtain ⟨hsession', hphase'⟩ := hkeeps id hid hsession
    exact ⟨i, h', by rw [getElem?_set_of_some hhandler, if_pos rfl], hsession', hphase'⟩
  · exact ⟨j, g, by rw [getElem?_set_of_some hhandler, if_neg hij, hg], hsession, hphase⟩

/-- What nobody knows of stays where it is. -/
theorem Leaked.goto {e e' : Engine} {handlers : List (Handler C)} (hs : Leaked e handlers)
    {i : Nat} {h h' : Handler C} (hhandler : handlers[i]? = some h)
    (hminted : e.minted ≤ e'.minted)
    (hpipeline : ∀ id ∈ e.pipeline, h.session ≠ some id → id ∈ e'.pipeline)
    (hsession : ∀ id, id.val < e.minted → h'.session = some id → h.session = some id) :
    Leaked e' (handlers.set i h') := by
  obtain ⟨id, hid, hlt, hunknown⟩ := hs
  refine ⟨id, hpipeline id hid (hunknown i h hhandler), hlt.trans_le hminted, ?_⟩
  intro j g hg hknown
  rcases getElem?_set_cases hhandler hg with ⟨-, rfl⟩ | ⟨-, hold⟩
  · exact hunknown i h hhandler (hsession id hlt hknown)
  · exact hunknown j g hold hknown

/-- No reset raises after its `pipeline.reset`. -/
def Server.NoFailedReset (s : Server C) : Label C → Prop
  | .raised i => ∀ h : Handler C, s.handlers[i]? = some h → ∀ id, h.phase ≠ .encoding id
  | _ => True

/-- A move neither opens nor forgets a session. -/
theorem Moves.session_eq {phase phase' : Phase} (h : Moves phase phase')
    (opened : Option (WorldState C)) :
    Handler.session ⟨phase', opened⟩ = Handler.session ⟨phase, opened⟩ := by
  cases h <;> rfl

theorem Moves.early {phase phase' : Phase} (h : Moves phase phase')
    (hearly : phase'.early = true) : phase.early = true := by
  cases h <;> first | rfl | cases hearly

/-- The session that a handler which ends knows of. -/
theorem session_of_ended (s : Server C) (h : Handler C) :
    Handler.session { h with
      phase := if s.hasRelease && h.openedState.isSome then .releasing else .exited } =
        h.openedState.map WorldState.sessionId := by
  unfold Handler.session
  split
  · rename_i heq
    dsimp only at heq
    split at heq <;> cases heq
  · rfl

/-- A handler that ends learns no id. -/
theorem Distinct.session_of_ended_session {s : Server C}
    (hs : Distinct s.engine.minted s.handlers) {i : Nat} {h : Handler C}
    (hhandler : s.handlers[i]? = some h) {id : SessionId}
    (hid : Handler.session { h with
      phase := if s.hasRelease && h.openedState.isSome then .releasing else .exited } = some id) :
    h.session = some id := by
  rw [session_of_ended] at hid
  cases hphase : h.phase with
  | encoding id' =>
      rw [hs.unopened i h hhandler (by rw [hphase]; rfl)] at hid
      cases hid
  | _ => simpa [Handler.session, hphase] using hid

theorem Rule.distinct {s t : Server C} {label : Label C} {es : List (Event C)}
    (hrule : Rule s label es t) (hs : Distinct s.engine.minted s.handlers) :
    Distinct t.engine.minted t.handlers := by
  cases hrule with
  | connect => exact hs.connect
  | @checkCapacity i opened hhandler hroom =>
      exact hs.goto hhandler (fun _ => hs.unopened i ⟨.accepting, opened⟩ hhandler rfl)
        fun _ hid => hid
  | @move label i phase phase' opened hhandler hmoves =>
      refine hs.goto hhandler
        (fun hearly => hs.unopened i ⟨phase, opened⟩ hhandler (hmoves.early hearly)) ?_
      intro id hid
      rwa [hmoves.session_eq] at hid
  | @finish label i h hhandler hguarded hlabel =>
      refine hs.goto hhandler ?_ ?_
      · intro hearly
        dsimp only at hearly
        split at hearly <;> cases hearly
      · exact fun id hid => hs.session_of_ended_session hhandler hid
  | @opened i opened hhandler =>
      have hnone : opened = none := hs.unopened i _ hhandler rfl
      subst hnone
      exact hs.openSession hhandler
  | encoded hhandler =>
      exact hs.goto hhandler (by rintro ⟨⟩) fun _ hid => hid
  | stepped hhandler =>
      exact hs.goto hhandler (by rintro ⟨⟩) fun _ hid => hid
  | released hhandler =>
      exact hs.goto hhandler (by rintro ⟨⟩) fun _ hid => hid

/-- The moves out of the phases in which no session has been opened. -/
theorem Moves.stays {phase phase' : Phase} (h : Moves phase phase') :
    phase' ≠ .exited ∨ phase.early = true := by
  cases h <;> first | exact Or.inr rfl | exact Or.inl (by rintro ⟨⟩)

theorem Rule.held {s t : Server C} {label : Label C} {es : List (Event C)}
    (hrule : Rule s label es t) (hrelease : s.hasRelease = true)
    (hdistinct : Distinct s.engine.minted s.handlers) (hreset : s.NoFailedReset label)
    (hs : Held s.engine.pipeline s.handlers) : Held t.engine.pipeline t.handlers := by
  cases hrule with
  | connect =>
      intro id hid
      obtain ⟨i, h, hh, hsession, hphase⟩ := hs id hid
      refine ⟨i, h, ?_, hsession, hphase⟩
      rw [List.getElem?_append_left (List.getElem?_eq_some_iff.mp hh).1]
      exact hh
  | checkCapacity hhandler hroom =>
      exact hs.goto hhandler fun id _ hsession => ⟨hsession, by rintro ⟨⟩⟩
  | @move label i phase phase' opened hhandler hmoves =>
      refine hs.goto hhandler fun id _ hsession => ⟨(hmoves.session_eq opened).trans hsession, ?_⟩
      rcases hmoves.stays with hstays | hearly
      · exact hstays
      · have hnone : opened = none := hdistinct.unopened i ⟨phase, opened⟩ hhandler hearly
        subst hnone
        cases hmoves <;> cases hsession
  | @finish label i h hhandler hguarded hlabel =>
      refine hs.goto hhandler fun id _ hsession => ?_
      have hopened : h.openedState.map WorldState.sessionId = some id := by
        cases hphase : h.phase with
        | encoding id' =>
            rw [hlabel id' hphase] at hreset
            exact absurd hphase (hreset h hhandler id')
        | _ => simpa [Handler.session, hphase] using hsession
      have hsome : h.openedState.isSome = true := by
        rw [← Option.isSome_map (f := WorldState.sessionId), hopened]
        rfl
      rw [session_of_ended]
      refine ⟨hopened, ?_⟩
      simp [hrelease, hsome]
  | @opened i opened hhandler =>
      have hnone : opened = none := hdistinct.unopened i ⟨.opening, opened⟩ hhandler rfl
      subst hnone
      have hrest : Held s.engine.pipeline
          (s.handlers.set i ⟨.encoding s.engine.openSession.1, none⟩) :=
        hs.goto hhandler fun id _ hsession => by cases hsession
      intro id hid
      rcases Finset.mem_insert.mp hid with rfl | hid
      · exact ⟨i, _, by rw [Server.goto, getElem?_set_of_some hhandler, if_pos rfl], rfl, by rintro ⟨⟩⟩
      · exact hrest id hid
  | encoded hhandler =>
      exact hs.goto hhandler fun id _ hsession => ⟨hsession, by rintro ⟨⟩⟩
  | stepped hhandler =>
      exact hs.goto hhandler fun id _ hsession => ⟨hsession, by rintro ⟨⟩⟩
  | @released i state hhandler =>
      have hrest : Held (s.engine.pipeline.erase state.sessionId) s.handlers :=
        fun id hid => hs id (Finset.mem_of_mem_erase hid)
      refine hrest.goto hhandler fun id hid hsession => ?_
      -- the closed session is the only one this handler knows of
      have hid' : state.sessionId = id := Option.some.inj hsession
      exact absurd hid'.symm (Finset.ne_of_mem_erase hid)

theorem Rule.leaked {s t : Server C} {label : Label C} {es : List (Event C)}
    (hrule : Rule s label es t) (hdistinct : Distinct s.engine.minted s.handlers)
    (hs : Leaked s.engine s.handlers) : Leaked t.engine t.handlers := by
  cases hrule with
  | connect =>
      obtain ⟨id, hid, hlt, hunknown⟩ := hs
      refine ⟨id, hid, hlt, fun i h hh => ?_⟩
      rcases getElem?_append_cases hh with hold | ⟨-, rfl⟩
      · exact hunknown i h hold
      · rintro ⟨⟩
  | checkCapacity hhandler hroom =>
      exact hs.goto hhandler le_rfl (fun _ hid _ => hid) fun _ _ hknown => hknown
  | @move label i phase phase' opened hhandler hmoves =>
      refine hs.goto hhandler le_rfl (fun _ hid _ => hid) fun id _ hknown => ?_
      rwa [hmoves.session_eq] at hknown
  | finish hhandler hguarded hlabel =>
      exact hs.goto hhandler le_rfl (fun _ hid _ => hid)
        fun id _ hknown => hdistinct.session_of_ended_session hhandler hknown
  | @opened i opened hhandler =>
      refine hs.goto hhandler (Nat.le_succ _) (fun _ hid _ => Finset.mem_insert_of_mem hid) ?_
      intro id hlt hknown
      cases hknown
      exact absurd hlt (lt_irrefl _)
  | encoded hhandler =>
      exact hs.goto hhandler le_rfl (fun _ hid _ => hid) fun _ _ hknown => hknown
  | stepped hhandler =>
      exact hs.goto hhandler le_rfl (fun _ hid _ => hid) fun _ _ hknown => hknown
  | @released i state hhandler =>
      refine hs.goto hhandler le_rfl (fun id hid hunknown => ?_) fun _ _ hknown => hknown
      refine Finset.mem_erase.mpr ⟨?_, hid⟩
      rintro rfl
      exact hunknown rfl

/-- The pipeline session of a `reset` that encodes its observation is open. -/
def Opened (pipeline : Finset SessionId) (handlers : List (Handler C)) : Prop :=
  ∀ (i : Nat) (h : Handler C) (id : SessionId), handlers[i]? = some h →
    h.phase = .encoding id → id ∈ pipeline

theorem Opened.goto {pipeline pipeline' : Finset SessionId} {handlers : List (Handler C)}
    (hs : Opened pipeline handlers) {i : Nat} {h h' : Handler C}
    (hhandler : handlers[i]? = some h) (hself : ∀ id, h'.phase = .encoding id → id ∈ pipeline')
    (hothers : ∀ (j : Nat) (g : Handler C) (id : SessionId), i ≠ j → handlers[j]? = some g →
      g.phase = .encoding id → id ∈ pipeline → id ∈ pipeline') :
    Opened pipeline' (handlers.set i h') := by
  intro j g id hg hphase
  rcases getElem?_set_cases hhandler hg with ⟨-, rfl⟩ | ⟨hij, hold⟩
  · exact hself id hphase
  · exact hothers j g id hij hold hphase (hs j g id hold hphase)

theorem Moves.not_encoding {phase phase' : Phase} (h : Moves phase phase') (id : SessionId) :
    phase' ≠ .encoding id := by
  cases h <;> rintro ⟨⟩

theorem Rule.opened_encoding {s t : Server C} {label : Label C} {es : List (Event C)}
    (hrule : Rule s label es t) (hdistinct : Distinct s.engine.minted s.handlers)
    (hs : Opened s.engine.pipeline s.handlers) : Opened t.engine.pipeline t.handlers := by
  cases hrule with
  | connect =>
      intro i h id hh hphase
      rcases getElem?_append_cases hh with hold | ⟨-, rfl⟩
      · exact hs i h id hold hphase
      · cases hphase
  | checkCapacity hhandler hroom => exact hs.goto hhandler (by rintro id ⟨⟩) fun _ _ _ _ _ _ hid => hid
  | move hhandler hmoves =>
      exact hs.goto hhandler (fun id hphase => absurd hphase (hmoves.not_encoding id))
        fun _ _ _ _ _ _ hid => hid
  | finish hhandler hguarded hlabel =>
      refine hs.goto hhandler (fun id hphase => ?_) fun _ _ _ _ _ _ hid => hid
      dsimp only at hphase
      split at hphase <;> cases hphase
  | opened hhandler =>
      refine hs.goto hhandler (fun id hphase => ?_)
        fun _ _ _ _ _ _ hid => Finset.mem_insert_of_mem hid
      cases hphase
      exact Finset.mem_insert_self _ _
  | encoded hhandler => exact hs.goto hhandler (by rintro id ⟨⟩) fun _ _ _ _ _ _ hid => hid
  | stepped hhandler => exact hs.goto hhandler (by rintro id ⟨⟩) fun _ _ _ _ _ _ hid => hid
  | @released i state hhandler =>
      refine hs.goto hhandler (by rintro id ⟨⟩) fun j g id hij hg hphase hid => ?_
      refine Finset.mem_erase.mpr ⟨?_, hid⟩
      rintro rfl
      have hknown : g.session = some state.sessionId := by
        rw [Handler.session, hphase]
      exact hij (hdistinct.distinct i j _ g state.sessionId hhandler hg rfl hknown)

/-- A reset that raises after its `pipeline.reset` leaves a session behind. -/
theorem leaked_of_failedReset {s t : Server C} {i : Nat} {h : Handler C} {id : SessionId}
    {es : List (Event C)} (hdistinct : Distinct s.engine.minted s.handlers)
    (hopened : Opened s.engine.pipeline s.handlers) (hhandler : s.handlers[i]? = some h)
    (hphase : h.phase = .encoding id) (hstep : s.step (.raised i) = some (es, t)) :
    Leaked t.engine t.handlers := by
  have hsession : h.session = some id := by
    rw [Handler.session, hphase]
  have hunopened : h.openedState = none := hdistinct.unopened i h hhandler (by rw [hphase]; rfl)
  have ht : t = s.finish i h := by
    simp only [Server.step, hhandler, Server.unwind, hphase, Option.map_some,
      Option.some.injEq, Prod.mk.injEq] at hstep
    exact hstep.2.symm
  subst ht
  refine ⟨id, hopened i h id hhandler hphase, hdistinct.minted i h id hhandler hsession, ?_⟩
  intro j g hg hknown
  rcases getElem?_set_cases hhandler hg with ⟨-, rfl⟩ | ⟨hij, hold⟩
  · rw [session_of_ended, hunopened] at hknown
    cases hknown
  · exact hij (hdistinct.distinct i j h g id hhandler hold hsession hknown)

/-! ## Whole runs -/

/-- What every reachable state satisfies. -/
structure Sessions (s : Server C) : Prop where
  hasRelease : s.hasRelease = true
  distinct : Distinct s.engine.minted s.handlers
  opened : Opened s.engine.pipeline s.handlers

theorem Rule.hasRelease_eq {s t : Server C} {label : Label C} {es : List (Event C)}
    (hrule : Rule s label es t) : t.hasRelease = s.hasRelease := by
  cases hrule <;> rfl

theorem Sessions.step {s t : Server C} {label : Label C} {es : List (Event C)} (hs : Sessions s)
    (hrule : Rule s label es t) : Sessions t where
  hasRelease := hrule.hasRelease_eq.trans hs.hasRelease
  distinct := hrule.distinct hs.distinct
  opened := hrule.opened_encoding hs.distinct hs.opened

theorem Sessions.init (maxSessions : Nat) : Sessions (worldSession C maxSessions true).init where
  hasRelease := rfl
  distinct := ⟨by rintro i h ⟨⟩, by rintro i h id ⟨⟩, by rintro i j h g id ⟨⟩⟩
  opened := by rintro i h id ⟨⟩

section Runs

variable {maxSessions : Nat} {as : List (Label C)} {es : List (Event C)} {s : Server C}

theorem sessions_run
    (hrun : (worldSession C maxSessions true).run (worldSession C maxSessions true).init as =
      some (es, s)) : Sessions s :=
  Machine.invariant_run (fun _ _ _ _ hs hstep => hs.step (step_rule hstep))
    (Sessions.init maxSessions) hrun

theorem held_run
    (hrun : (worldSession C maxSessions true).run (worldSession C maxSessions true).init as =
      some (es, s))
    (hresets : (worldSession C maxSessions true).Meets Server.NoFailedReset
      (worldSession C maxSessions true).init as) : Held s.engine.pipeline s.handlers := by
  have hall : Sessions s ∧ Held s.engine.pipeline s.handlers := by
    refine Machine.history_reachable (C := Server.NoFailedReset)
      (H := fun _ s => Sessions s ∧ Held s.engine.pipeline s.handlers) ?_ ?_ hresets hrun
    · exact ⟨Sessions.init maxSessions, by rintro id ⟨⟩⟩
    · rintro _ s a es t ⟨hs, hheld⟩ hC hstep
      have hrule := step_rule hstep
      exact ⟨hs.step hrule, hrule.held hs.hasRelease hs.distinct hC hheld⟩
  exact hall.2

/-- When all handlers have exited, the pipeline holds no session exactly when no reset
raised after its `pipeline.reset` had returned. -/
theorem pipeline_empty_iff
    (hrun : (worldSession C maxSessions true).run (worldSession C maxSessions true).init as =
      some (es, s))
    (hexited : ∀ h ∈ s.handlers, h.phase = .exited) :
    s.engine.pipeline = ∅ ↔
      (worldSession C maxSessions true).Meets Server.NoFailedReset
        (worldSession C maxSessions true).init as := by
  constructor
  · intro hempty
    unfold Machine.Meets
    rw [Machine.along_iff_split]
    rintro as₁ a as₂ es₁ t es₂ u rfl hpre hstep
    cases a with
    | raised i =>
        intro h hhandler id hphase
        have ht := sessions_run hpre
        have hrule : Rule t (.raised i) es₂ u := step_rule hstep
        have hleaked := leaked_of_failedReset ht.distinct ht.opened hhandler hphase hstep
        obtain ⟨gs, htail, -⟩ := Machine.run_rest hrun hpre hstep
        have hend : Sessions s ∧ Leaked s.engine s.handlers :=
          Machine.invariant_run (I := fun s => Sessions s ∧ Leaked s.engine s.handlers)
            (fun _ _ _ _ hs hstep => ⟨hs.1.step (step_rule hstep),
              (step_rule hstep).leaked hs.1.distinct hs.2⟩)
            ⟨ht.step hrule, hleaked⟩ htail
        obtain ⟨-, id', hid', -⟩ := hend
        rw [hempty] at hid'
        exact absurd hid' (Finset.notMem_empty id')
    | _ => trivial
  · intro hresets
    rw [Finset.eq_empty_iff_forall_notMem]
    intro id hid
    obtain ⟨i, h, hhandler, -, hphase⟩ := held_run hrun hresets id hid
    exact hphase (hexited h (List.mem_of_getElem? hhandler))

end Runs

/-- A client that opens a session and disconnects. -/
def openAndLeave : List (Label Nat) :=
  [.connect, .accepted 0, .received 0 .valid, .opened 0, .encoded 0 7, .sent 0,
    .received 0 .disconnect, .released 0]

theorem openAndLeave_empty :
    ∃ es s, (worldSession Nat 1 true).run (worldSession Nat 1 true).init openAndLeave =
        some (es, s) ∧ s.engine.pipeline = ∅ := by
  obtain ⟨es, s, hrun⟩ : ∃ es s, (worldSession Nat 1 true).run (worldSession Nat 1 true).init
      openAndLeave = some (es, s) := ⟨_, _, rfl⟩
  have hhandlers : s.handlers = [⟨.exited, some ⟨7, 0, ⟨0⟩⟩⟩] := by
    cases hrun
    rfl
  have hexited : ∀ h ∈ s.handlers, h.phase = .exited := by
    rw [hhandlers]
    simp
  have hresets : (worldSession Nat 1 true).Meets Server.NoFailedReset
      (worldSession Nat 1 true).init openAndLeave := by
    refine Machine.meets_of_forall fun a ha s => ?_
    simp only [openAndLeave, List.mem_cons, List.not_mem_nil, or_false] at ha
    rcases ha with rfl | rfl | rfl | rfl | rfl | rfl | rfl | rfl <;> trivial
  exact ⟨es, s, hrun, (pipeline_empty_iff hrun hexited).mpr hresets⟩

/-- A client whose observation cannot be encoded: its handler has exited, and the
pipeline session it never heard of is still open. -/
theorem failedReset_leaks :
    ∃ es s, (worldSession Nat 1 true).run (worldSession Nat 1 true).init
        [.connect, .accepted 0, .received 0 .valid, .opened 0, .raised 0] = some (es, s) ∧
      (∀ h ∈ s.handlers, h.phase = .exited) ∧ s.engine.pipeline ≠ ∅ := by
  obtain ⟨es, s, hrun⟩ : ∃ es s, (worldSession Nat 1 true).run (worldSession Nat 1 true).init
      [.connect, .accepted 0, .received 0 .valid, .opened 0, .raised 0] = some (es, s) :=
    ⟨_, _, rfl⟩
  have hhandlers : s.handlers = [⟨.exited, none⟩] := by
    cases hrun
    rfl
  have hheld : (⟨0⟩ : SessionId) ∈ s.engine.pipeline := by
    cases hrun
    exact Finset.mem_insert_self _ _
  refine ⟨es, s, hrun, ?_, Finset.ne_empty_of_mem hheld⟩
  rw [hhandlers]
  simp

end Repercep.Serving
