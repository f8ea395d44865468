import Repercep.Serving.WorldSession
import Mathlib.Tactic.Linarith
set_option autoImplicit false

/-!
# World sessions: the counter and the releases

Every path out of the guarded body goes through one `finally`, which gives the slot
back and releases the state kept last.  So the counter is the number of handlers inside,
and a handler that has exited has released what its session reached last, once.
-/

namespace Repercep.Serving

open Repercep.Foundation

variable {C : Type}

/-- The states a handler got back from the engine, in order. -/
def reachedBy (i : Nat) (es : List (Event C)) : List (WorldState C) :=
  es.filterMap fun
    | .reached j state => if j = i then some state else none
    | .released _ _ => none

/-- The states a handler passed to `release`, in order. -/
def releasedBy (i : Nat) (es : List (Event C)) : List (WorldState C) :=
  es.filterMap fun
    | .released j state => if j = i then some state else none
    | .reached _ _ => none

theorem reachedBy_append (i : Nat) (es fs : List (Event C)) :
    reachedBy i (es ++ fs) = reachedBy i es ++ reachedBy i fs := List.filterMap_append

theorem releasedBy_append (i : Nat) (es fs : List (Event C)) :
    releasedBy i (es ++ fs) = releasedBy i es ++ releasedBy i fs := List.filterMap_append

/-- What a handler has released by now. -/
def Handler.due (hasRelease : Bool) (h : Handler C) : List (WorldState C) :=
  if h.phase = .exited ∧ hasRelease then h.openedState.toList else []

/-- The handler keeps the state its session reached last, and has released it exactly
when it has exited. -/
structure Ledger (hasRelease : Bool) (es : List (Event C)) (i : Nat) (h : Handler C) : Prop where
  reached : (reachedBy i es).getLast? = h.openedState
  released : releasedBy i es = h.due hasRelease
  unopened : h.phase = .accepting ∨ h.phase = .refusing → h.openedState = none
  releasing : h.phase = .releasing → hasRelease = true

/-- The counter counts, and every handler's ledger is right. -/
structure Balanced (es : List (Event C)) (s : Server C) : Prop where
  active : s.activeSessions = s.handlers.countP fun h => h.phase.guarded
  capacity : s.activeSessions ≤ s.maxSessions
  ledgers : ∀ i h, s.handlers[i]? = some h → Ledger s.hasRelease es i h
  absent : ∀ i, s.handlers[i]? = none → reachedBy i es = [] ∧ releasedBy i es = []

namespace Balanced

variable {es fs : List (Event C)} {s : Server C}

/-- One handler moves; the events are its own. -/
theorem goto (hs : Balanced es s) {i : Nat} {h h' : Handler C} {active : Int} {engine : Engine}
    (hhandler : s.handlers[i]? = some h)
    (hquiet : ∀ j, j ≠ i → reachedBy j fs = [] ∧ releasedBy j fs = [])
    (hactive : active + h.phase.guarded.toNat = s.activeSessions + h'.phase.guarded.toNat)
    (hcapacity : active ≤ s.maxSessions)
    (hledger : Ledger s.hasRelease es i h → Ledger s.hasRelease (es ++ fs) i h') :
    Balanced (es ++ fs) ({ s with activeSessions := active, engine := engine }.goto i h') where
  active := by
    have hcount := countP_set_add hhandler h' fun h => h.phase.guarded
    have hold := hs.active
    show active = ((s.handlers.set i h').countP fun h => h.phase.guarded : Nat)
    omega
  capacity := hcapacity
  ledgers := by
    intro j g hg
    simp only [Server.goto, getElem?_set_of_some hhandler] at hg
    by_cases hij : i = j
    · subst hij
      rw [if_pos rfl, Option.some.injEq] at hg
      subst hg
      exact hledger (hs.ledgers i h hhandler)
    · rw [if_neg hij] at hg
      obtain ⟨hreached, hreleased⟩ := hquiet j (Ne.symm hij)
      have hold := hs.ledgers j g hg
      refine ⟨?_, ?_, hold.unopened, hold.releasing⟩
      · rw [reachedBy_append, hreached, List.append_nil]
        exact hold.reached
      · rw [releasedBy_append, hreleased, List.append_nil]
        exact hold.released
  absent := by
    intro j hj
    simp only [Server.goto, getElem?_set_of_some hhandler] at hj
    by_cases hij : i = j
    · rw [if_pos hij] at hj
      cases hj
    · rw [if_neg hij] at hj
      obtain ⟨hreached, hreleased⟩ := hquiet j (Ne.symm hij)
      obtain ⟨hreached', hreleased'⟩ := hs.absent j hj
      rw [reachedBy_append, releasedBy_append, hreached, hreleased, hreached', hreleased']
      exact ⟨rfl, rfl⟩

/-- A silent move that keeps the counter. -/
theorem silent (hs : Balanced es s) {i : Nat} {h h' : Handler C} {engine : Engine}
    (hhandler : s.handlers[i]? = some h) (hguarded : h.phase.guarded = h'.phase.guarded)
    (hledger : Ledger s.hasRelease es i h → Ledger s.hasRelease es i h') :
    Balanced es ({ s with engine := engine }.goto i h') := by
  have hmove : Balanced (es ++ []) ({ s with engine := engine }.goto i h') :=
    hs.goto hhandler (fun _ _ => ⟨rfl, rfl⟩) (by rw [hguarded]) hs.capacity
      (by rwa [List.append_nil])
  rwa [List.append_nil] at hmove

theorem connect (hs : Balanced es s) :
    Balanced es { s with handlers := s.handlers ++ [⟨.accepting, none⟩] } where
  active := by
    rw [countP_append_singleton]
    exact hs.active
  capacity := hs.capacity
  ledgers := by
    intro i h hh
    rw [List.getElem?_append] at hh
    split at hh
    · exact hs.ledgers i h hh
    · rename_i hi
      obtain ⟨hreached, hreleased⟩ := hs.absent i (List.getElem?_eq_none (Nat.le_of_not_lt hi))
      have hfresh : h = ⟨.accepting, none⟩ := by
        rw [List.getElem?_singleton] at hh
        split at hh
        · exact (Option.some.inj hh).symm
        · cases hh
      subst hfresh
      exact ⟨by rw [hreached]; rfl, hreleased, fun _ => rfl, by rintro ⟨⟩⟩
  absent := by
    intro i hi
    rw [List.getElem?_append] at hi
    split at hi
    · exact hs.absent i hi
    · exact hs.absent i (List.getElem?_eq_none (Nat.le_of_not_lt ‹_›))

end Balanced

theorem Moves.guarded_eq {phase phase' : Phase} (h : Moves phase phase') :
    phase.guarded = phase'.guarded := by
  cases h <;> rfl

/-- Only a handler that never opened a session exits by a move. -/
theorem Moves.ledger {phase phase' : Phase} (h : Moves phase phase') {hasRelease : Bool}
    {es : List (Event C)} {i : Nat} {opened : Option (WorldState C)}
    (hledger : Ledger hasRelease es i ⟨phase, opened⟩) : Ledger hasRelease es i ⟨phase', opened⟩ := by
  obtain ⟨hreached, hreleased, hunopened, -⟩ := hledger
  refine ⟨hreached, ?_, ?_, ?_⟩
  · cases h with
    | turnAway =>
        have hnone : opened = none := hunopened (Or.inl rfl)
        subst hnone
        simpa [Handler.due] using hreleased
    | refused =>
        have hnone : opened = none := hunopened (Or.inr rfl)
        subst hnone
        simpa [Handler.due] using hreleased
    | _ => simpa [Handler.due] using hreleased
  · cases h with
    | refuse => exact fun _ => hunopened (Or.inl rfl)
    | _ =>
        rintro (hphase | hphase)
        · cases hphase
        · cases hphase
  · cases h <;> rintro ⟨⟩

/-- Before a handler exits it has released nothing. -/
theorem Ledger.unreleased {hasRelease : Bool} {es : List (Event C)} {i : Nat} {h : Handler C}
    (hledger : Ledger hasRelease es i h) (hphase : h.phase ≠ .exited) :
    releasedBy i es = [] := by
  rw [hledger.released, Handler.due, if_neg]
  exact fun hexited => hphase hexited.1

/-- Inside the guarded body only the state counts. -/
theorem Ledger.of_guarded {hasRelease : Bool} {es : List (Event C)} {i : Nat} {phase : Phase}
    {opened : Option (WorldState C)} (hguarded : phase.guarded = true)
    (hreached : (reachedBy i es).getLast? = opened) (hnothing : releasedBy i es = []) :
    Ledger hasRelease es i ⟨phase, opened⟩ := by
  refine ⟨hreached, ?_, ?_, ?_⟩
  · rw [hnothing, Handler.due, if_neg]
    rintro ⟨rfl, -⟩
    cases hguarded
  · rintro (rfl | rfl)
    · cases hguarded
    · cases hguarded
  · rintro rfl
    cases hguarded

/-- The `finally` releases what was opened, if the engine can. -/
theorem Ledger.finish {hasRelease : Bool} {es : List (Event C)} {i : Nat} {h : Handler C}
    (hledger : Ledger hasRelease es i h) (hguarded : h.phase.guarded = true) :
    Ledger hasRelease es i
      { h with phase := if hasRelease && h.openedState.isSome then .releasing else .exited } := by
  have hnothing : releasedBy i es = [] := by
    refine hledger.unreleased fun hexited => ?_
    rw [hexited] at hguarded
    cases hguarded
  refine ⟨hledger.reached, ?_, ?_, ?_⟩
  · rw [hnothing, Handler.due]
    cases hasRelease <;> cases hopened : h.openedState <;> simp
  · intro hphase
    dsimp only at hphase
    split at hphase <;> rcases hphase with hphase | hphase <;> cases hphase
  · intro hphase
    dsimp only at hphase
    split at hphase
    · rename_i hboth
      exact (Bool.and_eq_true_iff.mp hboth).1
    · cases hphase

/-- A handler goes on inside the guarded body with what it has. -/
theorem Ledger.advance {hasRelease : Bool} {es : List (Event C)} {i : Nat} {h : Handler C}
    (hledger : Ledger hasRelease es i h) (hphase : h.phase ≠ .exited) {phase : Phase}
    (hguarded : phase.guarded = true) : Ledger hasRelease es i ⟨phase, h.openedState⟩ :=
  .of_guarded hguarded hledger.reached (hledger.unreleased hphase)

/-- The engine returns a state to the handler. -/
theorem Ledger.reach {hasRelease : Bool} {es : List (Event C)} {i : Nat} {h : Handler C}
    (hledger : Ledger hasRelease es i h) (hphase : h.phase ≠ .exited) (state : WorldState C)
    {phase : Phase} (hguarded : phase.guarded = true) :
    Ledger hasRelease (es ++ [.reached i state]) i ⟨phase, some state⟩ := by
  refine .of_guarded hguarded ?_ ?_
  · rw [reachedBy_append]
    simp [reachedBy]
  · rw [releasedBy_append, hledger.unreleased hphase]
    rfl

theorem quiet_of_ne {i j : Nat} {state : WorldState C} (hne : j ≠ i) :
    reachedBy j [Event.reached i state] = [] ∧ releasedBy j [Event.reached i state] = [] := by
  have hne' : ¬ i = j := fun h => hne h.symm
  simp [reachedBy, releasedBy, hne']

theorem Rule.balanced {s t : Server C} {label : Label C} {h es : List (Event C)}
    (hrule : Rule s label es t) (hs : Balanced h s) : Balanced (h ++ es) t := by
  cases hrule with
  | connect => simpa using hs.connect
  | @checkCapacity i opened hhandler hroom =>
      refine hs.goto hhandler (fun _ _ => ⟨rfl, rfl⟩) (by simp [Phase.guarded]) hroom ?_
      intro hledger
      rw [List.append_nil]
      exact hledger.advance (by rintro ⟨⟩) rfl
  | move hhandler hmoves => simpa using hs.silent hhandler hmoves.guarded_eq hmoves.ledger
  | @finish label i h hhandler hguarded hlabel =>
      have hunguarded :
          (if s.hasRelease && h.openedState.isSome then Phase.releasing else .exited).guarded = false := by
        split <;> rfl
      refine hs.goto hhandler (fun _ _ => ⟨rfl, rfl⟩) ?_ ?_ ?_
      · simp only [hguarded, hunguarded, Bool.toNat_true, Bool.toNat_false]
        omega
      · have := hs.capacity
        omega
      · intro hledger
        rw [List.append_nil]
        exact hledger.finish hguarded
  | @opened i opened hhandler =>
      rw [List.append_nil]
      refine hs.silent hhandler rfl ?_
      exact fun hledger => hledger.advance (by rintro ⟨⟩) rfl
  | @encoded i id opened context hhandler =>
      refine hs.goto hhandler (fun _ hj => quiet_of_ne hj) rfl hs.capacity ?_
      exact fun hledger => hledger.reach (by rintro ⟨⟩) _ rfl
  | @stepped i state context hhandler =>
      refine hs.goto hhandler (fun _ hj => quiet_of_ne hj) rfl hs.capacity ?_
      exact fun hledger => hledger.reach (by rintro ⟨⟩) _ rfl
  | @released i state hhandler =>
      refine hs.goto hhandler ?_ rfl hs.capacity ?_
      · intro j hj
        simp [reachedBy, releasedBy, Ne.symm hj]
      · intro hledger
        refine ⟨?_, ?_, ?_, by rintro ⟨⟩⟩
        · rw [reachedBy_append]
          simpa [reachedBy] using hledger.reached
        · rw [releasedBy_append, hledger.unreleased (by rintro ⟨⟩)]
          simp [releasedBy, Handler.due, hledger.releasing rfl]
        · rintro (hphase | hphase)
          · cases hphase
          · cases hphase

/-- The cap and the engine's interface do not change. -/
theorem Rule.config {s t : Server C} {label : Label C} {es : List (Event C)}
    (hrule : Rule s label es t) :
    t.maxSessions = s.maxSessions ∧ t.hasRelease = s.hasRelease := by
  cases hrule <;> exact ⟨rfl, rfl⟩

theorem balanced_run {maxSessions : Nat} {hasRelease : Bool} {as : List (Label C)}
    {es : List (Event C)} {s : Server C}
    (hrun : (worldSession C maxSessions hasRelease).run
      (worldSession C maxSessions hasRelease).init as = some (es, s)) :
    Balanced es s ∧ s.maxSessions = maxSessions ∧ s.hasRelease = hasRelease := by
  refine Machine.history_reachable (C := fun _ _ => True)
    (H := fun es s => Balanced es s ∧ s.maxSessions = maxSessions ∧ s.hasRelease = hasRelease)
    ?_ ?_ (Machine.meets_of_forall fun _ _ _ => trivial) hrun
  · exact ⟨⟨rfl, Int.natCast_nonneg _, by rintro i h ⟨⟩, fun _ _ => ⟨rfl, rfl⟩⟩, rfl, rfl⟩
  · rintro h s a es t ⟨hs, hmax, hrelease⟩ - hstep
    have hrule := step_rule hstep
    obtain ⟨hmax', hrelease'⟩ := hrule.config
    exact ⟨hrule.balanced hs, hmax'.trans hmax, hrelease'.trans hrelease⟩

/-- In every reachable state of any number of handlers, `active_sessions` is the number
of handlers inside the guarded body, between zero and the cap, and zero when all have
exited; and a handler that has exited has released the state its session reached last,
and no other, exactly once, or nothing when no reset had returned to it. -/
theorem session_accounting {maxSessions : Nat} {hasRelease : Bool} {as : List (Label C)}
    {es : List (Event C)} {s : Server C}
    (hrun : (worldSession C maxSessions hasRelease).run
      (worldSession C maxSessions hasRelease).init as = some (es, s)) :
    s.activeSessions = (s.handlers.countP fun h => h.phase.guarded : Nat) ∧
      0 ≤ s.activeSessions ∧ s.activeSessions ≤ maxSessions ∧
      ((∀ h ∈ s.handlers, h.phase = .exited) → s.activeSessions = 0) ∧
      ∀ i h, s.handlers[i]? = some h → h.phase = .exited →
        releasedBy i es = if hasRelease then (reachedBy i es).getLast?.toList else [] := by
  obtain ⟨hs, rfl, rfl⟩ := balanced_run hrun
  refine ⟨hs.active, ?_, hs.capacity, ?_, ?_⟩
  · rw [hs.active]
    exact Int.natCast_nonneg _
  · intro hexited
    rw [hs.active, Int.natCast_eq_zero, List.countP_eq_zero]
    intro h hmem
    rw [hexited h hmem]
    exact Bool.false_ne_true
  · intro i h hhandler hexited
    have hledger := hs.ledgers i h hhandler
    rw [hledger.released, hledger.reached, Handler.due]
    simp [hexited]

/-- Two clients of a server with one slot: the second is turned away, the first takes
two steps and disconnects. -/
def twoClients : List (Label Nat) :=
  [.connect, .connect, .accepted 0, .accepted 1, .received 0 .valid, .opened 0, .sent 1,
    .encoded 0 7, .sent 0, .received 0 .valid, .stepped 0 8, .sent 0, .received 0 .valid,
    .stepped 0 9, .sent 0, .received 0 .disconnect, .released 0]

theorem twoClients_accounting :
    ∃ es s, (worldSession Nat 1 true).run (worldSession Nat 1 true).init twoClients =
        some (es, s) ∧
      s.activeSessions = 0 ∧ releasedBy 0 es = [⟨9, 2, ⟨0⟩⟩] := by
  obtain ⟨es, s, hrun⟩ : ∃ es s, (worldSession Nat 1 true).run (worldSession Nat 1 true).init
      twoClients = some (es, s) := ⟨_, _, rfl⟩
  obtain ⟨-, -, -, hzero, hreleases⟩ := session_accounting hrun
  have hhandlers : s.handlers = [⟨.exited, some ⟨9, 2, ⟨0⟩⟩⟩, ⟨.exited, none⟩] := by
    cases hrun
    rfl
  have hreached : reachedBy 0 es = [⟨7, 0, ⟨0⟩⟩, ⟨8, 1, ⟨0⟩⟩, ⟨9, 2, ⟨0⟩⟩] := by
    cases hrun
    rfl
  refine ⟨es, s, hrun, hzero ?_, ?_⟩
  · rw [hhandlers]
    simp
  · rw [hreleases 0 _ (by rw [hhandlers]; rfl) rfl, hreached]
    rfl

end Repercep.Serving
