import Repercep.Models.DreamZero
set_option autoImplicit false

/-!
# Isolation of the sessions

A call holds the head from its swap-in to its swap-out.  When no call swaps in while
another session's call holds the head, every session's results are those of its own
calls run alone on a fresh pipeline, whatever the model does and wherever it raises.
Nothing in the pipeline keeps two calls from holding the head at once, and then the
model runs one session on the attributes of another.
-/

namespace Repercep.Models

open Repercep.Foundation

variable {X I V U : Type}

/-! ## Who holds the head -/

/-- The call has swapped its session in and not yet out. -/
def Phase.onHead : Phase I V U → Bool
  | .swapIn _ => false
  | .model _ => true
  | .swapOut _ _ => true

namespace Pipeline

variable {model : Model X I V U} {s t s' : Pipeline X I V U} {label : Label I V}
  {es : List (Event V U)} {id : SessionId}

/-- A call of the session is between its swap-in and its swap-out. -/
def Holds (s : Pipeline X I V U) (id : SessionId) : Prop :=
  ∃ call, s.calls id = some call ∧ call.phase.onHead = true

/-- The step swaps a session in. -/
def Acquires (s : Pipeline X I V U) (label : Label I V) : Prop :=
  label.action = .advance ∧
    ∃ method input, s.calls label.session = some ⟨method, .swapIn input⟩

/-- No session is swapped in while another one's call holds the head. -/
def Exclusive (s : Pipeline X I V U) (label : Label I V) : Prop :=
  s.Acquires label → ∀ other, other ≠ label.session → ¬ s.Holds other

theorem not_holds_of_none (hcall : s.calls id = none) : ¬ s.Holds id := by
  rintro ⟨call, hsome, -⟩
  rw [hcall] at hsome
  cases hsome

/-- Whether a session holds the head after a call was replaced. -/
theorem holds_setCall {other : SessionId} {call : Option (Call I V U)} :
    (s.setCall id call).Holds other ↔
      if other = id then ∃ after, call = some after ∧ after.phase.onHead = true
      else s.Holds other := by
  change (∃ after, Function.update s.calls id call other = some after ∧ _) ↔ _
  rw [Function.update_apply]
  by_cases hother : other = id
  · rw [if_pos hother, if_pos hother]
  · rw [if_neg hother, if_neg hother]
    rfl

@[simp] theorem holds_setSession {other : SessionId} {session : Option (Session X V)} :
    (s.setSession id session).Holds other ↔ s.Holds other := Iff.rfl

@[simp] theorem holds_with_head {other : SessionId} {head : Attrs X} :
    Holds { s with head := head } other ↔ s.Holds other := Iff.rfl

/-! ## What one step does -/

/-- What a step does to the head, its own session and its own call: the results it
returns and the three afterwards. -/
inductive Moves (model : Model X I V U) (head : Attrs X) :
    Option (Session X V) → Option (Call I V U) → Action I V →
    List (Outcome V U) → Attrs X → Option (Session X V) → Option (Call I V U) → Prop
  | reset (session : Option (Session X V)) (prompt : Option String) :
      Moves model head session none (.reset prompt) [] head
        (some ⟨prompt.getD "", freshSwap X, none, none⟩) none
  | unreadable (session : Session X V) :
      Moves model head (some session) none (.encodeObservation none) [.raised] head
        (some session) none
  | encode (session : Session X V) (images : I) :
      Moves model head (some session) none (.encodeObservation (some images)) [] head
        (some session) (some ⟨.encodeObservation, .swapIn ⟨session.prompt, some images, none⟩⟩)
  | recondition (session : Session X V) (obsLatent : Option V) :
      Moves model head (some session) none (.recondition obsLatent) [.reconditioned] head
        (some { session with pendingLatentVideo := obsLatent }) none
  | infer (session : Session X V) :
      Moves model head (some session) none .inferChunk [] head
        (some { session with pendingLatentVideo := none })
        (some ⟨.inferChunk, .swapIn ⟨session.prompt, none,
          session.pendingLatentVideo.orElse fun _ => session.lastVideoPred⟩⟩)
  | close (session : Session X V) :
      Moves model head (some session) none .close [] head none none
  | swapIn (session : Session X V) (method : Method) (input : Input I V) :
      Moves model head (some session) (some ⟨method, .swapIn input⟩) .advance [] session.swap
        (some session) (some ⟨method, .model input⟩)
  | answer (session : Session X V) (method : Method) (input : Input I V) (head' : Attrs X)
      (video : V) (actions : U) (hanswer : model head input = (head', some (video, actions))) :
      Moves model head (some session) (some ⟨method, .model input⟩) .advance [] head'
        (some session) (some ⟨method, .swapOut video actions⟩)
  | raise (session : Session X V) (method : Method) (input : Input I V) (head' : Attrs X)
      (hraise : model head input = (head', none)) :
      Moves model head (some session) (some ⟨method, .model input⟩) .advance [.raised] head'
        (some session) none
  | swapOut (session : Session X V) (method : Method) (video : V) (actions : U) :
      Moves model head (some session) (some ⟨method, .swapOut video actions⟩) .advance
        [match method with
          | .encodeObservation => .encoded video
          | .inferChunk => .inferred video actions] head
        (some { session with swap := head, lastVideoPred := some video }) none

/-- The pipeline after a move of the session. -/
def moved (s : Pipeline X I V U) (id : SessionId) (head : Attrs X)
    (session : Option (Session X V)) (call : Option (Call I V U)) : Pipeline X I V U :=
  ⟨head, Function.update s.sessions id session, Function.update s.calls id call⟩

theorem moved_calls_self (s : Pipeline X I V U) (id : SessionId) (head : Attrs X)
    (session : Option (Session X V)) (call : Option (Call I V U)) :
    (s.moved id head session call).calls id = call :=
  Function.update_self ..

theorem moved_sessions_self (s : Pipeline X I V U) (id : SessionId) (head : Attrs X)
    (session : Option (Session X V)) (call : Option (Call I V U)) :
    (s.moved id head session call).sessions id = session :=
  Function.update_self ..

theorem moved_calls_of_ne (s : Pipeline X I V U) {id other : SessionId} (hne : other ≠ id)
    (head : Attrs X) (session : Option (Session X V)) (call : Option (Call I V U)) :
    (s.moved id head session call).calls other = s.calls other :=
  Function.update_of_ne hne ..

theorem moved_sessions_of_ne (s : Pipeline X I V U) {id other : SessionId}
    (hne : other ≠ id) (head : Attrs X) (session : Option (Session X V))
    (call : Option (Call I V U)) :
    (s.moved id head session call).sessions other = s.sessions other :=
  Function.update_of_ne hne ..

/-- The results of a session, as events. -/
def results (id : SessionId) (outcomes : List (Outcome V U)) : List (Event V U) :=
  outcomes.map fun outcome => ⟨id, outcome⟩

/-- Every move is a step. -/
theorem step_of_moves {outcomes : List (Outcome V U)} {head : Attrs X}
    {session : Option (Session X V)} {call : Option (Call I V U)}
    (hmoves : Moves model s.head (s.sessions label.session) (s.calls label.session)
      label.action outcomes head session call) :
    step model s label =
      some (results label.session outcomes, s.moved label.session head session call) := by
  generalize hsession : s.sessions label.session = before at hmoves
  generalize hcall : s.calls label.session = current at hmoves
  generalize haction : label.action = action at hmoves
  have hkeep : Function.update s.calls label.session current = s.calls := by
    rw [← hcall, Function.update_eq_self]
  have hstay : Function.update s.sessions label.session before = s.sessions := by
    rw [← hsession, Function.update_eq_self]
  cases hmoves with
  | reset _ prompt =>
      simp [step, hcall, haction, Pipeline.reset, setSession, moved, results, hkeep]
  | unreadable session =>
      simp [step, hsession, hcall, haction, begin, moved, results, hkeep, hstay]
  | encode session images =>
      simp [step, hsession, hcall, haction, begin, setCall, moved, results, hstay]
  | recondition session obsLatent =>
      simp [step, hsession, hcall, haction, begin, setSession, moved, results, hkeep]
  | infer session =>
      simp [step, hsession, hcall, haction, begin, setSession, setCall, moved, results]
  | close session =>
      simp [step, hsession, hcall, haction, begin, setSession, moved, results, hkeep]
  | swapIn session method input =>
      simp [step, hsession, hcall, haction, advance, stepSwapIn, setCall, swapIn_eq, moved,
        results, hstay]
  | answer session method input head video actions hanswer =>
      simp [step, hsession, hcall, haction, advance, stepModel, hanswer, setCall, moved,
        results, hstay]
  | raise session method input head hraise =>
      simp [step, hsession, hcall, haction, advance, stepModel, hraise, setCall, moved,
        results, hstay]
  | swapOut session method video actions =>
      cases method <;>
        simp [step, hsession, hcall, haction, advance, stepSwapOut, setSession, setCall,
          swapOut_eq, moved, results]

/-- Some move is possible in every state where the label is enabled. -/
theorem moves_of_step (hstep : step model s label = some (es, t)) :
    ∃ outcomes head session call,
      Moves model s.head (s.sessions label.session) (s.calls label.session)
        label.action outcomes head session call := by
  generalize hsession : s.sessions label.session = before
  generalize hcall : s.calls label.session = current
  generalize haction : label.action = action
  rw [step, hsession, hcall, haction] at hstep
  cases current with
  | none =>
      cases action with
      | reset prompt => exact ⟨_, _, _, _, .reset before prompt⟩
      | encodeObservation images =>
          cases before with
          | none => simp at hstep
          | some session =>
              cases images with
              | none => exact ⟨_, _, _, _, .unreadable session⟩
              | some images => exact ⟨_, _, _, _, .encode session images⟩
      | recondition obsLatent =>
          cases before with
          | none => simp at hstep
          | some session => exact ⟨_, _, _, _, .recondition session obsLatent⟩
      | inferChunk =>
          cases before with
          | none => simp at hstep
          | some session => exact ⟨_, _, _, _, .infer session⟩
      | close =>
          cases before with
          | none => simp at hstep
          | some session => exact ⟨_, _, _, _, .close session⟩
      | advance =>
          cases before with
          | none => simp at hstep
          | some session => simp [begin] at hstep
  | some call =>
      cases before with
      | none => simp at hstep
      | some session =>
          cases action with
          | advance =>
              obtain ⟨method, phase⟩ := call
              cases phase with
              | swapIn input => exact ⟨_, _, _, _, .swapIn session method input⟩
              | model input =>
                  rcases hmodel : model s.head input with ⟨head, answer⟩
                  cases answer with
                  | none => exact ⟨_, _, _, _, .raise session method input head hmodel⟩
                  | some answer =>
                      exact ⟨_, _, _, _,
                        .answer session method input head answer.1 answer.2 hmodel⟩
              | swapOut video actions =>
                  exact ⟨_, _, _, _, .swapOut session method video actions⟩
          | _ => simp at hstep

/-- Inversion: a step is a move of its session. -/
theorem step_moves (hstep : step model s label = some (es, t)) :
    ∃ outcomes head session call,
      Moves model s.head (s.sessions label.session) (s.calls label.session)
        label.action outcomes head session call ∧
      es = results label.session outcomes ∧
      t = s.moved label.session head session call := by
  obtain ⟨outcomes, head, session, call, hmoves⟩ := moves_of_step hstep
  have heq := hstep.symm.trans (step_of_moves hmoves)
  simp only [Option.some.injEq, Prod.mk.injEq] at heq
  exact ⟨outcomes, head, session, call, hmoves, heq.1, heq.2⟩

/-- A step returns results to its own session only. -/
theorem results_session (hstep : step model s label = some (es, t)) :
    ∀ e ∈ es, e.session = label.session := by
  obtain ⟨outcomes, head, session, call, -, rfl, -⟩ := step_moves hstep
  intro e he
  obtain ⟨outcome, -, rfl⟩ := List.mem_map.mp he
  rfl

/-! ## A session alone -/

/-- A call that does not hold the head moves in the same way whatever the head holds. -/
theorem Moves.any_head {head head' : Attrs X} {before after : Option (Session X V)}
    {current next : Option (Call I V U)} {action : Action I V}
    {outcomes : List (Outcome V U)}
    (hmoves : Moves model head before current action outcomes head' after next)
    (hfree : ∀ call, current = some call → call.phase.onHead = false) (other : Attrs X) :
    ∃ other', Moves model other before current action outcomes other' after next ∧
      ∀ call, next = some call → call.phase.onHead = true → other' = head' := by
  cases hmoves with
  | reset _ prompt => exact ⟨other, .reset before prompt, fun _ hnext => nomatch hnext⟩
  | unreadable session => exact ⟨other, .unreadable session, fun _ hnext => nomatch hnext⟩
  | encode session images =>
      refine ⟨other, .encode session images, ?_⟩
      intro call hnext hon
      cases hnext
      cases hon
  | recondition session obsLatent =>
      exact ⟨other, .recondition session obsLatent, fun _ hnext => nomatch hnext⟩
  | infer session =>
      refine ⟨other, .infer session, ?_⟩
      intro call hnext hon
      cases hnext
      cases hon
  | close session => exact ⟨other, .close session, fun _ hnext => nomatch hnext⟩
  | swapIn session method input =>
      exact ⟨session.swap, .swapIn session method input, fun _ _ _ => rfl⟩
  | answer session method input => exact absurd (hfree _ rfl) (by simp [Phase.onHead])
  | raise session method input => exact absurd (hfree _ rfl) (by simp [Phase.onHead])
  | swapOut session method video actions =>
      exact absurd (hfree _ rfl) (by simp [Phase.onHead])

/-- A call that holds the head holds it already, or has just acquired it. -/
theorem Moves.onHead {head head' : Attrs X} {before after : Option (Session X V)}
    {current next : Option (Call I V U)} {action : Action I V}
    {outcomes : List (Outcome V U)} {call : Call I V U}
    (hmoves : Moves model head before current action outcomes head' after next)
    (hnext : next = some call) (hon : call.phase.onHead = true) :
    (∃ call, current = some call ∧ call.phase.onHead = true) ∨
      action = .advance ∧ ∃ method input, current = some ⟨method, .swapIn input⟩ := by
  cases hmoves with
  | encode session images =>
      cases hnext
      cases hon
  | infer session =>
      cases hnext
      cases hon
  | swapIn session method input => exact Or.inr ⟨rfl, method, input, rfl⟩
  | answer session method input => exact Or.inl ⟨_, rfl, rfl⟩
  | _ => cases hnext

/-- A step changes the head only when its session acquires or holds it. -/
theorem Moves.head_eq {head head' : Attrs X} {before after : Option (Session X V)}
    {current next : Option (Call I V U)} {action : Action I V}
    {outcomes : List (Outcome V U)}
    (hmoves : Moves model head before current action outcomes head' after next) :
    head' = head ∨ (∃ call, current = some call ∧ call.phase.onHead = true) ∨
      action = .advance ∧ ∃ method input, current = some ⟨method, .swapIn input⟩ := by
  cases hmoves with
  | swapIn session method input => exact Or.inr (Or.inr ⟨rfl, method, input, rfl⟩)
  | answer session method input => exact Or.inr (Or.inl ⟨_, rfl, rfl⟩)
  | raise session method input => exact Or.inr (Or.inl ⟨_, rfl, rfl⟩)
  | _ => exact Or.inl rfl

/-- At most one session's call holds the head. -/
def Single (s : Pipeline X I V U) : Prop :=
  ∀ id id', s.Holds id → s.Holds id' → id = id'

/-- A step that meets `Exclusive` keeps the head with one call. -/
theorem Single.step (hsingle : s.Single) (hexclusive : s.Exclusive label)
    (hstep : Pipeline.step model s label = some (es, t)) : t.Single := by
  obtain ⟨outcomes, head, session, call, hmoves, -, rfl⟩ := step_moves hstep
  -- whoever holds the head afterwards held it before or has just acquired it
  have hbefore : ∀ id, (s.moved label.session head session call).Holds id →
      s.Holds id ∨ id = label.session ∧ s.Acquires label := by
    rintro id ⟨after, hafter, hon⟩
    by_cases hid : id = label.session
    · subst hid
      rw [moved_calls_self] at hafter
      rcases hmoves.onHead hafter hon with hheld | hacquires
      · exact Or.inl hheld
      · exact Or.inr ⟨rfl, hacquires⟩
    · rw [moved_calls_of_ne s hid] at hafter
      exact Or.inl ⟨after, hafter, hon⟩
  intro id id' hid hid'
  rcases hbefore id hid with hheld | ⟨rfl, hacquires⟩
  · rcases hbefore id' hid' with hheld' | ⟨rfl, hacquires⟩
    · exact hsingle id id' hheld hheld'
    · by_contra hne
      exact hexclusive hacquires id hne hheld
  · rcases hbefore id' hid' with hheld' | ⟨rfl, -⟩
    · by_contra hne
      exact hexclusive hacquires id' (Ne.symm hne) hheld'
    · rfl

/-- The session is in the same place in both pipelines, on the same attributes while
its call holds the head. -/
structure Agrees (id : SessionId) (s s' : Pipeline X I V U) : Prop where
  sessions : s'.sessions id = s.sessions id
  calls : s'.calls id = s.calls id
  head : s.Holds id → s'.head = s.head

/-- The session's own steps are steps of the session alone. -/
theorem Agrees.mine (hagrees : Agrees label.session s s')
    (hstep : step model s label = some (es, t)) :
    ∃ t', step model s' label = some (es, t') ∧ Agrees label.session t t' := by
  obtain ⟨outcomes, head, session, call, hmoves, rfl, rfl⟩ := step_moves hstep
  have hcopy : ∃ head', Moves model s'.head (s'.sessions label.session)
      (s'.calls label.session) label.action outcomes head' session call ∧
      ∀ after, call = some after → after.phase.onHead = true → head' = head := by
    rw [hagrees.sessions, hagrees.calls]
    by_cases hholds : s.Holds label.session
    · rw [hagrees.head hholds]
      exact ⟨head, hmoves, fun _ _ _ => rfl⟩
    · refine hmoves.any_head ?_ s'.head
      intro current hcurrent
      by_contra hon
      exact hholds ⟨current, hcurrent, by simpa using hon⟩
  obtain ⟨head', hmoves', hhead⟩ := hcopy
  refine ⟨_, step_of_moves hmoves', ?_, ?_, ?_⟩
  · rw [moved_sessions_self, moved_sessions_self]
  · rw [moved_calls_self, moved_calls_self]
  · rintro ⟨after, hafter, hon⟩
    rw [moved_calls_self] at hafter
    exact hhead after hafter hon

/-- The steps of other sessions are not noticed. -/
theorem Agrees.other (hagrees : Agrees id s s') (hsingle : s.Single)
    (hexclusive : s.Exclusive label) (hid : label.session ≠ id)
    (hstep : step model s label = some (es, t)) : Agrees id t s' := by
  obtain ⟨outcomes, head, session, call, hmoves, -, rfl⟩ := step_moves hstep
  have hcalls : (s.moved label.session head session call).calls id = s.calls id :=
    moved_calls_of_ne s (Ne.symm hid) ..
  refine ⟨?_, hagrees.calls.trans hcalls.symm, ?_⟩
  · rw [hagrees.sessions, moved_sessions_of_ne s (Ne.symm hid)]
  · rintro ⟨mine, hmine, hon⟩
    have hholds : s.Holds id := ⟨mine, hcalls ▸ hmine, hon⟩
    have hsame : head = s.head := by
      rcases hmoves.head_eq with hsame | hheld | hacquires
      · exact hsame
      · exact absurd (hsingle label.session id hheld hholds) hid
      · exact absurd hholds (hexclusive hacquires id (Ne.symm hid))
    exact (hagrees.head hholds).trans hsame.symm

end Pipeline

open Pipeline

/-- In every run in which no session is swapped in while another one's call holds the
head, what a session sees is what it sees alone on a fresh pipeline. -/
theorem session_isolated (model : Model X I V U) (head head' : Attrs X)
    {as : List (Label I V)} {es : List (Event V U)} {s : Pipeline X I V U}
    (hrun : (dreamZero model head).run (dreamZero model head).init as = some (es, s))
    (hexclusive : (dreamZero model head).Meets Exclusive (dreamZero model head).init as)
    (id : SessionId) :
    ∃ s', (dreamZero model head').run (dreamZero model head').init
        (as.filter fun label => label.session = id) =
      some (es.filter fun e => e.session = id, s') := by
  suffices hsim : ∃ s', (dreamZero model head').run (dreamZero model head').init
      (as.filter fun label => label.session = id) =
        some (es.filter fun e => e.session = id, s') ∧ (s.Single ∧ Agrees id s s') by
    obtain ⟨s', hrun', -⟩ := hsim
    exact ⟨s', hrun'⟩
  refine Machine.run_project (R := fun s s' => s.Single ∧ Agrees id s s') ?_ ?_ as
    (dreamZero model head).init (dreamZero model head').init es s ?_ hexclusive hrun
  · rintro s s' label es t ⟨hsingle, hagrees⟩ hC hmine hstep
    obtain rfl : label.session = id := by simpa using hmine
    obtain ⟨t', hstep', hagrees'⟩ := hagrees.mine hstep
    refine ⟨?_, t', hstep', hsingle.step hC hstep, hagrees'⟩
    intro e he
    simpa using results_session hstep e he
  · rintro s s' label es t ⟨hsingle, hagrees⟩ hC hother hstep
    have hne : label.session ≠ id := by simpa using hother
    refine ⟨?_, hsingle.step hC hstep, hagrees.other hsingle hC hne hstep⟩
    intro e he
    have hsession := results_session hstep e he
    simpa [hsession] using hne
  · refine ⟨fun _ _ hid => absurd hid (not_holds_of_none rfl), rfl, rfl, ?_⟩
    exact fun hholds => absurd hholds (not_holds_of_none rfl)

/-! ## Two sessions -/

/-- A model that counts the frames of its session and returns the count. -/
def countFrames : Model Unit Unit Int Unit := fun attrs _ =>
  match attrs .currentStartFrame with
  | .int frame =>
      (Function.update attrs .currentStartFrame (.int (frame + 1)), some (frame, ()))
  | _ => (attrs, none)

/-- A session takes an action. -/
def ofSession (session : Nat) (action : Action Unit Int) : Label Unit Int := ⟨⟨session⟩, action⟩

/-- Two sessions are opened, and each one's seed forward runs in one piece. -/
def inTurn : List (Label Unit Int) :=
  [ofSession 0 (.reset none), ofSession 1 (.reset none),
    ofSession 0 (.encodeObservation (some ())), ofSession 1 (.encodeObservation (some ())),
    ofSession 0 .advance, ofSession 0 .advance, ofSession 0 .advance,
    ofSession 1 .advance, ofSession 1 .advance, ofSession 1 .advance]

/-- The seed forward of session 1 runs between the swap-in of session 0 and its model
call. -/
def overlapping : List (Label Unit Int) :=
  [ofSession 0 (.reset none), ofSession 1 (.reset none),
    ofSession 0 (.encodeObservation (some ())), ofSession 1 (.encodeObservation (some ())),
    ofSession 0 .advance, ofSession 1 .advance, ofSession 1 .advance, ofSession 1 .advance,
    ofSession 0 .advance, ofSession 0 .advance]

/-- A pipeline of `countFrames` with nothing on its head yet. -/
abbrev countingPipeline : Machine (Pipeline Unit Unit Int Unit) (Label Unit Int)
    (Event Int Unit) :=
  dreamZero countFrames fun _ => .none

/-- The events of a run. -/
def counted (labels : List (Label Unit Int)) : Option (List (Event Int Unit)) :=
  (countingPipeline.run countingPipeline.init labels).map Prod.fst

theorem run_of_counted (labels : List (Label Unit Int)) {es : List (Event Int Unit)}
    (hcounted : counted labels = some es) :
    ∃ s, countingPipeline.run countingPipeline.init labels = some (es, s) := by
  obtain ⟨⟨es', s⟩, hrun, rfl⟩ := Option.map_eq_some_iff.mp hcounted
  exact ⟨s, hrun⟩

/-- The head is free at every swap-in of `inTurn`. -/
theorem inTurn_exclusive : countingPipeline.Meets Exclusive countingPipeline.init inTurn := by
  have hbegin : ∀ {s : Pipeline Unit Unit Int Unit} {session : Nat} {action},
      action ≠ .advance → s.Exclusive (ofSession session action) :=
    fun hne hacquires => absurd hacquires.1 hne
  have hfree : ∀ {s : Pipeline Unit Unit Int Unit} {session : Nat},
      (∀ id, ¬ s.Holds id) → s.Exclusive (ofSession session .advance) :=
    fun hnobody _ other _ => hnobody other
  have hmoving : ∀ {s : Pipeline Unit Unit Int Unit} {session : Nat} {call},
      s.calls ⟨session⟩ = some call → call.phase.onHead = true →
        s.Exclusive (ofSession session .advance) := by
    rintro s session call hcall hon ⟨-, method, input, hswap⟩
    have heq := hcall.symm.trans hswap
    cases heq
    cases hon
  iterate 4
    intro es t hstep
    cases hstep
    refine ⟨hbegin (by simp), ?_⟩
  have hinit : ∀ id, ¬ countingPipeline.init.Holds id := fun id => not_holds_of_none rfl
  -- each seed forward: the swap-in of a free head, then the two steps that hold it
  iterate 2
    intro es t hstep
    cases hstep
    refine ⟨hfree ?_, ?_⟩
    · intro id
      simp [holds_setCall, Pipeline.reset, Phase.onHead, stepSwapIn, hinit]
    iterate 2
      intro es t hstep
      cases hstep
      refine ⟨hmoving rfl rfl, ?_⟩
  trivial

/-- Session 1 of `inTurn` sees what it sees alone. -/
theorem inTurn_isolated :
    ∃ s', countingPipeline.run countingPipeline.init
        (inTurn.filter fun label => label.session = ⟨1⟩) =
      some ([⟨⟨1⟩, .encoded 0⟩], s') := by
  have hcounted : counted inTurn = some [⟨⟨0⟩, .encoded 0⟩, ⟨⟨1⟩, .encoded 0⟩] := by decide
  obtain ⟨s, hrun⟩ := run_of_counted inTurn hcounted
  exact session_isolated countFrames (fun _ => .none) (fun _ => .none) hrun inTurn_exclusive ⟨1⟩

/-- Session 0 of `overlapping` is run on the frame session 1 has left on the head. -/
theorem overlapping_mixes :
    ¬ ∀ (head head' : Attrs Unit) (as : List (Label Unit Int)) (es : List (Event Int Unit))
        (s : Pipeline Unit Unit Int Unit),
        (dreamZero countFrames head).run (dreamZero countFrames head).init as = some (es, s) →
          ∀ id, ∃ s', (dreamZero countFrames head').run (dreamZero countFrames head').init
              (as.filter fun label => label.session = id) =
            some (es.filter fun e => e.session = id, s') := by
  intro hall
  have hcounted : counted overlapping =
      some [⟨⟨1⟩, .encoded 0⟩, ⟨⟨0⟩, .encoded 1⟩] := by decide
  have hfresh : counted (overlapping.filter fun label => label.session = ⟨0⟩) =
      some [⟨⟨0⟩, .encoded 0⟩] := by decide
  obtain ⟨s, hrun⟩ := run_of_counted overlapping hcounted
  obtain ⟨s', halone⟩ := hall _ _ overlapping _ s hrun ⟨0⟩
  obtain ⟨t, hrun'⟩ := run_of_counted _ hfresh
  have heq := halone.symm.trans hrun'
  simp only [Option.some.injEq, Prod.mk.injEq] at heq
  exact absurd heq.1 (by decide)

end Repercep.Models
