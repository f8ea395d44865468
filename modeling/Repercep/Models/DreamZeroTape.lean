import Repercep.Models.DreamZeroEngine
set_option autoImplicit false

/-!
# DreamZero: a session is a tape

The first block is made from the observed images, and each block after it from the one
before.  So what a session is shown is fixed when it is opened: a step shows the next block,
whatever has been executed, and a plan reads the actions of the block that stands, or, before
the first step, moves on to the next one.
-/

namespace Repercep.Models.DreamZeroEngine

open Repercep.Foundation

/-! ## The tape and its player -/

/-- A block: the attributes that making it has left, its video and its actions. -/
structure Block (X V R : Type) where
  attrs : Attrs X
  video : V
  actions : Actions R

/-- The block that the model makes. -/
def record {X I V R : Type} (model : Model X I V (Actions R)) (attrs : Attrs X)
    (input : Input I V) : Option (Block X V R) :=
  match model attrs input with
  | (attrs', some (video, actions)) => some ⟨attrs', video, actions⟩
  | (_, none) => none

/-- The tape of the images. -/
def tape {X I V R : Type} (model : Model X I V (Actions R)) (prompt : String) (images : I) :
    Nat → Option (Block X V R)
  | 0 => record model (freshSwap X) ⟨prompt, some images, none⟩
  | n + 1 => (tape model prompt images n).bind fun block =>
      record model block.attrs ⟨prompt, none, some block.video⟩

/-- Where a tape stands. -/
structure Position where
  steps : Nat
  /-- a plan came before the first step -/
  early : Bool
  deriving DecidableEq

/-- The block that stands. -/
def Position.block (p : Position) : Nat := p.steps + p.early.toNat

theorem Position.block_stepped (p : Position) :
    ({ p with steps := p.steps + 1 } : Position).block = p.block + 1 := by
  simp only [Position.block]
  omega

theorem Position.block_early {p : Position} (hfirst : p.block = 0) :
    ({ p with early := true } : Position).block = p.block + 1 := by
  have hsteps : p.steps = 0 := by
    rw [Position.block] at hfirst
    omega
  rw [hfirst, Position.block, hsteps]
  rfl

/-- The kind of an answer. -/
inductive Reply where
  | opened
  | stepped
  | proposed
  | raised
  deriving DecidableEq

/-- The kind of an answer. -/
def Answer.reply {V R : Type} : Answer V R → Reply
  | .opened _ => .opened
  | .stepped _ => .stepped
  | .proposed _ => .proposed
  | .raised => .raised

/-- The player of a tape: it is told no more than the kind of each answer. -/
def player {X V R : Type} (blocks : Nat → Option (Block X V R)) :
    Machine (Option Position) Reply (Answer V R) where
  init := none
  step
    | none, .opened => (blocks 0).map fun b => ([.opened b.video], some ⟨0, false⟩)
    | some p, .stepped => (blocks (p.block + 1)).map fun b =>
        ([.stepped b.video], some { p with steps := p.steps + 1 })
    | some p, .proposed =>
        if p.block = 0 then
          (blocks 1).map fun b => ([.proposed b.actions.first], some { p with early := true })
        else (blocks p.block).map fun b => ([.proposed b.actions.first], some p)
    | p, .raised => some ([.raised], p)
    | _, _ => none

section Tape

variable {X I V R : Type} {model : Model X I V (Actions R)} {prompt : String} {images : I}

/-- What a block is made from: the attributes and the input. -/
def cue (model : Model X I V (Actions R)) (prompt : String) (images : I) :
    Nat → Option (Attrs X × Input I V)
  | 0 => some (freshSwap X, ⟨prompt, some images, none⟩)
  | n + 1 => (tape model prompt images n).map fun block =>
      (block.attrs, ⟨prompt, none, some block.video⟩)

theorem tape_of_cue {n : Nat} {attrs head : Attrs X} {input : Input I V} {video : V}
    {actions : Actions R} (hcue : cue model prompt images n = some (attrs, input))
    (hmodel : model attrs input = (head, some (video, actions))) :
    tape model prompt images n = some ⟨head, video, actions⟩ := by
  have hrecord : record model attrs input = some ⟨head, video, actions⟩ := by
    rw [record, hmodel]
  cases n with
  | zero =>
      cases hcue
      exact hrecord
  | succ n =>
      obtain ⟨block, hblock, heq⟩ := Option.map_eq_some_iff.mp hcue
      cases heq
      rw [tape, hblock]
      exact hrecord

/-! ## A session on its tape -/

/-- The pipeline's session is about to make block `n`. -/
structure Ready (model : Model X I V (Actions R)) (prompt : String) (images : I) (n : Nat)
    (session : Session X V) : Prop where
  promptKept : session.prompt = prompt
  nothingPending : session.pendingLatentVideo = none
  cued : cue model prompt images n =
    some (session.swap, ⟨prompt, if n = 0 then some images else none, session.lastVideoPred⟩)

/-- The pipeline's session is making block `n`. -/
def Making (model : Model X I V (Actions R)) (prompt : String) (images : I) (n : Nat)
    (head : Attrs X) (session : Session X V) (phase : Phase I V (Actions R)) : Prop :=
  Ready model prompt images n session ∧
    match phase with
    | .swapIn input => cue model prompt images n = some (session.swap, input)
    | .model input => cue model prompt images n = some (head, input)
    | .swapOut video actions => tape model prompt images n = some ⟨head, video, actions⟩

theorem Ready.swapIn {n : Nat} {session : Session X V} (h : Ready model prompt images n session)
    (head : Attrs X) {shown : Option I} (hshown : shown = if n = 0 then some images else none) :
    Making model prompt images n head session
      (.swapIn ⟨session.prompt, shown, session.lastVideoPred⟩) := by
  refine ⟨h, ?_⟩
  rw [h.cued, h.promptKept, hshown]

/-- `infer_chunk` begins. -/
theorem Ready.infer {n : Nat} {session : Session X V}
    (h : Ready model prompt images (n + 1) session) {head : Attrs X} :
    Making model prompt images (n + 1) head { session with pendingLatentVideo := none }
      (.swapIn ⟨session.prompt, none,
        session.pendingLatentVideo.orElse fun _ => session.lastVideoPred⟩) := by
  rw [h.nothingPending]
  have hready : Ready model prompt images (n + 1) { session with pendingLatentVideo := none } :=
    ⟨h.promptKept, rfl, h.cued⟩
  exact hready.swapIn head rfl

/-- A block has been made. -/
theorem Ready.next {n : Nat} {head : Attrs X} {session : Session X V} {video : V}
    {actions : Actions R} (h : Ready model prompt images n session)
    (htape : tape model prompt images n = some ⟨head, video, actions⟩) :
    Ready model prompt images (n + 1)
      { session with swap := head, lastVideoPred := some video } := by
  refine ⟨h.promptKept, h.nothingPending, ?_⟩
  rw [cue, htape]
  rfl

/-- A call on the head moves on, raises, or returns the block. -/
theorem Making.moves {n : Nat} {method : Method} {phase : Phase I V (Actions R)}
    {head head' : Attrs X} {session : Session X V} {session' : Option (Session X V)}
    {current : Option (Call I V (Actions R))} {outcomes : List (Outcome V (Actions R))}
    (h : Making model prompt images n head session phase)
    (hmoves : Pipeline.Moves model head (some session) (some ⟨method, phase⟩) .advance outcomes
      head' session' current) :
    (∃ phase', outcomes = [] ∧ session' = some session ∧ current = some ⟨method, phase'⟩ ∧
        Making model prompt images n head' session phase') ∨
      (outcomes = [.raised] ∧ session' = some session ∧ current = none ∧
        Ready model prompt images n session) ∨
      ∃ block session'', tape model prompt images n = some block ∧
        outcomes = [match method with
          | .encodeObservation => .encoded block.video
          | .inferChunk => .inferred block.video block.actions] ∧
        session' = some session'' ∧ current = none ∧
        Ready model prompt images (n + 1) session'' := by
  obtain ⟨hready, hphase⟩ := h
  cases hmoves with
  | swapIn session method input =>
      exact Or.inl ⟨_, rfl, rfl, rfl, hready, hphase⟩
  | answer session method input head video actions hanswer =>
      exact Or.inl ⟨_, rfl, rfl, rfl, hready, tape_of_cue hphase hanswer⟩
  | raise session method input head hraise =>
      exact Or.inr (Or.inl ⟨rfl, rfl, rfl, hready⟩)
  | swapOut session method video actions =>
      exact Or.inr (Or.inr ⟨_, _, hphase, rfl, rfl, rfl, hready.next hphase⟩)

/-- What the engine has parked are the actions of the block that stands. -/
def Parked (model : Model X I V (Actions R)) (prompt : String) (images : I) (p : Position)
    (session : EngineSession R) : Prop :=
  session.pendingActions =
    if p.block = 0 then none else (tape model prompt images p.block).map Block.actions

theorem Parked.block {p : Position} {n : Nat} {block : Block X V R}
    (hp : p.block = n + 1) (hblock : tape model prompt images (n + 1) = some block) (frame : Nat) :
    Parked model prompt images p ⟨frame, some block.actions⟩ := by
  rw [Parked, hp, if_neg (Nat.succ_ne_zero n), hblock]
  rfl

/-- A call that is to make the next block. -/
inductive Asks (model : Model X I V (Actions R)) (config : DreamZeroConfig) (images : I)
    (quiet : Prop) (p : Position) (kept : EngineSession R) : EngineCall I → Prop
  | step (hparked : Parked model (config.prompt.getD "") images p kept)
      (hclock : quiet → kept.currentStartFrame = config.numFramePerBlock * (p.steps + 1)) :
      Asks model config images quiet p kept .step
  | plan (hparked : Parked model (config.prompt.getD "") images p kept) (hfirst : p.block = 0)
      (hclock : quiet → kept.currentStartFrame = config.numFramePerBlock * p.steps) :
      Asks model config images quiet p kept .plan

theorem Asks.mono {p : Position} {kept : EngineSession R} {call : EngineCall I}
    {config : DreamZeroConfig} {quiet quiet' : Prop}
    (h : Asks model config images quiet p kept call) (hquiet : quiet' → quiet) :
    Asks model config images quiet' p kept call := by
  cases h with
  | step hparked hclock => exact .step hparked fun hq => hclock (hquiet hq)
  | plan hparked hfirst hclock => exact .plan hparked hfirst fun hq => hclock (hquiet hq)

theorem Asks.parked {p : Position} {kept : EngineSession R} {call : EngineCall I}
    {config : DreamZeroConfig} {quiet : Prop} (h : Asks model config images quiet p kept call) :
    Parked model (config.prompt.getD "") images p kept := by
  cases h with
  | step hparked => exact hparked
  | plan hparked => exact hparked

/-- A session in the engine and the pipeline, with its tape at a position; `quiet` if none of
its calls has raised. -/
inductive Stands (model : Model X I V (Actions R)) (config : DreamZeroConfig) (images : I)
    (quiet : Prop) (head : Attrs X) :
    Option Position → Bool → Option (EngineSession R) → Option (EngineCall I) →
      Option (Session X V) → Option (Call I V (Actions R)) → Prop
  | unopened (session : Option (Session X V)) :
      Stands model config images quiet head none false none none session none
  | unreadable (session : Session X V) :
      Stands model config images quiet head none true none (some (.reset none)) (some session)
        none
  | opening (session : Session X V)
      (hready : Ready model (config.prompt.getD "") images 0 session) :
      Stands model config images quiet head none true none (some (.reset (some images)))
        (some session) none
  | seeding (session : Session X V) (phase : Phase I V (Actions R))
      (hmaking : Making model (config.prompt.getD "") images 0 head session phase) :
      Stands model config images quiet head none true none (some (.reset (some images)))
        (some session) (some ⟨.encodeObservation, phase⟩)
  | idle (p : Position) (kept : EngineSession R) (session : Session X V)
      (hready : Ready model (config.prompt.getD "") images (p.block + 1) session)
      (hparked : Parked model (config.prompt.getD "") images p kept)
      (hclock : quiet → kept.currentStartFrame = config.numFramePerBlock * p.steps) :
      Stands model config images quiet head (some p) true (some kept) none (some session) none
  | asked (p : Position) (kept : EngineSession R) (call : EngineCall I) (session : Session X V)
      (hready : Ready model (config.prompt.getD "") images (p.block + 1) session)
      (hasks : Asks model config images quiet p kept call) :
      Stands model config images quiet head (some p) true (some kept) (some call) (some session)
        none
  | making (p : Position) (kept : EngineSession R) (call : EngineCall I) (session : Session X V)
      (phase : Phase I V (Actions R))
      (hmaking : Making model (config.prompt.getD "") images (p.block + 1) head session phase)
      (hasks : Asks model config images quiet p kept call) :
      Stands model config images quiet head (some p) true (some kept) (some call) (some session)
        (some ⟨.inferChunk, phase⟩)
  | gone (position : Option Position) (session : Option (Session X V)) :
      Stands model config images quiet head position true none none session none

variable {config : DreamZeroConfig} {quiet quiet' : Prop} {head head' : Attrs X}

/-- The tape has moved to a position, with the session, while giving the answers. -/
def Plays (model : Model X I V (Actions R)) (config : DreamZeroConfig) (images : I)
    (position : Option Position) (answers : List (Answer V R))
    (stands : Option Position → Prop) : Prop :=
  ∃ position', (player (tape model (config.prompt.getD "") images)).run position
      (answers.map Answer.reply) = some (answers, position') ∧ stands position'

/-- The call's block has been made. -/
theorem Asks.made {p : Position} {kept : EngineSession R} {call : EngineCall I}
    {block : Block X V R} {session : Session X V} {answers : List (Answer V R)}
    {session' : Option (EngineSession R)} {call' : Option (EngineCall I)}
    (h : Asks model config images quiet p kept call)
    (hblock : tape model (config.prompt.getD "") images (p.block + 1) = some block)
    (hready : Ready model (config.prompt.getD "") images (p.block + 1 + 1) session)
    (hquiet : quiet' → quiet)
    (hreact : Engine.react (some kept) call [.inferred block.video block.actions] =
      (answers, session', call')) :
    Plays model config images (some p) answers fun position' =>
      Stands model config images quiet' head position' true session' call' (some session)
        none := by
  cases h with
  | step hparked hclock =>
      cases hreact
      have hp := p.block_stepped
      refine ⟨some { p with steps := p.steps + 1 }, ?_,
        .idle _ _ session (hp ▸ hready) (.block hp hblock _) fun hq => hclock (hquiet hq)⟩
      exact Machine.run_singleton (by simp [player, hblock, Answer.reply])
  | plan hparked hfirst hclock =>
      cases hreact
      have hp := Position.block_early hfirst
      refine ⟨some { p with early := true }, ?_,
        .idle _ _ session (hp ▸ hready) (.block hp hblock _) fun hq => hclock (hquiet hq)⟩
      rw [hfirst] at hblock
      exact Machine.run_singleton (by simp [player, hfirst, hblock, Answer.reply])

/-- A call moves on in the pipeline. -/
theorem Stands.advance {position : Option Position} {issued : Bool}
    {kept : Option (EngineSession R)} {call : EngineCall I}
    {session session' : Option (Session X V)} {current current' : Option (Call I V (Actions R))}
    {outcomes : List (Outcome V (Actions R))}
    (hstands : Stands model config images quiet head position issued kept (some call) session
      current)
    (hmoves : Pipeline.Moves model head session current (call.next current.isSome) outcomes head'
      session' current')
    (hquiet : quiet' → quiet ∧ .raised ∉ (Engine.react kept call outcomes).1) :
    Plays model config images position (Engine.react kept call outcomes).1 fun position' =>
      Stands model config images quiet' head' position' issued
        (Engine.react kept call outcomes).2.1 (Engine.react kept call outcomes).2.2 session'
        current' := by
  cases hstands with
  | unreadable session =>
      cases hmoves with
      | unreadable => exact ⟨none, rfl, .gone none _⟩
  | opening session hready =>
      cases hmoves with
      | encode session images =>
          have hfirst : session.lastVideoPred = none := by
            have hcue := hready.cued
            simp only [cue, if_true, Option.some.injEq, Prod.mk.injEq, Input.mk.injEq] at hcue
            exact hcue.2.2.2.symm
          refine ⟨none, rfl, .seeding session _ ?_⟩
          have hmaking := hready.swapIn head rfl
          rw [hfirst] at hmaking
          exact hmaking
  | seeding session phase hmaking =>
      rcases hmaking.moves hmoves with ⟨phase', rfl, rfl, rfl, hmaking'⟩ | ⟨rfl, rfl, rfl, -⟩ |
        ⟨block, session'', hblock, rfl, rfl, rfl, hready⟩
      · exact ⟨none, rfl, .seeding session phase' hmaking'⟩
      · exact ⟨none, rfl, .gone none _⟩
      · refine ⟨some ⟨0, false⟩, ?_, .idle _ _ session'' hready rfl fun _ => rfl⟩
        exact Machine.run_singleton (by simp [player, hblock, Engine.react, Answer.reply])
  | asked p kept call session hready hasks =>
      have hnext : call.next (V := V) false = .inferChunk := by
        cases hasks <;> rfl
      rw [Option.isSome_none, hnext] at hmoves
      cases hmoves with
      | infer session =>
          exact ⟨some p, rfl, .making p kept call _ _ hready.infer
            (hasks.mono fun hq => (hquiet hq).1)⟩
  | making p kept call session phase hmaking hasks =>
      rcases hmaking.moves hmoves with ⟨phase', rfl, rfl, rfl, hmaking'⟩ | ⟨rfl, rfl, rfl, hready⟩ |
        ⟨block, session'', hblock, rfl, rfl, rfl, hready⟩
      · exact ⟨some p, rfl, .making p kept call session phase' hmaking'
          (hasks.mono fun hq => (hquiet hq).1)⟩
      · exact ⟨some p, rfl, .idle p kept session hready hasks.parked
          fun hq => absurd (List.mem_singleton_self _) (hquiet hq).2⟩
      · exact hasks.made hblock hready (fun hq => (hquiet hq).1) rfl

/-- Only a call that is on the head looks at it. -/
theorem Making.onHead {n : Nat} {session : Session X V} {phase : Phase I V (Actions R)}
    (h : Making model prompt images n head session phase)
    (hhead : phase.onHead = true → head' = head) :
    Making model prompt images n head' session phase := by
  cases phase with
  | swapIn input => exact h
  | model input => exact hhead rfl ▸ h
  | swapOut video actions => exact hhead rfl ▸ h

theorem Stands.imp {position : Option Position} {issued : Bool} {kept : Option (EngineSession R)}
    {call : Option (EngineCall I)} {session : Option (Session X V)}
    {current : Option (Call I V (Actions R))}
    (hstands : Stands model config images quiet head position issued kept call session current)
    (hhead : ∀ on, current = some on → on.phase.onHead = true → head' = head)
    (hquiet : quiet' → quiet) :
    Stands model config images quiet' head' position issued kept call session current := by
  cases hstands with
  | unopened => exact .unopened session
  | unreadable session => exact .unreadable session
  | opening session hready => exact .opening session hready
  | seeding session phase hmaking =>
      exact .seeding session phase (hmaking.onHead (hhead _ rfl))
  | idle p kept session hready hparked hclock =>
      exact .idle p kept session hready hparked fun hq => hclock (hquiet hq)
  | asked p kept call session hready hasks =>
      exact .asked p kept call session hready (hasks.mono hquiet)
  | making p kept call session phase hmaking hasks =>
      exact .making p kept call session phase (hmaking.onHead (hhead _ rfl)) (hasks.mono hquiet)
  | gone => exact .gone position session

/-- `reset` opens the session in the pipeline. -/
theorem Stands.reset {position : Option Position} {kept : Option (EngineSession R)}
    {session session' : Option (Session X V)} {current current' : Option (Call I V (Actions R))}
    {outcomes : List (Outcome V (Actions R))} {shown : Option I}
    (hstands : Stands model config images quiet head position false kept none session current)
    (hmoves : Pipeline.Moves model head session current (.reset config.prompt) outcomes head'
      session' current')
    (hshown : ∀ images', shown = some images' → images' = images) :
    Stands model config images quiet' head' position true kept (some (.reset shown)) session'
      current' := by
  cases hstands with
  | unopened =>
      cases hmoves with
      | reset =>
          cases shown with
          | none => exact .unreadable _
          | some images' =>
              cases hshown images' rfl
              exact .opening _ ⟨rfl, rfl, rfl⟩

theorem moves_close {session session' : Option (Session X V)}
    {current current' : Option (Call I V (Actions R))} {outcomes : List (Outcome V (Actions R))}
    (hmoves : Pipeline.Moves model head session current .close outcomes head' session' current') :
    head' = head ∧ session' = none ∧ current' = none := by
  cases hmoves with
  | close => exact ⟨rfl, rfl, rfl⟩

/-- Of a session that has been dropped, nothing is kept. -/
theorem Stands.release {position : Option Position} {issued : Bool}
    {kept : Option (EngineSession R)} {session : Option (Session X V)}
    {current : Option (Call I V (Actions R))}
    (hstands : Stands model config images quiet head position issued kept none session current)
    (session' : Option (Session X V)) :
    current = none ∧
      Stands model config images quiet' head position issued none none session' none := by
  cases hstands with
  | unopened => exact ⟨rfl, .unopened session'⟩
  | idle p kept session hready hparked hclock => exact ⟨rfl, .gone _ session'⟩
  | gone => exact ⟨rfl, .gone _ session'⟩

/-- A call of `step` begins. -/
theorem Stands.beginStep {position : Option Position} {issued : Bool} {kept : EngineSession R}
    {session session' : Option (Session X V)} {current current' : Option (Call I V (Actions R))}
    {outcomes : List (Outcome V (Actions R))}
    (hstands : Stands model config images quiet head position issued (some kept) none session
      current)
    (hmoves : Pipeline.Moves model head session current (.recondition none) outcomes head' session'
      current')
    (hquiet : quiet' → quiet) :
    Stands model config images quiet' head' position issued
      (some { kept with currentStartFrame := kept.currentStartFrame + config.numFramePerBlock })
      (some .step) session' current' := by
  cases hstands with
  | idle p kept session hready hparked hclock =>
      cases hmoves with
      | recondition session =>
          have hready' : Ready model (config.prompt.getD "") images (p.block + 1)
              { session with pendingLatentVideo := none } :=
            ⟨hready.promptKept, rfl, hready.cued⟩
          refine .asked p _ .step _ hready' (.step hparked fun hq => ?_)
          rw [hclock (hquiet hq), Nat.mul_succ]

/-- A call of `plan` answers with what is parked, or goes on to the next block. -/
theorem Stands.plan {position : Option Position} {issued : Bool} {kept : EngineSession R}
    {session : Option (Session X V)} {current : Option (Call I V (Actions R))}
    (hstands : Stands model config images quiet head position issued (some kept) none session
      current) (hquiet : quiet' → quiet) :
    (∀ actions, kept.pendingActions = some actions →
      Plays model config images position [.proposed actions.first] fun position' =>
        Stands model config images quiet' head position' issued (some kept) none session current) ∧
      (kept.pendingActions = none →
        Stands model config images quiet' head position issued (some kept) (some .plan) session
          current) := by
  cases hstands with
  | idle p kept session hready hparked hclock =>
      refine ⟨fun actions hactions => ?_, fun hnone => ?_⟩
      · by_cases hfirst : p.block = 0
        · rw [hparked, if_pos hfirst] at hactions
          cases hactions
        · rw [hparked, if_neg hfirst] at hactions
          obtain ⟨block, hblock, rfl⟩ := Option.map_eq_some_iff.mp hactions
          refine ⟨some p, ?_, .idle p kept session hready hparked fun hq => hclock (hquiet hq)⟩
          exact Machine.run_singleton (by simp [player, hfirst, hblock, Answer.reply])
      · by_cases hfirst : p.block = 0
        · exact .asked p kept .plan session hready
            (.plan hparked hfirst fun hq => hclock (hquiet hq))
        · rw [hparked, if_neg hfirst] at hnone
          -- the block that stands has been recorded
          obtain ⟨n, hn⟩ := Nat.exists_eq_succ_of_ne_zero hfirst
          have hcue := hready.cued
          rw [cue, Option.map_eq_none_iff.mp hnone] at hcue
          cases hcue

end Tape

/-! ## The engine's sessions -/

/-- The answers of a session. -/
def answersOf {V R : Type} (id : SessionId) (log : List (EngineEvent V R)) : List (Answer V R) :=
  (log.filter fun e => e.session = id).map EngineEvent.answer

namespace Engine

variable {X I V R : Type} {model : Model X I V (Actions R)} {config : DreamZeroConfig} {images : I}
variable {s t : Engine X I V R} {label : EngineLabel I R} {es : List (EngineEvent V R)}
variable {id : SessionId} {quiet quiet' : Prop} {position : Option Position}

/-- The session's share of the engine. -/
def Shows (model : Model X I V (Actions R)) (config : DreamZeroConfig) (images : I) (quiet : Prop)
    (id : SessionId) (s : Engine X I V R) (position : Option Position) : Prop :=
  Stands model config images quiet s.pipeline.head position (s.issued id) (s.sessions id)
    (s.calls id) (s.pipeline.sessions id) (s.pipeline.calls id)

/-- A step in the pipeline is a move of the session. -/
theorem drive_moves {action : Action I V} {r : List (Event V (Actions R)) × Engine X I V R}
    (hdrive : s.drive model id action = some r) :
    ∃ outcomes head session call,
      Pipeline.Moves model s.pipeline.head (s.pipeline.sessions id) (s.pipeline.calls id) action
        outcomes head session call ∧
      r = (Pipeline.results id outcomes,
        { s with pipeline := s.pipeline.moved id head session call }) := by
  obtain ⟨⟨events, after⟩, hstep, rfl⟩ := Option.map_eq_some_iff.mp hdrive
  obtain ⟨outcomes, head, session, call, hmoves, rfl, rfl⟩ := Pipeline.step_moves hstep
  exact ⟨outcomes, head, session, call, hmoves, rfl⟩

theorem answersOf_mine (answers : List (Answer V R)) :
    answersOf id (answers.map fun answer => ⟨id, answer⟩) = answers := by
  rw [answersOf, List.filter_eq_self.mpr, List.map_map]
  · exact List.map_id answers
  · intro e he
    obtain ⟨answer, -, rfl⟩ := List.mem_map.mp he
    exact decide_eq_true rfl

theorem Shows.raised (hshows : Shows model config images quiet id s position)
    (hquiet : quiet' → quiet) :
    Plays model config images position [.raised] (Shows model config images quiet' id s) := by
  refine ⟨position, ?_, Stands.imp hshows (fun _ _ _ => rfl) hquiet⟩
  cases position <;> rfl

theorem Shows.beginStep {values : List R} (hshows : Shows model config images quiet id s position)
    (hcall : s.calls id = none) (hstep : s.beginStep model config id values = some (es, t))
    (hquiet : quiet' → quiet) :
    ∃ answers, es = answers.map (EngineEvent.mk id) ∧
      Plays model config images position answers (Shows model config images quiet' id t) := by
  unfold Engine.beginStep at hstep
  split at hstep
  · next session _ hsession _ =>
      obtain ⟨r, hdrive, heq⟩ := Option.map_eq_some_iff.mp hstep
      obtain ⟨outcomes, head, session', call, hmoves, rfl⟩ := drive_moves hdrive
      cases heq
      refine ⟨[], rfl, position, rfl, ?_⟩
      unfold Shows at hshows
      rw [hcall, hsession] at hshows
      have hstands := hshows.beginStep hmoves hquiet
      simpa [Shows, setCall, setSession, Pipeline.moved] using hstands
  · cases hstep
    exact ⟨[.raised], rfl, hshows.raised hquiet⟩

theorem Shows.beginPlan (hshows : Shows model config images quiet id s position)
    (hcall : s.calls id = none) (hstep : s.beginPlan id = (es, t)) (hquiet : quiet' → quiet) :
    ∃ answers, es = answers.map (EngineEvent.mk id) ∧
      Plays model config images position answers (Shows model config images quiet' id t) := by
  unfold Engine.beginPlan at hstep
  split at hstep
  · cases hstep
    exact ⟨[.raised], rfl, hshows.raised hquiet⟩
  · next kept hsession =>
      have hstands := hshows
      unfold Shows at hstands
      rw [hcall, hsession] at hstands
      obtain ⟨hparked, hnext⟩ := hstands.plan hquiet
      split at hstep
      · next actions hactions =>
          cases hstep
          refine ⟨[.proposed actions.first], rfl, ?_⟩
          obtain ⟨position', hrun, hstands'⟩ := hparked actions hactions
          refine ⟨position', hrun, ?_⟩
          unfold Shows
          rw [hcall, hsession]
          exact hstands'
      · next hnone =>
          cases hstep
          refine ⟨[], rfl, position, rfl, ?_⟩
          have hstands' := hnext hnone
          rw [← hsession] at hstands'
          simpa [Shows, setCall] using hstands'

theorem Shows.release (hshows : Shows model config images quiet id s position)
    (hcall : s.calls id = none) :
    Shows model config images quiet' id (s.release model id) position := by
  unfold Engine.release
  have hstands := hshows
  unfold Shows at hstands
  rw [hcall] at hstands
  split
  · next r hdrive =>
      obtain ⟨outcomes, head, session, call, hmoves, rfl⟩ := drive_moves hdrive
      obtain ⟨rfl, rfl, rfl⟩ := moves_close hmoves
      obtain ⟨-, hgone⟩ := hstands.release none
      simpa [Shows, setSession, Pipeline.moved, hcall] using hgone
  · obtain ⟨hcurrent, hgone⟩ := hstands.release (s.pipeline.sessions id)
    simpa [Shows, setSession, hcall, hcurrent] using hgone

/-- The session's own steps. -/
theorem Shows.mine (hshows : Shows model config images quiet label.session s position)
    (hstep : s.step model config label = some (es, t))
    (himages : ∀ images', label.request = .reset (some images') → images' = images)
    (hquiet : quiet' → quiet ∧ .raised ∉ answersOf label.session es) :
    ∃ answers, es = answers.map (EngineEvent.mk label.session) ∧
      Plays model config images position answers
        (Shows model config images quiet' label.session t) := by
  obtain ⟨id, request⟩ := label
  dsimp only at hshows himages hquiet ⊢
  unfold Engine.step at hstep
  dsimp only at hstep
  cases hcall : s.calls id with
  | none =>
      rw [hcall] at hstep
      cases request with
      | reset shown =>
          dsimp only at hstep
          split at hstep
          · cases hstep
          · next hissued =>
              obtain ⟨r, hdrive, heq⟩ := Option.map_eq_some_iff.mp hstep
              obtain ⟨outcomes, head, session, call, hmoves, rfl⟩ := drive_moves hdrive
              cases heq
              refine ⟨[], rfl, position, rfl, ?_⟩
              unfold Shows at hshows
              rw [hcall, Bool.eq_false_iff.mpr hissued] at hshows
              have hstands : Stands model config images quiet' head position true (s.sessions id)
                  (some (.reset shown)) session call :=
                hshows.reset hmoves fun images' hshown =>
                  himages images' (congrArg Request.reset hshown)
              simpa [Shows, setCall, Pipeline.moved] using hstands
      | step values => exact hshows.beginStep hcall hstep fun hq => (hquiet hq).1
      | plan => exact hshows.beginPlan hcall (Option.some.inj hstep) fun hq => (hquiet hq).1
      | release =>
          cases hstep
          exact ⟨[], rfl, position, rfl, hshows.release hcall⟩
      | advance => cases hstep
  | some call =>
      rw [hcall] at hstep
      cases request with
      | advance =>
          obtain ⟨r, hdrive, heq⟩ := Option.map_eq_some_iff.mp hstep
          obtain ⟨outcomes, head, session, current, hmoves, rfl⟩ := drive_moves hdrive
          have houtcomes : (Pipeline.results id outcomes).map Event.outcome = outcomes := by
            rw [Pipeline.results, List.map_map]
            exact List.map_id outcomes
          dsimp only [returned] at heq
          rw [houtcomes] at heq
          cases heq
          refine ⟨(react (s.sessions id) call outcomes).1, rfl, ?_⟩
          unfold Shows at hshows
          rw [hcall] at hshows
          have hquiet' : quiet' → quiet ∧ .raised ∉ (react (s.sessions id) call outcomes).1 := by
            rw [answersOf_mine] at hquiet
            exact hquiet
          obtain ⟨position', hrun, hstands⟩ := hshows.advance hmoves hquiet'
          refine ⟨position', hrun, ?_⟩
          simpa [Shows, setCall, setSession, Pipeline.moved] using hstands
      | _ => cases hstep

/-- What a step leaves alone: it moves its own session, in the pipeline at most once. -/
structure Confined (model : Model X I V (Actions R)) (s : Engine X I V R) (label : EngineLabel I R)
    (es : List (EngineEvent V R)) (t : Engine X I V R) : Prop where
  events : ∀ e ∈ es, e.session = label.session
  sessions : ∀ id, id ≠ label.session → t.sessions id = s.sessions id
  calls : ∀ id, id ≠ label.session → t.calls id = s.calls id
  issued : ∀ id, id ≠ label.session → t.issued id = s.issued id
  pipeline : t.pipeline = s.pipeline ∨ ∃ action events,
    Pipeline.step model s.pipeline ⟨label.session, action⟩ = some (events, t.pipeline) ∧
      (action = .advance → label.request = .advance)

namespace Confined

theorem same : Confined model s label [] s :=
  ⟨nofun, fun _ _ => rfl, fun _ _ => rfl, fun _ _ => rfl, Or.inl rfl⟩

theorem setSession (h : Confined model s label es t) (session : Option (EngineSession R)) :
    Confined model s label es (t.setSession label.session session) := by
  refine ⟨h.events, fun id hne => ?_, h.calls, h.issued, h.pipeline⟩
  rw [← h.sessions id hne]
  exact Function.update_of_ne hne ..

theorem setCall (h : Confined model s label es t) (call : Option (EngineCall I)) :
    Confined model s label es (t.setCall label.session call) := by
  refine ⟨h.events, h.sessions, fun id hne => ?_, h.issued, h.pipeline⟩
  rw [← h.calls id hne]
  exact Function.update_of_ne hne ..

theorem issue (h : Confined model s label es t) :
    Confined model s label es
      { t with issued := Function.update s.issued label.session true } :=
  ⟨h.events, h.sessions, h.calls, fun _ hne => Function.update_of_ne hne .., h.pipeline⟩

theorem answer (h : Confined model s label [] t) (answers : List (Answer V R)) :
    Confined model s label (answers.map (EngineEvent.mk label.session)) t := by
  refine ⟨fun e he => ?_, h.sessions, h.calls, h.issued, h.pipeline⟩
  obtain ⟨answer, -, rfl⟩ := List.mem_map.mp he
  rfl

/-- The pipeline has not moved before. -/
theorem drive {action : Action I V} {r : List (Event V (Actions R)) × Engine X I V R}
    (h : Confined model s label es t) (hpipeline : t.pipeline = s.pipeline)
    (hdrive : t.drive model label.session action = some r)
    (hadvance : action = .advance → label.request = .advance) :
    Confined model s label es r.2 := by
  obtain ⟨⟨events, after⟩, hstep, rfl⟩ := Option.map_eq_some_iff.mp hdrive
  rw [hpipeline] at hstep
  exact ⟨h.events, h.sessions, h.calls, h.issued, Or.inr ⟨action, events, hstep, hadvance⟩⟩

theorem beginStep {values : List R}
    (hstep : s.beginStep model config label.session values = some (es, t)) :
    Confined model s label es t := by
  unfold Engine.beginStep at hstep
  split at hstep
  · obtain ⟨r, hdrive, heq⟩ := Option.map_eq_some_iff.mp hstep
    cases heq
    exact ((same.drive rfl hdrive nofun).setSession _).setCall _
  · cases hstep
    exact same.answer [.raised]

theorem beginPlan (hstep : s.beginPlan label.session = (es, t)) : Confined model s label es t := by
  unfold Engine.beginPlan at hstep
  split at hstep
  · cases hstep
    exact same.answer [.raised]
  · split at hstep
    · next actions _ =>
        cases hstep
        exact same.answer [.proposed actions.first]
    · cases hstep
      exact same.setCall _

theorem release : Confined model s label [] (s.release model label.session) := by
  unfold Engine.release
  split
  · next r hdrive => exact (same.setSession none).drive rfl hdrive nofun
  · exact same.setSession none

theorem step (hstep : s.step model config label = some (es, t)) : Confined model s label es t := by
  obtain ⟨id, request⟩ := label
  unfold Engine.step at hstep
  dsimp only at hstep
  cases hcall : s.calls id with
  | none =>
      rw [hcall] at hstep
      cases request with
      | reset shown =>
          dsimp only at hstep
          split at hstep
          · cases hstep
          · obtain ⟨r, hdrive, heq⟩ := Option.map_eq_some_iff.mp hstep
            cases heq
            have hdriven : Confined model s ⟨id, .reset shown⟩ [] r.2 :=
              same.drive rfl hdrive (by nofun)
            exact (hdriven.setCall _).issue
      | step values => exact .beginStep hstep
      | plan => exact .beginPlan (Option.some.inj hstep)
      | release =>
          cases hstep
          exact .release
      | advance => cases hstep
  | some call =>
      rw [hcall] at hstep
      cases request with
      | advance =>
          obtain ⟨r, hdrive, heq⟩ := Option.map_eq_some_iff.mp hstep
          cases heq
          exact (((same.drive rfl hdrive fun _ => rfl).setSession _).setCall _).answer _
      | _ => cases hstep

end Confined

/-! ## Whole runs -/

/-- No session is swapped in while another one's call holds the head. -/
def Exclusive (s : Engine X I V R) (label : EngineLabel I R) : Prop :=
  label.request = .advance → s.pipeline.Exclusive ⟨label.session, .advance⟩

/-- In the pipeline too. -/
theorem Exclusive.pipeline {action : Action I V} (h : s.Exclusive label)
    (hadvance : action = .advance → label.request = .advance) :
    s.pipeline.Exclusive ⟨label.session, action⟩ := by
  intro hacquires
  have haction : action = .advance := hacquires.1
  subst haction
  exact h (hadvance rfl) hacquires

/-- The steps of other sessions are not noticed. -/
theorem Shows.other (hshows : Shows model config images quiet id s position)
    (hconfined : Confined model s label es t) (hsingle : s.pipeline.Single)
    (hexclusive : s.Exclusive label) (hne : label.session ≠ id) :
    Shows model config images quiet id t position := by
  have hagrees : Pipeline.Agrees id t.pipeline s.pipeline := by
    rcases hconfined.pipeline with hsame | ⟨action, events, hstep, hadvance⟩
    · rw [hsame]
      exact ⟨rfl, rfl, fun _ => rfl⟩
    · have hsame : Pipeline.Agrees id s.pipeline s.pipeline := ⟨rfl, rfl, fun _ => rfl⟩
      exact hsame.other hsingle (hexclusive.pipeline hadvance) hne hstep
  unfold Shows
  rw [hconfined.issued id (Ne.symm hne), hconfined.sessions id (Ne.symm hne),
    hconfined.calls id (Ne.symm hne), ← hagrees.sessions, ← hagrees.calls]
  refine hshows.imp (fun on hon hphase => ?_) fun hq => hq
  exact (hagrees.head ⟨on, hagrees.calls ▸ hon, hphase⟩).symm

theorem Confined.single (hconfined : Confined model s label es t) (hsingle : s.pipeline.Single)
    (hexclusive : s.Exclusive label) : t.pipeline.Single := by
  rcases hconfined.pipeline with hsame | ⟨action, events, hstep, hadvance⟩
  · rw [hsame]
    exact hsingle
  · exact hsingle.step (hexclusive.pipeline hadvance) hstep

theorem answersOf_append (log es : List (EngineEvent V R)) :
    answersOf id (log ++ es) = answersOf id log ++ answersOf id es := by
  rw [answersOf, List.filter_append, List.map_append]
  rfl

theorem answersOf_other (hes : ∀ e ∈ es, e.session = label.session) (hne : label.session ≠ id) :
    answersOf id es = [] := by
  rw [answersOf, List.filter_eq_nil_iff.mpr]
  · rfl
  · intro e he
    rw [hes e he, decide_eq_false hne]
    exact Bool.false_ne_true

/-- A session in a run, with the tape of the images it was opened with. -/
structure Follows (model : Model X I V (Actions R)) (config : DreamZeroConfig) (images : I)
    (id : SessionId) (log : List (EngineEvent V R)) (s : Engine X I V R) : Prop where
  single : s.pipeline.Single
  plays : Plays model config images none (answersOf id log)
    (Shows model config images (.raised ∉ answersOf id log) id s)

theorem Follows.step {log : List (EngineEvent V R)}
    (hfollows : Follows model config images id log s) (hexclusive : s.Exclusive label)
    (himages : ∀ images', label = ⟨id, .reset (some images')⟩ → images' = images)
    (hstep : s.step model config label = some (es, t)) :
    Follows model config images id (log ++ es) t := by
  have hconfined := Confined.step hstep
  refine ⟨hconfined.single hfollows.single hexclusive, ?_⟩
  obtain ⟨position, hrun, hshows⟩ := hfollows.plays
  rw [answersOf_append]
  by_cases hid : label.session = id
  · subst hid
    have himages' : ∀ images', label.request = .reset (some images') → images' = images := by
      intro images' hrequest
      refine himages images' ?_
      rw [← hrequest]
    have hquiet : .raised ∉ answersOf label.session log ++ answersOf label.session es →
        .raised ∉ answersOf label.session log ∧ .raised ∉ answersOf label.session es := by
      intro hnot
      rw [List.mem_append, not_or] at hnot
      exact hnot
    obtain ⟨answers, hes, position', hrun', hshows'⟩ := hshows.mine hstep himages' hquiet
    have hanswers : answersOf label.session es = answers := by
      rw [hes]
      exact answersOf_mine answers
    refine ⟨position', ?_, hshows'⟩
    rw [List.map_append, hanswers]
    exact Machine.run_append_eq_some.mpr ⟨_, position, _, hrun, hrun', rfl⟩
  · rw [answersOf_other hconfined.events hid, List.append_nil]
    exact ⟨position, hrun, hshows.other hconfined hfollows.single hexclusive hid⟩

theorem follows_run {head : Attrs X} {labels : List (EngineLabel I R)} :
    ∀ {log : List (EngineEvent V R)} {s : Engine X I V R},
      (dreamZeroEngine model config head).run (dreamZeroEngine model config head).init labels =
        some (log, s) →
      (dreamZeroEngine model config head).Meets Exclusive
        (dreamZeroEngine model config head).init labels →
      (∀ images', EngineLabel.mk id (.reset (some images')) ∈ labels → images' = images) →
      Follows model config images id log s := by
  induction labels using List.reverseRecOn with
  | nil =>
      intro log s hrun _ _
      cases hrun
      refine ⟨?_, none, rfl, .unopened none⟩
      exact fun _ _ hholds => absurd hholds (Pipeline.not_holds_of_none rfl)
  | append_singleton labels label ih =>
      intro log s hrun hexclusive himages
      obtain ⟨before, t, es, hbefore, hstep, rfl⟩ := Machine.run_snoc_eq_some.mp hrun
      obtain ⟨hearlier, hlast⟩ := (Machine.along_append hbefore).mp hexclusive
      have hfollows := ih hbefore hearlier fun images' hmem =>
        himages images' (List.mem_append_left _ hmem)
      refine hfollows.step ((Machine.meets_cons hstep).mp hlast).1 (fun images' hlabel => ?_) hstep
      refine himages images' (List.mem_append_right _ ?_)
      rw [hlabel]
      exact List.mem_singleton_self _

/-- Where a session is to be swapped in, no other one of `ids` holds the head. -/
def FreeAmong (ids : List SessionId) (s : Engine X I V R) (label : EngineLabel I R) : Prop :=
  (s.pipeline.calls label.session).any (fun call => !call.phase.onHead) = true →
    ∀ other ∈ ids, other ≠ label.session →
      (s.pipeline.calls other).any (fun call => call.phase.onHead) = false

instance (ids : List SessionId) (s : Engine X I V R) (label : EngineLabel I R) :
    Decidable (FreeAmong ids s label) :=
  inferInstanceAs (Decidable (_ = true → ∀ other ∈ ids, other ≠ label.session → _ = false))

/-- For the sessions that a run has, the condition on the head looks at no others. -/
theorem meets_among {ids : List SessionId} {labels : List (EngineLabel I R)} {head : Attrs X}
    (hids : ∀ label ∈ labels, label.session ∈ ids) :
    ∀ {s : Engine X I V R}, (∀ other, other ∉ ids → s.pipeline.calls other = none) →
      (dreamZeroEngine model config head).Meets (FreeAmong ids) s labels →
      (dreamZeroEngine model config head).Meets Exclusive s labels := by
  induction labels with
  | nil => exact fun _ _ => trivial
  | cons label labels ih =>
      intro s hothers hfree es t hstep
      have hlabel : label.session ∈ ids := hids label List.mem_cons_self
      obtain ⟨hnow, hrest⟩ := (Machine.meets_cons hstep).mp hfree
      constructor
      · rintro - ⟨-, method, input, hcall⟩ other hother
        by_cases hmem : other ∈ ids
        · have hoff := hnow (by rw [hcall]; rfl) other hmem hother
          rintro ⟨call, hsome, hon⟩
          rw [hsome, Option.any_some, hon] at hoff
          cases hoff
        · exact Pipeline.not_holds_of_none (hothers other hmem)
      · refine ih (fun next hnext => hids next (List.mem_cons_of_mem label hnext)) ?_ hrest
        intro other hother
        rcases (Confined.step hstep).pipeline with hsame | ⟨action, events, hpipeline, -⟩
        · rw [hsame]
          exact hothers other hother
        · obtain ⟨outcomes, head', session, call, -, -, hmoved⟩ := Pipeline.step_moves hpipeline
          have hne : other ≠ label.session := fun heq => hother (heq ▸ hlabel)
          rw [hmoved, Pipeline.moved_calls_of_ne s.pipeline hne]
          exact hothers other hother

end Engine

/-- What a session is shown is a tape that its images fix: in every run in which no session is
swapped in while another one's call holds the head, its answers are those of the player, which
is told the kind of each answer and nothing of what was executed.  Between two calls the
pipeline's session is where the tape stands; and when no call has raised, the clock counts the
steps, and not the block that an early plan has made. -/
theorem session_plays {X I V R : Type} (model : Model X I V (Actions R)) (config : DreamZeroConfig)
    (head : Attrs X) {labels : List (EngineLabel I R)} {log : List (EngineEvent V R)}
    {s : Engine X I V R}
    (hrun : (dreamZeroEngine model config head).run (dreamZeroEngine model config head).init
      labels = some (log, s))
    (hexclusive : (dreamZeroEngine model config head).Meets Engine.Exclusive
      (dreamZeroEngine model config head).init labels)
    (id : SessionId) (images : I)
    (himages : ∀ images', EngineLabel.mk id (.reset (some images')) ∈ labels → images' = images) :
    ∃ position, (player (tape model (config.prompt.getD "") images)).run none
        ((answersOf id log).map Answer.reply) = some (answersOf id log, position) ∧
      ∀ kept, s.sessions id = some kept → s.calls id = none →
        ∃ p block session, position = some p ∧
          tape model (config.prompt.getD "") images p.block = some block ∧
          s.pipeline.sessions id = some session ∧ session.swap = block.attrs ∧
          session.lastVideoPred = some block.video ∧
          (.raised ∉ answersOf id log →
            kept.currentStartFrame = config.numFramePerBlock * p.steps) := by
  obtain ⟨position, hplays, hshows⟩ := (Engine.follows_run hrun hexclusive himages).plays
  refine ⟨position, hplays, fun kept hkept hidle => ?_⟩
  unfold Engine.Shows at hshows
  rw [hkept, hidle] at hshows
  generalize hsession : s.pipeline.sessions id = session at hshows
  generalize s.pipeline.calls id = current at hshows
  generalize s.issued id = issued at hshows
  cases hshows with
  | idle p kept session hready hparked hclock =>
      obtain ⟨block, hblock, hcue⟩ := Option.map_eq_some_iff.mp hready.cued
      obtain ⟨hswap, hinput⟩ := Prod.mk.inj hcue
      refine ⟨p, block, session, rfl, hblock, rfl, hswap.symm, ?_, hclock⟩
      exact (Input.mk.inj hinput).2.2.symm

/-- A model that counts its blocks, from the number it is shown first. -/
def countBlocks : Model Unit Int Int (Actions Int) := fun attrs input =>
  let drawn (block : Int) :=
    (Function.update attrs .currentStartFrame (.int (block + 1)),
      some (block, (⟨[block, block], []⟩ : Actions Int)))
  match input.images, attrs .currentStartFrame with
  | some images, _ => drawn images
  | none, .int block => drawn block
  | none, _ => (attrs, none)

/-- A configuration of two frames in a block and two action channels. -/
def twoChannels : DreamZeroConfig where
  prompt := none
  numFramePerBlock := 2
  actionDim := 32
  usedActionDim := some 2

/-- A session asks for something. -/
def asks (session : Nat) (request : Request Int Int) : EngineLabel Int Int := ⟨⟨session⟩, request⟩

/-- Session 0 plans before its first step, steps, and plans again; between the swap-outs of its
calls and their next swap-ins, and while its model runs, session 1 is opened and steps. -/
def earlyPlan : List (EngineLabel Int Int) :=
  [asks 0 (.reset (some 0)), asks 0 .advance, asks 0 .advance, asks 1 (.reset (some 50)),
    asks 0 .advance, asks 0 .advance, asks 0 .plan, asks 1 .advance, asks 1 .advance,
    asks 1 .advance, asks 1 .advance, asks 0 .advance, asks 0 .advance, asks 1 (.step [3, 3]),
    asks 0 .advance, asks 0 .advance, asks 0 (.step [7, 7]), asks 1 .advance, asks 1 .advance,
    asks 1 .advance, asks 1 .advance, asks 0 .advance, asks 0 .advance, asks 0 .advance,
    asks 0 .advance, asks 0 .plan]

theorem earlyPlan_free :
    (dreamZeroEngine countBlocks twoChannels fun _ => .none).Meets (Engine.FreeAmong [⟨0⟩, ⟨1⟩])
      (dreamZeroEngine countBlocks twoChannels fun _ => .none).init earlyPlan := by
  decide

/-- What each session is shown is on its own tape, and the clock of session 0 is one step's. -/
theorem earlyPlan_plays :
    ∃ log s, (dreamZeroEngine countBlocks twoChannels fun _ => .none).run
        (dreamZeroEngine countBlocks twoChannels fun _ => .none).init earlyPlan = some (log, s) ∧
      (∃ position, (player (tape countBlocks "" 0)).run none
        [.opened, .proposed, .stepped, .proposed] =
          some ([.opened 0, .proposed [1, 1], .stepped 2, .proposed [2, 2]], position)) ∧
      (∃ position, (player (tape countBlocks "" 50)).run none [.opened, .stepped] =
        some ([.opened 50, .stepped 51], position)) ∧
      ∃ kept, s.sessions ⟨0⟩ = some kept ∧ kept.currentStartFrame = 2 * 1 := by
  have hended : ((dreamZeroEngine countBlocks twoChannels fun _ => .none).run
      (dreamZeroEngine countBlocks twoChannels fun _ => .none).init earlyPlan).map
        (fun r => (answersOf ⟨0⟩ r.1, answersOf ⟨1⟩ r.1, (r.2.sessions ⟨0⟩).isSome,
          (r.2.calls ⟨0⟩).isNone)) =
        some ([.opened 0, .proposed [1, 1], .stepped 2, .proposed [2, 2]],
          [.opened 50, .stepped 51], true, true) := by
    decide
  obtain ⟨⟨log, s⟩, hrun, hshown⟩ := Option.map_eq_some_iff.mp hended
  obtain ⟨hzero, hone, hkept, hidle⟩ : answersOf ⟨0⟩ log = _ ∧ answersOf ⟨1⟩ log = _ ∧
      (s.sessions ⟨0⟩).isSome = true ∧ (s.calls ⟨0⟩).isNone = true := by
    simpa only [Prod.mk.injEq] using hshown
  obtain ⟨kept, hkept⟩ := Option.isSome_iff_exists.mp hkept
  have hexclusive := Engine.meets_among (by decide) (fun _ _ => rfl) earlyPlan_free
  obtain ⟨position, hplays, hstands⟩ := session_plays countBlocks twoChannels (fun _ => .none) hrun
    hexclusive ⟨0⟩ 0 (by simp [earlyPlan, asks])
  obtain ⟨position', hplays', -⟩ := session_plays countBlocks twoChannels (fun _ => .none) hrun
    hexclusive ⟨1⟩ 50 (by simp [earlyPlan, asks])
  rw [hzero] at hplays hstands
  rw [hone] at hplays'
  refine ⟨log, s, hrun, ⟨position, hplays⟩, ⟨position', hplays'⟩, kept, hkept, ?_⟩
  obtain ⟨p, -, -, rfl, -, -, -, -, hclock⟩ := hstands kept hkept (Option.isNone_iff_eq_none.mp hidle)
  -- the player has counted one step
  have hsteps : p.steps = 1 := by
    cases hplays
    rfl
  rw [hclock (by decide), hsteps]
  rfl

end Repercep.Models.DreamZeroEngine
