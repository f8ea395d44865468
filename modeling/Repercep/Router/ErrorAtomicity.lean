import Repercep.Foundation.Machine
import Repercep.Router.Ops
set_option autoImplicit false

/-!
# Router: which failed pushes leave no trace

A caller told `Backpressure` is expected to back off and push the frame again, so
a failed `push_frame` must not have moved the request.  `validate` writes the
state and the last index before `sendFrame` can refuse, and no exit undoes that:
the pushes that fail without a trace are exactly those refused by `validate`.
-/

namespace Repercep.Router

open Repercep.Foundation

namespace Inner

/-- The channel a request's entry sends on. -/
def channelOf (r : Inner) (id : RequestId) : Option ChanId :=
  (r.requests id).bind Entry.sender

/-- The last frame index recorded for a request. -/
def lastFrameIndex (r : Inner) (id : RequestId) : Option Nat :=
  (r.requests id).bind Entry.lastFrameIndex

/-- `r'` shows the same request as `r`: its state, its last accepted index and
what is queued are unchanged. -/
structure Undisturbed (r r' : Inner) (id : RequestId) : Prop where
  state : r'.state id = r.state id
  lastFrameIndex : r'.lastFrameIndex id = r.lastFrameIndex id
  contents : ∀ ch, (r'.chans ch).buffer = (r.chans ch).buffer

/-- A frame refused for backpressure is accepted once the consumer has read one
frame. -/
def Retryable (r : Inner) (frame : Frame) : Prop :=
  ∀ depth ch first r₁ r₂,
    r.pushFrame frame = (.error (.backpressure frame.requestId depth), r₁) →
      r.channelOf frame.requestId = some ch → r₁.recv ch = (.item first, r₂) →
        (r₂.pushFrame frame).1 = .ok ()

/-- A push that fails leaves no trace, and can be retried if it was refused for
backpressure. -/
structure ErrorAtomic (r : Inner) (frame : Frame) : Prop where
  undisturbed : ∀ err r', r.pushFrame frame = (.error err, r') →
    r.Undisturbed r' frame.requestId
  retryable : r.Retryable frame

/-- The channel of a request can take one more frame: it is not full and its
receiver is alive. -/
def HasRoomFor (r : Inner) (id : RequestId) : Prop :=
  ∀ ch, r.channelOf id = some ch → (r.chans ch).HasRoom

theorem Undisturbed.refl (r : Inner) (id : RequestId) : r.Undisturbed r id :=
  ⟨rfl, rfl, fun _ => rfl⟩

/-- A push refused before phase 2 changes nothing, and is not reported as
backpressure. -/
theorem pushFrame_of_refused {r : Inner} {frame : Frame}
    (h : ¬ (r.shuttingDown = false ∧ r.Admits frame)) :
    ∃ err, r.pushFrame frame = (.error err, r) ∧
      ∀ id depth, err ≠ .backpressure id depth := by
  unfold pushFrame
  cases hopen : r.ensureOpen with
  | error err =>
      refine ⟨err, rfl, ?_⟩
      rintro id depth rfl
      unfold ensureOpen at hopen
      split at hopen <;> cases hopen
  | ok _ =>
      rcases hvalidate : r.validate frame with ⟨err | ch, r₁⟩
      · obtain ⟨rfl, -, hkind⟩ := validate_error hvalidate
        exact ⟨err, rfl, hkind⟩
      · obtain ⟨e, hlive, hentry, hlast, -, -⟩ := validate_ok hvalidate
        exact absurd ⟨ensureOpen_eq_ok.mp hopen, e, hentry, hlive, hlast⟩ h

/-- What phase 1 does to an admitted frame. -/
theorem validate_of_admits {r : Inner} {frame : Frame} (h : r.Admits frame) :
    ∃ ch r₁, r.validate frame = (.ok ch, r₁) ∧
      r.channelOf frame.requestId = some ch ∧
      r₁.lastFrameIndex frame.requestId = some frame.frameIndex ∧
      (∀ k, (r₁.chans k).HasRoom ↔ (r.chans k).HasRoom) ∧
      (∀ k, (r₁.chans k).buffer = (r.chans k).buffer) := by
  rcases hvalidate : r.validate frame with ⟨err | ch, r₁⟩
  · exact absurd h (validate_error hvalidate).2.1
  · obtain ⟨e, hlive, hentry, hlast, hsender, rfl⟩ := validate_ok hvalidate
    refine ⟨ch, _, rfl, by simp [channelOf, hentry, hsender], by simp [lastFrameIndex],
      ?_, ?_⟩
    · intro k
      by_cases hk : k = ch
      · subst hk
        simp [Channel.HasRoom]
      · simp [hk]
    · intro k
      by_cases hk : k = ch
      · subst hk
        simp
      · simp [hk]

/-- An admitted frame whose channel has room is accepted. -/
theorem pushFrame_of_hasRoom {r : Inner} {frame : Frame} (hopen : r.shuttingDown = false)
    (hadmits : r.Admits frame) (hroom : r.HasRoomFor frame.requestId) :
    (r.pushFrame frame).1 = .ok () := by
  obtain ⟨ch, r₁, hvalidate, hchannel, -, hsame, -⟩ := validate_of_admits hadmits
  have hcan : (r₁.chans ch).HasRoom := (hsame ch).mpr (hroom ch hchannel)
  unfold pushFrame
  rw [ensureOpen_eq_ok.mpr hopen, hvalidate]
  rcases hsend : r₁.sendFrame frame ch with ⟨err | _, r₂⟩
  · exact absurd hcan (sendFrame_error hsend).2
  · simp only [hsend]

/-- An admitted frame whose channel is full or closed is refused, after its index
has been recorded; the queues are untouched. -/
theorem pushFrame_of_noRoom {r : Inner} {frame : Frame} {ch : ChanId}
    (hopen : r.shuttingDown = false) (hadmits : r.Admits frame)
    (hchannel : r.channelOf frame.requestId = some ch)
    (hroom : ¬ (r.chans ch).HasRoom) :
    ∃ err r', r.pushFrame frame = (.error err, r') ∧
      r'.lastFrameIndex frame.requestId = some frame.frameIndex ∧
      ∀ k, (r'.chans k).buffer = (r.chans k).buffer := by
  obtain ⟨k, r₁, hvalidate, hk, hlast, hsame, hbuffers⟩ := validate_of_admits hadmits
  have hch : k = ch := Option.some.inj (hk.symm.trans hchannel)
  subst k
  have hcannot : ¬ (r₁.chans ch).HasRoom := fun hcan => hroom ((hsame ch).mp hcan)
  unfold pushFrame
  rw [ensureOpen_eq_ok.mpr hopen, hvalidate]
  rcases hsend : r₁.sendFrame frame ch with ⟨err | _, r₂⟩
  · obtain ⟨rfl, -⟩ := sendFrame_error hsend
    refine ⟨err, r₂.dropSender (some ch), by simp only [hsend], ?_, ?_⟩
    · simpa [lastFrameIndex] using hlast
    · intro j
      simp [hbuffers j]
  · exact absurd (sendFrame_ok hsend).1 hcannot

/-- An admitted frame is beyond the last recorded index. -/
theorem lastFrameIndex_ne_of_admits {r : Inner} {frame : Frame} (h : r.Admits frame) :
    r.lastFrameIndex frame.requestId ≠ some frame.frameIndex := by
  obtain ⟨e, hentry, -, hlast⟩ := h
  intro heq
  have hrecorded : e.lastFrameIndex = some frame.frameIndex := by
    simpa [lastFrameIndex, hentry] using heq
  exact absurd (hlast _ hrecorded) (Nat.lt_irrefl _)

/-- A push fails without a trace exactly when it does not fail in phase 2: either
it is refused by the shutdown flag or by `validate`, or its channel has room.
Outside that, the frame's index is recorded as accepted although the frame was
not queued, and a retry of the same frame is out of order. -/
theorem errorAtomic_iff (r : Inner) (frame : Frame) :
    r.ErrorAtomic frame ↔
      (r.shuttingDown = false → r.Admits frame → r.HasRoomFor frame.requestId) := by
  constructor
  · intro h hopen hadmits ch hchannel
    by_contra hroom
    obtain ⟨err, r', hpush, hlast, -⟩ := pushFrame_of_noRoom hopen hadmits hchannel hroom
    have hsame := (h.undisturbed err r' hpush).lastFrameIndex
    rw [hlast] at hsame
    exact lastFrameIndex_ne_of_admits hadmits hsame.symm
  · intro h
    by_cases haccepted : r.shuttingDown = false ∧ r.Admits frame
    · -- the push succeeds, so no error exit has to be accounted for
      obtain ⟨hopen, hadmits⟩ := haccepted
      have hok := pushFrame_of_hasRoom hopen hadmits (h hopen hadmits)
      refine ⟨?_, ?_⟩
      · intro err r' hpush
        rw [hpush] at hok
        cases hok
      · intro depth ch first r₁ r₂ hpush
        rw [hpush] at hok
        cases hok
    · -- refused before phase 2: nothing was written, and it is not backpressure
      obtain ⟨err, hpush, hkind⟩ := pushFrame_of_refused haccepted
      refine ⟨?_, ?_⟩
      · intro err' r' hpush'
        rw [hpush] at hpush'
        cases hpush'
        exact Undisturbed.refl r frame.requestId
      · intro depth ch first r₁ r₂ hpush'
        rw [hpush] at hpush'
        cases hpush'
        exact absurd rfl (hkind _ _)

end Inner

/-! ## Sessions: any history of whole calls -/

/-- One call, run whole, or one act of a consumer. -/
inductive SessionCall where
  | accept (req : RouterRequest) (answer : Except RouterError Unit)
  | subscribe (id : RequestId)
  | pushFrame (frame : Frame)
  | cancel (id : RequestId)
  | recv (ch : ChanId)
  | dropReceiver (ch : ChanId)
  | shutdown

/-- The router with the receivers its consumers hold. -/
structure Session where
  inner : Inner
  held : ChanId → Bool

namespace Session

/-- Run a method that first checks the shutdown flag. -/
def guarded (s : Session) (method : Inner → Except RouterError Unit × Inner) :
    List (Except RouterError Unit) × Session :=
  match s.inner.ensureOpen with
  | .error e => ([.error e], s)
  | .ok _ => ([(method s.inner).1], { s with inner := (method s.inner).2 })

/-- One call, with what it returns. -/
def step (s : Session) : SessionCall → Option (List (Except RouterError Unit) × Session)
  | .accept req answer =>
      let result := s.inner.accept (fun _ _ => answer) req
      some ([result.1], { s with inner := result.2 })
  | .subscribe id =>
      match s.inner.ensureOpen with
      | .error e => some ([.error e], s)
      | .ok _ =>
          match s.inner.takeReceiver id with
          | (.error e, r) => some ([.error e], { s with inner := r })
          | (.ok ch, r) =>
              some ([.ok ()], { inner := r, held := Function.update s.held ch true })
  | .pushFrame frame =>
      some ([(s.inner.pushFrame frame).1], { s with inner := (s.inner.pushFrame frame).2 })
  | .cancel id => some (s.guarded (fun r => r.cancelEntry id))
  | .recv ch => if s.held ch then some ([], { s with inner := (s.inner.recv ch).2 }) else none
  | .dropReceiver ch =>
      if s.held ch then
        some ([], { inner := s.inner.dropReceiver (some ch),
                    held := Function.update s.held ch false })
      else none
  | .shutdown => some ([], { s with inner := s.inner.shutdown })

/-- The push finds room, unless it is refused before its frame is recorded. -/
def FindsRoom (s : Session) : SessionCall → Prop
  | .pushFrame frame => s.inner.shuttingDown = false → s.inner.Admits frame →
      s.inner.HasRoomFor frame.requestId
  | _ => True

/-- The push fails without a trace, if it fails. -/
def LeavesNoTrace (s : Session) : SessionCall → Prop
  | .pushFrame frame => s.inner.ErrorAtomic frame
  | _ => True

end Session

/-- A router of a given depth under any history of whole calls. -/
def sessions (depth : Nat) : Machine Session SessionCall (Except RouterError Unit) where
  init := { inner := .new depth, held := fun _ => false }
  step := Session.step

/-- Every `push_frame` of the history that fails leaves no trace and can be
retried. -/
def ErrorAtomicThroughout (depth : Nat) (calls : List SessionCall) : Prop :=
  ∀ before frame after results s, calls = before ++ .pushFrame frame :: after →
    (sessions depth).run (sessions depth).init before = some (results, s) →
    s.inner.ErrorAtomic frame

/-- In every history of calls, the pushes that fail leave no trace exactly when
every push that gets past the shutdown flag and `validate` finds room in its
channel. -/
theorem errorAtomicThroughout_iff (depth : Nat) (calls : List SessionCall) :
    ErrorAtomicThroughout depth calls ↔
      (sessions depth).Meets Session.FindsRoom (sessions depth).init calls := by
  have hone : ∀ (s : Session) (call : SessionCall),
      s.LeavesNoTrace call ↔ s.FindsRoom call := by
    intro s call
    cases call with
    | pushFrame frame => exact s.inner.errorAtomic_iff frame
    | accept req answer => exact Iff.rfl
    | subscribe id => exact Iff.rfl
    | cancel id => exact Iff.rfl
    | recv ch => exact Iff.rfl
    | dropReceiver ch => exact Iff.rfl
    | shutdown => exact Iff.rfl
  have hall : (sessions depth).Meets Session.LeavesNoTrace (sessions depth).init calls ↔
      (sessions depth).Meets Session.FindsRoom (sessions depth).init calls :=
    Machine.along_congr (fun s call _ _ _ => hone s call) calls _
  rw [← hall]
  unfold Machine.Meets
  rw [Machine.along_iff_split]
  constructor
  · intro hatomic before call after results s es t hcalls hrun _
    cases call with
    | pushFrame frame => exact hatomic before frame after results s hcalls hrun
    | accept req answer => trivial
    | subscribe id => trivial
    | cancel id => trivial
    | recv ch => trivial
    | dropReceiver ch => trivial
    | shutdown => trivial
  · intro htrace before frame after results s hcalls hrun
    exact htrace before (.pushFrame frame) after results s _ _ hcalls hrun rfl

/-- A stream of depth one, one frame queued, and a second frame pushed. -/
def secondPushBacklogged : List SessionCall :=
  [.accept ⟨⟨"a"⟩, .normal⟩ (.ok ()), .pushFrame ⟨⟨"a"⟩, 0, [], false⟩,
    .pushFrame ⟨⟨"a"⟩, 1, [], false⟩]

/-- There frame 1 is refused for backpressure, yet index 1 is recorded. -/
theorem secondPushBacklogged_not_errorAtomic :
    ¬ ErrorAtomicThroughout 1 secondPushBacklogged := by
  intro h
  have hatomic := h (secondPushBacklogged.take 2) ⟨⟨"a"⟩, 1, [], false⟩ [] _ _ rfl rfl
  have hundisturbed := hatomic.undisturbed (.backpressure ⟨"a"⟩ 1) _ rfl
  have hlast : some 1 = some 0 := hundisturbed.lastFrameIndex
  cases hlast

end Repercep.Router
