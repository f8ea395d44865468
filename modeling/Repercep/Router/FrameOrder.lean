import Repercep.Router.Channels
set_option autoImplicit false

/-!
# Router: the order in which frames arrive

`validate` checks the frame index under the lock, but `try_send` runs after the
lock is released.  Two validated pushes may therefore queue in either order, and
a frame may pass validation while the final one is still on its way.  Frames
arrive in order, with nothing after the final one, in every run in which pushes
of one request send in the order in which they were validated and none is let
through behind a final push in flight.
-/

namespace Repercep.Router

open Repercep.Foundation

/-- `a` may be received before `b`: smaller index, and not the final frame. -/
def Frame.Before (a b : Frame) : Prop :=
  a.frameIndex < b.frameIndex ∧ a.isFinal = false

/-- Strictly increasing indices, and nothing after a final frame. -/
def FramesInOrder (frames : List Frame) : Prop := frames.Pairwise Frame.Before

theorem framesInOrder_append_singleton {frames : List Frame} {frame : Frame} :
    FramesInOrder (frames ++ [frame]) ↔
      FramesInOrder frames ∧ ∀ g ∈ frames, g.Before frame := by
  simp [FramesInOrder, List.pairwise_append]

namespace Sys

/-- The pushes of one request take turns: a frame is queued only while no push
with a smaller index is waiting to send on the same channel, and a frame is let
through phase 1 only while no final push of its request is in flight. -/
def InTurn (s : Sys) : Action → Prop
  | .send c => ∀ frame ch, s.Sending c frame ch → (s.inner.chans ch).HasRoom →
      ∀ d waiting, s.Sending d waiting ch → frame.frameIndex ≤ waiting.frameIndex
  | .enter c => ∀ frame, s.calls c = some (.opened (.pushFrame frame)) →
      s.inner.Admits frame → ∀ d other ch, s.InFlight d other ch →
        other.requestId = frame.requestId → other.isFinal = false
  | _ => True

/-- What taking turns keeps true of the queues and of the pushes in flight. -/
structure InOrder (h : List Event) (s : Sys) : Prop where
  /-- what has been queued is in order -/
  ordered : ∀ ch, FramesInOrder (enqueuedOn ch h)
  /-- a waiting frame comes after everything queued -/
  behind : ∀ {c frame ch}, s.Sending c frame ch → ∀ g ∈ enqueuedOn ch h, g.Before frame
  /-- the writer has recorded at least every queued index, and every waiting one -/
  recorded : ∀ {id ch last}, s.inner.Writes id ch last →
    ∀ g ∈ enqueuedOn ch h, ∃ i, last = some i ∧ g.frameIndex ≤ i
  recordedWaiting : ∀ {id ch last c frame}, s.inner.Writes id ch last →
    s.Sending c frame ch → ∃ i, last = some i ∧ frame.frameIndex ≤ i
  distinct : ∀ {c d frame other ch}, c ≠ d → s.Sending c frame ch → s.Sending d other ch →
    frame.frameIndex ≠ other.frameIndex
  /-- a channel that got its final frame and still has a writer is being closed -/
  closing : ∀ {ch g id last}, g ∈ enqueuedOn ch h → g.isFinal = true →
    s.inner.Writes id ch last → ∃ c, s.Completing c g ch
  /-- a waiting final frame is the last of those waiting -/
  finalLast : ∀ {c d final frame ch}, c ≠ d → s.Sending c final ch →
    final.isFinal = true → s.Sending d frame ch → frame.frameIndex < final.frameIndex

theorem InOrder.init (depth : Nat) : InOrder [] (machine depth).init where
  ordered := fun _ => List.Pairwise.nil
  behind := by rintro c frame ch hc; cases hc
  recorded := by rintro id ch last - g hg; cases hg
  recordedWaiting := by rintro id ch last c frame - hc; cases hc
  distinct := by rintro c d frame other ch - hc; cases hc
  closing := by rintro ch g id last hg; cases hg
  finalLast := by rintro c d final frame ch - hc; cases hc

/-- A step that queues nothing, adds no writer and no waiting push, and ends the
phase 3 of a final push only together with its writer, keeps the order. -/
theorem InOrder.shrink {h h' : List Event} {s t : Sys} (hs : InOrder h s)
    (hqueued : ∀ ch, enqueuedOn ch h' = enqueuedOn ch h)
    (hwrites : ∀ {id ch last}, t.inner.Writes id ch last → s.inner.Writes id ch last)
    (hsending : ∀ {c frame ch}, t.Sending c frame ch → s.Sending c frame ch)
    (hkeep : ∀ {c g ch}, s.Completing c g ch → t.Completing c g ch ∨
      ∀ id last, ¬ t.inner.Writes id ch last) : InOrder h' t where
  ordered ch := hqueued ch ▸ hs.ordered ch
  behind hc g hg := hs.behind (hsending hc) g (hqueued _ ▸ hg)
  recorded hw g hg := hs.recorded (hwrites hw) g (hqueued _ ▸ hg)
  recordedWaiting hw hc := hs.recordedWaiting (hwrites hw) (hsending hc)
  distinct hne hc hd := hs.distinct hne (hsending hc) (hsending hd)
  closing hg hfinal hw := by
    rw [hqueued] at hg
    obtain ⟨c, hc⟩ := hs.closing hg hfinal (hwrites hw)
    rcases hkeep hc with hc | hnone
    · exact ⟨c, hc⟩
    · exact absurd hw (hnone _ _)
  finalLast hne hc hfinal hd := hs.finalLast hne (hsending hc) hfinal (hsending hd)

/-- Moving a call that is not completing to an idle program counter keeps the
order, if no writer is added. -/
theorem InOrder.idle {h : List Event} {s : Sys} (hs : InOrder h s) {c : CallId}
    {call : Call} {r : Inner} (hidle : call.Idle)
    (hnot : ∀ g ch, ¬ s.Completing c g ch)
    (hwrites : ∀ {id ch last}, r.Writes id ch last → s.inner.Writes id ch last) :
    InOrder h (s.advance c call r) := by
  refine hs.shrink (fun _ => rfl) hwrites ?_ ?_
  · intro d frame ch hd
    rcases sending_advance.mp hd with ⟨-, hcall⟩ | ⟨-, hd⟩
    · exact absurd hcall (hidle frame ch).1
    · exact hd
  · intro d g ch hd
    refine Or.inl (completing_advance.mpr (Or.inr ⟨?_, hd⟩))
    rintro rfl
    exact hnot g ch hd

/-- A registered request starts on a channel on which nothing is queued. -/
theorem InOrder.register {h : List Event} {s : Sys} (hs : InOrder h s)
    (howned : Owned h s) {req : RouterRequest} {r : Inner} {c : CallId}
    (hnot : ∀ g ch, ¬ s.Completing c g ch)
    (hr : s.inner.register req = (.ok (), r)) :
    InOrder h (s.advance c (.submitting req) r) := by
  have hwaiting : ∀ {d frame ch}, (s.advance c (.submitting req) r).Sending d frame ch →
      s.Sending d frame ch := by
    intro d frame ch hd
    rcases sending_advance.mp hd with ⟨-, hcall⟩ | ⟨-, hd⟩
    · cases hcall
    · exact hd
  refine
    { ordered := hs.ordered
      behind := fun hc => hs.behind (hwaiting hc)
      recorded := ?_
      recordedWaiting := ?_
      distinct := fun hne hc hd => hs.distinct hne (hwaiting hc) (hwaiting hd)
      closing := ?_
      finalLast := fun hne hc hfinal hd => hs.finalLast hne (hwaiting hc) hfinal (hwaiting hd) }
  · intro id ch last hw g hg
    rcases writes_register hr hw with ⟨-, rfl⟩ | hw
    · rw [(howned.unused (Nat.le_refl _)).1] at hg
      cases hg
    · exact hs.recorded hw g hg
  · intro id ch last d frame hw hd
    rcases writes_register hr hw with ⟨-, rfl⟩ | hw
    · exact absurd (howned.callFresh (Or.inl (hwaiting hd))) (Nat.lt_irrefl _)
    · exact hs.recordedWaiting hw (hwaiting hd)
  · intro ch g id last hg hfinal hw
    rcases writes_register hr hw with ⟨-, rfl⟩ | hw
    · rw [(howned.unused (Nat.le_refl _)).1] at hg
      cases hg
    · obtain ⟨d, hd⟩ := hs.closing hg hfinal hw
      refine ⟨d, completing_advance.mpr (Or.inr ⟨?_, hd⟩)⟩
      rintro rfl
      exact hnot g ch hd

/-- A frame let through while no final push of its request is in flight comes
after everything queued or waiting on its channel. -/
theorem InOrder.validate {h : List Event} {s : Sys} (hs : InOrder h s)
    (howned : Owned h s) {frame : Frame} {ch : ChanId} {r : Inner} {c : CallId}
    (hcall : s.calls c = some (.opened (.pushFrame frame)))
    (hr : s.inner.validate frame = (.ok ch, r))
    (hnofinal : ∀ d other k, s.InFlight d other k → other.requestId = frame.requestId →
      other.isFinal = false) :
    InOrder h (s.advance c (.sending frame ch) r) := by
  obtain ⟨⟨last, hwriter, hlast⟩, -, -⟩ := Inner.validate_writer hr
  have hqueued : ∀ g ∈ enqueuedOn ch h, g.Before frame := by
    intro g hg
    obtain ⟨i, hi, hle⟩ := hs.recorded hwriter g hg
    refine ⟨Nat.lt_of_le_of_lt hle (hlast i hi), ?_⟩
    cases hfinal : g.isFinal with
    | false => rfl
    | true =>
        obtain ⟨d, hd⟩ := hs.closing hg hfinal hwriter
        have howner := howned.ownFrames (Or.inr hd) hwriter
        rw [hnofinal d g ch (Or.inr hd) howner] at hfinal
        cases hfinal
  have hwaiting : ∀ {d other}, s.Sending d other ch →
      other.frameIndex < frame.frameIndex := by
    intro d other hd
    obtain ⟨i, hi, hle⟩ := hs.recordedWaiting hwriter hd
    exact Nat.lt_of_le_of_lt hle (hlast i hi)
  have hsending : ∀ {d other k}, (s.advance c (.sending frame ch) r).Sending d other k →
      (d = c ∧ other = frame ∧ k = ch) ∨ (d ≠ c ∧ s.Sending d other k) := by
    intro d other k hd
    rcases sending_advance.mp hd with ⟨hdc, hsame⟩ | hd
    · cases hsame
      exact Or.inl ⟨hdc, rfl, rfl⟩
    · exact Or.inr hd
  refine
    { ordered := hs.ordered
      behind := ?_
      recorded := ?_
      recordedWaiting := ?_
      distinct := ?_
      closing := ?_
      finalLast := ?_ }
  · intro d other k hd
    rcases hsending hd with ⟨-, rfl, rfl⟩ | ⟨-, hd⟩
    · exact hqueued
    · exact hs.behind hd
  · intro id k l hw g hg
    rcases Inner.validate_writes hr hw with ⟨-, rfl, rfl⟩ | ⟨-, hw⟩
    · exact ⟨_, rfl, Nat.le_of_lt (hqueued g hg).1⟩
    · exact hs.recorded hw g hg
  · intro id k l d other hw hd
    rcases hsending hd with ⟨-, rfl, rfl⟩ | ⟨-, hold⟩
    · rcases Inner.validate_writes hr hw with ⟨-, -, rfl⟩ | ⟨hne, hw⟩
      · exact ⟨_, rfl, Nat.le_refl _⟩
      · exact absurd (howned.oneWriter hw hwriter) hne
    · rcases Inner.validate_writes hr hw with ⟨-, rfl, rfl⟩ | ⟨-, hw'⟩
      · exact ⟨_, rfl, Nat.le_of_lt (hwaiting hold)⟩
      · exact hs.recordedWaiting hw' hold
  · intro d d' one other k hne hd hd'
    rcases hsending hd with ⟨rfl, rfl, rfl⟩ | ⟨-, hold⟩
    · rcases hsending hd' with ⟨rfl, -, -⟩ | ⟨-, hold'⟩
      · exact absurd rfl hne
      · exact Nat.ne_of_gt (hwaiting hold')
    · rcases hsending hd' with ⟨-, rfl, rfl⟩ | ⟨-, hold'⟩
      · exact Nat.ne_of_lt (hwaiting hold)
      · exact hs.distinct hne hold hold'
  · intro k g id l hg hfinal hw
    have hold : ∃ l', s.inner.Writes id k l' := by
      rcases Inner.validate_writes hr hw with ⟨rfl, rfl, -⟩ | ⟨-, hw⟩
      · exact ⟨last, hwriter⟩
      · exact ⟨l, hw⟩
    obtain ⟨l', hw'⟩ := hold
    obtain ⟨d, hd⟩ := hs.closing hg hfinal hw'
    refine ⟨d, completing_advance.mpr (Or.inr ⟨?_, hd⟩)⟩
    rintro rfl
    cases hcall.symm.trans hd
  · intro d d' final other k hne hd hfinal hd'
    rcases hsending hd with ⟨rfl, rfl, rfl⟩ | ⟨-, hold⟩
    · rcases hsending hd' with ⟨rfl, -, -⟩ | ⟨-, hold'⟩
      · exact absurd rfl hne
      · exact hwaiting hold'
    · rcases hsending hd' with ⟨-, rfl, rfl⟩ | ⟨-, hold'⟩
      · -- a waiting final push of the same request excludes the new frame
        have howner := howned.ownFrames (Or.inl hold) hwriter
        rw [hnofinal d final _ (Or.inl hold) howner] at hfinal
        cases hfinal
      · exact hs.finalLast hne hold hfinal hold'

/-- A frame queued in its turn extends the order. -/
theorem InOrder.enqueue {h : List Event} {s t : Sys} (hs : InOrder h s) {c : CallId}
    {frame : Frame} {ch : ChanId} (hc : s.Sending c frame ch)
    (hturn : ∀ d waiting, s.Sending d waiting ch →
      frame.frameIndex ≤ waiting.frameIndex)
    (howner : ∀ {id last}, s.inner.Writes id ch last → ∃ i, last = some i ∧
      frame.frameIndex ≤ i)
    (hwrites : ∀ {id k last}, t.inner.Writes id k last → s.inner.Writes id k last)
    (hsending : ∀ {d other k}, t.Sending d other k → d ≠ c ∧ s.Sending d other k)
    (hkeep : ∀ {d g k}, s.Completing d g k → t.Completing d g k)
    (hphase : frame.isFinal = true → t.Completing c frame ch) :
    InOrder (h ++ [.enqueued ch frame]) t := by
  have hlater : ∀ {d other}, d ≠ c → s.Sending d other ch → frame.Before other := by
    intro d other hne hd
    have hidx : frame.frameIndex < other.frameIndex :=
      Nat.lt_of_le_of_ne (hturn d other hd) (hs.distinct (Ne.symm hne) hc hd)
    refine ⟨hidx, ?_⟩
    cases hfinal : frame.isFinal with
    | false => rfl
    | true => exact absurd (hs.finalLast (Ne.symm hne) hc hfinal hd) (Nat.lt_asymm hidx)
  have hmem : ∀ {k g}, g ∈ enqueuedOn k (h ++ [.enqueued ch frame]) →
      g ∈ enqueuedOn k h ∨ (k = ch ∧ g = frame) := by
    intro k g hg
    rw [enqueuedOn_enqueued, List.mem_append] at hg
    rcases hg with hg | hg
    · exact Or.inl hg
    · split at hg
      · rename_i hk
        exact Or.inr ⟨hk.symm, List.mem_singleton.mp hg⟩
      · cases hg
  refine
    { ordered := ?_
      behind := ?_
      recorded := ?_
      recordedWaiting := fun hw hd => hs.recordedWaiting (hwrites hw) (hsending hd).2
      distinct := fun hne hd hd' => hs.distinct hne (hsending hd).2 (hsending hd').2
      closing := ?_
      finalLast := fun hne hd hfinal hd' =>
        hs.finalLast hne (hsending hd).2 hfinal (hsending hd').2 }
  · intro k
    rw [enqueuedOn_enqueued]
    split
    · rename_i hk
      subst hk
      exact framesInOrder_append_singleton.mpr ⟨hs.ordered ch, hs.behind hc⟩
    · simpa using hs.ordered k
  · intro d other k hd g hg
    obtain ⟨hne, hd⟩ := hsending hd
    rcases hmem hg with hg | ⟨rfl, rfl⟩
    · exact hs.behind hd g hg
    · exact hlater hne hd
  · intro id k last hw g hg
    rcases hmem hg with hg | ⟨rfl, rfl⟩
    · exact hs.recorded (hwrites hw) g hg
    · exact howner (hwrites hw)
  · intro k g id last hg hfinal hw
    rcases hmem hg with hg | ⟨rfl, rfl⟩
    · obtain ⟨d, hd⟩ := hs.closing hg hfinal (hwrites hw)
      exact ⟨d, hkeep hd⟩
    · exact ⟨c, hphase hfinal⟩

/-- The locked section of a call. -/
theorem InOrder.enterOp {h : List Event} {s : Sys} (hs : InOrder h s) (howned : Owned h s)
    {c : CallId} {op : Op} (hcall : s.calls c = some (.opened op))
    (hturn : s.InTurn (.enter c)) : InOrder h (s.enterOp c op) := by
  have hnot : ∀ g ch, ¬ s.Completing c g ch := by
    intro g ch hc
    cases hcall.symm.trans hc
  rcases enterOp_cases s c op with ⟨e, heq⟩ | ⟨req, r, -, hregister, heq⟩ |
    ⟨frame, ch, r, rfl, hvalidate, heq⟩ | ⟨id, ch, r, -, htake, heq⟩ |
    ⟨id, r, -, hcancel, heq⟩
  · rw [heq]
    exact hs.idle (Call.idle_of_done _) hnot (fun hw => hw)
  · rw [heq]
    exact hs.register howned hnot hregister
  · rw [heq]
    have hadmits : s.inner.Admits frame := by
      obtain ⟨e, hlive, hentry, hlast, -, -⟩ := Inner.validate_ok hvalidate
      exact ⟨e, hentry, hlive, hlast⟩
    exact hs.validate howned hcall hvalidate (hturn frame hcall hadmits)
  · rw [heq]
    have hdone := hs.idle (r := r) (Call.idle_of_done (.ok ())) hnot
      (fun hw => Inner.takeReceiver_writes htake hw)
    exact hdone.shrink (fun _ => rfl) (fun hw => hw) (fun hc => hc) (fun hc => Or.inl hc)
  · rw [heq]
    exact hs.idle (Call.idle_of_done _) hnot
      (fun hw => ((Inner.cancelEntry_silences hcancel).writes _ _ _ hw).2)

/-- A frame goes into its channel, whatever the call and the sender count become. -/
theorem InOrder.sent {h : List Event} {s : Sys} (hs : InOrder h s) {c : CallId}
    {frame : Frame} {ch : ChanId} {call : Call} {r : Inner} (hc : s.Sending c frame ch)
    (hroom : (s.inner.chans ch).HasRoom) (hturn : s.InTurn (.send c))
    (hwrites : ∀ {id k last}, r.Writes id k last → s.inner.Writes id k last)
    (hcall : ∀ g k, call ≠ .sending g k)
    (hfinal : frame.isFinal = true → call = .completing frame ch) :
    InOrder (h ++ [.enqueued ch frame]) (s.advance c call r) := by
  have hnot : ∀ {d g k}, s.Completing d g k → d ≠ c := by
    rintro d g k hd rfl
    cases hc.symm.trans hd
  refine hs.enqueue hc (hturn frame ch hc hroom) (fun hw => hs.recordedWaiting hw hc) hwrites
    ?_ ?_ ?_
  · intro d other j hd
    rcases sending_advance.mp hd with ⟨-, hsame⟩ | hd
    · exact absurd hsame (hcall other j)
    · exact hd
  · exact fun hd => completing_advance.mpr (Or.inr ⟨hnot hd, hd⟩)
  · exact fun hf => completing_advance.mpr (Or.inl ⟨rfl, hfinal hf⟩)

/-- The last section of a final push removes the writer of its channel. -/
theorem InOrder.complete {h : List Event} {s : Sys} (hs : InOrder h s) (howned : Owned h s)
    {c : CallId} {frame : Frame} {ch : ChanId} (hc : s.Completing c frame ch) :
    InOrder h (s.advance c (.done (.ok ()))
      ((s.inner.complete frame.requestId).dropSender (some ch))) := by
  have hsilent := Inner.complete_silences s.inner frame.requestId
  have hwrites : ∀ {id k last},
      ((s.inner.complete frame.requestId).dropSender (some ch)).Writes id k last →
        id ≠ frame.requestId ∧ s.inner.Writes id k last :=
    fun hw => hsilent.writes _ _ _ ((Inner.writes_congr (by simp)).mp hw)
  refine hs.shrink (fun _ => rfl) (fun hw => (hwrites hw).2) ?_ ?_
  · intro d other k hd
    rcases sending_advance.mp hd with ⟨-, hcall⟩ | ⟨-, hd⟩
    · cases hcall
    · exact hd
  · intro d g k hd
    by_cases hdc : d = c
    · subst hdc
      cases hc.symm.trans hd
      refine Or.inr fun id last hw => ?_
      obtain ⟨hne, hw⟩ := hwrites hw
      exact hne (howned.ownFrames (Or.inr hc) hw).symm
    · exact Or.inl (completing_advance.mpr (Or.inr ⟨hdc, hd⟩))

/-- A step that takes its turn keeps the order. -/
theorem InOrder.step {h : List Event} {s t : Sys} {a : Action} {es : List Event}
    (hs : InOrder h s) (howned : Owned h s) (hturn : s.InTurn a)
    (hstep : s.step a = some (es, t)) : InOrder (h ++ es) t := by
  cases a with
  | invoke c op =>
      obtain ⟨hfree, rfl, rfl⟩ := step_invoke hstep
      rw [List.append_nil]
      refine hs.idle (fun _ _ => by simp) ?_ (fun hw => hw)
      intro g ch hc
      cases hfree.symm.trans hc
  | ensureOpen c =>
      obtain ⟨rfl, op, hcall, hcase⟩ := step_ensureOpen hstep
      have hnot : ∀ g ch, ¬ s.Completing c g ch := by
        intro g ch hc
        cases hcall.symm.trans hc
      rw [List.append_nil]
      rcases hcase with ⟨-, rfl⟩ | ⟨e, -, rfl⟩
      · exact hs.idle (fun _ _ => by simp) hnot (fun hw => hw)
      · exact hs.idle (Call.idle_of_done _) hnot (fun hw => hw)
  | enter c =>
      obtain ⟨rfl, op, hcall, rfl⟩ := step_enter hstep
      rw [List.append_nil]
      exact hs.enterOp howned hcall hturn
  | submitted c answer =>
      obtain ⟨rfl, req, hcall, hcase⟩ := step_submitted hstep
      have hnot : ∀ g ch, ¬ s.Completing c g ch := by
        intro g ch hc
        cases hcall.symm.trans hc
      rw [List.append_nil]
      rcases hcase with ⟨e, -, rfl⟩ | ⟨-, rfl⟩
      · exact hs.idle (fun _ _ => by simp) hnot (fun hw => hw)
      · exact hs.idle (Call.idle_of_done _) hnot (fun hw => hw)
  | rollback c =>
      obtain ⟨rfl, req, e, hcall, rfl⟩ := step_rollback hstep
      rw [List.append_nil]
      refine hs.idle (Call.idle_of_done _) ?_
        (fun hw => ((Inner.rollback_silences s.inner req.id).writes _ _ _ hw).2)
      intro g ch hc
      cases hcall.symm.trans hc
  | send c =>
      obtain ⟨frame, ch, hc, hsend⟩ := step_send hstep
      rcases sendCall_cases hsend with ⟨rfl, -, e, rfl⟩ |
        ⟨rfl, hroom, k, -, ⟨hfinal, rfl⟩ | ⟨hfinal, rfl⟩⟩
      · rw [List.append_nil]
        refine hs.idle (Call.idle_of_done _) ?_ (fun hw => (Inner.writes_congr (by simp)).mp hw)
        intro g j hd
        cases hc.symm.trans hd
      · exact hs.sent hc hroom hturn (fun hw => (Inner.writes_congr (by simp)).mp hw) (by simp)
          fun _ => rfl
      · exact hs.sent hc hroom hturn (fun hw => (Inner.writes_congr (by simp)).mp hw) (by simp)
          (by simp [hfinal])
  | complete c =>
      obtain ⟨rfl, frame, ch, hc, rfl⟩ := step_complete hstep
      rw [List.append_nil]
      exact hs.complete howned hc
  | recv ch =>
      obtain ⟨-, hread⟩ := step_recv hstep
      rcases read_cases hread with ⟨frame, k, rfl, -, rfl⟩ | ⟨rfl, rfl, -, -⟩
      · exact hs.shrink (fun _ => enqueuedOn_delivered _ _ _ _) (fun hw => hw)
          (fun hc => hc) (fun hc => Or.inl hc)
      · exact hs.shrink (fun _ => enqueuedOn_ended _ _ _) (fun hw => hw) (fun hc => hc)
          (fun hc => Or.inl hc)
  | dropReceiver ch =>
      obtain ⟨-, rfl, rfl⟩ := step_dropReceiver hstep
      rw [List.append_nil]
      exact hs.shrink (fun _ => rfl) (fun hw => (Inner.writes_congr (by simp)).mp hw)
        (fun hc => hc) (fun hc => Or.inl hc)
  | shutdown =>
      obtain ⟨rfl, rfl⟩ := step_shutdown hstep
      rw [List.append_nil]
      exact hs.shrink (fun _ => rfl) (fun hw => hw) (fun hc => hc) (fun hc => Or.inl hc)

end Sys

/-- In every run in which the pushes of each request take turns, the frames a
subscriber receives have strictly increasing indices and none follows a final
one. -/
theorem received_inOrder {depth : Nat} {as : List Action} {es : List Event} {s : Sys}
    (hturns : (machine depth).Meets Sys.InTurn (machine depth).init as)
    (hrun : (machine depth).run (machine depth).init as = some (es, s)) (ch : ChanId) :
    FramesInOrder (deliveredOn ch es) := by
  have hinv : Sys.Owned es s ∧ Sys.InOrder es s :=
    Machine.history_reachable (C := Sys.InTurn)
      (H := fun h s => Sys.Owned h s ∧ Sys.InOrder h s)
      ⟨.init depth, .init depth⟩
      (fun _ _ _ _ _ hinv hturn hstep =>
        ⟨hinv.1.step hstep, hinv.2.step hinv.1 hturn hstep⟩) hturns hrun
  obtain ⟨howned, horder⟩ := hinv
  have hprefix : deliveredOn ch es <+: enqueuedOn ch es :=
    (List.prefix_append _ _).trans (howned.delivered ch)
  exact (horder.ordered ch).sublist hprefix.sublist

/-- Two pushes of one request that take turns, the second one final: both have passed phase 1
when the first one sends, and both frames are read. -/
def turnTakingPushes : List Action :=
  [.invoke 0 (.accept ⟨⟨"a"⟩, .normal⟩), .ensureOpen 0, .enter 0, .submitted 0 (.ok ()),
    .invoke 1 (.subscribe ⟨"a"⟩), .ensureOpen 1, .enter 1,
    .invoke 2 (.pushFrame ⟨⟨"a"⟩, 0, [], false⟩), .ensureOpen 2, .enter 2,
    .invoke 3 (.pushFrame ⟨⟨"a"⟩, 1, [], true⟩), .ensureOpen 3, .enter 3,
    .send 2, .send 3, .complete 3, .recv 0, .recv 0]

/-- There the frames arrive in order, the final one last. -/
theorem turnTakingPushes_received_inOrder :
    ∃ es s, (machine 2).run (machine 2).init turnTakingPushes = some (es, s) ∧
      deliveredOn 0 es = [⟨⟨"a"⟩, 0, [], false⟩, ⟨⟨"a"⟩, 1, [], true⟩] ∧
      FramesInOrder (deliveredOn 0 es) := by
  refine ⟨_, _, rfl, rfl, @received_inOrder 2 turnTakingPushes _ _ ?_ rfl 0⟩
  refine (Machine.along_cons rfl).mpr ⟨trivial, (Machine.along_cons rfl).mpr ⟨trivial, ?_⟩⟩
  refine (Machine.along_cons rfl).mpr ⟨(by rintro frame hcall; cases hcall), ?_⟩
  refine (Machine.along_cons rfl).mpr ⟨trivial, (Machine.along_cons rfl).mpr ⟨trivial, ?_⟩⟩
  refine (Machine.along_cons rfl).mpr ⟨trivial, ?_⟩
  refine (Machine.along_cons rfl).mpr ⟨(by rintro frame hcall; cases hcall), ?_⟩
  refine (Machine.along_cons rfl).mpr ⟨trivial, (Machine.along_cons rfl).mpr ⟨trivial, ?_⟩⟩
  refine (Machine.along_cons rfl).mpr ⟨?_, ?_⟩
  · rintro frame - - (_ | _ | _ | d) other ch (hd | hd) <;> cases hd
  refine (Machine.along_cons rfl).mpr ⟨trivial, (Machine.along_cons rfl).mpr ⟨trivial, ?_⟩⟩
  refine (Machine.along_cons rfl).mpr ⟨?_, ?_⟩
  · -- the push in flight is the first one, which is not final
    rintro frame - - (_ | _ | _ | _ | d) other ch (hd | hd) - <;> cases hd
    rfl
  refine (Machine.along_cons rfl).mpr ⟨?_, ?_⟩
  · -- the second push waits with a larger index
    rintro frame ch hcall - (_ | _ | _ | _ | d) waiting hd <;> cases hd <;> cases hcall
    · exact Nat.le_refl 0
    · exact Nat.zero_le 1
  refine (Machine.along_cons rfl).mpr ⟨?_, ?_⟩
  · rintro frame ch hcall - (_ | _ | _ | _ | d) waiting hd <;> cases hd
    cases hcall
    exact Nat.le_refl 1
  refine (Machine.along_cons rfl).mpr ⟨trivial, (Machine.along_cons rfl).mpr ⟨trivial, ?_⟩⟩
  exact (Machine.along_cons rfl).mpr ⟨trivial, trivial⟩

/-- Two pushes of one request, validated in order and sent the other way round. -/
def overtakingPushes : List Action :=
  [.invoke 0 (.accept ⟨⟨"a"⟩, .normal⟩), .ensureOpen 0, .enter 0, .submitted 0 (.ok ()),
    .invoke 1 (.subscribe ⟨"a"⟩), .ensureOpen 1, .enter 1,
    .invoke 2 (.pushFrame ⟨⟨"a"⟩, 0, [], false⟩), .ensureOpen 2, .enter 2,
    .invoke 3 (.pushFrame ⟨⟨"a"⟩, 1, [], false⟩), .ensureOpen 3, .enter 3,
    .send 3, .send 2, .recv 0, .recv 0]

/-- There the subscriber receives frame 1 before frame 0. -/
theorem overtakingPushes_not_inOrder :
    ∃ es s, (machine 2).run (machine 2).init overtakingPushes = some (es, s) ∧
      ¬ FramesInOrder (deliveredOn 0 es) := by
  refine ⟨_, _, rfl, ?_⟩
  intro horder
  have hpair := (List.pairwise_cons.mp horder).1 ⟨⟨"a"⟩, 0, [], false⟩ (List.mem_singleton.mpr rfl)
  exact absurd hpair.1 (by decide)

end Repercep.Router
