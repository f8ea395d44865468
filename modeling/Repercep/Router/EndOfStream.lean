import Repercep.Router.Halves
import Repercep.Router.Request
set_option autoImplicit false

/-!
# Router: what the end of a stream means

End-of-stream is read only when nothing is queued and no sender is left, and the
sender count covers every sender that is alive.  So a subscriber who reads the end
of its stream has received every frame that was ever queued, and none is queued
afterwards, on every schedule.
-/

namespace Repercep.Router

open Repercep.Foundation

namespace Sys

variable {s t : Sys} {a : Action} {es h : List Event}

/-- A frame is queued only by a push that is sending on the channel. -/
theorem Rule.enqueuedOn_append (hrule : s.Rule a es t) (h : List Event) (ch : ChanId) :
    enqueuedOn ch (h ++ es) = enqueuedOn ch h ∨
      ∃ c frame, a = .send c ∧ s.Sending c frame ch := by
  cases hrule with
  | @sentFinal c frame j k hcall _ _ _ =>
      by_cases hj : j = ch
      · subst hj
        exact Or.inr ⟨c, frame, rfl, hcall⟩
      · exact Or.inl (by simp [enqueuedOn_enqueued, hj])
  | @sent c frame j k hcall _ _ _ =>
      by_cases hj : j = ch
      · subst hj
        exact Or.inr ⟨c, frame, rfl, hcall⟩
      · exact Or.inl (by simp [enqueuedOn_enqueued, hj])
  | _ => exact Or.inl (by simp)

/-! ## The channel of one request -/

/-- `ch` is the one channel of the request, and of no other. -/
structure Serves (s : Sys) (id : RequestId) (ch : ChanId) : Prop where
  known : ∃ e, s.inner.requests id = some e
  own : ∀ {j}, s.Touches id j → j = ch
  sole : ∀ {k}, s.Touches k ch → k = id
  made : ch < s.inner.nextChan

/-- A request keeps its channel for as long as it is not withdrawn. -/
theorem Serves.step {id : RequestId} {ch : ChanId} (hs : s.Serves id ch) (hkept : s.Kept id)
    (hrule : s.Rule a es t) : t.Serves id ch where
  known := by
    obtain ⟨e, hentry⟩ := hs.known
    obtain ⟨e', hentry', -⟩ := hrule.entry hkept hentry
    exact ⟨e', hentry'⟩
  own := by
    intro j ht
    rcases hrule.touches ht with hold | ⟨-, c, req, -, -, rfl, hregister⟩
    · exact hs.own hold
    · obtain ⟨e, hentry⟩ := hs.known
      cases hentry.symm.trans (Inner.register_ok hregister).1
  sole := by
    intro k ht
    rcases hrule.touches ht with hold | ⟨rfl, -⟩
    · exact hs.sole hold
    · exact absurd hs.made (Nat.lt_irrefl _)
  made := Nat.lt_of_lt_of_le hs.made hrule.nextChan_le

/-- Registering a request that has no push in flight gives it a channel. -/
theorem Serves.of_register {req : RouterRequest} (htied : Tied s) (hrule : s.Rule a es t)
    (hregister : s.inner.register req = (.ok (), t.inner))
    (hquiet : ∀ c frame ch, s.InFlight c frame ch → frame.requestId ≠ req.id) :
    t.Serves req.id s.inner.nextChan := by
  obtain ⟨hfree, hinner⟩ := Inner.register_ok hregister
  have hfresh : ∀ {k}, ¬ s.Touches k s.inner.nextChan :=
    fun hold => absurd (htied.made hold) (Nat.lt_irrefl _)
  refine ⟨⟨.accepted s.inner.nextChan req.priority, by rw [hinner]; simp⟩, ?_, ?_, ?_⟩
  · intro j ht
    rcases hrule.touches ht with (⟨e, hentry, -⟩ | ⟨c, frame, hc, hid⟩) | ⟨hj, -⟩
    · cases hentry.symm.trans hfree
    · exact absurd hid (hquiet c frame j hc)
    · exact hj
  · intro k ht
    rcases hrule.touches ht with hold | ⟨-, c, req', -, -, rfl, hregister'⟩
    · exact absurd hold hfresh
    · by_contra hne
      have hsame := hinner.symm.trans (Inner.register_ok hregister').2
      have hrequests := congrArg (fun r => r.requests req'.id) hsame
      simp [hne, (Inner.register_ok hregister').1] at hrequests
  · rw [hinner]
    exact Nat.lt_succ_self _

/-! ## Ended streams -/

/-- A channel whose reader has seen the end has no sender left, and its reader has
everything. -/
structure Over (h : List Event) (s : Sys) (ch : ChanId) : Prop where
  made : ch < s.inner.nextChan
  noWriter : ∀ id last, ¬ s.inner.Writes id ch last
  noPush : ∀ c frame, ¬ s.InFlight c frame ch
  received : deliveredOn ch h = enqueuedOn ch h

/-- Every end of a stream that was read is that of a stream that is over. -/
def Ended (h : List Event) (s : Sys) : Prop :=
  ∀ ch, .ended ch ∈ h → Over h s ch

/-- What is over stays over: nothing is queued any more, so nothing is read. -/
theorem Over.step {ch : ChanId} (hs : Over h s ch) (howned : Owned h s)
    (hrule : s.Rule a es t) : Over (h ++ es) t ch where
  made := Nat.lt_of_lt_of_le hs.made hrule.nextChan_le
  noWriter := by
    intro id last hw
    rcases hrule.writes hw with ⟨last', hw'⟩ | heq
    · exact hs.noWriter id last' hw'
    · exact absurd hs.made (by simp [heq])
  noPush := by
    intro c frame hc
    rcases hrule.inFlight hc with hc | ⟨-, -, last, hw⟩
    · exact hs.noPush c frame hc
    · exact hs.noWriter _ last hw
  received := by
    have hqueued : enqueuedOn ch (h ++ es) = enqueuedOn ch h := by
      rcases hrule.enqueuedOn_append h ch with hsame | ⟨c, frame, -, hc⟩
      · exact hsame
      · exact absurd (Or.inl hc) (hs.noPush c frame)
    rw [hqueued]
    cases hrule with
    | @deliver j frame k _ htakes =>
        have hne : j ≠ ch := by
          rintro rfl
          have hprefix := howned.delivered j
          rw [hs.received, htakes.buffer] at hprefix
          have hlength := hprefix.length_le
          rw [List.length_append, List.length_cons] at hlength
          omega
        simpa [deliveredOn_delivered, hne] using hs.received
    | _ => simpa using hs.received

/-- Everything that holds of the channels, in every state of every run. -/
structure Streams (h : List Event) (s : Sys) : Prop where
  owned : Owned h s
  tied : Tied s
  counted : Counted s
  parked : Parked s
  ended : Ended h s

/-- Reading everything that is queued means having everything that was. -/
theorem Streams.drained {ch : ChanId} (hs : Streams h s) (hheld : s.held ch = true)
    (hbuffer : (s.inner.chans ch).buffer = []) : deliveredOn ch h = enqueuedOn ch h := by
  have hqueued := hs.owned.queued ch (hs.parked.heldOpen hheld)
  rwa [hbuffer, List.append_nil] at hqueued

theorem Streams.step (hs : Streams h s) (hstep : s.step a = some (es, t)) :
    Streams (h ++ es) t := by
  have hrule := step_rule hstep
  have hended : Ended (h ++ es) t := by
    intro ch hmem
    rcases List.mem_append.mp hmem with hold | hnew
    · exact (hs.ended ch hold).step hs.owned hrule
    · -- the end has just been read: the count is zero, so no sender is alive
      cases hrule with
      | @ended j hheld hbuffer hsenders =>
          cases List.mem_singleton.mp hnew
          have hzero : ∀ n, s.Holders ch n → n = 0 := by
            intro n hn
            have hle := hs.counted ch n hn
            omega
          refine ⟨hs.tied.heldMade hheld, ?_, ?_, by simpa using hs.drained hheld hbuffer⟩
          · intro id last hw
            exact absurd (hzero _ (.writer ∅ (by simp) hw)) (by simp)
          · intro c frame hc
            have hone := hzero _ (.pushes {c} fun d hd => by
              rw [Finset.mem_singleton.mp hd]
              exact ⟨frame, hc⟩)
            simp at hone
      | _ => simp at hnew
  exact
    { owned := hs.owned.step hstep
      tied := hs.tied.step hrule
      counted := hs.counted.step hs.owned hrule
      parked := hs.parked.step hs.tied hrule
      ended := hended }

theorem Streams.init (depth : Nat) : Streams [] (machine depth).init where
  owned := .init depth
  tied :=
    { made := by
        rintro id ch (⟨e, hentry, -⟩ | ⟨c, frame, hc | hc, -⟩)
        · cases hentry
        · cases hc
        · cases hc
      heldMade := by
        intro ch hheld
        cases hheld
      owner := by
        rintro id id' ch (⟨e, hentry, -⟩ | ⟨c, frame, hc | hc, -⟩)
        · cases hentry
        · cases hc
        · cases hc }
  counted := by
    intro ch n hn
    have hempty : ∀ {F : Finset CallId},
        (∀ c ∈ F, ∃ frame, (machine depth).init.InFlight c frame ch) → F = ∅ := by
      intro F hF
      refine Finset.eq_empty_of_forall_notMem fun c hc => ?_
      obtain ⟨frame, hframe | hframe⟩ := hF c hc
      · cases hframe
      · cases hframe
    cases hn with
    | pushes F hF => simp [hempty hF]
    | writer F hF hw =>
        obtain ⟨e, hentry, -⟩ := hw
        cases hentry
  parked :=
    { parked := by
        intro id e ch hentry
        cases hentry
      heldOpen := by
        intro ch hheld
        cases hheld }
  ended := by
    intro ch hmem
    cases hmem

end Sys

end Repercep.Router
