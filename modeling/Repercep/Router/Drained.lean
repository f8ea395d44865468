import Repercep.Router.Halves
set_option autoImplicit false

/-!
# Router: streams without a sender

The count of a channel is also bounded by the senders that are alive: the sender of an
entry goes when its request ends, and the clone of a push when the push returns.  So a
stream that nothing sends on any more is read to its end without waiting: the frames
that are queued, and then the end.
-/

namespace Repercep.Router

open Repercep.Foundation

/-- The request has ended, and its sender has been dropped. -/
def Inner.Ended (r : Inner) (id : RequestId) : Prop :=
  ∃ e, r.requests id = some e ∧ e.state.isTerminal = true ∧ e.sender = none

/-- A terminal request holds no sender. -/
def Inner.Hushed (r : Inner) : Prop :=
  ∀ id e, r.requests id = some e → e.state.isTerminal = true → e.sender = none

namespace Inner

variable {r r' : Inner} {id : RequestId}

/-! ## Sections that end a request -/

/-- What a section that ends a request leaves of the others, and of the counts. -/
structure Frees (r r' : Inner) (id : RequestId) : Prop where
  kept : ∀ k ch last, k ≠ id → r.Writes k ch last → r'.Writes k ch last
  senders_le : ∀ ch, (r'.chans ch).senders ≤ (r.chans ch).senders
  freed : ∀ ch last, r.Writes id ch last → (r'.chans ch).senders ≤ (r.chans ch).senders - 1
  nextChan : r'.nextChan = r.nextChan

theorem dropSender_some_senders (r : Inner) (ch : ChanId) :
    ((r.dropSender (some ch)).chans ch).senders = (r.chans ch).senders - 1 := by
  simp [dropSender]

theorem dropSender_senders_le (r : Inner) (half : Option ChanId) (ch : ChanId) :
    ((r.dropSender half).chans ch).senders ≤ (r.chans ch).senders := by
  by_cases hhalf : half = some ch
  · rw [hhalf, dropSender_some_senders]
    exact Nat.sub_le ..
  · exact Nat.le_of_eq ((senders_le_dropSender r half ch).2 hhalf)

/-- Dropping the sender of an entry that is replaced or removed. -/
theorem Frees.of_dropSender {r₁ : Inner} {e : Entry} (hentry : r.requests id = some e)
    (hother : ∀ k, k ≠ id → r₁.requests k = r.requests k) (hchans : r₁.chans = r.chans)
    (hnext : r₁.nextChan = r.nextChan) : r.Frees (r₁.dropSender e.sender) id where
  kept := by
    rintro k ch last hne ⟨e', hentry', hrest⟩
    refine ⟨e', ?_, hrest⟩
    rw [dropSender_requests, hother k hne]
    exact hentry'
  senders_le := by
    intro ch
    rw [← hchans]
    exact dropSender_senders_le ..
  freed := by
    rintro ch last ⟨e', hentry', hsender, -⟩
    cases hentry.symm.trans hentry'
    rw [hsender, dropSender_some_senders, hchans]
  nextChan := by rw [dropSender_nextChan, hnext]

theorem Frees.dropReceiver {half : Option ChanId} (h : r.Frees r' id) :
    r.Frees (r'.dropReceiver half) id where
  kept := by
    intro k ch last hne hwrites
    rw [writes_congr (dropReceiver_requests r' half)]
    exact h.kept k ch last hne hwrites
  senders_le := by
    intro ch
    rw [dropReceiver_senders]
    exact h.senders_le ch
  freed := by
    intro ch last hwrites
    rw [dropReceiver_senders]
    exact h.freed ch last hwrites
  nextChan := by rw [dropReceiver_nextChan, h.nextChan]

theorem Frees.of_none (hnone : r.requests id = none) : r.Frees r id where
  kept := fun _ _ _ _ hwrites => hwrites
  senders_le := fun _ => Nat.le_refl _
  freed := by
    rintro ch last ⟨e, hentry, -⟩
    cases hnone.symm.trans hentry
  nextChan := rfl

theorem complete_frees (r : Inner) (id : RequestId) : r.Frees (r.complete id) id := by
  unfold complete
  cases hentry : r.requests id with
  | none => exact .of_none hentry
  | some e => exact .of_dropSender hentry (fun k hne => by simp [hne]) rfl rfl

theorem rollback_frees (r : Inner) (id : RequestId) : r.Frees (r.rollback id) id := by
  unfold rollback
  cases hentry : r.requests id with
  | none => exact .of_none hentry
  | some e =>
      have hfrees : r.Frees ((r.removeEntry id).dropSender e.sender) id :=
        .of_dropSender hentry (fun k hne => by simp [hne]) rfl rfl
      exact hfrees.dropReceiver

theorem cancelEntry_frees (h : r.cancelEntry id = (.ok (), r')) : r.Frees r' id := by
  obtain ⟨e, hentry, -, rfl⟩ := cancelEntry_ok h
  have hfrees : r.Frees ((r.setEntry id e.cancelled).dropSender e.sender) id :=
    .of_dropSender hentry (fun k hne => by simp [hne]) rfl rfl
  exact hfrees.dropReceiver

/-- A frame that passes phase 1 leaves every writer its channel. -/
theorem validate_kept {frame : Frame} {ch : ChanId} (h : r.validate frame = (.ok ch, r'))
    {k : RequestId} {j : ChanId} {last : Option Nat} (hwrites : r.Writes k j last) :
    ∃ last', r'.Writes k j last' := by
  obtain ⟨e, hlive, hentry, -, hsender, rfl⟩ := validate_ok h
  obtain ⟨e', hentry', hsender', -⟩ := hwrites
  by_cases hk : k = frame.requestId
  · subst hk
    cases hentry.symm.trans hentry'
    exact ⟨_, e.recordFrame frame.frameIndex hlive, by simp, hsender', rfl⟩
  · exact ⟨_, e', by simpa [hk] using hentry', hsender', rfl⟩

theorem takeReceiver_kept {ch : ChanId} (h : r.takeReceiver id = (.ok ch, r'))
    {k : RequestId} {j : ChanId} {last : Option Nat} (hwrites : r.Writes k j last) :
    r'.Writes k j last := by
  obtain ⟨e, hentry, -, rfl⟩ := takeReceiver_ok h
  obtain ⟨e', hentry', hrest⟩ := hwrites
  by_cases hk : k = id
  · subst hk
    cases hentry.symm.trans hentry'
    exact ⟨e.subscribed, by simp, hrest⟩
  · exact ⟨e', by simpa [hk] using hentry', hrest⟩

theorem Hushed.setEntry (h : r.Hushed) (id : RequestId) (e : Entry)
    (hsender : e.state.isTerminal = true → e.sender = none) : (r.setEntry id e).Hushed := by
  intro k e' hentry hterminal
  by_cases hk : k = id
  · subst hk
    simp only [setEntry_requests, Function.update_self, Option.some.injEq] at hentry
    subst hentry
    exact hsender hterminal
  · simp only [setEntry_requests, ne_eq, hk, not_false_eq_true, Function.update_of_ne] at hentry
    exact h k e' hentry hterminal

theorem Hushed.congr (h : r.Hushed) (hsame : r'.requests = r.requests) : r'.Hushed := by
  unfold Hushed
  rw [hsame]
  exact h

theorem Hushed.ended (h : r.Hushed) {e : Entry} (hentry : r.requests id = some e)
    (hterminal : e.state.isTerminal = true) : r.Ended id :=
  ⟨e, hentry, hterminal, h id e hentry hterminal⟩

end Inner

namespace Sys

variable {s t : Sys} {a : Action} {es : List Event}

/-- Requests that have ended hold no sender after any step. -/
theorem Rule.hushed (h : s.Rule a es t) (hhushed : s.inner.Hushed) : t.inner.Hushed := by
  cases h with
  | @register c req r _ hregister =>
      obtain ⟨-, hinner⟩ := Inner.register_ok hregister
      rw [advance_inner, hinner]
      refine (hhushed.setEntry req.id (.accepted s.inner.nextChan req.priority) ?_).congr rfl
      intro hterminal
      cases hterminal
  | @validate c frame ch r _ hvalidate =>
      obtain ⟨e, hlive, -, -, -, hinner⟩ := Inner.validate_ok hvalidate
      rw [advance_inner, hinner]
      refine (hhushed.setEntry frame.requestId (e.recordFrame frame.frameIndex hlive)
        ?_).congr rfl
      intro hterminal
      rw [Entry.recordFrame_state, Entry.firstFrame_isTerminal hlive] at hterminal
      cases hterminal
  | @subscribe c id ch r _ htake =>
      obtain ⟨e, hentry, -, hinner⟩ := Inner.takeReceiver_ok htake
      change r.Hushed
      rw [hinner]
      exact hhushed.setEntry id _ (hhushed id e hentry)
  | @cancel c id r _ hcancel =>
      obtain ⟨e, -, -, hinner⟩ := Inner.cancelEntry_ok hcancel
      rw [advance_inner, hinner]
      exact (hhushed.setEntry id e.cancelled fun _ => rfl).congr (by simp)
  | @rollback c req e _ =>
      rw [advance_inner]
      unfold Inner.rollback
      cases s.inner.requests req.id with
      | none => exact hhushed
      | some e₀ =>
          intro k e' hentry hterminal
          by_cases hk : k = req.id
          · simp [hk] at hentry
          · exact hhushed k e' (by simpa [hk] using hentry) hterminal
  | @complete c frame ch _ =>
      rw [advance_inner]
      refine Inner.Hushed.congr (r := s.inner.complete frame.requestId) ?_ (by simp)
      unfold Inner.complete
      cases s.inner.requests frame.requestId with
      | none => exact hhushed
      | some e =>
          exact (hhushed.setEntry frame.requestId e.completed fun _ => rfl).congr
            (by simp)
  | shutdown => exact hhushed.congr rfl
  | _ => exact hhushed.congr (by simp)

/-! ## Counts covered by the senders alive -/

/-- Every sender a channel counts is alive: the one of its writer or a clone of a push. -/
def Covered (s : Sys) : Prop :=
  ∀ ch, ch < s.inner.nextChan → ∃ n, s.Holders ch n ∧ (s.inner.chans ch).senders ≤ n

/-- A step that leaves every writer and every clone keeps what covers the counts. -/
theorem Covered.grow (hs : Covered s)
    (hwrites : ∀ id ch last, s.inner.Writes id ch last → ∃ last', t.inner.Writes id ch last')
    (hflight : ∀ c frame ch, s.InFlight c frame ch → t.InFlight c frame ch)
    (hsenders : ∀ ch, (t.inner.chans ch).senders = (s.inner.chans ch).senders)
    (hnext : t.inner.nextChan = s.inner.nextChan) : Covered t := by
  intro ch hmade
  rw [hnext] at hmade
  obtain ⟨n, hholders, hle⟩ := hs ch hmade
  refine ⟨n, hholders.mono (fun id last => hwrites id ch last)
    (fun c frame => hflight c frame ch), ?_⟩
  rw [hsenders]
  exact hle

/-- A call without a clone moves on: the clones of the others stay. -/
theorem inFlight_advance {c d : CallId} {call : Call} {r : Inner} {frame : Frame}
    {ch : ChanId} (hidle : ∀ g j, ¬ s.InFlight c g j) (h : s.InFlight d frame ch) :
    (s.advance c call r).InFlight d frame ch := by
  have hne : d ≠ c := by
    rintro rfl
    exact hidle _ _ h
  exact h.imp (fun hd => sending_advance.mpr (Or.inr ⟨hne, hd⟩))
    fun hd => completing_advance.mpr (Or.inr ⟨hne, hd⟩)

theorem not_inFlight_of_call {c : CallId} {call : Call} (hcall : s.calls c = some call)
    (hidle : call.Idle) (frame : Frame) (ch : ChanId) : ¬ s.InFlight c frame ch := by
  rintro (h | h)
  · exact (hidle frame ch).1 (Option.some.inj (hcall.symm.trans h))
  · exact (hidle frame ch).2 (Option.some.inj (hcall.symm.trans h))

/-- Ending a request's writing takes its sender off the count. -/
theorem Covered.free (hs : Covered s) {id : RequestId} (hfrees : s.inner.Frees t.inner id)
    (hflight : ∀ c frame ch, s.InFlight c frame ch → t.InFlight c frame ch) : Covered t := by
  intro ch hmade
  rw [hfrees.nextChan] at hmade
  have hall : ∀ {F : Finset CallId}, (∀ c ∈ F, ∃ frame, s.InFlight c frame ch) →
      ∀ c ∈ F, ∃ frame, t.InFlight c frame ch := by
    intro F hF c hc
    obtain ⟨frame, hframe⟩ := hF c hc
    exact ⟨frame, hflight c frame ch hframe⟩
  obtain ⟨n, hholders, hle⟩ := hs ch hmade
  have hfewer := hfrees.senders_le ch
  cases hholders with
  | pushes F hF => exact ⟨F.card, .pushes F (hall hF), by omega⟩
  | @writer F hF k last hwrites =>
      by_cases hk : k = id
      · subst hk
        have hfreed := hfrees.freed ch last hwrites
        exact ⟨F.card, .pushes F (hall hF), by omega⟩
      · exact ⟨F.card + 1, .writer F (hall hF) (hfrees.kept k ch last hk hwrites), by omega⟩

/-- A push that returns gives its clone back. -/
theorem Covered.release (hs : Covered s) {c : CallId} {frame : Frame} {ch : ChanId}
    (hc : s.InFlight c frame ch) (result : Except RouterError Unit) :
    Covered (s.advance c (.done result) (s.inner.dropSender (some ch))) := by
  have hwrites : ∀ {id j last}, s.inner.Writes id j last →
      (s.inner.dropSender (some ch)).Writes id j last :=
    fun hw => (Inner.writes_congr (by simp)).mpr hw
  have hsole : ∀ {g j}, s.InFlight c g j → j = ch := by
    rintro g j (hg | hg) <;> rcases hc with hc | hc <;> cases hg.symm.trans hc <;> rfl
  have hothers : ∀ {d g j}, d ≠ c → s.InFlight d g j →
      (s.advance c (.done result) (s.inner.dropSender (some ch))).InFlight d g j := by
    intro d g j hne hd
    exact hd.imp (fun hd => sending_advance.mpr (Or.inr ⟨hne, hd⟩))
      fun hd => completing_advance.mpr (Or.inr ⟨hne, hd⟩)
  intro j hmade
  rw [advance_inner, Inner.dropSender_nextChan] at hmade
  have hall : ∀ {F : Finset CallId}, (∀ d ∈ F, ∃ g, s.InFlight d g j) →
      ∀ d ∈ F.erase c, ∃ g,
        (s.advance c (.done result) (s.inner.dropSender (some ch))).InFlight d g j := by
    intro F hF d hd
    obtain ⟨hne, hmem⟩ := Finset.mem_erase.mp hd
    obtain ⟨g, hg⟩ := hF d hmem
    exact ⟨g, hothers hne hg⟩
  -- without the call, the clones of the channel are one fewer if it is its own
  have hcount : ∀ {F : Finset CallId} {m : Nat}, (∀ d ∈ F, ∃ g, s.InFlight d g j) →
      (s.inner.chans j).senders ≤ F.card + m →
      (((s.inner.dropSender (some ch)).chans j).senders ≤ (F.erase c).card + m) := by
    intro F m hF hle
    by_cases hj : j = ch
    · subst hj
      rw [Inner.dropSender_some_senders]
      have herase : F.card - 1 ≤ (F.erase c).card := Finset.pred_card_le_card_erase
      omega
    · have hnot : c ∉ F := by
        intro hmem
        obtain ⟨g, hg⟩ := hF c hmem
        exact hj (hsole hg)
      rw [Finset.erase_eq_of_notMem hnot]
      exact Nat.le_trans (Inner.dropSender_senders_le ..) hle
  obtain ⟨n, hholders, hle⟩ := hs j hmade
  rw [advance_inner]
  cases hholders with
  | pushes F hF => exact ⟨_, .pushes _ (hall hF), hcount (m := 0) hF hle⟩
  | writer F hF hw => exact ⟨_, .writer _ (hall hF) (hwrites hw), hcount hF hle⟩

/-- Registering a request makes a channel with one sender, the entry's. -/
theorem Covered.register (hs : Covered s) {c : CallId} {req : RouterRequest} {r : Inner}
    (hcall : s.calls c = some (.opened (.accept req)))
    (hregister : s.inner.register req = (.ok (), r)) :
    Covered (s.advance c (.submitting req) r) := by
  have hidle := s.not_inFlight_of_call hcall (by simp [Call.Idle])
  obtain ⟨hfree, hinner⟩ := Inner.register_ok hregister
  intro ch hmade
  by_cases hch : ch = s.inner.nextChan
  · subst hch
    have hwrites : r.Writes req.id s.inner.nextChan none := by
      rw [hinner]
      exact ⟨.accepted s.inner.nextChan req.priority, Function.update_self .., rfl, rfl⟩
    refine ⟨_, .writer ∅ (by simp) hwrites, ?_⟩
    rw [advance_inner, hinner]
    simp
  · have hold : ch < s.inner.nextChan := by
      rw [advance_inner, hinner] at hmade
      have hmade' : ch < s.inner.nextChan + 1 := hmade
      exact Nat.lt_of_le_of_ne (Nat.le_of_lt_succ hmade') hch
    obtain ⟨n, hholders, hle⟩ := hs ch hold
    refine ⟨n, hholders.mono ?_ fun d frame hd => inFlight_advance hidle hd, ?_⟩
    · rintro k last ⟨e, hentry, hrest⟩
      have hne : k ≠ req.id := by
        rintro rfl
        cases hfree.symm.trans hentry
      rw [advance_inner, hinner]
      exact ⟨last, e, by simpa [hne] using hentry, hrest⟩
    · rw [advance_inner, hinner]
      simpa [hch] using hle

/-- A push that passes phase 1 is counted by the clone it takes. -/
theorem Covered.validate (hs : Covered s) {c : CallId} {frame : Frame} {ch : ChanId}
    {r : Inner} (hcall : s.calls c = some (.opened (.pushFrame frame)))
    (hvalidate : s.inner.validate frame = (.ok ch, r)) :
    Covered (s.advance c (.sending frame ch) r) := by
  have hidle := s.not_inFlight_of_call hcall (by simp [Call.Idle])
  have hwrites : ∀ {k j last}, s.inner.Writes k j last → ∃ last', r.Writes k j last' :=
    fun hw => Inner.validate_kept hvalidate hw
  have hflight : ∀ {d g j}, s.InFlight d g j → (s.advance c (.sending frame ch) r).InFlight d g j :=
    fun hd => inFlight_advance hidle hd
  have hself : (s.advance c (.sending frame ch) r).InFlight c frame ch :=
    Or.inl (sending_advance.mpr (Or.inl ⟨rfl, rfl⟩))
  obtain ⟨e, hlive, -, -, -, hinner⟩ := Inner.validate_ok hvalidate
  intro j hmade
  rw [advance_inner, hinner] at hmade
  obtain ⟨n, hholders, hle⟩ := hs j hmade
  by_cases hj : j = ch
  · subst hj
    have hcount : ((s.advance c (.sending frame j) r).inner.chans j).senders =
        (s.inner.chans j).senders + 1 := by
      rw [advance_inner, hinner]
      simp
    have hinsert : ∀ {F : Finset CallId}, (∀ d ∈ F, ∃ g, s.InFlight d g j) →
        (∀ d ∈ insert c F, ∃ g, (s.advance c (.sending frame j) r).InFlight d g j) ∧
          (insert c F).card = F.card + 1 := by
      intro F hF
      refine ⟨?_, Finset.card_insert_of_notMem fun hmem => ?_⟩
      · intro d hd
        rcases Finset.mem_insert.mp hd with rfl | hmem
        · exact ⟨frame, hself⟩
        · obtain ⟨g, hg⟩ := hF d hmem
          exact ⟨g, hflight hg⟩
      · obtain ⟨g, hg⟩ := hF c hmem
        exact hidle g j hg
    rw [hcount]
    cases hholders with
    | pushes F hF =>
        obtain ⟨hall, hcard⟩ := hinsert hF
        exact ⟨_, .pushes _ hall, by omega⟩
    | writer F hF hw =>
        obtain ⟨hall, hcard⟩ := hinsert hF
        obtain ⟨last', hw'⟩ := hwrites hw
        exact ⟨_, .writer _ hall hw', by omega⟩
  · refine ⟨n, hholders.mono (fun k last hw => hwrites hw) fun d g hd => hflight hd, ?_⟩
    rw [advance_inner, hinner]
    simpa [hj] using hle

/-- Every step keeps the counts covered. -/
theorem Covered.step (hs : Covered s) (hrule : s.Rule a es t) : Covered t := by
  have hmoved : ∀ {c : CallId} {call next : Call}, s.calls c = some call → call.Idle →
      Covered (s.advance c next s.inner) := by
    intro c call next hcall hidle
    exact hs.grow (fun _ _ last hw => ⟨last, hw⟩)
      (fun _ _ _ hd => inFlight_advance (s.not_inFlight_of_call hcall hidle) hd)
      (fun _ => rfl) rfl
  have hqueued : ∀ {ch : ChanId} {k : Channel Frame},
      k.senders = (s.inner.chans ch).senders →
      Covered { s with inner := s.inner.setChan ch k } := by
    intro ch k hsenders
    refine hs.grow (fun _ _ last hw => ⟨last, hw⟩) (fun _ _ _ hd => hd) (fun j => ?_) rfl
    by_cases hj : j = ch
    · subst hj
      simpa using hsenders
    · simp [hj]
  cases hrule with
  | @invoke c op hfree =>
      refine hs.grow (fun _ _ last hw => ⟨last, hw⟩) (fun _ _ _ hd => inFlight_advance ?_ hd)
        (fun _ => rfl) rfl
      rintro g j (hg | hg) <;> cases hfree.symm.trans hg
  | opens hcall _ => exact hmoved hcall (by simp [Call.Idle])
  | shut hcall _ => exact hmoved hcall (by simp [Call.Idle])
  | refuse hcall _ => exact hmoved hcall (by simp [Call.Idle])
  | unsubmitted hcall => exact hmoved hcall (by simp [Call.Idle])
  | submitted hcall => exact hmoved hcall (by simp [Call.Idle])
  | register hcall hregister => exact hs.register hcall hregister
  | validate hcall hvalidate => exact hs.validate hcall hvalidate
  | @subscribe c id ch r hcall htake =>
      have hdone : Covered (s.advance c (.done (.ok ())) s.inner) := hmoved hcall (by simp [Call.Idle])
      refine hdone.grow (fun _ _ last hw => ⟨last, Inner.takeReceiver_kept htake hw⟩)
        (fun _ _ _ hd => hd) ?_ ?_
      · obtain ⟨e, -, -, rfl⟩ := Inner.takeReceiver_ok htake
        exact fun _ => rfl
      · obtain ⟨e, -, -, rfl⟩ := Inner.takeReceiver_ok htake
        rfl
  | cancel hcall hcancel =>
      exact hs.free (Inner.cancelEntry_frees hcancel) fun _ _ _ hd =>
        inFlight_advance (s.not_inFlight_of_call hcall (by simp [Call.Idle])) hd
  | rollback hcall =>
      exact hs.free (Inner.rollback_frees s.inner _) fun _ _ _ hd =>
        inFlight_advance (s.not_inFlight_of_call hcall (by simp [Call.Idle])) hd
  | unsent hcall _ => exact hs.release (Or.inl hcall) _
  | @sentFinal c frame ch k hcall _ happends _ =>
      refine (hqueued happends.senders).grow (fun _ _ last hw => ⟨last, hw⟩) ?_ (fun _ => rfl) rfl
      rintro d g j (hd | hd)
      · by_cases hne : d = c
        · subst hne
          cases hcall.symm.trans hd
          exact Or.inr (completing_advance.mpr (Or.inl ⟨rfl, rfl⟩))
        · exact Or.inl (sending_advance.mpr (Or.inr ⟨hne, hd⟩))
      · have hne : d ≠ c := by
          rintro rfl
          cases hcall.symm.trans hd
        exact Or.inr (completing_advance.mpr (Or.inr ⟨hne, hd⟩))
  | sent hcall _ happends _ => exact (hqueued happends.senders).release (Or.inl hcall) _
  | @complete c frame ch hcall =>
      have hcompleted : Covered { s with inner := s.inner.complete frame.requestId } :=
        hs.free (Inner.complete_frees s.inner frame.requestId) fun _ _ _ hd => hd
      exact hcompleted.release (Or.inr hcall) _
  | deliver _ htakes => exact hqueued htakes.senders
  | ended => exact hs
  | dropReceiver _ =>
      exact hs.grow (fun _ _ last hw => ⟨last, (Inner.writes_congr (by simp)).mpr hw⟩)
        (fun _ _ _ hd => hd) (by simp) (by simp)
  | shutdown =>
      exact hs.grow (fun _ _ last hw => ⟨last, hw⟩) (fun _ _ _ hd => hd) (fun _ => rfl) rfl

theorem Covered.init (depth : Nat) : Covered (machine depth).init := by
  intro ch hmade
  exact absurd hmade (Nat.not_lt_zero ch)

/-- Nothing sends on the channel: no request writes it and no push holds a clone. -/
structure Abandoned (s : Sys) (ch : ChanId) : Prop where
  noWriter : ∀ id last, ¬ s.inner.Writes id ch last
  noPush : ∀ c frame, ¬ s.InFlight c frame ch

theorem Abandoned.senders {ch : ChanId} (h : s.Abandoned ch) (hs : Covered s)
    (hmade : ch < s.inner.nextChan) : (s.inner.chans ch).senders = 0 := by
  obtain ⟨n, hholders, hle⟩ := hs ch hmade
  cases hholders with
  | pushes F hF =>
      have hempty : F = ∅ := by
        refine Finset.eq_empty_of_forall_notMem fun c hc => ?_
        obtain ⟨frame, hframe⟩ := hF c hc
        exact h.noPush c frame hframe
      rw [hempty, Finset.card_empty] at hle
      omega
  | writer F hF hw => exact absurd hw (h.noWriter _ _)

end Sys

/-! ## Reading to the end -/

/-- The stream is read without waiting: what is queued on it, and then the end. -/
def Sys.ReadsToEnd (s : Sys) (ch : ChanId) : Prop :=
  ∀ depth, ∃ t, (machine depth).run s
    (List.replicate ((s.inner.chans ch).buffer.length + 1) (.recv ch)) =
      some ((s.inner.chans ch).buffer.map (.delivered ch) ++ [.ended ch], t)

theorem Sys.readsToEnd {s : Sys} {ch : ChanId} (hheld : s.held ch = true)
    (hsenders : (s.inner.chans ch).senders = 0) : s.ReadsToEnd ch := by
  intro depth
  generalize hbuffer : (s.inner.chans ch).buffer = buffer
  induction buffer generalizing s with
  | nil =>
      have hread : s.step (.recv ch) = some ([.ended ch],
          { s with inner := s.inner.setChan ch (s.inner.chans ch) }) := by
        have hrecv : (s.inner.chans ch).recv = (.ended, s.inner.chans ch) := by
          unfold Channel.recv
          split
          · rename_i frame rest hcons
            rw [hbuffer] at hcons
            cases hcons
          · rw [if_pos hsenders]
        simp [Sys.step, hheld, Sys.read, Inner.recv, hrecv]
      exact ⟨_, Machine.run_singleton hread⟩
  | cons frame rest ih =>
      obtain ⟨k, hrecv⟩ : ∃ k, (s.inner.chans ch).recv = (.item frame, k) := by
        unfold Channel.recv
        split
        · rename_i frame' rest' hcons
          rw [hbuffer] at hcons
          cases hcons
          exact ⟨_, rfl⟩
        · rename_i hnil
          rw [hbuffer] at hnil
          cases hnil
      have htakes := Channel.recv_item hrecv
      have hread : s.step (.recv ch) = some ([.delivered ch frame],
          { s with inner := s.inner.setChan ch k }) := by
        simp [Sys.step, hheld, Sys.read, Inner.recv, hrecv]
      have hrest : k.buffer = rest := by
        have hcons := htakes.buffer
        rw [hbuffer] at hcons
        cases hcons
        rfl
      obtain ⟨t, hrun⟩ := ih (s := { s with inner := s.inner.setChan ch k }) hheld
        (by simpa using htakes.senders.trans hsenders) (by simpa using hrest)
      exact ⟨t, Machine.run_cons_eq_some.mpr ⟨_, _, _, hread, hrun, rfl⟩⟩

end Repercep.Router
