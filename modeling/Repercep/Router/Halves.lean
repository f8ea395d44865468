import Repercep.Router.Channels
import Repercep.Router.Rules
import Mathlib.Data.Finset.Card
set_option autoImplicit false

/-!
# Router: who holds which half of a channel

Under every schedule, a channel stays with the request it was made for, its sender
count covers the entry that writes it and the pushes in flight on it, and its
receiver is either parked in that entry, held by one subscriber, or gone.
-/

namespace Repercep.Router

open Repercep.Foundation

namespace Sys

/-- The request `id` still has to do with the channel: through its entry, or through
a push in flight. -/
def Touches (s : Sys) (id : RequestId) (ch : ChanId) : Prop :=
  (∃ e, s.inner.requests id = some e ∧ (e.sender = some ch ∨ e.receiver = some ch)) ∨
    ∃ c frame, s.InFlight c frame ch ∧ frame.requestId = id

theorem Touches.of_writes {s : Sys} {id : RequestId} {ch : ChanId} {last : Option Nat}
    (hw : s.inner.Writes id ch last) : s.Touches id ch := by
  obtain ⟨e, hentry, hsender, -⟩ := hw
  exact Or.inl ⟨e, hentry, Or.inl hsender⟩

end Sys

namespace Inner

/-- Entries lose halves but gain none. -/
def HalvesKept (r r' : Inner) : Prop :=
  ∀ id e, r'.requests id = some e → ∃ e₀, r.requests id = some e₀ ∧
    (∀ ch, e.sender = some ch → e₀.sender = some ch) ∧
    (∀ ch, e.receiver = some ch → e₀.receiver = some ch)

theorem HalvesKept.of_eq {r r' : Inner} (h : r'.requests = r.requests) : r.HalvesKept r' := by
  intro id e hentry
  rw [h] at hentry
  exact ⟨e, hentry, fun _ hs => hs, fun _ hr => hr⟩

theorem halvesKept_setEntry {r r' : Inner} {id : RequestId} {e₀ : Entry} (e : Entry)
    (hentry : r.requests id = some e₀)
    (hsame : r'.requests = Function.update r.requests id (some e))
    (hsender : ∀ ch, e.sender = some ch → e₀.sender = some ch)
    (hreceiver : ∀ ch, e.receiver = some ch → e₀.receiver = some ch) : r.HalvesKept r' := by
  intro k e' hk
  rw [hsame] at hk
  by_cases hid : k = id
  · subst hid
    rw [Function.update_self] at hk
    cases hk
    exact ⟨e₀, hentry, hsender, hreceiver⟩
  · rw [Function.update_of_ne hid] at hk
    exact ⟨e', hk, fun _ hs => hs, fun _ hr => hr⟩

theorem halvesKept_validate {r r' : Inner} {frame : Frame} {ch : ChanId}
    (h : r.validate frame = (.ok ch, r')) : r.HalvesKept r' := by
  obtain ⟨e, hlive, hentry, -, -, rfl⟩ := validate_ok h
  exact halvesKept_setEntry (e.recordFrame frame.frameIndex hlive) hentry rfl (fun _ hs => hs)
    fun _ hr => hr

theorem halvesKept_takeReceiver {r r' : Inner} {id : RequestId} {ch : ChanId}
    (h : r.takeReceiver id = (.ok ch, r')) : r.HalvesKept r' := by
  obtain ⟨e, hentry, -, rfl⟩ := takeReceiver_ok h
  exact halvesKept_setEntry e.subscribed hentry rfl (fun _ hs => hs) fun _ hr => by cases hr

theorem halvesKept_cancelEntry {r r' : Inner} {id : RequestId}
    (h : r.cancelEntry id = (.ok (), r')) : r.HalvesKept r' := by
  obtain ⟨e, hentry, -, rfl⟩ := cancelEntry_ok h
  exact halvesKept_setEntry e.cancelled hentry (by simp) (fun _ hs => by cases hs)
    fun _ hr => by cases hr

theorem halvesKept_complete (r : Inner) (id : RequestId) : r.HalvesKept (r.complete id) := by
  unfold complete
  cases hentry : r.requests id with
  | none => exact .of_eq rfl
  | some e =>
      exact halvesKept_setEntry e.completed hentry (by simp) (fun _ hs => by cases hs)
        fun _ hr => hr

theorem halvesKept_rollback (r : Inner) (id : RequestId) : r.HalvesKept (r.rollback id) := by
  unfold rollback
  cases hentry : r.requests id with
  | none => exact .of_eq rfl
  | some e =>
      intro k e' hk
      by_cases hid : k = id
      · subst hid
        simp at hk
      · refine ⟨e', by simpa [hid] using hk, fun _ hs => hs, fun _ hr => hr⟩

end Inner

namespace Sys

variable {s t : Sys} {a : Action} {es h : List Event}

/-- A step that is not the registration of a request adds no half to an entry. -/
theorem Rule.halvesKept (hrule : s.Rule a es t) :
    s.inner.HalvesKept t.inner ∨ ∃ c req, a = .enter c ∧
      s.calls c = some (.opened (.accept req)) ∧
      s.inner.register req = (.ok (), t.inner) := by
  cases hrule with
  | register hcall hregister => exact Or.inr ⟨_, _, rfl, hcall, hregister⟩
  | validate _ hvalidate => exact Or.inl (Inner.halvesKept_validate hvalidate)
  | subscribe _ htake => exact Or.inl (Inner.halvesKept_takeReceiver htake)
  | cancel _ hcancel => exact Or.inl (Inner.halvesKept_cancelEntry hcancel)
  | rollback _ => exact Or.inl (Inner.halvesKept_rollback s.inner _)
  | @complete c frame ch _ =>
      refine Or.inl fun id e hentry => ?_
      rw [advance_inner, Inner.dropSender_requests] at hentry
      exact Inner.halvesKept_complete s.inner frame.requestId id e hentry
  | shutdown => exact Or.inl (.of_eq rfl)
  | _ => exact Or.inl (.of_eq (by simp))

/-- A push in flight was in flight before, unless it has just passed phase 1 on the
channel its request writes. -/
theorem Rule.inFlight (hrule : s.Rule a es t) {c : CallId} {frame : Frame} {ch : ChanId}
    (hc : t.InFlight c frame ch) : s.InFlight c frame ch ∨
      (a = .enter c ∧ s.calls c = some (.opened (.pushFrame frame)) ∧
        ∃ last, s.inner.Writes frame.requestId ch last) := by
  have hidle : ∀ {d : CallId} {next : Call} {r : Inner}, next.Idle →
      (s.advance d next r).InFlight c frame ch → s.InFlight c frame ch ∨
        (a = .enter c ∧ s.calls c = some (.opened (.pushFrame frame)) ∧
          ∃ last, s.inner.Writes frame.requestId ch last) :=
    fun hnext hflight => Or.inl (inFlight_of_advance_idle hnext hflight)
  cases hrule with
  | @validate d g j r hcall hvalidate =>
      rcases hc with hc | hc
      · rcases sending_advance.mp hc with ⟨rfl, hsame⟩ | ⟨-, hc⟩
        · cases hsame
          obtain ⟨⟨last, hw, -⟩, -, -⟩ := Inner.validate_writer hvalidate
          exact Or.inr ⟨rfl, hcall, last, hw⟩
        · exact Or.inl (Or.inl hc)
      · rcases completing_advance.mp hc with ⟨-, hsame⟩ | ⟨-, hc⟩
        · cases hsame
        · exact Or.inl (Or.inr hc)
  | @sentFinal d g j k hcall _ _ _ =>
      rcases hc with hc | hc
      · rcases sending_advance.mp hc with ⟨-, hsame⟩ | ⟨-, hc⟩
        · cases hsame
        · exact Or.inl (Or.inl hc)
      · rcases completing_advance.mp hc with ⟨rfl, hsame⟩ | ⟨-, hc⟩
        · cases hsame
          exact Or.inl (Or.inl hcall)
        · exact Or.inl (Or.inr hc)
  | @subscribe d k j r _ _ => exact hidle (r := r) (Call.idle_of_done _) hc
  | deliver | ended | dropReceiver | shutdown => exact Or.inl hc
  | _ => exact hidle (by simp [Call.Idle]) hc

/-- A tie is an old one, unless an `accept` of the request has just made the
channel. -/
theorem Rule.touches (hrule : s.Rule a es t) {id : RequestId} {ch : ChanId}
    (ht : t.Touches id ch) : s.Touches id ch ∨
      (ch = s.inner.nextChan ∧ ∃ c req, a = .enter c ∧
        s.calls c = some (.opened (.accept req)) ∧ req.id = id ∧
        s.inner.register req = (.ok (), t.inner)) := by
  rcases ht with ⟨e, hentry, hhalf⟩ | ⟨c, frame, hc, hid⟩
  · rcases hrule.halvesKept with hkept | ⟨c, req, ha, hcall, hregister⟩
    · obtain ⟨e₀, hentry₀, hsender, hreceiver⟩ := hkept id e hentry
      exact Or.inl (Or.inl ⟨e₀, hentry₀, hhalf.imp (hsender ch) (hreceiver ch)⟩)
    · have hregister' := hregister
      obtain ⟨-, hinner⟩ := Inner.register_ok hregister
      rw [hinner] at hentry
      by_cases hid : id = req.id
      · subst hid
        simp only [Function.update_self, Option.some.injEq] at hentry
        subst hentry
        refine Or.inr ⟨?_, c, req, ha, hcall, rfl, hregister'⟩
        rcases hhalf with hhalf | hhalf <;> exact (Option.some.inj hhalf).symm
      · simp only [ne_eq, hid, not_false_eq_true, Function.update_of_ne] at hentry
        exact Or.inl (Or.inl ⟨e, hentry, hhalf⟩)
  · rcases hrule.inFlight hc with hc | ⟨-, -, last, hw⟩
    · exact Or.inl (Or.inr ⟨c, frame, hc, hid⟩)
    · exact Or.inl (hid ▸ Touches.of_writes hw)

/-- A writer is an old one, unless its channel has just been made. -/
theorem Rule.writes (hrule : s.Rule a es t) {id : RequestId} {ch : ChanId}
    {last : Option Nat} (hw : t.inner.Writes id ch last) :
    (∃ last', s.inner.Writes id ch last') ∨ ch = s.inner.nextChan := by
  rcases hrule.halvesKept with hkept | ⟨c, req, -, -, hregister⟩
  · obtain ⟨e, hentry, hsender, -⟩ := hw
    obtain ⟨e₀, hentry₀, hhalf, -⟩ := hkept id e hentry
    exact Or.inl ⟨_, e₀, hentry₀, hhalf ch hsender, rfl⟩
  · rcases writes_register hregister hw with ⟨-, rfl⟩ | hw
    · exact Or.inr rfl
    · exact Or.inl ⟨last, hw⟩

theorem Rule.nextChan_le (hrule : s.Rule a es t) : s.inner.nextChan ≤ t.inner.nextChan := by
  cases hrule with
  | register _ hregister =>
      obtain ⟨-, rfl⟩ := Inner.register_ok hregister
      exact Nat.le_succ _
  | validate _ hvalidate => exact (Inner.validate_writer hvalidate).2.2.ge
  | subscribe _ htake =>
      obtain ⟨e, -, -, rfl⟩ := Inner.takeReceiver_ok htake
      exact le_rfl
  | cancel _ hcancel => exact (Inner.cancelEntry_silences hcancel).nextChan.ge
  | rollback _ => exact (Inner.rollback_silences s.inner _).nextChan.ge
  | complete _ =>
      rw [advance_inner, Inner.dropSender_nextChan]
      exact (Inner.complete_silences s.inner _).nextChan.ge
  | shutdown => exact le_rfl
  | _ => simp

/-- A held receiver was held before, unless it has just been taken from its entry. -/
theorem Rule.held (hrule : s.Rule a es t) {ch : ChanId} (hheld : t.held ch = true) :
    s.held ch = true ∨ ∃ id e, s.inner.requests id = some e ∧ e.receiver = some ch := by
  cases hrule with
  | @subscribe c id j r _ htake =>
      obtain ⟨e, hentry, hreceiver, -⟩ := Inner.takeReceiver_ok htake
      by_cases hj : ch = j
      · subst hj
        exact Or.inr ⟨id, e, hentry, hreceiver⟩
      · left
        simpa [hj] using hheld
  | @dropReceiver j _ =>
      by_cases hj : ch = j
      · subst hj
        simp at hheld
      · left
        simpa [hj] using hheld
  | _ => exact Or.inl hheld

/-! ## Channels and their requests -/

/-- Every channel that is still in use has been made, for one request. -/
structure Tied (s : Sys) : Prop where
  made : ∀ {id ch}, s.Touches id ch → ch < s.inner.nextChan
  heldMade : ∀ {ch}, s.held ch = true → ch < s.inner.nextChan
  owner : ∀ {id id' ch}, s.Touches id ch → s.Touches id' ch → id = id'

theorem Tied.step (hs : Tied s) (hrule : s.Rule a es t) : Tied t where
  made := by
    intro id ch ht
    rcases hrule.touches ht with hold | ⟨rfl, c, req, -, -, -, hregister⟩
    · exact Nat.lt_of_lt_of_le (hs.made hold) hrule.nextChan_le
    · rw [(Inner.register_ok hregister).2]
      exact Nat.lt_succ_self _
  heldMade := by
    intro ch hheld
    rcases hrule.held hheld with hold | ⟨id, e, hentry, hreceiver⟩
    · exact Nat.lt_of_lt_of_le (hs.heldMade hold) hrule.nextChan_le
    · exact Nat.lt_of_lt_of_le (hs.made (Or.inl ⟨e, hentry, Or.inr hreceiver⟩))
        hrule.nextChan_le
  owner := by
    intro id id' ch ht ht'
    rcases hrule.touches ht with hold | ⟨hch, c, req, ha, hcall, hid, -⟩
    · rcases hrule.touches ht' with hold' | ⟨hch, -⟩
      · exact hs.owner hold hold'
      · exact absurd (hs.made hold) (by simp [hch])
    · rcases hrule.touches ht' with hold' | ⟨-, c', req', ha', hcall', hid', -⟩
      · exact absurd (hs.made hold') (by simp [hch])
      · cases ha.symm.trans ha'
        cases hcall.symm.trans hcall'
        exact hid.symm.trans hid'

/-! ## Sender counts -/

/-- The writing entry, if there is one, and some of the pushes in flight: this many
senders of the channel are alive. -/
inductive Holders (s : Sys) (ch : ChanId) : Nat → Prop where
  | pushes (F : Finset CallId) (hflight : ∀ c ∈ F, ∃ frame, s.InFlight c frame ch) :
      Holders s ch F.card
  | writer (F : Finset CallId) (hflight : ∀ c ∈ F, ∃ frame, s.InFlight c frame ch)
      {id : RequestId} {last : Option Nat} (hw : s.inner.Writes id ch last) :
      Holders s ch (F.card + 1)

/-- The count of a channel covers the senders that are alive. -/
def Counted (s : Sys) : Prop :=
  ∀ ch n, s.Holders ch n → n ≤ (s.inner.chans ch).senders

theorem Holders.mono {ch : ChanId} {n : Nat} (h : t.Holders ch n)
    (hwrites : ∀ id last, t.inner.Writes id ch last → ∃ last', s.inner.Writes id ch last')
    (hflight : ∀ c frame, t.InFlight c frame ch → s.InFlight c frame ch) :
    s.Holders ch n := by
  have hall : ∀ {F : Finset CallId}, (∀ c ∈ F, ∃ frame, t.InFlight c frame ch) →
      ∀ c ∈ F, ∃ frame, s.InFlight c frame ch := by
    intro F hF c hc
    obtain ⟨frame, hframe⟩ := hF c hc
    exact ⟨frame, hflight c frame hframe⟩
  cases h with
  | pushes F hF => exact .pushes F (hall hF)
  | writer F hF hw =>
      obtain ⟨last', hw'⟩ := hwrites _ _ hw
      exact .writer F (hall hF) hw'

theorem Counted.shrink (hs : Counted s)
    (hwrites : ∀ id ch last, t.inner.Writes id ch last → ∃ last', s.inner.Writes id ch last')
    (hflight : ∀ c frame ch, t.InFlight c frame ch → s.InFlight c frame ch)
    (hsenders : ∀ ch, (t.inner.chans ch).senders = (s.inner.chans ch).senders) :
    Counted t := by
  intro ch n hn
  rw [hsenders ch]
  exact hs ch n (hn.mono (fun id last => hwrites id ch last) fun c frame => hflight c frame ch)

/-- Ending a request's writing takes its sender off the count. -/
theorem Counted.silence (hs : Counted s) (hone : ∀ {id id' ch last last'},
      s.inner.Writes id ch last → s.inner.Writes id' ch last' → id = id')
    {id : RequestId} (hr : s.inner.Silences t.inner id)
    (hflight : ∀ c frame ch, t.InFlight c frame ch → s.InFlight c frame ch) : Counted t := by
  intro ch n hn
  have hold : s.Holders ch n :=
    hn.mono (fun k last hw => ⟨last, (hr.writes k ch last hw).2⟩)
      fun c frame => hflight c frame ch
  rcases hr.senders ch with hsame | ⟨⟨last, hw⟩, hle⟩
  · rw [hsame]
    exact hs ch n hold
  · cases hn with
    | pushes F hF =>
        have hmore := hs ch _ (.writer F (fun c hc => by
          obtain ⟨frame, hframe⟩ := hF c hc
          exact ⟨frame, hflight c frame ch hframe⟩) hw)
        omega
    | writer F hF hw' =>
        obtain ⟨hne, hw'⟩ := hr.writes _ ch _ hw'
        exact absurd (hone hw' hw) hne

/-- A push that returns gives its clone back. -/
theorem Counted.release (hs : Counted s) {c : CallId} {frame : Frame} {ch : ChanId}
    (hc : s.InFlight c frame ch) (result : Except RouterError Unit) :
    Counted (s.advance c (.done result) (s.inner.dropSender (some ch))) := by
  intro j n hn
  have hwrites : ∀ id last, (s.inner.dropSender (some ch)).Writes id j last →
      ∃ last', s.inner.Writes id j last' :=
    fun id last hw => ⟨last, (Inner.writes_congr (by simp)).mp hw⟩
  have hflight : ∀ {d g}, (s.advance c (.done result)
      (s.inner.dropSender (some ch))).InFlight d g j → s.InFlight d g j :=
    fun hd => inFlight_of_advance_idle (Call.idle_of_done result) hd
  obtain ⟨hle, hsame⟩ := Inner.senders_le_dropSender s.inner (some ch) j
  by_cases hj : j = ch
  · subst hj
    have hinsert : ∀ {F : Finset CallId}, (∀ d ∈ F, ∃ g, (s.advance c (.done result)
          (s.inner.dropSender (some j))).InFlight d g j) →
        c ∉ F ∧ ∀ d ∈ insert c F, ∃ g, s.InFlight d g j := by
      intro F hF
      constructor
      · intro hmem
        obtain ⟨g, hg | hg⟩ := hF c hmem
        · cases advance_calls_self.symm.trans hg
        · cases advance_calls_self.symm.trans hg
      · intro d hd
        rcases Finset.mem_insert.mp hd with rfl | hd
        · exact ⟨frame, hc⟩
        · obtain ⟨g, hg⟩ := hF d hd
          exact ⟨g, hflight hg⟩
    cases hn with
    | pushes F hF =>
        obtain ⟨hmem, hall⟩ := hinsert hF
        have hmore := hs j _ (.pushes (insert c F) hall)
        rw [Finset.card_insert_of_notMem hmem] at hmore
        rw [advance_inner]
        omega
    | writer F hF hw =>
        obtain ⟨hmem, hall⟩ := hinsert hF
        obtain ⟨last', hw'⟩ := hwrites _ _ hw
        have hmore := hs j _ (.writer (insert c F) hall hw')
        rw [Finset.card_insert_of_notMem hmem] at hmore
        rw [advance_inner]
        omega
  · rw [advance_inner, hsame (by simpa using Ne.symm hj)]
    exact hs j n (hn.mono hwrites fun d g hd => hflight hd)

/-- Registering a request makes a channel with one sender, the entry's. -/
theorem Counted.register (hs : Counted s) (howned : Owned h s) {req : RouterRequest}
    {r : Inner} (hr : s.inner.register req = (.ok (), r)) (c : CallId) :
    Counted (s.advance c (.submitting req) r) := by
  have hflight : ∀ {d frame ch}, (s.advance c (.submitting req) r).InFlight d frame ch →
      s.InFlight d frame ch :=
    fun hd => inFlight_of_advance_idle (by simp [Call.Idle]) hd
  have hchans := (Inner.register_ok hr).2
  intro ch n hn
  by_cases hch : ch = s.inner.nextChan
  · subst hch
    have hempty : ∀ {F : Finset CallId}, (∀ d ∈ F, ∃ frame, (s.advance c (.submitting req)
        r).InFlight d frame s.inner.nextChan) → F = ∅ := by
      intro F hF
      refine Finset.eq_empty_of_forall_notMem fun d hd => ?_
      obtain ⟨frame, hframe⟩ := hF d hd
      exact absurd (howned.callFresh (hflight hframe)) (Nat.lt_irrefl _)
    have hone : ((s.advance c (.submitting req) r).inner.chans s.inner.nextChan).senders = 1 := by
      rw [advance_inner, hchans]
      simp
    rw [hone]
    cases hn with
    | pushes F hF => simp [hempty hF]
    | writer F hF hw => simp [hempty hF]
  · have hsame : (s.advance c (.submitting req) r).inner.chans ch = s.inner.chans ch := by
      rw [advance_inner, hchans]
      simp [hch]
    rw [hsame]
    refine hs ch n (hn.mono ?_ fun d frame => hflight)
    intro id last hw
    rcases writes_register hr hw with ⟨-, heq⟩ | hw
    · exact absurd heq hch
    · exact ⟨last, hw⟩

/-- A push that passes phase 1 is counted by the clone it takes. -/
theorem Counted.validate (hs : Counted s) {frame : Frame} {ch : ChanId} {r : Inner}
    (hr : s.inner.validate frame = (.ok ch, r)) (c : CallId) :
    Counted (s.advance c (.sending frame ch) r) := by
  have hwrites : ∀ id j last, r.Writes id j last → ∃ last', s.inner.Writes id j last' := by
    intro id j last hw
    obtain ⟨⟨last₀, hown, -⟩, -, -⟩ := Inner.validate_writer hr
    rcases Inner.validate_writes hr hw with ⟨rfl, rfl, -⟩ | ⟨-, hw⟩
    · exact ⟨last₀, hown⟩
    · exact ⟨last, hw⟩
  have hflight : ∀ {d g j}, (s.advance c (.sending frame ch) r).InFlight d g j →
      (d = c ∧ j = ch) ∨ s.InFlight d g j := by
    rintro d g j (hd | hd)
    · rcases sending_advance.mp hd with ⟨rfl, hsame⟩ | ⟨-, hd⟩
      · cases hsame
        exact Or.inl ⟨rfl, rfl⟩
      · exact Or.inr (Or.inl hd)
    · rcases completing_advance.mp hd with ⟨-, hsame⟩ | ⟨-, hd⟩
      · cases hsame
      · exact Or.inr (Or.inr hd)
  obtain ⟨e, hlive, -, -, -, hinner⟩ := Inner.validate_ok hr
  intro j n hn
  by_cases hj : j = ch
  · subst hj
    have hcount : ((s.advance c (.sending frame j) r).inner.chans j).senders =
        (s.inner.chans j).senders + 1 := by
      rw [advance_inner, hinner]
      simp
    have herase : ∀ {F : Finset CallId}, (∀ d ∈ F, ∃ g, (s.advance c (.sending frame j)
        r).InFlight d g j) → (∀ d ∈ F.erase c, ∃ g, s.InFlight d g j) ∧
          F.card ≤ (F.erase c).card + 1 := by
      intro F hF
      refine ⟨?_, Nat.sub_le_iff_le_add.mp Finset.pred_card_le_card_erase⟩
      intro d hd
      obtain ⟨hne, hmem⟩ := Finset.mem_erase.mp hd
      obtain ⟨g, hg⟩ := hF d hmem
      rcases hflight hg with ⟨heq, -⟩ | hg
      · exact absurd heq hne
      · exact ⟨g, hg⟩
    rw [hcount]
    cases hn with
    | pushes F hF =>
        obtain ⟨hall, hle⟩ := herase hF
        have hold := hs j _ (.pushes _ hall)
        omega
    | writer F hF hw =>
        obtain ⟨hall, hle⟩ := herase hF
        obtain ⟨last', hw'⟩ := hwrites _ j _ hw
        have hold := hs j _ (.writer _ hall hw')
        omega
  · have hsame : (s.advance c (.sending frame ch) r).inner.chans j = s.inner.chans j := by
      rw [advance_inner, hinner]
      simp [hj]
    rw [hsame]
    refine hs j n (hn.mono (fun id last => hwrites id j last) fun d g hd => ?_)
    rcases hflight hd with ⟨-, heq⟩ | hd
    · exact absurd heq hj
    · exact hd

/-- Every step keeps the counts. -/
theorem Counted.step (hs : Counted s) (howned : Owned h s) (hrule : s.Rule a es t) :
    Counted t := by
  have hidle : ∀ {c : CallId} {next : Call}, next.Idle → Counted (s.advance c next s.inner) :=
    fun hnext => hs.shrink (fun _ _ last hw => ⟨last, hw⟩)
      (fun _ _ _ hd => inFlight_of_advance_idle hnext hd) fun _ => rfl
  cases hrule with
  | register _ hregister => exact hs.register howned hregister _
  | validate _ hvalidate => exact hs.validate hvalidate _
  | @subscribe c id ch r _ htake =>
      refine hs.shrink (fun _ _ last hw => ⟨last, Inner.takeReceiver_writes htake hw⟩)
        (fun _ _ _ hd => inFlight_of_advance_idle (r := r) (Call.idle_of_done _) hd) ?_
      obtain ⟨e, -, -, rfl⟩ := Inner.takeReceiver_ok htake
      exact fun _ => rfl
  | cancel _ hcancel =>
      exact hs.silence howned.oneWriter (Inner.cancelEntry_silences hcancel)
        fun _ _ _ hd => inFlight_of_advance_idle (Call.idle_of_done _) hd
  | rollback _ =>
      exact hs.silence howned.oneWriter (Inner.rollback_silences s.inner _)
        fun _ _ _ hd => inFlight_of_advance_idle (Call.idle_of_done _) hd
  | unsent hcall _ => exact hs.release (Or.inl hcall) _
  | @sentFinal c frame ch k hcall _ happends _ =>
      refine hs.shrink (fun _ _ last hw => ⟨last, hw⟩) ?_ ?_
      · rintro d g j (hd | hd)
        · rcases sending_advance.mp hd with ⟨-, hsame⟩ | ⟨-, hd⟩
          · cases hsame
          · exact Or.inl hd
        · rcases completing_advance.mp hd with ⟨rfl, hsame⟩ | ⟨-, hd⟩
          · cases hsame
            exact Or.inl hcall
          · exact Or.inr hd
      · intro j
        by_cases hj : j = ch
        · subst hj
          simpa using happends.senders
        · simp [hj]
  | @sent c frame ch k hcall _ happends _ =>
      have hqueued : Counted { s with inner := s.inner.setChan ch k } := by
        refine hs.shrink (fun _ _ last hw => ⟨last, hw⟩) (fun _ _ _ hd => hd) fun j => ?_
        by_cases hj : j = ch
        · subst hj
          simpa using happends.senders
        · simp [hj]
      exact hqueued.release (Or.inl hcall) _
  | @complete c frame ch hcall =>
      have hcompleted : Counted { s with inner := s.inner.complete frame.requestId } :=
        hs.silence howned.oneWriter (Inner.complete_silences s.inner frame.requestId)
          fun _ _ _ hd => hd
      exact hcompleted.release (Or.inr hcall) _
  | @deliver ch frame k _ htakes =>
      refine hs.shrink (fun _ _ last hw => ⟨last, hw⟩) (fun _ _ _ hd => hd) fun j => ?_
      by_cases hj : j = ch
      · subst hj
        simpa using htakes.senders
      · simp [hj]
  | ended => exact hs
  | dropReceiver _ =>
      exact hs.shrink (fun _ _ last hw => ⟨last, (Inner.writes_congr (by simp)).mp hw⟩)
        (fun _ _ _ hd => hd) (by simp)
  | shutdown => exact hs.shrink (fun _ _ last hw => ⟨last, hw⟩) (fun _ _ _ hd => hd) fun _ => rfl
  | _ => exact hidle (by simp [Call.Idle])

/-! ## Receivers -/

/-- A parked receiver is open and nobody holds it; a held one is open. -/
structure Parked (s : Sys) : Prop where
  parked : ∀ {id e ch}, s.inner.requests id = some e → e.receiver = some ch →
    (s.inner.chans ch).closed = false ∧ s.held ch = false
  heldOpen : ∀ {ch}, s.held ch = true → (s.inner.chans ch).closed = false

theorem Parked.shrink (hs : Parked s) (hhalves : s.inner.HalvesKept t.inner)
    (hheld : t.held = s.held)
    (hclosed : ∀ ch, (t.inner.chans ch).closed = (s.inner.chans ch).closed) : Parked t where
  parked := by
    intro id e ch hentry hreceiver
    obtain ⟨e₀, hentry₀, -, hhalf⟩ := hhalves id e hentry
    rw [hclosed, hheld]
    exact hs.parked hentry₀ (hhalf ch hreceiver)
  heldOpen := by
    intro ch hch
    rw [hclosed]
    rw [hheld] at hch
    exact hs.heldOpen hch

/-- Closing the parked receiver of an entry that loses it closes nobody else's. -/
theorem Parked.close (hs : Parked s) (htied : Tied s) {id : RequestId} {e : Entry}
    (hentry : s.inner.requests id = some e) {r : Inner}
    (hhalves : s.inner.HalvesKept r)
    (hgone : ∀ e', r.requests id = some e' → e'.receiver = none)
    (hclosed : ∀ ch, e.receiver ≠ some ch → (r.chans ch).closed = (s.inner.chans ch).closed)
    (hinner : t.inner = r) (hheld : t.held = s.held) : Parked t where
  parked := by
    intro k e' ch hk hreceiver
    rw [hinner] at hk ⊢
    obtain ⟨e₀, hentry₀, -, hhalf⟩ := hhalves k e' hk
    have hne : e.receiver ≠ some ch := by
      intro heq
      have hsame : k = id := htied.owner (Or.inl ⟨e₀, hentry₀, Or.inr (hhalf ch hreceiver)⟩)
        (Or.inl ⟨e, hentry, Or.inr heq⟩)
      subst hsame
      rw [hgone e' hk] at hreceiver
      cases hreceiver
    rw [hclosed ch hne, hheld]
    exact hs.parked hentry₀ (hhalf ch hreceiver)
  heldOpen := by
    intro ch hch
    rw [hheld] at hch
    rw [hinner, hclosed ch]
    · exact hs.heldOpen hch
    · intro heq
      rw [(hs.parked hentry heq).2] at hch
      cases hch

/-- The channel of a new entry is fresh: nobody holds it. -/
theorem Parked.register (hs : Parked s) (htied : Tied s) {c : CallId} {req : RouterRequest}
    {r : Inner} (hregister : s.inner.register req = (.ok (), r)) :
    Parked (s.advance c (.submitting req) r) := by
  obtain ⟨hfree, hinner⟩ := Inner.register_ok hregister
  have hunheld : ∀ {ch}, s.held ch = true → ch ≠ s.inner.nextChan := by
    rintro ch hheld rfl
    exact absurd (htied.heldMade hheld) (Nat.lt_irrefl _)
  refine ⟨?_, ?_⟩
  · intro id e ch hentry hreceiver
    rw [advance_inner, hinner] at hentry ⊢
    by_cases hid : id = req.id
    · subst hid
      simp only [Function.update_self, Option.some.injEq] at hentry
      subst hentry
      cases hreceiver
      refine ⟨by simp, ?_⟩
      rw [advance_held, Bool.eq_false_iff]
      exact fun hheld => hunheld hheld rfl
    · simp only [ne_eq, hid, not_false_eq_true, Function.update_of_ne] at hentry
      have hne : ch ≠ s.inner.nextChan := by
        rintro rfl
        exact absurd (htied.made (Or.inl ⟨e, hentry, Or.inr hreceiver⟩)) (Nat.lt_irrefl _)
      simpa [hne] using hs.parked hentry hreceiver
  · intro ch hheld
    rw [advance_held] at hheld
    rw [advance_inner, hinner]
    simpa [hunheld hheld] using hs.heldOpen hheld

/-- The receiver leaves its entry for the one who holds it. -/
theorem Parked.subscribe (hs : Parked s) (htied : Tied s) {c : CallId} {id : RequestId}
    {ch : ChanId} {r : Inner} (htake : s.inner.takeReceiver id = (.ok ch, r)) :
    Parked ((s.advance c (.done (.ok ())) r).hold ch) := by
  obtain ⟨e, hentry, hreceiver, rfl⟩ := Inner.takeReceiver_ok htake
  refine ⟨?_, ?_⟩
  · intro k e' j hk hj
    simp only [hold_inner, advance_inner] at hk ⊢
    obtain ⟨e₀, hentry₀, -, hhalf⟩ := Inner.halvesKept_takeReceiver htake k e' hk
    have hne : j ≠ ch := by
      rintro rfl
      have hsame : k = id := htied.owner (Or.inl ⟨e₀, hentry₀, Or.inr (hhalf j hj)⟩)
        (Or.inl ⟨e, hentry, Or.inr hreceiver⟩)
      subst hsame
      simp only [Inner.setEntry_requests, Function.update_self, Option.some.injEq] at hk
      subst hk
      cases hj
    simpa [hne] using hs.parked hentry₀ (hhalf j hj)
  · intro j hheld
    simp only [hold_inner, advance_inner, Inner.setEntry_chans]
    by_cases hj : j = ch
    · subst hj
      exact (hs.parked hentry hreceiver).1
    · exact hs.heldOpen (by simpa [hj] using hheld)

theorem Parked.cancel (hs : Parked s) (htied : Tied s) {c : CallId} {call : Call}
    {id : RequestId} {r : Inner} (hcancel : s.inner.cancelEntry id = (.ok (), r)) :
    Parked (s.advance c call r) := by
  have hhalves := Inner.halvesKept_cancelEntry hcancel
  obtain ⟨e, hentry, -, rfl⟩ := Inner.cancelEntry_ok hcancel
  refine hs.close htied hentry hhalves ?_ ?_ rfl rfl
  · intro e' hentry'
    simp only [Inner.dropReceiver_requests, Inner.dropSender_requests,
      Inner.setEntry_requests, Function.update_self, Option.some.injEq] at hentry'
    subst hentry'
    rfl
  · intro ch hne
    rw [Inner.dropReceiver_chans_of_ne _ _ hne]
    simp

theorem Parked.rollback (hs : Parked s) (htied : Tied s) {c : CallId} {call : Call}
    (id : RequestId) : Parked (s.advance c call (s.inner.rollback id)) := by
  cases hentry : s.inner.requests id with
  | none =>
      have hsame : s.inner.rollback id = s.inner := by
        unfold Inner.rollback
        rw [hentry]
      rw [hsame]
      exact hs.shrink (.of_eq rfl) rfl fun _ => rfl
  | some e =>
      have hform : s.inner.rollback id =
          ((s.inner.removeEntry id).dropSender e.sender).dropReceiver e.receiver := by
        unfold Inner.rollback
        rw [hentry]
      refine hs.close htied hentry (Inner.halvesKept_rollback s.inner id) ?_ ?_ rfl rfl
      · intro e' hentry'
        rw [hform] at hentry'
        simp at hentry'
      · intro ch hne
        rw [hform, Inner.dropReceiver_chans_of_ne _ _ hne]
        simp

/-- A receiver that is held is parked nowhere: to drop it closes no parked one. -/
theorem Parked.dropReceiver (hs : Parked s) {ch : ChanId} (hheld : s.held ch = true) :
    Parked { s with
      inner := s.inner.dropReceiver (some ch)
      held := Function.update s.held ch false } := by
  refine ⟨?_, ?_⟩
  · intro id e j hentry hreceiver
    rw [Inner.dropReceiver_requests] at hentry
    have hparked := hs.parked hentry hreceiver
    have hne : j ≠ ch := by
      rintro rfl
      rw [hparked.2] at hheld
      cases hheld
    rw [Inner.dropReceiver_chans_of_ne _ _ (by simpa using Ne.symm hne)]
    simpa [hne] using hparked
  · intro j hj
    have hne : j ≠ ch := by
      rintro rfl
      simp at hj
    rw [Inner.dropReceiver_chans_of_ne _ _ (by simpa using Ne.symm hne)]
    exact hs.heldOpen (by simpa [hne] using hj)

/-- A channel that is sent to or read from stays as open as it was. -/
theorem Parked.channel (hs : Parked s) {ch : ChanId} {k : Channel Frame}
    (hhalves : s.inner.HalvesKept t.inner) (hheld : t.held = s.held)
    (hclosed : k.closed = (s.inner.chans ch).closed)
    (hchans : ∀ j, (t.inner.chans j).closed =
      (Function.update s.inner.chans ch k j).closed) : Parked t := by
  refine hs.shrink hhalves hheld fun j => ?_
  rw [hchans]
  by_cases hj : j = ch
  · subst hj
    simpa using hclosed
  · simp [hj]

theorem Parked.step (hs : Parked s) (htied : Tied s) (hrule : s.Rule a es t) : Parked t := by
  cases hrule with
  | register _ hregister => exact hs.register htied hregister
  | @validate c frame ch r _ hvalidate =>
      refine hs.shrink (Inner.halvesKept_validate hvalidate) rfl ?_
      obtain ⟨e, hlive, -, -, -, rfl⟩ := Inner.validate_ok hvalidate
      intro j
      by_cases hj : j = ch
      · subst hj
        simp
      · simp [hj]
  | subscribe _ htake => exact hs.subscribe htied htake
  | cancel _ hcancel => exact hs.cancel htied hcancel
  | rollback _ => exact hs.rollback htied _
  | @complete c frame ch _ =>
      refine hs.shrink ?_ rfl ?_
      · intro id e hentry
        rw [advance_inner, Inner.dropSender_requests] at hentry
        exact Inner.halvesKept_complete s.inner frame.requestId id e hentry
      · intro j
        rw [advance_inner, Inner.dropSender_closed]
        unfold Inner.complete
        split <;> simp
  | sentFinal _ _ happends _ =>
      exact hs.channel (.of_eq rfl) rfl happends.closed fun _ => rfl
  | sent _ _ happends _ =>
      exact hs.channel (.of_eq (by simp)) rfl happends.closed (by simp)
  | deliver _ htakes => exact hs.channel (.of_eq rfl) rfl htakes.closed fun _ => rfl
  | ended => exact hs
  | dropReceiver hheld => exact hs.dropReceiver hheld
  | shutdown => exact hs.shrink (.of_eq rfl) rfl fun _ => rfl
  | _ => exact hs.shrink (.of_eq (by simp)) rfl (by simp)

end Sys

end Repercep.Router
