import Repercep.Foundation.Counting
import Repercep.Scheduling.EndMarker
set_option autoImplicit false

/-!
# Scheduler: who is woken

A caller of `next` that found nothing goes to sleep without looking again, so somebody
has to be left who will look: a caller that is awake, a permit for the next one to poll,
or a `submit` that has yet to notify.  A second `notify_one` while the permit is stored
adds nothing, and two callers past their attempts cannot both use the one permit: the
cell is meant for one consumer.
-/

namespace Repercep.Scheduling.Interleaved

open Repercep.Foundation

variable {P : Type}

namespace Phase

/-- Will look at the queues before it sleeps. -/
@[simp] def awake : Phase P → Bool
  | .next | .attempt _ | .parked true => true
  | _ => false

/-- Past its attempt, not registered yet. -/
@[simp] def polling : Phase P → Bool
  | .poll _ => true
  | _ => false

/-- Parked and not notified. -/
@[simp] def asleep : Phase P → Bool
  | .parked false => true
  | _ => false

/-- Between the push and `notify_one`. -/
@[simp] def notifying : Phase P → Bool
  | .notify _ => true
  | _ => false

/-- Inside `next`. -/
def inNext (phase : Phase P) : Bool := phase.awake || phase.polling || phase.asleep

end Phase

theorem getElem?_wake (woken : List Nat) (i : Nat) :
    ∀ calls : List (Phase P), (wake woken calls)[i]? =
      if i ∈ woken then calls[i]?.map (fun _ => .parked true) else calls[i]? := by
  induction woken with
  | nil => exact fun calls => rfl
  | cons j woken ih =>
      intro calls
      show (wake woken (calls.set j (.parked true)))[i]? = _
      rw [ih, List.getElem?_set]
      by_cases hij : j = i
      · subst hij
        by_cases hi : j < calls.length
        · simp [hi]
        · simp [hi]
      · have hji : ¬ i = j := fun h => hij h.symm
        simp [hij, hji]

theorem countP_wake (p : Phase P → Bool) :
    ∀ {woken : List Nat} {calls : List (Phase P)}, woken.Nodup →
      (∀ j ∈ woken, calls[j]? = some (.parked false)) →
        (wake woken calls).countP p + woken.length * (p (.parked false)).toNat =
          calls.countP p + woken.length * (p (.parked true)).toNat := by
  intro woken
  induction woken with
  | nil =>
      intro calls _ _
      simp [wake]
  | cons j woken ih =>
      intro calls hnodup hasleep
      obtain ⟨hfresh, hnodup⟩ := List.nodup_cons.mp hnodup
      have hone := countP_set_add (hasleep j List.mem_cons_self) (.parked true) p
      have hothers : ∀ k ∈ woken, (calls.set j (.parked true))[k]? = some (.parked false) := by
        intro k hk
        have hne : j ≠ k := fun h => hfresh (h ▸ hk)
        rw [List.getElem?_set_ne hne]
        exact hasleep k (List.mem_cons_of_mem j hk)
      have hrest := ih hnodup hothers
      show (wake woken (calls.set j (.parked true))).countP p + _ = _
      rw [List.length_cons, Nat.add_one_mul, Nat.add_one_mul]
      omega

/-! ## The registered waiters -/

/-- The registered tasks are the calls asleep, and nobody sleeps beside a permit. -/
structure Waiting (n : Notify Nat) (calls : List (Phase P)) : Prop where
  asleep : ∀ i, calls[i]? = some (.parked false) ↔ i ∈ n.waiters
  nodup : n.waiters.Nodup
  permit : n.permit = true → n.waiters = []

namespace Waiting

variable {n : Notify Nat} {calls : List (Phase P)}

theorem none_asleep (h : Waiting n calls) (hempty : n.waiters = []) :
    calls.countP Phase.asleep = 0 := by
  rw [List.countP_eq_zero]
  intro phase hmem
  obtain ⟨i, hi⟩ := List.mem_iff_getElem?.mp hmem
  have hnot : phase ≠ .parked false := by
    rintro rfl
    have hwaits := (h.asleep i).mp hi
    rw [hempty] at hwaits
    cases hwaits
  cases phase with
  | parked woken =>
      cases woken with
      | false => exact absurd rfl hnot
      | true => simp
  | _ => simp

/-- A step of a call that neither falls asleep nor is. -/
theorem goto (h : Waiting n calls) {i : Nat} {phase phase' : Phase P}
    (hphase : calls[i]? = some phase) (hne : phase ≠ .parked false)
    (hne' : phase' ≠ .parked false) : Waiting n (calls.set i phase') where
  asleep := by
    intro j
    rw [← h.asleep, List.getElem?_set]
    by_cases hij : i = j
    · subst hij
      have hi := (List.getElem?_eq_some_iff.mp hphase).1
      rw [if_pos rfl, if_pos hi, hphase]
      simp [hne, hne']
    · simp [hij]
  nodup := h.nodup
  permit := h.permit

/-- A call falls asleep. -/
theorem park (h : Waiting n calls) {i : Nat} {phase : Phase P} (hphase : calls[i]? = some phase)
    (hne : phase ≠ .parked false) (hpermit : n.permit = false) :
    Waiting { n with waiters := n.waiters ++ [i] } (calls.set i (.parked false)) where
  asleep := by
    intro j
    rw [List.mem_append, ← h.asleep, List.getElem?_set, List.mem_singleton]
    by_cases hij : i = j
    · subst hij
      have hi := (List.getElem?_eq_some_iff.mp hphase).1
      simp [hi]
    · have hji : ¬ j = i := fun heq => hij heq.symm
      simp [hij, hji]
  nodup := by
    refine List.Nodup.append h.nodup (List.nodup_singleton i) ?_
    intro j hj hji
    cases List.mem_singleton.mp hji
    rw [← h.asleep, hphase] at hj
    exact hne (Option.some.inj hj)
  permit := by
    intro hp
    exact absurd (hp.symm.trans hpermit) (by simp)

/-- The call at the head of the list is woken. -/
theorem pop (h : Waiting n calls) {j : Nat} {waiters : List Nat} (hwaiters : n.waiters = j :: waiters) :
    Waiting { n with waiters := waiters } (calls.set j (.parked true)) where
  asleep := by
    intro k
    have hnodup := h.nodup
    rw [hwaiters, List.nodup_cons] at hnodup
    have hk := h.asleep k
    rw [hwaiters, List.mem_cons] at hk
    rw [List.getElem?_set]
    by_cases hjk : j = k
    · subst hjk
      simp [hnodup.1]
    · have hkj : ¬ k = j := fun heq => hjk heq.symm
      simpa [hjk, hkj] using hk
  nodup := by
    have hnodup := h.nodup
    rw [hwaiters] at hnodup
    exact hnodup.of_cons
  permit := by
    intro hp
    rw [h.permit hp] at hwaiters
    cases hwaiters

theorem wakeAll (h : Waiting n calls) : Waiting n.notifyWaiters.2 (wake n.notifyWaiters.1 calls) where
  asleep := by
    intro i
    rw [getElem?_wake]
    by_cases hi : i ∈ n.waiters
    · have hasleep := (h.asleep i).mpr hi
      simp [Notify.notifyWaiters, hi, hasleep]
    · have hawake := mt (h.asleep i).mp hi
      simpa [Notify.notifyWaiters, hi] using hawake
  nodup := List.nodup_nil
  permit := fun _ => rfl

end Waiting

theorem Rule.waiting {s t : Sys P} {label : Label P} {es : List (Event P)}
    (h : Rule s label es t) (hs : Waiting s.notify s.calls) : Waiting t.notify t.calls := by
  cases h with
  | @arrive label phase hentry =>
      have hne : phase ≠ .parked false := by
        rintro rfl
        cases label <;> cases hentry
      refine ⟨fun i => ?_, hs.nodup, hs.permit⟩
      show (s.calls ++ [phase])[i]? = some (.parked false) ↔ i ∈ s.notify.waiters
      rw [← hs.asleep, List.getElem?_append]
      split
      · rfl
      · rename_i hi
        have hout : s.calls[i]? = none := List.getElem?_eq_none (Nat.le_of_not_lt hi)
        simp only [hout, List.getElem?_singleton]
        split <;> simp [hne]
  | move hphase hmoves =>
      refine hs.goto hphase ?_ ?_
      · rintro rfl
        cases hmoves
      · rintro rfl
        cases hmoves
  | accept hphase hroom => exact hs.goto hphase (by rintro ⟨⟩) (by rintro ⟨⟩)
  | mark hphase hknown => exact hs.goto hphase (by rintro ⟨⟩) (by rintro ⟨⟩)
  | take hphase hpop => exact hs.goto hphase (by rintro ⟨⟩) (by rintro ⟨⟩)
  | drained hphase hpop hdown => exact hs.goto hphase (by rintro ⟨⟩) (by rintro ⟨⟩)
  | nothing hphase hpop hrunning => exact hs.goto hphase (by rintro ⟨⟩) (by rintro ⟨⟩)
  | @permit i g hphase hpermit =>
      have hgoto : Waiting s.notify (s.calls.set i .next) :=
        hs.goto hphase (by rintro ⟨⟩) (by rintro ⟨⟩)
      exact ⟨hgoto.asleep, hgoto.nodup, fun hp => absurd hp Bool.false_ne_true⟩
  | park hphase hpermit => exact hs.park hphase (by rintro ⟨⟩) hpermit
  | @handOver i req j waiters hphase hwaiters =>
      have hasleep : s.calls[j]? = some (.parked false) :=
        (hs.asleep j).mpr (hwaiters ▸ List.mem_cons_self)
      have hne : j ≠ i := by
        rintro rfl
        cases hphase.symm.trans hasleep
      exact (hs.pop hwaiters).goto ((List.getElem?_set_ne hne).trans hphase)
        (by rintro ⟨⟩) (by rintro ⟨⟩)
  | @storePermit i req hphase hwaiters =>
      have hgoto : Waiting s.notify (s.calls.set i (.submitted (.ok ()))) :=
        hs.goto hphase (by rintro ⟨⟩) (by rintro ⟨⟩)
      exact ⟨hgoto.asleep, hgoto.nodup, fun _ => hwaiters⟩
  | storeFlag hphase => exact hs.goto hphase (by rintro ⟨⟩) (by rintro ⟨⟩)
  | @notifyWaiters i hphase =>
      have hawake : i ∉ s.notify.waiters := by
        intro hi
        cases hphase.symm.trans ((hs.asleep i).mpr hi)
      have hsame : (wake s.notify.waiters s.calls)[i]? = s.calls[i]? := by
        rw [getElem?_wake, if_neg hawake]
      exact hs.wakeAll.goto (hsame.trans hphase) (by rintro ⟨⟩) (by rintro ⟨⟩)

/-! ## Enough callers awake -/

/-- If more callers go to sleep unseen than there are permits, then for every queued
item a caller is awake, a `submit` has yet to notify, or a permit is stored. -/
def Enough (queued permit : Nat) (calls : List (Phase P)) : Prop :=
  permit < calls.countP Phase.polling + calls.countP Phase.asleep →
    queued ≤ calls.countP Phase.awake + calls.countP Phase.notifying + permit

/-- A `notify_one` that finds the permit stored is lost; that is harmless while at most
one caller is past its attempt. -/
def Sys.NoLostPermit (s : Sys P) : Label P → Prop
  | .advance i =>
      s.calls[i]?.any Phase.notifying = true → s.notify.permit = true →
        s.calls.countP Phase.polling ≤ 1
  | .submit _ | .cancel _ | .next | .shutdown => True

instance (s : Sys P) : ∀ label, Decidable (s.NoLostPermit label)
  | .advance i =>
      inferInstanceAs (Decidable (s.calls[i]?.any Phase.notifying = true →
        s.notify.permit = true → s.calls.countP Phase.polling ≤ 1))
  | .submit _ | .cancel _ | .next | .shutdown => isTrue trivial

/-- The four counts after one call has moved. -/
theorem counts_set {calls : List (Phase P)} {i : Nat} {phase : Phase P}
    (hphase : calls[i]? = some phase) (phase' : Phase P) :
    (calls.set i phase').countP Phase.awake + phase.awake.toNat =
        calls.countP Phase.awake + phase'.awake.toNat ∧
      (calls.set i phase').countP Phase.polling + phase.polling.toNat =
        calls.countP Phase.polling + phase'.polling.toNat ∧
      (calls.set i phase').countP Phase.asleep + phase.asleep.toNat =
        calls.countP Phase.asleep + phase'.asleep.toNat ∧
      (calls.set i phase').countP Phase.notifying + phase.notifying.toNat =
        calls.countP Phase.notifying + phase'.notifying.toNat :=
  ⟨countP_set_add hphase _ _, countP_set_add hphase _ _, countP_set_add hphase _ _,
    countP_set_add hphase _ _⟩

theorem Enough.empty (permit : Nat) (calls : List (Phase P)) : Enough 0 permit calls :=
  fun _ => Nat.zero_le _

/-- A call that keeps its weights. -/
theorem Enough.goto {queued permit : Nat} {calls : List (Phase P)}
    (h : Enough queued permit calls) {i : Nat} {phase phase' : Phase P}
    (hphase : calls[i]? = some phase)
    (hweight : phase.awake.toNat + phase.notifying.toNat ≤
      phase'.awake.toNat + phase'.notifying.toNat)
    (hsleep : phase'.polling.toNat + phase'.asleep.toNat ≤
      phase.polling.toNat + phase.asleep.toNat) :
    Enough queued permit (calls.set i phase') := by
  intro hshort
  obtain ⟨hawake, hpolling, hasleep, hnotifying⟩ := counts_set hphase phase'
  have hqueued := h (by omega)
  omega

/-- Everybody asleep wakes up. -/
theorem Enough.wakeAll {queued permit : Nat} {n : Notify Nat} {calls : List (Phase P)}
    (h : Enough queued permit calls) (hwaiting : Waiting n calls) :
    Enough queued permit (wake n.waiters calls) := by
  have hcount := fun p => countP_wake p hwaiting.nodup fun j hj => (hwaiting.asleep j).mpr hj
  have hawake := hcount Phase.awake
  have hpolling := hcount Phase.polling
  have hasleep := hcount Phase.asleep
  have hnotifying := hcount Phase.notifying
  simp only [Phase.awake, Phase.polling, Phase.asleep, Phase.notifying, Bool.toNat_false,
    Bool.toNat_true] at hawake hpolling hasleep hnotifying
  intro hshort
  have hqueued := h (by omega)
  omega

theorem Rule.enough {s t : Sys P} {label : Label P} {es : List (Event P)} (h : Rule s label es t)
    (hwaiting : Waiting s.notify s.calls) (hlost : s.NoLostPermit label)
    (hs : Enough s.scheduler.buckets.items.card s.notify.permit.toNat s.calls) :
    Enough t.scheduler.buckets.items.card t.notify.permit.toNat t.calls := by
  cases h with
  | @arrive label phase hentry =>
      have hone : ∀ p : Phase P → Bool,
          (s.calls ++ [phase]).countP p = s.calls.countP p + (p phase).toNat :=
        countP_append_singleton s.calls phase
      have hquiet : phase.polling = false ∧ phase.asleep = false := by
        cases label <;> cases hentry <;> exact ⟨rfl, rfl⟩
      show Enough _ _ (s.calls ++ [phase])
      intro hshort
      rw [hone, hone, hquiet.1, hquiet.2] at hshort
      rw [hone, hone]
      have hqueued := hs hshort
      simp only [Sys.arrive]
      omega
  | move hphase hmoves =>
      cases hmoves with
      | _ => exact hs.goto hphase (by simp) (by simp)
  | @accept i req hphase hroom =>
      intro hshort
      have hcard : (s.scheduler.buckets.push req).items.card = s.scheduler.buckets.items.card + 1 := by
        rw [Buckets.items_push, Multiset.card_add, Multiset.card_singleton]
      obtain ⟨hawake, hpolling, hasleep, hnotifying⟩ := counts_set hphase (.notify req)
      simp only [Sys.goto, Sys.setBuckets, hcard, Phase.awake, Phase.polling, Phase.asleep,
        Phase.notifying, Bool.toNat_false, Bool.toNat_true] at *
      have hqueued := hs (by omega)
      omega
  | mark hphase hknown => exact hs.goto hphase (by simp) (by simp)
  | @take i g item b hphase hpop =>
      intro hshort
      obtain ⟨⟨skipped, htakes⟩, -⟩ := Buckets.popNext_takes hpop
      have hcard := congrArg Multiset.card htakes.items
      simp only [Multiset.card_add, Multiset.coe_card, Option.toList_some, List.length_singleton]
        at hcard
      obtain ⟨hawake, hpolling, hasleep, hnotifying⟩ := counts_set hphase (.returned (some item))
      simp only [Sys.goto, Sys.setBuckets, Phase.awake, Phase.polling, Phase.asleep,
        Phase.notifying, Bool.toNat_false, Bool.toNat_true] at *
      have hqueued := hs (by omega)
      omega
  | drained hphase hpop hdown =>
      intro _
      simp [Sys.goto, Sys.setBuckets, (Buckets.popNext_takes hpop).2 rfl]
  | nothing hphase hpop hrunning =>
      intro _
      simp [Sys.goto, Sys.setBuckets, (Buckets.popNext_takes hpop).2 rfl]
  | @permit i g hphase hpermit =>
      -- the permit is gone, and the caller that took it is awake
      intro hshort
      have hnone := hwaiting.none_asleep (hwaiting.permit hpermit)
      obtain ⟨hawake, hpolling, hasleep, hnotifying⟩ := counts_set hphase .next
      simp only [Sys.goto, Phase.awake, Phase.polling, Phase.asleep, Phase.notifying,
        Bool.toNat_false, Bool.toNat_true, hpermit, Enough] at *
      have hqueued := hs (by omega)
      omega
  | park hphase hpermit => exact hs.goto hphase (by simp) (by simp)
  | @handOver i req j waiters hphase hwaiters =>
      have hasleep : s.calls[j]? = some (.parked false) :=
        (hwaiting.asleep j).mpr (hwaiters ▸ List.mem_cons_self)
      have hne : j ≠ i := by
        rintro rfl
        cases hphase.symm.trans hasleep
      have hphase' : (s.calls.set j (.parked true))[i]? = some (.notify req) :=
        (List.getElem?_set_ne hne).trans hphase
      intro hshort
      obtain ⟨hawake₁, hpolling₁, hasleep₁, hnotifying₁⟩ := counts_set hasleep (.parked true)
      obtain ⟨hawake₂, hpolling₂, hasleep₂, hnotifying₂⟩ :=
        counts_set hphase' (.submitted (.ok ()))
      simp only [Sys.goto, Phase.awake, Phase.polling, Phase.asleep, Phase.notifying,
        Bool.toNat_false, Bool.toNat_true, Enough] at *
      have hqueued := hs (by omega)
      omega
  | @storePermit i req hphase hwaiters =>
      intro hshort
      have hnone := hwaiting.none_asleep hwaiters
      have hone : s.notify.permit = true → s.calls.countP Phase.polling ≤ 1 :=
        hlost (by rw [hphase]; rfl)
      obtain ⟨hawake, hpolling, hasleep, hnotifying⟩ := counts_set hphase (.submitted (.ok ()))
      simp only [Sys.goto, Phase.awake, Phase.polling, Phase.asleep, Phase.notifying,
        Bool.toNat_false, Bool.toNat_true, Enough] at *
      cases hpermit : s.notify.permit with
      | true =>
          -- lost, but nobody else is about to sleep
          have := hone hpermit
          omega
      | false =>
          rw [hpermit, Bool.toNat_false] at hs
          have hqueued := hs (by omega)
          omega
  | storeFlag hphase => exact hs.goto hphase (by simp) (by simp)
  | @notifyWaiters i hphase =>
      have hawake : i ∉ s.notify.waiters := by
        intro hi
        cases hphase.symm.trans ((hwaiting.asleep i).mpr hi)
      have hsame : (wake s.notify.waiters s.calls)[i]? = s.calls[i]? := by
        rw [getElem?_wake, if_neg hawake]
      exact (hs.wakeAll hwaiting).goto (hsame.trans hphase) (by simp) (by simp)

/-! ## After the shutdown -/

/-- No `Notified` is of a later generation than the current one, and once a `shutdown`
has notified, nobody is registered and whoever polls holds one of an earlier generation. -/
structure Alerted (down : Bool) (n : Notify Nat) (calls : List (Phase P)) : Prop where
  attempts : ∀ g, Phase.attempt g ∈ calls → g ≤ n.generation
  polls : ∀ g, Phase.poll g ∈ calls → g ≤ n.generation
  flag : Phase.notifyWaiters ∈ calls ∨ Phase.stopped ∈ calls → down = true
  stale : Phase.stopped ∈ calls →
    n.waiters = [] ∧ ∀ g, Phase.poll g ∈ calls → g < n.generation

/-- Neither holds a `Notified` nor is past the store of the flag. -/
def Phase.plain : Phase P → Bool
  | .attempt _ | .poll _ | .notifyWaiters | .stopped => false
  | _ => true

namespace Alerted

variable {down : Bool} {n : Notify Nat} {calls calls' : List (Phase P)}

/-- Nothing new but plain phases. -/
theorem mono (h : Alerted down n calls)
    (hmem : ∀ phase ∈ calls', phase ∈ calls ∨ phase.plain = true) : Alerted down n calls' := by
  have hold : ∀ phase : Phase P, phase.plain = false → phase ∈ calls' → phase ∈ calls := by
    intro phase hplain hphase
    exact (hmem phase hphase).resolve_right (by simp [hplain])
  exact
    { attempts := fun g hg => h.attempts g (hold _ rfl hg)
      polls := fun g hg => h.polls g (hold _ rfl hg)
      flag := fun hflag => h.flag (hflag.imp (hold _ rfl) (hold _ rfl))
      stale := fun hstopped => by
        obtain ⟨hwaiters, hpolls⟩ := h.stale (hold _ rfl hstopped)
        exact ⟨hwaiters, fun g hg => hpolls g (hold _ rfl hg)⟩ }

theorem goto (h : Alerted down n calls) {i : Nat} {phase : Phase P} (hplain : phase.plain = true) :
    Alerted down n (calls.set i phase) := by
  refine h.mono fun phase' hmem => ?_
  rcases List.mem_or_eq_of_mem_set hmem with hmem | rfl
  · exact Or.inl hmem
  · exact Or.inr hplain

/-- The waiters and the permit may change as long as nobody is registered after a
shutdown. -/
theorem notify (h : Alerted down n calls) {n' : Notify Nat} (hgeneration : n'.generation = n.generation)
    (hwaiters : Phase.stopped ∈ calls → n'.waiters = []) : Alerted down n' calls where
  attempts := by
    rw [hgeneration]
    exact h.attempts
  polls := by
    rw [hgeneration]
    exact h.polls
  flag := h.flag
  stale := by
    rw [hgeneration]
    exact fun hstopped => ⟨hwaiters hstopped, (h.stale hstopped).2⟩

theorem wakeOne (h : Alerted down n calls) (j : Nat) :
    Alerted down n (calls.set j (.parked true)) :=
  h.goto rfl

/-- A caller creates its `Notified`. -/
theorem create (h : Alerted down n calls) (i : Nat) :
    Alerted down n (calls.set i (.attempt n.generation)) := by
  have hold : ∀ phase : Phase P, phase ≠ .attempt n.generation →
      phase ∈ calls.set i (.attempt n.generation) → phase ∈ calls := by
    intro phase hne hmem
    exact (List.mem_or_eq_of_mem_set hmem).resolve_right hne
  refine ⟨?_, fun g hg => h.polls g (hold _ (by simp) hg),
    fun hflag => h.flag (hflag.imp (hold _ (by simp)) (hold _ (by simp))), fun hstopped => ?_⟩
  · intro g hg
    rcases List.mem_or_eq_of_mem_set hg with hg | hg
    · exact h.attempts g hg
    · cases hg
      exact le_refl _
  · obtain ⟨hwaiters, hpolls⟩ := h.stale (hold _ (by simp) hstopped)
    exact ⟨hwaiters, fun g hg => hpolls g (hold _ (by simp) hg)⟩

/-- An attempt that finds the flag not set goes on to poll. -/
theorem nothing (h : Alerted down n calls) {i g : Nat} (hphase : calls[i]? = some (.attempt g))
    (hrunning : down = false) : Alerted down n (calls.set i (.poll g)) := by
  have hold : ∀ phase : Phase P, phase ≠ .poll g → phase ∈ calls.set i (.poll g) → phase ∈ calls := by
    intro phase hne hmem
    exact (List.mem_or_eq_of_mem_set hmem).resolve_right hne
  refine ⟨fun g' hg => h.attempts g' (hold _ (by simp) hg), ?_,
    fun hflag => h.flag (hflag.imp (hold _ (by simp)) (hold _ (by simp))), fun hstopped => ?_⟩
  · intro g' hg
    rcases List.mem_or_eq_of_mem_set hg with hg | hg
    · exact h.polls g' hg
    · cases hg
      exact h.attempts g (List.mem_of_getElem? hphase)
  · exact absurd ((h.flag (Or.inr (hold _ (by simp) hstopped))).symm.trans hrunning) (by simp)

/-- The flag is stored. -/
theorem storeFlag (h : Alerted down n calls) (i : Nat) :
    Alerted true n (calls.set i .notifyWaiters) := by
  have hold : ∀ phase : Phase P, phase ≠ .notifyWaiters →
      phase ∈ calls.set i .notifyWaiters → phase ∈ calls := by
    intro phase hne hmem
    exact (List.mem_or_eq_of_mem_set hmem).resolve_right hne
  refine ⟨fun g hg => h.attempts g (hold _ (by simp) hg), fun g hg => h.polls g (hold _ (by simp) hg),
    fun _ => rfl, fun hstopped => ?_⟩
  obtain ⟨hwaiters, hpolls⟩ := h.stale (hold _ (by simp) hstopped)
  exact ⟨hwaiters, fun g hg => hpolls g (hold _ (by simp) hg)⟩

/-- `notify_waiters` makes every `Notified` one of an earlier generation. -/
theorem wakeAll (h : Alerted down n calls) {i : Nat} (hphase : calls[i]? = some .notifyWaiters) :
    Alerted down n.notifyWaiters.2 ((wake n.notifyWaiters.1 calls).set i .stopped) := by
  have hold : ∀ phase : Phase P, phase ≠ .stopped → phase ≠ .parked true →
      phase ∈ (wake n.notifyWaiters.1 calls).set i .stopped → phase ∈ calls := by
    intro phase hne hwoken hmem
    exact mem_of_mem_wake hwoken ((List.mem_or_eq_of_mem_set hmem).resolve_right hne)
  have hlater : n.notifyWaiters.2.generation = n.generation + 1 := rfl
  refine ⟨fun g hg => ?_, fun g hg => ?_, fun _ => h.flag (Or.inl (List.mem_of_getElem? hphase)),
    fun _ => ⟨rfl, fun g hg => ?_⟩⟩
  · have := h.attempts g (hold _ (by simp) (by simp) hg)
    omega
  · have := h.polls g (hold _ (by simp) (by simp) hg)
    omega
  · have := h.polls g (hold _ (by simp) (by simp) hg)
    omega

end Alerted

theorem Rule.alerted {s t : Sys P} {label : Label P} {es : List (Event P)} (h : Rule s label es t)
    (hs : Alerted s.scheduler.shuttingDown s.notify s.calls) :
    Alerted t.scheduler.shuttingDown t.notify t.calls := by
  cases h with
  | @arrive label phase hentry =>
      refine hs.mono fun phase' hmem => ?_
      rcases List.mem_append.mp hmem with hmem | hmem
      · exact Or.inl hmem
      · cases List.mem_singleton.mp hmem
        exact Or.inr (by cases label <;> cases hentry <;> rfl)
  | move hphase hmoves =>
      cases hmoves with
      | create => exact hs.create _
      | _ => exact hs.goto rfl
  | accept hphase hroom => exact hs.goto rfl
  | mark hphase hknown => exact hs.goto rfl
  | take hphase hpop => exact hs.goto rfl
  | drained hphase hpop hdown => exact hs.goto rfl
  | nothing hphase hpop hrunning => exact hs.nothing hphase hrunning
  | permit hphase hpermit =>
      have hnotify : Alerted s.scheduler.shuttingDown { s.notify with permit := false } s.calls :=
        hs.notify rfl fun hstopped => (hs.stale hstopped).1
      exact hnotify.goto rfl
  | @park i hphase hpermit =>
      -- after a shutdown the `Notified` would be of an earlier generation
      have hopen : Phase.stopped ∉ s.calls := fun hstopped =>
        lt_irrefl _ ((hs.stale hstopped).2 _ (List.mem_of_getElem? hphase))
      have hnotify : Alerted s.scheduler.shuttingDown
          { s.notify with waiters := s.notify.waiters ++ [i] } s.calls :=
        hs.notify rfl fun hstopped => absurd hstopped hopen
      exact hnotify.goto rfl
  | @handOver i req j waiters hphase hwaiters =>
      have hopen : Phase.stopped ∉ s.calls := fun hstopped =>
        absurd ((hs.stale hstopped).1.symm.trans hwaiters) (by simp)
      have hnotify : Alerted s.scheduler.shuttingDown { s.notify with waiters := waiters } s.calls :=
        hs.notify rfl fun hstopped => absurd hstopped hopen
      have hwoken := hnotify.wakeOne j
      exact hwoken.goto rfl
  | storePermit hphase hwaiters =>
      have hnotify : Alerted s.scheduler.shuttingDown { s.notify with permit := true } s.calls :=
        hs.notify rfl fun _ => hwaiters
      exact hnotify.goto rfl
  | storeFlag hphase => exact hs.storeFlag _
  | notifyWaiters hphase => exact hs.wakeAll hphase

/-! ## No wakeup is lost -/

/-- Some caller of `next` waits, all of them are asleep, and no permit is stored. -/
structure Sys.Stuck (s : Sys P) : Prop where
  permit : s.notify.permit = false
  waits : ∃ phase ∈ s.calls, phase.inNext = true
  asleep : ∀ phase ∈ s.calls, phase.inNext = true → phase.asleep = true

theorem machine_init_waiting (P : Type) (capacity : Nat) :
    Waiting (machine P capacity).init.notify (machine P capacity).init.calls where
  asleep := by
    intro i
    constructor
    · intro hi
      cases hi
    · intro hi
      cases hi
  nodup := List.nodup_nil
  permit := fun _ => rfl

theorem waiting_run {capacity : Nat} {as : List (Label P)} {es : List (Event P)} {s : Sys P}
    (hrun : (machine P capacity).run (machine P capacity).init as = some (es, s)) :
    Waiting s.notify s.calls :=
  Machine.invariant_run (I := fun s => Waiting s.notify s.calls)
    (fun _ _ _ _ hs hstep => (step_rule hstep).waiting hs) (machine_init_waiting P capacity) hrun

theorem alerted_run {capacity : Nat} {as : List (Label P)} {es : List (Event P)} {s : Sys P}
    (hrun : (machine P capacity).run (machine P capacity).init as = some (es, s)) :
    Alerted s.scheduler.shuttingDown s.notify s.calls := by
  refine Machine.invariant_run (I := fun s => Alerted s.scheduler.shuttingDown s.notify s.calls)
    (fun _ _ _ _ hs hstep => (step_rule hstep).alerted hs) ?_ hrun
  have hnone : ∀ phase, phase ∉ (machine P capacity).init.calls := fun _ => List.not_mem_nil
  exact ⟨fun _ hg => absurd hg (hnone _), fun _ hg => absurd hg (hnone _),
    fun hflag => absurd hflag (not_or.mpr ⟨hnone _, hnone _⟩),
    fun hstopped => absurd hstopped (hnone _)⟩

theorem enough_run {capacity : Nat} {as : List (Label P)} {es : List (Event P)} {s : Sys P}
    (hpermits : (machine P capacity).Meets Sys.NoLostPermit (machine P capacity).init as)
    (hrun : (machine P capacity).run (machine P capacity).init as = some (es, s)) :
    Enough s.scheduler.buckets.items.card s.notify.permit.toNat s.calls := by
  have hboth := Machine.history_reachable (C := Sys.NoLostPermit)
    (H := fun _ s => Waiting s.notify s.calls ∧
      Enough s.scheduler.buckets.items.card s.notify.permit.toNat s.calls)
    ⟨machine_init_waiting P capacity, Enough.empty _ _⟩
    (fun _ s a es t hs hC hstep =>
      ⟨(step_rule hstep).waiting hs.1, (step_rule hstep).enough hs.1 hC hs.2⟩) hpermits hrun
  exact hboth.2

/-- Nobody is asleep once a `shutdown` has notified.  While no `submit` is about to
notify, and no permit was lost before two callers past their attempts, nobody is asleep
for good beside a live request. -/
theorem no_lost_wakeup {capacity : Nat} {as : List (Label P)} {es : List (Event P)} {s : Sys P}
    (hrun : (machine P capacity).run (machine P capacity).init as = some (es, s)) :
    (Phase.stopped ∈ s.calls → ¬ s.Stuck) ∧
      ((machine P capacity).Meets Sys.NoLostPermit (machine P capacity).init as →
        (∀ phase ∈ s.calls, phase.notifying = false) → s.Stuck → ∀ req, ¬ s.Live req) := by
  have hwaiting := waiting_run hrun
  constructor
  · rintro hstopped hstuck
    obtain ⟨hnone, -⟩ := (alerted_run hrun).stale hstopped
    obtain ⟨phase, hmem, hnext⟩ := hstuck.waits
    have hzero := hwaiting.none_asleep hnone
    exact absurd (hstuck.asleep phase hmem hnext) (List.countP_eq_zero.mp hzero phase hmem)
  · rintro hpermits hquiet hstuck req ⟨hreq, -⟩
    obtain ⟨phase, hmem, hnext⟩ := hstuck.waits
    have hasleep : 0 < s.calls.countP Phase.asleep :=
      List.countP_pos_iff.mpr ⟨phase, hmem, hstuck.asleep phase hmem hnext⟩
    have hawake : s.calls.countP Phase.awake = 0 := by
      rw [List.countP_eq_zero]
      intro phase hmem hawake
      have hasleep := hstuck.asleep phase hmem (by rw [Phase.inNext, hawake]; rfl)
      cases phase with
      | parked woken => cases woken <;> simp at hawake hasleep
      | _ => simp at hawake hasleep
    have hnotifying : s.calls.countP Phase.notifying = 0 := by
      rw [List.countP_eq_zero]
      intro phase hmem
      rw [hquiet phase hmem]
      exact Bool.false_ne_true
    have hqueued := enough_run hpermits hrun
    rw [Enough, hstuck.permit, hawake, hnotifying] at hqueued
    have hempty : s.scheduler.buckets.items.card ≤ 0 :=
      hqueued (hasleep.trans_le (Nat.le_add_left _ _))
    have hpos : 0 < s.scheduler.buckets.items.card :=
      Multiset.card_pos_iff_exists_mem.mpr ⟨req, hreq⟩
    exact absurd hempty (Nat.not_le.mpr hpos)

/-- A consumer that goes to sleep on an empty scheduler. -/
def consumerSleeps : List (Label Nat) := [.next, .advance 0, .advance 0, .advance 0]

/-- The shutdown that wakes it. -/
def shutdownWakes : List (Label Nat) := consumerSleeps ++ [.shutdown, .advance 1, .advance 1]

/-- A submission whose `notify_one` wakes the sleeper, which takes the request and sleeps
again. -/
def submitWakes : List (Label Nat) :=
  consumerSleeps ++ [.submit ⟨⟨"a"⟩, .normal, 0, 1⟩, .advance 1, .advance 1, .advance 1,
    .advance 0, .advance 0, .advance 0, .next, .advance 2, .advance 2, .advance 2]

theorem submitWakes_sleeps : ∃ es s, (machine Nat 2).run (machine Nat 2).init submitWakes =
      some (es, s) ∧ s.notify.permit = false ∧
    s.calls = [.returned (some ⟨⟨"a"⟩, .normal, 0, 1⟩), .submitted (.ok ()), .parked false] :=
  ⟨_, _, rfl, rfl, rfl⟩

/-- No consumer sleeps beside a request, and none sleeps after a shutdown. -/
theorem submitWakes_no_lost_wakeup :
    (∃ es s, (machine Nat 2).run (machine Nat 2).init submitWakes = some (es, s) ∧
      .returned (some ⟨⟨"a"⟩, .normal, 0, 1⟩) ∈ s.calls ∧ s.Stuck ∧ ∀ req, ¬ s.Live req) ∧
    ∃ es s, (machine Nat 2).run (machine Nat 2).init shutdownWakes = some (es, s) ∧
      Phase.stopped ∈ s.calls ∧ ¬ s.Stuck := by
  have hpermits : (machine Nat 2).Meets Sys.NoLostPermit (machine Nat 2).init submitWakes := by
    decide
  obtain ⟨es, s, hrun, hpermit, hcalls⟩ := submitWakes_sleeps
  have hstuck : s.Stuck := by
    refine ⟨hpermit, ?_, ?_⟩
    · rw [hcalls]
      exact ⟨.parked false, by simp, rfl⟩
    · rw [hcalls]
      simp [Phase.inNext, Phase.asleep, Phase.awake]
  have hquiet : ∀ phase ∈ s.calls, phase.notifying = false := by
    rw [hcalls]
    simp [Phase.notifying]
  have htaken : .returned (some ⟨⟨"a"⟩, .normal, 0, 1⟩) ∈ s.calls := by
    rw [hcalls]
    exact List.mem_cons_self
  have hwakes : (machine Nat 2).run (machine Nat 2).init shutdownWakes =
      some ([], ⟨(Scheduler.new Nat 2).shutdown, ⟨false, [], 1⟩, [.parked true, .stopped]⟩) := rfl
  have hstopped : Phase.stopped ∈ [(Phase.parked true : Phase Nat), .stopped] :=
    List.mem_cons_of_mem _ List.mem_cons_self
  exact ⟨⟨es, s, hrun, htaken, hstuck, (no_lost_wakeup hrun).2 hpermits hquiet hstuck⟩,
    ⟨_, _, hwakes, hstopped, (no_lost_wakeup hwakes).1 hstopped⟩⟩

/-- Two consumers past their attempts, two submissions, and one permit for both. -/
def twoConsumers : List (Label Nat) :=
  [.next, .next, .advance 0, .advance 1, .advance 0, .advance 1,
    .submit ⟨⟨"a"⟩, .normal, 0, 1⟩, .advance 2, .advance 2, .advance 2,
    .submit ⟨⟨"b"⟩, .normal, 1, 2⟩, .advance 3, .advance 3, .advance 3,
    .advance 0, .advance 0, .advance 0, .advance 1]

/-- A `submit` between its push and its `notify_one`. -/
def pushedNotNotified : List (Label Nat) :=
  consumerSleeps ++ [.submit ⟨⟨"a"⟩, .normal, 0, 1⟩, .advance 1, .advance 1]

/-- Of two consumers one leaves with the first request, and the other sleeps beside the
second; a lone consumer sleeps beside a request until `notify_one` is called. -/
theorem consumers_stuck :
    (∃ es s, (machine Nat 2).run (machine Nat 2).init twoConsumers = some (es, s) ∧ s.Stuck ∧
      (∀ phase ∈ s.calls, phase.notifying = false) ∧ s.Live ⟨⟨"b"⟩, .normal, 1, 2⟩) ∧
    ∃ es s, (machine Nat 2).run (machine Nat 2).init pushedNotNotified = some (es, s) ∧ s.Stuck ∧
      s.Live ⟨⟨"a"⟩, .normal, 0, 1⟩ := by
  constructor
  · obtain ⟨es, s, hrun⟩ : ∃ es s,
        (machine Nat 2).run (machine Nat 2).init twoConsumers = some (es, s) := ⟨_, _, rfl⟩
    have hcalls : s.calls = [.returned (some ⟨⟨"a"⟩, .normal, 0, 1⟩), .parked false,
        .submitted (.ok ()), .submitted (.ok ())] := by
      cases hrun
      rfl
    have hpermit : s.notify.permit = false := by
      cases hrun
      rfl
    have hlive : s.Live ⟨⟨"b"⟩, .normal, 1, 2⟩ := by
      cases hrun
      exact ⟨List.mem_cons_self, Finset.notMem_empty _⟩
    refine ⟨es, s, hrun, ⟨hpermit, ?_, ?_⟩, ?_, hlive⟩ <;> rw [hcalls]
    · exact ⟨.parked false, by simp, rfl⟩
    · simp [Phase.inNext]
    · simp
  · obtain ⟨es, s, hrun⟩ : ∃ es s,
        (machine Nat 2).run (machine Nat 2).init pushedNotNotified = some (es, s) := ⟨_, _, rfl⟩
    have hcalls : s.calls = [.parked false, .notify ⟨⟨"a"⟩, .normal, 0, 1⟩] := by
      cases hrun
      rfl
    have hpermit : s.notify.permit = false := by
      cases hrun
      rfl
    have hlive : s.Live ⟨⟨"a"⟩, .normal, 0, 1⟩ := by
      cases hrun
      exact ⟨List.mem_cons_self, Finset.notMem_empty _⟩
    refine ⟨es, s, hrun, ⟨hpermit, ?_, ?_⟩, hlive⟩ <;> rw [hcalls]
    · exact ⟨.parked false, by simp, rfl⟩
    · simp [Phase.inNext]

end Repercep.Scheduling.Interleaved
