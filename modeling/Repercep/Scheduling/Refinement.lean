import Repercep.Scheduling.Reference
set_option autoImplicit false

/-!
# Scheduler: the buckets refine the reference queue

The skip-set is keyed by id, so it stands for the right items only while no id is
queued twice.  An id is queued twice exactly when it is submitted again between its
cancel and the moment its cancelled item is popped.  In every run without such a
submission, the scheduler and the reference queue cannot be told apart.
-/

namespace Repercep.Scheduling

open Repercep.Foundation

variable {P : Type}

namespace Buckets

/-- The buckets stand for a list of live requests. -/
structure Represents (b : Buckets P) (live : Reference P) : Prop where
  /-- the live items of each queue are the live requests of its priority -/
  queues : ∀ p, liveItems ScheduledRequest.id b.toTombstones (b.queue p) =
    live.filter (fun x => x.priority = p)
  /-- no id is queued twice -/
  nodup : ∀ p, ((b.queue p).map ScheduledRequest.id).Nodup
  apart : ∀ {p p'}, p ≠ p' → ∀ x ∈ b.queue p, ∀ y ∈ b.queue p', x.id ≠ y.id
  /-- an id is known exactly while it occupies a slot -/
  slots : ∀ id, id ∈ b.known ↔ ∃ p, ∃ x ∈ b.queue p, x.id = id

theorem Represents.empty : (Buckets.empty P).Represents [] where
  queues p := by cases p <;> rfl
  nodup p := by cases p <;> exact List.nodup_nil
  apart := by
    intro p p' _ x hx
    cases p <;> cases hx
  slots id := by
    constructor
    · intro h
      cases h
    · rintro ⟨p, x, hx, -⟩
      cases p <;> cases hx

/-- A queued request without a tombstone is live, and the other way round. -/
theorem Represents.mem_live {b : Buckets P} {live : Reference P} (h : b.Represents live)
    {x : ScheduledRequest P} :
    x ∈ live ↔ x ∈ b.queue x.priority ∧ x.id ∉ b.cancelled := by
  have hmem : x ∈ live ↔ x ∈ live.filter (fun y => y.priority = x.priority) := by simp
  rw [hmem, ← h.queues]
  simp [liveItems]

/-- A request queued under priority `p` without a tombstone has that priority. -/
theorem Represents.live_of_queued {b : Buckets P} {live : Reference P}
    (h : b.Represents live) {p : Priority} {x : ScheduledRequest P} (hx : x ∈ b.queue p)
    (hlive : x.id ∉ b.cancelled) : x ∈ live := by
  have hmem : x ∈ liveItems ScheduledRequest.id b.toTombstones (b.queue p) := by
    simp [liveItems, hx, hlive]
  rw [h.queues] at hmem
  exact List.mem_of_mem_filter hmem

/-- `len` counts the live requests. -/
theorem Represents.len_eq {b : Buckets P} {live : Reference P} (h : b.Represents live) :
    b.len = live.length := by
  have hnodup : ((b.high ++ b.normal ++ b.low).map ScheduledRequest.id).Nodup := by
    have hdisjoint : ∀ p p', p ≠ p' →
        List.Disjoint ((b.queue p).map ScheduledRequest.id)
          ((b.queue p').map ScheduledRequest.id) := by
      intro p p' hne id hid hid'
      obtain ⟨x, hx, rfl⟩ := List.mem_map.mp hid
      obtain ⟨y, hy, heq⟩ := List.mem_map.mp hid'
      exact h.apart hne x hx y hy heq.symm
    rw [List.map_append, List.map_append]
    refine List.Nodup.append (List.Nodup.append (h.nodup .high) (h.nodup .normal) ?_)
      (h.nodup .low) ?_
    · exact hdisjoint .high .normal (by decide)
    · rw [List.disjoint_append_left]
      exact ⟨hdisjoint .high .low (by decide),
        hdisjoint .normal .low (by decide)⟩
  have hslots : ∀ id ∈ b.cancelled, ∃ x ∈ b.high ++ b.normal ++ b.low, x.id = id := by
    intro id hid
    obtain ⟨p, x, hx, rfl⟩ := (h.slots id).mp (b.cancelledKnown hid)
    refine ⟨x, ?_, rfl⟩
    cases p with
    | high => exact List.mem_append_left _ (List.mem_append_left _ hx)
    | normal => exact List.mem_append_left _ (List.mem_append_right _ hx)
    | low => exact List.mem_append_right _ hx
  have hhigh := h.queues .high
  have hnormal := h.queues .normal
  have hlow := h.queues .low
  simp only [queue] at hhigh hnormal hlow
  have hcount := length_liveItems hnodup hslots
  rw [liveItems_append, liveItems_append, hhigh, hnormal, hlow] at hcount
  simp only [List.length_append] at hcount
  rw [len, hcount]
  exact length_filter_priority live

/-- An accepted submission of an id without a slot. -/
theorem Represents.push {b : Buckets P} {live : Reference P} (h : b.Represents live)
    {req : ScheduledRequest P} (hfree : req.id ∉ b.known) :
    (b.push req).Represents (live ++ [req]) := by
  have hnoslot : ∀ p, ∀ x ∈ b.queue p, x.id ≠ req.id := by
    intro p x hx heq
    exact hfree ((h.slots req.id).mpr ⟨p, x, hx, heq⟩)
  have hlive : req.id ∉ b.cancelled := fun hc => hfree (b.cancelledKnown hc)
  have hself : (b.push req).queue req.priority = b.queue req.priority ++ [req] := by
    simp [Buckets.push]
  have hother : ∀ {p}, p ≠ req.priority → (b.push req).queue p = b.queue p :=
    fun hne => queue_setQueue_of_ne b hne _ _
  have hmarks : (b.push req).toTombstones = b.toTombstones.learn req.id := by
    simp [Buckets.push]
  refine
    { queues := ?_
      nodup := ?_
      apart := ?_
      slots := ?_ }
  · intro p
    rw [hmarks, liveItems_congr (t := b.toTombstones) (by simp)]
    by_cases hp : p = req.priority
    · subst hp
      rw [hself, liveItems_append, h.queues]
      simp [liveItems, hlive]
    · have hp' : req.priority ≠ p := fun heq => hp heq.symm
      rw [hother hp, h.queues]
      simp [hp']
  · intro p
    by_cases hp : p = req.priority
    · subst hp
      rw [hself, List.map_append]
      refine List.Nodup.append (h.nodup _) (List.nodup_singleton _) ?_
      intro id hid hreq
      obtain ⟨x, hx, rfl⟩ := List.mem_map.mp hid
      exact hnoslot _ x hx (by simpa using hreq)
    · rw [hother hp]
      exact h.nodup p
  · intro p p' hne x hx y hy
    by_cases hp : p = req.priority
    · subst hp
      rw [hother (Ne.symm hne)] at hy
      rw [hself, List.mem_append, List.mem_singleton] at hx
      rcases hx with hx | rfl
      · exact h.apart hne x hx y hy
      · exact Ne.symm (hnoslot p' y hy)
    · rw [hother hp] at hx
      by_cases hp' : p' = req.priority
      · subst hp'
        rw [hself, List.mem_append, List.mem_singleton] at hy
        rcases hy with hy | rfl
        · exact h.apart hne x hx y hy
        · exact hnoslot p x hx
      · rw [hother hp'] at hy
        exact h.apart hne x hx y hy
  · intro id
    rw [hmarks, Tombstones.mem_known_learn, h.slots]
    constructor
    · rintro (rfl | ⟨p, x, hx, rfl⟩)
      · exact ⟨req.priority, req, by simp [hself], rfl⟩
      · refine ⟨p, x, ?_, rfl⟩
        by_cases hp : p = req.priority
        · subst hp
          rw [hself]
          exact List.mem_append_left _ hx
        · rwa [hother hp]
    · rintro ⟨p, x, hx, rfl⟩
      by_cases hp : p = req.priority
      · subst hp
        rw [hself, List.mem_append, List.mem_singleton] at hx
        rcases hx with hx | rfl
        · exact Or.inr ⟨_, x, hx, rfl⟩
        · exact Or.inl rfl
      · rw [hother hp] at hx
        exact Or.inr ⟨p, x, hx, rfl⟩

/-- A cancel deletes the live request of its id, if there is one. -/
theorem Represents.mark {b : Buckets P} {live : Reference P} (h : b.Represents live)
    {id : RequestId} (hknown : id ∈ b.known) :
    (b.mark id hknown).Represents (live.cancel id) where
  queues p := by
    have hboth : ∀ x : ScheduledRequest P,
        decide (x.id ∉ (b.mark id hknown).cancelled) =
          (decide (x.id ∉ b.cancelled) && decide (x.id ≠ id)) := by
      intro x
      simp [Buckets.mark, Bool.and_comm]
    have hlive := h.queues p
    simp only [liveItems] at hlive
    calc liveItems ScheduledRequest.id (b.mark id hknown).toTombstones (b.queue p)
        = (b.queue p).filter
            (fun x => decide (x.id ∉ b.cancelled) && decide (x.id ≠ id)) :=
          List.filter_congr fun x _ => hboth x
      _ = ((b.queue p).filter (fun x => x.id ∉ b.cancelled)).filter
            (fun x => x.id ≠ id) := by
          rw [List.filter_filter]
          exact List.filter_congr fun x _ => Bool.and_comm _ _
      _ = (live.filter (fun x => x.priority = p)).filter (fun x => x.id ≠ id) := by
          rw [hlive]
      _ = (live.cancel id).filter (fun x => x.priority = p) := by
          rw [Reference.cancel, List.filter_filter, List.filter_filter]
          exact List.filter_congr fun x _ => Bool.and_comm _ _
  nodup := h.nodup
  apart := h.apart
  slots := h.slots

theorem Represents.cancel_unknown {b : Buckets P} {live : Reference P}
    (h : b.Represents live) {id : RequestId} (hunknown : id ∉ b.known) :
    live.cancel id = live := by
  rw [Reference.cancel, List.filter_eq_self]
  intro x hx
  have hqueued := (h.mem_live.mp hx).1
  have hne : x.id ≠ id := by
    rintro rfl
    exact hunknown ((h.slots x.id).mpr ⟨x.priority, x, hqueued, rfl⟩)
  simpa using hne

/-- Draining one queue up to its first live item takes the earliest live request
of that priority, if there is one. -/
theorem Represents.popQueue {b : Buckets P} {live : Reference P} (h : b.Represents live)
    (p : Priority) :
    (b.popQueue p).1 = live.find? (fun x => x.priority = p) ∧
      (b.popQueue p).2.Represents (live.eraseP (fun x => x.priority = p)) := by
  obtain ⟨skipped, hpop⟩ :=
    popLive_popped ScheduledRequest.id (b.queue p) b.toTombstones (h.nodup p)
  unfold Buckets.popQueue
  generalize popLive ScheduledRequest.id b.toTombstones (b.queue p) = popped at hpop ⊢
  obtain ⟨out, rest, t'⟩ := popped
  simp only at hpop ⊢
  have hlive := hpop.liveItems_eq (h.nodup p)
  rw [h.queues] at hlive
  have htaken : ∀ x ∈ skipped ++ out.toList, x ∈ b.queue p := by
    intro x hx
    rw [hpop.split]
    exact List.mem_append_left _ hx
  have hkept : ∀ x ∈ rest, x ∈ b.queue p := by
    intro x hx
    rw [hpop.split]
    exact List.mem_append_right _ hx
  have hself : (b.setQueue p rest t').queue p = rest := queue_setQueue_self b p rest t'
  have hother : ∀ {p'}, p' ≠ p → (b.setQueue p rest t').queue p' = b.queue p' :=
    fun hne => queue_setQueue_of_ne b hne rest t'
  refine ⟨?_, ?_⟩
  · rw [← List.head?_filter, hlive]
    cases out with
    | none => simp [hpop.drained rfl, liveItems]
    | some x => rfl
  · refine
      { queues := ?_
        nodup := ?_
        apart := ?_
        slots := ?_ }
    · intro p'
      rw [toTombstones_setQueue]
      by_cases hp : p' = p
      · subst hp
        rw [hself, filter_eraseP_self, hlive]
        cases out with
        | none => simp [hpop.drained rfl, liveItems]
        | some x => rfl
      · have hsame : ∀ x ∈ b.queue p',
            x.id ∈ t'.cancelled ↔ x.id ∈ b.cancelled := by
          intro x hx
          rw [hpop.cancelled]
          refine ⟨fun hc => hc.1, fun hc => ⟨hc, ?_⟩⟩
          intro y hy
          exact h.apart (Ne.symm hp) y (htaken y (List.mem_append_left _ hy)) x hx
        rw [hother hp, liveItems_congr hsame, h.queues, filter_eraseP_of_disjoint]
        intro x hx
        have hx' : x.priority = p := by simpa using hx
        simpa [hx'] using Ne.symm hp
    · intro p'
      by_cases hp : p' = p
      · subst hp
        rw [hself]
        exact hpop.keys_rest (h.nodup p')
      · rw [hother hp]
        exact h.nodup p'
    · have hsub : ∀ q, ∀ x ∈ (b.setQueue p rest t').queue q, x ∈ b.queue q := by
        intro q x hx
        by_cases hq : q = p
        · subst hq
          rw [hself] at hx
          exact hkept x hx
        · rwa [hother hq] at hx
      intro q q' hne x hx y hy
      exact h.apart hne x (hsub q x hx) y (hsub q' y hy)
    · intro id
      rw [toTombstones_setQueue, hpop.known, h.slots]
      constructor
      · rintro ⟨⟨q, x, hx, rfl⟩, hnot⟩
        refine ⟨q, x, ?_, rfl⟩
        by_cases hq : q = p
        · subst hq
          rw [hself]
          rw [hpop.split, List.mem_append] at hx
          exact hx.resolve_left fun htook => hnot x htook rfl
        · rwa [hother hq]
      · rintro ⟨q, x, hx, rfl⟩
        by_cases hq : q = p
        · subst hq
          rw [hself] at hx
          refine ⟨⟨q, x, hkept x hx, rfl⟩, ?_⟩
          intro y hy heq
          have hnodup := h.nodup q
          rw [hpop.split, List.map_append] at hnodup
          have hleft : y.id ∈ (skipped ++ out.toList).map ScheduledRequest.id :=
            List.mem_map_of_mem hy
          have hright : y.id ∈ rest.map ScheduledRequest.id :=
            heq ▸ List.mem_map_of_mem hx
          exact (List.disjoint_of_nodup_append hnodup) hleft hright
        · rw [hother hq] at hx
          exact ⟨⟨q, x, hx, rfl⟩, fun y hy =>
            h.apart (Ne.symm hq) y (htaken y hy) x hx⟩

/-- Draining queue after queue takes what the reference takes. -/
theorem Represents.popNextFrom (ps : List Priority) :
    ∀ {b : Buckets P} {live : Reference P}, b.Represents live →
      (b.popNextFrom ps).1 = (live.nextFrom ps).1 ∧
        (b.popNextFrom ps).2.Represents (live.nextFrom ps).2 := by
  induction ps with
  | nil =>
      intro b live h
      exact ⟨rfl, h⟩
  | cons p ps ih =>
      intro b live h
      obtain ⟨hitem, hrest⟩ := h.popQueue p
      unfold Buckets.popNextFrom Reference.nextFrom
      rw [← hitem]
      rcases hpop : b.popQueue p with ⟨_ | item, b'⟩
      · rw [hpop] at hitem hrest
        have hnone : ∀ x ∈ live, ¬ (x.priority = p) := by
          simpa using hitem.symm
        rw [List.eraseP_of_forall_not (by simpa using hnone)] at hrest
        exact ih hrest
      · rw [hpop] at hrest
        exact ⟨rfl, hrest⟩

end Buckets

/-! ## The simulation -/

/-- An open scheduler whose buckets stand for a list of live requests. -/
structure Scheduler.Refines (capacity : Nat) (s : Scheduler P) (live : Reference P) :
    Prop where
  capacity_eq : s.capacity = capacity
  running : s.shuttingDown = false
  buckets : s.buckets.Represents live

/-- A submission that will be accepted is not for an id whose cancelled item still
has its slot. -/
def Scheduler.SlotReleased (s : Scheduler P) : Action P → Prop
  | .submit req => s.buckets.len < s.capacity → req.id ∉ s.buckets.cancelled
  | .cancel _ | .next | .len => True

instance (s : Scheduler P) : ∀ a, Decidable (s.SlotReleased a)
  | .submit req =>
      inferInstanceAs (Decidable (s.buckets.len < s.capacity → req.id ∉ s.buckets.cancelled))
  | .cancel _ | .next | .len => isTrue trivial

/-- An id that is neither live nor cancelled occupies no slot. -/
theorem Buckets.Represents.unknown {b : Buckets P} {live : Reference P}
    (h : b.Represents live) {id : RequestId} (hfresh : ∀ x ∈ live, x.id ≠ id)
    (hclear : id ∉ b.cancelled) : id ∉ b.known := by
  intro hknown
  obtain ⟨p, x, hx, rfl⟩ := (h.slots id).mp hknown
  exact hfresh x (h.live_of_queued hx hclear) rfl

theorem Scheduler.Refines.submit {capacity : Nat} {s : Scheduler P} {live : Reference P}
    (h : Refines capacity s live) {req : ScheduledRequest P}
    (hclear : s.SlotReleased (.submit req)) (hfresh : live.Fresh (.submit req)) :
    (live.submit capacity req).1 = (s.submit req).1 ∧
      Refines capacity (s.submit req).2 (live.submit capacity req).2 := by
  obtain ⟨rfl, hrunning, hbuckets⟩ := h
  have hlen := hbuckets.len_eq
  unfold Scheduler.submit Reference.submit
  rw [hrunning, if_neg Bool.false_ne_true, hlen]
  by_cases hfull : s.capacity ≤ live.length
  · rw [if_pos hfull, if_pos hfull]
    exact ⟨rfl, rfl, hrunning, hbuckets⟩
  · rw [if_neg hfull, if_neg hfull]
    have hunknown := hbuckets.unknown hfresh (hclear (by omega))
    exact ⟨rfl, rfl, rfl, hbuckets.push hunknown⟩

theorem Scheduler.Refines.cancel {capacity : Nat} {s : Scheduler P} {live : Reference P}
    (h : Refines capacity s live) (id : RequestId) :
    Refines capacity (s.cancel id).2 (live.cancel id) := by
  obtain ⟨hcapacity, hrunning, hbuckets⟩ := h
  unfold Scheduler.cancel
  rw [hrunning, if_neg Bool.false_ne_true]
  by_cases hknown : id ∈ s.buckets.known
  · rw [dif_pos hknown]
    exact ⟨hcapacity, rfl, hbuckets.mark hknown⟩
  · rw [dif_neg hknown, hbuckets.cancel_unknown hknown]
    exact ⟨hcapacity, hrunning, hbuckets⟩

theorem Scheduler.Refines.poll {capacity : Nat} {s : Scheduler P} {live : Reference P}
    (h : Refines capacity s live) :
    live.next.1 = s.poll.1 ∧ Refines capacity s.poll.2 live.next.2 := by
  obtain ⟨hcapacity, hrunning, hbuckets⟩ := h
  obtain ⟨hitem, hrest⟩ := hbuckets.popNextFrom [.high, .normal, .low]
  unfold Scheduler.poll Reference.next Buckets.popNext
  rcases hpop : s.buckets.popNextFrom [.high, .normal, .low] with ⟨out, b'⟩
  rcases hnext : live.nextFrom [.high, .normal, .low] with ⟨out', live'⟩
  rw [hpop, hnext] at hitem hrest
  have hsame : out = out' := hitem
  subst hsame
  cases out with
  | none => exact ⟨by simp [hrunning], hcapacity, hrunning, hrest⟩
  | some item => exact ⟨rfl, hcapacity, hrunning, hrest⟩

/-- The buckets simulate the reference queue as long as no id with a tombstone is
submitted again. -/
theorem machine_simulates (P : Type) (capacity : Nat) :
    (machine P capacity).Simulates (reference P capacity) Scheduler.SlotReleased
      Reference.Fresh (Scheduler.Refines capacity) := by
  intro s live a es s' hrefines hclear hstep
  obtain ⟨rfl, rfl⟩ := Prod.mk.inj (Option.some.inj hstep)
  refine ⟨_, _, rfl, ?_⟩
  intro hfresh
  cases a with
  | submit req =>
      obtain ⟨houtcome, hnext⟩ := hrefines.submit hclear hfresh
      exact ⟨congrArg (fun o => [Event.submitted o]) houtcome, hnext⟩
  | cancel id => exact ⟨rfl, hrefines.cancel id⟩
  | next =>
      obtain ⟨houtcome, hnext⟩ := hrefines.poll
      exact ⟨congrArg (fun o => [Event.polled o]) houtcome, hnext⟩
  | len =>
      have hlen : live.length = s.len := hrefines.buckets.len_eq.symm
      exact ⟨congrArg (fun n => [Event.length n]) hlen, hrefines⟩

theorem Scheduler.Refines.init (P : Type) (capacity : Nat) :
    Refines capacity (machine P capacity).init (reference P capacity).init :=
  ⟨rfl, rfl, Buckets.Represents.empty⟩

/-! ## Whole runs -/

/-- The scheduler and the reference queue answer a sequence of calls alike, and end
with the same number of live requests. -/
def Agrees (capacity : Nat) (as : List (Action P)) : Prop :=
  ∃ es s live, (machine P capacity).run (machine P capacity).init as = some (es, s) ∧
    (reference P capacity).run (reference P capacity).init as = some (es, live) ∧
    s.len = live.length

/-- No id is submitted while it is live. -/
def FreshSubmissions (capacity : Nat) (as : List (Action P)) : Prop :=
  (reference P capacity).Meets Reference.Fresh (reference P capacity).init as

/-- No accepted submission is for an id whose cancelled item still has its slot. -/
def SlotsReleased (capacity : Nat) (as : List (Action P)) : Prop :=
  (machine P capacity).Meets Scheduler.SlotReleased (machine P capacity).init as

theorem run_total (capacity : Nat) (as : List (Action P)) (s : Scheduler P) :
    ∃ es s', (machine P capacity).run s as = some (es, s') := by
  induction as generalizing s with
  | nil => exact ⟨[], s, rfl⟩
  | cons a as ih =>
      obtain ⟨es, s', hrun⟩ := ih (s.step a).2
      exact ⟨_, s', Machine.run_cons_eq_some.mpr ⟨_, _, es, rfl, hrun, rfl⟩⟩

/-- Sequences of calls without a pending resubmission are answered alike. -/
theorem agrees_of_slotsReleased {capacity : Nat} {as : List (Action P)}
    (hfresh : FreshSubmissions capacity as) (hreleased : SlotsReleased capacity as) :
    Agrees capacity as := by
  obtain ⟨es, s, hrun⟩ := run_total capacity as (machine P capacity).init
  obtain ⟨live, href, hrefines⟩ := (machine_simulates P capacity).run as _ _ es s
    (Scheduler.Refines.init P capacity) hreleased hfresh hrun
  exact ⟨es, s, live, hrun, href, hrefines.buckets.len_eq⟩

/-- A call other than `submit`. -/
def Action.isSubmit : Action P → Bool
  | .submit _ => true
  | .cancel _ | .next | .len => false

/-- At every point of the sequence the two answer alike, and go on doing so under
any further cancels and reads from there. -/
def AgreesThroughout (capacity : Nat) (as : List (Action P)) : Prop :=
  ∀ as₁ as₂ bs, as = as₁ ++ as₂ → (∀ b ∈ bs, b.isSubmit = false) →
    Agrees capacity (as₁ ++ bs)

theorem Scheduler.step_shuttingDown (s : Scheduler P) (a : Action P) :
    (s.step a).2.shuttingDown = s.shuttingDown := by
  cases a with
  | submit req =>
      simp only [step, submit]
      split
      · rfl
      · split <;> rfl
  | cancel id =>
      simp only [step, cancel]
      split
      · rfl
      · split <;> rfl
  | next =>
      simp only [step, poll]
      split <;> rfl
  | len => rfl

/-- No sequence of these calls shuts the scheduler down. -/
theorem running_of_run {capacity : Nat} {as : List (Action P)} {es : List (Event P)}
    {s : Scheduler P}
    (hrun : (machine P capacity).run (machine P capacity).init as = some (es, s)) :
    s.shuttingDown = false := by
  refine Machine.invariant_run (I := fun s => s.shuttingDown = false) ?_ rfl hrun
  intro s a es t hs hstep
  have hstate : (s.step a).2 = t := congrArg Prod.snd (Option.some.inj hstep)
  rw [← hstate, s.step_shuttingDown a, hs]

theorem reference_run_total (capacity : Nat) (as : List (Action P)) (live : Reference P) :
    ∃ es live', (reference P capacity).run live as = some (es, live') := by
  induction as generalizing live with
  | nil => exact ⟨[], live, rfl⟩
  | cons a as ih =>
      obtain ⟨es, live', hrun⟩ := ih (live.step capacity a).2
      exact ⟨_, live', Machine.run_cons_eq_some.mpr ⟨_, _, es, rfl, hrun, rfl⟩⟩

/-- Cancelling an id whose tombstone is already there does not change the count. -/
theorem Scheduler.len_cancel_of_buried {s : Scheduler P} {id : RequestId}
    (hrunning : s.shuttingDown = false) (hburied : id ∈ s.buckets.cancelled) :
    (s.cancel id).2.len = s.len := by
  have hknown := s.buckets.cancelledKnown hburied
  have hsame : (s.buckets.toTombstones.bury id hknown).cancelled = s.buckets.cancelled :=
    Finset.insert_eq_of_mem hburied
  unfold Scheduler.cancel
  rw [hrunning, if_neg Bool.false_ne_true, dif_pos hknown]
  simp only [Scheduler.len, Buckets.len, Buckets.mark, hsame]

/-- Once an id has been submitted while its tombstone is pending, cancelling it
again leaves the scheduler with one live request too many. -/
theorem not_agrees_of_pending {capacity : Nat} {as : List (Action P)}
    {req : ScheduledRequest P} {es : List (Event P)} {s : Scheduler P}
    (hrun : (machine P capacity).run (machine P capacity).init as = some (es, s))
    (hpending : ¬ s.SlotReleased (.submit req))
    (hsubmitted : Agrees capacity (as ++ [.submit req])) :
    ¬ Agrees capacity (as ++ [.submit req] ++ [.cancel req.id]) := by
  obtain ⟨hroom, hburied⟩ : s.buckets.len < s.capacity ∧ req.id ∈ s.buckets.cancelled := by
    simpa [Scheduler.SlotReleased] using hpending
  have hrunning := running_of_run hrun
  have haccepted : s.submit req = (.ok (), { s with buckets := s.buckets.push req }) := by
    have hnotFull : ¬ s.capacity ≤ s.buckets.len := by omega
    simp [Scheduler.submit, hrunning, hnotFull]
  obtain ⟨gs, live, href⟩ := reference_run_total capacity as (reference P capacity).init
  have hrun₁ := Machine.run_snoc (a := Action.submit req) hrun rfl
  have href₁ := Machine.run_snoc (a := Action.submit req) href rfl
  have hrun₂ := Machine.run_snoc (a := Action.cancel req.id) hrun₁ rfl
  have href₂ := Machine.run_snoc (a := Action.cancel req.id) href₁ rfl
  -- the reference queue accepts the submission too
  obtain ⟨es₁, s₁, live₁, hrun₁', href₁', hlen₁⟩ := hsubmitted
  obtain ⟨rfl, rfl⟩ := Prod.mk.inj (Option.some.inj (hrun₁.symm.trans hrun₁'))
  obtain ⟨hevents, rfl⟩ := Prod.mk.inj (Option.some.inj (href₁.symm.trans href₁'))
  have hmem : req ∈ (live.submit capacity req).2 := by
    have houtcome : [Event.submitted (live.submit capacity req).1] =
        [Event.submitted (s.submit req).1] := (List.append_inj' hevents rfl).2
    rw [haccepted] at houtcome
    unfold Reference.submit at houtcome ⊢
    split
    · rename_i hfull
      rw [if_pos hfull] at houtcome
      cases houtcome
    · simp
  -- the cancel shortens the reference queue, and not the scheduler
  rintro ⟨es₂, s₂, live₂, hrun₂', href₂', hlen₂⟩
  obtain ⟨-, rfl⟩ := Prod.mk.inj (Option.some.inj (hrun₂.symm.trans hrun₂'))
  obtain ⟨-, rfl⟩ := Prod.mk.inj (Option.some.inj (href₂.symm.trans href₂'))
  have hshorter : ((live.submit capacity req).2.cancel req.id).length <
      (live.submit capacity req).2.length := by
    refine List.length_filter_lt_length_iff_exists.mpr ⟨req, hmem, ?_⟩
    simp
  have hunchanged : ((s.submit req).2.cancel req.id).2.len = (s.submit req).2.len := by
    rw [haccepted]
    exact Scheduler.len_cancel_of_buried hrunning (by simpa [Buckets.push] using hburied)
  exact absurd (hlen₁.symm.trans (hunchanged.symm.trans hlen₂)) (Nat.ne_of_gt hshorter)

/-- Over every sequence of calls that submits no live id, the scheduler keeps
answering like the reference queue, at every point and under any further cancels
and reads from there, exactly when no accepted submission is for an id whose
cancelled item still has its slot. -/
theorem agreesThroughout_iff {capacity : Nat} {as : List (Action P)}
    (hfresh : FreshSubmissions capacity as) :
    AgreesThroughout capacity as ↔ SlotsReleased capacity as := by
  constructor
  · intro hagrees
    unfold SlotsReleased Machine.Meets
    rw [Machine.along_iff_split]
    intro as₁ a as₂ es₁ s es₂ s' has hpre _
    cases a with
    | submit req =>
        by_contra hpending
        have hsubmitted : Agrees capacity (as₁ ++ [.submit req]) := by
          have h := hagrees (as₁ ++ [.submit req]) as₂ [] (by simp [has]) (by simp)
          rwa [List.append_nil] at h
        exact not_agrees_of_pending hpre hpending hsubmitted
          (hagrees (as₁ ++ [.submit req]) as₂ [.cancel req.id] (by simp [has])
            (by simp [Action.isSubmit]))
    | cancel id => trivial
    | next => trivial
    | len => trivial
  · rintro hreleased as₁ as₂ bs rfl hbs
    obtain ⟨es, s, hrun⟩ := run_total capacity as₁ (machine P capacity).init
    obtain ⟨fs, live, href⟩ := reference_run_total capacity as₁ (reference P capacity).init
    have hquiet : ∀ (t : Scheduler P) (b : Action P), b.isSubmit = false → t.SlotReleased b := by
      intro t b hb
      cases b with
      | submit req => cases hb
      | cancel id => trivial
      | next => trivial
      | len => trivial
    have hquiet' : ∀ (t : Reference P) (b : Action P), b.isSubmit = false → t.Fresh b := by
      intro t b hb
      cases b with
      | submit req => cases hb
      | cancel id => trivial
      | next => trivial
      | len => trivial
    apply agrees_of_slotsReleased
    · exact (Machine.along_append href).mpr
        ⟨((Machine.along_append href).mp hfresh).1, Machine.meets_of_forall fun b hb v => hquiet' v b (hbs b hb)⟩
    · exact (Machine.along_append hrun).mpr
        ⟨((Machine.along_append hrun).mp hreleased).1, Machine.meets_of_forall fun b hb v => hquiet v b (hbs b hb)⟩

/-- An id cancelled, its slot released by the next read, and submitted again. -/
def resubmitAfterRelease : List (Action Nat) :=
  [.submit ⟨⟨"x"⟩, .normal, 0, 1⟩, .cancel ⟨"x"⟩, .submit ⟨⟨"y"⟩, .normal, 1, 2⟩, .next,
    .submit ⟨⟨"x"⟩, .normal, 2, 3⟩, .next]

theorem resubmitAfterRelease_agreesThroughout :
    AgreesThroughout 4 resubmitAfterRelease := by
  have hfresh : FreshSubmissions 4 resubmitAfterRelease := by
    unfold FreshSubmissions
    decide
  have hreleased : SlotsReleased 4 resubmitAfterRelease := by
    unfold SlotsReleased
    decide
  exact (agreesThroughout_iff hfresh).mpr hreleased

/-- An id cancelled and submitted again at a higher priority. -/
def resubmitWhilePending : List (Action Nat) :=
  [.submit ⟨⟨"a"⟩, .low, 0, 1⟩, .cancel ⟨"a"⟩, .submit ⟨⟨"a"⟩, .high, 1, 2⟩, .next]

/-- There the live request is skipped and the cancelled one delivered. -/
theorem resubmitWhilePending_not_agrees :
    FreshSubmissions 4 resubmitWhilePending ∧ ¬ Agrees 4 resubmitWhilePending := by
  refine ⟨?_, ?_⟩
  · unfold FreshSubmissions
    decide
  · rintro ⟨es, s, live, hrun, href, -⟩
    have hrun' : ∃ t, (machine Nat 4).run (machine Nat 4).init resubmitWhilePending =
        some ([.submitted (.ok ()), .submitted (.ok ()),
          .polled (.item ⟨⟨"a"⟩, .low, 0, 1⟩)], t) := ⟨_, rfl⟩
    have href' : (reference Nat 4).run (reference Nat 4).init resubmitWhilePending =
        some ([.submitted (.ok ()), .submitted (.ok ()),
          .polled (.item ⟨⟨"a"⟩, .high, 1, 2⟩)], []) := rfl
    obtain ⟨t, ht⟩ := hrun'
    cases hrun.symm.trans ht
    cases href.symm.trans href'

end Repercep.Scheduling
