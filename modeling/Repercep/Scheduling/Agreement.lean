import Repercep.Scheduling.Fallback
import Repercep.Scheduling.Refinement
import Mathlib.Data.List.Find
set_option autoImplicit false

/-!
# Scheduler: the two implementations agree

The buckets with their skip-set and the Python queues stand for the same list of live
requests.  While no id is accepted twice, every call is answered alike, but for the
cancel of an id whose cancelled item has not been popped.
-/

namespace Repercep.Scheduling

open Repercep.Foundation

variable {P : Type}

/-- With distinct keys, the search for a member's key finds the member. -/
theorem find?_key {α κ : Type} [DecidableEq κ] {key : α → κ} {l : List α}
    (hnodup : (l.map key).Nodup) {x : α} (hx : x ∈ l) :
    l.find? (fun y => key y = key x) = some x := by
  cases hfind : l.find? fun y => key y = key x with
  | none => simpa using List.find?_eq_none.mp hfind x hx
  | some y =>
      have hy : key y = key x := by simpa using List.find?_some hfind
      exact congrArg some (List.inj_on_of_nodup_map hnodup (List.mem_of_find?_eq_some hfind) hx hy)

/-- With distinct keys, erasing the first match of a predicate is deleting its key. -/
theorem eraseP_eq_filter_key {α κ : Type} [DecidableEq κ] {key : α → κ} {q : α → Bool}
    {l : List α} (hnodup : (l.map key).Nodup) {x : α} (hfind : l.find? q = some x) :
    l.eraseP q = l.filter (fun y => key y ≠ key x) := by
  induction l with
  | nil => rfl
  | cons y l ih =>
      rw [List.map_cons, List.nodup_cons] at hnodup
      obtain ⟨hfresh, hnodup⟩ := hnodup
      by_cases hy : q y = true
      · rw [List.find?_cons_of_pos hy, Option.some.injEq] at hfind
        subst hfind
        have hrest : l.filter (fun z => key z ≠ key y) = l := by
          rw [List.filter_eq_self]
          intro z hz
          have hne : key z ≠ key y := fun heq => hfresh (heq ▸ List.mem_map_of_mem hz)
          simpa using hne
        rw [List.eraseP_cons_of_pos hy, List.filter_cons_of_neg (by simp), hrest]
      · rw [List.find?_cons_of_neg hy] at hfind
        have hne : key y ≠ key x := by
          intro heq
          exact hfresh (heq ▸ List.mem_map_of_mem (List.mem_of_find?_eq_some hfind))
        rw [List.eraseP_cons_of_neg hy, List.filter_cons_of_pos (by simpa using hne),
          ih hnodup hfind]

/-! ## The Python queues hold the live requests -/

namespace PythonScheduler

/-- The queues hold the live requests, whose ids are distinct, and nothing else. -/
structure Holds (t : PythonScheduler P) (live : Reference P) : Prop where
  queues : ∀ p, t.queues p = (live.filter fun x => x.priority = p).map ScheduledRequest.item
  known : ∀ id, id ∈ t.known ↔ ∃ x ∈ live, x.id = id
  distinct : (live.map ScheduledRequest.id).Nodup

namespace Holds

variable {t : PythonScheduler P} {live : Reference P}

theorem new (capacity : Nat) (h : 1 ≤ capacity) : (PythonScheduler.new P capacity h).Holds [] where
  queues := fun _ => rfl
  known := by
    intro id
    constructor
    · intro hid
      cases hid
    · rintro ⟨x, hx, -⟩
      cases hx
  distinct := List.nodup_nil

theorem len_eq (h : t.Holds live) : t.len = live.length := by
  have hcount := length_filter_priority live
  rw [PythonScheduler.len, h.queues, h.queues, h.queues]
  simp only [List.length_map]
  omega

theorem eq_of_id (h : t.Holds live) {x y : ScheduledRequest P} (hx : x ∈ live) (hy : y ∈ live)
    (hid : x.id = y.id) : x = y :=
  List.inj_on_of_nodup_map h.distinct hx hy hid

theorem push (h : t.Holds live) {req : ScheduledRequest P} (hfresh : ∀ x ∈ live, x.id ≠ req.id) :
    Holds { t with
      queues := Function.update t.queues req.priority (t.queues req.priority ++ [req.item])
      known := insert req.id t.known } (live ++ [req]) where
  queues := by
    intro p
    rw [List.filter_append, List.map_append]
    by_cases hp : p = req.priority
    · subst hp
      simp [h.queues]
    · have hp' : ¬ req.priority = p := fun heq => hp heq.symm
      simp [h.queues, hp, hp']
  known := by
    intro id
    rw [Finset.mem_insert, h.known]
    simp only [List.mem_append, List.mem_singleton]
    constructor
    · rintro (rfl | ⟨x, hx, rfl⟩)
      · exact ⟨req, Or.inr rfl, rfl⟩
      · exact ⟨x, Or.inl hx, rfl⟩
    · rintro ⟨x, hx | rfl, rfl⟩
      · exact Or.inr ⟨x, hx, rfl⟩
      · exact Or.inl rfl
  distinct := by
    rw [List.map_append]
    refine List.Nodup.append h.distinct (List.nodup_singleton _) ?_
    intro id hid hreq
    obtain ⟨x, hx, rfl⟩ := List.mem_map.mp hid
    rw [List.map_singleton, List.mem_singleton] at hreq
    exact hfresh x hx hreq

/-- The queue that `cancel` finds is the one of the live request's priority. -/
theorem holder (h : t.Holds live) {x : ScheduledRequest P} (hx : x ∈ live) :
    t.holder x.id = some x.priority := by
  have hany : ∀ p, ((t.queues p).any fun item => item.id = x.id) = decide (p = x.priority) := by
    intro p
    rw [Bool.eq_iff_iff, List.any_eq_true, decide_eq_true_iff, h.queues]
    constructor
    · rintro ⟨item, hitem, hid⟩
      obtain ⟨y, hy, rfl⟩ := List.mem_map.mp hitem
      obtain ⟨hlive, hp⟩ := List.mem_filter.mp hy
      have hyx : y = x := h.eq_of_id hlive hx (of_decide_eq_true hid)
      subst hyx
      simpa [eq_comm] using hp
    · rintro rfl
      exact ⟨x.item, List.mem_map_of_mem (List.mem_filter.mpr ⟨hx, by simp⟩), by
        simp [ScheduledRequest.item]⟩
  unfold PythonScheduler.holder
  rw [List.find?_congr fun p _ => hany p]
  cases x.priority <;> rfl

/-- Deleting the item of a live request. -/
theorem delete (h : t.Holds live) {x : ScheduledRequest P} (hx : x ∈ live) :
    Holds { t with
      queues := Function.update t.queues x.priority
        ((t.queues x.priority).eraseP fun item => item.id = x.id)
      known := t.known.erase x.id } (live.cancel x.id) where
  queues := by
    intro p
    have hfilter : (live.cancel x.id).filter (fun y => y.priority = p) =
        (live.filter fun y => y.priority = p).filter fun y => y.id ≠ x.id := by
      rw [Reference.cancel, List.filter_filter, List.filter_filter]
      exact List.filter_congr fun y _ => Bool.and_comm _ _
    have hdistinct : ((live.filter fun y => y.priority = p).map ScheduledRequest.id).Nodup :=
      h.distinct.sublist (List.Sublist.map _ List.filter_sublist)
    rw [hfilter]
    by_cases hp : p = x.priority
    · subst hp
      have hmem : x ∈ live.filter fun y => y.priority = x.priority :=
        List.mem_filter.mpr ⟨hx, by simp⟩
      simp only [Function.update_self]
      rw [h.queues, List.eraseP_map, ← eraseP_eq_filter_key hdistinct (find?_key hdistinct hmem)]
      rfl
    · have hother : (live.filter fun y => y.priority = p).filter (fun y => y.id ≠ x.id) =
          live.filter fun y => y.priority = p := by
        rw [List.filter_eq_self]
        intro y hy
        obtain ⟨hlive, hpy⟩ := List.mem_filter.mp hy
        have hne : y.id ≠ x.id := by
          intro hid
          have hyx := h.eq_of_id hlive hx hid
          subst hyx
          exact hp (by simpa [eq_comm] using hpy)
        simpa using hne
      simp only [Function.update_of_ne hp]
      rw [h.queues, hother]
  known := by
    intro id
    rw [Finset.mem_erase, h.known]
    simp only [Reference.cancel, List.mem_filter, decide_eq_true_eq]
    constructor
    · rintro ⟨hne, y, hy, rfl⟩
      exact ⟨y, ⟨hy, hne⟩, rfl⟩
    · rintro ⟨y, ⟨hy, hne⟩, rfl⟩
      exact ⟨hne, y, hy, rfl⟩
  distinct := h.distinct.sublist (List.Sublist.map _ List.filter_sublist)

/-- Popping the head of the first nonempty queue takes what the reference takes. -/
theorem popNextFrom (h : t.Holds live) (ps : List Priority) :
    (t.popNextFrom ps).1 = (live.nextFrom ps).1.map ScheduledRequest.item ∧
      (t.popNextFrom ps).2.Holds (live.nextFrom ps).2 := by
  induction ps with
  | nil => exact ⟨rfl, h⟩
  | cons p ps ih =>
      have hqueue := h.queues p
      unfold PythonScheduler.popNextFrom Reference.nextFrom
      cases hfind : live.find? fun x => x.priority = p with
      | none =>
          have hnone : live.filter (fun x => x.priority = p) = [] := by
            rw [← List.head?_eq_none_iff, List.head?_filter, hfind]
          rw [hnone, List.map_nil] at hqueue
          rw [hqueue]
          exact ih
      | some x =>
          have hx : x ∈ live := List.mem_of_find?_eq_some hfind
          have hp : x.priority = p := by simpa using List.find?_some hfind
          subst hp
          obtain ⟨rest, hfilter⟩ : ∃ rest, live.filter (fun y => y.priority = x.priority) =
              x :: rest := List.head?_eq_some_iff.mp (by rw [List.head?_filter, hfind])
          have hdelete := h.delete hx
          -- the popped item is the one that a cancel of its id would delete
          rw [hqueue, hfilter, List.map_cons, List.eraseP_cons_of_pos (by
            simp [ScheduledRequest.item])] at hdelete
          rw [hqueue, hfilter, eraseP_eq_filter_key h.distinct hfind]
          exact ⟨rfl, hdelete⟩

end Holds

end PythonScheduler

/-- `_pop_next_locked` touches neither the capacity nor the flag. -/
theorem PythonScheduler.frame_popNextFrom (t : PythonScheduler P) (ps : List Priority) :
    (t.popNextFrom ps).2.capacity = t.capacity ∧
      (t.popNextFrom ps).2.shuttingDown = t.shuttingDown := by
  induction ps with
  | nil => exact ⟨rfl, rfl⟩
  | cons p ps ih =>
      unfold PythonScheduler.popNextFrom
      cases t.queues p with
      | nil => exact ih
      | cons item rest => exact ⟨rfl, rfl⟩

/-- A pop learns no id. -/
theorem Buckets.known_popNextFrom (ps : List Priority) :
    ∀ b : Buckets P, (b.popNextFrom ps).2.known ⊆ b.known := by
  induction ps with
  | nil => exact fun b => Finset.Subset.refl _
  | cons p ps ih =>
      intro b
      have hqueue : (b.popQueue p).2.known ⊆ b.known := by
        unfold Buckets.popQueue
        rw [Buckets.toTombstones_setQueue]
        exact known_popLive_subset ScheduledRequest.id (b.queue p) b.toTombstones
      unfold Buckets.popNextFrom
      rcases hpop : b.popQueue p with ⟨_ | item, b'⟩
      · rw [hpop] at hqueue
        exact (ih b').trans hqueue
      · rwa [hpop] at hqueue

/-! ## The simulation -/

theorem acceptedIds_append (as bs : List (Answer P)) :
    acceptedIds (as ++ bs) = acceptedIds as ++ acceptedIds bs := by
  induction as with
  | nil => rfl
  | cons a as ih =>
      cases a with
      | submitted id result =>
          cases result with
          | ok u => exact congrArg (List.cons id) ih
          | error e => exact ih
      | cancelled result => exact ih
      | delivered item => exact ih
      | length n => exact ih
      | done => exact ih

/-- The same answer, to a call that is no cancel of a cancelled id. -/
theorem AnswersAgree.of_eq {s : Scheduler P} {t : PythonScheduler P} {c : Call P}
    (hother : ∀ id, c ≠ .cancel id) (hanswer : (s.answer c).1 = (t.answer c).1) :
    AnswersAgree s t c :=
  ⟨fun _ => hanswer, fun id hid => absurd hid (hother id)⟩

/-- Both schedulers stand for the live requests, of ids accepted so far. -/
structure Matches (accepted : List RequestId) (s : Scheduler P) (t : PythonScheduler P)
    (live : Reference P) : Prop where
  capacity : t.capacity = s.capacity
  flag : t.shuttingDown = s.shuttingDown
  buckets : s.buckets.Represents live
  holds : t.Holds live
  accepted : ∀ id ∈ s.buckets.known, id ∈ accepted

namespace Matches

variable {accepted : List RequestId} {s : Scheduler P} {t : PythonScheduler P}
  {live : Reference P}

theorem init (capacity : Nat) (h : 1 ≤ capacity) :
    Matches [] (rust P capacity).init (python P capacity h).init [] where
  capacity := rfl
  flag := rfl
  buckets := .empty
  holds := .new capacity h
  accepted := by
    intro id hid
    cases hid

theorem len_eq (h : Matches accepted s t live) : s.len = t.len :=
  h.buckets.len_eq.trans h.holds.len_eq.symm

/-- An id has a slot and no tombstone exactly when it is live. -/
theorem live_iff (h : Matches accepted s t live) {id : RequestId} :
    (∃ x ∈ live, x.id = id) ↔ id ∈ s.buckets.known ∧ id ∉ s.buckets.cancelled := by
  constructor
  · rintro ⟨x, hx, rfl⟩
    obtain ⟨hqueued, hclear⟩ := h.buckets.mem_live.mp hx
    exact ⟨(h.buckets.slots x.id).mpr ⟨x.priority, x, hqueued, rfl⟩, hclear⟩
  · rintro ⟨hknown, hclear⟩
    obtain ⟨p, x, hx, rfl⟩ := (h.buckets.slots id).mp hknown
    exact ⟨x, h.buckets.live_of_queued hx hclear, rfl⟩

theorem submit_answer (h : Matches accepted s t live) (req : ScheduledRequest P) :
    (s.submit req).1 = (t.submit req).1 := by
  have hlen : s.buckets.len = t.len := h.len_eq
  simp only [Scheduler.submit, PythonScheduler.submit, h.flag, h.capacity, hlen]
  split
  · rfl
  · split <;> rfl

/-- A submission of an id that was not accepted before. -/
theorem submit (h : Matches accepted s t live) {req : ScheduledRequest P}
    (hfresh : (s.submit req).1 = .ok () → req.id ∉ accepted) :
    ∃ live', Matches (accepted ++ acceptedIds [(.submitted req.id (s.submit req).1 : Answer P)])
      (s.submit req).2 (t.submit req).2 live' := by
  have hlen : s.buckets.len = t.len := h.len_eq
  have hcapacity := h.capacity
  unfold Scheduler.submit PythonScheduler.submit at *
  by_cases hdown : s.shuttingDown
  · rw [if_pos hdown, if_pos (h.flag.trans hdown)]
    exact ⟨live, by simpa [acceptedIds] using h⟩
  · have hdown' : ¬ t.shuttingDown = true := fun hd => hdown (h.flag.symm.trans hd)
    rw [if_neg hdown, if_neg hdown'] at *
    by_cases hfull : s.capacity ≤ s.buckets.len
    · have hfull' : t.capacity ≤ t.len := by omega
      rw [if_pos hfull, if_pos hfull']
      exact ⟨live, by simpa [acceptedIds] using h⟩
    · have hfull' : ¬ t.capacity ≤ t.len := by omega
      rw [if_neg hfull] at hfresh
      rw [if_neg hfull, if_neg hfull']
      have hfree : req.id ∉ s.buckets.known := fun hknown => hfresh rfl (h.accepted _ hknown)
      refine ⟨live ++ [req], h.capacity, h.flag, h.buckets.push hfree, h.holds.push ?_, ?_⟩
      · intro x hx hid
        exact hfree (hid ▸ (h.live_iff.mp ⟨x, hx, rfl⟩).1)
      · intro id hid
        simp only [Buckets.push, Buckets.toTombstones_setQueue, Tombstones.mem_known_learn] at hid
        rcases hid with rfl | hid
        · exact List.mem_append_right _ List.mem_cons_self
        · exact List.mem_append_left _ (h.accepted id hid)

/-- A cancel is answered alike unless the id has a tombstone already, and leaves the
same live requests in any case. -/
theorem cancel (h : Matches accepted s t live) (id : RequestId) :
    (s.PendingCancel id ∧ (s.cancel id).1 = .ok () ∧ (t.cancel id).1 = .error (.notFound id) ∨
      ¬ s.PendingCancel id ∧ (s.cancel id).1 = (t.cancel id).1) ∧
      ∃ live', Matches accepted (s.cancel id).2 (t.cancel id).2 live' := by
  unfold Scheduler.PendingCancel Scheduler.cancel PythonScheduler.cancel
  by_cases hdown : s.shuttingDown
  · rw [if_pos hdown, if_pos (h.flag.trans hdown)]
    exact ⟨Or.inr ⟨by simp [hdown], rfl⟩, live, h⟩
  · have hdown' : ¬ t.shuttingDown = true := fun hd => hdown (h.flag.symm.trans hd)
    rw [if_neg hdown, if_neg hdown']
    by_cases hlive : ∃ x ∈ live, x.id = id
    · obtain ⟨hknown, hclear⟩ := h.live_iff.mp hlive
      obtain ⟨x, hx, rfl⟩ := hlive
      have hmember : ¬ x.id ∉ t.known := not_not.mpr ((h.holds.known _).mpr ⟨x, hx, rfl⟩)
      rw [dif_pos hknown, if_neg hmember, h.holds.holder hx]
      exact ⟨Or.inr ⟨fun hpending => hclear hpending.2, rfl⟩, live.cancel x.id, h.capacity, h.flag,
        h.buckets.mark hknown, h.holds.delete hx, h.accepted⟩
    · have hmissing : id ∉ t.known := fun hmem => hlive ((h.holds.known id).mp hmem)
      rw [if_pos hmissing]
      by_cases hknown : id ∈ s.buckets.known
      · -- the id has a tombstone: burying it again changes nothing that is live
        have hburied : id ∈ s.buckets.cancelled := by
          by_contra hclear
          exact hlive (h.live_iff.mpr ⟨hknown, hclear⟩)
        have hsame : live.cancel id = live := by
          rw [Reference.cancel, List.filter_eq_self]
          intro x hx
          simpa using fun hid => hlive ⟨x, hx, hid⟩
        have hmark := h.buckets.mark hknown
        rw [hsame] at hmark
        rw [dif_pos hknown]
        exact ⟨Or.inl ⟨⟨by simpa using hdown, hburied⟩, rfl, rfl⟩, live, h.capacity, h.flag, hmark,
          h.holds, h.accepted⟩
      · rw [dif_neg hknown]
        have hclear : ¬ id ∈ s.buckets.cancelled := fun hburied =>
          hknown (s.buckets.cancelledKnown hburied)
        exact ⟨Or.inr ⟨fun hpending => hclear hpending.2, rfl⟩, live, h⟩

/-- What `next_blocking` of the two hands out, and what remains. -/
theorem poll (h : Matches accepted s t live) :
    (s.answer .nextBlocking).1 = (t.answer .nextBlocking).1 ∧
      ∃ live', Matches accepted s.poll.2 t.nextBlocking.2 live' := by
  obtain ⟨hitem, hrest⟩ := h.buckets.popNextFrom [.high, .normal, .low]
  obtain ⟨hitem', hrest'⟩ := h.holds.popNextFrom [.high, .normal, .low]
  have hknown := s.buckets.known_popNextFrom [.high, .normal, .low]
  obtain ⟨hcapacity, hflag⟩ := t.frame_popNextFrom [.high, .normal, .low]
  simp only [Scheduler.answer, PythonScheduler.answer, PythonScheduler.nextBlocking,
    PythonScheduler.popNext, PythonScheduler.priorities]
  rw [hitem', ← hitem]
  unfold Scheduler.poll Buckets.popNext
  rcases hpop : s.buckets.popNextFrom [.high, .normal, .low] with ⟨_ | item, b⟩
  · rw [hpop] at hrest hknown
    refine ⟨?_, _, hcapacity.trans h.capacity, hflag.trans h.flag, hrest, hrest',
      fun id hid => h.accepted id (hknown hid)⟩
    by_cases hdown : s.shuttingDown <;> simp [hdown]
  · rw [hpop] at hrest hknown
    exact ⟨rfl, _, hcapacity.trans h.capacity, hflag.trans h.flag, hrest, hrest',
      fun id hid => h.accepted id (hknown hid)⟩

/-- One call: the answers agree, and what is live stays the same on both sides. -/
theorem answer (h : Matches accepted s t live) {c : Call P}
    (hfresh : ∀ req, c = .submit req → (s.submit req).1 = .ok () → req.id ∉ accepted) :
    AnswersAgree s t c ∧
      ∃ live', Matches (accepted ++ acceptedIds [(s.answer c).1]) (s.answer c).2 (t.answer c).2
        live' := by
  cases c with
  | submit req =>
      have hanswer : (s.answer (.submit req)).1 = (t.answer (.submit req)).1 :=
        congrArg (Answer.submitted req.id) (h.submit_answer req)
      exact ⟨AnswersAgree.of_eq (by rintro id ⟨⟩) hanswer, h.submit (hfresh req rfl)⟩
  | cancel id =>
      obtain ⟨hcases, live', hnext⟩ := h.cancel id
      refine ⟨?_, live', by simpa [Scheduler.answer, PythonScheduler.answer, acceptedIds] using hnext⟩
      rcases hcases with ⟨hpending, hok, hmissing⟩ | ⟨hclear, hsame⟩
      · refine ⟨fun hnever => absurd hpending (hnever id rfl), ?_⟩
        rintro id' hid -
        cases hid
        exact ⟨congrArg Answer.cancelled hok, congrArg Answer.cancelled hmissing⟩
      · refine ⟨fun _ => congrArg Answer.cancelled hsame, ?_⟩
        rintro id' hid hpending
        cases hid
        exact absurd hpending hclear
  | nextBlocking =>
      obtain ⟨hanswer, live', hnext⟩ := h.poll
      exact ⟨AnswersAgree.of_eq (by rintro id ⟨⟩) hanswer, live', by
        simpa [Scheduler.answer, PythonScheduler.answer, acceptedIds] using hnext⟩
  | len =>
      have hanswer : (s.answer .len).1 = (t.answer .len).1 := congrArg Answer.length h.len_eq
      exact ⟨AnswersAgree.of_eq (by rintro id ⟨⟩) hanswer, live, by
        simpa [Scheduler.answer, PythonScheduler.answer, acceptedIds] using h⟩
  | shutdown =>
      refine ⟨AnswersAgree.of_eq (by rintro id ⟨⟩) rfl, live, ?_⟩
      simpa [Scheduler.answer, PythonScheduler.answer, acceptedIds] using
        (⟨h.capacity, rfl, h.buckets, ⟨h.holds.queues, h.holds.known, h.holds.distinct⟩, h.accepted⟩ :
          Matches accepted s.shutdown t.shutdown live)

end Matches

/-! ## Whole runs -/

/-- Every call is answered. -/
theorem rust_run_total (capacity : Nat) (cs : List (Call P)) (s : Scheduler P) :
    ∃ as s', (rust P capacity).run s cs = some (as, s') := by
  induction cs generalizing s with
  | nil => exact ⟨[], s, rfl⟩
  | cons c cs ih =>
      obtain ⟨as, s', hrun⟩ := ih (s.answer c).2
      exact ⟨_, s', Machine.run_cons_eq_some.mpr ⟨_, _, as, rfl, hrun, rfl⟩⟩

/-- Where no id is accepted twice, an accepted id was not accepted before. -/
theorem AcceptsOnce.fresh {capacity : Nat} {cs₁ cs₂ : List (Call P)} {c : Call P}
    (honce : AcceptsOnce capacity (cs₁ ++ c :: cs₂)) {as : List (Answer P)} {s : Scheduler P}
    (hrun : (rust P capacity).run (rust P capacity).init cs₁ = some (as, s))
    {req : ScheduledRequest P} (hc : c = .submit req) (haccepted : (s.submit req).1 = .ok ()) :
    req.id ∉ acceptedIds as := by
  subst hc
  obtain ⟨bs, s', hrest⟩ := rust_run_total capacity cs₂ (s.submit req).2
  have hall := honce _ s' (Machine.run_append_eq_some.mpr ⟨as, s, _, hrun,
    Machine.run_cons_eq_some.mpr ⟨[.submitted req.id (s.submit req).1], _, bs, rfl, hrest, rfl⟩, rfl⟩)
  rw [haccepted, acceptedIds_append] at hall
  intro hmem
  exact List.disjoint_of_nodup_append hall hmem List.mem_cons_self

/-- After the same calls, the two stand for the same live requests. -/
theorem matches_of_run {capacity : Nat} {hcapacity : 1 ≤ capacity} {cs : List (Call P)} :
    ∀ cs', AcceptsOnce capacity (cs ++ cs') → ∃ as s bs t live,
      (rust P capacity).run (rust P capacity).init cs = some (as, s) ∧
      (python P capacity hcapacity).run (python P capacity hcapacity).init cs = some (bs, t) ∧
        Matches (acceptedIds as) s t live := by
  induction cs using List.reverseRecOn with
  | nil =>
      intro cs' _
      exact ⟨[], _, [], _, [], rfl, rfl, Matches.init capacity hcapacity⟩
  | append_singleton cs c ih =>
      intro cs' honce
      rw [List.append_assoc, List.singleton_append] at honce
      obtain ⟨as, s, bs, t, live, hrun, hrun', hmatches⟩ := ih (c :: cs') honce
      obtain ⟨-, live', hnext⟩ := hmatches.answer fun req hc => honce.fresh hrun hc
      refine ⟨as ++ [(s.answer c).1], (s.answer c).2, bs ++ [(t.answer c).1], (t.answer c).2, live',
        Machine.run_snoc_eq_some.mpr ⟨as, s, _, hrun, rfl, rfl⟩,
        Machine.run_snoc_eq_some.mpr ⟨bs, t, _, hrun', rfl, rfl⟩, ?_⟩
      rw [acceptedIds_append]
      exact hnext

/-- For every sequence of calls in which no id is accepted twice, the two
implementations answer every call alike, but for the cancel of an id whose cancelled
item has not been popped. -/
theorem implementations_agree {capacity : Nat} (hcapacity : 1 ≤ capacity) {cs : List (Call P)}
    (honce : AcceptsOnce capacity cs) :
    ∀ cs₁ c cs₂, cs = cs₁ ++ c :: cs₂ → ∃ as s bs t,
      (rust P capacity).run (rust P capacity).init cs₁ = some (as, s) ∧
      (python P capacity hcapacity).run (python P capacity hcapacity).init cs₁ = some (bs, t) ∧
        AnswersAgree s t c := by
  rintro cs₁ c cs₂ rfl
  obtain ⟨as, s, bs, t, live, hrun, hrun', hmatches⟩ := matches_of_run (c :: cs₂) honce
  exact ⟨as, s, bs, t, hrun, hrun', (hmatches.answer fun req hc => honce.fresh hrun hc).1⟩

/-- An id cancelled twice before its item is popped. -/
def cancelTwice : List (Call Nat) :=
  [.submit ⟨⟨"a"⟩, .low, 0, 1⟩, .submit ⟨⟨"b"⟩, .high, 1, 2⟩, .cancel ⟨"a"⟩, .cancel ⟨"a"⟩, .len,
    .shutdown, .nextBlocking, .nextBlocking]

theorem cancelTwice_agree :
    AcceptsOnce 2 cancelTwice ∧
      ∀ cs₁ c cs₂, cancelTwice = cs₁ ++ c :: cs₂ → ∃ as s bs t,
        (rust Nat 2).run (rust Nat 2).init cs₁ = some (as, s) ∧
        (python Nat 2 (by decide)).run (python Nat 2 (by decide)).init cs₁ = some (bs, t) ∧
          AnswersAgree s t c := by
  have honce : AcceptsOnce 2 cancelTwice := by
    intro as s hrun
    cases hrun
    decide
  exact ⟨honce, implementations_agree (by decide) honce⟩

end Repercep.Scheduling
