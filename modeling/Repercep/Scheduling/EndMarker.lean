import Repercep.Scheduling.Interleaved
import Mathlib.Algebra.Order.Group.Multiset
import Mathlib.Tactic.Abel
set_option autoImplicit false

/-!
# Scheduler: nothing after the end marker

A `next` that returns `None` leaves the queues empty and the flag set.  A `submit`
that read the flag before it was set can still take the lock afterwards; its request
is accepted and nobody will ask for it.  Without such a `submit`, every accepted
request has been delivered or cancelled when the first `None` is returned.
-/

namespace Repercep.Scheduling

open Repercep.Foundation

variable {P : Type}

namespace Buckets

/-- Everything queued, cancelled or not. -/
def items (b : Buckets P) : Multiset (ScheduledRequest P) :=
  b.high + b.normal + b.low

/-- What pops take off the buckets: skipped items, one for each tombstone cleared, and
at most one more. -/
structure Takes (b : Buckets P) (out : Option (ScheduledRequest P)) (b' : Buckets P)
    (skipped : Multiset (ScheduledRequest P)) : Prop where
  items : b.items = skipped + out.toList + b'.items
  tombstones : skipped.map ScheduledRequest.id + b'.cancelled.val = b.cancelled.val
  known : ∀ k ∈ b'.known, k ∈ b.known ∧ ∀ x ∈ skipped + out.toList, x.id ≠ k

theorem popQueue_takes (b : Buckets P) (p : Priority) :
    (∃ skipped, Takes b (b.popQueue p).1 (b.popQueue p).2 skipped) ∧
      ((b.popQueue p).1 = none → (b.popQueue p).2.queue p = []) := by
  obtain ⟨skipped, htaken⟩ := popLive_taken ScheduledRequest.id (b.queue p) b.toTombstones
  unfold popQueue
  generalize popLive ScheduledRequest.id b.toTombstones (b.queue p) = popped at htaken ⊢
  obtain ⟨out, rest, t'⟩ := popped
  have hsplit : (b.queue p : Multiset (ScheduledRequest P)) = skipped + out.toList + rest := by
    rw [htaken.split, ← Multiset.coe_add, ← Multiset.coe_add]
  refine ⟨⟨skipped, ?_, ?_, ?_⟩, ?_⟩
  · cases p <;> simp only [queue, setQueue, items] at hsplit ⊢ <;> rw [hsplit] <;> abel
  · rw [toTombstones_setQueue]
    exact htaken.tombstones
  · intro k hk
    rw [toTombstones_setQueue] at hk
    obtain ⟨hknown, hother⟩ := (htaken.known k).mp hk
    refine ⟨hknown, fun x hx => hother x ?_⟩
    simpa using hx
  · intro hnone
    simpa using htaken.drained hnone

/-- Pops one after the other, the first of which found nothing. -/
theorem Takes.trans {b b' b'' : Buckets P} {out : Option (ScheduledRequest P)}
    {skipped skipped' : Multiset (ScheduledRequest P)} (h : Takes b none b' skipped)
    (h' : Takes b' out b'' skipped') : Takes b out b'' (skipped + skipped') where
  items := by
    rw [h.items, h'.items]
    simp only [Option.toList_none, Multiset.coe_nil]
    abel
  tombstones := by
    rw [Multiset.map_add, add_assoc, h'.tombstones, h.tombstones]
  known := by
    intro k hk
    obtain ⟨hknown', hother'⟩ := h'.known k hk
    obtain ⟨hknown, hother⟩ := h.known k hknown'
    refine ⟨hknown, fun x hx => ?_⟩
    rw [add_assoc, Multiset.mem_add] at hx
    rcases hx with hx | hx
    · exact hother x (by simpa using hx)
    · exact hother' x hx

theorem popQueue_empty {b : Buckets P} {p p' : Priority} (h : b.queue p' = []) :
    (b.popQueue p).2.queue p' = [] := by
  by_cases hp : p' = p
  · subst hp
    simp [popQueue, h, popLive]
  · rw [popQueue, queue_setQueue_of_ne b hp]
    exact h

/-- A pop that finds nothing has emptied the queues it visited. -/
theorem popNextFrom_takes (ps : List Priority) :
    ∀ b : Buckets P,
      (∃ skipped, Takes b (b.popNextFrom ps).1 (b.popNextFrom ps).2 skipped) ∧
        ((b.popNextFrom ps).1 = none →
          ∀ p, p ∈ ps ∨ b.queue p = [] → (b.popNextFrom ps).2.queue p = []) := by
  induction ps with
  | nil => exact fun b => ⟨⟨0, by simp [popNextFrom], by simp [popNextFrom],
      fun k hk => ⟨hk, by simp [popNextFrom]⟩⟩, fun _ p hp => by simpa [popNextFrom] using hp⟩
  | cons p ps ih =>
      intro b
      obtain ⟨⟨skipped, htakes⟩, hdrained⟩ := b.popQueue_takes p
      unfold popNextFrom
      rcases hpop : b.popQueue p with ⟨_ | item, b'⟩
      · have hempty : ∀ p', p' = p ∨ b.queue p' = [] → b'.queue p' = [] := by
          rintro p' (rfl | hp')
          · simpa [hpop] using hdrained (by rw [hpop])
          · simpa [hpop] using popQueue_empty (p := p) hp'
        rw [hpop] at htakes
        obtain ⟨⟨skipped', htakes'⟩, hdrained'⟩ := ih b'
        refine ⟨⟨_, htakes.trans htakes'⟩, fun hnone p' hp' => ?_⟩
        apply hdrained' hnone p'
        rw [List.mem_cons] at hp'
        rcases hp' with (hp' | hp') | hp'
        · exact Or.inr (hempty p' (Or.inl hp'))
        · exact Or.inl hp'
        · exact Or.inr (hempty p' (Or.inr hp'))
      · rw [hpop] at htakes
        exact ⟨⟨skipped, htakes⟩, fun hnone => by cases hnone⟩

theorem popNext_takes {b b' : Buckets P} {out : Option (ScheduledRequest P)}
    (hpop : b.popNext = (out, b')) :
    (∃ skipped, Takes b out b' skipped) ∧ (out = none → b'.items = 0) := by
  obtain ⟨htakes, hdrained⟩ := popNextFrom_takes [.high, .normal, .low] b
  unfold popNext at hpop
  rw [hpop] at htakes hdrained
  refine ⟨htakes, fun hnone => ?_⟩
  have hempty : ∀ p, b'.queue p = [] := fun p =>
    hdrained hnone p (Or.inl (by cases p <;> decide))
  have hhigh := hempty .high
  have hnormal := hempty .normal
  have hlow := hempty .low
  simp only [queue] at hhigh hnormal hlow
  simp [items, hhigh, hnormal, hlow]

theorem items_push (b : Buckets P) (req : ScheduledRequest P) :
    (b.push req).items = b.items + {req} := by
  have happend : ∀ l : List (ScheduledRequest P),
      ((l ++ [req] : List (ScheduledRequest P)) : Multiset (ScheduledRequest P)) = l + {req} :=
    fun l => by rw [← Multiset.coe_add]; rfl
  unfold push items
  cases req.priority <;> simp only [setQueue, queue, happend] <;> abel

end Buckets

namespace Interleaved

/-! ## The ledger -/

/-- The requests accepted so far. -/
def accepted (es : List (Event P)) : Multiset (ScheduledRequest P) :=
  es.filterMap fun
    | .accepted req => some req
    | .cancelled _ | .delivered _ => none

/-- The requests handed out so far. -/
def delivered (es : List (Event P)) : Multiset (ScheduledRequest P) :=
  es.filterMap fun
    | .delivered req => some req
    | .accepted _ | .cancelled _ => none

/-- The ids of the successful cancels so far. -/
def cancelledIds (es : List (Event P)) : Multiset RequestId :=
  es.filterMap fun
    | .cancelled id => some id
    | .accepted _ | .delivered _ => none

theorem accepted_append (es fs : List (Event P)) :
    accepted (es ++ fs) = accepted es + accepted fs := by
  rw [accepted, List.filterMap_append, ← Multiset.coe_add]
  rfl

theorem delivered_append (es fs : List (Event P)) :
    delivered (es ++ fs) = delivered es + delivered fs := by
  rw [delivered, List.filterMap_append, ← Multiset.coe_add]
  rfl

theorem cancelledIds_append (es fs : List (Event P)) :
    cancelledIds (es ++ fs) = cancelledIds es + cancelledIds fs := by
  rw [cancelledIds, List.filterMap_append, ← Multiset.coe_add]
  rfl

/-- What a step does to the buckets, and what it reports. -/
inductive Effect (b : Buckets P) : List (Event P) → Buckets P → Prop where
  | keep : Effect b [] b
  | push (req : ScheduledRequest P) : Effect b [.accepted req] (b.push req)
  | mark {id : RequestId} (hknown : id ∈ b.known) : Effect b [.cancelled id] (b.mark id hknown)
  | pop {out : Option (ScheduledRequest P)} {b' : Buckets P} (hpop : b.popNext = (out, b')) :
      Effect b (out.toList.map .delivered) b'

theorem Rule.effect {s t : Sys P} {label : Label P} {es : List (Event P)}
    (h : Rule s label es t) : Effect s.scheduler.buckets es t.scheduler.buckets := by
  cases h with
  | accept hphase hroom => exact .push _
  | mark hphase hknown => exact .mark hknown
  | take hphase hpop => exact .pop hpop
  | drained hphase hpop hdown => exact .pop hpop
  | nothing hphase hpop hrunning => exact .pop hpop
  | arrive hentry => exact .keep
  | move hphase hmoves => exact .keep
  | permit hphase hpermit => exact .keep
  | park hphase hpermit => exact .keep
  | handOver hphase hwaiters => exact .keep
  | storePermit hphase hwaiters => exact .keep
  | storeFlag hphase => exact .keep
  | notifyWaiters hphase => exact .keep

/-- Every accepted request is delivered, withdrawn or queued, every withdrawn one
against a cancel of its id, and a known id has a queued item. -/
structure Ledger (es : List (Event P)) (b : Buckets P) : Prop where
  balance : ∃ withdrawn : Multiset (ScheduledRequest P),
    accepted es = delivered es + withdrawn + b.items ∧
      withdrawn.map ScheduledRequest.id + b.cancelled.val ≤ cancelledIds es
  known : ∀ id ∈ b.known, ∃ x ∈ b.items, x.id = id

theorem Ledger.empty : Ledger [] (Buckets.empty P) where
  balance := ⟨0, rfl, le_refl _⟩
  known := by
    intro id hid
    cases hid

theorem Ledger.step {h es : List (Event P)} {b b' : Buckets P} (hledger : Ledger h b)
    (heffect : Effect b es b') : Ledger (h ++ es) b' := by
  obtain ⟨withdrawn, hbalance, hcancels⟩ := hledger.balance
  cases heffect with
  | keep =>
      rw [List.append_nil]
      exact hledger
  | push req =>
      have hmarks : (b.push req).toTombstones = b.toTombstones.learn req.id := by
        simp [Buckets.push]
      constructor
      · refine ⟨withdrawn, ?_, ?_⟩
        · have haccepted : accepted [Event.accepted req] = {req} := rfl
          have hdelivered : delivered [Event.accepted req] = 0 := rfl
          rw [accepted_append, delivered_append, haccepted, hdelivered, hbalance,
            Buckets.items_push]
          abel
        · rw [hmarks, cancelledIds_append]
          exact hcancels.trans (Multiset.le_add_right _ _)
      · intro id hid
        rw [Buckets.items_push]
        rw [hmarks, Tombstones.mem_known_learn] at hid
        rcases hid with rfl | hid
        · exact ⟨req, by simp, rfl⟩
        · obtain ⟨x, hx, rfl⟩ := hledger.known id hid
          exact ⟨x, Multiset.mem_add.mpr (Or.inl hx), rfl⟩
  | @mark id hknown =>
      constructor
      · refine ⟨withdrawn, ?_, ?_⟩
        · have haccepted : accepted [Event.cancelled (P := P) id] = 0 := rfl
          have hdelivered : delivered [Event.cancelled (P := P) id] = 0 := rfl
          have hitems : (b.mark id hknown).items = b.items := rfl
          rw [accepted_append, delivered_append, haccepted, hdelivered, hbalance, hitems]
          abel
        · rw [cancelledIds_append]
          have hinsert : (insert id b.cancelled).val ≤ b.cancelled.val + {id} := by
            rw [add_comm, Multiset.singleton_add]
            exact (Multiset.le_iff_subset (insert id b.cancelled).nodup).mpr
              (by intro x hx; simpa using hx)
          calc withdrawn.map ScheduledRequest.id + (insert id b.cancelled).val
              ≤ withdrawn.map ScheduledRequest.id + (b.cancelled.val + {id}) :=
                add_le_add (le_refl _) hinsert
            _ = withdrawn.map ScheduledRequest.id + b.cancelled.val + {id} :=
                (add_assoc _ _ _).symm
            _ ≤ cancelledIds h + {id} := add_le_add hcancels (le_refl _)
      · exact hledger.known
  | @pop out _ hpop =>
      obtain ⟨⟨skipped, htakes⟩, -⟩ := Buckets.popNext_takes hpop
      have hquiet : accepted (out.toList.map Event.delivered) = 0 ∧
          cancelledIds (out.toList.map (Event.delivered (P := P))) = 0 ∧
          delivered (out.toList.map Event.delivered) = out.toList := by
        cases out <;> exact ⟨rfl, rfl, rfl⟩
      obtain ⟨haccepted, hcancelled, hdelivered⟩ := hquiet
      constructor
      · refine ⟨withdrawn + skipped, ?_, ?_⟩
        · rw [accepted_append, delivered_append, haccepted, hdelivered, hbalance, htakes.items]
          abel
        · rw [cancelledIds_append, hcancelled, Multiset.map_add, add_assoc, htakes.tombstones,
            add_zero]
          exact hcancels
      · intro id hid
        obtain ⟨hknown, hother⟩ := htakes.known id hid
        obtain ⟨x, hx, rfl⟩ := hledger.known id hknown
        rw [htakes.items, Multiset.mem_add] at hx
        rcases hx with hx | hx
        · exact absurd rfl (hother x hx)
        · exact ⟨x, hx, rfl⟩

theorem ledger_run {capacity : Nat} {as : List (Label P)} {es : List (Event P)} {s : Sys P}
    (hrun : (machine P capacity).run (machine P capacity).init as = some (es, s)) :
    Ledger es s.scheduler.buckets := by
  refine Machine.history_reachable (C := fun _ _ => True)
    (H := fun es s => Ledger es s.scheduler.buckets) Ledger.empty ?_
    (Machine.meets_of_forall fun _ _ _ => trivial) hrun
  intro h s a es t hledger _ hstep
  exact hledger.step (step_rule hstep).effect

/-! ## The end marker -/

/-- A queued request that is not cancelled. -/
def Sys.Live (s : Sys P) (req : ScheduledRequest P) : Prop :=
  req ∈ s.scheduler.buckets.items ∧ req.id ∉ s.scheduler.buckets.cancelled

/-- Nothing live is queued: every accepted request was delivered, or withdrawn against
a cancel of its id. -/
structure Settled (es : List (Event P)) (s : Sys P) : Prop where
  noneLive : ∀ req, ¬ s.Live req
  accounted : ∃ withdrawn : Multiset (ScheduledRequest P),
    accepted es = delivered es + withdrawn ∧
      withdrawn.map ScheduledRequest.id ≤ cancelledIds es

theorem Ledger.settled {es : List (Event P)} {s : Sys P}
    (h : Ledger es s.scheduler.buckets) (hempty : s.scheduler.buckets.items = 0) :
    Settled es s := by
  obtain ⟨withdrawn, hbalance, hcancels⟩ := h.balance
  constructor
  · rintro req ⟨hreq, -⟩
    rw [hempty] at hreq
    exact absurd hreq (Multiset.notMem_zero req)
  · rw [hempty, add_zero] at hbalance
    exact ⟨withdrawn, hbalance, (Multiset.le_add_right _ _).trans hcancels⟩

/-- With nothing queued, nothing has a tombstone. -/
theorem Ledger.cancelled_empty {es : List (Event P)} {b : Buckets P} (h : Ledger es b)
    (hempty : b.items = 0) : b.cancelled = ∅ := by
  rw [Finset.eq_empty_iff_forall_notMem]
  intro id hid
  obtain ⟨x, hx, -⟩ := h.known id (b.cancelledKnown hid)
  rw [hempty] at hx
  exact absurd hx (Multiset.notMem_zero x)

/-- Once a `next` has returned `None`, no `submit` that read the flag before it was set
takes the lock with room left in the queue. -/
def Sys.NoLatePush (s : Sys P) : Label P → Prop
  | .advance i =>
      ∀ req, s.calls[i]? = some (.push req) → s.Ended →
        s.scheduler.capacity ≤ s.scheduler.buckets.len
  | .submit _ | .cancel _ | .next | .shutdown => True

theorem Sys.ended_goto {s : Sys P} {i : Nat} {phase : Phase P} (h : (s.goto i phase).Ended) :
    s.Ended ∨ phase = .returned none := by
  rcases List.mem_or_eq_of_mem_set h with h | h
  · exact Or.inl h
  · exact Or.inr h.symm

/-- A call that has returned stays where it is. -/
theorem Sys.Ended.goto {s : Sys P} {i : Nat} {phase phase' : Phase P} (h : s.Ended)
    (hphase : s.calls[i]? = some phase) (hne : phase ≠ .returned none) :
    (s.goto i phase').Ended := by
  obtain ⟨j, hj⟩ := List.mem_iff_getElem?.mp h
  refine List.mem_iff_getElem?.mpr ⟨j, ?_⟩
  have hij : i ≠ j := by
    rintro rfl
    exact hne (Option.some.inj (hphase.symm.trans hj))
  simpa [Sys.goto, List.getElem?_set_ne hij] using hj

/-- Waking calls brings none of them to its end. -/
theorem mem_of_mem_wake {woken : List Nat} {phase : Phase P} (hne : phase ≠ .parked true) :
    ∀ {calls : List (Phase P)}, phase ∈ wake woken calls → phase ∈ calls := by
  induction woken with
  | nil => exact fun h => h
  | cons j woken ih =>
      intro calls h
      exact (List.mem_or_eq_of_mem_set (ih h)).resolve_right hne

/-- The attempt that returns `None` leaves nothing queued, and nothing but a late push
queues anything afterwards. -/
theorem Rule.empty_of_ended {s t : Sys P} {label : Label P} {es : List (Event P)}
    (h : Rule s label es t) (hpush : s.NoLatePush label)
    (hempty : s.Ended → s.scheduler.buckets.items = 0) (hended : t.Ended) :
    t.scheduler.buckets.items = 0 := by
  cases h with
  | @arrive label phase hentry =>
      refine hempty ((List.mem_append.mp hended).resolve_right ?_)
      rw [List.mem_singleton]
      rintro rfl
      cases label <;> cases hentry
  | move hphase hmoves =>
      refine hempty ((Sys.ended_goto hended).resolve_right ?_)
      rintro rfl
      cases hmoves
  | accept hphase hroom =>
      have hs : s.Ended := (Sys.ended_goto hended).resolve_right (by rintro ⟨⟩)
      exact absurd (hpush _ hphase hs) hroom
  | mark hphase hknown => exact hempty ((Sys.ended_goto hended).resolve_right (by rintro ⟨⟩))
  | take hphase hpop =>
      have hs : s.Ended := (Sys.ended_goto hended).resolve_right (by rintro ⟨⟩)
      obtain ⟨⟨skipped, htakes⟩, -⟩ := Buckets.popNext_takes hpop
      have hitems := htakes.items
      rw [hempty hs] at hitems
      have hitem : _ ∈ (0 : Multiset (ScheduledRequest P)) :=
        hitems ▸ Multiset.mem_add.mpr (Or.inl (Multiset.mem_add.mpr (Or.inr List.mem_cons_self)))
      exact absurd hitem (Multiset.notMem_zero _)
  | drained hphase hpop hdown => exact (Buckets.popNext_takes hpop).2 rfl
  | nothing hphase hpop hrunning => exact (Buckets.popNext_takes hpop).2 rfl
  | permit hphase hpermit => exact hempty ((Sys.ended_goto hended).resolve_right (by rintro ⟨⟩))
  | park hphase hpermit => exact hempty ((Sys.ended_goto hended).resolve_right (by rintro ⟨⟩))
  | handOver hphase hwaiters =>
      have hwoken := (Sys.ended_goto hended).resolve_right (by rintro ⟨⟩)
      exact hempty ((Sys.ended_goto hwoken).resolve_right (by rintro ⟨⟩))
  | storePermit hphase hwaiters =>
      exact hempty ((Sys.ended_goto hended).resolve_right (by rintro ⟨⟩))
  | storeFlag hphase => exact hempty ((Sys.ended_goto hended).resolve_right (by rintro ⟨⟩))
  | notifyWaiters hphase =>
      have hwoken := (Sys.ended_goto hended).resolve_right (by rintro ⟨⟩)
      exact hempty (mem_of_mem_wake (by rintro ⟨⟩) hwoken)

theorem empty_of_ended {capacity : Nat} {as : List (Label P)} {es : List (Event P)} {s : Sys P}
    (hpush : (machine P capacity).Meets Sys.NoLatePush (machine P capacity).init as)
    (hrun : (machine P capacity).run (machine P capacity).init as = some (es, s))
    (hended : s.Ended) : s.scheduler.buckets.items = 0 := by
  refine Machine.history_reachable (C := Sys.NoLatePush)
    (H := fun _ s => s.Ended → s.scheduler.buckets.items = 0) (fun _ => rfl) ?_ hpush hrun hended
  intro _ s a es t hempty hC hstep
  exact (step_rule hstep).empty_of_ended hC hempty

/-- The locked section of `submit`, with room left in the queue. -/
theorem eq_of_push {s t : Sys P} {i : Nat} {req : ScheduledRequest P} {es : List (Event P)}
    (hphase : s.calls[i]? = some (.push req))
    (hroom : ¬ s.scheduler.capacity ≤ s.scheduler.buckets.len)
    (hstep : s.step (.advance i) = some (es, t)) :
    t = (s.setBuckets (s.scheduler.buckets.push req)).goto i (.notify req) := by
  have hpush : s.push i req = (es, t) := by
    simpa [Sys.step, Sys.advance, hphase] using hstep
  rw [Sys.push, if_neg hroom] at hpush
  exact (Prod.mk.inj hpush).2.symm

/-- A step after which nothing is live is no late push. -/
theorem noLatePush_of_noneLive {s t : Sys P} {label : Label P} {h es : List (Event P)}
    (hledger : Ledger h s.scheduler.buckets)
    (hempty : s.Ended → s.scheduler.buckets.items = 0)
    (hstep : s.step label = some (es, t)) (hnone : t.Ended → ∀ req, ¬ t.Live req) :
    s.NoLatePush label := by
  cases label with
  | advance i =>
      intro req hphase hended
      by_contra hroom
      have ht := eq_of_push hphase hroom hstep
      subst ht
      refine hnone (hended.goto (s := s.setBuckets _) hphase (by rintro ⟨⟩)) req ⟨?_, ?_⟩
      · show req ∈ (s.scheduler.buckets.push req).items
        rw [Buckets.items_push]
        simp
      · show req.id ∉ (s.scheduler.buckets.push req).cancelled
        simp [Buckets.push, hledger.cancelled_empty (hempty hended)]
  | submit req => trivial
  | cancel id => trivial
  | next => trivial
  | shutdown => trivial

/-- Where the requests are settled after every `None`, nothing is queued there. -/
theorem empty_of_settled {capacity : Nat} {as₁ : List (Label P)} :
    ∀ as₂, (∀ bs₁ bs₂ es s, as₁ ++ as₂ = bs₁ ++ bs₂ →
      (machine P capacity).run (machine P capacity).init bs₁ = some (es, s) →
        s.Ended → Settled es s) →
      ∀ es s, (machine P capacity).run (machine P capacity).init as₁ = some (es, s) →
        s.Ended → s.scheduler.buckets.items = 0 := by
  induction as₁ using List.reverseRecOn with
  | nil =>
      intro as₂ _ es s hrun hended
      cases hrun
      rfl
  | append_singleton as₁ a ih =>
      intro as₂ hsettled es s hrun hended
      obtain ⟨es₁, s₁, es₂, hpre, hlast, rfl⟩ := Machine.run_append_eq_some.mp hrun
      obtain ⟨fs, t, _, hstep, hnil, -⟩ := Machine.run_cons_eq_some.mp hlast
      cases hnil
      have hempty := ih (a :: as₂) (by simpa using hsettled) es₁ s₁ hpre
      have hnone := fun hended => (hsettled _ as₂ _ _ rfl hrun hended).noneLive
      have hpush := noLatePush_of_noneLive (ledger_run hpre) hempty hstep hnone
      exact (step_rule hstep).empty_of_ended hpush hempty hended

/-- In every run, the requests are settled in every state in which some `next` has
returned `None` exactly when no late push happens. -/
theorem settled_iff_noLatePush {capacity : Nat} {as : List (Label P)} :
    (∀ as₁ as₂ es s, as = as₁ ++ as₂ →
      (machine P capacity).run (machine P capacity).init as₁ = some (es, s) →
        s.Ended → Settled es s) ↔
      (machine P capacity).Meets Sys.NoLatePush (machine P capacity).init as := by
  constructor
  · intro hsettled
    unfold Machine.Meets
    rw [Machine.along_iff_split]
    rintro as₁ a as₂ es₁ s es₂ t rfl hpre hstep
    have hempty := empty_of_settled (a :: as₂) hsettled es₁ s hpre
    have hnone := fun hended => (hsettled (as₁ ++ [a]) as₂ _ t (by simp)
      (Machine.run_snoc hpre hstep) hended).noneLive
    exact noLatePush_of_noneLive (ledger_run hpre) hempty hstep hnone
  · rintro hmeets as₁ as₂ es s rfl hrun hended
    have hmeets₁ := ((Machine.along_append hrun).mp hmeets).1
    exact (ledger_run hrun).settled (empty_of_ended hmeets₁ hrun hended)

/-- A `submit` suspended between its flag load and the lock, while another thread shuts
the scheduler down and a third one drains it. -/
def suspendedSubmit : List (Label Nat) :=
  [.submit ⟨⟨"a"⟩, .normal, 0, 1⟩, .advance 0, .shutdown, .advance 1, .advance 1, .next, .advance 2,
    .advance 2, .advance 0, .advance 0]

/-- There the request is accepted after `None` was returned, and stays queued. -/
theorem suspendedSubmit_live :
    ∃ es s, (machine Nat 1).run (machine Nat 1).init suspendedSubmit = some (es, s) ∧
      s.Ended ∧ s.calls[0]? = some (.submitted (.ok ())) ∧ ¬ Settled es s := by
  refine ⟨_, _, rfl, ?_, rfl, ?_⟩
  · exact List.mem_iff_getElem?.mpr ⟨2, rfl⟩
  · intro hsettled
    refine hsettled.noneLive ⟨⟨"a"⟩, .normal, 0, 1⟩ ⟨?_, ?_⟩
    · exact List.mem_cons_self
    · exact Finset.notMem_empty _

end Interleaved

end Repercep.Scheduling
