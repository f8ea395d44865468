import Repercep.Scheduling.Fallback
set_option autoImplicit false

/-!
# Scheduler: slots and bookkeeping sets

What the three queues hold against what the two sets say.  The sets remember an id
once, however often it is queued, so that taking one of two entries of an id off
forgets the other one; and the capacity is checked on the entries that are not
cancelled, so that a cancelled entry keeps its slot without counting.
-/

namespace Repercep.Scheduling

open Repercep.Foundation

variable {P : Type}

namespace Buckets

/-- The entries held, in the order in which `pop_next` drains them. -/
def order (b : Buckets P) : List (ScheduledRequest P) := b.high ++ b.normal ++ b.low

/-- The number of slots taken: the `physical` of `len`. -/
def physical (b : Buckets P) : Nat := b.high.length + b.normal.length + b.low.length

theorem length_order (b : Buckets P) : b.order.length = b.physical := by
  simp only [order, physical, List.length_append]

/-- An entry of the id is held. -/
def Queued (b : Buckets P) (id : RequestId) : Prop := ∃ x ∈ b.order, x.id = id

theorem mem_order_push (b : Buckets P) (req x : ScheduledRequest P) :
    x ∈ (b.push req).order ↔ x ∈ b.order ∨ x = req := by
  rcases req with ⟨id, priority, submittedAt, payload⟩
  cases priority <;> simp [push, setQueue, queue, order] <;> tauto

theorem physical_push (b : Buckets P) (req : ScheduledRequest P) :
    (b.push req).physical = b.physical + 1 := by
  rcases req with ⟨id, priority, submittedAt, payload⟩
  cases priority <;> simp [push, setQueue, queue, physical] <;> omega

theorem known_push (b : Buckets P) (req : ScheduledRequest P) :
    (b.push req).known = insert req.id b.known := by
  rw [push, toTombstones_setQueue]
  rfl

/-- `pop_next` reads the three queues as one. -/
theorem popNext_eq (b : Buckets P) :
    b.popNext.1 = (popLive ScheduledRequest.id b.toTombstones b.order).1 ∧
      b.popNext.2.order = (popLive ScheduledRequest.id b.toTombstones b.order).2.1 ∧
      b.popNext.2.toTombstones =
        (popLive ScheduledRequest.id b.toTombstones b.order).2.2 := by
  have hempty : ∀ (q rest : List (ScheduledRequest P)) (t t' : Tombstones RequestId),
      popLive ScheduledRequest.id t q = (none, rest, t') → rest = [] := by
    intro q rest t t' hpop
    obtain ⟨skipped, htaken⟩ := popLive_taken ScheduledRequest.id q t
    have hrest := htaken.drained
    rw [hpop] at hrest
    exact hrest rfl
  rw [order, List.append_assoc, popLive_append]
  simp only [popNext, popNextFrom, popQueue, queue]
  rcases hhigh : popLive ScheduledRequest.id b.toTombstones b.high with ⟨_ | item, rest, t₁⟩
  · cases hempty _ _ _ _ hhigh
    simp only [setQueue]
    rw [popLive_append]
    rcases hnormal : popLive ScheduledRequest.id t₁ b.normal with ⟨_ | item, rest, t₂⟩
    · cases hempty _ _ _ _ hnormal
      dsimp only
      rcases hlow : popLive ScheduledRequest.id t₂ b.low with ⟨_ | item, rest, t₃⟩
      · exact ⟨rfl, rfl, rfl⟩
      · exact ⟨rfl, rfl, rfl⟩
    · exact ⟨rfl, rfl, rfl⟩
  · exact ⟨rfl, List.append_assoc .., rfl⟩

/-- What one `pop_next` takes off the three queues. -/
theorem popNext_taken (b : Buckets P) :
    ∃ skipped, Taken ScheduledRequest.id b.toTombstones b.order b.popNext.1 b.popNext.2.order
      b.popNext.2.toTombstones skipped := by
  obtain ⟨hout, horder, hmarks⟩ := b.popNext_eq
  rw [hout, horder, hmarks]
  exact popLive_taken _ _ _

/-! ## What holds of every state -/

/-- An id is in the sets only while an entry of it is held.  The converse does not hold. -/
def Covered (b : Buckets P) : Prop := ∀ id ∈ b.known, b.Queued id

theorem Covered.push {b : Buckets P} (h : b.Covered) (req : ScheduledRequest P) :
    (b.push req).Covered := by
  intro id hid
  rw [known_push, Finset.mem_insert] at hid
  rcases hid with rfl | hid
  · exact ⟨req, (b.mem_order_push req req).mpr (.inr rfl), rfl⟩
  · obtain ⟨x, hx, heq⟩ := h id hid
    exact ⟨x, (b.mem_order_push req x).mpr (.inl hx), heq⟩

theorem Covered.popNext {b : Buckets P} (h : b.Covered) : b.popNext.2.Covered := by
  obtain ⟨skipped, htaken⟩ := b.popNext_taken
  intro id hid
  obtain ⟨hknown, hkept⟩ := (htaken.known id).mp hid
  obtain ⟨x, hx, heq⟩ := h id hknown
  refine ⟨x, ?_, heq⟩
  rw [htaken.split] at hx
  rcases List.mem_append.mp hx with hgone | hrest
  · exact absurd heq (hkept x hgone)
  · exact hrest

/-- There are no more tombstones than entries, so that `len` never saturates. -/
theorem Covered.cancelled_le {b : Buckets P} (h : b.Covered) :
    b.cancelled.card ≤ b.physical := by
  have hsub : b.cancelled ⊆ (b.order.map ScheduledRequest.id).toFinset := by
    intro id hid
    obtain ⟨x, hx, rfl⟩ := h id (b.cancelledKnown hid)
    exact List.mem_toFinset.mpr (List.mem_map_of_mem hx)
  calc b.cancelled.card
      ≤ (b.order.map ScheduledRequest.id).toFinset.card := Finset.card_le_card hsub
    _ ≤ (b.order.map ScheduledRequest.id).length := List.toFinset_card_le _
    _ = b.physical := by rw [List.length_map, length_order]

end Buckets

/-- How a call moves the buckets. -/
inductive Moves (s : Scheduler P) : Call P → Scheduler P → Prop where
  | accepted {req : ScheduledRequest P} (hopen : s.shuttingDown = false)
      (hroom : s.buckets.len < s.capacity) :
      Moves s (.submit req) { s with buckets := s.buckets.push req }
  | refused {req : ScheduledRequest P}
      (hfull : s.shuttingDown = false → s.capacity ≤ s.buckets.len) : Moves s (.submit req) s
  | marked {id : RequestId} (hknown : id ∈ s.buckets.known) :
      Moves s (.cancel id) { s with buckets := s.buckets.mark id hknown }
  | unmarked {id : RequestId} : Moves s (.cancel id) s
  | popped : Moves s .nextBlocking { s with buckets := s.buckets.popNext.2 }
  | counted : Moves s .len s
  | shutDown : Moves s .shutdown { s with shuttingDown := true }

theorem Scheduler.answer_moves (s : Scheduler P) (c : Call P) : Moves s c (s.answer c).2 := by
  cases c with
  | submit req =>
      simp only [Scheduler.answer, Scheduler.submit]
      split
      · next hdown => exact .refused fun hopen => absurd (hopen.symm.trans hdown) (by decide)
      · next hopen =>
          split
          · next hfull => exact .refused fun _ => hfull
          · next hroom => exact .accepted (Bool.eq_false_of_not_eq_true hopen) (by omega)
  | cancel id =>
      simp only [Scheduler.answer, Scheduler.cancel]
      split
      · exact .unmarked
      · split
        · next hknown => exact .marked hknown
        · exact .unmarked
  | nextBlocking =>
      have hpoll : s.poll.2 = { s with buckets := s.buckets.popNext.2 } := by
        unfold Scheduler.poll
        rcases s.buckets.popNext with ⟨_ | item, b⟩ <;> rfl
      simp only [Scheduler.answer, hpoll]
      exact .popped
  | len => exact .counted
  | shutdown => exact .shutDown

theorem rust_moves {capacity : Nat} {s s' : Scheduler P} {c : Call P} {as : List (Answer P)}
    (hstep : (rust P capacity).step s c = some (as, s')) : Moves s c s' := by
  cases hstep
  exact s.answer_moves c

/-- Every call keeps the capacity, and the ids in the sets covered. -/
theorem Moves.covered {s s' : Scheduler P} {c : Call P} (hmove : Moves s c s')
    (h : s.buckets.Covered) : s'.buckets.Covered ∧ s'.capacity = s.capacity := by
  cases hmove with
  | accepted hopen hroom => exact ⟨h.push _, rfl⟩
  | refused hfull => exact ⟨h, rfl⟩
  | marked hknown => exact ⟨h, rfl⟩
  | unmarked => exact ⟨h, rfl⟩
  | popped => exact ⟨h.popNext, rfl⟩
  | counted => exact ⟨h, rfl⟩
  | shutDown => exact ⟨h, rfl⟩

theorem Buckets.Covered.empty : (Buckets.empty P).Covered := by
  intro id hid
  cases hid

/-! ## Slots -/

/-- A submission finds the scheduler shut down, a slot left or nothing cancelled. -/
def Slack (s : Scheduler P) (c : Call P) : Prop :=
  ∀ req, c = .submit req →
    s.shuttingDown = true ∨ s.buckets.physical < s.capacity ∨ s.buckets.cancelled = ∅

theorem Buckets.physical_popNext_le (b : Buckets P) : b.popNext.2.physical ≤ b.physical := by
  obtain ⟨skipped, htaken⟩ := b.popNext_taken
  have hsplit := congrArg List.length htaken.split
  simp only [List.length_append, Buckets.length_order] at hsplit
  omega

/-- A call keeps the entries within the capacity exactly if it meets the condition. -/
theorem Moves.bounded_iff {s s' : Scheduler P} {c : Call P} (hmove : Moves s c s')
    (hcovered : s.buckets.Covered) (hbounded : s.buckets.physical ≤ s.capacity) :
    s'.buckets.physical ≤ s'.capacity ↔ Slack s c := by
  have hcard := hcovered.cancelled_le
  have hlen : s.buckets.len = s.buckets.physical - s.buckets.cancelled.card := rfl
  cases hmove with
  | @accepted req hopen hroom =>
      change (s.buckets.push req).physical ≤ s.capacity ↔ _
      rw [Buckets.physical_push]
      constructor
      · intro hslot _ _
        exact .inr (.inl (by omega))
      · intro hslack
        rcases hslack req rfl with hdown | hslot | hnone
        · cases hopen.symm.trans hdown
        · omega
        · rw [hnone, Finset.card_empty] at hlen
          omega
  | refused hfull =>
      refine iff_of_true hbounded fun req _ => ?_
      cases hdown : s.shuttingDown with
      | true => exact .inl rfl
      | false =>
          have hnocount := hfull hdown
          exact .inr (.inr (Finset.card_eq_zero.mp (by omega)))
  | marked hknown => exact iff_of_true hbounded fun req hc => nomatch hc
  | unmarked => exact iff_of_true hbounded fun req hc => nomatch hc
  | popped =>
      exact iff_of_true (s.buckets.physical_popNext_le.trans hbounded) fun req hc => nomatch hc
  | counted => exact iff_of_true hbounded fun req hc => nomatch hc
  | shutDown => exact iff_of_true hbounded fun req hc => nomatch hc

/-- The queues stay within the capacity in every state of a run exactly if no submission
of the run finds every slot taken and an entry among them cancelled. -/
theorem physical_bounded_iff (capacity : Nat) (calls : List (Call P)) :
    (rust P capacity).Throughout (fun s => s.buckets.physical ≤ capacity)
        (rust P capacity).init calls ↔
      (rust P capacity).Meets Slack (rust P capacity).init calls := by
  apply Machine.throughout_iff_meets
    (J := fun s : Scheduler P => s.buckets.Covered ∧ s.capacity = capacity)
  · rintro s c as s' ⟨hcovered, hcapacity⟩ hbounded hstep
    have hmove := rust_moves hstep
    obtain ⟨hcovered', hcapacity'⟩ := hmove.covered hcovered
    refine ⟨⟨hcovered', hcapacity'.trans hcapacity⟩, ?_⟩
    rw [← hcapacity] at hbounded
    rw [← hmove.bounded_iff hcovered hbounded, hcapacity', hcapacity]
  · exact ⟨.empty, rfl⟩
  · exact Nat.zero_le capacity

/-- A cancelled entry that is still queued has a second one let in beside it. -/
theorem physical_exceeds_capacity :
    ¬ ∀ (capacity : Nat) (calls : List (Call Unit)),
      (rust Unit capacity).Throughout (fun s => s.buckets.physical ≤ capacity)
        (rust Unit capacity).init calls := by
  intro hbounded
  let a : ScheduledRequest Unit := ⟨⟨"a"⟩, .normal, 0, ()⟩
  let b : ScheduledRequest Unit := ⟨⟨"b"⟩, .normal, 0, ()⟩
  have htwo := hbounded 1 [.submit a, .cancel ⟨"a"⟩, .submit b] _ [] _ _
    (List.append_nil _).symm rfl
  revert htwo
  decide

/-! ## Bookkeeping sets -/

/-- What the sets are to say of the queues. -/
structure Exact (s : Scheduler P) : Prop where
  known : ∀ id, id ∈ s.buckets.known ↔ s.buckets.Queued id
  cancelled : s.buckets.cancelled ⊆ s.buckets.known
  notFound : s.shuttingDown = false → ∀ id,
    (s.cancel id).1 = .error (.notFound id) ↔ ¬ s.buckets.Queued id
  /-- the subtraction in `len` does not saturate -/
  counted : s.buckets.cancelled.card ≤ s.buckets.physical

/-- No id that the next `pop_next` takes off has a further entry behind.  It takes the
entries up to the first that is not cancelled, or whose tombstone an entry in front of it
uses up. -/
def Buckets.Detached (b : Buckets P) : Prop :=
  ∀ pre x post, b.order = pre ++ x :: post → (pre.map ScheduledRequest.id).Nodup →
    (∀ y ∈ pre, y.id ∈ b.cancelled) → (x.id ∈ b.cancelled → ∃ y ∈ pre, y.id = x.id) →
      ∀ y ∈ pre ++ [x], ∀ z ∈ post, y.id ≠ z.id

/-- A pop leaves no entry of an id it takes off. -/
def Sweeps (s : Scheduler P) (c : Call P) : Prop := c = .nextBlocking → s.buckets.Detached

theorem Scheduler.cancel_notFound (s : Scheduler P) (hopen : s.shuttingDown = false)
    (id : RequestId) : (s.cancel id).1 = .error (.notFound id) ↔ id ∉ s.buckets.known := by
  unfold Scheduler.cancel
  rw [if_neg (by simp [hopen])]
  split
  · next hknown => simp [hknown]
  · next hknown => simp [hknown]

/-- With every id of the sets covered, they are exact once every id queued is in them. -/
theorem exact_iff {s : Scheduler P} (hcovered : s.buckets.Covered) :
    Exact s ↔ ∀ x ∈ s.buckets.order, x.id ∈ s.buckets.known := by
  constructor
  · intro h x hx
    exact (h.known x.id).mpr ⟨x, hx, rfl⟩
  · intro h
    have hknown : ∀ id, id ∈ s.buckets.known ↔ s.buckets.Queued id := by
      intro id
      constructor
      · exact hcovered id
      · rintro ⟨x, hx, rfl⟩
        exact h x hx
    refine ⟨hknown, s.buckets.cancelledKnown, ?_, hcovered.cancelled_le⟩
    intro hopen id
    rw [s.cancel_notFound hopen, hknown]

/-- A pop leaves every entry's id known exactly if what it takes off leaves no entry of the
same id behind. -/
theorem Buckets.known_popNext_iff {b : Buckets P} (hknown : ∀ x ∈ b.order, x.id ∈ b.known) :
    (∀ x ∈ b.popNext.2.order, x.id ∈ b.popNext.2.known) ↔ b.Detached := by
  obtain ⟨skipped, htaken⟩ := b.popNext_taken
  have hleft : ∀ z ∈ b.popNext.2.order, z.id ∈ b.popNext.2.known ↔
      ∀ y ∈ skipped ++ b.popNext.1.toList, y.id ≠ z.id := by
    intro z hz
    have hmem : z ∈ b.order := by
      rw [htaken.split]
      exact List.mem_append_right _ hz
    rw [htaken.known z.id]
    exact ⟨fun h => h.2, fun h => ⟨hknown z hmem, h⟩⟩
  obtain ⟨hout, horder, hmarks⟩ := b.popNext_eq
  constructor
  · intro hkept pre x post hsplit hnodup hburied hx y hy z hz
    obtain ⟨hstop, hrest⟩ := popLive_stops ScheduledRequest.id x post pre b.toTombstones
      hnodup hburied hx
    rw [← hsplit, ← hout] at hstop
    rw [← hsplit, ← horder] at hrest
    have hskipped : skipped = pre := by
      have hboth := htaken.split.symm.trans hsplit
      rw [hstop, hrest, Option.toList_some, List.append_assoc, List.singleton_append] at hboth
      exact List.append_cancel_right hboth
    have hzrest : z ∈ b.popNext.2.order := hrest ▸ hz
    have hapart := (hleft z hzrest).mp (hkept z hzrest)
    rw [hstop, hskipped, Option.toList_some] at hapart
    exact hapart y hy
  · intro hdetached z hz
    rw [hleft z hz]
    cases hitem : b.popNext.1 with
    | none =>
        rw [htaken.drained hitem] at hz
        cases hz
    | some x =>
        have hsplit := htaken.split
        rw [hitem, Option.toList_some, List.append_assoc, List.singleton_append] at hsplit
        have hbelow : (skipped.map ScheduledRequest.id : Multiset RequestId)
            ≤ b.cancelled.val := htaken.tombstones ▸ Multiset.le_add_right _ _
        have hnodup : (skipped.map ScheduledRequest.id).Nodup :=
          Multiset.coe_nodup.mp (Multiset.nodup_of_le hbelow b.cancelled.nodup)
        have hburied : ∀ y ∈ skipped, y.id ∈ b.cancelled := by
          intro y hy
          exact Multiset.mem_of_le hbelow (Multiset.mem_coe.mpr (List.mem_map_of_mem hy))
        have hcleared : x.id ∉ b.popNext.2.cancelled := by
          have h := popLive_cleared ScheduledRequest.id b.order b.toTombstones
            (hout.symm.trans hitem)
          rwa [← hmarks] at h
        have hused : x.id ∈ b.cancelled → ∃ y ∈ skipped, y.id = x.id := by
          intro hx
          have hboth : x.id ∈ (skipped.map ScheduledRequest.id : Multiset RequestId)
              + b.popNext.2.cancelled.val := htaken.tombstones ▸ hx
          rcases Multiset.mem_add.mp hboth with hmem | hmem
          · exact List.mem_map.mp (Multiset.mem_coe.mp hmem)
          · exact absurd hmem hcleared
        intro y hy
        exact hdetached skipped x _ hsplit hnodup hburied hused y hy z hz

/-- A call keeps the sets exact exactly if it meets the condition. -/
theorem Moves.exact_iff {s s' : Scheduler P} {c : Call P} (hmove : Moves s c s')
    (hcovered : s.buckets.Covered) (hexact : Exact s) : Exact s' ↔ Sweeps s c := by
  have hknown := (Scheduling.exact_iff hcovered).mp hexact
  rw [Scheduling.exact_iff (hmove.covered hcovered).1]
  cases hmove with
  | @accepted req hopen hroom =>
      refine iff_of_true ?_ fun hc => nomatch hc
      intro x hx
      change x.id ∈ (s.buckets.push req).known
      rw [Buckets.known_push, Finset.mem_insert]
      rcases (s.buckets.mem_order_push req x).mp hx with hold | rfl
      · exact .inr (hknown x hold)
      · exact .inl rfl
  | refused hfull => exact iff_of_true hknown fun hc => nomatch hc
  | marked hmark => exact iff_of_true hknown fun hc => nomatch hc
  | unmarked => exact iff_of_true hknown fun hc => nomatch hc
  | popped =>
      rw [Buckets.known_popNext_iff hknown]
      exact ⟨fun h _ => h, fun h => h rfl⟩
  | counted => exact iff_of_true hknown fun hc => nomatch hc
  | shutDown => exact iff_of_true hknown fun hc => nomatch hc

/-- The sets are exact in every state of a run exactly if no pop of the run takes an entry
off in front of another one of the same id. -/
theorem bookkeeping_exact_iff (capacity : Nat) (calls : List (Call P)) :
    (rust P capacity).Throughout Exact (rust P capacity).init calls ↔
      (rust P capacity).Meets Sweeps (rust P capacity).init calls := by
  apply Machine.throughout_iff_meets (J := fun s : Scheduler P => s.buckets.Covered)
  · intro s c as s' hcovered hexact hstep
    have hmove := rust_moves hstep
    exact ⟨(hmove.covered hcovered).1, hmove.exact_iff hcovered hexact⟩
  · exact .empty
  · exact (exact_iff .empty).mpr fun x hx => nomatch hx

/-- An id queued twice and popped once is queued, and not known. -/
theorem bookkeeping_forgets :
    ¬ ∀ (capacity : Nat) (calls : List (Call Unit)),
      (rust Unit capacity).Throughout Exact (rust Unit capacity).init calls := by
  intro hexact
  let a : ScheduledRequest Unit := ⟨⟨"a"⟩, .normal, 0, ()⟩
  have hlost := hexact 2 [.submit a, .submit a, .nextBlocking] _ [] _ _
    (List.append_nil _).symm rfl
  have hknown := (hlost.known ⟨"a"⟩).mpr ⟨a, by decide, rfl⟩
  revert hknown
  decide

end Repercep.Scheduling
