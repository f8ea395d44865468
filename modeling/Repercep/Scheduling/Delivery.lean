import Repercep.Scheduling.Bookkeeping
set_option autoImplicit false

/-!
# Scheduler: what comes out went in

Every item that `next_blocking` hands out is one that was submitted, with its payload.  The
argument is the same for the Rust scheduler and for the Python one: only `submit` adds to
what is held, and only what is held is handed out.
-/

namespace Repercep.Scheduling

open Repercep.Foundation

variable {P σ : Type}

/-- An item that one of the calls submits. -/
def Submitted (calls : List (Call P)) (item : Item P) : Prop :=
  ∃ req, .submit req ∈ calls ∧ req.item = item

/-- Under the calls, the scheduler holds and hands out what was submitted. -/
structure HandsOut (M : Machine σ (Call P) (Answer P)) (held : σ → Item P → Prop) : Prop where
  init : ∀ item, ¬ held M.init item
  keeps : ∀ s c as s' item, M.step s c = some (as, s') → held s' item →
    held s item ∨ Submitted [c] item
  delivers : ∀ s c as s' item, M.step s c = some (as, s') → .delivered (some item) ∈ as →
    held s item

/-- Whatever is handed out was submitted. -/
theorem HandsOut.submitted {M : Machine σ (Call P) (Answer P)} {held : σ → Item P → Prop}
    (hM : HandsOut M held) {calls : List (Call P)} {as : List (Answer P)} {s : σ}
    (hrun : M.run M.init calls = some (as, s)) {item : Item P}
    (hitem : .delivered (some item) ∈ as) : Submitted calls item := by
  refine (Machine.history_reachable (C := fun _ c => c ∈ calls)
    (H := fun as s => (∀ item, held s item → Submitted calls item) ∧
      ∀ item, .delivered (some item) ∈ as → Submitted calls item)
    ⟨fun item h => absurd h (hM.init item), fun item h => nomatch h⟩ ?_
    (Machine.meets_of_forall fun c hc _ => hc) hrun).2 item hitem
  rintro as s c as' s' ⟨hheld, hout⟩ hc hstep
  refine ⟨fun item hs' => ?_, fun item hin => ?_⟩
  · rcases hM.keeps s c as' s' item hstep hs' with hs | ⟨req, hreq, rfl⟩
    · exact hheld item hs
    · exact ⟨req, List.mem_singleton.mp hreq ▸ hc, rfl⟩
  · rcases List.mem_append.mp hin with hbefore | hnow
    · exact hout item hbefore
    · exact hheld item (hM.delivers s c as' s' item hstep hnow)

/-- Whatever the calls are, an item all of whose submissions carry the payload comes out
with one that satisfies the property. -/
def Returns (M : Machine σ (Call P) (Answer P)) (payload : P) (Q : P → Prop) : Prop :=
  ∀ calls as s item, M.run M.init calls = some (as, s) → .delivered (some item) ∈ as →
    (∀ req, .submit req ∈ calls → req.id = item.id → req.payload = payload) → Q item.payload

/-- The payload comes out as it went in. -/
theorem HandsOut.returns {M : Machine σ (Call P) (Answer P)} {held : σ → Item P → Prop}
    (hM : HandsOut M held) {payload : P} {Q : P → Prop} (hQ : Q payload) :
    Returns M payload Q := by
  intro calls as s item hrun hitem hpayload
  obtain ⟨req, hreq, rfl⟩ := hM.submitted hrun hitem
  have hsame : req.item.payload = payload := hpayload req hreq rfl
  rw [hsame]
  exact hQ

/-! ## The Rust scheduler -/

/-- The buckets hold a request that gives the item. -/
def Scheduler.Held (s : Scheduler P) (item : Item P) : Prop :=
  ∃ req ∈ s.buckets.order, req.item = item

theorem Buckets.order_popNext_subset (b : Buckets P) {req : ScheduledRequest P}
    (h : req ∈ b.popNext.2.order) : req ∈ b.order := by
  obtain ⟨skipped, htaken⟩ := b.popNext_taken
  rw [htaken.split]
  exact List.mem_append_right _ h

theorem Buckets.mem_order_of_popNext (b : Buckets P) {req : ScheduledRequest P}
    (h : b.popNext.1 = some req) : req ∈ b.order := by
  obtain ⟨skipped, htaken⟩ := b.popNext_taken
  rw [htaken.split, h]
  simp

theorem Moves.held {s s' : Scheduler P} {c : Call P} (hmove : Moves s c s') {item : Item P}
    (h : s'.Held item) : s.Held item ∨ Submitted [c] item := by
  obtain ⟨req, hreq, rfl⟩ := h
  cases hmove with
  | accepted hopen hroom =>
      rcases (s.buckets.mem_order_push _ req).mp hreq with hold | rfl
      · exact .inl ⟨req, hold, rfl⟩
      · exact .inr ⟨req, List.mem_singleton_self _, rfl⟩
  | refused hfull => exact .inl ⟨req, hreq, rfl⟩
  | marked hknown => exact .inl ⟨req, hreq, rfl⟩
  | unmarked => exact .inl ⟨req, hreq, rfl⟩
  | popped => exact .inl ⟨req, s.buckets.order_popNext_subset hreq, rfl⟩
  | counted => exact .inl ⟨req, hreq, rfl⟩
  | shutDown => exact .inl ⟨req, hreq, rfl⟩

/-- A poll hands out what `pop_next` finds. -/
theorem Scheduler.poll_eq_item {s : Scheduler P} {req : ScheduledRequest P}
    (h : s.poll.1 = .item req) : s.buckets.popNext.1 = some req := by
  unfold Scheduler.poll at h
  split at h
  · next popped b hpop =>
      cases h
      rw [hpop]
  · dsimp only at h
    split at h <;> cases h

theorem Scheduler.delivered_held {s : Scheduler P} {c : Call P} {item : Item P}
    (h : (s.answer c).1 = .delivered (some item)) : s.Held item := by
  cases c with
  | nextBlocking =>
      simp only [Scheduler.answer, Answer.delivered.injEq] at h
      cases hpoll : s.poll.1 with
      | item req =>
          rw [hpoll] at h
          cases h
          exact ⟨req, s.buckets.mem_order_of_popNext (Scheduler.poll_eq_item hpoll), rfl⟩
      | drained =>
          rw [hpoll] at h
          cases h
      | waiting =>
          rw [hpoll] at h
          cases h
  | submit req => cases h
  | cancel id => cases h
  | len => cases h
  | shutdown => cases h

theorem rust_handsOut (capacity : Nat) : HandsOut (rust P capacity) Scheduler.Held where
  init := by
    rintro item ⟨req, hreq, -⟩
    cases hreq
  keeps := fun _ _ _ _ _ hstep h => (rust_moves hstep).held h
  delivers := by
    intro s c as s' item hstep hin
    cases hstep
    exact Scheduler.delivered_held (List.mem_singleton.mp hin).symm

/-! ## The Python scheduler -/

namespace PythonScheduler

/-- One of the queues holds the item. -/
def Held (s : PythonScheduler P) (item : Item P) : Prop := ∃ p, item ∈ s.queues p

/-- After a change of one queue an item is in the new queue or where it was. -/
theorem held_update {queues : Priority → List (Item P)} {p q : Priority} {items : List (Item P)}
    {item : Item P} (h : item ∈ Function.update queues p items q) :
    item ∈ items ∨ item ∈ queues q := by
  by_cases hq : q = p
  · subst hq
    rw [Function.update_self] at h
    exact .inl h
  · rw [Function.update_of_ne hq] at h
    exact .inr h

theorem popNextFrom_held (s : PythonScheduler P) (ps : List Priority) :
    (∀ item, (s.popNextFrom ps).2.Held item → s.Held item) ∧
      ∀ item, (s.popNextFrom ps).1 = some item → s.Held item := by
  induction ps with
  | nil => exact ⟨fun _ h => h, fun _ h => nomatch h⟩
  | cons p ps ih =>
      unfold popNextFrom
      cases hqueue : s.queues p with
      | nil => exact ih
      | cons first rest =>
          refine ⟨?_, ?_⟩
          · rintro item ⟨q, hq⟩
            rcases held_update hq with hrest | hother
            · exact ⟨p, hqueue ▸ List.mem_cons_of_mem first hrest⟩
            · exact ⟨q, hother⟩
          · intro item hitem
            cases hitem
            exact ⟨p, hqueue ▸ List.mem_cons_self⟩

theorem submit_held {s : PythonScheduler P} {req : ScheduledRequest P} {item : Item P}
    (h : (s.submit req).2.Held item) : s.Held item ∨ Submitted [.submit req] item := by
  unfold submit at h
  split at h
  · exact .inl h
  · split at h
    · exact .inl h
    · obtain ⟨p, hp⟩ := h
      rcases held_update hp with hqueue | hother
      · rcases List.mem_append.mp hqueue with hold | hnew
        · exact .inl ⟨_, hold⟩
        · exact .inr ⟨req, List.mem_singleton_self _, (List.mem_singleton.mp hnew).symm⟩
      · exact .inl ⟨p, hother⟩

theorem cancel_held {s : PythonScheduler P} {id : RequestId} {item : Item P}
    (h : (s.cancel id).2.Held item) : s.Held item := by
  unfold cancel at h
  split at h
  · exact h
  · split at h
    · exact h
    · split at h
      · next p hholder =>
          obtain ⟨q, hq⟩ := h
          rcases held_update hq with hrest | hother
          · exact ⟨p, List.mem_of_mem_eraseP hrest⟩
          · exact ⟨q, hother⟩
      · exact h

end PythonScheduler

theorem python_handsOut (capacity : Nat) (h : 1 ≤ capacity) :
    HandsOut (python P capacity h) PythonScheduler.Held where
  init := by
    rintro item ⟨p, hp⟩
    cases hp
  keeps := by
    intro s c as s' item hstep hs'
    cases hstep
    cases c with
    | submit req => exact PythonScheduler.submit_held hs'
    | cancel id => exact .inl (PythonScheduler.cancel_held hs')
    | nextBlocking => exact .inl ((s.popNextFrom_held PythonScheduler.priorities).1 item hs')
    | len => exact .inl hs'
    | shutdown => exact .inl hs'
  delivers := by
    intro s c as s' item hstep hin
    cases hstep
    cases c with
    | nextBlocking =>
        have hout := (Answer.delivered.inj (List.mem_singleton.mp hin)).symm
        exact (s.popNextFrom_held PythonScheduler.priorities).2 item hout
    | submit req => cases List.mem_singleton.mp hin
    | cancel id => cases List.mem_singleton.mp hin
    | len => cases List.mem_singleton.mp hin
    | shutdown => cases List.mem_singleton.mp hin

/-! ## A request alone -/

/-- A request submitted to a fresh scheduler is handed out. -/
theorem rust_delivers (req : ScheduledRequest P) :
    ∃ s, (rust P 1).run (rust P 1).init [.submit req, .nextBlocking] =
      some ([.submitted req.id (.ok ()), .delivered (some req.item)], s) := by
  rcases req with ⟨id, priority, submittedAt, payload⟩
  cases priority <;> exact ⟨_, rfl⟩

/-- What is returned of a payload holds of it. -/
theorem of_returns_rust {payload : P} {Q : P → Prop} (h : Returns (rust P 1) payload Q) :
    Q payload := by
  let req : ScheduledRequest P := ⟨⟨""⟩, .normal, 0, payload⟩
  obtain ⟨s, hrun⟩ := rust_delivers req
  refine h _ _ s req.item hrun ?_ ?_
  · exact List.mem_cons_of_mem _ (List.mem_singleton_self _)
  · intro other hother _
    rcases List.mem_cons.mp hother with heq | hrest
    · cases heq
      rfl
    · cases List.mem_singleton.mp hrest

end Repercep.Scheduling
