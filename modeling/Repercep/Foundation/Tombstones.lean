import Mathlib.Data.Finset.Card
import Mathlib.Data.Finset.Image
import Mathlib.Data.Multiset.AddSub
set_option autoImplicit false

/-!
# Queues with lazy deletion

A FIFO queue from whose middle nothing is ever taken: deleting a key only leaves
a tombstone for it, and reading the queue skips the items whose tombstone it
meets, clearing it on the way.  With distinct keys, such a queue reads as the list
of its live items.
-/

namespace Repercep.Foundation

variable {α κ : Type} [DecidableEq κ]

/-- The keys a lazy queue knows of, and those among them that are deleted. -/
structure Tombstones (κ : Type) where
  known : Finset κ
  cancelled : Finset κ
  cancelledKnown : cancelled ⊆ known

namespace Tombstones

/-- No key is known. -/
def empty (κ : Type) : Tombstones κ where
  known := ∅
  cancelled := ∅
  cancelledKnown := fun _ h => h

/-- Learn a key. -/
def learn (t : Tombstones κ) (k : κ) : Tombstones κ where
  known := insert k t.known
  cancelled := t.cancelled
  cancelledKnown := fun _ h => Finset.mem_insert_of_mem (t.cancelledKnown h)

/-- Leave a tombstone for a known key. -/
def bury (t : Tombstones κ) (k : κ) (hk : k ∈ t.known) : Tombstones κ where
  known := t.known
  cancelled := insert k t.cancelled
  cancelledKnown := Finset.insert_subset hk t.cancelledKnown

/-- Forget a key and its tombstone. -/
def release (t : Tombstones κ) (k : κ) : Tombstones κ where
  known := t.known.erase k
  cancelled := t.cancelled.erase k
  cancelledKnown := Finset.erase_subset_erase k t.cancelledKnown

section Fields

variable (t : Tombstones κ) (k j : κ)

@[simp] theorem mem_known_learn : j ∈ (t.learn k).known ↔ j = k ∨ j ∈ t.known :=
  Finset.mem_insert
@[simp] theorem cancelled_learn : (t.learn k).cancelled = t.cancelled := rfl
@[simp] theorem known_bury (hk : k ∈ t.known) : (t.bury k hk).known = t.known := rfl
@[simp] theorem mem_cancelled_bury (hk : k ∈ t.known) :
    j ∈ (t.bury k hk).cancelled ↔ j = k ∨ j ∈ t.cancelled := Finset.mem_insert
@[simp] theorem mem_known_release : j ∈ (t.release k).known ↔ j ≠ k ∧ j ∈ t.known :=
  Finset.mem_erase
@[simp] theorem mem_cancelled_release :
    j ∈ (t.release k).cancelled ↔ j ≠ k ∧ j ∈ t.cancelled := Finset.mem_erase

end Fields

end Tombstones

/-- The items of a queue without a tombstone, in order. -/
def liveItems (key : α → κ) (t : Tombstones κ) (q : List α) : List α :=
  q.filter (fun x => key x ∉ t.cancelled)

/-- Take the first item without a tombstone.  Every item taken off, skipped or
returned, releases its key. -/
def popLive (key : α → κ) (t : Tombstones κ) : List α → Option α × List α × Tombstones κ
  | [] => (none, [], t)
  | x :: q =>
      if key x ∈ t.cancelled then popLive key (t.release (key x)) q
      else (some x, q, t.release (key x))

/-- What one read does: it takes a prefix of buried items and then at most one
live item off the queue, and releases exactly their keys. -/
structure Popped (key : α → κ) (t : Tombstones κ) (q : List α) (out : Option α)
    (rest : List α) (t' : Tombstones κ) (skipped : List α) : Prop where
  split : q = skipped ++ out.toList ++ rest
  buried : ∀ x ∈ skipped, key x ∈ t.cancelled
  live : ∀ x, out = some x → key x ∉ t.cancelled
  drained : out = none → rest = []
  cancelled : ∀ k, k ∈ t'.cancelled ↔ k ∈ t.cancelled ∧ ∀ x ∈ skipped, key x ≠ k
  known : ∀ k, k ∈ t'.known ↔ k ∈ t.known ∧ ∀ x ∈ skipped ++ out.toList, key x ≠ k

theorem popLive_popped (key : α → κ) :
    ∀ (q : List α) (t : Tombstones κ), (q.map key).Nodup →
      ∃ skipped, Popped key t q (popLive key t q).1 (popLive key t q).2.1
        (popLive key t q).2.2 skipped := by
  intro q
  induction q with
  | nil =>
      intro t _
      exact ⟨[], by simp [popLive], by simp, by simp [popLive], by simp [popLive],
        by simp [popLive], by simp [popLive]⟩
  | cons x q ih =>
      intro t hnodup
      rw [List.map_cons, List.nodup_cons] at hnodup
      obtain ⟨hfresh, hnodup⟩ := hnodup
      have hne : ∀ y ∈ q, key y ≠ key x := by
        intro y hy heq
        exact hfresh (heq ▸ List.mem_map_of_mem hy)
      by_cases hx : key x ∈ t.cancelled
      · obtain ⟨skipped, hpop⟩ := ih (t.release (key x)) hnodup
        simp only [popLive, hx, if_true]
        refine ⟨x :: skipped, ?_, ?_, ?_, hpop.drained, ?_, ?_⟩
        · rw [List.cons_append, List.cons_append, ← hpop.split]
        · intro y hy
          rcases List.mem_cons.mp hy with rfl | hy
          · exact hx
          · exact ((t.mem_cancelled_release _ _).mp (hpop.buried y hy)).2
        · intro y hy hcancelled
          have hmem : y ∈ q := by
            rw [hpop.split, hy]
            simp
          exact hpop.live y hy ((t.mem_cancelled_release _ _).mpr ⟨hne y hmem, hcancelled⟩)
        · intro k
          rw [hpop.cancelled k, t.mem_cancelled_release]
          simp only [List.mem_cons, forall_eq_or_imp]
          constructor
          · rintro ⟨⟨hk, hcancelled⟩, hskipped⟩
            exact ⟨hcancelled, Ne.symm hk, hskipped⟩
          · rintro ⟨hcancelled, hk, hskipped⟩
            exact ⟨⟨Ne.symm hk, hcancelled⟩, hskipped⟩
        · intro k
          rw [hpop.known k, t.mem_known_release]
          simp only [List.cons_append, List.mem_cons, forall_eq_or_imp]
          constructor
          · rintro ⟨⟨hk, hknown⟩, htaken⟩
            exact ⟨hknown, Ne.symm hk, htaken⟩
          · rintro ⟨hknown, hk, htaken⟩
            exact ⟨⟨Ne.symm hk, hknown⟩, htaken⟩
      · simp only [popLive, hx, if_false]
        refine ⟨[], by simp, by simp, ?_, by simp, ?_, ?_⟩
        · intro y hy
          cases hy
          exact hx
        · intro k
          rw [t.mem_cancelled_release]
          constructor
          · rintro ⟨-, hk⟩
            exact ⟨hk, by simp⟩
          · rintro ⟨hk, -⟩
            refine ⟨?_, hk⟩
            rintro rfl
            exact hx hk
        · intro k
          rw [t.mem_known_release]
          simp [and_comm, eq_comm]

/-- What one read takes off a queue, whether or not a key is queued twice: skipped items
and at most one more, each skipped item for one tombstone. -/
structure Taken (key : α → κ) (t : Tombstones κ) (q : List α) (out : Option α)
    (rest : List α) (t' : Tombstones κ) (skipped : List α) : Prop where
  split : q = skipped ++ out.toList ++ rest
  drained : out = none → rest = []
  known : ∀ k, k ∈ t'.known ↔ k ∈ t.known ∧ ∀ x ∈ skipped ++ out.toList, key x ≠ k
  tombstones : (skipped.map key : Multiset κ) + t'.cancelled.val = t.cancelled.val

theorem popLive_taken (key : α → κ) :
    ∀ (q : List α) (t : Tombstones κ),
      ∃ skipped, Taken key t q (popLive key t q).1 (popLive key t q).2.1
        (popLive key t q).2.2 skipped := by
  intro q
  induction q with
  | nil => exact fun t => ⟨[], by simp [popLive], by simp [popLive], by simp [popLive],
      by simp [popLive]⟩
  | cons x q ih =>
      intro t
      by_cases hx : key x ∈ t.cancelled
      · obtain ⟨skipped, htaken⟩ := ih (t.release (key x))
        simp only [popLive, hx, if_true]
        refine ⟨x :: skipped, ?_, htaken.drained, ?_, ?_⟩
        · rw [List.cons_append, List.cons_append, ← htaken.split]
        · intro k
          rw [htaken.known k, t.mem_known_release]
          simp only [List.cons_append, List.mem_cons, forall_eq_or_imp, ne_comm (a := k)]
          tauto
        · have herase : (t.release (key x)).cancelled.val = t.cancelled.val.erase (key x) :=
            Finset.erase_val _ _
          have hrest := htaken.tombstones
          rw [herase] at hrest
          rw [List.map_cons, ← Multiset.cons_coe, Multiset.cons_add, hrest]
          exact Multiset.cons_erase hx
      · simp only [popLive, hx, if_false]
        refine ⟨[], by simp, by simp, ?_, ?_⟩
        · intro k
          rw [t.mem_known_release]
          simp [and_comm, eq_comm]
        · have herase : (t.release (key x)).cancelled = t.cancelled :=
            Finset.erase_eq_of_notMem hx
          rw [herase]
          simp

/-- Reading two queues one after the other is reading them as one. -/
theorem popLive_append (key : α → κ) (r : List α) :
    ∀ (q : List α) (t : Tombstones κ),
      popLive key t (q ++ r) =
        match popLive key t q with
        | (some x, rest, t') => (some x, rest ++ r, t')
        | (none, _, t') => popLive key t' r := by
  intro q
  induction q with
  | nil => exact fun t => rfl
  | cons x q ih =>
      intro t
      by_cases hx : key x ∈ t.cancelled
      · simp only [List.cons_append, popLive, hx, if_true]
        exact ih (t.release (key x))
      · simp only [List.cons_append, popLive, hx, if_false]

/-- The tombstone of what a read returns is gone afterwards. -/
theorem popLive_cleared (key : α → κ) {x : α} :
    ∀ (q : List α) (t : Tombstones κ), (popLive key t q).1 = some x →
      key x ∉ (popLive key t q).2.2.cancelled := by
  intro q
  induction q with
  | nil =>
      intro t h
      cases h
  | cons y q ih =>
      intro t h
      by_cases hy : key y ∈ t.cancelled
      · simp only [popLive, hy, if_true] at h ⊢
        exact ih (t.release (key y)) h
      · simp only [popLive, hy, if_false, Option.some.injEq] at h ⊢
        subst h
        simp

/-- Where a read stops: at the first item that has no tombstone, or whose only tombstone
an item in front of it has used. -/
theorem popLive_stops (key : α → κ) (x : α) (post : List α) :
    ∀ (pre : List α) (t : Tombstones κ), (pre.map key).Nodup →
      (∀ y ∈ pre, key y ∈ t.cancelled) → (key x ∈ t.cancelled → ∃ y ∈ pre, key y = key x) →
        (popLive key t (pre ++ x :: post)).1 = some x ∧
          (popLive key t (pre ++ x :: post)).2.1 = post := by
  intro pre
  induction pre with
  | nil =>
      intro t _ _ hx
      have hfree : key x ∉ t.cancelled := by
        intro hmem
        obtain ⟨y, hy, -⟩ := hx hmem
        cases hy
      simp only [List.nil_append, popLive, hfree, if_false, and_self]
  | cons z pre ih =>
      intro t hnodup hburied hx
      rw [List.map_cons, List.nodup_cons] at hnodup
      have hz : key z ∈ t.cancelled := hburied z List.mem_cons_self
      simp only [List.cons_append, popLive, hz, if_true]
      apply ih (t.release (key z)) hnodup.2
      · intro y hy
        have hne : key y ≠ key z := fun heq => hnodup.1 (heq ▸ List.mem_map_of_mem hy)
        exact (t.mem_cancelled_release _ _).mpr ⟨hne, hburied y (List.mem_cons_of_mem z hy)⟩
      · intro hmem
        obtain ⟨hne, hold⟩ := (t.mem_cancelled_release _ _).mp hmem
        obtain ⟨y, hy, heq⟩ := hx hold
        rcases List.mem_cons.mp hy with rfl | hpre
        · exact absurd heq.symm hne
        · exact ⟨y, hpre, heq⟩

/-- A read learns no key. -/
theorem known_popLive_subset (key : α → κ) (q : List α) (t : Tombstones κ) :
    (popLive key t q).2.2.known ⊆ t.known := by
  intro k hk
  obtain ⟨skipped, htaken⟩ := popLive_taken key q t
  exact ((htaken.known k).mp hk).1

omit [DecidableEq κ] in
theorem Popped.keys_rest {key : α → κ} {t t' : Tombstones κ} {q rest skipped : List α}
    {out : Option α} (hpop : Popped key t q out rest t' skipped)
    (hnodup : (q.map key).Nodup) : (rest.map key).Nodup := by
  rw [hpop.split, List.map_append] at hnodup
  exact hnodup.of_append_right

/-- A read returns the first live item and leaves the others. -/
theorem Popped.liveItems_eq {key : α → κ} {t t' : Tombstones κ} {q rest skipped : List α}
    {out : Option α} (hpop : Popped key t q out rest t' skipped)
    (hnodup : (q.map key).Nodup) :
    liveItems key t q = out.toList ++ liveItems key t' rest := by
  have hskipped : skipped.filter (fun x => key x ∉ t.cancelled) = [] := by
    rw [List.filter_eq_nil_iff]
    intro x hx
    simpa using hpop.buried x hx
  have hout : out.toList.filter (fun x => key x ∉ t.cancelled) = out.toList := by
    rw [List.filter_eq_self]
    intro x hx
    simpa using hpop.live x (Option.mem_toList.mp hx)
  have hrest : rest.filter (fun x => key x ∉ t.cancelled) = liveItems key t' rest := by
    apply List.filter_congr
    intro x hx
    rw [hpop.split, List.map_append, List.map_append] at hnodup
    have hother : ∀ y ∈ skipped, key y ≠ key x := by
      intro y hy heq
      have hleft : key y ∈ skipped.map key ++ out.toList.map key :=
        List.mem_append_left _ (List.mem_map_of_mem hy)
      have hright : key y ∈ rest.map key := heq ▸ List.mem_map_of_mem hx
      exact (List.disjoint_of_nodup_append hnodup) hleft hright
    have hsame : key x ∈ t'.cancelled ↔ key x ∈ t.cancelled := by
      rw [hpop.cancelled]
      exact ⟨fun h => h.1, fun h => ⟨h, hother⟩⟩
    simp [hsame]
  rw [liveItems, hpop.split, List.filter_append, List.filter_append, hskipped, hout, hrest,
    List.nil_append]

/-- Tombstones of other queues do not matter to a queue they have no key in. -/
theorem liveItems_congr {key : α → κ} {t t' : Tombstones κ} {q : List α}
    (h : ∀ x ∈ q, key x ∈ t'.cancelled ↔ key x ∈ t.cancelled) :
    liveItems key t' q = liveItems key t q := by
  apply List.filter_congr
  intro x hx
  simp [h x hx]

theorem liveItems_append (key : α → κ) (t : Tombstones κ) (q r : List α) :
    liveItems key t (q ++ r) = liveItems key t q ++ liveItems key t r :=
  List.filter_append ..

/-- Counting slots minus tombstones counts the live items, when no key is queued
twice and every tombstone has a slot. -/
theorem length_liveItems {key : α → κ} {t : Tombstones κ} {q : List α}
    (hnodup : (q.map key).Nodup) (hslots : ∀ k ∈ t.cancelled, ∃ x ∈ q, key x = k) :
    q.length - t.cancelled.card = (liveItems key t q).length := by
  have hburied : (q.filter (fun x => key x ∈ t.cancelled)).length = t.cancelled.card := by
    have hdistinct : ((q.filter (fun x => key x ∈ t.cancelled)).map key).Nodup :=
      hnodup.sublist (List.Sublist.map key List.filter_sublist)
    have hkeys : ((q.filter (fun x => key x ∈ t.cancelled)).map key).toFinset =
        t.cancelled := by
      ext k
      simp only [List.mem_toFinset, List.mem_map, List.mem_filter, decide_eq_true_eq]
      constructor
      · rintro ⟨x, ⟨-, hx⟩, rfl⟩
        exact hx
      · intro hk
        obtain ⟨x, hx, rfl⟩ := hslots k hk
        exact ⟨x, ⟨hx, hk⟩, rfl⟩
    rw [← List.length_map (f := key), ← List.toFinset_card_of_nodup hdistinct, hkeys]
  have hsplit := List.length_eq_length_filter_add (l := q)
    (fun x => decide (key x ∈ t.cancelled))
  have hlive : (liveItems key t q) = q.filter (fun x => !decide (key x ∈ t.cancelled)) := by
    apply List.filter_congr
    intro x _
    simp
  rw [hlive, hsplit, hburied]
  omega

end Repercep.Foundation
