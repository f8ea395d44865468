import Mathlib.Data.List.Nodup
import Mathlib.Data.Nat.Basic
import Mathlib.Order.Lattice
set_option autoImplicit false

/-!
# Two maps with an order of iteration

A map that iterates over its entries in the order of the keys, and one that iterates in
the order in which its keys were inserted.  They hold the same entries in the same order
as long as every key inserted is greater than all keys present.
-/

namespace Repercep.Foundation

variable {κ β : Type}

/-! ## Lists of entries -/

/-- The entries without those of a key. -/
def eraseEntry [DecidableEq κ] (k : κ) (l : List (κ × β)) : List (κ × β) :=
  l.filter fun e => e.1 ≠ k

/-- The entries, the value of one key changed in place. -/
def adjustEntry [DecidableEq κ] (k : κ) (f : β → β) (l : List (κ × β)) : List (κ × β) :=
  l.map fun e => if e.1 = k then (e.1, f e.2) else e

/-- Insertion at the place of the key, over the entry the key may have. -/
def placeEntry [LinearOrder κ] (k : κ) (v : β) : List (κ × β) → List (κ × β)
  | [] => [(k, v)]
  | e :: l =>
      if k < e.1 then (k, v) :: e :: l
      else if k = e.1 then (k, v) :: l
      else e :: placeEntry k v l

/-- Assignment to a key: in place when there is an entry for it, at the end when not. -/
def assignEntry [DecidableEq κ] (k : κ) (v : β) : List (κ × β) → List (κ × β)
  | [] => [(k, v)]
  | e :: l => if e.1 = k then (k, v) :: l else e :: assignEntry k v l

section Lists

variable [DecidableEq κ] {k : κ} {v : β} {l : List (κ × β)}

theorem assignEntry_cons (k : κ) (v : β) (e : κ × β) (l : List (κ × β)) :
    assignEntry k v (e :: l) = if e.1 = k then (k, v) :: l else e :: assignEntry k v l := rfl

@[simp] theorem mem_eraseEntry {e : κ × β} : e ∈ eraseEntry k l ↔ e ∈ l ∧ e.1 ≠ k := by
  simp [eraseEntry]

@[simp] theorem map_fst_adjustEntry (f : β → β) :
    (adjustEntry k f l).map Prod.fst = l.map Prod.fst := by
  rw [adjustEntry, List.map_map]
  apply List.map_congr_left
  intro e _
  by_cases he : e.1 = k <;> simp [he]

theorem map_fst_eraseEntry :
    (eraseEntry k l).map Prod.fst = (l.map Prod.fst).filter fun j => j ≠ k := by
  rw [eraseEntry, List.filter_map]
  rfl

theorem map_fst_assignEntry :
    (assignEntry k v l).map Prod.fst =
      if k ∈ l.map Prod.fst then l.map Prod.fst else l.map Prod.fst ++ [k] := by
  induction l with
  | nil => rfl
  | cons e l ih =>
      rw [assignEntry_cons]
      by_cases he : e.1 = k
      · simp [he]
      · rw [if_neg he, List.map_cons, ih]
        by_cases hmem : k ∈ l.map Prod.fst
        · rw [if_pos hmem, List.map_cons, if_pos (List.mem_cons_of_mem e.1 hmem)]
        · have habsent : k ∉ (e :: l).map Prod.fst := by
            rw [List.map_cons, List.mem_cons, not_or]
            exact ⟨Ne.symm he, hmem⟩
          rw [if_neg hmem, if_neg habsent, List.map_cons, List.cons_append]

theorem nodup_assignEntry (h : (l.map Prod.fst).Nodup) :
    ((assignEntry k v l).map Prod.fst).Nodup := by
  rw [map_fst_assignEntry]
  split
  · exact h
  · next habsent =>
      rw [List.nodup_append]
      refine ⟨h, List.nodup_singleton k, ?_⟩
      intro j hj i hi heq
      exact habsent (List.mem_singleton.mp hi ▸ heq ▸ hj)

theorem mem_assignEntry {e : κ × β} (h : e ∈ assignEntry k v l) : e = (k, v) ∨ e ∈ l := by
  induction l with
  | nil => exact .inl (List.mem_singleton.mp h)
  | cons e' l ih =>
      rw [assignEntry_cons] at h
      split at h
      · exact (List.mem_cons.mp h).imp id (List.mem_cons_of_mem e')
      · rcases List.mem_cons.mp h with rfl | hmem
        · exact .inr List.mem_cons_self
        · exact (ih hmem).imp id (List.mem_cons_of_mem e')

/-- Assigning and changing the values commute. -/
theorem assignEntry_map {γ : Type} (f : β → γ) :
    assignEntry k (f v) (l.map fun e => (e.1, f e.2)) =
      (assignEntry k v l).map fun e => (e.1, f e.2) := by
  induction l with
  | nil => rfl
  | cons e l ih =>
      rw [List.map_cons, assignEntry_cons, assignEntry_cons]
      by_cases he : e.1 = k
      · rw [if_pos he, if_pos he, List.map_cons]
      · rw [if_neg he, if_neg he, List.map_cons, ih]

/-- A key that is absent is assigned at the end. -/
theorem assignEntry_of_absent (h : k ∉ l.map Prod.fst) :
    assignEntry k v l = l ++ [(k, v)] := by
  induction l with
  | nil => rfl
  | cons e l ih =>
      rw [List.map_cons, List.mem_cons, not_or] at h
      rw [assignEntry_cons, if_neg (Ne.symm h.1), ih h.2, List.cons_append]

/-- With distinct keys, erasing a key that is present takes one entry away. -/
theorem length_eraseEntry (hnodup : (l.map Prod.fst).Nodup) (hk : k ∈ l.map Prod.fst) :
    (eraseEntry k l).length + 1 = l.length := by
  have hkeys : (eraseEntry k l).map Prod.fst = (l.map Prod.fst).erase k := by
    rw [map_fst_eraseEntry, hnodup.erase_eq_filter]
    apply List.filter_congr
    intro j _
    by_cases hj : j = k <;> simp [hj]
  have hlength := congrArg List.length hkeys
  rw [List.length_erase_of_mem hk, List.length_map, List.length_map] at hlength
  have hpos : 0 < l.length := by
    rw [← List.length_map (f := Prod.fst)]
    exact List.length_pos_of_mem hk
  omega

end Lists

section Placed

variable [LinearOrder κ] {k : κ} {v : β} {l : List (κ × β)}

theorem placeEntry_cons (k : κ) (v : β) (e : κ × β) (l : List (κ × β)) :
    placeEntry k v (e :: l) =
      if k < e.1 then (k, v) :: e :: l
      else if k = e.1 then (k, v) :: l
      else e :: placeEntry k v l := rfl

theorem mem_map_fst_placeEntry {j : κ} (h : j ∈ (placeEntry k v l).map Prod.fst) :
    j = k ∨ j ∈ l.map Prod.fst := by
  induction l with
  | nil => exact .inl (List.mem_singleton.mp h)
  | cons e l ih =>
      rw [placeEntry_cons] at h
      split at h
      · exact List.mem_cons.mp h
      · split at h
        · exact (List.mem_cons.mp h).imp id (List.mem_cons_of_mem e.1)
        · cases List.mem_cons.mp h with
          | inl heq => exact .inr (heq ▸ List.mem_cons_self)
          | inr hmem => exact (ih hmem).imp id (List.mem_cons_of_mem e.1)

/-- Insertion keeps the keys in order. -/
theorem sorted_placeEntry (h : (l.map Prod.fst).Pairwise (· < ·)) :
    ((placeEntry k v l).map Prod.fst).Pairwise (· < ·) := by
  induction l with
  | nil => exact List.pairwise_singleton _ _
  | cons e l ih =>
      rw [List.map_cons, List.pairwise_cons] at h
      rw [placeEntry_cons]
      split
      · next hlt =>
          rw [List.map_cons, List.map_cons, List.pairwise_cons]
          refine ⟨?_, List.pairwise_cons.mpr h⟩
          intro j hj
          cases List.mem_cons.mp hj with
          | inl heq => exact heq ▸ hlt
          | inr hmem => exact lt_trans hlt (h.1 j hmem)
      · next hnlt =>
          split
          · next heq => exact List.pairwise_cons.mpr ⟨heq ▸ h.1, h.2⟩
          · next hne =>
              rw [List.map_cons, List.pairwise_cons]
              refine ⟨?_, ih h.2⟩
              intro j hj
              cases mem_map_fst_placeEntry hj with
              | inl heq => exact heq ▸ lt_of_le_of_ne (not_lt.mp hnlt) (Ne.symm hne)
              | inr hmem => exact h.1 j hmem

/-- A key greater than all keys is inserted at the end. -/
theorem placeEntry_of_lt (h : ∀ j ∈ l.map Prod.fst, j < k) :
    placeEntry k v l = l ++ [(k, v)] := by
  induction l with
  | nil => rfl
  | cons e l ih =>
      have he : e.1 < k := h e.1 List.mem_cons_self
      rw [placeEntry_cons, if_neg (not_lt_of_gt he), if_neg (ne_of_gt he),
        ih fun j hj => h j (List.mem_cons_of_mem e.1 hj), List.cons_append]

end Placed

/-! ## The two maps -/

/-- A map that iterates in the order of its keys. -/
structure SortedMap (κ β : Type) [LinearOrder κ] where
  entries : List (κ × β)
  sorted : (entries.map Prod.fst).Pairwise (· < ·)

/-- A map that iterates in the order in which its keys were inserted. -/
structure InsertionMap (κ β : Type) where
  entries : List (κ × β)
  distinct : (entries.map Prod.fst).Nodup

namespace SortedMap

variable [LinearOrder κ]

/-- The map without entries. -/
def empty : SortedMap κ β := ⟨[], List.Pairwise.nil⟩

/-- The values, in the order of their keys. -/
def values (m : SortedMap κ β) : List β := m.entries.map Prod.snd

/-- The value of a key, in place of the one it has or where the key belongs. -/
def insert (m : SortedMap κ β) (k : κ) (v : β) : SortedMap κ β where
  entries := placeEntry k v m.entries
  sorted := sorted_placeEntry m.sorted

/-- Another value for a key that is there. -/
def adjust (m : SortedMap κ β) (k : κ) (f : β → β) : SortedMap κ β where
  entries := adjustEntry k f m.entries
  sorted := by
    rw [map_fst_adjustEntry]
    exact m.sorted

theorem map_fst_adjust (m : SortedMap κ β) (k : κ) (f : β → β) :
    (m.adjust k f).entries.map Prod.fst = m.entries.map Prod.fst :=
  map_fst_adjustEntry f

/-- The map without a key. -/
def remove (m : SortedMap κ β) (k : κ) : SortedMap κ β where
  entries := eraseEntry k m.entries
  sorted := by
    rw [map_fst_eraseEntry]
    exact m.sorted.filter _

theorem nodup (m : SortedMap κ β) : (m.entries.map Prod.fst).Nodup :=
  m.sorted.imp ne_of_lt

end SortedMap

namespace InsertionMap

variable [DecidableEq κ]

/-- The dictionary without entries. -/
def empty : InsertionMap κ β := ⟨[], List.nodup_nil⟩

/-- The values, in the order their keys were first assigned. -/
def values (d : InsertionMap κ β) : List β := d.entries.map Prod.snd

/-- `d[k] = v`: a key that is there keeps its place, a new one comes last. -/
def assign (d : InsertionMap κ β) (k : κ) (v : β) : InsertionMap κ β where
  entries := assignEntry k v d.entries
  distinct := nodup_assignEntry d.distinct

/-- Another value for a key that is there; the key keeps its place. -/
def adjust (d : InsertionMap κ β) (k : κ) (f : β → β) : InsertionMap κ β where
  entries := adjustEntry k f d.entries
  distinct := by
    rw [map_fst_adjustEntry]
    exact d.distinct

/-- Deletion, which fails on a key that is absent. -/
def delete (d : InsertionMap κ β) (k : κ) : Option (InsertionMap κ β) :=
  if k ∈ d.entries.map Prod.fst then
    some ⟨eraseEntry k d.entries, by
      rw [map_fst_eraseEntry]
      exact d.distinct.filter _⟩
  else none

end InsertionMap

/-! ## The same entries -/

/-- The two maps hold the same entries in the same order. -/
def SameEntries [LinearOrder κ] (m : SortedMap κ β) (d : InsertionMap κ β) : Prop :=
  m.entries = d.entries

section Same

variable [LinearOrder κ] {m : SortedMap κ β} {d : InsertionMap κ β} {k : κ}

theorem SameEntries.values (h : SameEntries m d) : m.values = d.values :=
  congrArg (List.map Prod.snd) h

theorem SameEntries.adjust (h : SameEntries m d) (f : β → β) :
    SameEntries (m.adjust k f) (d.adjust k f) :=
  congrArg (adjustEntry k f) h

/-- A key greater than all keys present goes to the end of both. -/
theorem SameEntries.insert (h : SameEntries m d) (v : β)
    (hk : ∀ j ∈ m.entries.map Prod.fst, j < k) :
    SameEntries (m.insert k v) (d.assign k v) := by
  have habsent : k ∉ d.entries.map Prod.fst := by
    rw [← h]
    exact fun hmem => lt_irrefl k (hk k hmem)
  change placeEntry k v m.entries = assignEntry k v d.entries
  rw [placeEntry_of_lt hk, assignEntry_of_absent habsent, h]

theorem SameEntries.remove (h : SameEntries m d) (hk : k ∈ m.entries.map Prod.fst) :
    ∃ d', d.delete k = some d' ∧ SameEntries (m.remove k) d' := by
  have hmem : k ∈ d.entries.map Prod.fst := h ▸ hk
  refine ⟨_, by rw [InsertionMap.delete, if_pos hmem], ?_⟩
  exact congrArg (eraseEntry k) h

/-- Distinct keys that are present are removed one by one from both. -/
theorem SameEntries.removeAll {ks : List κ} (h : SameEntries m d) (hnodup : ks.Nodup)
    (hks : ∀ k ∈ ks, k ∈ m.entries.map Prod.fst) :
    ∃ d', ks.foldlM InsertionMap.delete d = some d' ∧
      SameEntries (ks.foldl SortedMap.remove m) d' := by
  induction ks generalizing m d with
  | nil => exact ⟨d, rfl, h⟩
  | cons k ks ih =>
      rw [List.nodup_cons] at hnodup
      obtain ⟨d₁, hdelete, hsame⟩ := h.remove (hks k List.mem_cons_self)
      have hrest : ∀ j ∈ ks, j ∈ (m.remove k).entries.map Prod.fst := by
        intro j hj
        have hjk : j ≠ k := fun heq => hnodup.1 (heq ▸ hj)
        change j ∈ (eraseEntry k m.entries).map Prod.fst
        rw [map_fst_eraseEntry, List.mem_filter]
        exact ⟨hks j (List.mem_cons_of_mem k hj), by simpa using hjk⟩
      obtain ⟨d', hdeletes, hall⟩ := ih hsame hnodup.2 hrest
      refine ⟨d', ?_, hall⟩
      rw [List.foldlM_cons, hdelete]
      exact hdeletes

end Same

end Repercep.Foundation
