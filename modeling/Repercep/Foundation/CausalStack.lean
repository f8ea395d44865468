import Mathlib.Data.List.Basic
set_option autoImplicit false

/-!
# Stacks of causal layers

A causal layer maps a sequence item by item: from each item it keeps something,
and an item's output depends on the item and on what was kept from the ones
before it.  A stack of such layers can be run on a whole sequence, or on one item
more with what every layer kept from the sequence so far.  The second run gives
the item the first one would append, and keeps what the first one would keep.
-/

namespace Repercep.Foundation

/-! ## Rows in groups -/

section Groups

variable {α β : Type}

/-- `rows.view(count, size)`: the first `count` groups of `size` rows. -/
def view (size : Nat) : Nat → List α → List (List α)
  | 0, _ => []
  | count + 1, rows => rows.take size :: view size count (rows.drop size)

theorem view_succ (size count : Nat) (rows : List α) :
    view size (count + 1) rows = rows.take size :: view size count (rows.drop size) := rfl

theorem length_view (size count : Nat) (rows : List α) : (view size count rows).length = count := by
  induction count generalizing rows with
  | zero => rfl
  | succ count ih => rw [view_succ, List.length_cons, ih]

/-- Grouping undoes concatenation. -/
theorem view_flatten {size : Nat} {groups : List (List α)}
    (h : ∀ group ∈ groups, group.length = size) :
    view size groups.length groups.flatten = groups := by
  induction groups with
  | nil => rfl
  | cons group groups ih =>
      have hgroup := h group List.mem_cons_self
      rw [List.length_cons, List.flatten_cons, view_succ, ← hgroup, List.take_left, List.drop_left,
        hgroup, ih fun other hother => h other (List.mem_cons_of_mem _ hother)]

/-- Grouping commutes with a map of the rows. -/
theorem view_map_flatten {size : Nat} {groups : List (List α)} (f : α → β)
    (h : ∀ group ∈ groups, group.length = size) :
    view size groups.length (groups.flatten.map f) = groups.map (List.map f) := by
  have hmap : ∀ group ∈ groups.map (List.map f), group.length = size := by
    intro group hgroup
    obtain ⟨rows, hrows, rfl⟩ := List.mem_map.mp hgroup
    rw [List.length_map, h rows hrows]
  have hview := view_flatten hmap
  rwa [List.length_map, ← List.map_flatten] at hview

/-- Rows in whole groups are the concatenation of the groups. -/
theorem flatten_view {size count : Nat} {rows : List α} (h : rows.length = count * size) :
    (view size count rows).flatten = rows := by
  induction count generalizing rows with
  | zero =>
      rw [Nat.zero_mul] at h
      rw [List.eq_nil_of_length_eq_zero h]
      rfl
  | succ count ih =>
      have hrest : (rows.drop size).length = count * size := by
        rw [List.length_drop, h, Nat.succ_mul, Nat.add_sub_cancel]
      rw [view_succ, List.flatten_cons, ih hrest, List.take_append_drop]

/-- The groups of whole rows have their size. -/
theorem length_of_mem_view {size count : Nat} {rows : List α} (h : rows.length = count * size) :
    ∀ group ∈ view size count rows, group.length = size := by
  induction count generalizing rows with
  | zero => simp [view]
  | succ count ih =>
      have hrest : (rows.drop size).length = count * size := by
        rw [List.length_drop, h, Nat.succ_mul, Nat.add_sub_cancel]
      intro group hmem
      rw [view_succ, List.mem_cons] at hmem
      rcases hmem with rfl | hmem
      · rw [List.length_take, h, Nat.succ_mul]
        exact Nat.min_eq_left (Nat.le_add_left _ _)
      · exact ih hrest group hmem

theorem length_flatten_of_forall {size : Nat} {groups : List (List α)}
    (h : ∀ group ∈ groups, group.length = size) :
    groups.flatten.length = groups.length * size := by
  induction groups with
  | nil => simp
  | cons group groups ih =>
      rw [List.flatten_cons, List.length_append, h group List.mem_cons_self,
        ih fun other hother => h other (List.mem_cons_of_mem _ hother), List.length_cons,
        Nat.succ_mul, Nat.add_comm]

/-- Zipping with a list whose every item acts alike only maps the other one. -/
theorem zipWith_of_forall_left {γ : Type} {f : α → β → γ} {g : β → γ} :
    ∀ {xs : List α} {ys : List β}, xs.length = ys.length → (∀ x ∈ xs, f x = g) →
      List.zipWith f xs ys = ys.map g := by
  intro xs
  induction xs with
  | nil =>
      intro ys hlength _
      rw [List.eq_nil_of_length_eq_zero hlength.symm]
      rfl
  | cons x xs ih =>
      intro ys hlength hf
      cases ys with
      | nil => simp at hlength
      | cons y ys =>
          rw [List.zipWith_cons_cons, hf x List.mem_cons_self, List.map_cons,
            ih (Nat.succ.inj hlength) fun z hz => hf z (List.mem_cons_of_mem _ hz)]

end Groups

/-! ## Layers -/

/-- A causal layer over items `X`: what it keeps of an item, and the output of an
item after those whose kept values are given. -/
structure CausalLayer (X K : Type) where
  keep : X → K
  out : List K → X → X

namespace CausalLayer

variable {X K : Type}

/-- The layer on a sequence, after items whose kept values are given. -/
def whole (L : CausalLayer X K) : List K → List X → List X
  | _, [] => []
  | kept, x :: xs => L.out kept x :: whole L (kept ++ [L.keep x]) xs

@[simp] theorem length_whole (L : CausalLayer X K) (kept : List K) (xs : List X) :
    (L.whole kept xs).length = xs.length := by
  induction xs generalizing kept with
  | nil => rfl
  | cons x xs ih => rw [whole, List.length_cons, ih, List.length_cons]

/-- Later items do not change the outputs of earlier ones. -/
theorem whole_append (L : CausalLayer X K) (kept : List K) (xs ys : List X) :
    L.whole kept (xs ++ ys) = L.whole kept xs ++ L.whole (kept ++ xs.map L.keep) ys := by
  induction xs generalizing kept with
  | nil => simp [whole]
  | cons x xs ih => simp [whole, ih]

theorem whole_snoc (L : CausalLayer X K) (kept : List K) (xs : List X) (x : X) :
    L.whole kept (xs ++ [x]) = L.whole kept xs ++ [L.out (kept ++ xs.map L.keep) x] := by
  rw [whole_append]
  rfl

/-! ## Stacks -/

/-- The stack on a whole sequence. -/
def runStack : List (CausalLayer X K) → List X → List X
  | [], xs => xs
  | L :: layers, xs => runStack layers (L.whole [] xs)

/-- What every layer keeps of a sequence. -/
def keptBy : List (CausalLayer X K) → List X → List (List K)
  | [], _ => []
  | L :: layers, xs => xs.map L.keep :: keptBy layers (L.whole [] xs)

/-- One more item through the stack, with what every layer kept so far: the output
and what they keep from now on. -/
def advance : List (CausalLayer X K) → List (List K) → X → X × List (List K)
  | L :: layers, kept :: caches, x =>
      let (y, grown) := advance layers caches (L.out kept x)
      (y, (kept ++ [L.keep x]) :: grown)
  | _, _, x => (x, [])

theorem runStack_cons (L : CausalLayer X K) (layers : List (CausalLayer X K)) (xs : List X) :
    runStack (L :: layers) xs = runStack layers (L.whole [] xs) := rfl

theorem keptBy_cons (L : CausalLayer X K) (layers : List (CausalLayer X K)) (xs : List X) :
    keptBy (L :: layers) xs = xs.map L.keep :: keptBy layers (L.whole [] xs) := rfl

/-- Nothing is kept of no items. -/
theorem keptBy_nil (layers : List (CausalLayer X K)) :
    keptBy layers [] = layers.map fun _ => [] := by
  induction layers with
  | nil => rfl
  | cons L layers ih => simp [keptBy_cons, whole, ih]

/-- **Incremental evaluation.**  After a sequence, one more item through the caches is
the item the whole run would append, and the caches are those of the longer
sequence.  The induction is on the layers: each hands the next one its outputs, of
which only the last is new. -/
theorem advance_keptBy (layers : List (CausalLayer X K)) (xs : List X) (x : X) :
    runStack layers (xs ++ [x]) =
        runStack layers xs ++ [(advance layers (keptBy layers xs) x).1] ∧
      (advance layers (keptBy layers xs) x).2 = keptBy layers (xs ++ [x]) := by
  induction layers generalizing xs x with
  | nil => exact ⟨rfl, rfl⟩
  | cons L layers ih =>
      obtain ⟨hrun, hkept⟩ := ih (L.whole [] xs) (L.out (xs.map L.keep) x)
      have hwhole : L.whole [] (xs ++ [x]) =
          L.whole [] xs ++ [L.out (xs.map L.keep) x] := by
        rw [whole_snoc, List.nil_append]
      constructor
      · rw [runStack_cons, hwhole, hrun]
        rfl
      · rw [keptBy_cons, keptBy_cons, advance, hwhole, ← hkept, List.map_append]
        rfl

theorem length_keptBy (layers : List (CausalLayer X K)) (xs : List X) :
    (keptBy layers xs).length = layers.length := by
  induction layers generalizing xs with
  | nil => rfl
  | cons L layers ih => rw [keptBy_cons, List.length_cons, ih, List.length_cons]

/-- The length of the run. -/
theorem length_runStack (layers : List (CausalLayer X K)) (xs : List X) :
    (runStack layers xs).length = xs.length := by
  induction layers generalizing xs with
  | nil => rfl
  | cons L layers ih => rw [runStack_cons, ih, length_whole]

end CausalLayer

end Repercep.Foundation
