import Mathlib
set_option autoImplicit false

/-!
# Buffers, and the loops that fill them

A buffer is a block of cells addressed by number.  A cell that nothing has written yet holds
nothing: a load there fails, like a load outside the block, so a program that runs to its end
has only read what was written.  The rules below are for counted loops over such memory: a
loop that adds up, a loop with an invariant, and a loop whose iterations own disjoint parts
of the memory and may read and write only those.
-/

namespace Repercep.Foundation

variable {α γ ι κ σ : Type}

/-! ## Reading many cells at once -/

/-- All the results, when every one of them is there. -/
def gather [Fintype ι] (f : ι → Option α) : Option (ι → α) :=
  if h : ∀ i, (f i).isSome then some fun i => (f i).get (h i) else none

theorem gather_eq_some [Fintype ι] {f : ι → Option α} {g : ι → α} :
    gather f = some g ↔ ∀ i, f i = some (g i) := by
  constructor
  · intro h i
    rw [gather] at h
    split at h
    · cases h
      exact (Option.some_get _).symm
    · cases h
  · intro h
    have hall : ∀ i, (f i).isSome := fun i => by rw [h i, Option.isSome_some]
    rw [gather, dif_pos hall]
    refine congrArg some (funext fun i => ?_)
    exact Option.get_of_eq_some (hall i) (h i)

/-! ## Buffers -/

/-- A block of cells; `load` is what a read of each address returns. -/
structure Buffer (α : Type) where
  size : Nat
  load : Nat → Option α
  bounded : ∀ i, size ≤ i → load i = none

namespace Buffer

/-- Fresh memory. -/
def uninit (size : Nat) : Buffer α where
  size := size
  load := fun _ => none
  bounded := fun _ _ => rfl

theorem ofFn_bounded (size : Nat) (f : Nat → α) (i : Nat) (h : size ≤ i) :
    (if i < size then some (f i) else none) = none :=
  if_neg (Nat.not_lt.mpr h)

/-- Memory that is all written. -/
def ofFn (size : Nat) (f : Nat → α) : Buffer α where
  size := size
  load := fun i => if i < size then some (f i) else none
  bounded := ofFn_bounded size f

theorem load_ofFn {size : Nat} (f : Nat → α) {i : Nat} (h : i < size) :
    (ofFn size f).load i = some (f i) :=
  if_pos h

theorem store_bounded (b : Buffer α) {i : Nat} (h : i < b.size) (x : α) (j : Nat)
    (hj : b.size ≤ j) : Function.update b.load i (some x) j = none := by
  rw [Function.update_of_ne (by omega), b.bounded j hj]

/-- A write fails outside the block. -/
def store (b : Buffer α) (i : Nat) (x : α) : Option (Buffer α) :=
  if h : i < b.size then
    some ⟨b.size, Function.update b.load i (some x), b.store_bounded h x⟩
  else
    none

theorem store_eq {b : Buffer α} {i : Nat} (h : i < b.size) (x : α) :
    ∃ b', b.store i x = some b' ∧ b'.size = b.size ∧ b'.load i = some x ∧
      ∀ j, j ≠ i → b'.load j = b.load j := by
  refine ⟨_, dif_pos h, rfl, Function.update_self _ _ _, ?_⟩
  intro j hj
  exact Function.update_of_ne hj _ _

end Buffer

/-! ## Loops -/

/-- The same loop from the same iterations. -/
theorem foldlM_congr_mem {f g : σ → ι → Option σ} {xs : List ι}
    (h : ∀ x ∈ xs, ∀ s, f s x = g s x) (s : σ) : xs.foldlM f s = xs.foldlM g s := by
  induction xs generalizing s with
  | nil => rfl
  | cons x xs ih =>
      rw [List.foldlM_cons, List.foldlM_cons, h x List.mem_cons_self]
      exact congrArg _ (funext fun t => ih (fun y hy => h y (List.mem_cons_of_mem x hy)) t)

/-- All the results, when every iteration has one. -/
theorem mapM_eq_map {f : ι → Option κ} {g : ι → κ} {xs : List ι} (h : ∀ x ∈ xs, f x = some (g x)) :
    xs.mapM f = some (xs.map g) := by
  induction xs with
  | nil => rfl
  | cons x xs ih =>
      rw [List.mapM_cons, h x List.mem_cons_self,
        ih fun y hy => h y (List.mem_cons_of_mem x hy)]
      rfl

/-- What every iteration's result is like, all the results are. -/
theorem mapM_forall {f : ι → Option κ} {P : κ → Prop} {xs : List ι}
    (h : ∀ x ∈ xs, ∃ y, f x = some y ∧ P y) :
    ∃ ys, xs.mapM f = some ys ∧ ys.length = xs.length ∧ ∀ y ∈ ys, P y := by
  induction xs with
  | nil => exact ⟨[], rfl, rfl, fun y hy => absurd hy List.not_mem_nil⟩
  | cons x xs ih =>
      obtain ⟨y, hy, hPy⟩ := h x List.mem_cons_self
      obtain ⟨ys, hys, hlength, hPys⟩ := ih fun x hx => h x (List.mem_cons_of_mem _ hx)
      refine ⟨y :: ys, ?_, congrArg Nat.succ hlength, List.forall_mem_cons.mpr ⟨hPy, hPys⟩⟩
      rw [List.mapM_cons, hy, hys]
      rfl

/-- A loop that adds up. -/
theorem foldlM_add [AddMonoid σ] {f : σ → ι → Option σ} {g : ι → σ} {xs : List ι}
    (hstep : ∀ x ∈ xs, ∀ s, f s x = some (s + g x)) (s : σ) :
    xs.foldlM f s = some (s + (xs.map g).sum) := by
  induction xs generalizing s with
  | nil => rw [List.map_nil, List.sum_nil, add_zero]; rfl
  | cons x xs ih =>
      rw [List.foldlM_cons, hstep x List.mem_cons_self, Option.bind_eq_bind, Option.bind_some,
        ih fun y hy => hstep y (List.mem_cons_of_mem x hy), List.map_cons, List.sum_cons,
        add_assoc]

/-- A counted loop with an invariant. -/
theorem foldlM_range {f : σ → Nat → Option σ} {I : Nat → σ → Prop} {s : σ} {n : Nat}
    (hstart : I 0 s) (hstep : ∀ k s, k < n → I k s → ∃ s', f s k = some s' ∧ I (k + 1) s') :
    ∃ s', (List.range n).foldlM f s = some s' ∧ I n s' := by
  induction n with
  | zero => exact ⟨s, rfl, hstart⟩
  | succ n ih =>
      obtain ⟨t, ht, hinv⟩ := ih fun k s hk => hstep k s (Nat.lt_succ_of_lt hk)
      obtain ⟨s', hs', hinv'⟩ := hstep n t (Nat.lt_succ_self n) hinv
      refine ⟨s', ?_, hinv'⟩
      rw [List.range_succ, List.foldlM_append, ht]
      change (List.foldlM f t [n]) = _
      rw [List.foldlM_cons, hs']
      rfl

/-- A loop in a loop. -/
theorem foldlM_product (f : σ → ι → κ → Option σ) (xs : List ι) (ys : List κ) (s : σ) :
    xs.foldlM (fun s x => ys.foldlM (fun s y => f s x y) s) s =
      (xs ×ˢ ys).foldlM (fun s p => f s p.1 p.2) s := by
  induction xs generalizing s with
  | nil => rfl
  | cons x xs ih =>
      rw [List.product_cons, List.foldlM_append, List.foldlM_map, List.foldlM_cons]
      exact congrArg _ (funext fun t => ih t)

/-- A loop whose iterations own disjoint cells of what `get` shows.  Each iteration, started
where its cells are as they were at first, leaves `new` in them and the rest alone; so does
the loop. -/
theorem foldlM_owned {f : σ → ι → Option σ} {good : σ → Prop} {get : σ → α → γ}
    {cell : ι → κ → α} {new : ι → κ → γ} {xs : List ι} {start : σ} (hnodup : xs.Nodup)
    (hdisjoint : ∀ x ∈ xs, ∀ y ∈ xs, ∀ k l, cell x k = cell y l → x = y)
    (hstep : ∀ x ∈ xs, ∀ s, good s → (∀ k, get s (cell x k) = get start (cell x k)) →
      ∃ s', f s x = some s' ∧ good s' ∧ (∀ k, get s' (cell x k) = new x k) ∧
        ∀ a, (∀ k, cell x k ≠ a) → get s' a = get s a) (hgood : good start) :
    ∃ s', xs.foldlM f start = some s' ∧ good s' ∧
      (∀ x ∈ xs, ∀ k, get s' (cell x k) = new x k) ∧
      ∀ a, (∀ x ∈ xs, ∀ k, cell x k ≠ a) → get s' a = get start a := by
  suffices hrun : ∀ s, good s → (∀ x ∈ xs, ∀ k, get s (cell x k) = get start (cell x k)) →
      ∃ s', xs.foldlM f s = some s' ∧ good s' ∧
        (∀ x ∈ xs, ∀ k, get s' (cell x k) = new x k) ∧
        ∀ a, (∀ x ∈ xs, ∀ k, cell x k ≠ a) → get s' a = get s a from
    hrun start hgood fun _ _ _ => rfl
  clear hgood
  induction xs with
  | nil => exact fun s hgood _ => ⟨s, rfl, hgood, fun x hx => absurd hx List.not_mem_nil,
      fun _ _ => rfl⟩
  | cons x xs ih =>
      intro s hgood hold
      obtain ⟨hfresh, hnodup⟩ := List.nodup_cons.mp hnodup
      obtain ⟨t, hfx, hgoodt, hnew, hkept⟩ :=
        hstep x List.mem_cons_self s hgood (hold x List.mem_cons_self)
      have hother : ∀ y ∈ xs, ∀ k l, cell x l ≠ cell y k := by
        intro y hy k l hsame
        have hxy := hdisjoint x List.mem_cons_self y (List.mem_cons_of_mem x hy) l k hsame
        exact hfresh (hxy ▸ hy)
      obtain ⟨s', hfold, hgood', hnew', hkept'⟩ := ih hnodup
        (fun y hy z hz => hdisjoint y (List.mem_cons_of_mem x hy) z (List.mem_cons_of_mem x hz))
        (fun y hy => hstep y (List.mem_cons_of_mem x hy)) t hgoodt (fun y hy k => by
          rw [hkept _ (hother y hy k)]
          exact hold y (List.mem_cons_of_mem x hy) k)
      refine ⟨s', by rw [List.foldlM_cons, hfx]; exact hfold, hgood', ?_, ?_⟩
      · intro y hy k
        rcases List.mem_cons.mp hy with rfl | hy
        · rw [hkept' _ fun z hz l hsame => hother z hz l k hsame.symm, hnew k]
        · exact hnew' y hy k
      · intro a hnone
        rw [hkept' a fun y hy => hnone y (List.mem_cons_of_mem x hy),
          hkept a (hnone x List.mem_cons_self)]

namespace Buffer

/-- Writes at the addresses of a list of indices, one after the other. -/
def scatter (b : Buffer α) (is : List ι) (address : ι → Nat) (v : ι → α) : Option (Buffer α) :=
  is.foldlM (fun b i => b.store (address i) (v i)) b

theorem scatter_eq {b : Buffer α} {is : List ι} {address : ι → Nat} (v : ι → α)
    (hnodup : is.Nodup) (hinside : ∀ i ∈ is, address i < b.size)
    (hinjective : ∀ i ∈ is, ∀ j ∈ is, address i = address j → i = j) :
    ∃ b', b.scatter is address v = some b' ∧ b'.size = b.size ∧
      (∀ i ∈ is, b'.load (address i) = some (v i)) ∧
      ∀ a, (∀ i ∈ is, address i ≠ a) → b'.load a = b.load a := by
  induction is generalizing b with
  | nil => exact ⟨b, rfl, rfl, fun i hi => absurd hi List.not_mem_nil, fun _ _ => rfl⟩
  | cons i is ih =>
      obtain ⟨hfresh, hnodup⟩ := List.nodup_cons.mp hnodup
      obtain ⟨t, hstore, hsize, hwritten, hkept⟩ := store_eq (hinside i List.mem_cons_self) (v i)
      obtain ⟨b', hrest, hsize', hwritten', hkept'⟩ := ih (b := t) hnodup
        (fun j hj => hsize ▸ hinside j (List.mem_cons_of_mem i hj))
        (fun j hj k hk => hinjective j (List.mem_cons_of_mem i hj) k (List.mem_cons_of_mem i hk))
      refine ⟨b', by rw [scatter, List.foldlM_cons, hstore]; exact hrest, hsize'.trans hsize,
        ?_, ?_⟩
      · intro j hj
        rcases List.mem_cons.mp hj with rfl | hj
        · rw [hkept' _ fun k hk hsame => hfresh (hinjective _ (List.mem_cons_of_mem _ hk) _
            List.mem_cons_self hsame ▸ hk), hwritten]
        · exact hwritten' j hj
      · intro a hnone
        rw [hkept' a fun j hj => hnone j (List.mem_cons_of_mem i hj),
          hkept a fun hsame => hnone i List.mem_cons_self hsame.symm]

/-- One value in all the first cells. -/
theorem scatter_const_eq {b : Buffer α} {n : Nat} (x : α) (hn : n ≤ b.size) :
    ∃ b', b.scatter (List.range n) id (fun _ => x) = some b' ∧ b'.size = b.size ∧
      ∀ i < n, b'.load i = some x := by
  obtain ⟨b', hrun, hsize, hnew, -⟩ := @scatter_eq α Nat b (List.range n) id (fun _ => x)
    List.nodup_range (fun i hi => (List.mem_range.mp hi).trans_le hn) fun _ _ _ _ hsame => hsame
  exact ⟨b', hrun, hsize, fun i hi => hnew i (List.mem_range.mpr hi)⟩

/-- Copies from one buffer to another, one index after the other. -/
def copy (dst src : Buffer α) (is : List ι) (source target : ι → Nat) : Option (Buffer α) :=
  is.foldlM (fun dst i => do
    let x ← src.load (source i)
    dst.store (target i) x) dst

theorem copy_eq {dst src : Buffer α} {is : List ι} {source target : ι → Nat} {v : ι → α}
    (hsource : ∀ i ∈ is, src.load (source i) = some (v i)) (hnodup : is.Nodup)
    (hinside : ∀ i ∈ is, target i < dst.size)
    (hinjective : ∀ i ∈ is, ∀ j ∈ is, target i = target j → i = j) :
    ∃ b', dst.copy src is source target = some b' ∧ b'.size = dst.size ∧
      (∀ i ∈ is, b'.load (target i) = some (v i)) ∧
      ∀ a, (∀ i ∈ is, target i ≠ a) → b'.load a = dst.load a := by
  obtain ⟨b', hrun, hspec⟩ := scatter_eq v hnodup hinside hinjective
  refine ⟨b', ?_, hspec⟩
  rw [← hrun, copy, scatter]
  refine foldlM_congr_mem (fun i hi b => ?_) dst
  rw [hsource i hi]
  rfl

/-- A loop over one buffer. -/
theorem foldlM_owned {f : Buffer α → ι → Option (Buffer α)} {cell : ι → κ → Nat}
    {new : ι → κ → Option α} {xs : List ι} {b : Buffer α} (hnodup : xs.Nodup)
    (hdisjoint : ∀ x ∈ xs, ∀ y ∈ xs, ∀ k l, cell x k = cell y l → x = y)
    (hstep : ∀ x ∈ xs, ∀ c, c.size = b.size →
      (∀ k, c.load (cell x k) = b.load (cell x k)) →
      ∃ c', f c x = some c' ∧ c'.size = c.size ∧ (∀ k, c'.load (cell x k) = new x k) ∧
        ∀ a, (∀ k, cell x k ≠ a) → c'.load a = c.load a) :
    ∃ b', xs.foldlM f b = some b' ∧ b'.size = b.size ∧
      (∀ x ∈ xs, ∀ k, b'.load (cell x k) = new x k) ∧
      ∀ a, (∀ x ∈ xs, ∀ k, cell x k ≠ a) → b'.load a = b.load a :=
  Foundation.foldlM_owned hnodup hdisjoint
    (fun x hx c hsize hold => by
      obtain ⟨c', hfx, hsize', hnew, hkept⟩ := hstep x hx c hsize hold
      exact ⟨c', hfx, hsize'.trans hsize, hnew, hkept⟩) rfl

end Buffer

/-! ## Row-major addresses -/

theorem lt_mul_of_lt {x y rows columns : Nat} (hx : x < rows) (hy : y < columns) :
    x * columns + y < rows * columns :=
  calc x * columns + y < (x + 1) * columns := by rw [Nat.succ_mul]; omega
    _ ≤ rows * columns := Nat.mul_le_mul_right _ hx

theorem rowMajor_injective {x y x' y' columns : Nat} (hy : y < columns) (hy' : y' < columns)
    (h : x * columns + y = x' * columns + y') : x = x' ∧ y = y' := by
  have hpos : 0 < columns := by omega
  have hx : x = x' := by
    have hdiv := congrArg (· / columns) h
    simp only [Nat.add_comm _ y, Nat.add_comm _ y', Nat.add_mul_div_right _ _ hpos,
      Nat.div_eq_of_lt hy, Nat.div_eq_of_lt hy', Nat.zero_add] at hdiv
    exact hdiv
  refine ⟨hx, ?_⟩
  rw [hx] at h
  exact Nat.add_left_cancel h

/-- A four-dimensional row-major address is inside its buffer and says where it is. -/
theorem address_lt {n₁ n₂ n₃ n₄ x₁ x₂ x₃ x₄ : Nat} (h₁ : x₁ < n₁) (h₂ : x₂ < n₂) (h₃ : x₃ < n₃)
    (h₄ : x₄ < n₄) : ((x₁ * n₂ + x₂) * n₃ + x₃) * n₄ + x₄ < n₁ * n₂ * n₃ * n₄ :=
  lt_mul_of_lt (lt_mul_of_lt (lt_mul_of_lt h₁ h₂) h₃) h₄

theorem address_injective₄ {n₂ n₃ n₄ x₁ x₂ x₃ x₄ y₁ y₂ y₃ y₄ : Nat} (h₂ : x₂ < n₂) (h₃ : x₃ < n₃)
    (h₄ : x₄ < n₄) (h₂' : y₂ < n₂) (h₃' : y₃ < n₃) (h₄' : y₄ < n₄)
    (h : ((x₁ * n₂ + x₂) * n₃ + x₃) * n₄ + x₄ = ((y₁ * n₂ + y₂) * n₃ + y₃) * n₄ + y₄) :
    x₁ = y₁ ∧ x₂ = y₂ ∧ x₃ = y₃ ∧ x₄ = y₄ := by
  obtain ⟨h, hx₄⟩ := rowMajor_injective h₄ h₄' h
  obtain ⟨h, hx₃⟩ := rowMajor_injective h₃ h₃' h
  obtain ⟨hx₁, hx₂⟩ := rowMajor_injective h₂ h₂' h
  exact ⟨hx₁, hx₂, hx₃, hx₄⟩

/-- A copy that fills a block, three loops deep. -/
theorem Buffer.copyBlock_eq {n₁ n₂ n₃ : Nat} {dst src : Buffer α} (source : Nat → Nat → Nat → Nat)
    {v : Nat → Nat → Nat → α}
    (hsource : ∀ x < n₁, ∀ y < n₂, ∀ z < n₃, src.load (source x y z) = some (v x y z))
    (hsize : n₁ * n₂ * n₃ ≤ dst.size) :
    ∃ dst', (List.range n₁).foldlM (fun dst x => (List.range n₂).foldlM (fun dst y =>
        dst.copy src (List.range n₃) (source x y) fun z => (x * n₂ + y) * n₃ + z) dst) dst =
          some dst' ∧ dst'.size = dst.size ∧
      ∀ x < n₁, ∀ y < n₂, ∀ z < n₃, dst'.load ((x * n₂ + y) * n₃ + z) = some (v x y z) := by
  have hmem : ∀ {x y z}, (x, y, z) ∈ List.range n₁ ×ˢ List.range n₂ ×ˢ List.range n₃ ↔
      x < n₁ ∧ y < n₂ ∧ z < n₃ := by
    intro x y z
    simp only [List.mem_product, List.mem_range]
  obtain ⟨dst', hrun, hsize', hnew, -⟩ := @Buffer.copy_eq α (Nat × Nat × Nat) dst src
    (List.range n₁ ×ˢ List.range n₂ ×ˢ List.range n₃)
    (fun p => source p.1 p.2.1 p.2.2) (fun p => (p.1 * n₂ + p.2.1) * n₃ + p.2.2)
    (fun p => v p.1 p.2.1 p.2.2)
    (by
      intro ⟨x, y, z⟩ hp
      obtain ⟨hx, hy, hz⟩ := hmem.mp hp
      exact hsource x hx y hy z hz)
    (List.nodup_range.product (List.nodup_range.product List.nodup_range))
    (by
      intro ⟨x, y, z⟩ hp
      obtain ⟨hx, hy, hz⟩ := hmem.mp hp
      exact (lt_mul_of_lt (lt_mul_of_lt hx hy) hz).trans_le hsize)
    (by
      intro ⟨x, y, z⟩ hp ⟨x', y', z'⟩ hp' hsame
      obtain ⟨-, hy, hz⟩ := hmem.mp hp
      obtain ⟨-, hy', hz'⟩ := hmem.mp hp'
      obtain ⟨hrow, hzz⟩ := rowMajor_injective hz hz' hsame
      obtain ⟨hxx, hyy⟩ := rowMajor_injective hy hy' hrow
      exact Prod.ext hxx (Prod.ext hyy hzz))
  refine ⟨dst', ?_, hsize', fun x hx y hy z hz => hnew (x, y, z) (hmem.mpr ⟨hx, hy, hz⟩)⟩
  rw [← hrun]
  simp only [Buffer.copy, foldlM_product]

/-! ## Counters that advance by more than one -/

/-- The values of a loop counter that starts at zero and advances by `step` while it is
below `bound`. -/
def counter (bound step : Nat) : List Nat :=
  (List.range ((bound + step - 1) / step)).map (· * step)

theorem mem_counter {bound step : Nat} (hstep : 0 < step) {k : Nat} :
    k ∈ counter bound step ↔ k < bound ∧ step ∣ k := by
  have hlast : ∀ t, t < (bound + step - 1) / step ↔ t * step < bound := by
    intro t
    rw [Nat.lt_iff_add_one_le, Nat.le_div_iff_mul_le hstep, Nat.succ_mul]
    omega
  rw [counter, List.mem_map]
  constructor
  · intro h
    obtain ⟨t, ht, hk⟩ := h
    rw [← hk]
    exact ⟨(hlast t).mp (List.mem_range.mp ht), Nat.dvd_mul_left step t⟩
  · intro h
    obtain ⟨hk, t, rfl⟩ := h
    rw [Nat.mul_comm] at hk ⊢
    exact ⟨t, List.mem_range.mpr ((hlast t).mpr hk), rfl⟩

/-- The stretches of a counter that divides its bound do not overlap, stay inside, and cover
everything. -/
theorem counter_disjoint {bound step : Nat} (hstep : 0 < step) {k k' j j' : Nat}
    (hk : k ∈ counter bound step) (hk' : k' ∈ counter bound step) (hj : j < step)
    (hj' : j' < step) (h : k + j = k' + j') : k = k' := by
  obtain ⟨-, t, rfl⟩ := (mem_counter hstep).mp hk
  obtain ⟨-, t', rfl⟩ := (mem_counter hstep).mp hk'
  rw [Nat.mul_comm step t, Nat.mul_comm step t'] at h
  obtain ⟨ht, -⟩ := rowMajor_injective hj hj' h
  rw [ht]

theorem counter_inside {bound step : Nat} (hstep : 0 < step) (hdvd : step ∣ bound) {k j : Nat}
    (hk : k ∈ counter bound step) (hj : j < step) : k + j < bound := by
  obtain ⟨hlt, t, rfl⟩ := (mem_counter hstep).mp hk
  obtain ⟨n, rfl⟩ := hdvd
  rw [Nat.mul_comm step t, Nat.mul_comm step n]
  rw [Nat.mul_comm step t, Nat.mul_comm step n] at hlt
  exact lt_mul_of_lt (Nat.lt_of_mul_lt_mul_right hlt) hj

theorem counter_cover {bound step x : Nat} (hstep : 0 < step) (hx : x < bound) :
    x / step * step ∈ counter bound step ∧ x / step * step + x % step = x :=
  ⟨(mem_counter hstep).mpr ⟨(Nat.div_mul_le_self x step).trans_lt hx, Nat.dvd_mul_left _ _⟩,
    Nat.div_add_mod' x step⟩

theorem nodup_counter {bound step : Nat} (hstep : 0 < step) : (counter bound step).Nodup :=
  List.nodup_range.map fun _ _ h => Nat.eq_of_mul_eq_mul_right hstep h

/-- Tile after tile, every number is met once. -/
theorem sum_tiles {M : Type} [AddCommMonoid M] (tiles step : Nat) (f : Nat → M) :
    ∑ k ∈ Finset.range tiles, ∑ j ∈ Finset.range step, f (k * step + j) =
      ∑ n ∈ Finset.range (tiles * step), f n := by
  induction tiles with
  | zero => simp
  | succ t ih => rw [Finset.sum_range_succ, ih, Nat.succ_mul, Finset.sum_range_add]

theorem sum_map_range {M : Type} [AddCommMonoid M] (n : Nat) (f : Nat → M) :
    ((List.range n).map f).sum = ∑ k ∈ Finset.range n, f k :=
  rfl

theorem sum_map_product {M : Type} [AddMonoid M] (xs : List ι) (ys : List κ) (f : ι × κ → M) :
    ((xs ×ˢ ys).map f).sum = (xs.map fun x => (ys.map fun y => f (x, y)).sum).sum := by
  induction xs with
  | nil => rfl
  | cons x xs ih =>
      rw [List.product_cons, List.map_append, List.sum_append, ih, List.map_map, List.map_cons,
        List.sum_cons]
      rfl

/-- So it is when the ragged end of the last tile is left out. -/
theorem sum_counter {M : Type} [AddCommMonoid M] {bound step : Nat} (hstep : 0 < step)
    (f : Nat → M) :
    ((counter bound step).map fun k =>
      ∑ j ∈ Finset.range step, if k + j < bound then f (k + j) else 0).sum =
        ∑ n ∈ Finset.range bound, f n := by
  have hcover : bound ≤ (bound + step - 1) / step * step := by
    have hrem := Nat.mod_lt (bound + step - 1) hstep
    have hdiv := Nat.div_add_mod' (bound + step - 1) step
    omega
  obtain ⟨rest, hrest⟩ := Nat.exists_eq_add_of_le hcover
  rw [counter, List.map_map, sum_map_range]
  refine (sum_tiles _ step fun n => if n < bound then f n else 0).trans ?_
  rw [hrest, Finset.sum_range_add, Finset.sum_congr rfl fun n hn =>
    if_pos (Finset.mem_range.mp hn), Finset.sum_eq_zero fun n _ => if_neg (by omega), add_zero]

end Repercep.Foundation
