import Mathlib
import Repercep.Foundation.Buffer
set_option autoImplicit false

/-!
# Tile registers and their instructions

A tile register holds sixteen rows of sixty-four bytes.  Loads and stores go row by row, a
given number of bytes apart.  The two products read their second operand in a packed
layout: each row holds, column after column, a group of consecutive entries of one column.
Arithmetic is exact for the `BF16` product, and modulo 2³² for the `INT8` one.
-/

namespace Repercep.Kernels

open Foundation

/-- A tile register whose rows hold `n` elements. -/
abbrev Tile (n : Nat) (α : Type) : Type := Fin 16 → Fin n → α

section Memory

variable {α : Type} {n : Nat}

/-- `_tile_loadd`: rows from `base`, `stride` bytes apart, of elements of `width` bytes. -/
def tileLoadd (n width : Nat) (b : Buffer α) (base stride : Nat) : Option (Tile n α) :=
  (gather fun p : Fin 16 × Fin n => b.load (base + p.1 * stride / width + p.2)).map
    fun t r c => t (r, c)

/-- `_tile_stored`. -/
def tileStored (width : Nat) (t : Tile n α) (b : Buffer α) (base stride : Nat) :
    Option (Buffer α) :=
  b.scatter (List.finRange 16 ×ˢ List.finRange n)
    (fun p => base + p.1 * stride / width + p.2) fun p => t p.1 p.2

/-- A vector register's load from consecutive elements, and its store. -/
def loadVec (n : Nat) (b : Buffer α) (base : Nat) : Option (Fin n → α) :=
  gather fun c => b.load (base + c)

/-- A vector store: one entry a lane. -/
def storeVec (b : Buffer α) (base : Nat) (v : Fin n → α) : Option (Buffer α) :=
  b.scatter (List.finRange n) (fun c => base + c) v

/-- A tile is loaded when all its elements are there, and has them. -/
theorem tileLoadd_eq_some {width : Nat} (hwidth : 0 < width) {b : Buffer α} {base rowStride : Nat}
    {t : Tile n α} :
    tileLoadd n width b base (rowStride * width) = some t ↔
      ∀ (r : Fin 16) (c : Fin n), b.load (base + r * rowStride + c) = some (t r c) := by
  have haddress : ∀ r : Fin 16, r.val * (rowStride * width) / width = r.val * rowStride := by
    intro r
    rw [← Nat.mul_assoc, Nat.mul_div_cancel _ hwidth]
  rw [tileLoadd, Option.map_eq_some_iff]
  simp only [haddress]
  constructor
  · intro h
    obtain ⟨g, hg, hgt⟩ := h
    intro r c
    rw [← hgt]
    exact gather_eq_some.mp hg (r, c)
  · intro h
    exact ⟨fun p => t p.1 p.2, gather_eq_some.mpr fun p => h p.1 p.2, rfl⟩

/-- A tile store, when its rows do not overlap and end inside the buffer. -/
theorem tileStored_eq {width : Nat} (hwidth : 0 < width) (t : Tile n α) {b : Buffer α}
    {base rowStride : Nat} (hrows : n ≤ rowStride) (hinside : base + 15 * rowStride + n ≤ b.size) :
    ∃ b', tileStored width t b base (rowStride * width) = some b' ∧ b'.size = b.size ∧
      (∀ (r : Fin 16) (c : Fin n), b'.load (base + r * rowStride + c) = some (t r c)) ∧
      ∀ a, (∀ (r : Fin 16) (c : Fin n), base + r * rowStride + c ≠ a) →
        b'.load a = b.load a := by
  have haddress : ∀ r : Fin 16, r.val * (rowStride * width) / width = r.val * rowStride := by
    intro r
    rw [← Nat.mul_assoc, Nat.mul_div_cancel _ hwidth]
  rw [tileStored]
  simp only [haddress]
  have hinside' : ∀ p ∈ List.finRange 16 ×ˢ List.finRange n,
      base + p.1.val * rowStride + p.2.val < b.size := by
    intro p _
    have hr : p.1.val * rowStride ≤ 15 * rowStride := Nat.mul_le_mul_right _ (by omega)
    have hc := p.2.isLt
    omega
  obtain ⟨b', hstored, hsize, hwritten, hkept⟩ :=
    Buffer.scatter_eq (fun p : Fin 16 × Fin n => t p.1 p.2)
      ((List.nodup_finRange 16).product (List.nodup_finRange n)) hinside'
      (by
        intro p _ q _ hsame
        obtain ⟨hr, hc⟩ := rowMajor_injective (Nat.lt_of_lt_of_le p.2.isLt hrows)
          (Nat.lt_of_lt_of_le q.2.isLt hrows)
          (Nat.add_left_cancel (n := base) (by rw [← Nat.add_assoc, hsame, Nat.add_assoc]))
        exact Prod.ext (Fin.ext hr) (Fin.ext hc))
  refine ⟨b', hstored, hsize, ?_, ?_⟩
  · intro r c
    exact hwritten (r, c) (List.mem_product.mpr ⟨List.mem_finRange _, List.mem_finRange _⟩)
  · intro a hnone
    exact hkept a fun p _ => hnone p.1 p.2

theorem loadVec_eq_some {b : Buffer α} {base : Nat} {v : Fin n → α} :
    loadVec n b base = some v ↔ ∀ c : Fin n, b.load (base + c) = some (v c) :=
  gather_eq_some

theorem storeVec_eq (v : Fin n → α) {b : Buffer α} {base : Nat} (hinside : base + n ≤ b.size) :
    ∃ b', storeVec b base v = some b' ∧ b'.size = b.size ∧
      (∀ c : Fin n, b'.load (base + c) = some (v c)) ∧
      ∀ a, (∀ c : Fin n, base + c ≠ a) → b'.load a = b.load a := by
  obtain ⟨b', hstored, hsize, hwritten, hkept⟩ :=
    Buffer.scatter_eq (b := b) v (List.nodup_finRange n)
      (fun c _ => (Nat.add_lt_add_left c.isLt base).trans_le hinside)
      (fun c _ c' _ hsame => Fin.ext (Nat.add_left_cancel hsame))
  exact ⟨b', hstored, hsize, fun c => hwritten c (List.mem_finRange c),
    fun a hnone => hkept a fun c _ => hnone c⟩

/-- A loop that fills a row, a vector at a time. -/
theorem vecLoop_eq {D base : Nat} (body : Buffer α → Nat → Option (Buffer α)) (new : Nat → α)
    (hn : 0 < n) (hD : n ∣ D) {b : Buffer α} (hsize : base + D ≤ b.size)
    (hbody : ∀ d ∈ counter D n, ∀ c : Buffer α,
      (∀ lane : Fin n, c.load (base + d + lane) = b.load (base + d + lane)) →
        body c d = storeVec c (base + d) fun lane : Fin n => new (d + lane)) :
    ∃ b', (counter D n).foldlM body b = some b' ∧ b'.size = b.size ∧
      (∀ d < D, b'.load (base + d) = some (new d)) ∧
      ∀ a, (∀ d < D, base + d ≠ a) → b'.load a = b.load a := by
  have hstep : ∀ d ∈ counter D n, ∀ c : Buffer α, c.size = b.size →
      (∀ lane : Fin n, c.load (base + d + lane) = b.load (base + d + lane)) →
      ∃ c', body c d = some c' ∧ c'.size = c.size ∧
        (∀ lane : Fin n, c'.load (base + d + lane) = some (new (d + lane))) ∧
        ∀ a, (∀ lane : Fin n, base + d + lane ≠ a) → c'.load a = c.load a := by
    intro d hd c hc hold
    have hlast := counter_inside hn hD hd (Nat.sub_lt hn Nat.one_pos)
    rw [hbody d hd c hold]
    exact storeVec_eq (fun lane : Fin n => new (d + lane)) (by omega)
  obtain ⟨b', hrun, hsize', hnew, hkept⟩ := Buffer.foldlM_owned (nodup_counter hn)
    (fun d hd d' hd' lane lane' hsame =>
      counter_disjoint hn hd hd' lane.isLt lane'.isLt (by omega)) hstep
  refine ⟨b', hrun, hsize', ?_, ?_⟩
  · intro d hd
    obtain ⟨hmem, hsplit⟩ := counter_cover hn hd
    have hcell := hnew _ hmem ⟨d % n, Nat.mod_lt _ hn⟩
    rw [Nat.add_assoc, hsplit] at hcell
    exact hcell
  · intro a hnone
    refine hkept a fun d hd lane hsame => ?_
    exact hnone _ (counter_inside hn hD hd lane.isLt) (by rw [← hsame, Nat.add_assoc])

/-- A loop that fills sixteen rows at a time of a matrix with `D` columns, a tile after the
other. -/
theorem tileLoop_eq {width D R : Nat} (body : Buffer α → Nat → Nat → Option (Buffer α))
    (new : Nat → Nat → α) (hwidth : 0 < width) (hD : 16 ∣ D) {b : Buffer α}
    (hsize : R * 16 * D ≤ b.size)
    (hbody : ∀ qh < R, ∀ dt < D / 16, ∀ b' : Buffer α,
      (∀ r c : Fin 16, b'.load ((qh * 16 + r) * D + (dt * 16 + c)) =
        b.load ((qh * 16 + r) * D + (dt * 16 + c))) →
      body b' qh dt = tileStored width (fun r c : Fin 16 => new (qh * 16 + r) (dt * 16 + c)) b'
        (qh * 16 * D + dt * 16) (D * width)) :
    ∃ b', (List.range R).foldlM (fun b qh =>
        (List.range (D / 16)).foldlM (fun b dt => body b qh dt) b) b = some b' ∧
      b'.size = b.size ∧ ∀ i < R * 16, ∀ d < D, b'.load (i * D + d) = some (new i d) := by
  have hcell : ∀ qh dt r c, qh * 16 * D + dt * 16 + r * D + c =
      (qh * 16 + r) * D + (dt * 16 + c) := by
    intro qh dt r c
    ring
  have hfits : ∀ {dt c}, dt < D / 16 → c < 16 → dt * 16 + c < D := by
    intro dt c hdt hc
    omega
  have hstep : ∀ t ∈ List.range R ×ˢ List.range (D / 16), ∀ c : Buffer α, c.size = b.size →
      (∀ k : Fin 16 × Fin 16, c.load ((t.1 * 16 + k.1) * D + (t.2 * 16 + k.2)) =
        b.load ((t.1 * 16 + k.1) * D + (t.2 * 16 + k.2))) →
      ∃ c', body c t.1 t.2 = some c' ∧ c'.size = c.size ∧
        (∀ k : Fin 16 × Fin 16, c'.load ((t.1 * 16 + k.1) * D + (t.2 * 16 + k.2)) =
          some (new (t.1 * 16 + k.1) (t.2 * 16 + k.2))) ∧
        ∀ a, (∀ k : Fin 16 × Fin 16, (t.1 * 16 + k.1) * D + (t.2 * 16 + k.2) ≠ a) →
          c'.load a = c.load a := by
    rintro ⟨qh, dt⟩ ht c hc hold
    obtain ⟨hqh, hdt⟩ := List.mem_product.mp ht
    rw [List.mem_range] at hqh hdt
    dsimp only at hold ⊢
    have hend : qh * 16 * D + dt * 16 + 15 * D + 16 ≤ c.size := by
      have hrow : (qh * 16 + 15 + 1) * D ≤ R * 16 * D := Nat.mul_le_mul_right _ (by omega)
      have hlast := hfits hdt (show 15 < 16 by decide)
      rw [hc]
      have hsplit : (qh * 16 + 15 + 1) * D = qh * 16 * D + 15 * D + D := by ring
      omega
    obtain ⟨c', hstored, hsize', hnew, hkept⟩ := tileStored_eq hwidth
      (fun r n : Fin 16 => new (qh * 16 + r) (dt * 16 + n)) (show 16 ≤ D by omega) hend
    refine ⟨c', ?_, hsize', ?_, ?_⟩
    · rw [hbody qh hqh dt hdt c fun r n => hold (r, n)]
      exact hstored
    · intro k
      rw [← hcell, hnew k.1 k.2]
    · intro a hnone
      exact hkept a fun r n => hcell qh dt r n ▸ hnone (r, n)
  obtain ⟨b', hrun, hsize', hnew, -⟩ := Buffer.foldlM_owned
    (List.nodup_range.product List.nodup_range)
    (by
      rintro ⟨qh, dt⟩ ht ⟨qh', dt'⟩ ht' k k' hsame
      obtain ⟨-, hdt⟩ := List.mem_product.mp ht
      obtain ⟨-, hdt'⟩ := List.mem_product.mp ht'
      rw [List.mem_range] at hdt hdt'
      obtain ⟨hrow, hcol⟩ := rowMajor_injective (hfits hdt k.2.isLt) (hfits hdt' k'.2.isLt) hsame
      obtain ⟨hqh, -⟩ := rowMajor_injective k.1.isLt k'.1.isLt hrow
      obtain ⟨hdts, -⟩ := rowMajor_injective k.2.isLt k'.2.isLt hcol
      exact Prod.ext hqh hdts) hstep
  refine ⟨b', ?_, hsize', ?_⟩
  · rw [foldlM_product]
    exact hrun
  · intro i hi d hd
    have hmem : (i / 16, d / 16) ∈ List.range R ×ˢ List.range (D / 16) := by
      rw [List.mem_product, List.mem_range, List.mem_range]
      omega
    have hvalue := hnew _ hmem (⟨i % 16, Nat.mod_lt _ (by decide)⟩,
      ⟨d % 16, Nat.mod_lt _ (by decide)⟩)
    dsimp only at hvalue
    rw [Nat.div_add_mod' i 16, Nat.div_add_mod' d 16] at hvalue
    exact hvalue

end Memory

/-! ## 32-bit sums -/

/-- A number in a 32-bit lane. -/
def int32 (x : Int) : Int :=
  x.bmod (2 ^ 32)

/-- What a 32-bit sum that leaves its range does: the hardware's wraps, and one that traps
is there to say that none does. -/
inductive Overflow where
  | wraps
  | traps
  deriving DecidableEq

/-- The sum of two 32-bit integers. -/
def addInt32 (mode : Overflow) (c x : Int) : Option Int :=
  match mode with
  | .wraps => some (int32 (c + x))
  | .traps => if -2 ^ 31 ≤ c + x ∧ c + x < 2 ^ 31 then some (c + x) else none

theorem addInt32_eq {mode : Overflow} {c x : Int} (h : -2 ^ 31 ≤ c + x ∧ c + x < 2 ^ 31) :
    addInt32 mode c x = some (c + x) := by
  cases mode with
  | wraps =>
      rw [addInt32, int32, Int.bmod_eq_of_le (by omega) (by omega)]
  | traps => exact if_pos h

/-- Products of bytes, added one after the other, stay in range as long as they are few. -/
theorem addInt32_foldlM {mode : Overflow} {products : List Int}
    (hproducts : ∀ x ∈ products, |x| ≤ 2 ^ 14) {c : Int}
    (hc : |c| + 2 ^ 14 * products.length < 2 ^ 31) :
    products.foldlM (addInt32 mode) c = some (c + products.sum) := by
  induction products generalizing c with
  | nil => rw [List.sum_nil, add_zero]; rfl
  | cons x products ih =>
      have hx := abs_le.mp (hproducts x List.mem_cons_self)
      rw [List.length_cons, Nat.cast_succ] at hc
      have hcAbs := abs_le.mp (le_refl |c|)
      have hsum : |c + x| ≤ |c| + 2 ^ 14 :=
        (abs_add_le c x).trans (add_le_add_right (hproducts x List.mem_cons_self) |c|)
      rw [List.foldlM_cons, addInt32_eq (by omega), Option.bind_eq_bind, Option.bind_some,
        ih (fun y hy => hproducts y (List.mem_cons_of_mem x hy)) (by omega), List.sum_cons,
        add_assoc]

theorem abs_toInt_mul (x y : Int8) : |x.toInt * y.toInt| ≤ 2 ^ 14 := by
  have hbound : ∀ z : Int8, |z.toInt| ≤ 2 ^ 7 := by
    intro z
    have hlow := z.le_toInt
    have hhigh := z.toInt_lt
    exact abs_le.mpr ⟨by omega, by omega⟩
  calc |x.toInt * y.toInt| = |x.toInt| * |y.toInt| := abs_mul _ _
    _ ≤ 2 ^ 7 * 2 ^ 7 := mul_le_mul (hbound x) (hbound y) (abs_nonneg _) (by decide)
    _ = 2 ^ 14 := by decide

/-! ## The products -/

/-- `TDPBF16PS`: pairs of the first operand's row times the pairs of the packed second. -/
def tdpbf16ps {F : Type} [CommSemiring F] (c : Tile 16 F) (a b : Tile 32 F) : Tile 16 F :=
  fun m n => c m n + ∑ k : Fin 16,
    (a m (Fin.ofNat 32 (2 * k)) * b k (Fin.ofNat 32 (2 * n)) +
      a m (Fin.ofNat 32 (2 * k + 1)) * b k (Fin.ofNat 32 (2 * n + 1)))

section Bf16

variable {F : Type} [CommSemiring F]

/-- With the second operand packed in pairs, the product of the matrices is added. -/
theorem tdpbf16ps_packed (c : Tile 16 F) (a : Nat → Nat → F) (b : Nat → Nat → F) :
    tdpbf16ps c (fun m j => a m j) (fun k j => b (2 * k + j % 2) (j / 2)) =
      c + fun (m n : Fin 16) => ∑ j ∈ Finset.range 32, a m j * b j n := by
  funext m n
  have hn : n.val < 16 := n.isLt
  have hpairs := sum_tiles 16 2 fun j => a m j * b j n
  refine congrArg (c m n + ·) (Eq.trans ?_ hpairs)
  rw [Finset.sum_range]
  refine Finset.sum_congr rfl fun k _ => ?_
  have hk : k.val < 16 := k.isLt
  have hval : ∀ j, j < 32 → (Fin.ofNat 32 j).val = j := fun j hj => Nat.mod_eq_of_lt hj
  dsimp only
  rw [Finset.sum_range_succ, Finset.sum_range_one, hval (2 * k) (by omega),
    hval (2 * k + 1) (by omega), hval (2 * n) (by omega), hval (2 * n + 1) (by omega),
    Nat.mul_mod_right, Nat.mul_div_cancel_left n.val Nat.two_pos, Nat.mul_add_mod,
    Nat.mul_add_div Nat.two_pos, Nat.mul_comm k.val 2]
  rfl

end Bf16

theorem neZero_sixteen : NeZero 16 := ⟨by decide⟩

attribute [local instance] neZero_sixteen

/-- `TDPBSSD`: groups of four of the first operand's row times the groups of the packed
second, each product added to the element in turn. -/
def tdpbssd (mode : Overflow) (c : Tile 16 Int) (a b : Tile 64 Int8) : Option (Tile 16 Int) :=
  (gather fun p : Fin 16 × Fin 16 =>
    ((List.range 16 ×ˢ List.range 4).map fun k =>
      (a p.1 (Fin.ofNat 64 (4 * k.1 + k.2))).toInt *
        (b (Fin.ofNat 16 k.1) (Fin.ofNat 64 (4 * p.2 + k.2))).toInt).foldlM (addInt32 mode)
          (c p.1 p.2)).map fun t m n => t (m, n)

/-- With the second operand packed in groups of four, and the element not too large before,
the product of the matrices is added, without an overflow on the way. -/
theorem tdpbssd_packed {mode : Overflow} {c : Tile 16 Int} (hc : ∀ m n, |c m n| < 2 ^ 30)
    (a b : Nat → Nat → Int8) :
    tdpbssd mode c (fun m j => a m j) (fun k j => b (4 * k + j % 4) (j / 4)) =
      some (c + fun (m n : Fin 16) =>
        ∑ j ∈ Finset.range 64, (a m j).toInt * (b j n).toInt) := by
  have helement : ∀ m n : Fin 16, ((List.range 16 ×ˢ List.range 4).map fun k =>
      (a m (Fin.ofNat 64 (4 * k.1 + k.2))).toInt *
        (b (4 * (Fin.ofNat 16 k.1) + (Fin.ofNat 64 (4 * n + k.2)).val % 4)
          ((Fin.ofNat 64 (4 * n + k.2)).val / 4)).toInt).foldlM (addInt32 mode) (c m n) =
      some (c m n + ∑ j ∈ Finset.range 64, (a m j).toInt * (b j n).toInt) := by
    intro m n
    have hn : n.val < 16 := n.isLt
    rw [addInt32_foldlM]
    · refine congrArg (fun s => some (c m n + s)) ?_
      rw [sum_map_product, sum_map_range, ← sum_tiles 16 4]
      refine Finset.sum_congr rfl fun k hk => ?_
      rw [sum_map_range]
      refine Finset.sum_congr rfl fun j hj => ?_
      rw [Finset.mem_range] at hk hj
      have hval : ∀ i, i < 64 → (Fin.ofNat 64 i).val = i := fun i hi => Nat.mod_eq_of_lt hi
      have hrow : (Fin.ofNat 16 k).val = k := Nat.mod_eq_of_lt hk
      rw [hval (4 * k + j) (by omega), hval (4 * n + j) (by omega), hrow, Nat.mul_add_mod,
        Nat.mod_eq_of_lt hj, Nat.mul_add_div (by decide), Nat.div_eq_of_lt hj, Nat.add_zero,
        Nat.mul_comm 4 k]
    · intro x hx
      obtain ⟨k, -, rfl⟩ := List.mem_map.mp hx
      exact abs_toInt_mul _ _
    · have hc := hc m n
      rw [List.length_map, List.length_product, List.length_range, List.length_range]
      omega
  have hall := gather_eq_some.mpr fun p : Fin 16 × Fin 16 => helement p.1 p.2
  rw [tdpbssd, hall]
  rfl

end Repercep.Kernels
