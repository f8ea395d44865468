import Mathlib
import Repercep.Foundation.Buffer
set_option autoImplicit false

/-!
# Tensors in row-major order

A tensor is a shape and its elements, the last axis the fastest.  `reshape` keeps the elements
and gives them another shape, one of its axes found from the others where it is given as -1;
`permute` moves the axes.  What a tensor holds is what it returns at the indices inside its
shape.
-/

namespace Repercep.Foundation

/-! ## Indices -/

/-- An index inside a shape. -/
def Inside (idx shape : List Nat) : Prop :=
  List.Forall₂ (· < ·) idx shape

/-- The place of an index among the elements. -/
def ravel : List Nat → List Nat → Nat
  | _ :: shape, i :: idx => i * shape.prod + ravel shape idx
  | _, _ => 0

/-- The index of a place. -/
def unravel : List Nat → Nat → List Nat
  | [], _ => []
  | _ :: shape, k => k / shape.prod :: unravel shape (k % shape.prod)

theorem ravel_lt {idx shape : List Nat} (h : Inside idx shape) : ravel shape idx < shape.prod := by
  induction h with
  | nil => exact Nat.one_pos
  | cons hi _ ih =>
      rw [ravel, List.prod_cons]
      exact lt_mul_of_lt hi ih

theorem unravel_ravel {idx shape : List Nat} (h : Inside idx shape) :
    unravel shape (ravel shape idx) = idx := by
  induction h with
  | nil => rfl
  | @cons i n idx shape _ hrest ih =>
      have hlt := ravel_lt hrest
      rw [ravel, unravel, Nat.add_comm, Nat.add_mul_div_right _ _ (by omega),
        Nat.div_eq_of_lt hlt, Nat.zero_add, Nat.add_mul_mod_self_right, Nat.mod_eq_of_lt hlt, ih]

/-- An index below the size of a shape leaves one below the size of the rest. -/
theorem mod_lt_prod {n k : Nat} {shape : List Nat} (h : k < (n :: shape).prod) :
    k % shape.prod < shape.prod := by
  rw [List.prod_cons] at h
  refine Nat.mod_lt k (Nat.pos_of_ne_zero fun hzero => ?_)
  rw [hzero, Nat.mul_zero] at h
  exact Nat.not_lt_zero k h

theorem inside_unravel {shape : List Nat} {k : Nat} (h : k < shape.prod) :
    Inside (unravel shape k) shape := by
  induction shape generalizing k with
  | nil => exact List.Forall₂.nil
  | cons n shape ih =>
      refine List.Forall₂.cons ?_ (ih (mod_lt_prod h))
      rw [List.prod_cons] at h
      exact Nat.div_lt_of_lt_mul (Nat.mul_comm n _ ▸ h)

theorem ravel_unravel {shape : List Nat} {k : Nat} (h : k < shape.prod) :
    ravel shape (unravel shape k) = k := by
  induction shape generalizing k with
  | nil => exact (Nat.lt_one_iff.mp h).symm
  | cons n shape ih =>
      rw [unravel, ravel, ih (mod_lt_prod h)]
      exact Nat.div_add_mod' k _

/-! ## Tensors -/

/-- A shape and as many elements. -/
@[ext]
structure Tensor (α : Type) where
  shape : List Nat
  data : List α
  size : data.length = shape.prod

namespace Tensor

variable {α β : Type}

theorem size_ofFn (shape : List Nat) (f : List Nat → α) :
    ((List.range shape.prod).map fun k => f (unravel shape k)).length = shape.prod := by
  rw [List.length_map, List.length_range]

/-- The tensor with a given element at each index. -/
def ofFn (shape : List Nat) (f : List Nat → α) : Tensor α :=
  ⟨shape, (List.range shape.prod).map fun k => f (unravel shape k), size_ofFn shape f⟩

/-- The element at an index. -/
def get [Inhabited α] (t : Tensor α) (idx : List Nat) : α :=
  t.data.getD (ravel t.shape idx) default

theorem get_ofFn [Inhabited α] {shape idx : List Nat} (f : List Nat → α) (h : Inside idx shape) :
    (ofFn shape f).get idx = f idx := by
  have hlt : ravel shape idx < shape.prod := ravel_lt h
  rw [get, ofFn, List.getD_eq_getElem?_getD, List.getElem?_map, List.getElem?_range hlt]
  exact congrArg f (unravel_ravel h)

/-- Tensors of one shape with the same elements are the same. -/
theorem ext_get [Inhabited α] {t t' : Tensor α} (hshape : t.shape = t'.shape)
    (hget : ∀ idx, Inside idx t.shape → t.get idx = t'.get idx) : t = t' := by
  refine Tensor.ext hshape (List.ext_getElem? fun k => ?_)
  rcases Nat.lt_or_ge k t.shape.prod with hk | hk
  · have hk' : k < t'.data.length := by rw [t'.size, ← hshape]; exact hk
    have hsame := hget _ (inside_unravel hk)
    rw [get, get, ← hshape, ravel_unravel hk, List.getD_eq_getElem _ _ (t.size ▸ hk),
      List.getD_eq_getElem _ _ hk'] at hsame
    rw [List.getElem?_eq_getElem (t.size ▸ hk), List.getElem?_eq_getElem hk', hsame]
  · rw [List.getElem?_eq_none (t.size ▸ hk),
      List.getElem?_eq_none (by rw [t'.size, ← hshape]; exact hk)]

/-- The same elements, each made into another one. -/
def mapIdx [Inhabited α] (t : Tensor α) (f : List Nat → α → β) : Tensor β :=
  ofFn t.shape fun idx => f idx (t.get idx)

theorem get_mapIdx [Inhabited α] [Inhabited β] (t : Tensor α) (f : List Nat → α → β)
    {idx : List Nat} (h : Inside idx t.shape) : (t.mapIdx f).get idx = f idx (t.get idx) :=
  get_ofFn _ h

/-! ## Reshaping -/

/-- The shape that `dims` asks of `numel` elements. -/
def inferShape (numel : Nat) (dims : List Int) : Option (List Nat) :=
  let known := (dims.filter (· ≠ -1)).map Int.toNat
  if dims.any (· < -1) then none
  else if dims.count (-1) = 0 then if known.prod = numel then some known else none
  else if dims.count (-1) = 1 then
    -- an axis of -1 is whatever the others leave, where that says anything
    if known.prod = 0 ∨ numel % known.prod ≠ 0 then none
    else some (dims.map fun d => if d = -1 then numel / known.prod else d.toNat)
  else none

section Infer

variable (known : List Nat)

theorem casts_nonneg : ∀ d ∈ known.map (Nat.cast : Nat → Int), 0 ≤ d := by
  intro d hd
  obtain ⟨n, -, rfl⟩ := List.mem_map.mp hd
  exact Int.natCast_nonneg n

theorem casts_filter : (known.map (Nat.cast : Nat → Int)).filter (· ≠ -1) =
    known.map (Nat.cast : Nat → Int) := by
  refine List.filter_eq_self.mpr fun d hd => decide_eq_true fun h => ?_
  have hnonneg := casts_nonneg known d hd
  omega

theorem casts_toNat : (known.map (Nat.cast : Nat → Int)).map Int.toNat = known := by
  rw [List.map_map]
  exact (List.map_congr_left fun n _ => Int.toNat_natCast n).trans (List.map_id known)

theorem casts_count : (known.map (Nat.cast : Nat → Int)).count (-1) = 0 := by
  refine List.count_eq_zero.mpr fun hmem => ?_
  have hnonneg := casts_nonneg known _ hmem
  omega

theorem casts_any : (known.map (Nat.cast : Nat → Int)).any (· < -1) = false := by
  refine List.any_eq_false.mpr fun d hd h => ?_
  have hnonneg := casts_nonneg known d hd
  have hneg := of_decide_eq_true h
  omega

theorem casts_replace (n : Nat) : ((known.map (Nat.cast : Nat → Int)).map fun d =>
    if d = -1 then n else d.toNat) = known := by
  rw [List.map_map]
  refine (List.map_congr_left fun m _ => ?_).trans (List.map_id known)
  have hne : (m : Int) ≠ -1 := by omega
  change (if (m : Int) = -1 then n else (m : Int).toNat) = m
  rw [if_neg hne, Int.toNat_natCast]

theorem inferShape_known : inferShape known.prod (known.map (Nat.cast : Nat → Int)) = some known := by
  simp only [inferShape, casts_filter, casts_toNat, casts_count, casts_any]
  simp

variable {known}

theorem inferShape_first (n : Nat) (hpos : 0 < known.prod) :
    inferShape (n * known.prod) (-1 :: known.map (Nat.cast : Nat → Int)) = some (n :: known) := by
  have hne : known.prod ≠ 0 := Nat.ne_of_gt hpos
  simp only [inferShape, List.any_cons, casts_any, List.count_cons_self, casts_count,
    List.map_cons, casts_replace]
  rw [List.filter_cons_of_neg (by simp), casts_filter, casts_toNat]
  simp [hne, Nat.mul_div_cancel n hpos]

theorem inferShape_last (n : Nat) (hpos : 0 < known.prod) :
    inferShape (known.prod * n) (known.map (Nat.cast : Nat → Int) ++ [-1]) =
      some (known ++ [n]) := by
  have hne : known.prod ≠ 0 := Nat.ne_of_gt hpos
  simp only [inferShape, List.any_append, casts_any, List.count_append, casts_count,
    List.map_append, casts_replace, List.filter_append, casts_filter, casts_toNat]
  simp [hne, Nat.mul_div_cancel_left n hpos]

end Infer

/-- `reshape`. -/
def reshape (t : Tensor α) (dims : List Int) : Option (Tensor α) :=
  match inferShape t.shape.prod dims with
  | none => none
  | some shape => if h : t.data.length = shape.prod then some ⟨shape, t.data, h⟩ else none

theorem reshape_eq {t : Tensor α} {dims : List Int} {shape : List Nat}
    (h : inferShape t.shape.prod dims = some shape) (hsize : t.shape.prod = shape.prod) :
    ∃ t', t.reshape dims = some t' ∧ t'.shape = shape ∧ t'.data = t.data := by
  refine ⟨⟨shape, t.data, t.size.trans hsize⟩, ?_, rfl, rfl⟩
  rw [reshape, h]
  exact dif_pos (t.size.trans hsize)

/-- What a reshaped tensor holds at an index it held at the index of the same place. -/
theorem get_of_data [Inhabited α] (t t' : Tensor α) (hdata : t'.data = t.data)
    {idx idx' : List Nat} (hplace : ravel t'.shape idx' = ravel t.shape idx) : t'.get idx' = t.get idx := by
  rw [get, get, hdata, hplace]

/-! ## Moving axes -/

/-- The entries of a list that `dims` names, in its order. -/
def pick (dims xs : List Nat) : List Nat :=
  dims.map fun d => xs.getD d 0

/-- The order that undoes `dims`. -/
def inverse (dims : List Nat) : List Nat :=
  (List.range dims.length).map dims.idxOf

/-- `permute`. -/
def permute [Inhabited α] (t : Tensor α) (dims : List Nat) : Tensor α :=
  ofFn (pick dims t.shape) fun idx => t.get (pick (inverse dims) idx)

theorem pick_inside {dims idx shape : List Nat} (h : Inside idx shape)
    (hdims : ∀ d ∈ dims, d < shape.length) : Inside (pick dims idx) (pick dims shape) := by
  refine List.forall₂_map_left_iff.mpr (List.forall₂_map_right_iff.mpr ?_)
  refine List.forall₂_same.mpr fun d hd => ?_
  have hlength := h.length_eq
  have hlt := hdims d hd
  rw [List.getD_eq_getElem _ _ (hlength ▸ hlt), List.getD_eq_getElem _ _ hlt]
  exact List.Forall₂.get h (hlength ▸ hlt) hlt

/-- Undoing a permutation of the axes. -/
theorem pick_pick_inverse {dims xs : List Nat} (hdims : dims.Perm (List.range xs.length)) :
    pick (inverse dims) (pick dims xs) = xs := by
  have hlength : dims.length = xs.length := by rw [hdims.length_eq, List.length_range]
  refine List.ext_getElem ?_ fun j hj hj' => ?_
  · rw [pick, inverse, List.length_map, List.length_map, List.length_range, hlength]
  · have hmem : j ∈ dims := hdims.mem_iff.mpr (List.mem_range.mpr hj')
    have hidx : dims.idxOf j < dims.length := List.idxOf_lt_length_of_mem hmem
    simp only [pick, inverse, List.getElem_map, List.getElem_range]
    rw [List.getD_eq_getElem _ _ (by rw [List.length_map]; exact hidx), List.getElem_map,
      List.getElem_idxOf hidx, List.getD_eq_getElem _ _ hj']

theorem get_permute [Inhabited α] {t : Tensor α} {dims idx : List Nat}
    (h : Inside idx (pick dims t.shape)) :
    (t.permute dims).get idx = t.get (pick (inverse dims) idx) :=
  get_ofFn _ h

theorem permute_permute [Inhabited α] {t : Tensor α} {dims : List Nat}
    (hdims : dims.Perm (List.range t.shape.length)) (hinverse : inverse (inverse dims) = dims) :
    (t.permute dims).permute (inverse dims) = t := by
  have hshape : ((t.permute dims).permute (inverse dims)).shape = t.shape :=
    pick_pick_inverse hdims
  refine ext_get hshape fun idx hidx => ?_
  have hinside : Inside idx t.shape := hshape ▸ hidx
  have hmoved : Inside (pick dims idx) (pick dims t.shape) :=
    pick_inside hinside fun d hd => List.mem_range.mp (hdims.mem_iff.mp hd)
  rw [get_permute hidx, hinverse, get_permute hmoved,
    pick_pick_inverse (by rw [hinside.length_eq]; exact hdims)]

/-! ## Axes of one element, and of many -/

/-- `t[i]`. -/
def select [Inhabited α] (t : Tensor α) (i : Nat) : Option (Tensor α) :=
  match t.shape with
  | [] => none
  | n :: shape => if i < n then some (ofFn shape fun idx => t.get (i :: idx)) else none

theorem select_eq [Inhabited α] {t : Tensor α} {n i : Nat} {shape : List Nat}
    (hshape : t.shape = n :: shape) (hi : i < n) :
    t.select i = some (ofFn shape fun idx => t.get (i :: idx)) := by
  rw [select, hshape]
  exact if_pos hi

/-- `t[..., i]`. -/
def selectLast [Inhabited α] (t : Tensor α) (i : Nat) : Option (Tensor α) :=
  match t.shape.getLast? with
  | none => none
  | some n =>
    if i < n then some (ofFn t.shape.dropLast fun idx => t.get (idx ++ [i])) else none

theorem selectLast_eq [Inhabited α] {t : Tensor α} {n i : Nat} {shape : List Nat}
    (hshape : t.shape = shape ++ [n]) (hi : i < n) :
    t.selectLast i = some (ofFn shape fun idx => t.get (idx ++ [i])) := by
  rw [selectLast, hshape, List.getLast?_append_of_ne_nil _ (List.cons_ne_nil n []),
    List.dropLast_append_of_ne_nil (List.cons_ne_nil n []), List.dropLast_singleton,
    List.append_nil]
  exact if_pos hi

/-- `t[is]`. -/
def indexSelect [Inhabited α] (t : Tensor α) (is : List Nat) : Option (Tensor α) :=
  match t.shape with
  | [] => none
  | n :: shape =>
    if is.all (· < n) then
      some (ofFn (is.length :: shape) fun idx => t.get (is.getD (idx.headD 0) 0 :: idx.tail))
    else
      none

theorem indexSelect_eq [Inhabited α] {t : Tensor α} {n : Nat} {shape is : List Nat}
    (hshape : t.shape = n :: shape) (his : ∀ i ∈ is, i < n) :
    t.indexSelect is = some (ofFn (is.length :: shape) fun idx =>
      t.get (is.getD (idx.headD 0) 0 :: idx.tail)) := by
  rw [indexSelect, hshape]
  exact if_pos (List.all_eq_true.mpr fun i hi => decide_eq_true (his i hi))

theorem size_unsqueeze (t : Tensor α) : t.data.length = (1 :: t.shape).prod := by
  rw [List.prod_cons, Nat.one_mul, t.size]

/-- `unsqueeze(0)`. -/
def unsqueeze (t : Tensor α) : Tensor α :=
  ⟨1 :: t.shape, t.data, t.size_unsqueeze⟩

theorem size_unsqueezeLast (t : Tensor α) : t.data.length = (t.shape ++ [1]).prod := by
  rw [List.prod_append, List.prod_singleton, Nat.mul_one, t.size]

/-- `t[..., None]`. -/
def unsqueezeLast (t : Tensor α) : Tensor α :=
  ⟨t.shape ++ [1], t.data, t.size_unsqueezeLast⟩

theorem get_unsqueeze [Inhabited α] (t : Tensor α) (idx : List Nat) :
    t.unsqueeze.get (0 :: idx) = t.get idx := by
  refine get_of_data t t.unsqueeze rfl ?_
  rw [unsqueeze, ravel, Nat.zero_mul, Nat.zero_add]

theorem select_unsqueeze [Inhabited α] (t : Tensor α) : t.unsqueeze.select 0 = some t := by
  rw [select_eq (t := t.unsqueeze) rfl Nat.one_pos]
  refine congrArg some (ext_get rfl fun idx hidx => ?_)
  have hinside : Inside idx t.shape := hidx
  rw [get_ofFn _ hinside, get_unsqueeze]

theorem unsqueeze_select [Inhabited α] {t t' : Tensor α} {shape : List Nat}
    (hshape : t.shape = 1 :: shape) (h : t.select 0 = some t') :
    t'.shape = shape ∧ t'.unsqueeze = t := by
  rw [select_eq hshape Nat.one_pos] at h
  cases h
  refine ⟨rfl, ext_get hshape.symm fun idx hidx => ?_⟩
  cases hidx with
  | @cons i _ idx _ hi hrest =>
      obtain rfl : i = 0 := Nat.lt_one_iff.mp hi
      have hinside : Inside idx shape := hrest
      rw [get_unsqueeze, get_ofFn _ hinside]

theorem ravel_append_one {idx shape : List Nat} (h : Inside idx shape) :
    ravel (shape ++ [1]) (idx ++ [0]) = ravel shape idx := by
  induction h with
  | nil => rfl
  | @cons i n idx shape _ _ ih =>
      change i * (shape ++ [1]).prod + ravel (shape ++ [1]) (idx ++ [0]) = _
      rw [ih, List.prod_append, List.prod_singleton, Nat.mul_one]
      rfl

theorem get_unsqueezeLast [Inhabited α] (t : Tensor α) {idx : List Nat}
    (h : Inside idx t.shape) : t.unsqueezeLast.get (idx ++ [0]) = t.get idx :=
  get_of_data t t.unsqueezeLast rfl (ravel_append_one h)

end Tensor

end Repercep.Foundation
