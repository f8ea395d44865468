import Mathlib
import Repercep.Kernels.Attention
import Repercep.Kernels.Fp8Flash
set_option autoImplicit false

/-!
# The FP8 kernel is softmax attention

Each row of a program keeps the state of the scores it has seen, ragged ends and causal mask
included; the dequantisation scales move into the scores and the values.  The programs of a
launch store each element of the output once, whatever the tile shape.
-/

namespace Repercep.Kernels

open Foundation

namespace Fp8Flash

/-! ## One program -/

section Program

variable {F : Type} [Field F] [LinearOrder F]

/-- Rows past the end are zero. -/
def padded (limit : Nat) (f : Nat → Nat → F) (i c : Nat) : F :=
  if i < limit then f i c else 0

omit [LinearOrder F] in
theorem loadTile_eq {n d : Nat} {X : Buffer F} {off limit : Nat} {stride : Strides}
    {rows : Fin n → Nat} {f : Nat → Nat → F}
    (hX : ∀ i < limit, ∀ c < d, X.load (off + i * stride.row + c * stride.d) = some (f i c)) :
    loadTile d X off stride limit rows =
      some fun (i : Fin n) (c : Fin d) => padded limit f (rows i) c := by
  have hall : gather (fun p : Fin n × Fin d =>
      if rows p.1 < limit then X.load (off + rows p.1 * stride.row + p.2 * stride.d)
      else some 0) = some fun p => padded limit f (rows p.1) p.2 := by
    refine gather_eq_some.mpr fun p => ?_
    rw [padded]
    split
    · next hin => rw [hX _ hin _ p.2.isLt]
    · rfl
  rw [loadTile, hall]
  rfl

/-- The score of key `j` for query `i`, masked past the end and by the causal mask. -/
def score (causal : Bool) (Skv d : Nat) (qkScale : F) (q k : Nat → Nat → F) (i j : Nat) :
    WithBot F :=
  if j < Skv then
    (if causal ∧ i < j then ⊥
      else (((∑ c ∈ Finset.range d, q i c * k j c) * qkScale : F) : WithBot F))
  else
    ⊥

omit [LinearOrder F] in
/-- The first key is visible to every query. -/
theorem score_zero {causal : Bool} {Skv d i : Nat} {qkScale : F} {q k : Nat → Nat → F}
    (hSkv : 0 < Skv) : score causal Skv d qkScale q k i 0 ≠ ⊥ := by
  rw [score, if_pos hSkv, if_neg fun h => Nat.not_lt_zero i h.2]
  exact WithBot.coe_ne_bot

omit [LinearOrder F] in
/-- The two masks of the kernel, one after the other. -/
theorem masked_eq (causal : Bool) (Skv d : Nat) (qkScale : F) (q k : Nat → Nat → F) (i j : Nat) :
    (if j < Skv then
      if causal then
        if i ≥ j then
          (((∑ c : Fin d, q i c * padded Skv k j c) * qkScale : F) : WithBot F)
        else ⊥
      else (((∑ c : Fin d, q i c * padded Skv k j c) * qkScale : F) : WithBot F)
    else ⊥) = score causal Skv d qkScale q k i j := by
  rw [score]
  split
  · next hin =>
      have hdot : ∑ c : Fin d, q i c * padded Skv k j c = ∑ c ∈ Finset.range d, q i c * k j c := by
        rw [Finset.sum_range]
        refine Finset.sum_congr rfl fun c _ => ?_
        rw [padded, if_pos hin]
      rw [hdot]
      cases causal with
      | false => rfl
      | true =>
          simp only [if_true, true_and]
          split
          · next hvisible => rw [if_neg (Nat.not_lt.mpr hvisible)]
          · next hmasked => rw [if_pos (Nat.lt_of_not_le hmasked)]
  · rfl

omit [LinearOrder F] in
/-- The weights are scaled up for the product and the result back down. -/
theorem weighted_eq {fp8Max : F} (hmax : fp8Max ≠ 0) {n : Nat} (p f : Nat → F) (vScale : F) :
    (∑ j : Fin n, p j * fp8Max * f j) * (vScale / fp8Max) =
      ∑ j ∈ Finset.range n, p j * (vScale * f j) := by
  rw [Finset.sum_mul, Finset.sum_range]
  refine Finset.sum_congr rfl fun j _ => ?_
  field_simp

/-- One row of the running state. -/
def Online.row {m d : Nat} (st : Online m d F) (i : Fin m) : RowState F (Fin d) :=
  ⟨st.mI i, st.lI i, st.acc i⟩

theorem le_cdiv_mul (a : Nat) {b : Nat} (hb : 0 < b) : a ≤ cdiv a b * b := by
  have hsplit := Nat.div_add_mod' (a + b - 1) b
  have hmod := Nat.mod_lt (a + b - 1) hb
  rw [cdiv]
  omega

variable {e : WithBot F → F} (he : IsExp e) {x : Args F} {m d kOff vOff : Nat}
  {offsM : Fin m → Nat} {q k v : Nat → Nat → F} {qkScale vScale : F}
include he

/-- One key tile is taken in, in every row. -/
theorem keyTile_eq (hN : 0 < x.blockN) (hmax : x.fp8Max ≠ 0) (hSkv : 0 < x.Skv)
    (hK : ∀ j < x.Skv, ∀ c < d, x.K.load (kOff + j * x.kStride.row + c * x.kStride.d) =
      some (k j c))
    (hV : ∀ j < x.Skv, ∀ c < d, x.V.load (vOff + j * x.vStride.row + c * x.vStride.d) =
      some (v j c)) {st : Online m d F} {nIdx : Nat}
    (hst : ∀ i, RowState.Tracks e (score x.causal x.Skv d qkScale q k (offsM i))
      (fun j (c : Fin d) => vScale * padded x.Skv v j c) (nIdx * x.blockN) (st.row i)) :
    ∃ st', keyTile e x kOff vOff offsM (fun i (c : Fin d) => q (offsM i) c) qkScale vScale st
        nIdx = some st' ∧
      ∀ i, RowState.Tracks e (score x.causal x.Skv d qkScale q k (offsM i))
        (fun j (c : Fin d) => vScale * padded x.Skv v j c) ((nIdx + 1) * x.blockN)
        (st'.row i) := by
  have htile : ∀ i, ∃ mNew : F,
      max (st.mI i) (Finset.univ.sup fun j : Fin x.blockN =>
        score x.causal x.Skv d qkScale q k (offsM i) (nIdx * x.blockN + j)) = mNew ∧
      RowState.Tracks e (score x.causal x.Skv d qkScale q k (offsM i))
        (fun j (c : Fin d) => vScale * padded x.Skv v j c) ((nIdx + 1) * x.blockN)
        (((st.row i).rescaled e e x.blockN
          (fun j => score x.causal x.Skv d qkScale q k (offsM i) (nIdx * x.blockN + j)) mNew).add
        fun c => ∑ j ∈ Finset.range x.blockN,
          RowState.weights e
            (fun j => score x.causal x.Skv d qkScale q k (offsM i) (nIdx * x.blockN + j)) mNew j *
            (vScale * padded x.Skv v (nIdx * x.blockN + j) c)) := by
    intro i
    have hpos : 0 < nIdx * x.blockN + x.blockN := by omega
    obtain ⟨mAll, hmAll⟩ := WithBot.ne_bot_iff_exists.mp
      (sup_ne_bot hpos (@score_zero F _ x.causal x.Skv d (offsM i) qkScale q k hSkv))
    obtain ⟨r, habsorb, htracks, -⟩ := (hst i).absorb he (fun _ _ => rfl) hmAll.symm
    obtain ⟨mNew, hmNew, hr⟩ := RowState.absorb_eq_some habsorb
    refine ⟨mNew, ?_, ?_⟩
    · rw [univ_sup_fin x.blockN fun j =>
        score x.causal x.Skv d qkScale q k (offsM i) (nIdx * x.blockN + j)]
      exact hmNew
    · rw [Nat.succ_mul, ← hr]
      exact htracks
  choose mNew hmNew htracks using htile
  have hfinite : gather (fun i => finite (max (st.mI i) (Finset.univ.sup fun j : Fin x.blockN =>
      score x.causal x.Skv d qkScale q k (offsM i) (nIdx * x.blockN + j)))) = some mNew := by
    refine gather_eq_some.mpr fun i => ?_
    rw [hmNew i]
    rfl
  simp only [keyTile, loadTile_eq hK, loadTile_eq hV, Option.bind_eq_bind, Option.bind_some,
    masked_eq]
  simp only [hfinite, Option.bind_some]
  refine ⟨_, rfl, fun i => ?_⟩
  convert htracks i using 1
  let p := RowState.weights e
    (fun j => score x.causal x.Skv d qkScale q k (offsM i) (nIdx * x.blockN + j)) (mNew i)
  rw [Online.row, RowState.add, RowState.rescaled, RowState.mk.injEq]
  refine ⟨rfl, ?_, funext fun c => ?_⟩
  · exact congrArg₂ (· + ·) (mul_comm _ _) (Finset.sum_range p).symm
  · exact congrArg₂ (· + ·) (mul_comm _ _)
      (weighted_eq hmax p (fun j => padded x.Skv v (nIdx * x.blockN + j) c) vScale)

/-- The key loop leaves each row with the state of all its scores. -/
theorem keyTiles_eq (hN : 0 < x.blockN) (hmax : x.fp8Max ≠ 0) (hSkv : 0 < x.Skv)
    (hK : ∀ j < x.Skv, ∀ c < d, x.K.load (kOff + j * x.kStride.row + c * x.kStride.d) =
      some (k j c))
    (hV : ∀ j < x.Skv, ∀ c < d, x.V.load (vOff + j * x.vStride.row + c * x.vStride.d) =
      some (v j c)) (n : Nat) :
    ∃ st, (List.range n).foldlM (keyTile e x kOff vOff offsM (fun i (c : Fin d) => q (offsM i) c)
        qkScale vScale) Online.start = some st ∧
      ∀ i, RowState.Tracks e (score x.causal x.Skv d qkScale q k (offsM i))
        (fun j (c : Fin d) => vScale * padded x.Skv v j c) (n * x.blockN) (st.row i) := by
  refine foldlM_range (I := fun n (st : Online m d F) => ∀ i, RowState.Tracks e
    (score x.causal x.Skv d qkScale q k (offsM i))
    (fun j (c : Fin d) => vScale * padded x.Skv v j c) (n * x.blockN) (st.row i)) ?_ ?_
  · intro i
    rw [Nat.zero_mul]
    exact RowState.tracks_start
  · intro nIdx st _ hst
    exact keyTile_eq he hN hmax hSkv hK hV hst

/-- One head's row of softmax attention, the scales still to be taken in. -/
def headRow (e : WithBot F → F) (causal : Bool) (Skv D : Nat) (qkScale vScale : F)
    (q k v : Nat → Nat → F) (i c : Nat) : F :=
  softmaxRow e Skv (score causal Skv D qkScale q k i) (fun j c => vScale * v j c) c

omit [LinearOrder F] he in
/-- A row inside the output uses its own query only. -/
theorem headRow_padded {Sq Skv D i c : Nat} {causal : Bool} (hi : i < Sq) :
    headRow e causal Skv D qkScale vScale (padded Sq q) k v i c =
      headRow e causal Skv D qkScale vScale q k v i c := by
  refine softmaxRow_congr (fun j _ => ?_) fun _ _ => rfl
  simp only [score, padded, if_pos hi]

/-- What the loop leaves, divided, is the softmax row. -/
theorem divide_eq [IsStrictOrderedRing F] {Skv n i : Nat} {causal : Bool} {st : RowState F (Fin d)}
    (hSkv : 0 < Skv) (hn : Skv ≤ n)
    (hst : RowState.Tracks e (score causal Skv d qkScale q k i)
      (fun j (c : Fin d) => vScale * padded Skv v j c) n st) (c : Fin d) :
    divide (st.acc c) st.sum = some (headRow e causal Skv d qkScale vScale q k v i c) := by
  obtain ⟨m, hm⟩ := WithBot.ne_bot_iff_exists.mp
    (sup_ne_bot (hSkv.trans_le hn) (@score_zero F _ causal Skv d i qkScale q k hSkv))
  have hmax : st.max = m := hst.max.trans hm.symm
  have hpast : ∀ j, Skv ≤ j → j < n → score causal Skv d qkScale q k i j = ⊥ :=
    fun j hj _ => if_neg (Nat.not_lt.mpr hj)
  rw [divide, if_neg (ne_of_gt (hst.sum_pos he hmax)), div_eq_mul_one_div, hst.finish he hmax c,
    softmaxRow_masked he hn hpast, headRow]
  refine congrArg some (softmaxRow_congr (fun _ _ => rfl) fun j hj => ?_)
  rw [padded, if_pos hj]

end Program

/-! ## The launch -/

/-- An element of a `(B, H, S, D)` tensor. -/
structure Index where
  b : Nat
  h : Nat
  m : Nat
  d : Nat

/-- The index is one of a tensor of this shape. -/
def Index.Mem (i : Index) (B H S D : Nat) : Prop :=
  i.b < B ∧ i.h < H ∧ i.m < S ∧ i.d < D

/-- Where the element of an index lies. -/
def Index.address (i : Index) (stride : Strides) : Nat :=
  i.b * stride.b + i.h * stride.h + i.m * stride.row + i.d * stride.d

/-- Each element of the tensor is stored once, with its value. -/
def WritesOnce {F : Type} (B H S D : Nat) (stride : Strides) (value : Index → F)
    (writes : List (Nat × F)) : Prop :=
  ∃ cells : List Index, cells.Nodup ∧ (∀ i, i ∈ cells ↔ i.Mem B H S D) ∧
    writes = cells.map fun i => (i.address stride, value i)

theorem WritesOnce.congr {F : Type} {B H S D : Nat} {stride : Strides} {value value' : Index → F}
    {writes : List (Nat × F)} (h : WritesOnce B H S D stride value writes)
    (hvalue : ∀ i, i.Mem B H S D → value i = value' i) :
    WritesOnce B H S D stride value' writes := by
  obtain ⟨cells, hnodup, hmem, rfl⟩ := h
  refine ⟨cells, hnodup, hmem, List.map_congr_left fun i hi => ?_⟩
  rw [hvalue i ((hmem i).mp hi)]

section Cells

variable {B H Sq D blockM blockN : Nat}

/-- The elements of one program's tile that are inside the output. -/
def tileCells (H Sq D blockM : Nat) (pid : Nat × Nat) : List Index :=
  (List.finRange blockM ×ˢ List.finRange D).filterMap fun p =>
    if pid.1 * blockM + p.1 < Sq then
      some ⟨pid.2 / H, pid.2 % H, pid.1 * blockM + p.1, p.2⟩
    else
      none

theorem mem_tileCells {pid : Nat × Nat} {i : Index} :
    i ∈ tileCells H Sq D blockM pid ↔
      i.b = pid.2 / H ∧ i.h = pid.2 % H ∧ i.m < Sq ∧ i.d < D ∧
        ∃ r < blockM, i.m = pid.1 * blockM + r := by
  rw [tileCells, List.mem_filterMap]
  constructor
  · intro h
    obtain ⟨⟨r, c⟩, -, hp⟩ := h
    split at hp
    · next hinside =>
        cases hp
        exact ⟨rfl, rfl, hinside, c.isLt, r, r.isLt, rfl⟩
    · cases hp
  · intro h
    obtain ⟨hb, hh, hm, hd, r, hr, hrow⟩ := h
    refine ⟨(⟨r, hr⟩, ⟨i.d, hd⟩), List.mem_product.mpr ⟨List.mem_finRange _, List.mem_finRange _⟩,
      ?_⟩
    rw [hrow] at hm
    rw [if_pos hm]
    cases i
    simp only at hb hh hrow
    rw [hb, hh, hrow]

theorem nodup_tileCells (pid : Nat × Nat) : (tileCells H Sq D blockM pid).Nodup := by
  refine ((List.nodup_finRange blockM).product (List.nodup_finRange D)).filterMap ?_
  intro p p' i hp hp'
  split at hp
  · split at hp'
    · cases hp
      obtain ⟨-, -, hrow, hcol⟩ := Index.mk.inj (Option.some_inj.mp hp')
      exact Prod.ext (Fin.ext (Nat.add_left_cancel hrow).symm) (Fin.ext hcol.symm)
    · cases hp'
  · cases hp

/-- The elements that a launch stores. -/
def cells (B H Sq D blockM : Nat) : List Index :=
  (List.range (cdiv Sq blockM) ×ˢ List.range (B * H)).flatMap (tileCells H Sq D blockM)

theorem mem_cells (hM : 0 < blockM) {i : Index} :
    i ∈ cells B H Sq D blockM ↔ i.Mem B H Sq D := by
  rw [cells, List.mem_flatMap]
  constructor
  · intro h
    obtain ⟨pid, hpid, hi⟩ := h
    obtain ⟨hb, hh, hm, hd, -⟩ := mem_tileCells.mp hi
    have hbh : pid.2 < B * H := List.mem_range.mp (List.mem_product.mp hpid).2
    have hH : 0 < H := Nat.pos_of_ne_zero fun hzero => by
      rw [hzero, Nat.mul_zero] at hbh
      exact Nat.not_lt_zero _ hbh
    refine ⟨?_, ?_, hm, hd⟩
    · rw [hb]
      exact Nat.div_lt_of_lt_mul (Nat.mul_comm B H ▸ hbh)
    · rw [hh]
      exact Nat.mod_lt _ hH
  · intro h
    obtain ⟨hb, hh, hm, hd⟩ := h
    refine ⟨(i.m / blockM, i.b * H + i.h), List.mem_product.mpr ⟨?_, ?_⟩, mem_tileCells.mpr ?_⟩
    · refine List.mem_range.mpr (Nat.div_lt_of_lt_mul ?_)
      rw [Nat.mul_comm]
      exact hm.trans_le (le_cdiv_mul Sq hM)
    · exact List.mem_range.mpr (lt_mul_of_lt hb hh)
    · have hdiv : (i.b * H + i.h) / H = i.b := by
        rw [Nat.add_comm, Nat.add_mul_div_right _ _ (by omega), Nat.div_eq_of_lt hh, Nat.zero_add]
      have hmod : (i.b * H + i.h) % H = i.h := by
        rw [Nat.mul_add_mod_self_right, Nat.mod_eq_of_lt hh]
      exact ⟨hdiv.symm, hmod.symm, hm, hd, i.m % blockM, Nat.mod_lt _ hM,
        (Nat.div_add_mod' _ _).symm⟩

theorem nodup_cells : (cells B H Sq D blockM).Nodup := by
  rw [cells, List.nodup_flatMap]
  refine ⟨fun pid _ => nodup_tileCells pid, ?_⟩
  refine (List.nodup_range.product List.nodup_range).pairwise_of_forall_ne ?_
  intro pid _ pid' _ hne
  rw [Function.onFun, List.disjoint_left]
  intro i hi hi'
  obtain ⟨hb, hh, -, -, r, hr, hrow⟩ := mem_tileCells.mp hi
  obtain ⟨hb', hh', -, -, r', hr', hrow'⟩ := mem_tileCells.mp hi'
  have hbh : pid.2 = pid'.2 := by
    rw [← Nat.div_add_mod pid.2 H, ← hb, ← hh, hb', hh', Nat.div_add_mod]
  exact hne (Prod.ext (rowMajor_injective hr hr' (hrow.symm.trans hrow')).1 hbh)

end Cells

section Launch

variable {F : Type} [Field F] [LinearOrder F]

/-- The tensors and scales of a launch, as its programs load them. -/
structure Loads (x : Args F) (qs ks vs : Nat → Nat → F) (q k v : Nat → Nat → Nat → Nat → F) :
    Prop where
  qs : ∀ b < x.B, ∀ h < x.H, x.qs.load (b * x.H + h) = some (qs b h)
  ks : ∀ b < x.B, ∀ h < x.H, x.ks.load (b * x.H + h) = some (ks b h)
  vs : ∀ b < x.B, ∀ h < x.H, x.vs.load (b * x.H + h) = some (vs b h)
  Q : ∀ b < x.B, ∀ h < x.H, ∀ i < x.Sq, ∀ c < x.blockD,
    x.Q.load (b * x.qStride.b + h * x.qStride.h + i * x.qStride.row + c * x.qStride.d) =
      some (q b h i c)
  K : ∀ b < x.B, ∀ h < x.H, ∀ j < x.Skv, ∀ c < x.blockD,
    x.K.load (b * x.kStride.b + h * x.kStride.h + j * x.kStride.row + c * x.kStride.d) =
      some (k b h j c)
  V : ∀ b < x.B, ∀ h < x.H, ∀ j < x.Skv, ∀ c < x.blockD,
    x.V.load (b * x.vStride.b + h * x.vStride.h + j * x.vStride.row + c * x.vStride.d) =
      some (v b h j c)

variable {e : WithBot F → F} {x : Args F} {qs ks vs : Nat → Nat → F}
  {q k v : Nat → Nat → Nat → Nat → F}

/-- What a launch stores at each element. -/
def output (e : WithBot F → F) (x : Args F) (qs ks vs : Nat → Nat → F)
    (q k v : Nat → Nat → Nat → Nat → F) (i : Index) : F :=
  headRow e x.causal x.Skv x.blockD (x.smScale * qs i.b i.h * ks i.b i.h) (vs i.b i.h)
    (q i.b i.h) (k i.b i.h) (v i.b i.h) i.m i.d

/-- One program stores its tile of the output. -/
theorem fwdImpl_eq [IsStrictOrderedRing F] (he : IsExp e) (hN : 0 < x.blockN)
    (hmax : x.fp8Max ≠ 0) (hSkv : 0 < x.Skv) (hloads : Loads x qs ks vs q k v) {pid : Nat × Nat}
    (hpid : pid.2 < x.B * x.H) :
    fwdImpl e x pid = some ((tileCells x.H x.Sq x.blockD x.blockM pid).map fun i =>
      (i.address x.oStride, output e x qs ks vs q k v i)) := by
  have hH : 0 < x.H := Nat.pos_of_ne_zero fun hzero => by
    rw [hzero, Nat.mul_zero] at hpid
    exact Nat.not_lt_zero _ hpid
  have hb : pid.2 / x.H < x.B := Nat.div_lt_of_lt_mul (Nat.mul_comm x.B x.H ▸ hpid)
  have hh : pid.2 % x.H < x.H := Nat.mod_lt _ hH
  have hqs := hloads.qs _ hb _ hh
  have hks := hloads.ks _ hb _ hh
  have hvs := hloads.vs _ hb _ hh
  rw [Nat.div_add_mod'] at hqs hks hvs
  simp only [fwdImpl, tileCells, List.map_filterMap, hqs, hks, hvs, Option.bind_eq_bind,
    Option.bind_some]
  generalize pid.2 / x.H = b at *
  generalize pid.2 % x.H = h at *
  obtain ⟨st, hrun, hst⟩ := @keyTiles_eq F _ _ e he x x.blockM x.blockD
    (b * x.kStride.b + h * x.kStride.h) (b * x.vStride.b + h * x.vStride.h)
    (fun i => pid.1 * x.blockM + i) (padded x.Sq (q b h)) (k b h) (v b h)
    (x.smScale * qs b h * ks b h) (vs b h) hN hmax hSkv (hloads.K b hb h hh) (hloads.V b hb h hh)
    (cdiv x.Skv x.blockN)
  have hdivide : gather (fun p : Fin x.blockM × Fin x.blockD =>
      divide (st.acc p.1 p.2) (st.lI p.1)) = some fun p => headRow e x.causal x.Skv x.blockD (x.smScale * qs b h * ks b h) (vs b h)
        (padded x.Sq (q b h)) (k b h) (v b h) (pid.1 * x.blockM + p.1) p.2 :=
    gather_eq_some.mpr fun p => divide_eq he hSkv (le_cdiv_mul x.Skv hN) (hst p.1) p.2
  rw [loadTile_eq (hloads.Q b hb h hh)]
  simp only [Option.bind_some, hrun, hdivide]
  refine congrArg some (List.filterMap_congr fun p _ => ?_)
  split
  · next hinside => rw [headRow_padded hinside]; rfl
  · rfl

/-- The programs of a launch store each element of the output once. -/
theorem launch_eq [IsStrictOrderedRing F] (he : IsExp e) (hM : 0 < x.blockM) (hN : 0 < x.blockN)
    (hmax : x.fp8Max ≠ 0) (hSkv : 0 < x.Sq → 0 < x.Skv) (hloads : Loads x qs ks vs q k v) :
    ∃ writes, launch e x = some writes ∧
      WritesOnce x.B x.H x.Sq x.blockD x.oStride (output e x qs ks vs q k v) writes := by
  have hprograms : ∀ pid ∈ List.range (cdiv x.Sq x.blockM) ×ˢ List.range (x.B * x.H),
      fwdImpl e x pid = some ((tileCells x.H x.Sq x.blockD x.blockM pid).map fun i =>
        (i.address x.oStride, output e x qs ks vs q k v i)) := by
    intro pid hpid
    obtain ⟨hm, hbh⟩ := List.mem_product.mp hpid
    have hSq : 0 < x.Sq := by
      by_contra hnone
      have hzero : cdiv x.Sq x.blockM = 0 := by
        rw [Nat.eq_zero_of_not_pos hnone, cdiv, Nat.zero_add]
        exact Nat.div_eq_of_lt (Nat.sub_lt hM Nat.one_pos)
      rw [hzero] at hm
      exact List.not_mem_nil hm
    exact fwdImpl_eq he hN hmax (hSkv hSq) hloads (List.mem_range.mp hbh)
  refine ⟨_, ?_, cells x.B x.H x.Sq x.blockD x.blockM, nodup_cells, fun i => mem_cells hM, rfl⟩
  rw [launch, mapM_eq_map hprograms, cells, List.map_flatMap, List.flatMap_def]
  rfl

end Launch

/-- The scales move into the scores and the values: the output is softmax attention of the
dequantised tensors. -/
theorem output_eq {x : Args ℝ} {qs ks vs : Nat → Nat → ℝ} {q k v : Nat → Nat → Nat → Nat → ℝ}
    (i : Index) :
    output realExp x qs ks vs q k v i =
      attention x.Skv x.blockD x.smScale x.causal (fun m c => qs i.b i.h * q i.b i.h m c)
        (fun j c => ks i.b i.h * k i.b i.h j c) (fun j c => vs i.b i.h * v i.b i.h j c) i.m
        i.d := by
  rw [output, headRow, attention]
  refine softmaxRow_congr (fun j hj => ?_) fun _ _ => rfl
  rw [score, if_pos hj]
  split
  · rfl
  · refine congrArg WithBot.some ?_
    rw [Finset.sum_mul, Finset.mul_sum]
    refine Finset.sum_congr rfl fun c _ => ?_
    ring

/-! ## The operator -/

/-- Where an element of a contiguous tensor is. -/
theorem contiguous_address (i : Index) (H S D : Nat) :
    i.address (contiguous H S D) = (i.b * H + i.h) * (S * D) + (i.m * D + i.d) := by
  simp only [Index.address, contiguous]
  ring

/-- A contiguous tensor loads its elements. -/
theorem load_contiguous {F : Type} {B H S D : Nat} (f : Nat → F) {i : Index} (hi : i.Mem B H S D) :
    (Buffer.ofFn (B * H * S * D) f).load (i.address (contiguous H S D)) =
      some (f (i.address (contiguous H S D))) := by
  obtain ⟨hb, hh, hm, hd⟩ := hi
  refine Buffer.load_ofFn f ?_
  rw [contiguous_address, Nat.mul_assoc (B * H)]
  exact lt_mul_of_lt (lt_mul_of_lt hb hh) (lt_mul_of_lt hm hd)

section Quantize

variable {F : Type} [Field F] [LinearOrder F] [IsStrictOrderedRing F] {copy : Copy F}
  {x : Nat → F} {n a bh : Nat}

theorem perBhScale_pos (hcopy : 0 < copy.fp8E4m3Max) (x : Nat → F) (n bh : Nat) :
    0 < perBhScale copy n x bh := by
  refine div_pos (lt_max_of_lt_right ?_) (mul_pos ?_ hcopy)
  · norm_num
  · norm_num

/-- Scaled by its head's largest element, an element is inside the format's range. -/
theorem abs_scaled_le (hcopy : 0 < copy.fp8E4m3Max) (ha : a < n) :
    |x (bh * n + a) * (1 / perBhScale copy n x bh)| ≤ copy.fp8E4m3Max := by
  have hpos := perBhScale_pos hcopy x n bh
  have hle : |x (bh * n + a)| ≤ max ((Finset.range n).fold max 0 fun a => |x (bh * n + a)|)
      0.000001 := by
    refine le_max_of_le_left ?_
    exact (Finset.le_fold_max _).mpr (Or.inr ⟨a, Finset.mem_range.mpr ha, le_rfl⟩)
  rw [abs_mul, abs_of_pos (one_div_pos.mpr hpos), mul_one_div, div_le_iff₀ hpos]
  refine hle.trans ?_
  have hscale : max ((Finset.range n).fold max 0 fun a => |x (bh * n + a)|) 0.000001 =
      perBhScale copy n x bh * (0.95 * copy.fp8E4m3Max) := by
    rw [perBhScale, div_mul_cancel₀ _ (ne_of_gt (mul_pos (by norm_num) hcopy))]
  rw [hscale]
  calc perBhScale copy n x bh * (0.95 * copy.fp8E4m3Max)
      = 0.95 * (copy.fp8E4m3Max * perBhScale copy n x bh) := by ring
    _ ≤ copy.fp8E4m3Max * perBhScale copy n x bh := by
        refine mul_le_of_le_one_left (le_of_lt (mul_pos hcopy hpos)) ?_
        norm_num

/-- Quantising and dequantising an element gives it back. -/
theorem dequantized (hcopy : 0 < copy.fp8E4m3Max) (ha : a < n) :
    perBhScale copy n x bh * quantize copy n x (perBhScale copy n x) (bh * n + a) =
      x (bh * n + a) := by
  have hhead : (bh * n + a) / n = bh := by
    rw [Nat.add_comm, Nat.add_mul_div_right _ _ (by omega), Nat.div_eq_of_lt ha, Nat.zero_add]
  obtain ⟨hlo, hhi⟩ := abs_le.mp (@abs_scaled_le F _ _ _ copy x n a bh hcopy ha)
  rw [quantize, hhead, max_eq_left hlo, min_eq_left hhi]
  have hne := ne_of_gt (perBhScale_pos hcopy x n bh)
  field_simp

omit [IsStrictOrderedRing F] in
/-- What a launch of the operator loads. -/
theorem loads_launchArgs (copy : Copy F) (B H S D : Nat) (q k v : Nat → F) (oStride : Strides)
    (causal : Bool) (scale : F) (cfg : Config) :
    Loads (launchArgs copy B H S D q k v oStride causal scale cfg)
      (fun b h => perBhScale copy (S * D) q (b * H + h))
      (fun b h => perBhScale copy (S * D) k (b * H + h))
      (fun b h => perBhScale copy (S * D) v (b * H + h))
      (fun b h m c => quantize copy (S * D) q (perBhScale copy (S * D) q)
        (Index.address ⟨b, h, m, c⟩ (contiguous H S D)))
      (fun b h m c => quantize copy (S * D) k (perBhScale copy (S * D) k)
        (Index.address ⟨b, h, m, c⟩ (contiguous H S D)))
      (fun b h m c => quantize copy (S * D) v (perBhScale copy (S * D) v)
        (Index.address ⟨b, h, m, c⟩ (contiguous H S D))) where
  qs := fun _ hb _ hh => Buffer.load_ofFn _ (lt_mul_of_lt hb hh)
  ks := fun _ hb _ hh => Buffer.load_ofFn _ (lt_mul_of_lt hb hh)
  vs := fun _ hb _ hh => Buffer.load_ofFn _ (lt_mul_of_lt hb hh)
  Q := fun b hb h hh m hm c hc => @load_contiguous F B H S D _ ⟨b, h, m, c⟩ ⟨hb, hh, hm, hc⟩
  K := fun b hb h hh m hm c hc => @load_contiguous F B H S D _ ⟨b, h, m, c⟩ ⟨hb, hh, hm, hc⟩
  V := fun b hb h hh m hm c hc => @load_contiguous F B H S D _ ⟨b, h, m, c⟩ ⟨hb, hh, hm, hc⟩

end Quantize

/-- One head of a contiguous tensor. -/
def head (x : Nat → ℝ) (H S D b h m c : Nat) : ℝ :=
  x (Index.address ⟨b, h, m, c⟩ (contiguous H S D))

/-- The exponential and the square root of the reals. -/
noncomputable def realMath : MathLib ℝ where
  exp := realExp
  sqrt := Real.sqrt

theorem copy_pos {copy : Copy ℝ} (hcopy : copy = gfx942 ∨ copy = hopper ∨ copy = ada) :
    0 < copy.fp8E4m3Max := by
  rcases hcopy with rfl | rfl | rfl
  · exact Nat.ofNat_pos
  · exact Nat.ofNat_pos
  · exact Nat.ofNat_pos

/-- A kernel launch over the reals is softmax attention of the dequantised tensors. -/
theorem launch_attention {x : Args ℝ} {qs ks vs : Nat → Nat → ℝ}
    {q k v : Nat → Nat → Nat → Nat → ℝ} (hM : 0 < x.blockM) (hN : 0 < x.blockN)
    (hmax : x.fp8Max ≠ 0) (hSkv : 0 < x.Sq → 0 < x.Skv) (hloads : Loads x qs ks vs q k v) :
    ∃ writes, launch realExp x = some writes ∧
      WritesOnce x.B x.H x.Sq x.blockD x.oStride (fun i =>
        attention x.Skv x.blockD x.smScale x.causal (fun m c => qs i.b i.h * q i.b i.h m c)
          (fun j c => ks i.b i.h * k i.b i.h j c) (fun j c => vs i.b i.h * v i.b i.h j c)
          i.m i.d) writes := by
  obtain ⟨writes, hrun, honce⟩ := launch_eq realExp_isExp hM hN hmax hSkv hloads
  exact ⟨writes, hrun, honce.congr fun i _ => output_eq i⟩

/-- So is a launch of the operator, of its own tensors. -/
theorem launchArgs_attention {copy : Copy ℝ} (hcopy : 0 < copy.fp8E4m3Max) {B H S D : Nat}
    (q k v : Nat → ℝ) (oStride : Strides) (causal : Bool) (scale : ℝ) {cfg : Config}
    (hcfg : 0 < cfg.blockM ∧ 0 < cfg.blockN) :
    ∃ writes, launch realExp (launchArgs copy B H S D q k v oStride causal scale cfg) =
        some writes ∧
      WritesOnce B H S D oStride (fun i => attention S D scale causal (head q H S D i.b i.h)
        (head k H S D i.b i.h) (head v H S D i.b i.h) i.m i.d) writes := by
  obtain ⟨writes, hrun, honce⟩ := launch_attention hcfg.1 hcfg.2 (ne_of_gt hcopy) id
    (loads_launchArgs copy B H S D q k v oStride causal scale cfg)
  refine ⟨writes, hrun, honce.congr fun i hi => ?_⟩
  have hback : ∀ (x : Nat → ℝ) (m : Nat), m < S → ∀ c < D,
      perBhScale copy (S * D) x (i.b * H + i.h) *
        quantize copy (S * D) x (perBhScale copy (S * D) x)
          (Index.address ⟨i.b, i.h, m, c⟩ (contiguous H S D)) = head x H S D i.b i.h m c := by
    intro x m hm c hc
    rw [head, contiguous_address]
    exact dequantized hcopy (lt_mul_of_lt hm hc)
  obtain ⟨-, -, hm, hd⟩ := hi
  exact attention_congr (hback q i.m hm) (hback k) fun j hj => hback v j hj i.d hd

/-- Whatever the strides, the scales and the tile shape, a launch stores each element of the
output once, with its value in softmax attention; so does every launch of the operator,
cached, autotuned or fallback, on every copy of the module. -/
theorem tileShape_exact :
    (∀ (x : Args ℝ) (qs ks vs : Nat → Nat → ℝ) (q k v : Nat → Nat → Nat → Nat → ℝ),
      0 < x.blockM → 0 < x.blockN → x.fp8Max ≠ 0 → (0 < x.Sq → 0 < x.Skv) →
      Loads x qs ks vs q k v →
      ∃ writes, launch realExp x = some writes ∧
        WritesOnce x.B x.H x.Sq x.blockD x.oStride (fun i =>
          attention x.Skv x.blockD x.smScale x.causal (fun m c => qs i.b i.h * q i.b i.h m c)
            (fun j c => ks i.b i.h * k i.b i.h j c) (fun j c => vs i.b i.h * v i.b i.h j c)
            i.m i.d) writes) ∧
    ∀ (copy : Copy ℝ) (disableAutotune : Bool) (cached : Option Config) (tried : List Config)
      (best : Config) (B H S D : Nat) (q k v : Nat → ℝ) (oStride : Strides) (causal : Bool)
      (scale : Option ℝ),
      copy = gfx942 ∨ copy = hopper ∨ copy = ada →
      (∀ cfg ∈ launchConfigs copy disableAutotune cached tried best,
        0 < cfg.blockM ∧ 0 < cfg.blockN) →
      0 < B → 0 < H → 0 < S → D = 32 ∨ D = 64 ∨ D = 128 ∨ D = 256 →
      ∃ launches, fp8FlashAttention realMath copy
          (launchConfigs copy disableAutotune cached tried best) B H S D q k v oStride causal
          scale = some launches ∧
        launches.length = (launchConfigs copy disableAutotune cached tried best).length ∧
        ∀ writes ∈ launches, WritesOnce B H S D oStride (fun i =>
          attention S D (scale.getD (1 / Real.sqrt D)) causal (head q H S D i.b i.h)
            (head k H S D i.b i.h) (head v H S D i.b i.h) i.m i.d) writes := by
  refine ⟨fun x qs ks vs q k v hM hN hmax hSkv hloads =>
    launch_attention hM hN hmax hSkv hloads, ?_⟩
  intro copy disableAutotune cached tried best B H S D q k v oStride causal scale hcopy hconfigs
    hB hH hS hD
  have hshape : ¬ (¬ (D = 32 ∨ D = 64 ∨ D = 128 ∨ D = 256) ∨ B * H * S = 0) := by
    have hpos := Nat.mul_pos (Nat.mul_pos hB hH) hS
    omega
  rw [fp8FlashAttention, if_neg hshape]
  exact mapM_forall fun cfg hcfg => launchArgs_attention (copy_pos hcopy) q k v oStride causal
    (scale.getD (1 / Real.sqrt D)) (hconfigs cfg hcfg)

/-- Three queries and keys in tiles of two. -/
noncomputable def ragged : Args ℝ where
  Q := Buffer.ofFn 3 Nat.cast
  K := Buffer.ofFn 3 Nat.cast
  V := Buffer.ofFn 3 Nat.cast
  smScale := 1
  qs := Buffer.ofFn 1 fun _ => (2 : Nat)
  ks := Buffer.ofFn 1 fun _ => (3 : Nat)
  vs := Buffer.ofFn 1 fun _ => (5 : Nat)
  qStride := contiguous 1 3 1
  kStride := contiguous 1 3 1
  vStride := contiguous 1 3 1
  oStride := contiguous 1 3 1
  B := 1
  H := 1
  Sq := 3
  Skv := 3
  blockM := 2
  blockN := 2
  blockD := 1
  causal := true
  fp8Max := (240 : Nat)

theorem loads_ragged :
    Loads ragged (fun _ _ => (2 : Nat)) (fun _ _ => (3 : Nat)) (fun _ _ => (5 : Nat))
      (fun b h m c => (Index.address ⟨b, h, m, c⟩ (contiguous 1 3 1) : ℝ))
      (fun b h m c => (Index.address ⟨b, h, m, c⟩ (contiguous 1 3 1) : ℝ))
      (fun b h m c => (Index.address ⟨b, h, m, c⟩ (contiguous 1 3 1) : ℝ)) where
  qs := fun _ hb _ hh => Buffer.load_ofFn _ (lt_mul_of_lt hb hh)
  ks := fun _ hb _ hh => Buffer.load_ofFn _ (lt_mul_of_lt hb hh)
  vs := fun _ hb _ hh => Buffer.load_ofFn _ (lt_mul_of_lt hb hh)
  Q := fun b hb h hh m hm c hc => @load_contiguous ℝ 1 1 3 1 _ ⟨b, h, m, c⟩ ⟨hb, hh, hm, hc⟩
  K := fun b hb h hh m hm c hc => @load_contiguous ℝ 1 1 3 1 _ ⟨b, h, m, c⟩ ⟨hb, hh, hm, hc⟩
  V := fun b hb h hh m hm c hc => @load_contiguous ℝ 1 1 3 1 _ ⟨b, h, m, c⟩ ⟨hb, hh, hm, hc⟩

/-- A ragged launch of the kernel, and three launches of the operator. -/
theorem tileShape_exact_ragged :
    (∃ writes, launch realExp ragged = some writes ∧
      WritesOnce 1 1 3 1 (contiguous 1 3 1) (fun i =>
        attention 3 1 1 true
          (fun m c => 2 * (Index.address ⟨i.b, i.h, m, c⟩ (contiguous 1 3 1) : ℝ))
          (fun j c => 3 * (Index.address ⟨i.b, i.h, j, c⟩ (contiguous 1 3 1) : ℝ))
          (fun j c => 5 * (Index.address ⟨i.b, i.h, j, c⟩ (contiguous 1 3 1) : ℝ)) i.m i.d)
        writes) ∧
    ∃ launches, fp8FlashAttention realMath gfx942
        (launchConfigs (gfx942 : Copy ℝ) false none [⟨2, 2⟩, ⟨4, 1⟩] ⟨4, 1⟩) 1 1 3 32 Nat.cast
        Nat.cast Nat.cast (contiguous 1 3 32) true none = some launches ∧
      launches.length = 3 ∧
      ∀ writes ∈ launches, WritesOnce 1 1 3 32 (contiguous 1 3 32) (fun i =>
        attention 3 32 (1 / Real.sqrt (32 : Nat)) true (head Nat.cast 1 3 32 i.b i.h)
          (head Nat.cast 1 3 32 i.b i.h) (head Nat.cast 1 3 32 i.b i.h) i.m i.d) writes := by
  have hconfigs : ∀ cfg ∈ launchConfigs (gfx942 : Copy ℝ) false none [⟨2, 2⟩, ⟨4, 1⟩] ⟨4, 1⟩,
      0 < cfg.blockM ∧ 0 < cfg.blockN := by
    change ∀ cfg ∈ ([⟨2, 2⟩, ⟨4, 1⟩, ⟨4, 1⟩] : List Config), 0 < cfg.blockM ∧ 0 < cfg.blockN
    decide
  have hmax : ragged.fp8Max ≠ 0 := Nat.cast_ne_zero.mpr (by decide)
  have hragged := tileShape_exact.1 ragged _ _ _ _ _ _ Nat.two_pos Nat.two_pos hmax id loads_ragged
  simp only [Nat.cast_ofNat] at hragged
  exact ⟨hragged,
    tileShape_exact.2 gfx942 false none [⟨2, 2⟩, ⟨4, 1⟩] ⟨4, 1⟩ 1 1 3 32 Nat.cast Nat.cast
      Nat.cast (contiguous 1 3 32) true none (Or.inl rfl) hconfigs Nat.one_pos Nat.one_pos
      three_pos (Or.inl rfl)⟩

end Fp8Flash

end Repercep.Kernels
