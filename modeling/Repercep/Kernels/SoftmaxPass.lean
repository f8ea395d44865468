import Mathlib
import Repercep.Foundation.OnlineSoftmax
import Repercep.Kernels.Amx
set_option autoImplicit false

/-!
# The softmax step of the AMX kernels

Both AMX kernels take a 32 × 32 block of scores through the same step, row by row: mask, new
maximum, weights, new sum, and the accumulated output rescaled.  Two vectors of sixteen lanes
hold a row.  Arithmetic is exact; minus infinity is a score, and a difference of two of them
has no value, so a row without any visible score stops the run.
-/

namespace Repercep.Kernels

open Foundation

/-- The two exponentials a kernel calls: the C library's, and its own on vectors. -/
structure Exponentials (F : Type) where
  stdExp : WithBot F → F
  expPs : WithBot F → F

/-- What the step reads and writes: one maximum and one sum for each row, the output
accumulator, and the weights of the current block. -/
structure Softmax (F : Type) where
  rowMax : Buffer (WithBot F)
  rowSum : Buffer F
  oAcc : Buffer F
  pFp32 : Buffer F

section Definitions

/-- Sixteen scores, those of the keys after `qIdx` masked. -/
def maskLanes {F : Type} (needsMask : Bool) (kStart qIdx : Nat) (s : Fin 16 → F) :
    Fin 16 → WithBot F :=
  fun lane =>
    if needsMask ∧ int32 (lane + int32 kStart) > int32 qIdx then ⊥ else (s lane : WithBot F)

variable {F : Type} [Field F] [LinearOrder F]

/-- A row of the accumulator times `alpha`, sixteen lanes at a time. -/
def rescaleRow (alpha : F) (D i : Nat) (oAcc : Buffer F) : Option (Buffer F) :=
  (counter D 16).foldlM (fun oAcc d => do
    let o ← loadVec 16 oAcc (i * D + d)
    storeVec oAcc (i * D + d) fun lane => o lane * alpha) oAcc

/-- The step for row `i`, with its scores masked. -/
def softmaxStep (e : Exponentials F) (D i : Nat) (sLo sHi : Fin 16 → WithBot F)
    (st : Softmax F) : Option (Softmax F) := do
  let localMax := max (Finset.univ.sup sLo) (Finset.univ.sup sHi)
  let mOld ← st.rowMax.load i
  match max mOld localMax with
  | ⊥ => none
  | (mNew : F) =>
      let alpha := e.stdExp (below mNew mOld)
      let pLo := fun lane => e.expPs (below mNew (sLo lane))
      let pHi := fun lane => e.expPs (below mNew (sHi lane))
      let pFp32 ← storeVec st.pFp32 (i * 32 + 0) pLo
      let pFp32 ← storeVec pFp32 (i * 32 + 16) pHi
      let lLocal := ∑ lane, pLo lane + ∑ lane, pHi lane
      let lOld ← st.rowSum.load i
      let rowMax ← st.rowMax.store i mNew
      let rowSum ← st.rowSum.store i (alpha * lOld + lLocal)
      let oAcc ← rescaleRow alpha D i st.oAcc
      return ⟨rowMax, rowSum, oAcc, pFp32⟩

/-- The step for all the rows; `scores` fetches a row's two vectors. -/
def softmaxPass (e : Exponentials F) (D : Nat)
    (scores : Nat → Option ((Fin 16 → WithBot F) × (Fin 16 → WithBot F))) (st : Softmax F) :
    Option (Softmax F) :=
  (List.range 32).foldlM (fun st i => do
    let s ← scores i
    softmaxStep e D i s.1 s.2 st) st

/-- The key tiles the loop reaches: under a causal mask it stops at the first one that starts
after the last query. -/
def keyTiles (isCausal : Bool) (sKv qStart : Nat) : List Nat :=
  (List.range (sKv / 32)).takeWhile fun kvt => !(isCausal && decide (kvt * 32 ≥ qStart + 32))

/-- The accumulators before the first key tile. -/
def startMax : Buffer (WithBot F) :=
  Buffer.ofFn 32 fun _ => ⊥

/-- The sums of the rows, before the first key tile. -/
def startSum : Buffer F :=
  Buffer.ofFn 32 fun _ => 0

/-- The accumulated rows, before the first key tile. -/
def startAcc (D : Nat) : Option (Buffer F) :=
  (Buffer.uninit (32 * 128)).scatter (List.range (32 * D)) id fun _ => 0

/-- One row of the output: the accumulated row over its sum. -/
def finishRow (D : Nat) (rowSum oAcc : Buffer F) (oTilePtr : Nat) (O : Buffer F) (i : Nat) :
    Option (Buffer F) := do
  let l ← rowSum.load i
  let invL := if l > 0 then 1 / l else 0
  (counter D 32).foldlM (fun O d => do
    let oLo ← loadVec 16 oAcc (i * D + d)
    let oHi ← loadVec 16 oAcc (i * D + d + 16)
    storeVec O (oTilePtr + i * D + d)
      (Fin.append (fun lane => oLo lane * invL) fun lane => oHi lane * invL)) O

/-- The final pass. -/
def finishRows (D : Nat) (rowSum oAcc : Buffer F) (oTilePtr : Nat) (O : Buffer F) :
    Option (Buffer F) :=
  (List.range 32).foldlM (finishRow D rowSum oAcc oTilePtr) O

end Definitions

/-! ## The mask -/

/-- The score of a key for a query: minus infinity for a later key, under a causal mask. -/
def maskedScore {F : Type} (isCausal : Bool) (qIdx kIdx : Nat) (x : F) : WithBot F :=
  if isCausal ∧ qIdx < kIdx then ⊥ else (x : WithBot F)

/-- Counting on from a multiple of thirty-two, thirty-two numbers do not reach the end of
the 32-bit range. -/
theorem int32_add {q : Int} (hq : 32 ∣ q) {i : Int} (hi : 0 ≤ i) (hi' : i < 32) :
    int32 (q + i) = int32 q + i ∧ int32 (int32 q) = int32 q ∧ 32 ∣ int32 q := by
  simp only [int32, Int.bmod_def]
  omega

/-- Where a tile is masked, the comparison of wrapped indices is that of the indices. -/
theorem maskLanes_eq {F : Type} {isCausal : Bool} {kStart qStart i offset : Nat}
    (hk : 32 ∣ kStart) (hq : 32 ∣ qStart) (hi : i < 32) (hoffset : offset ≤ 16)
    (hreached : isCausal → kStart < qStart + 32) (s : Fin 16 → F) :
    maskLanes (isCausal && decide (kStart + 32 > qStart)) (kStart + offset) (qStart + i) s =
      fun lane : Fin 16 =>
        maskedScore isCausal (qStart + i) (kStart + offset + lane) (s lane) := by
  funext lane
  have hlane := lane.isLt
  refine if_congr ?_ rfl rfl
  cases isCausal with
  | false => simp
  | true =>
      have hkq := hreached rfl
      by_cases hmask : kStart + 32 > qStart
      · have hsame : kStart = qStart := by omega
        have hq' : (32 : Int) ∣ (qStart : Int) := Int.natCast_dvd_natCast.mpr hq
        have hsum : (0 : Int) ≤ lane + offset ∧ (lane : Int) + offset < 32 := by omega
        have hrow : (0 : Int) ≤ i ∧ (i : Int) < 32 := by omega
        obtain ⟨hstart, hagain, hdvd⟩ := int32_add hq' (i := offset) (by omega) (by omega)
        have hleft : int32 ((lane : Int) + int32 ((kStart + offset : Nat) : Int)) =
            int32 qStart + (lane + offset) := by
          rw [hsame, Nat.cast_add, hstart, add_left_comm, (int32_add hdvd hsum.1 hsum.2).1, hagain]
        have hright : int32 ((qStart + i : Nat) : Int) = int32 qStart + i := by
          rw [Nat.cast_add, (int32_add hq' hrow.1 hrow.2).1]
        simp only [hleft, hright, gt_iff_lt, add_lt_add_iff_left, decide_eq_true hmask,
          Bool.and_true, true_and]
        clear hleft hright hstart hagain hdvd
        omega
      · simp [hmask]
        omega

/-! ## One row -/

section Row

variable {F : Type} [Field F] [LinearOrder F]

omit [LinearOrder F] in
/-- The vector loop over a row of the accumulator. -/
theorem rescaleRow_eq (alpha : F) {D i : Nat} (hD : 16 ∣ D) {oAcc : Buffer F}
    (hsize : (i + 1) * D ≤ oAcc.size) {acc : Nat → F}
    (hacc : ∀ d < D, oAcc.load (i * D + d) = some (acc d)) :
    ∃ oAcc', rescaleRow alpha D i oAcc = some oAcc' ∧ oAcc'.size = oAcc.size ∧
      (∀ d < D, oAcc'.load (i * D + d) = some (alpha * acc d)) ∧
      ∀ a, (∀ d < D, a ≠ i * D + d) → oAcc'.load a = oAcc.load a := by
  obtain ⟨oAcc', hrun, hsize', hnew, hkept⟩ := vecLoop_eq (fun oAcc d => do
      let o ← loadVec 16 oAcc (i * D + d)
      storeVec oAcc (i * D + d) fun lane => o lane * alpha)
    (fun d => alpha * acc d) (show 0 < 16 by decide) hD
    (show i * D + D ≤ oAcc.size by rw [← Nat.succ_mul]; exact hsize) (by
    intro d hd b hold
    have hload : loadVec 16 b (i * D + d) = some fun lane : Fin 16 => acc (d + lane) := by
      refine loadVec_eq_some.mpr fun lane => ?_
      rw [hold lane, Nat.add_assoc, hacc _ (counter_inside (by decide) hD hd lane.isLt)]
    rw [hload, Option.bind_eq_bind, Option.bind_some]
    simp only [mul_comm])
  exact ⟨oAcc', hrun, hsize', hnew, fun a hnone => hkept a fun d hd => (hnone d hd).symm⟩

omit [Field F] in
/-- The largest of two vectors' lanes, and their sum. -/
theorem sup_lanes (s : Nat → WithBot F) :
    max (Finset.univ.sup fun lane : Fin 16 => s lane)
        (Finset.univ.sup fun lane : Fin 16 => s (16 + lane)) = (Finset.range 32).sup s := by
  rw [univ_sup_fin, univ_sup_fin 16 fun j => s (16 + j)]
  change _ = (Finset.range (16 + 16)).sup s
  rw [Finset.range_add_eq_union, Finset.sup_union, Finset.sup_map]
  rfl

omit [LinearOrder F] in
theorem sum_lanes (p : Nat → F) :
    ∑ lane : Fin 16, p lane + ∑ lane : Fin 16, p (16 + lane) = ∑ j ∈ Finset.range 32, p j := by
  rw [← Finset.sum_range p, ← Finset.sum_range fun j => p (16 + j)]
  exact (Finset.sum_range_add p 16 16).symm

omit [Field F] [LinearOrder F] in
/-- Two vectors stored one after the other. -/
theorem storeLanes_eq (p : Nat → F) {b : Buffer F} {base : Nat} (hend : base + 32 ≤ b.size) :
    ∃ b' b'', storeVec b (base + 0) (fun lane : Fin 16 => p lane) = some b' ∧
      storeVec b' (base + 16) (fun lane : Fin 16 => p (16 + lane)) = some b'' ∧
      b''.size = b.size ∧ (∀ j < 32, b''.load (base + j) = some (p j)) ∧
      ∀ a, (∀ j < 32, a ≠ base + j) → b''.load a = b.load a := by
  obtain ⟨b', hstore, hsize, hnew, hkept⟩ :=
    storeVec_eq (fun lane : Fin 16 => p lane) (show base + 0 + 16 ≤ b.size by omega)
  obtain ⟨b'', hstore', hsize', hnew', hkept'⟩ :=
    storeVec_eq (fun lane : Fin 16 => p (16 + lane)) (show base + 16 + 16 ≤ b'.size by omega)
  refine ⟨b', b'', hstore, hstore', hsize'.trans hsize, ?_, ?_⟩
  · intro j hj
    rcases Nat.lt_or_ge j 16 with hlow | hhigh
    · rw [hkept' _ fun lane => by omega]
      exact hnew ⟨j, hlow⟩
    · obtain ⟨k, rfl⟩ := Nat.exists_eq_add_of_le hhigh
      have hlane := hnew' ⟨k, by omega⟩
      rw [Nat.add_assoc] at hlane
      exact hlane
  · intro a hnone
    rw [hkept' a fun lane => by
        have hne := hnone (16 + lane) (by omega)
        omega,
      hkept a fun lane => by
        have hne := hnone lane (by omega)
        omega]

/-- The buffers have their sizes. -/
structure Softmax.Sized (st : Softmax F) : Prop where
  rowMax : st.rowMax.size = 32
  rowSum : st.rowSum.size = 32
  oAcc : st.oAcc.size = 32 * 128
  pFp32 : st.pFp32.size = 32 * 32

/-- All that belongs to one row. -/
def Softmax.row (D : Nat) (st : Softmax F) (i : Nat) :
    Option (WithBot F) × Option F × (Fin D → Option F) × (Fin 32 → Option F) :=
  (st.rowMax.load i, st.rowSum.load i, fun d => st.oAcc.load (i * D + d),
    fun j => st.pFp32.load (i * 32 + j))

/-- Row `i` is in the state `r`. -/
structure Softmax.Holds (D : Nat) (st : Softmax F) (i : Nat) (r : RowState F Nat) : Prop where
  max : st.rowMax.load i = some r.max
  sum : st.rowSum.load i = some r.sum
  acc : ∀ d < D, st.oAcc.load (i * D + d) = some (r.acc d)

/-- The step brings its row's state up to date, leaves the weights, and touches no other
row. -/
theorem softmaxStep_eq {e : Exponentials F} {D i : Nat} (hD : 16 ∣ D) (hD' : D ≤ 128)
    (hi : i < 32) {s : Nat → WithBot F} {r : RowState F Nat} {m : F}
    (hm : max r.max ((Finset.range 32).sup s) = (m : WithBot F)) {st : Softmax F}
    (hsized : st.Sized) (hrow : st.Holds D i r) :
    ∃ st', softmaxStep e D i (fun lane => s lane) (fun lane => s (16 + lane)) st = some st' ∧
      st'.Sized ∧ st'.Holds D i (r.rescaled e.stdExp e.expPs 32 s m) ∧
      (∀ j < 32, st'.pFp32.load (i * 32 + j) = some (RowState.weights e.expPs s m j)) ∧
      ∀ i', i' ≠ i → st'.row D i' = st.row D i' := by
  obtain ⟨oAcc', hrescale, hoSize, hoNew, hoKept⟩ :=
    rescaleRow_eq (e.stdExp (below m r.max)) hD
      (by rw [hsized.oAcc]; exact Nat.mul_le_mul hi hD') hrow.acc
  obtain ⟨p', p'', hpLo, hpHi, hpSize, hpNew, hpKept⟩ :=
    storeLanes_eq (RowState.weights e.expPs s m) (show i * 32 + 32 ≤ st.pFp32.size by
      rw [hsized.pFp32]
      omega)
  obtain ⟨rowMax', hmax, hmaxSize, hmaxNew, hmaxKept⟩ :=
    Buffer.store_eq (b := st.rowMax) (i := i) (by rw [hsized.rowMax]; exact hi) (m : WithBot F)
  obtain ⟨rowSum', hsum, hsumSize, hsumNew, hsumKept⟩ :=
    Buffer.store_eq (b := st.rowSum) (i := i) (by rw [hsized.rowSum]; exact hi)
      (e.stdExp (below m r.max) * r.sum +
        (∑ lane : Fin 16, RowState.weights e.expPs s m lane +
          ∑ lane : Fin 16, RowState.weights e.expPs s m (16 + lane)))
  refine ⟨⟨rowMax', rowSum', oAcc', p''⟩, ?_, ⟨hmaxSize.trans hsized.rowMax,
    hsumSize.trans hsized.rowSum, hoSize.trans hsized.oAcc, hpSize.trans hsized.pFp32⟩,
    ⟨hmaxNew, ?_, hoNew⟩, hpNew, ?_⟩
  · rw [softmaxStep, sup_lanes, hrow.max, Option.bind_eq_bind, Option.bind_some]
    simp only [hm]
    simp only [RowState.weights] at hpLo hpHi hsum
    simp only [hpLo, hpHi, hrow.sum, hmax, hsum, hrescale, Option.bind_eq_bind, Option.bind_some]
    rfl
  · rw [hsumNew, sum_lanes]
    rfl
  · intro i' hne
    have hother : ∀ {x x' width : Nat}, x < width → x' < width →
        i' * width + x ≠ i * width + x' := by
      intro x x' width hx hx' hsame
      exact hne (rowMajor_injective hx hx' hsame).1
    refine Prod.ext (hmaxKept i' hne) (Prod.ext (hsumKept i' hne)
      (Prod.ext (funext fun d => ?_) (funext fun j => ?_)))
    · exact hoKept _ fun d' hd' => hother d.isLt hd'
    · exact hpKept _ fun j' hj' => hother j.isLt hj'

/-- A row that is in the state `r`, with the weights `p`. -/
def rowOf (D : Nat) (r : RowState F Nat) (p : Nat → F) :
    Option (WithBot F) × Option F × (Fin D → Option F) × (Fin 32 → Option F) :=
  (some r.max, some r.sum, fun d => some (r.acc d), fun j => some (p j))

omit [Field F] [LinearOrder F] in
theorem Softmax.row_eq_iff {D i : Nat} {st : Softmax F} {r : RowState F Nat} {p : Nat → F} :
    st.row D i = rowOf D r p ↔
      st.Holds D i r ∧ ∀ j < 32, st.pFp32.load (i * 32 + j) = some (p j) := by
  rw [row, rowOf, Prod.mk.injEq, Prod.mk.injEq, Prod.mk.injEq]
  constructor
  · intro h
    obtain ⟨hmax, hsum, hacc, hp⟩ := h
    exact ⟨⟨hmax, hsum, fun d hd => congrFun hacc ⟨d, hd⟩⟩,
      fun j hj => congrFun hp ⟨j, hj⟩⟩
  · intro h
    obtain ⟨hholds, hp⟩ := h
    exact ⟨hholds.max, hholds.sum, funext fun d => hholds.acc d d.isLt,
      funext fun j => hp j j.isLt⟩

omit [Field F] [LinearOrder F] in
theorem Softmax.Holds.congr {D i : Nat} {st st' : Softmax F} {r : RowState F Nat}
    (h : st.Holds D i r) (hrow : st'.row D i = st.row D i) : st'.Holds D i r := by
  rw [row, row, Prod.mk.injEq, Prod.mk.injEq, Prod.mk.injEq] at hrow
  obtain ⟨hmax, hsum, hacc, -⟩ := hrow
  exact ⟨hmax.trans h.max, hsum.trans h.sum,
    fun d hd => (congrFun hacc ⟨d, hd⟩).trans (h.acc d hd)⟩

/-- The pass brings every row up to date and leaves all the weights. -/
theorem softmaxPass_eq (e : Exponentials F) {D : Nat} (hD : 16 ∣ D) (hD' : D ≤ 128)
    {scores : Nat → Option ((Fin 16 → WithBot F) × (Fin 16 → WithBot F))}
    {s : Nat → Nat → WithBot F} {r : Nat → RowState F Nat} {m : Nat → F}
    (hscores : ∀ i < 32, scores i =
      some (fun lane : Fin 16 => s i lane, fun lane : Fin 16 => s i (16 + lane)))
    (hm : ∀ i < 32, max (r i).max ((Finset.range 32).sup (s i)) = (m i : WithBot F))
    {st : Softmax F} (hsized : st.Sized) (hrows : ∀ i < 32, st.Holds D i (r i)) :
    ∃ st', softmaxPass e D scores st = some st' ∧ st'.Sized ∧
      ∀ i < 32, st'.Holds D i ((r i).rescaled e.stdExp e.expPs 32 (s i) (m i)) ∧
        ∀ j < 32, st'.pFp32.load (i * 32 + j) =
          some (RowState.weights e.expPs (s i) (m i) j) := by
  have hstep : ∀ i ∈ List.range 32, ∀ st₁ : Softmax F, st₁.Sized →
      (Unit → st₁.row D i = st.row D i) →
      ∃ st₂, (do
          let s ← scores i
          softmaxStep e D i s.1 s.2 st₁) = some st₂ ∧ st₂.Sized ∧
        (Unit → st₂.row D i = rowOf D ((r i).rescaled e.stdExp e.expPs 32 (s i) (m i))
          (RowState.weights e.expPs (s i) (m i))) ∧
        ∀ i', (Unit → i ≠ i') → st₂.row D i' = st₁.row D i' := by
    intro i hmem st₁ hsized₁ hold
    have hi := List.mem_range.mp hmem
    obtain ⟨st₂, hrun, hsized₂, hholds, hp, hkept⟩ :=
      softmaxStep_eq hD hD' hi (hm i hi) hsized₁ ((hrows i hi).congr (hold ()))
    refine ⟨st₂, ?_, hsized₂, fun _ => Softmax.row_eq_iff.mpr ⟨hholds, hp⟩,
      fun i' hne => hkept i' (hne ()).symm⟩
    rw [hscores i hi]
    exact hrun
  obtain ⟨st', hrun, hsized', hnew, -⟩ := foldlM_owned List.nodup_range
    (fun i _ i' _ _ _ hsame => hsame) hstep hsized
  refine ⟨st', hrun, hsized', ?_⟩
  intro i hi
  exact Softmax.row_eq_iff.mp (hnew i (List.mem_range.mpr hi) ())

end Row

end Repercep.Kernels
