import Mathlib
import Repercep.Foundation.Buffer
set_option autoImplicit false

/-!
# The FP8 matrix product on gfx942

One wave of sixty-four lanes computes one 16 × 16 tile of `C`, thirty-two steps of the
contraction at a time.  A lane holds eight elements of each operand and four of the result;
which ones is fixed by the instruction.  Arithmetic is exact here, and an index never wraps.
-/

namespace Repercep.Kernels

open Foundation

/-- The rows of a tile. -/
abbrev mfmaM : Nat := 16

/-- The columns of a tile. -/
abbrev mfmaN : Nat := 16

/-- The depth of a tile. -/
abbrev mfmaK : Nat := 32

/-- The lanes of a wave. -/
abbrev wave : Nat := 64

/-- How many elements of each operand, and of the result, a lane holds. -/
abbrev aFrag : Nat := mfmaM * mfmaK / wave

/-- The elements of the right operand a lane holds. -/
abbrev bFrag : Nat := mfmaK * mfmaN / wave

/-- The elements of the result a lane holds. -/
abbrev cFrag : Nat := mfmaM * mfmaN / wave

theorem aFrag_eq : aFrag = 8 := rfl

theorem bFrag_eq : bFrag = 8 := rfl

theorem cFrag_eq : cFrag = 4 := rfl

/-! ## The instruction -/

/-- The row and column, in its tile, of an element that a lane holds. -/
def aCoord (lane e : Nat) : Nat × Nat :=
  (lane % mfmaM, lane / mfmaM * aFrag + e)

/-- The element of the right tile that a lane holds in a place. -/
def bCoord (lane e : Nat) : Nat × Nat :=
  (lane / mfmaN * bFrag + e, lane % mfmaN)

/-- The element of the result that a lane holds in a place. -/
def cCoord (lane i : Nat) : Nat × Nat :=
  (lane / mfmaN * cFrag + i, lane % mfmaN)

section Instruction

variable {F : Type}

theorem neZero_wave : NeZero wave := ⟨by decide⟩

attribute [local instance] neZero_wave

instance : NeZero aFrag := ⟨by decide⟩

instance : NeZero bFrag := ⟨by decide⟩

/-- The operand tiles that the fragments of the wave make up. -/
def aTile (frag : Fin wave → Fin aFrag → F) (m k : Nat) : F :=
  frag (Fin.ofNat wave (m + mfmaM * (k / aFrag))) (Fin.ofNat aFrag (k % aFrag))

/-- The right tile the lanes hold between them. -/
def bTile (frag : Fin wave → Fin bFrag → F) (k n : Nat) : F :=
  frag (Fin.ofNat wave (n + mfmaN * (k / bFrag))) (Fin.ofNat bFrag (k % bFrag))

/-- `v_mfma_f32_16x16x32_fp8_fp8`: the product of the two tiles, added to the result. -/
def mfma [CommSemiring F] (a : Fin wave → Fin aFrag → F) (b : Fin wave → Fin bFrag → F)
    (acc : Fin wave → Fin cFrag → F) : Fin wave → Fin cFrag → F :=
  fun lane i => acc lane i +
    ∑ k ∈ Finset.range mfmaK, aTile a (cCoord lane i).1 k * bTile b k (cCoord lane i).2

/-- Fragments filled by position make up the tile those positions describe. -/
theorem aTile_of_coord (g : Nat × Nat → F) {m k : Nat} (hm : m < mfmaM) (hk : k < mfmaK) :
    aTile (fun lane e => g (aCoord lane e)) m k = g (m, k) := by
  refine congrArg g ?_
  simp only [aCoord, mfmaM, mfmaK, wave, aFrag_eq, Fin.val_ofNat] at *
  refine Prod.ext ?_ ?_
  · dsimp only
    omega
  · dsimp only
    omega

theorem bTile_of_coord (g : Nat × Nat → F) {k n : Nat} (hk : k < mfmaK) (hn : n < mfmaN) :
    bTile (fun lane e => g (bCoord lane e)) k n = g (k, n) :=
  aTile_of_coord (fun p => g (p.2, p.1)) hn hk

theorem cCoord_lt (lane : Fin wave) (i : Fin cFrag) :
    (cCoord lane i).1 < mfmaM ∧ (cCoord lane i).2 < mfmaN := by
  have hlane : lane.val < 64 := lane.isLt
  have hi : i.val < 4 := i.isLt
  simp only [cCoord, mfmaM, mfmaN, cFrag_eq]
  omega

/-- A lane and its element are known from where the element is. -/
theorem cCoord_injective {lane lane' : Fin wave} {i i' : Fin cFrag}
    (h : cCoord lane i = cCoord lane' i') : lane = lane' ∧ i = i' := by
  have hi : i.val < 4 := i.isLt
  have hi' : i'.val < 4 := i'.isLt
  simp only [cCoord, mfmaN, cFrag_eq, Prod.mk.injEq] at h
  refine ⟨Fin.ext ?_, Fin.ext ?_⟩
  · omega
  · omega

/-- Every element of the tile is in some lane. -/
theorem exists_cCoord {m n : Nat} (hm : m < mfmaM) (hn : n < mfmaN) :
    ∃ (lane : Fin wave) (i : Fin cFrag), cCoord lane i = (m, n) := by
  simp only [mfmaM, mfmaN] at hm hn
  refine ⟨⟨n + 16 * (m / 4), by simp only [wave]; omega⟩,
    ⟨m % 4, by rw [cFrag_eq]; omega⟩, ?_⟩
  simp only [cCoord, mfmaN, cFrag_eq]
  refine Prod.ext ?_ ?_
  · dsimp only
    omega
  · dsimp only
    omega

end Instruction

/-! ## The kernel -/

section Kernel

variable {F : Type} [CommSemiring F]

/-- One element of a lane's fragment of `A`: a load, or zero past the last row or the end of
the contraction. -/
def loadA (A : Buffer F) (M K rowStart kTile lane e : Nat) : Option F :=
  let laneRc := lane % mfmaM
  let laneKg := lane / mfmaM
  let kLane := laneKg * aFrag
  let aRow := rowStart + laneRc
  if aRow < M then
    let kBase := kTile + kLane
    let kAvail : Int := if (K : Int) - kBase < aFrag then (K : Int) - kBase else aFrag
    if (e : Int) < kAvail then A.load (aRow * K + kBase + e) else some 0
  else
    some 0

/-- One element of a lane's fragment of `B`, from a column of the row-major matrix. -/
def loadB (B : Buffer F) (N K colStart kTile lane e : Nat) : Option F :=
  let laneRc := lane % mfmaM
  let laneKg := lane / mfmaM
  let kLane := laneKg * aFrag
  let bCol := colStart + laneRc
  if bCol < N then
    let kBase := kTile + kLane
    let krow := kBase + e
    if krow < K then B.load (krow * N + bCol) else some 0
  else
    some 0

/-- One step of the contraction loop. -/
def contract (A B : Buffer F) (M N K rowStart colStart : Nat) (acc : Fin wave → Fin cFrag → F)
    (kTile : Nat) : Option (Fin wave → Fin cFrag → F) := do
  let a ← gather fun p : Fin wave × Fin aFrag => loadA A M K rowStart kTile p.1 p.2
  let b ← gather fun p : Fin wave × Fin bFrag => loadB B N K colStart kTile p.1 p.2
  return mfma (fun lane e => a (lane, e)) (fun lane e => b (lane, e)) acc

/-- What the lanes write to `C`: addresses and values. -/
def writeBack (M N rowStart colStart : Nat) (scale : F) (acc : Fin wave → Fin cFrag → F) :
    List (Nat × F) :=
  (List.finRange wave ×ˢ List.finRange cFrag).filterMap fun p =>
    let col := colStart + p.1 % mfmaN
    if col < N then
      let rowBase := rowStart + p.1 / mfmaN * cFrag
      let row := rowBase + p.2
      if row < M then some (row * N + col, acc p.1 p.2 * scale) else none
    else
      none

/-- One block of the grid. -/
def fp8GemmKernel (A B : Buffer F) (aScale bScale : F) (M N K : Nat) (blockIdx : Nat × Nat) :
    Option (List (Nat × F)) :=
  let rowStart := blockIdx.2 * mfmaM
  let colStart := blockIdx.1 * mfmaN
  if rowStart ≥ M ∨ colStart ≥ N then
    some []
  else do
    let acc ← (counter K mfmaK).foldlM (contract A B M N K rowStart colStart) 0
    return writeBack M N rowStart colStart (aScale * bScale) acc

/-- The blocks of the launch, and all that they write. -/
def fp8GemmLaunch (A B : Buffer F) (aScale bScale : F) (M N K : Nat) :
    Option (List (Nat × F)) := do
  let grid := List.range ((N + mfmaN - 1) / mfmaN) ×ˢ List.range ((M + mfmaM - 1) / mfmaM)
  let writes ← grid.mapM (fp8GemmKernel A B aScale bScale M N K)
  return writes.flatten

end Kernel

/-! ## One tile -/

section Tile

variable {F : Type} [CommSemiring F]

/-- A row-major matrix with zeros around it. -/
def padded (rows columns : Nat) (f : Nat → F) (r c : Nat) : F :=
  if r < rows ∧ c < columns then f (r * columns + c) else 0

theorem padded_inside {rows columns r c : Nat} (f : Nat → F) (hr : r < rows)
    (hc : c < columns) : padded rows columns f r c = f (r * columns + c) :=
  if_pos ⟨hr, hc⟩

theorem padded_outside {rows columns r c : Nat} (f : Nat → F) (h : ¬ (r < rows ∧ c < columns)) :
    padded rows columns f r c = 0 :=
  if_neg h

variable {a b : Nat → F} {M N K rowStart colStart : Nat}

/-- A lane loads what is inside `A`, and zero elsewhere. -/
theorem loadA_eq {lane e kTile : Nat} (he : e < aFrag) :
    loadA (Buffer.ofFn (M * K) a) M K rowStart kTile lane e =
      some (padded M K a (rowStart + (aCoord lane e).1) (kTile + (aCoord lane e).2)) := by
  have he' : e < 8 := he
  have havail : (e : Int) < (if (K : Int) - ((kTile + lane / 16 * 8 : Nat) : Int) < (8 : Nat) then
      (K : Int) - ((kTile + lane / 16 * 8 : Nat) : Int) else (8 : Nat)) ↔
        kTile + (lane / 16 * 8 + e) < K := by
    split
    · omega
    · omega
  simp only [loadA, aCoord, mfmaM, aFrag_eq, havail]
  split
  · next hrow =>
      split
      · next hk =>
          rw [padded_inside a hrow hk, Nat.add_assoc, Nat.add_assoc,
            Buffer.load_ofFn a (lt_mul_of_lt hrow hk)]
      · next hk => rw [padded_outside a fun h => hk h.2]
  · next hrow => rw [padded_outside a fun h => hrow h.1]

theorem loadB_eq {lane e kTile : Nat} :
    loadB (Buffer.ofFn (K * N) b) N K colStart kTile lane e =
      some (padded K N b (kTile + (bCoord lane e).1) (colStart + (bCoord lane e).2)) := by
  simp only [loadB, bCoord, mfmaM, mfmaN, aFrag_eq, bFrag_eq, Nat.add_assoc]
  split
  · next hcol =>
      split
      · next hk => rw [padded_inside b hk hcol, Buffer.load_ofFn b (lt_mul_of_lt hk hcol)]
      · next hk => rw [padded_outside b fun h => hk h.1]
  · next hcol => rw [padded_outside b fun h => hcol h.2]

/-- What one step of the contraction adds to each element of the tile. -/
def stepSum (a b : Nat → F) (M N K rowStart colStart kTile : Nat) :
    Fin wave → Fin cFrag → F :=
  fun lane i => ∑ k ∈ Finset.range mfmaK,
    padded M K a (rowStart + (cCoord lane i).1) (kTile + k) *
      padded K N b (kTile + k) (colStart + (cCoord lane i).2)

theorem contract_eq (acc : Fin wave → Fin cFrag → F) (kTile : Nat) :
    contract (Buffer.ofFn (M * K) a) (Buffer.ofFn (K * N) b) M N K rowStart colStart acc kTile =
      some (acc + stepSum a b M N K rowStart colStart kTile) := by
  have ha : gather (fun p : Fin wave × Fin aFrag =>
      loadA (Buffer.ofFn (M * K) a) M K rowStart kTile p.1 p.2) = some _ :=
    gather_eq_some.mpr fun p => loadA_eq p.2.isLt
  have hb : gather (fun p : Fin wave × Fin bFrag =>
      loadB (Buffer.ofFn (K * N) b) N K colStart kTile p.1 p.2) = some _ :=
    gather_eq_some.mpr fun p => loadB_eq
  rw [contract, ha, hb]
  refine congrArg some (funext fun lane => funext fun i => ?_)
  obtain ⟨hm, hn⟩ := cCoord_lt lane i
  refine congrArg (acc lane i + ·) (Finset.sum_congr rfl fun k hk => ?_)
  rw [aTile_of_coord (fun p => padded M K a (rowStart + p.1) (kTile + p.2)) hm
      (Finset.mem_range.mp hk),
    bTile_of_coord (fun p => padded K N b (kTile + p.1) (colStart + p.2))
      (Finset.mem_range.mp hk) hn]

/-- The contraction: inside `C` each element has its whole sum. -/
theorem contraction_eq (lane : Fin wave) (i : Fin cFrag)
    (hrow : rowStart + (cCoord lane i).1 < M) (hcol : colStart + (cCoord lane i).2 < N) :
    ((counter K mfmaK).map (stepSum a b M N K rowStart colStart)).sum lane i =
      ∑ k ∈ Finset.range K, a ((rowStart + (cCoord lane i).1) * K + k) *
        b (k * N + (colStart + (cCoord lane i).2)) := by
  have hstep : ∀ k, stepSum a b M N K rowStart colStart k lane i =
      ∑ j ∈ Finset.range mfmaK, if k + j < K then
        a ((rowStart + (cCoord lane i).1) * K + (k + j)) *
          b ((k + j) * N + (colStart + (cCoord lane i).2)) else 0 := by
    intro k
    refine Finset.sum_congr rfl fun j _ => ?_
    split
    · next hk => rw [padded_inside a hrow hk, padded_inside b hk hcol]
    · next hk => rw [padded_outside a fun h => hk h.2, zero_mul]
  rw [Pi.list_sum_apply, Pi.list_sum_apply, List.map_map, List.map_map,
    ← @sum_counter F _ K mfmaK (by decide)]
  exact congrArg List.sum (List.map_congr_left fun k _ => hstep k)

end Tile

/-! ## The whole product -/

section Launch

variable {F : Type} [CommSemiring F] {a b : Nat → F} {aScale bScale : F} {M N K : Nat}

/-- An element of the product, scaled. -/
def product (a b : Nat → F) (aScale bScale : F) (N K row col : Nat) : F :=
  aScale * bScale * ∑ k ∈ Finset.range K, a (row * K + k) * b (k * N + col)

/-- What a block writes: the elements of its tile that are inside `C`, one for each lane
and element. -/
def tileWrites (a b : Nat → F) (aScale bScale : F) (M N K : Nat) (blockIdx : Nat × Nat) :
    List (Nat × F) :=
  (List.finRange wave ×ˢ List.finRange cFrag).filterMap fun p =>
    let row := blockIdx.2 * mfmaM + (cCoord p.1 p.2).1
    let col := blockIdx.1 * mfmaN + (cCoord p.1 p.2).2
    if row < M ∧ col < N then some (row * N + col, product a b aScale bScale N K row col)
    else none

/-- A block outside `C` has nothing to write, and the others write their part. -/
theorem fp8GemmKernel_eq (blockIdx : Nat × Nat) :
    fp8GemmKernel (Buffer.ofFn (M * K) a) (Buffer.ofFn (K * N) b) aScale bScale M N K blockIdx =
      some (tileWrites a b aScale bScale M N K blockIdx) := by
  simp only [fp8GemmKernel]
  split
  · next hout =>
      refine congrArg some (List.filterMap_eq_nil_iff.mpr fun p _ => if_neg ?_).symm
      intro hinside
      omega
  · rw [foldlM_add fun kTile _ acc => contract_eq acc kTile, zero_add]
    refine congrArg some (List.filterMap_congr fun p _ => ?_)
    have hrow : blockIdx.2 * mfmaM + p.1 / mfmaN * cFrag + p.2 =
        blockIdx.2 * mfmaM + (cCoord p.1 p.2).1 := Nat.add_assoc _ _ _
    simp only [hrow]
    split
    · next hcol =>
        split
        · next hrow =>
            rw [contraction_eq p.1 p.2 hrow hcol, if_pos ⟨hrow, hcol⟩, product,
              mul_comm (aScale * bScale)]
            rfl
        · next hrow => rw [if_neg fun h => hrow h.1]
    · next hcol => rw [if_neg fun h => hcol h.2]

/-- The blocks of the grid. -/
def grid (M N : Nat) : List (Nat × Nat) :=
  List.range ((N + mfmaN - 1) / mfmaN) ×ˢ List.range ((M + mfmaM - 1) / mfmaM)

theorem fp8GemmLaunch_eq :
    fp8GemmLaunch (Buffer.ofFn (M * K) a) (Buffer.ofFn (K * N) b) aScale bScale M N K =
      some ((grid M N).flatMap (tileWrites a b aScale bScale M N K)) := by
  have hblocks : (grid M N).mapM (fp8GemmKernel (Buffer.ofFn (M * K) a) (Buffer.ofFn (K * N) b)
      aScale bScale M N K) = some ((grid M N).map (tileWrites a b aScale bScale M N K)) := by
    rw [funext fp8GemmKernel_eq]
    exact List.mapM_pure
  rw [fp8GemmLaunch, ← grid, hblocks, List.flatMap_def]
  rfl

/-- A write of a block is an element of `C`, and the element says which block, lane and
register it came from. -/
theorem mem_tileWrites {blockIdx : Nat × Nat} {w : Nat × F} :
    w ∈ tileWrites a b aScale bScale M N K blockIdx ↔
      ∃ (lane : Fin wave) (i : Fin cFrag), blockIdx.2 * mfmaM + (cCoord lane i).1 < M ∧
        blockIdx.1 * mfmaN + (cCoord lane i).2 < N ∧
        w = ((blockIdx.2 * mfmaM + (cCoord lane i).1) * N +
            (blockIdx.1 * mfmaN + (cCoord lane i).2),
          product a b aScale bScale N K (blockIdx.2 * mfmaM + (cCoord lane i).1)
            (blockIdx.1 * mfmaN + (cCoord lane i).2)) := by
  rw [tileWrites, List.mem_filterMap]
  constructor
  · intro h
    obtain ⟨p, -, hp⟩ := h
    dsimp only at hp
    split at hp
    · next hinside =>
        cases hp
        exact ⟨p.1, p.2, hinside.1, hinside.2, rfl⟩
    · cases hp
  · intro h
    obtain ⟨lane, i, hrow, hcol, hw⟩ := h
    refine ⟨(lane, i), List.mem_product.mpr ⟨List.mem_finRange _, List.mem_finRange _⟩, ?_⟩
    rw [hw]
    exact if_pos ⟨hrow, hcol⟩

/-- Equal addresses come from the same block and the same place in its tile. -/
theorem address_injective {blockIdx blockIdx' : Nat × Nat} {lane lane' : Fin wave}
    {i i' : Fin cFrag} (hcol : blockIdx.1 * mfmaN + (cCoord lane i).2 < N)
    (hcol' : blockIdx'.1 * mfmaN + (cCoord lane' i').2 < N)
    (h : (blockIdx.2 * mfmaM + (cCoord lane i).1) * N +
        (blockIdx.1 * mfmaN + (cCoord lane i).2) =
      (blockIdx'.2 * mfmaM + (cCoord lane' i').1) * N +
        (blockIdx'.1 * mfmaN + (cCoord lane' i').2)) :
    blockIdx = blockIdx' ∧ lane = lane' ∧ i = i' := by
  obtain ⟨hrows, hcols⟩ := rowMajor_injective hcol hcol' h
  obtain ⟨hy, hm⟩ := rowMajor_injective (cCoord_lt lane i).1 (cCoord_lt lane' i').1 hrows
  obtain ⟨hx, hn⟩ := rowMajor_injective (cCoord_lt lane i).2 (cCoord_lt lane' i').2 hcols
  exact ⟨Prod.ext hx hy, cCoord_injective (Prod.ext hm hn)⟩

theorem nodup_addresses :
    (((grid M N).flatMap (tileWrites a b aScale bScale M N K)).map Prod.fst).Nodup := by
  rw [List.map_flatMap, List.nodup_flatMap]
  constructor
  · intro blockIdx _
    rw [tileWrites, List.map_filterMap]
    refine ((List.nodup_finRange wave).product (List.nodup_finRange cFrag)).filterMap ?_
    intro p p' address hp hp'
    dsimp only at hp hp'
    split at hp
    · next hinside =>
        split at hp'
        · next hinside' =>
            cases hp
            obtain ⟨-, hlane, hi⟩ :=
              address_injective hinside.2 hinside'.2 (Option.some_inj.mp hp').symm
            exact Prod.ext hlane hi
        · cases hp'
    · cases hp
  · refine (List.nodup_range.product List.nodup_range).pairwise_of_forall_ne ?_
    intro blockIdx _ blockIdx' _ hne
    rw [Function.onFun, List.disjoint_left]
    intro address h h'
    obtain ⟨w, hw, haddress⟩ := List.mem_map.mp h
    obtain ⟨w', hw', haddress'⟩ := List.mem_map.mp h'
    obtain ⟨lane, i, -, hcol, rfl⟩ := mem_tileWrites.mp hw
    obtain ⟨lane', i', -, hcol', rfl⟩ := mem_tileWrites.mp hw'
    exact hne (address_injective hcol hcol' (haddress.trans haddress'.symm)).1

/-- The launch is exact for every shape: every load is inside its matrix, and each element
of `C` is written once, with the scaled product of its row and column over the whole
contraction. -/
theorem fp8GemmLaunch_exact (a b : Nat → F) (aScale bScale : F) (M N K : Nat) :
    ∃ writes,
      fp8GemmLaunch (Buffer.ofFn (M * K) a) (Buffer.ofFn (K * N) b) aScale bScale M N K =
        some writes ∧
      (∀ w ∈ writes, ∃ row < M, ∃ col < N,
        w = (row * N + col,
          aScale * bScale * ∑ k ∈ Finset.range K, a (row * K + k) * b (k * N + col))) ∧
      ∀ row < M, ∀ col < N, (writes.map Prod.fst).count (row * N + col) = 1 := by
  refine ⟨_, fp8GemmLaunch_eq, ?_, ?_⟩
  · intro w hw
    obtain ⟨blockIdx, -, hw⟩ := List.mem_flatMap.mp hw
    obtain ⟨lane, i, hrow, hcol, rfl⟩ := mem_tileWrites.mp hw
    exact ⟨_, hrow, _, hcol, rfl⟩
  · intro row hrow col hcol
    refine List.count_eq_one_of_mem nodup_addresses (List.mem_map.mpr ?_)
    obtain ⟨lane, i, hplace⟩ :=
      exists_cCoord (Nat.mod_lt row (show 0 < mfmaM by decide))
        (Nat.mod_lt col (show 0 < mfmaN by decide))
    have hat : (row / mfmaM) * mfmaM + (cCoord lane i).1 = row := by
      rw [hplace]
      exact Nat.div_add_mod' row mfmaM
    have hat' : (col / mfmaN) * mfmaN + (cCoord lane i).2 = col := by
      rw [hplace]
      exact Nat.div_add_mod' col mfmaN
    refine ⟨(row * N + col, product a b aScale bScale N K row col),
      List.mem_flatMap.mpr ⟨(col / mfmaN, row / mfmaM), ?_, mem_tileWrites.mpr ?_⟩, rfl⟩
    · simp only [grid, mfmaM, mfmaN, List.mem_product, List.mem_range]
      omega
    · refine ⟨lane, i, ?_⟩
      dsimp only
      rw [hat, hat']
      exact ⟨hrow, hcol, rfl⟩

end Launch

end Repercep.Kernels
