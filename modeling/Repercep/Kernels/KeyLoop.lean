import Mathlib
import Repercep.Kernels.SoftmaxPass
set_option autoImplicit false

/-!
# The key loop of the AMX kernels, row by row

Above the buffers the key loop is a loop over row states: each tile is taken in by
`RowState.absorb`.  Here that loop is related to its tiles, shown to end for every row, and,
with the ideal exponential, to compute the softmax row; and the final pass is shown to write
what the row states say.
-/

namespace Repercep.Kernels

open Foundation

/-! ## The tiles reached -/

theorem takeWhile_range (n t : Nat) :
    (List.range n).takeWhile (fun k => decide (k < t)) = List.range (min n t) := by
  rcases Nat.le_total n t with h | h
  · rw [Nat.min_eq_left h, List.takeWhile_eq_self_iff]
    intro k hk
    exact decide_eq_true (Nat.lt_of_lt_of_le (List.mem_range.mp hk) h)
  · obtain ⟨b, rfl⟩ := Nat.exists_eq_add_of_le h
    rw [Nat.min_eq_right h, List.range_add, List.takeWhile_append_of_pos]
    · cases b with
      | zero => simp
      | succ b =>
          rw [List.range_succ_eq_map, List.map_cons, List.takeWhile_cons_of_neg (by simp),
            List.append_nil]
    · intro k hk
      exact decide_eq_true (List.mem_range.mp hk)

/-- The early exit leaves the tiles up to the queries' own. -/
theorem keyTiles_eq (isCausal : Bool) {sKv qStart : Nat} (hq : 32 ∣ qStart) :
    keyTiles isCausal sKv qStart =
      List.range (if isCausal then min (sKv / 32) (qStart / 32 + 1) else sKv / 32) := by
  rw [keyTiles]
  cases isCausal with
  | false =>
      rw [List.takeWhile_eq_self_iff.mpr (by simp)]
      rfl
  | true =>
      rw [if_pos rfl, ← takeWhile_range]
      congr 1
      funext kvt
      rw [Bool.true_and, ← decide_not]
      exact decide_eq_decide.mpr (by omega)

/-- What the tiles reached have in common: they start before the end of the query tile. -/
theorem keyTiles_reached {isCausal : Bool} {sKv qStart kvt : Nat}
    (h : kvt ∈ keyTiles isCausal sKv qStart) :
    kvt < sKv / 32 ∧ (isCausal → kvt * 32 < qStart + 32) := by
  refine ⟨List.mem_range.mp (List.takeWhile_subset _ h), ?_⟩
  intro hcausal
  have hpos := List.mem_takeWhile_imp h
  simp only [hcausal, Bool.true_and, Bool.not_eq_true', decide_eq_false_iff_not] at hpos
  omega

/-- No visible key is in a tile that is skipped. -/
theorem visible_reached {isCausal : Bool} {sKv qStart i j : Nat} (hs : 32 ∣ sKv)
    (hq : 32 ∣ qStart) (hi : i < 32) (hj : j < sKv) (hvisible : isCausal → j ≤ qStart + i) :
    j / 32 ∈ keyTiles isCausal sKv qStart := by
  rw [keyTiles_eq isCausal hq, List.mem_range]
  split
  · next hcausal =>
      have hle := hvisible hcausal
      omega
  · omega

/-! ## One row over its tiles -/

section Rows

variable {F : Type} [Field F] [LinearOrder F]

/-- Tiles of thirty-two keys, taken in one after the other. -/
def absorbTiles (e : Exponentials F) (s : Nat → WithBot F)
    (weighted : Nat → (Nat → F) → Nat → F) (tiles : List Nat) (r : RowState F Nat) :
    Option (RowState F Nat) :=
  tiles.foldlM (fun r kvt =>
    r.absorb e.stdExp e.expPs 32 (fun j => s (kvt * 32 + j)) (weighted kvt)) r

/-- All of a query's tiles: query `i` of `sKv` tokens, its scores before the mask `s`. -/
def attendRow (e : Exponentials F) (isCausal : Bool) (sKv i : Nat) (s : Nat → F)
    (weighted : Nat → (Nat → F) → Nat → F) : Option (RowState F Nat) :=
  absorbTiles e (fun j => maskedScore isCausal i j (s j)) weighted
    (keyTiles isCausal sKv (i / 32 * 32)) RowState.start

/-- What the final pass makes of a row. -/
def rowOutput (r : RowState F Nat) (d : Nat) : F :=
  r.acc d * if r.sum > 0 then 1 / r.sum else 0

variable {e : Exponentials F} {isCausal : Bool} {sKv i : Nat} {s : Nat → F}
  {weighted : Nat → (Nat → F) → Nat → F}

omit [Field F] [LinearOrder F] in
/-- The first key is visible to every query. -/
theorem maskedScore_zero (isCausal : Bool) (i : Nat) (x : F) :
    maskedScore isCausal i 0 x = (x : WithBot F) :=
  if_neg fun h => Nat.not_lt_zero i h.2

/-- A query's loop goes over the key tiles of its tile of queries. -/
theorem attendRow_eq {qStart : Nat} (hq : 32 ∣ qStart) (hi : i < 32) :
    attendRow e isCausal sKv (qStart + i) s weighted =
      absorbTiles e (fun j => maskedScore isCausal (qStart + i) j (s j)) weighted
        (keyTiles isCausal sKv qStart) RowState.start := by
  have htile : (qStart + i) / 32 * 32 = qStart := by omega
  rw [attendRow, htile]

/-- A query's loop ends. -/
theorem attendRow_isSome (e : Exponentials F) (isCausal : Bool) (sKv i : Nat) (s : Nat → F)
    (weighted : Nat → (Nat → F) → Nat → F) :
    ∃ r, attendRow e isCausal sKv i s weighted = some r := by
  have hstep : ∀ k (r : RowState F Nat), (k ≠ 0 → r.max ≠ ⊥) →
      ∃ r', r.absorb e.stdExp e.expPs 32 (fun j => maskedScore isCausal i (k * 32 + j)
        (s (k * 32 + j))) (weighted k) = some r' ∧ (k + 1 ≠ 0 → r'.max ≠ ⊥) := by
    intro k r hr
    have hsome : max r.max ((Finset.range 32).sup fun j => maskedScore isCausal i (k * 32 + j)
        (s (k * 32 + j))) ≠ ⊥ := by
      intro hbot
      obtain ⟨hmax, hsup⟩ := max_eq_bot.mp hbot
      cases k with
      | zero =>
          refine sup_ne_bot (n := 32) (by decide) ?_ hsup
          rw [Nat.zero_mul, maskedScore_zero]
          exact WithBot.coe_ne_bot
      | succ k => exact hr (Nat.succ_ne_zero k) hmax
    obtain ⟨m, hm⟩ := WithBot.ne_bot_iff_exists.mp hsome
    exact ⟨_, RowState.absorb_eq hm.symm, fun _ => WithBot.coe_ne_bot⟩
  rw [attendRow, keyTiles_eq isCausal (Nat.dvd_mul_left 32 _), absorbTiles]
  obtain ⟨r, hr, -⟩ := foldlM_range (I := fun k r => k ≠ 0 → r.max ≠ ⊥) (fun h => absurd rfl h)
    fun k r _ => hstep k r
  exact ⟨r, hr⟩

/-- What a tile keeps, a query's loop keeps: it goes over the first keys, and the keys that it
leaves out are masked. -/
theorem attendRow_run (weighted : Nat → (Nat → F) → Nat → F) {I : Nat → RowState F Nat → Prop}
    (hs : 32 ∣ sKv) (hi : i < sKv) (hstart : I 0 RowState.start)
    (htile : ∀ k < sKv / 32, ∀ r (m : F), I (k * 32) r →
      (Finset.range (k * 32 + 32)).sup (fun j => maskedScore isCausal i j (s j)) = m →
      ∃ r', r.absorb e.stdExp e.expPs 32 (fun j => maskedScore isCausal i (k * 32 + j)
        (s (k * 32 + j))) (weighted k) = some r' ∧ I (k * 32 + 32) r') :
    ∃ r n, ∃ m : F, attendRow e isCausal sKv i s weighted = some r ∧ I n r ∧
      (Finset.range n).sup (fun j => maskedScore isCausal i j (s j)) = m ∧ n ≤ sKv ∧
      ∀ j, n ≤ j → j < sKv → maskedScore isCausal i j (s j) = ⊥ := by
  have hmax : ∀ {n}, 0 < n → ∃ m : F, ↑m =
      (Finset.range n).sup fun j => maskedScore isCausal i j (s j) := by
    intro n hn
    refine WithBot.ne_bot_iff_exists.mp (sup_ne_bot hn ?_)
    rw [maskedScore_zero]
    exact WithBot.coe_ne_bot
  rw [attendRow, keyTiles_eq isCausal (Nat.dvd_mul_left 32 _), absorbTiles]
  generalize htiles : (if isCausal = true then min (sKv / 32) (i / 32 * 32 / 32 + 1)
    else sKv / 32) = tiles
  have htilesPos : 0 < tiles ∧ tiles ≤ sKv / 32 ∧
      (isCausal = true ∧ i < tiles * 32 ∨ tiles * 32 = sKv) := by
    split at htiles
    · next hcausal =>
        refine ⟨by omega, by omega, ?_⟩
        rcases Nat.le_total (sKv / 32) (i / 32 * 32 / 32 + 1) with h | h
        · exact Or.inr (by omega)
        · exact Or.inl ⟨hcausal, by omega⟩
    · exact ⟨by omega, by omega, Or.inr (by omega)⟩
  obtain ⟨r, hrun, hkept⟩ := foldlM_range (I := fun k r => I (k * 32) r)
    (by rw [Nat.zero_mul]; exact hstart) (n := tiles) fun k r hk hr => by
      obtain ⟨m, hm⟩ := hmax (show 0 < k * 32 + 32 by omega)
      obtain ⟨r', habsorb, hr'⟩ := htile k (hk.trans_le htilesPos.2.1) r m hr hm.symm
      refine ⟨r', habsorb, ?_⟩
      rw [Nat.succ_mul]
      exact hr'
  obtain ⟨m, hm⟩ := hmax (show 0 < tiles * 32 by omega)
  refine ⟨r, tiles * 32, m, hrun, hkept, hm.symm, by omega, fun j hj hj' => ?_⟩
  rcases htilesPos.2.2 with hlast | hall
  · exact if_pos ⟨hlast.1, hlast.2.trans_le hj⟩
  · omega

/-- With the ideal exponential for both, a query's loop computes its softmax row, and its sum
of weights is positive. -/
theorem attendRow_ideal [IsStrictOrderedRing F] {e : WithBot F → F} (he : IsExp e)
    (isCausal : Bool) {sKv i : Nat} (hs : 32 ∣ sKv) (hi : i < sKv) (s : Nat → F)
    (v : Nat → Nat → F) :
    ∃ r, attendRow ⟨e, e⟩ isCausal sKv i s
        (fun kvt p d => ∑ j ∈ Finset.range 32, p j * v (kvt * 32 + j) d) = some r ∧
      0 < r.sum ∧
      ∀ d, rowOutput r d = softmaxRow e sKv (fun j => maskedScore isCausal i j (s j)) v d := by
  obtain ⟨r, n, m, hrun, htracks, hm, hn, hmasked⟩ := attendRow_run (e := ⟨e, e⟩)
    (fun kvt p d => ∑ j ∈ Finset.range 32, p j * v (kvt * 32 + j) d)
    (I := RowState.Tracks e (fun j => maskedScore isCausal i j (s j)) v) hs hi
    RowState.tracks_start fun k _ r m hr hm => by
      obtain ⟨r', habsorb, htracks, -⟩ := hr.absorb he (fun _ _ => rfl) hm
      exact ⟨r', habsorb, htracks⟩
  have hmax : r.max = m := htracks.max.trans hm
  have hsum := htracks.sum_pos he hmax
  refine ⟨r, hrun, hsum, fun d => ?_⟩
  rw [rowOutput, if_pos hsum, htracks.finish he hmax, softmaxRow_masked he hn hmasked]

/-- A loop over buffers refines the loop over row states when each of its passes takes one
tile in, in every row. -/
theorem keyTiles_refine {σ : Type} (f : σ → Nat → Option σ)
    (Holds : σ → (Nat → RowState F Nat) → Prop) {s : Nat → Nat → WithBot F}
    (hcongr : ∀ st r r', Holds st r → (∀ i < 32, r i = r' i) → Holds st r') {tiles : List Nat}
    (hstep : ∀ kvt ∈ tiles, ∀ st r r', Holds st r →
      (∀ i < 32, (r i).absorb e.stdExp e.expPs 32 (fun j => s i (kvt * 32 + j)) (weighted kvt) =
        some (r' i)) → ∃ st', f st kvt = some st' ∧ Holds st' r') {st : σ}
    {r r' : Nat → RowState F Nat} (hst : Holds st r)
    (habsorb : ∀ i < 32, absorbTiles e (s i) weighted tiles (r i) = some (r' i)) :
    ∃ st', tiles.foldlM f st = some st' ∧ Holds st' r' := by
  induction tiles generalizing st r with
  | nil => exact ⟨st, rfl, hcongr st r r' hst fun i hi => Option.some_inj.mp (habsorb i hi)⟩
  | cons kvt tiles ih =>
      have hfirst : ∀ i, ∃ r₁, i < 32 → (r i).absorb e.stdExp e.expPs 32
          (fun j => s i (kvt * 32 + j)) (weighted kvt) = some r₁ ∧
          absorbTiles e (s i) weighted tiles r₁ = some (r' i) := by
        intro i
        by_cases hi : i < 32
        · obtain ⟨r₁, hr₁, hrest⟩ := Option.bind_eq_some_iff.mp (habsorb i hi)
          exact ⟨r₁, fun _ => ⟨hr₁, hrest⟩⟩
        · exact ⟨r i, fun hi' => absurd hi' hi⟩
      obtain ⟨r₁, hr₁⟩ := Classical.axiomOfChoice hfirst
      obtain ⟨st₁, hrun, hst₁⟩ :=
        hstep kvt List.mem_cons_self st r r₁ hst fun i hi => (hr₁ i hi).1
      obtain ⟨st', hrest, hst'⟩ := ih
        (fun kvt' hmem => hstep kvt' (List.mem_cons_of_mem kvt hmem)) hst₁
        fun i hi => (hr₁ i hi).2
      exact ⟨st', by rw [List.foldlM_cons, hrun]; exact hrest, hst'⟩

omit [LinearOrder F] in
/-- The accumulator starts at zero, as far as it is used. -/
theorem startAcc_eq {D : Nat} (hD : D ≤ 128) :
    ∃ oAcc : Buffer F, startAcc D = some oAcc ∧ oAcc.size = 32 * 128 ∧
      ∀ i < 32, ∀ d < D, oAcc.load (i * D + d) = some 0 := by
  obtain ⟨oAcc, hrun, hsize, hzero⟩ := Buffer.scatter_const_eq (b := Buffer.uninit (32 * 128))
    (0 : F) (Nat.mul_le_mul_left 32 hD)
  exact ⟨oAcc, hrun, hsize, fun i hi d hd => hzero _ (lt_mul_of_lt hi hd)⟩

/-- The final pass for one row. -/
theorem finishRow_eq {D i oTilePtr : Nat} (hD : 32 ∣ D) {rowSum oAcc O : Buffer F}
    {r : RowState F Nat} (hsum : rowSum.load i = some r.sum)
    (hacc : ∀ d < D, oAcc.load (i * D + d) = some (r.acc d))
    (hsize : oTilePtr + (i + 1) * D ≤ O.size) :
    ∃ O', finishRow D rowSum oAcc oTilePtr O i = some O' ∧ O'.size = O.size ∧
      (∀ d < D, O'.load (oTilePtr + (i * D + d)) = some (rowOutput r d)) ∧
      ∀ a, (∀ d < D, oTilePtr + (i * D + d) ≠ a) → O'.load a = O.load a := by
  obtain ⟨O', hrun, hsize', hnew, hkept⟩ := vecLoop_eq (fun O d => do
      let oLo ← loadVec 16 oAcc (i * D + d)
      let oHi ← loadVec 16 oAcc (i * D + d + 16)
      storeVec O (oTilePtr + i * D + d) (Fin.append
        (fun lane => oLo lane * if r.sum > 0 then 1 / r.sum else 0)
        fun lane => oHi lane * if r.sum > 0 then 1 / r.sum else 0))
    (rowOutput r) (show 0 < 32 by decide) hD
    (show oTilePtr + i * D + D ≤ O.size by rw [Nat.add_assoc, ← Nat.succ_mul]; exact hsize) (by
    intro d hd b _
    have hinside : ∀ {lane}, lane < 32 → d + lane < D :=
      fun hlane => counter_inside (by decide) hD hd hlane
    have hlow : loadVec 16 oAcc (i * D + d) = some fun lane : Fin 16 => r.acc (d + lane) := by
      refine loadVec_eq_some.mpr fun lane => ?_
      rw [Nat.add_assoc, hacc _ (hinside (by omega))]
    have hhigh : loadVec 16 oAcc (i * D + d + 16) =
        some fun lane : Fin 16 => r.acc (d + (16 + lane)) := by
      refine loadVec_eq_some.mpr fun lane => ?_
      rw [Nat.add_assoc, Nat.add_assoc, hacc _ (hinside (by omega))]
    have happend : Fin.append
        (fun lane : Fin 16 => r.acc (d + lane) * if r.sum > 0 then 1 / r.sum else 0)
        (fun lane : Fin 16 => r.acc (d + (16 + lane)) * if r.sum > 0 then 1 / r.sum else 0) =
          fun lane : Fin 32 => rowOutput r (d + lane) := by
      funext j
      refine Fin.addCases (fun lane => ?_) (fun lane => ?_) j
      · rw [Fin.append_left]
        rfl
      · rw [Fin.append_right]
        rfl
    rw [hlow, hhigh, Option.bind_eq_bind, Option.bind_some, Option.bind_some, happend])
  simp only [Nat.add_assoc] at hnew hkept
  refine ⟨O', ?_, hsize', hnew, hkept⟩
  rw [finishRow, hsum]
  exact hrun

/-- The final pass writes the rows of the tile, and nothing else. -/
theorem finishRows_eq {D oTilePtr : Nat} (hD : 32 ∣ D) {rowSum oAcc O : Buffer F}
    {r : Nat → RowState F Nat} (hsum : ∀ i < 32, rowSum.load i = some (r i).sum)
    (hacc : ∀ i < 32, ∀ d < D, oAcc.load (i * D + d) = some ((r i).acc d))
    (hsize : oTilePtr + 32 * D ≤ O.size) :
    ∃ O', finishRows D rowSum oAcc oTilePtr O = some O' ∧ O'.size = O.size ∧
      (∀ i < 32, ∀ d < D, O'.load (oTilePtr + (i * D + d)) = some (rowOutput (r i) d)) ∧
      ∀ a, (∀ i < 32, ∀ d < D, oTilePtr + (i * D + d) ≠ a) → O'.load a = O.load a := by
  have hstep : ∀ i ∈ List.range 32, ∀ b : Buffer F, b.size = O.size →
      (∀ d : Fin D, b.load (oTilePtr + (i * D + d)) = O.load (oTilePtr + (i * D + d))) →
      ∃ b', finishRow D rowSum oAcc oTilePtr b i = some b' ∧ b'.size = b.size ∧
        (∀ d : Fin D, b'.load (oTilePtr + (i * D + d)) = some (rowOutput (r i) d)) ∧
        ∀ a, (∀ d : Fin D, oTilePtr + (i * D + d) ≠ a) → b'.load a = b.load a := by
    intro i hmem b hb _
    have hi := List.mem_range.mp hmem
    have hend : oTilePtr + (i + 1) * D ≤ b.size := by
      have hle : (i + 1) * D ≤ 32 * D := Nat.mul_le_mul_right D hi
      omega
    obtain ⟨b', hrun, hsize', hnew, hkept⟩ := finishRow_eq hD (hsum i hi) (hacc i hi) hend
    exact ⟨b', hrun, hsize', fun d => hnew d d.isLt, fun a hnone =>
      hkept a fun d hd => hnone ⟨d, hd⟩⟩
  obtain ⟨O', hrun, hsize', hnew, hkept⟩ := Buffer.foldlM_owned List.nodup_range
    (fun i _ i' _ d d' hsame =>
      (rowMajor_injective d.isLt d'.isLt (Nat.add_left_cancel hsame)).1) hstep
  refine ⟨O', hrun, hsize', fun i hi d hd => hnew i (List.mem_range.mpr hi) ⟨d, hd⟩, ?_⟩
  intro a hnone
  exact hkept a fun i hi d => hnone i (List.mem_range.mp hi) d d.isLt

end Rows

/-! ## The loops over heads and query tiles -/

section Operator

variable {F : Type} {B H S D : Nat}

/-- Where each query tile's run writes its own rows, the operator writes all of them. -/
theorem queryTiles_eq (process : Nat → Nat → Nat → Buffer F → Option (Buffer F))
    (out : Nat → Nat → Nat → F) (hS : 32 ∣ S)
    (hprocess : ∀ b < B, ∀ h < H, ∀ qt < S / 32, ∀ O : Buffer F,
      ((b * H + h) * S + qt * 32) * D + 32 * D ≤ O.size →
      ∃ O', process b h qt O = some O' ∧ O'.size = O.size ∧
        (∀ i < 32, ∀ d < D, O'.load (((b * H + h) * S + qt * 32) * D + (i * D + d)) =
          some (out (b * H + h) (qt * 32 + i) d)) ∧
        ∀ a, (∀ i < 32, ∀ d < D, ((b * H + h) * S + qt * 32) * D + (i * D + d) ≠ a) →
          O'.load a = O.load a) :
    ∃ O, (List.range B).foldlM (fun O b => (List.range H).foldlM (fun O h =>
        (List.range (S / 32)).foldlM (fun O qt => process b h qt O) O) O)
        (Buffer.uninit (B * H * S * D)) = some O ∧ O.size = B * H * S * D ∧
      ∀ b < B, ∀ h < H, ∀ i < S, ∀ d < D,
        O.load (((b * H + h) * S + i) * D + d) = some (out (b * H + h) i d) := by
  have haddress : ∀ bh qt i d, (bh * S + qt * 32) * D + (i * D + d) =
      (bh * S + (qt * 32 + i)) * D + d := by
    intro bh qt i d
    ring
  have hstep : ∀ t ∈ List.range B ×ˢ List.range H ×ˢ List.range (S / 32), ∀ O : Buffer F,
      O.size = (Buffer.uninit (B * H * S * D) : Buffer F).size →
      (∀ c : Fin 32 × Fin D,
        O.load (((t.1 * H + t.2.1) * S + t.2.2 * 32) * D + (c.1 * D + c.2)) =
          (Buffer.uninit (B * H * S * D)).load
            (((t.1 * H + t.2.1) * S + t.2.2 * 32) * D + (c.1 * D + c.2))) →
      ∃ O', process t.1 t.2.1 t.2.2 O = some O' ∧ O'.size = O.size ∧
        (∀ c : Fin 32 × Fin D,
          O'.load (((t.1 * H + t.2.1) * S + t.2.2 * 32) * D + (c.1 * D + c.2)) =
            some (out (t.1 * H + t.2.1) (t.2.2 * 32 + c.1) c.2)) ∧
        ∀ a, (∀ c : Fin 32 × Fin D,
          ((t.1 * H + t.2.1) * S + t.2.2 * 32) * D + (c.1 * D + c.2) ≠ a) →
            O'.load a = O.load a := by
    intro ⟨b, h, qt⟩ ht O hO _
    obtain ⟨hb, hh, hqt⟩ : b < B ∧ h < H ∧ qt < S / 32 := by
      simpa only [List.mem_product, List.mem_range] using ht
    have hfits : ((b * H + h) * S + qt * 32) * D + 32 * D ≤ O.size := by
      have hlast : ((b * H + h) * S + (qt * 32 + 31)) * D + D ≤ B * H * S * D := by
        rw [← Nat.succ_mul]
        exact Nat.mul_le_mul_right D (lt_mul_of_lt (lt_mul_of_lt hb hh) (by omega))
      rw [hO]
      exact (by ring : ((b * H + h) * S + qt * 32) * D + 32 * D =
        ((b * H + h) * S + (qt * 32 + 31)) * D + D).trans_le hlast
    obtain ⟨O', hrun, hsize', hnew, hkept⟩ := hprocess b hb h hh qt hqt O hfits
    exact ⟨O', hrun, hsize', fun c => hnew c.1 c.1.isLt c.2 c.2.isLt,
      fun a hnone => hkept a fun i hi d hd => hnone (⟨i, hi⟩, ⟨d, hd⟩)⟩
  obtain ⟨O, hrun, hsize, hnew, -⟩ := Buffer.foldlM_owned
    (List.nodup_range.product (List.nodup_range.product List.nodup_range))
    (by
      intro ⟨b, h, qt⟩ ht ⟨b', h', qt'⟩ ht' c c' hsame
      obtain ⟨-, hh, hqt⟩ : b < B ∧ h < H ∧ qt < S / 32 := by
        simpa only [List.mem_product, List.mem_range] using ht
      obtain ⟨-, hh', hqt'⟩ : b' < B ∧ h' < H ∧ qt' < S / 32 := by
        simpa only [List.mem_product, List.mem_range] using ht'
      dsimp only at hsame
      rw [haddress, haddress] at hsame
      obtain ⟨hb, hh, hrow, -⟩ := address_injective₄ hh (by omega) c.2.isLt hh' (by omega)
        c'.2.isLt hsame
      rw [hb, hh, show qt = qt' by omega])
    hstep
  refine ⟨O, ?_, hsize, ?_⟩
  · simp only [foldlM_product]
    exact hrun
  · intro b hb h hh i hi d hd
    have hmem : (b, h, i / 32) ∈ List.range B ×ˢ List.range H ×ˢ List.range (S / 32) := by
      simp only [List.mem_product, List.mem_range]
      omega
    have hcell := hnew _ hmem (⟨i % 32, Nat.mod_lt _ (by decide)⟩, ⟨d, hd⟩)
    dsimp only at hcell
    rw [haddress, Nat.div_add_mod' i 32] at hcell
    exact hcell

end Operator

end Repercep.Kernels
