import Mathlib
import Repercep.Foundation.Decimal
set_option autoImplicit false

/-!
# Doubles and their literals

The shortest literal of a double reads back as the double.  The search for it stops at a
decimal that reads back, or at the nearest one of seventeen digits; a decimal that close to
a double is nearer to it than to any other.
-/

namespace Repercep.Foundation

/-! ## Logarithms and rounding of fractions -/

theorem log_eq_of_bounds {b : Nat} (hb : 1 < b) {q : ℚ} {e : Int} (hlow : (b : ℚ) ^ e ≤ q)
    (hhigh : q < (b : ℚ) ^ (e + 1)) : Int.log b q = e := by
  have hpos : (0 : ℚ) < b := by exact_mod_cast Nat.zero_lt_of_lt hb
  have hq : 0 < q := lt_of_lt_of_le (zpow_pos hpos e) hlow
  exact le_antisymm (Int.lt_add_one_iff.mp ((Int.lt_zpow_iff_log_lt hb hq).mp hhigh))
    ((Int.zpow_le_iff_le_log hb hq).mp hlow)

theorem zpow_neg_le_ratio {b num den : Nat} (hb : 0 < b) (hden : 0 < den) (k : Nat) :
    (b : ℚ) ^ (-(k : Int)) ≤ (num : ℚ) / den ↔ den ≤ b ^ k * num := by
  have hden' : (0 : ℚ) < den := by exact_mod_cast hden
  have hpow : (0 : ℚ) < (b : ℚ) ^ k := pow_pos (by exact_mod_cast hb) k
  rw [zpow_neg, zpow_natCast, le_div_iff₀ hden', inv_mul_le_iff₀ hpow]
  exact_mod_cast Iff.rfl

/-- The logarithm of a fraction is that of the rational. -/
theorem floorLog_eq {b num den : Nat} (hb : 1 < b) (hnum : 0 < num) (hden : 0 < den) :
    floorLog b num den = Int.log b ((num : ℚ) / den) := by
  have hden' : (0 : ℚ) < den := by exact_mod_cast hden
  have hb' : 0 < b := Nat.zero_lt_of_lt hb
  have hb'' : (1 : ℚ) < b := by exact_mod_cast hb
  symm
  unfold floorLog
  split
  · next hge =>
      have hlow : b ^ Nat.log b (num / den) * den ≤ num :=
        (Nat.le_div_iff_mul_le hden).mp
          (Nat.pow_log_le_self b (Nat.div_pos hge hden).ne')
      have hhigh : num < b ^ (Nat.log b (num / den) + 1) * den :=
        (Nat.div_lt_iff_lt_mul hden).mp (Nat.lt_pow_succ_log_self hb _)
      refine log_eq_of_bounds hb ?_ ?_
      · rw [le_div_iff₀ hden', zpow_natCast]
        exact_mod_cast hlow
      · rw [div_lt_iff₀ hden']
        exact_mod_cast hhigh
  · next hlt =>
      have hle : num ≤ den := (Nat.lt_of_not_le hlt).le
      have hnum' : 0 < num := hnum
      have hlow : b ^ Nat.log b (den / num) * num ≤ den :=
        (Nat.le_div_iff_mul_le hnum).mp
          (Nat.pow_log_le_self b (Nat.div_pos hle hnum).ne')
      have hhigh : den < b ^ (Nat.log b (den / num) + 1) * num :=
        (Nat.div_lt_iff_lt_mul hnum).mp (Nat.lt_pow_succ_log_self hb _)
      generalize Nat.log b (den / num) = k at hlow hhigh
      simp only
      split
      · next hexact =>
          refine log_eq_of_bounds hb ?_ ?_
          · rw [zpow_neg_le_ratio hb' hden, mul_comm]
            exact hexact
          · have hupper : (num : ℚ) / den ≤ (b : ℚ) ^ (-(k : Int)) := by
              rw [zpow_neg, zpow_natCast, div_le_iff₀ hden',
                le_inv_mul_iff₀ (pow_pos (by exact_mod_cast hb') k)]
              exact_mod_cast hlow
            exact lt_of_le_of_lt hupper (zpow_lt_zpow_right₀ hb'' (by omega))
      · next hinexact =>
          refine log_eq_of_bounds hb ?_ ?_
          · have hcast : -((k : Int) + 1) = -((k + 1 : Nat) : Int) := by push_cast; ring
            rw [hcast, zpow_neg_le_ratio hb' hden]
            exact hhigh.le
          · rw [show -((k : Int) + 1) + 1 = -(k : Int) by ring, ← not_le,
              zpow_neg_le_ratio hb' hden, mul_comm]
            exact hinexact

/-- Rounding a fraction is off by a half at most. -/
theorem roundHalfEven_error (num : Nat) {den : Nat} (hden : 0 < den) :
    |(roundHalfEven num den : ℚ) - (num : ℚ) / den| ≤ 1 / 2 := by
  have hden' : (0 : ℚ) < den := by exact_mod_cast hden
  have hdiv : (num : ℚ) = den * (num / den : Nat) + (num % den : Nat) := by
    exact_mod_cast (Nat.div_add_mod num den).symm
  have hmod : num % den < den := Nat.mod_lt num hden
  have hratio : (num : ℚ) / den = (num / den : Nat) + ((num % den : Nat) : ℚ) / den := by
    rw [hdiv, add_div, mul_div_cancel_left₀ _ hden'.ne']
  rw [hratio]
  unfold roundHalfEven
  simp only
  split
  · next hdown =>
      have hhalf : 2 * ((num % den : Nat) : ℚ) ≤ den := by
        have : 2 * (num % den) ≤ den := by omega
        exact_mod_cast this
      have hfrac : ((num % den : Nat) : ℚ) / den ≤ 1 / 2 := by
        rw [div_le_div_iff₀ hden' two_pos]
        linarith
      have hnonneg : 0 ≤ ((num % den : Nat) : ℚ) / den := by positivity
      rw [abs_le]
      constructor <;> linarith
  · next hup =>
      have hhalf : (den : ℚ) ≤ 2 * ((num % den : Nat) : ℚ) := by
        have : den ≤ 2 * (num % den) := by omega
        exact_mod_cast this
      have hfrac : 1 / 2 ≤ ((num % den : Nat) : ℚ) / den := by
        rw [div_le_div_iff₀ two_pos hden']
        linarith
      have hone : ((num % den : Nat) : ℚ) / den ≤ 1 := by
        rw [div_le_one hden']
        exact_mod_cast hmod.le
      push_cast
      rw [abs_le]
      constructor <;> linarith

/-- A fraction nearer than a half to an integer is rounded to it. -/
theorem roundHalfEven_near {num den m : Nat} (hden : 0 < den)
    (hnear : |(num : ℚ) / den - m| < 1 / 2) : roundHalfEven num den = m := by
  have herror := abs_le.mp (roundHalfEven_error num hden)
  have hclose := abs_lt.mp hnear
  have hlow : ((m : Int) : ℚ) - 1 < ((roundHalfEven num den : Nat) : Int) := by
    push_cast
    linarith
  have hhigh : (((roundHalfEven num den : Nat) : Int) : ℚ) < (m : Int) + 1 := by
    push_cast
    linarith
  have hlow' : (m : Int) - 1 < (roundHalfEven num den : Nat) := by exact_mod_cast hlow
  have hhigh' : ((roundHalfEven num den : Nat) : Int) < m + 1 := by exact_mod_cast hhigh
  omega

theorem shifted_pos {b : Nat} (hb : 0 < b) (num : Nat) {den : Nat} (hden : 0 < den) (e : Int) :
    0 < (shifted b num den e).2 := by
  unfold shifted
  split
  · exact Nat.mul_pos hden (Nat.pow_pos hb)
  · exact hden

/-- The shifted fraction. -/
theorem shifted_ratio {b num den : Nat} (hb : 0 < b) (e : Int) :
    ((shifted b num den e).1 : ℚ) / (shifted b num den e).2 =
      (num : ℚ) / den * (b : ℚ) ^ (-e) := by
  have hb' : (b : ℚ) ≠ 0 := by exact_mod_cast hb.ne'
  unfold shifted
  split
  · next he =>
      obtain ⟨n, rfl⟩ := Int.eq_ofNat_of_zero_le he
      simp only [Int.toNat_natCast]
      push_cast
      rw [zpow_neg, zpow_natCast, div_mul_eq_div_div]
      rfl
  · next he =>
      obtain ⟨n, hn⟩ := Int.eq_ofNat_of_zero_le (show (0 : Int) ≤ -e by omega)
      rw [hn]
      simp only [Int.toNat_natCast, zpow_natCast]
      push_cast
      ring

/-! ## The double nearest to a fraction -/

namespace Double

/-- The significand and the exponent of a double that is not zero. -/
structure Normal (m : Nat) (e : Int) : Prop where
  pos : 0 < m
  significand : m < 2 ^ 53
  low : -1074 ≤ e
  high : e ≤ 971
  full : e = -1074 ∨ 2 ^ 52 ≤ m

theorem ofRatio_eq {negative : Bool} {num den m : Nat} {e : Int} (hnum : num ≠ 0)
    (he : max (floorLog 2 num den - 52) (-1074) = e)
    (hm : roundHalfEven (shifted 2 num den e).1 (shifted 2 num den e).2 = m) :
    ofRatio negative num den =
      if 0 ≤ e ∧ 2 ^ 1024 ≤ m * 2 ^ e.toNat then .infinite negative
      else if m = 2 ^ 53 then .finite negative (2 ^ 52) (e + 1)
      else .finite negative m e := by
  unfold ofRatio
  simp only [if_neg hnum, he, hm]

/-- A significand below `2 ^ 1024` at its exponent does not overflow. -/
theorem not_overflow {m : Nat} {e : Int} (hm : m < 2 ^ 53) (he : e ≤ 971) :
    ¬ (0 ≤ e ∧ 2 ^ 1024 ≤ m * 2 ^ e.toNat) := by
  rintro ⟨hpos, hover⟩
  have hlt : m * 2 ^ e.toNat < 2 ^ 53 * 2 ^ e.toNat :=
    Nat.mul_lt_mul_of_pos_right hm (Nat.pow_pos two_pos)
  rw [← Nat.pow_add] at hlt
  have hexponent := (Nat.pow_lt_pow_iff_right (by decide : 1 < 2)).mp (lt_of_le_of_lt hover hlt)
  omega

/-- A fraction nearer to a double than half the way to the next one is rounded to it; below
a power of two the doubles are twice as close. -/
theorem ofRatio_near {negative : Bool} {num den m : Nat} {e : Int} (h : Normal m e)
    (hden : 0 < den) (hnear : |(num : ℚ) / den * 2 ^ (-e) - m| < 1 / 2)
    (hedge : m = 2 ^ 52 → (m : ℚ) - 1 / 4 < (num : ℚ) / den * 2 ^ (-e)) :
    ofRatio negative num den = .finite negative m e := by
  have hpow : (0 : ℚ) < 2 ^ e := zpow_pos two_pos e
  obtain ⟨hlower, hupper⟩ := abs_lt.mp hnear
  set y := (num : ℚ) / den * 2 ^ (-e) with hy
  have hq : (num : ℚ) / den = y * 2 ^ e := by
    rw [hy, mul_assoc, ← zpow_add₀ two_ne_zero, neg_add_cancel, zpow_zero, mul_one]
  have hm1 : (1 : ℚ) ≤ m := by exact_mod_cast h.pos
  have hm53 : (m : ℚ) + 1 ≤ 2 ^ 53 := by exact_mod_cast h.significand
  have hypos : 0 < y := by linarith
  have hqpos : 0 < (num : ℚ) / den := by
    rw [hq]
    positivity
  have hnum : 0 < num := by
    refine Nat.pos_of_ne_zero ?_
    rintro rfl
    simp at hqpos
  have hlog := floorLog_eq (b := 2) one_lt_two hnum hden
  have hbelow : ∀ k : Nat, (2 : ℚ) ^ ((k : Int) + e) ≤ (num : ℚ) / den ↔ (2 : ℚ) ^ k ≤ y := by
    intro k
    rw [hq, zpow_add₀ two_ne_zero, zpow_natCast, mul_le_mul_iff_left₀ hpow]
  have habove : ∀ k : Nat, (k : Int) + e ≤ Int.log 2 ((num : ℚ) / den) ↔ (2 : ℚ) ^ k ≤ y := by
    intro k
    have hiff := Int.zpow_le_iff_le_log (b := 2) one_lt_two (x := (k : Int) + e) hqpos
    rw [← hiff]
    exact_mod_cast hbelow k
  have htop : ¬ (53 : Int) + e ≤ floorLog 2 num den := by
    rw [hlog]
    intro hle
    have := (habove 53).mp (by exact_mod_cast hle)
    linarith
  by_cases hfull : e = -1074 ∨ (2 : ℚ) ^ 52 ≤ y
  · have he : max (floorLog 2 num den - 52) (-1074) = e := by
      rcases hfull with he | hfull
      · omega
      · have hle := (habove 52).mpr hfull
        rw [← hlog] at hle
        have hlow := h.low
        push_cast at hle
        omega
    have hround : roundHalfEven (shifted 2 num den e).1 (shifted 2 num den e).2 = m := by
      refine roundHalfEven_near (shifted_pos two_pos num hden e) ?_
      rw [shifted_ratio two_pos]
      exact_mod_cast hnear
    rw [ofRatio_eq hnum.ne' he hround, if_neg (not_overflow h.significand h.high),
      if_neg h.significand.ne]
  · -- the fraction lies below the power of two `2 ^ 52 · 2 ^ e`, where the grid is finer
    rw [not_or, not_le] at hfull
    obtain ⟨he, hlt⟩ := hfull
    have hm52 : 2 ^ 52 ≤ m := h.full.resolve_left he
    have hm : m = 2 ^ 52 := by
      refine le_antisymm ?_ hm52
      have : (m : ℚ) < 2 ^ 52 + 1 := by linarith
      have : m < 2 ^ 52 + 1 := by exact_mod_cast this
      omega
    have hclose := hedge hm
    have hm' : (m : ℚ) = 2 ^ 52 := by exact_mod_cast hm
    have hfiner : max (floorLog 2 num den - 52) (-1074) = e - 1 := by
      have hge : (51 : Int) + e ≤ Int.log 2 ((num : ℚ) / den) := by
        have := (habove 51).mpr (by rw [hm'] at hclose; norm_num at hclose ⊢; linarith)
        exact_mod_cast this
      have hnot : ¬ (52 : Int) + e ≤ Int.log 2 ((num : ℚ) / den) := by
        intro hle
        have := (habove 52).mp (by exact_mod_cast hle)
        linarith
      rw [← hlog] at hge hnot
      have hlow := h.low
      omega
    have hround : roundHalfEven (shifted 2 num den (e - 1)).1 (shifted 2 num den (e - 1)).2 =
        2 ^ 53 := by
      refine roundHalfEven_near (shifted_pos two_pos num hden _) ?_
      have hdouble : (num : ℚ) / den * ((2 : Nat) : ℚ) ^ (-(e - 1)) = 2 * y := by
        rw [hy, show -(e - 1) = -e + 1 by ring]
        push_cast
        rw [zpow_add₀ two_ne_zero, zpow_one]
        ring
      rw [shifted_ratio two_pos, hdouble, abs_lt]
      rw [hm'] at hclose
      push_cast
      constructor <;> norm_num at hclose hlt ⊢ <;> linarith
    have hover : ¬ (0 ≤ e - 1 ∧ 2 ^ 1024 ≤ 2 ^ 53 * 2 ^ (e - 1).toNat) := by
      rintro ⟨hpos, hover⟩
      have hhigh := h.high
      rw [← Nat.pow_add] at hover
      have := (Nat.pow_le_pow_iff_right (by decide : 1 < 2)).mp hover
      omega
    rw [ofRatio_eq hnum.ne' hfiner hround, if_neg hover, if_pos rfl, sub_add_cancel, hm]

/-! ## Equal fractions -/

theorem roundHalfEven_mul {c : Nat} (hc : 0 < c) (num den : Nat) :
    roundHalfEven (c * num) (c * den) = roundHalfEven num den := by
  have hlt : 2 * (c * (num % den)) < c * den ↔ 2 * (num % den) < den := by
    rw [← mul_assoc, mul_comm 2 c, mul_assoc]
    exact Nat.mul_lt_mul_left hc
  have heq : 2 * (c * (num % den)) = c * den ↔ 2 * (num % den) = den := by
    rw [← mul_assoc, mul_comm 2 c, mul_assoc]
    exact Nat.mul_right_inj hc.ne'
  unfold roundHalfEven
  simp only [Nat.mul_div_mul_left num den hc, Nat.mul_mod_mul_left, hlt, heq]

theorem floorLog_mul {b c : Nat} (hc : 0 < c) (num den : Nat) :
    floorLog b (c * num) (c * den) = floorLog b num den := by
  unfold floorLog
  simp only [Nat.mul_div_mul_left _ _ hc, mul_assoc, Nat.mul_le_mul_left_iff hc]

theorem shifted_mul (b c num den : Nat) (e : Int) :
    shifted b (c * num) (c * den) e = (c * (shifted b num den e).1, c * (shifted b num den e).2) := by
  unfold shifted
  split <;> simp only [mul_assoc]

theorem ofRatio_mul {negative : Bool} {c : Nat} (hc : 0 < c) (num den : Nat) :
    ofRatio negative (c * num) (c * den) = ofRatio negative num den := by
  unfold ofRatio
  simp only [floorLog_mul hc, shifted_mul, roundHalfEven_mul hc, Nat.mul_eq_zero, hc.ne', false_or]

/-- Equal fractions are rounded to the same double. -/
theorem ofRatio_congr {negative : Bool} {n₁ d₁ n₂ d₂ : Nat} (h₁ : 0 < d₁) (h₂ : 0 < d₂)
    (h : (n₁ : ℚ) / d₁ = (n₂ : ℚ) / d₂) : ofRatio negative n₁ d₁ = ofRatio negative n₂ d₂ := by
  have hd₁ : (d₁ : ℚ) ≠ 0 := by exact_mod_cast h₁.ne'
  have hd₂ : (d₂ : ℚ) ≠ 0 := by exact_mod_cast h₂.ne'
  have hcross : n₁ * d₂ = n₂ * d₁ := by
    rw [div_eq_div_iff hd₁ hd₂] at h
    exact_mod_cast h
  calc ofRatio negative n₁ d₁ = ofRatio negative (d₂ * n₁) (d₂ * d₁) := (ofRatio_mul h₂ ..).symm
    _ = ofRatio negative (d₁ * n₂) (d₁ * d₂) := by
        rw [mul_comm d₂ n₁, hcross, mul_comm n₂ d₁, mul_comm d₂ d₁]
    _ = ofRatio negative n₂ d₂ := ofRatio_mul h₁ ..

/-- The sign is put on what the magnitude is rounded to. -/
theorem ofRatio_sign {negative : Bool} {num den m : Nat} {e : Int}
    (h : ofRatio false num den = .finite false m e) :
    ofRatio negative num den = .finite negative m e := by
  unfold ofRatio at h ⊢
  simp only at h ⊢
  split_ifs at h ⊢ <;> cases h <;> rfl

/-- A double is what its own value is rounded to. -/
theorem ofRatio_self {negative : Bool} {m : Nat} {e : Int} (h : Normal m e) :
    ofRatio negative (shifted 2 m 1 (-e)).1 (shifted 2 m 1 (-e)).2 = .finite negative m e := by
  have hvalue : ((shifted 2 m 1 (-e)).1 : ℚ) / (shifted 2 m 1 (-e)).2 * 2 ^ (-e) = m := by
    rw [shifted_ratio two_pos, neg_neg, Nat.cast_one, div_one, Nat.cast_ofNat, mul_assoc,
      ← zpow_add₀ two_ne_zero, add_neg_cancel, zpow_zero, mul_one]
  refine ofRatio_near h (shifted_pos two_pos m one_pos _) ?_ fun _ => ?_
  · rw [hvalue, sub_self, abs_zero]
    norm_num
  · rw [hvalue]
    linarith

/-! ## The search -/

/-- The search ends at a decimal that reads back, or at the nearest one of its last step. -/
theorem shortest_spec (num den : Nat) (fuel : Nat) : ∀ k : Int,
    readsBack num den (shortest num den fuel k).1 (shortest num den fuel k).2 = true ∨
      shortest num den fuel k = (roundHalfEven (shifted 10 num den (k - fuel)).1
        (shifted 10 num den (k - fuel)).2, k - fuel) := by
  induction fuel with
  | zero =>
      intro k
      rw [Nat.cast_zero, sub_zero]
      exact .inr rfl
  | succ fuel ih =>
      intro k
      obtain ⟨near, far, hsucc⟩ : ∃ near far, shortest num den (fuel + 1) k =
          if readsBack num den near k then (near, k)
          else if readsBack num den far k then (far, k)
          else shortest num den fuel (k - 1) := ⟨_, _, rfl⟩
      rw [hsucc]
      split_ifs with hnear hfar
      · exact .inl hnear
      · exact .inl hfar
      · have hstep : k - 1 - (fuel : Int) = k - ((fuel + 1 : Nat) : Int) := by
          push_cast
          ring
        rw [← hstep]
        exact ih (k - 1)

/-- What the search finds reads back. -/
theorem readsBack_shortest {m num den : Nat} {e : Int} (h : Normal m e) (hden : 0 < den)
    (hvalue : (num : ℚ) / den = m * 2 ^ e) :
    readsBack num den (shortest num den 17 (floorLog 10 num den + 1)).1
      (shortest num den 17 (floorLog 10 num den + 1)).2 = true := by
  rcases shortest_spec num den 17 (floorLog 10 num den + 1) with hback | hlast
  · exact hback
  rw [hlast]
  have hpow : (0 : ℚ) < 2 ^ e := zpow_pos two_pos e
  have hm1 : (1 : ℚ) ≤ m := by exact_mod_cast h.pos
  have hm53 : (m : ℚ) < 2 ^ 53 := by exact_mod_cast h.significand
  have hqpos : 0 < (num : ℚ) / den := by
    rw [hvalue]
    positivity
  have hnum : 0 < num := by
    refine Nat.pos_of_ne_zero ?_
    rintro rfl
    simp at hqpos
  have hscaled : (num : ℚ) / den * 2 ^ (-e) = m := by
    rw [hvalue, mul_assoc, ← zpow_add₀ two_ne_zero, add_neg_cancel, zpow_zero, mul_one]
  set K : Int := floorLog 10 num den + 1 - (17 : Nat) with hK
  set d := roundHalfEven (shifted 10 num den K).1 (shifted 10 num den K).2 with hd
  have hten : (0 : ℚ) < 10 ^ K := zpow_pos (by norm_num) K
  -- the last decimals are `u` apart, the doubles one
  set u : ℚ := 10 ^ K * 2 ^ (-e) with hu
  have hupos : 0 < u := mul_pos hten (zpow_pos two_pos _)
  have hsmall : u * 10 ^ 16 ≤ m := by
    have hlog := Int.zpow_log_le_self (b := 10) (by norm_num) hqpos
    have hexp : floorLog 10 num den = K + (16 : Nat) := by
      rw [hK]
      push_cast
      ring
    rw [← floorLog_eq (by norm_num) hnum hden, hexp] at hlog
    push_cast at hlog
    rw [zpow_add₀ (by norm_num)] at hlog
    have hle := mul_le_mul_of_nonneg_right hlog (zpow_pos (two_pos : (0 : ℚ) < 2) (-e)).le
    rw [hscaled] at hle
    calc u * 10 ^ 16 = 10 ^ K * 10 ^ (16 : Int) * 2 ^ (-e) := by
          rw [hu]
          norm_cast
          ring
      _ ≤ m := hle
  have hclose : |(d : ℚ) * u - m| ≤ u / 2 := by
    have herror := roundHalfEven_error (shifted 10 num den K).1
      (shifted_pos (by norm_num : 0 < 10) num hden K)
    rw [shifted_ratio (by norm_num), ← hd] at herror
    have hpull : (d : ℚ) * u - m = ((d : ℚ) - (num : ℚ) / den * 10 ^ (-K)) * u := by
      rw [sub_mul, hu, ← hscaled]
      have hcancel : (10 : ℚ) ^ (-K) * 10 ^ K = 1 := by
        rw [← zpow_add₀ (by norm_num), neg_add_cancel, zpow_zero]
      linear_combination ((num : ℚ) / den * 2 ^ (-e)) * hcancel
    rw [hpull, abs_mul, abs_of_pos hupos]
    have hmul := mul_le_mul_of_nonneg_right herror hupos.le
    push_cast at hmul
    linarith
  have hvalue' : ((shifted 10 d 1 (-K)).1 : ℚ) / (shifted 10 d 1 (-K)).2 * 2 ^ (-e) = d * u := by
    rw [shifted_ratio (by norm_num), neg_neg, Nat.cast_one, div_one, hu]
    push_cast
    ring
  have hfound : ofRatio false (shifted 10 d 1 (-K)).1 (shifted 10 d 1 (-K)).2 =
      .finite false m e := by
    refine ofRatio_near h (shifted_pos (by norm_num) d one_pos _) ?_ fun hm => ?_
    · rw [hvalue']
      refine lt_of_le_of_lt hclose ?_
      norm_num at hsmall
      linarith
    · have hm' : (m : ℚ) = 2 ^ 52 := by exact_mod_cast hm
      rw [hvalue']
      have hlower := (abs_le.mp hclose).1
      rw [hm'] at hsmall
      norm_num at hsmall
      linarith
  have hself : ofRatio false num den = .finite false m e := by
    refine ofRatio_near h hden ?_ fun _ => ?_
    · rw [hscaled, sub_self, abs_zero]
      norm_num
    · rw [hscaled]
      linarith
  unfold readsBack
  simp only [hfound, hself, decide_true]

end Double

/-! ## Literals -/

theorem digitsValue_append (ds es : List Digit) :
    digitsValue (ds ++ es) = digitsValue ds * 10 ^ es.length + digitsValue es := by
  induction ds with
  | nil => rw [List.nil_append, digitsValue, Nat.zero_mul, Nat.zero_add]
  | cons d ds ih =>
      rw [List.cons_append, digitsValue, digitsValue, ih, List.length_append, Nat.pow_add]
      ring

theorem digitsValue_zeros (n : Nat) : digitsValue (List.replicate n 0) = 0 := by
  induction n with
  | zero => rfl
  | succ n ih =>
      rw [List.replicate_succ, digitsValue, ih]
      simp

theorem digitsValue_exponentDigits (n : Nat) : digitsValue (Literal.exponentDigits n) = n := by
  unfold Literal.exponentDigits
  split
  · next hn =>
      simp [digitsValue, Nat.mod_eq_of_lt hn]
  · exact digitsValue_digitsOf n

namespace Literal

/-- The magnitude of a literal. -/
def magnitude (l : Literal) : ℚ := l.coefficient * 10 ^ l.scale

theorem negative_ofDigits (negative : Bool) (d : Digit) (ds : List Digit) (hd : d ≠ 0)
    (point : Int) : (ofDigits negative d ds hd point).negative = negative := by
  unfold ofDigits
  split_ifs <;> rfl

/-- The literal of `0.ds · 10 ^ point` has this value. -/
theorem magnitude_ofDigits (negative : Bool) (d : Digit) (ds : List Digit) (hd : d ≠ 0)
    (point : Int) :
    (ofDigits negative d ds hd point).magnitude =
      digitsValue (d :: ds) * 10 ^ (point - (ds.length + 1 : Nat)) := by
  have hten : (10 : ℚ) ≠ 0 := by norm_num
  unfold ofDigits magnitude
  split_ifs with hfar hpoint
  · -- `d.ds` with an exponent
    have hscale : (if decide (point - 1 < 0) = true then
          -(digitsValue (exponentDigits (point - 1).natAbs) : Int)
        else digitsValue (exponentDigits (point - 1).natAbs)) - (ds.length : Int) =
        point - (ds.length + 1 : Nat) := by
      simp only [digitsValue_exponentDigits, decide_eq_true_eq]
      split <;> omega
    simp only [coefficient, scale, hscale, List.cons_append, List.nil_append]
  · -- zeros behind the point
    have hcoefficient : digitsValue ([0] ++ (List.replicate point.natAbs 0 ++ d :: ds)) =
        digitsValue (d :: ds) := by
      rw [digitsValue_append, digitsValue_append, digitsValue_zeros]
      simp [digitsValue]
    have hscale : (0 : Int) - (List.replicate point.natAbs (0 : Digit) ++ d :: ds).length =
        point - (ds.length + 1 : Nat) := by
      rw [List.length_append, List.length_replicate, List.length_cons]
      omega
    simp only [coefficient, scale, hcoefficient, hscale]
  · -- the point stands among the digits or behind them
    obtain ⟨n, rfl⟩ : ∃ n : Nat, point = n + 1 := ⟨point.toNat - 1, by omega⟩
    have hn : ((n : Int) + 1).toNat - 1 = n := by omega
    simp only [coefficient, scale, hn]
    by_cases hlt : n < ds.length
    · have hcoefficient : d :: ds.take n ++ List.replicate (n - ds.length) 0 ++ ds.drop n =
          d :: ds := by
        rw [Nat.sub_eq_zero_of_le hlt.le, List.replicate_zero, List.append_nil, List.cons_append,
          List.take_append_drop]
      have hscale : (0 : Int) - (ds.drop n).length = (n : Int) + 1 - (ds.length + 1 : Nat) := by
        rw [List.length_drop]
        omega
      simp only [if_pos hlt, hcoefficient, hscale]
    · have hcoefficient : digitsValue (d :: ds.take n ++ List.replicate (n - ds.length) 0 ++ [0]) =
          digitsValue (d :: ds) * 10 ^ (n - ds.length + 1) := by
        rw [List.take_of_length_le (by omega), List.append_assoc, digitsValue_append,
          ← List.replicate_succ', digitsValue_zeros, List.length_replicate, Nat.add_zero]
      simp only [if_neg hlt, hcoefficient]
      have hexp : (n : Int) + 1 - (ds.length + 1 : Nat) =
          ((n - ds.length + 1 : Nat) : Int) + (0 - ([0] : List Digit).length) := by
        simp only [List.length_singleton]
        omega
      rw [hexp, zpow_add₀ hten, zpow_natCast]
      push_cast
      ring

theorem negative_ofDecimal (negative : Bool) (d : Nat) (k : Int) :
    (ofDecimal negative d k).negative = negative := by
  unfold ofDecimal
  split
  · rfl
  · split
    · rfl
    · exact negative_ofDigits ..

/-- The literal of a decimal that is not zero. -/
theorem magnitude_ofDecimal (negative : Bool) {d : Nat} (hd : d ≠ 0) (k : Int) :
    (ofDecimal negative d k).magnitude = d * 10 ^ k := by
  obtain ⟨first, rest, hdigits, hfirst⟩ := digitsOf_pos hd
  have hvalue := digitsValue_digitsOf d
  unfold ofDecimal
  simp only [hdigits, dif_neg hfirst] at hvalue ⊢
  rw [magnitude_ofDigits, hvalue, List.length_cons, add_sub_cancel_right]

end Literal

namespace Double

/-- A literal is read as its magnitude is rounded, whatever the fraction it is given as. -/
theorem ofLiteral_eq (l : Literal) {num den : Nat} (hden : 0 < den)
    (h : (num : ℚ) / den = l.magnitude) : ofLiteral l = ofRatio l.negative num den := by
  unfold ofLiteral
  split
  · next hscale =>
      refine ofRatio_congr one_pos hden ?_
      rw [h, Literal.magnitude, Nat.cast_one, div_one]
      obtain ⟨n, hn⟩ := Int.eq_ofNat_of_zero_le hscale
      rw [hn]
      push_cast
      simp
  · next hscale =>
      refine ofRatio_congr (Nat.pow_pos (by norm_num)) hden ?_
      rw [h, Literal.magnitude]
      obtain ⟨n, hn⟩ := Int.eq_ofNat_of_zero_le (show (0 : Int) ≤ -l.scale by omega)
      rw [show l.scale = -(n : Int) by rw [← hn]; ring]
      simp [zpow_neg, div_eq_mul_inv]

/-- A finite double in its normal form. -/
def Regular : Double → Prop
  | .finite _ m e => (m = 0 ∧ e = 0) ∨ Normal m e
  | .infinite _ => True
  | .nan => True

/-- The literal a double is written as reads back as the double. -/
theorem ofLiteral_repr {x : Double} (hx : x.Regular) {l : Literal} (h : x.repr = .literal l) :
    ofLiteral l = x := by
  cases x with
  | infinite negative => cases h
  | nan => cases h
  | finite negative m e =>
      rw [repr] at h
      rcases hx with ⟨rfl, rfl⟩ | hnormal
      · cases h
        cases negative <;> rfl
      · rw [if_neg hnormal.pos.ne'] at h
        have hden := shifted_pos (by norm_num : 0 < 2) m one_pos (-e)
        have hvalue : ((shifted 2 m 1 (-e)).1 : ℚ) / (shifted 2 m 1 (-e)).2 = m * 2 ^ e := by
          rw [shifted_ratio two_pos, neg_neg, Nat.cast_one, div_one, Nat.cast_ofNat]
        have hback := readsBack_shortest hnormal hden hvalue
        have hself : ofRatio false (shifted 2 m 1 (-e)).1 (shifted 2 m 1 (-e)).2 =
            .finite false m e := ofRatio_self hnormal
        cases h
        generalize shortest (shifted 2 m 1 (-e)).1 (shifted 2 m 1 (-e)).2 17
          (floorLog 10 (shifted 2 m 1 (-e)).1 (shifted 2 m 1 (-e)).2 + 1) = found at hback ⊢
        obtain ⟨d, k⟩ := found
        have hfound : ofRatio false (shifted 10 d 1 (-k)).1 (shifted 10 d 1 (-k)).2 =
            .finite false m e := by
          rw [← hself]
          simpa [readsBack] using hback
        have hd : d ≠ 0 := by
          rintro rfl
          have hzero : (shifted 10 0 1 (-k)).1 = 0 := by
            unfold shifted
            split <;> simp
          rw [ofRatio, if_pos hzero] at hfound
          cases hfound
          exact hnormal.pos.ne rfl
        rw [ofLiteral_eq _ (shifted_pos (by norm_num : 0 < 10) d one_pos (-k)) ?_,
          Literal.negative_ofDecimal]
        · exact ofRatio_sign hfound
        · rw [shifted_ratio (by norm_num), neg_neg, Nat.cast_one, div_one,
            Literal.magnitude_ofDecimal negative hd]
          norm_cast

end Double

end Repercep.Foundation
