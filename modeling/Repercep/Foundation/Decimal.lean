import Mathlib.Algebra.Field.Rat
import Mathlib.Data.Nat.Log
import Mathlib.Data.Rat.Defs
import Mathlib.Tactic.Ring
set_option autoImplicit false

/-!
# Decimal numbers and the doubles nearest to them

A number literal is a sign, digits before and behind the point, and an exponent; it stands
for a rational.  A binary64 float is the double nearest to the rational, ties to even, and
it is written as the shortest literal that reads back as the same double.
-/

namespace Repercep.Foundation

/-- A decimal digit. -/
abbrev Digit : Type := Fin 10

instance neZeroTen : NeZero 10 := ⟨by decide⟩

/-- The number the digits write. -/
def digitsValue : List Digit → Nat
  | [] => 0
  | d :: ds => d * 10 ^ ds.length + digitsValue ds

/-- The last `k` digits of `n`. -/
def lastDigits : Nat → Nat → List Digit
  | 0, _ => []
  | k + 1, n => Fin.ofNat 10 (n / 10 ^ k) :: lastDigits k n

/-- The digits of `n`, without leading zeros. -/
def digitsOf (n : Nat) : List Digit := lastDigits (Nat.log 10 n + 1) n

theorem length_lastDigits (k n : Nat) : (lastDigits k n).length = k := by
  induction k with
  | zero => rfl
  | succ k ih => rw [lastDigits, List.length_cons, ih]

theorem digitsValue_lastDigits (k n : Nat) : digitsValue (lastDigits k n) = n % 10 ^ k := by
  induction k with
  | zero => rw [lastDigits, digitsValue, Nat.pow_zero, Nat.mod_one]
  | succ k ih =>
      rw [lastDigits, digitsValue, ih, length_lastDigits, Nat.mod_pow_succ]
      simp only [Fin.ofNat]
      ring

theorem digitsValue_digitsOf (n : Nat) : digitsValue (digitsOf n) = n := by
  rw [digitsOf, digitsValue_lastDigits]
  exact Nat.mod_eq_of_lt (Nat.lt_pow_succ_log_self (by decide) n)

/-- Digits without a leading zero. -/
def Canonical (ds : List Digit) : Prop := ds = [0] ∨ ∃ d rest, ds = d :: rest ∧ d ≠ 0

theorem Canonical.ne_nil {ds : List Digit} (h : Canonical ds) : ds ≠ [] := by
  rcases h with rfl | ⟨d, rest, rfl, -⟩ <;> simp

/-- The digits of a positive number begin with one that is not zero. -/
theorem digitsOf_pos {n : Nat} (hn : n ≠ 0) : ∃ d rest, digitsOf n = d :: rest ∧ d ≠ 0 := by
  refine ⟨_, _, rfl, ?_⟩
  have hlow : 1 ≤ n / 10 ^ Nat.log 10 n :=
    (Nat.one_le_div_iff (Nat.pow_pos (by decide))).mpr (Nat.pow_log_le_self 10 hn)
  have hhigh : n / 10 ^ Nat.log 10 n < 10 := by
    rw [Nat.div_lt_iff_lt_mul (Nat.pow_pos (by decide)), mul_comm, ← pow_succ]
    exact Nat.lt_pow_succ_log_self (by decide) n
  intro hzero
  have hval := congrArg Fin.val hzero
  simp only [Fin.ofNat, Fin.val_zero, Nat.mod_eq_of_lt hhigh] at hval
  omega

theorem canonical_digitsOf (n : Nat) : Canonical (digitsOf n) := by
  by_cases hn : n = 0
  · exact .inl (by rw [hn]; rfl)
  · exact .inr (digitsOf_pos hn)

/-! ## Literals -/

/-- A number literal. -/
structure Literal where
  negative : Bool
  whole : List Digit
  /-- the digits behind the point; without any there is no point -/
  fraction : List Digit
  /-- whether the exponent is negative, and its digits -/
  exponent : Option (Bool × List Digit)
  canonical : Canonical whole
  filled : ∀ e ∈ exponent, e.2 ≠ []
  deriving DecidableEq

namespace Literal

/-- No exponent is filled. -/
theorem filled_none : ∀ e ∈ (none : Option (Bool × List Digit)), e.2 ≠ [] :=
  fun _ h => nomatch h

/-- No point and no exponent. -/
def isInteger (l : Literal) : Bool := l.fraction = [] ∧ l.exponent = none

/-- All digits, as one number. -/
def coefficient (l : Literal) : Nat := digitsValue (l.whole ++ l.fraction)

/-- The power of ten that belongs to the coefficient. -/
def scale (l : Literal) : Int :=
  (match l.exponent with
    | none => 0
    | some (negative, digits) =>
        if negative then -(digitsValue digits : Int) else digitsValue digits)
  - l.fraction.length

/-- The number the literal stands for. -/
def value (l : Literal) : ℚ :=
  (if l.negative then -1 else 1) * (l.coefficient * (10 : ℚ) ^ l.scale)

/-- The integer of a literal without point and exponent. -/
def integer (l : Literal) : Int :=
  if l.negative then -(digitsValue l.whole : Int) else digitsValue l.whole

/-- The literal of an integer. -/
def ofInt (n : Int) : Literal where
  negative := decide (n < 0)
  whole := digitsOf n.natAbs
  fraction := []
  exponent := none
  canonical := canonical_digitsOf _
  filled := filled_none

theorem value_of_isInteger {l : Literal} (h : l.isInteger = true) : l.value = l.integer := by
  obtain ⟨hfraction, hexponent⟩ : l.fraction = [] ∧ l.exponent = none := by
    simpa [isInteger] using h
  unfold value coefficient scale integer
  rw [hfraction, hexponent]
  cases l.negative <;> simp

theorem isInteger_ofInt (n : Int) : (ofInt n).isInteger = true := rfl

theorem integer_ofInt (n : Int) : (ofInt n).integer = n := by
  unfold integer
  simp only [ofInt, digitsValue_digitsOf, decide_eq_true_eq]
  split <;> omega

theorem value_ofInt (n : Int) : (ofInt n).value = n := by
  rw [value_of_isInteger (isInteger_ofInt n), integer_ofInt]

end Literal

/-! ## Doubles -/

/-- A binary64 float: `± significand · 2 ^ exponent`, or one of the others. -/
inductive Double where
  | finite (negative : Bool) (significand : Nat) (exponent : Int)
  | infinite (negative : Bool)
  | nan
  deriving DecidableEq, Repr

/-- The greatest `e` with `b ^ e ≤ num / den`. -/
def floorLog (b num den : Nat) : Int :=
  if den ≤ num then Nat.log b (num / den)
  else
    let k := Nat.log b (den / num)
    if den ≤ num * b ^ k then -(k : Int) else -(k + 1 : Int)

/-- `num / den` rounded to an integer, ties to even. -/
def roundHalfEven (num den : Nat) : Nat :=
  let q := num / den
  let r := num % den
  if 2 * r < den ∨ (2 * r = den ∧ q % 2 = 0) then q else q + 1

/-- `num / den · b ^ (-e)`, as a fraction. -/
def shifted (b num den : Nat) (e : Int) : Nat × Nat :=
  if 0 ≤ e then (num, den * b ^ e.toNat) else (num * b ^ (-e).toNat, den)

namespace Double

/-- The double nearest to `± num / den`. -/
def ofRatio (negative : Bool) (num den : Nat) : Double :=
  if num = 0 then .finite negative 0 0
  else
    let e := max (floorLog 2 num den - 52) (-1074)
    let s := shifted 2 num den e
    let m := roundHalfEven s.1 s.2
    if 0 ≤ e ∧ 2 ^ 1024 ≤ m * 2 ^ e.toNat then .infinite negative
    else if m = 2 ^ 53 then .finite negative (2 ^ 52) (e + 1)
    else .finite negative m e

/-- The double nearest to a literal. -/
def ofLiteral (l : Literal) : Double :=
  if 0 ≤ l.scale then ofRatio l.negative (l.coefficient * 10 ^ l.scale.toNat) 1
  else ofRatio l.negative l.coefficient (10 ^ (-l.scale).toNat)

/-- The rational a finite double is. -/
def value? : Double → Option ℚ
  | .finite negative m e => some ((if negative then -1 else 1) * (m * (2 : ℚ) ^ e))
  | .infinite _ => none
  | .nan => none

/-- `low ≤ x ≤ high`. -/
def within (low high : ℚ) (x : Double) : Bool :=
  match x.value? with
  | some q => low ≤ q ∧ q ≤ high
  | none => false

/-- It is not a zero. -/
def nonzero : Double → Bool
  | .finite _ m _ => m ≠ 0
  | .infinite _ => true
  | .nan => true

/-- `d · 10 ^ k` reads back as `num / den` does. -/
def readsBack (num den d : Nat) (k : Int) : Bool :=
  let s := shifted 10 d 1 (-k)
  ofRatio false s.1 s.2 = ofRatio false num den

/-- The decimal `d · 10 ^ k` with the greatest `k` that reads back as `num / den` does, the
nearer of two; the search goes down from `k` and takes what is nearest at its end. -/
def shortest (num den : Nat) : Nat → Int → Nat × Int
  | 0, k =>
      let s := shifted 10 num den k
      (roundHalfEven s.1 s.2, k)
  | fuel + 1, k =>
      let s := shifted 10 num den k
      let low := s.1 / s.2
      let near := roundHalfEven s.1 s.2
      let far := if near = low then low + 1 else low
      if readsBack num den near k then (near, k)
      else if readsBack num den far k then (far, k)
      else shortest num den fuel (k - 1)

end Double

namespace Literal

/-- A decimal exponent, with two digits at least. -/
def exponentDigits (n : Nat) : List Digit := if n < 10 then [0, Fin.ofNat 10 n] else digitsOf n

theorem exponentDigits_ne_nil (n : Nat) : exponentDigits n ≠ [] := by
  unfold exponentDigits
  split
  · exact List.cons_ne_nil _ _
  · exact (canonical_digitsOf n).ne_nil

/-- `repr` of the number `0.ds · 10 ^ point`: with an exponent if the point is far from the
digits. -/
def ofDigits (negative : Bool) (d : Digit) (ds : List Digit) (hd : d ≠ 0) (point : Int) :
    Literal :=
  if point ≤ -4 ∨ 16 < point then
    { negative := negative
      whole := [d]
      fraction := ds
      exponent := some (point - 1 < 0, exponentDigits (point - 1).natAbs)
      canonical := .inr ⟨d, [], rfl, hd⟩
      filled := fun _ h => by
        cases h
        exact exponentDigits_ne_nil _ }
  else if hpoint : point ≤ 0 then
    { negative := negative
      whole := [0]
      fraction := List.replicate point.natAbs 0 ++ d :: ds
      exponent := none
      canonical := .inl rfl
      filled := filled_none }
  else
    let n := point.toNat - 1
    { negative := negative
      whole := d :: ds.take n ++ List.replicate (n - ds.length) 0
      fraction := if n < ds.length then ds.drop n else [0]
      exponent := none
      canonical := .inr ⟨d, _, rfl, hd⟩
      filled := filled_none }

/-- `0.0` and `-0.0`. -/
def zero (negative : Bool) : Literal where
  negative := negative
  whole := [0]
  fraction := [0]
  exponent := none
  canonical := .inl rfl
  filled := filled_none

end Literal

/-- What a float is written as: a literal, or a name outside the decimals. -/
inductive Lexeme where
  | literal (l : Literal)
  | infinity (negative : Bool)
  | nan
  deriving DecidableEq

/-- `repr` of the decimal `d · 10 ^ k`. -/
def Literal.ofDecimal (negative : Bool) (d : Nat) (k : Int) : Literal :=
  match digitsOf d with
  | [] => .zero negative
  | first :: rest =>
      if hfirst : first = 0 then .zero negative
      else .ofDigits negative first rest hfirst (k + (digitsOf d).length)

theorem Literal.isInteger_ofDigits (negative : Bool) (d : Digit) (ds : List Digit) (hd : d ≠ 0)
    (point : Int) : (Literal.ofDigits negative d ds hd point).isInteger = false := by
  unfold Literal.ofDigits
  split
  · simp [Literal.isInteger]
  split
  · simp [Literal.isInteger]
  · simp only [Literal.isInteger, decide_eq_false_iff_not, not_and]
    intro hnil
    split at hnil
    · next hlt => simp at hnil; omega
    · cases hnil

theorem Literal.isInteger_ofDecimal (negative : Bool) (d : Nat) (k : Int) :
    (Literal.ofDecimal negative d k).isInteger = false := by
  unfold Literal.ofDecimal
  split
  · rfl
  · split
    · rfl
    · exact Literal.isInteger_ofDigits _ _ _ _ _

/-- `repr` of a double: the shortest literal that reads back. -/
def Double.repr : Double → Lexeme
  | .finite negative m e =>
      if m = 0 then .literal (.zero negative)
      else
        let s := shifted 2 m 1 (-e)
        let d := shortest s.1 s.2 17 (floorLog 10 s.1 s.2 + 1)
        .literal (.ofDecimal negative d.1 d.2)
  | .infinite negative => .infinity negative
  | .nan => .nan

/-- What is a float stays one when it is read. -/
theorem Double.isInteger_of_repr {x : Double} {l : Literal} (h : x.repr = .literal l) :
    l.isInteger = false := by
  cases x with
  | finite negative m e =>
      rw [Double.repr] at h
      split at h
      · cases h
        rfl
      · cases h
        exact Literal.isInteger_ofDecimal _ _ _
  | infinite negative => cases h
  | nan => cases h

end Repercep.Foundation
