import Mathlib.Data.Nat.Basic
set_option autoImplicit false

/-!
# Timestamps of the ledger

The model of `_utcnow` and `month_start` in `serving/usage.py`.  The ledger stores UTC
times as ISO 8601 text, cut at the second, and compares them as text.  The fields of
that text have fixed widths and stand in the order of their weight, so the order of two
texts is the order of the times they stand for.
-/

namespace Repercep.Ledger

/-- A text as SQLite stores it, by characters. -/
abbrev Text : Type := List Char

/-- The order of two texts under SQLite's `BINARY` collation. -/
def textLe : Text → Text → Bool
  | [], _ => true
  | _ :: _, [] => false
  | a :: as, b :: bs => a.toNat < b.toNat || (a.toNat = b.toNat && textLe as bs)

/-- The lexicographic order of two lists of numbers. -/
def fieldsLe : List Nat → List Nat → Bool
  | [], _ => true
  | _ :: _, [] => false
  | a :: as, b :: bs => a < b || (a = b && fieldsLe as bs)

/-- A UTC time, as `datetime.now(UTC)` returns it. -/
structure UtcTime where
  year : Nat
  month : Nat
  day : Nat
  hour : Nat
  minute : Nat
  second : Nat
  microsecond : Nat
  inRange : year < 10000 ∧ month ≤ 12 ∧ day ≤ 31 ∧ hour < 24 ∧ minute < 60 ∧ second < 60
  dayPos : 1 ≤ day
  deriving DecidableEq, Repr

namespace UtcTime

/-- The fields from the heaviest down. -/
def fields (t : UtcTime) : List Nat :=
  [t.year, t.month, t.day, t.hour, t.minute, t.second, t.microsecond]

/-- The order of time. -/
def NotAfter (s t : UtcTime) : Prop := fieldsLe s.fields t.fields = true

instance (s t : UtcTime) : Decidable (s.NotAfter t) :=
  inferInstanceAs (Decidable (fieldsLe s.fields t.fields = true))

end UtcTime

/-- A decimal digit. -/
def digit (n : Nat) : Char := Char.ofNat (48 + n)

/-- `{:02d}`, for a number below 100. -/
def twoDigits (n : Nat) : Text := [digit (n / 10), digit (n % 10)]

/-- `{:04d}`, for a number below 10000. -/
def fourDigits (n : Nat) : Text := twoDigits (n / 100) ++ twoDigits (n % 100)

/-- `isoformat(timespec="seconds")`. -/
def isoformat (t : UtcTime) : Text :=
  fourDigits t.year ++ '-' :: (twoDigits t.month ++ '-' :: (twoDigits t.day ++ 'T' ::
    (twoDigits t.hour ++ ':' :: (twoDigits t.minute ++ ':' :: (twoDigits t.second ++
      ['+', '0', '0', ':', '0', '0'])))))

/-- The start of the month of a time. -/
def UtcTime.monthStart (now : UtcTime) : UtcTime :=
  { now with
    day := 1, hour := 0, minute := 0, second := 0, microsecond := 0
    inRange := ⟨now.inRange.1, now.inRange.2.1, by omega, by omega, by omega, by omega⟩
    dayPos := Nat.le_refl 1 }

/-- `month_start`. -/
def monthStart (now : UtcTime) : Text := isoformat now.monthStart

/-! ## The order of the texts -/

theorem toNat_digit {n : Nat} (h : n < 10) : (digit n).toNat = 48 + n := by
  have hvalid : (48 + n).isValidChar := .inl (by omega)
  rw [digit, Char.ofNat, dif_pos hvalid]
  rfl

/-- Texts with a common beginning are ordered by what follows it. -/
theorem textLe_append (a : Text) (as bs : Text) :
    textLe (a ++ as) (a ++ bs) = textLe as bs := by
  induction a with
  | nil => rfl
  | cons c a ih => simpa [textLe] using ih

/-- Two numbers in two digits, each followed by something. -/
theorem textLe_twoDigits {m n : Nat} (hm : m < 100) (hn : n < 100) (as bs : Text) :
    textLe (twoDigits m ++ as) (twoDigits n ++ bs) =
      (decide (m < n) || (decide (m = n) && textLe as bs)) := by
  have hm1 := toNat_digit (show m / 10 < 10 by omega)
  have hm2 := toNat_digit (show m % 10 < 10 by omega)
  have hn1 := toNat_digit (show n / 10 < 10 by omega)
  have hn2 := toNat_digit (show n % 10 < 10 by omega)
  change (decide ((digit (m / 10)).toNat < (digit (n / 10)).toNat) ||
    (decide ((digit (m / 10)).toNat = (digit (n / 10)).toNat) &&
      (decide ((digit (m % 10)).toNat < (digit (n % 10)).toNat) ||
        (decide ((digit (m % 10)).toNat = (digit (n % 10)).toNat) && textLe as bs)))) = _
  rw [hm1, hm2, hn1, hn2]
  cases textLe as bs with
  | true =>
      simp only [Bool.and_true, ← Bool.decide_or, ← Bool.decide_and]
      apply decide_eq_decide.mpr
      omega
  | false =>
      simp only [Bool.and_false, Bool.or_false, ← Bool.decide_or, ← Bool.decide_and]
      apply decide_eq_decide.mpr
      omega

theorem textLe_fourDigits {m n : Nat} (hm : m < 10000) (hn : n < 10000) (as bs : Text) :
    textLe (fourDigits m ++ as) (fourDigits n ++ bs) =
      (decide (m < n) || (decide (m = n) && textLe as bs)) := by
  rw [fourDigits, fourDigits, List.append_assoc, List.append_assoc,
    textLe_twoDigits (by omega) (by omega), textLe_twoDigits (by omega) (by omega)]
  cases textLe as bs with
  | true =>
      simp only [Bool.and_true, ← Bool.decide_or, ← Bool.decide_and]
      apply decide_eq_decide.mpr
      omega
  | false =>
      simp only [Bool.and_false, Bool.or_false, ← Bool.decide_or, ← Bool.decide_and]
      apply decide_eq_decide.mpr
      omega

theorem textLe_cons_self (c : Char) (as bs : Text) :
    textLe (c :: as) (c :: bs) = textLe as bs :=
  textLe_append [c] as bs

/-- Two timestamps are ordered as their fields are, down to the second. -/
theorem textLe_isoformat (s t : UtcTime) :
    textLe (isoformat s) (isoformat t) =
      fieldsLe [s.year, s.month, s.day, s.hour, s.minute, s.second]
        [t.year, t.month, t.day, t.hour, t.minute, t.second] := by
  obtain ⟨hsy, hsmo, hsd, hsh, hsmi, hss⟩ := s.inRange
  obtain ⟨hty, htmo, htd, hth, htmi, hts⟩ := t.inRange
  have hzone : textLe ['+', '0', '0', ':', '0', '0'] ['+', '0', '0', ':', '0', '0'] = true :=
    rfl
  rw [isoformat, isoformat, textLe_fourDigits hsy hty, textLe_cons_self,
    textLe_twoDigits (by omega) (by omega), textLe_cons_self,
    textLe_twoDigits (by omega) (by omega), textLe_cons_self,
    textLe_twoDigits (by omega) (by omega), textLe_cons_self,
    textLe_twoDigits (by omega) (by omega), textLe_cons_self,
    textLe_twoDigits (by omega) (by omega), hzone]
  rfl

theorem textLe_trans {a b c : Text} (hab : textLe a b = true) (hbc : textLe b c = true) :
    textLe a c = true := by
  induction a generalizing b c with
  | nil => rfl
  | cons x a ih =>
      cases b with
      | nil => cases hab
      | cons y b =>
          cases c with
          | nil => cases hbc
          | cons z c =>
              simp only [textLe, Bool.or_eq_true, Bool.and_eq_true, decide_eq_true_eq]
                at hab hbc ⊢
              rcases hab with hxy | ⟨hxy, hab⟩
              · left
                omega
              · rcases hbc with hyz | ⟨hyz, hbc⟩
                · left
                  omega
                · right
                  exact ⟨hxy.trans hyz, ih hab hbc⟩

/-- The month of a later time does not start earlier. -/
theorem textLe_monthStart {s t : UtcTime} (h : s.NotAfter t) :
    textLe (monthStart s) (monthStart t) = true := by
  rw [monthStart, monthStart, textLe_isoformat]
  change fieldsLe [s.year, s.month, 1, 0, 0, 0] [t.year, t.month, 1, 0, 0, 0] = true
  have hrest : fieldsLe [1, 0, 0, 0] [1, 0, 0, 0] = true := rfl
  simp only [UtcTime.NotAfter, UtcTime.fields] at h
  rw [fieldsLe, fieldsLe, Bool.or_eq_true, Bool.and_eq_true, Bool.or_eq_true,
    Bool.and_eq_true, decide_eq_true_eq, decide_eq_true_eq, decide_eq_true_eq,
    decide_eq_true_eq] at h ⊢
  rw [hrest]
  rcases h with hyear | ⟨hyear, hmonth | ⟨hmonth, -⟩⟩
  · exact Or.inl hyear
  · exact Or.inr ⟨hyear, Or.inl hmonth⟩
  · exact Or.inr ⟨hyear, Or.inr ⟨hmonth, rfl⟩⟩

/-- The text of a month start is not above that of a time exactly when the time is not
earlier than it: the sub-second part that the text drops does not matter there. -/
theorem textLe_monthStart_iff (now t : UtcTime) :
    textLe (monthStart now) (isoformat t) = true ↔ now.monthStart.NotAfter t := by
  rw [monthStart, textLe_isoformat, UtcTime.NotAfter]
  have hmicro : (decide (0 < t.microsecond) ||
      (decide (0 = t.microsecond) && fieldsLe [] [])) = true := by
    cases Nat.eq_zero_or_pos t.microsecond with
    | inl hzero => simp [hzero, fieldsLe]
    | inr hpos => simp [hpos]
  simp only [UtcTime.fields, UtcTime.monthStart, fieldsLe] at hmicro ⊢
  rw [hmicro]
  exact Iff.rfl

end Repercep.Ledger
