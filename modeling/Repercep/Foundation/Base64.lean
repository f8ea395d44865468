import Mathlib
set_option autoImplicit false

/-!
# Base64

The encoding of RFC 4648 with its padding: three bytes are four characters, and what is left
of one or two bytes at the end is padded.  Decoding takes back what has been encoded.
-/

namespace Repercep.Foundation

/-- The last six bits of a number. -/
def sixBits (n : Nat) : Fin 64 := ⟨n % 64, Nat.mod_lt n (Nat.succ_pos 63)⟩

@[simp] theorem sixBits_val (n : Nat) : (sixBits n).val = n % 64 := rfl

/-- The character of a sextet. -/
def base64Char (d : Fin 64) : Char :=
  if d.val < 26 then Char.ofNat (65 + d)
  else if d.val < 52 then Char.ofNat (71 + d)
  else if d.val < 62 then Char.ofNat (d - 4)
  else if d.val = 62 then '+'
  else '/'

/-- The sextet of a character. -/
def base64Digit? (c : Char) : Option (Fin 64) :=
  if 65 ≤ c.toNat ∧ c.toNat ≤ 90 then some (sixBits (c.toNat - 65))
  else if 97 ≤ c.toNat ∧ c.toNat ≤ 122 then some (sixBits (c.toNat - 71))
  else if 48 ≤ c.toNat ∧ c.toNat ≤ 57 then some (sixBits (c.toNat + 4))
  else if c = '+' then some (sixBits 62)
  else if c = '/' then some (sixBits 63)
  else none

/-- The character that fills up the last group. -/
def base64Pad : Char := '='

/-- Three bytes as one number. -/
def group (a b c : UInt8) : Nat := (a.toNat * 256 + b.toNat) * 256 + c.toNat

/-- The character of the sextet at a place of a number. -/
def sextet (n i : Nat) : Char := base64Char (sixBits (n / 64 ^ i))

/-- The encoding of a sequence of bytes. -/
def encodeBase64 : List UInt8 → List Char
  | [] => []
  | [a] => [sextet (group a 0 0) 3, sextet (group a 0 0) 2, base64Pad, base64Pad]
  | [a, b] =>
      [sextet (group a b 0) 3, sextet (group a b 0) 2, sextet (group a b 0) 1, base64Pad]
  | a :: b :: c :: bytes =>
      sextet (group a b c) 3 :: sextet (group a b c) 2 :: sextet (group a b c) 1 ::
        sextet (group a b c) 0 :: encodeBase64 bytes

/-- The bytes of four sextets. -/
def quantum (d₃ d₂ d₁ d₀ : Fin 64) : List UInt8 :=
  let n := ((d₃.val * 64 + d₂.val) * 64 + d₁.val) * 64 + d₀.val
  [UInt8.ofNat (n / 65536), UInt8.ofNat (n / 256), UInt8.ofNat n]

/-- The bytes of an encoding; `none` where a character or the padding is not one. -/
def decodeBase64 : List Char → Option (List UInt8)
  | [] => some []
  | c₃ :: c₂ :: c₁ :: c₀ :: text =>
      match base64Digit? c₃, base64Digit? c₂ with
      | some d₃, some d₂ =>
          if c₁ = base64Pad ∧ c₀ = base64Pad ∧ text = [] then some ((quantum d₃ d₂ (sixBits 0) (sixBits 0)).take 1)
          else
            match base64Digit? c₁ with
            | none => none
            | some d₁ =>
                if c₀ = base64Pad ∧ text = [] then some ((quantum d₃ d₂ d₁ (sixBits 0)).take 2)
                else
                  match base64Digit? c₀ with
                  | none => none
                  | some d₀ => (decodeBase64 text).map (quantum d₃ d₂ d₁ d₀ ++ ·)
      | _, _ => none
  | _ => none

theorem base64Digit?_base64Char (d : Fin 64) : base64Digit? (base64Char d) = some d := by
  revert d
  decide

/-- The pad is no character of the alphabet. -/
theorem base64Char_ne_pad (d : Fin 64) : base64Char d ≠ base64Pad := by
  revert d
  decide

theorem base64Digit?_sextet (n i : Nat) :
    base64Digit? (sextet n i) = some (sixBits (n / 64 ^ i)) :=
  base64Digit?_base64Char _

theorem sextet_ne_pad (n i : Nat) : sextet n i ≠ base64Pad := base64Char_ne_pad _

/-- A byte of a number is what stands at its place. -/
theorem ofNat_byte {a : UInt8} {n : Nat} (high : Nat) (h : n = high * 256 + a.toNat) :
    UInt8.ofNat n = a := by
  have ha : a.toNat < 256 := a.toNat_lt
  apply UInt8.toNat_inj.mp
  rw [UInt8.toNat_ofNat', h]
  omega

/-- The four sextets of three bytes. -/
theorem quantum_group (a b c : UInt8) :
    quantum (sixBits (group a b c / 64 ^ 3)) (sixBits (group a b c / 64 ^ 2))
        (sixBits (group a b c / 64 ^ 1)) (sixBits (group a b c / 64 ^ 0)) =
      [a, b, c] := by
  have ha := a.toNat_lt
  have hb := b.toNat_lt
  have hc := c.toNat_lt
  have hn : group a b c = (a.toNat * 256 + b.toNat) * 256 + c.toNat := rfl
  generalize group a b c = n at hn
  have hvalue : ((n / 64 ^ 3 % 64 * 64 + n / 64 ^ 2 % 64) * 64 + n / 64 ^ 1 % 64) * 64 +
      n / 64 ^ 0 % 64 = n := by omega
  unfold quantum
  simp only [sixBits_val, hvalue]
  have hfirst : UInt8.ofNat (n / 65536) = a := ofNat_byte 0 (by omega)
  have hsecond : UInt8.ofNat (n / 256) = b := ofNat_byte a.toNat (by omega)
  have hthird : UInt8.ofNat n = c := ofNat_byte _ hn
  rw [hfirst, hsecond, hthird]

/-- The last sextet of two bytes is empty. -/
theorem sextet_pair (a b : UInt8) : sixBits (group a b 0 / 64 ^ 0) = sixBits 0 := by
  apply Fin.ext
  have hzero : (0 : UInt8).toNat = 0 := rfl
  simp only [sixBits_val, group, hzero]
  omega

/-- The last two sextets of one byte are empty. -/
theorem sextet_single (a : UInt8) : sixBits (group a 0 0 / 64 ^ 1) = sixBits 0 := by
  apply Fin.ext
  have hzero : (0 : UInt8).toNat = 0 := rfl
  simp only [sixBits_val, group, hzero]
  omega

/-- Decoding takes back what has been encoded. -/
theorem decodeBase64_encodeBase64 (bytes : List UInt8) :
    decodeBase64 (encodeBase64 bytes) = some bytes := by
  induction bytes using encodeBase64.induct with
  | case1 => rfl
  | case2 a =>
      have hquantum := quantum_group a 0 0
      rw [sextet_pair, sextet_single] at hquantum
      simp only [encodeBase64, decodeBase64, base64Digit?_sextet, true_and, if_true, hquantum]
      rfl
  | case3 a b =>
      have hquantum := quantum_group a b 0
      rw [sextet_pair] at hquantum
      simp only [encodeBase64, decodeBase64, base64Digit?_sextet, sextet_ne_pad, false_and,
        true_and, if_true, if_false, hquantum]
      rfl
  | case4 a b c bytes ih =>
      simp only [encodeBase64, decodeBase64, base64Digit?_sextet, sextet_ne_pad, false_and,
        if_false, ih, Option.map_some, quantum_group]
      rfl

/-- The characters of an encoding are printable ASCII. -/
theorem printable_encodeBase64 (bytes : List UInt8) :
    ∀ c ∈ encodeBase64 bytes, 0x20 ≤ c.toNat ∧ c.toNat ≤ 0x7E := by
  have hchar : ∀ d, 0x20 ≤ (base64Char d).toNat ∧ (base64Char d).toNat ≤ 0x7E := by decide
  have hsextet : ∀ n i, 0x20 ≤ (sextet n i).toNat ∧ (sextet n i).toNat ≤ 0x7E :=
    fun n i => hchar _
  have hpad : 0x20 ≤ base64Pad.toNat ∧ base64Pad.toNat ≤ 0x7E := by decide
  induction bytes using encodeBase64.induct with
  | case1 => simp [encodeBase64]
  | case2 a => simpa only [encodeBase64, List.forall_mem_cons, hsextet, hpad, true_and] using by simp
  | case3 a b => simpa only [encodeBase64, List.forall_mem_cons, hsextet, hpad, true_and] using by simp
  | case4 a b c bytes ih =>
      simp only [encodeBase64, List.forall_mem_cons, hsextet, true_and]
      exact ih

end Repercep.Foundation
