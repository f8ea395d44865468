import Mathlib
import Repercep.Foundation.PythonJson
set_option autoImplicit false

/-!
# Compact JSON texts

What `json.dumps` writes when its separators are a bare comma and a bare colon.  The text
spells the value, so the reader takes it back; it is printable ASCII, so it is one line, and
its UTF-8 encoding has a byte for each character.
-/

namespace Repercep.Foundation

namespace JsonTree

mutual

/-- The text of a value, without a blank. -/
def writeCompact : JsonTree Lexeme → List Char
  | .null => nullText
  | .bool true => trueText
  | .bool false => falseText
  | .num x => x.text
  | .str s => stringText s
  | .arr items => '[' :: (writeCompactItems true items ++ [']'])
  | .obj members => '{' :: (writeCompactMembers true members ++ ['}'])

/-- The items of an array, with a comma before each but the first. -/
def writeCompactItems (first : Bool) : List (JsonTree Lexeme) → List Char
  | [] => []
  | t :: ts => (if first then [] else [',']) ++ (t.writeCompact ++ writeCompactItems false ts)

/-- The members of an object, with a comma before each but the first. -/
def writeCompactMembers (first : Bool) : List (Units × JsonTree Lexeme) → List Char
  | [] => []
  | (k, t) :: ms =>
      (if first then [] else [',']) ++
        (stringText k ++ ':' :: (t.writeCompact ++ writeCompactMembers false ms))

end

end JsonTree

/-! ## The text spells the value -/

/-- Before the parts of a value without blanks. -/
def bareComma (first : Bool) : List Char := if first then [] else [',']

theorem separates_bareComma : Separates bareComma where
  spells := by
    intro first tokens text hrest
    cases first with
    | true => exact hrest
    | false => exact .structural ',' rfl hrest
  stops := fun _ => stops_cons _ rfl

theorem writeCompactItems_eq (items : List (JsonTree Lexeme)) :
    ∀ first, JsonTree.writeCompactItems first items =
      interleaved bareComma first (items.map JsonTree.writeCompact) := by
  induction items with
  | nil => exact fun _ => rfl
  | cons t items ih =>
      intro first
      rw [JsonTree.writeCompactItems, ih]
      rfl

theorem writeCompactMembers_eq (members : List (Units × JsonTree Lexeme)) :
    ∀ first, JsonTree.writeCompactMembers first members = interleaved bareComma first
      (members.map fun m => stringText m.1 ++ ':' :: m.2.writeCompact) := by
  induction members with
  | nil => exact fun _ => rfl
  | cons m members ih =>
      intro first
      rw [JsonTree.writeCompactMembers, ih, List.map_cons, interleaved]
      simp only [List.append_assoc, List.cons_append]
      rfl

/-- A name, a bare colon and a value. -/
theorem spells_bareMember (k : Units) {t : JsonTree Lexeme} {body : List Char}
    {tokens : List JsonToken} {text : List Char}
    (hvalue : Spells (t.tokens ++ tokens) (body ++ text)) :
    Spells ((.str k :: .colon :: t.tokens) ++ tokens) ((stringText k ++ ':' :: body) ++ text) := by
  rw [List.append_assoc]
  exact spells_stringText k (.structural ':' rfl hvalue)

/-- The compact text spells the value. -/
theorem spells_writeCompact (t : JsonTree Lexeme) :
    ∀ {tokens text}, Stops text → Spells tokens text →
      Spells (t.tokens ++ tokens) (t.writeCompact ++ text) := by
  induction t with
  | null => exact fun hstops hrest => .word .null hstops hrest
  | bool b =>
      cases b with
      | false => exact fun hstops hrest => .word .boolFalse hstops hrest
      | true => exact fun hstops hrest => .word .boolTrue hstops hrest
  | num x => exact fun hstops hrest => .word (wordText_text x) hstops hrest
  | str s => exact fun _ hrest => spells_stringText s hrest
  | arr items ih =>
      intro tokens text hstops hrest
      have hend : Spells (.endArray :: tokens) (']' :: text) := .structural ']' rfl hrest
      have hitems := separates_bareComma.spells_interleaved ih true (stops_cons text rfl) hend
      rw [JsonTree.tokens, JsonTree.writeCompact, itemTokens_eq, writeCompactItems_eq]
      simp only [List.cons_append, List.append_assoc, List.nil_append]
      exact .structural '[' rfl hitems
  | obj members ih =>
      intro tokens text hstops hrest
      have hend : Spells (.endObject :: tokens) ('}' :: text) := .structural '}' rfl hrest
      have hmembers := separates_bareComma.spells_interleaved
        (fun m hm {_ _} hstops hrest => spells_bareMember m.1 (ih m hm hstops hrest)) true
        (stops_cons text rfl) hend
      rw [JsonTree.tokens, JsonTree.writeCompact, memberTokens_eq, writeCompactMembers_eq]
      simp only [List.cons_append, List.append_assoc, List.nil_append]
      exact .structural '{' rfl hmembers

/-- The reader takes back what is written without blanks. -/
theorem parseJson_writeCompact (t : JsonTree Lexeme) : parseJson t.writeCompact = some t := by
  refine parseJson_of_spells ?_
  simpa using @spells_writeCompact t [] [] (fun _ h => nomatch h) .nil

/-! ## The text is one line of ASCII -/

/-- Printable ASCII. -/
def Printable (text : List Char) : Prop := ∀ c ∈ text, 0x20 ≤ c.toNat ∧ c.toNat ≤ 0x7E

instance (text : List Char) : Decidable (Printable text) := List.decidableBAll ..

@[simp] theorem printable_nil : Printable [] := by simp [Printable]

@[simp] theorem printable_cons {c : Char} {text : List Char} :
    Printable (c :: text) ↔ (0x20 ≤ c.toNat ∧ c.toNat ≤ 0x7E) ∧ Printable text :=
  List.forall_mem_cons

@[simp] theorem printable_append {text₁ text₂ : List Char} :
    Printable (text₁ ++ text₂) ↔ Printable text₁ ∧ Printable text₂ :=
  List.forall_mem_append

theorem printable_digits (ds : List Digit) : Printable (ds.map digitChar) := by
  have hdigit : ∀ d, 0x20 ≤ (digitChar d).toNat ∧ (digitChar d).toNat ≤ 0x7E := by decide
  intro c hc
  obtain ⟨d, -, rfl⟩ := List.mem_map.mp hc
  exact hdigit d

theorem printable_literal (l : Literal) : Printable l.text := by
  have hsign : ∀ b : Bool, Printable (if b then ['-'] else []) := by decide
  have hmantissa : Printable l.mantissaText := by
    unfold Literal.mantissaText
    refine printable_append.mpr ⟨printable_append.mpr ⟨hsign _, printable_digits _⟩, ?_⟩
    split
    · exact printable_nil
    · exact printable_cons.mpr ⟨by decide, printable_digits _⟩
  refine printable_append.mpr ⟨hmantissa, ?_⟩
  cases l.exponent with
  | none => exact printable_nil
  | some e =>
      obtain ⟨negative, digits⟩ := e
      refine printable_cons.mpr ⟨by decide, printable_cons.mpr ⟨?_, printable_digits _⟩⟩
      revert negative
      decide

theorem printable_lexeme (x : Lexeme) : Printable x.text := by
  cases x with
  | literal l => exact printable_literal l
  | infinity negative =>
      revert negative
      decide
  | nan => decide

theorem printable_unitText (u : CodeUnit) : Printable (unitText u) := by
  have hhex : ∀ d, 0x20 ≤ (hexChar d).toNat ∧ (hexChar d).toNat ≤ 0x7E := by decide
  unfold unitText
  split_ifs with h₁ h₂ h₃ h₄ h₅ h₆ h₇ h₈
  · decide
  · decide
  · decide
  · decide
  · decide
  · decide
  · decide
  · refine printable_cons.mpr ⟨?_, printable_nil⟩
    rw [toNat_ofNat_of_lt (by omega)]
    exact h₈
  · refine printable_cons.mpr ⟨by decide, printable_cons.mpr ⟨by decide, ?_⟩⟩
    intro c hc
    obtain ⟨n, -, rfl⟩ := List.mem_map.mp hc
    exact hhex _

theorem printable_stringText (s : Units) : Printable (stringText s) := by
  refine printable_cons.mpr ⟨by decide, printable_append.mpr ⟨?_, by decide⟩⟩
  intro c hc
  obtain ⟨u, -, hu⟩ := List.mem_flatMap.mp hc
  exact printable_unitText u c hu

theorem printable_interleaved {parts : List (List Char)} (hparts : ∀ part ∈ parts, Printable part) :
    ∀ first, Printable (interleaved bareComma first parts) := by
  induction parts with
  | nil => exact fun _ => printable_nil
  | cons part parts ih =>
      intro first
      refine printable_append.mpr ⟨?_, printable_append.mpr
        ⟨hparts part List.mem_cons_self, ih (fun p hp => hparts p (List.mem_cons_of_mem part hp)) _⟩⟩
      revert first
      decide

/-- A compact text is printable ASCII. -/
theorem printable_writeCompact (t : JsonTree Lexeme) : Printable t.writeCompact := by
  induction t with
  | null => decide
  | bool b =>
      cases b with
      | false => decide
      | true => decide
  | num x => exact printable_lexeme x
  | str s => exact printable_stringText s
  | arr items ih =>
      rw [JsonTree.writeCompact, writeCompactItems_eq]
      refine printable_cons.mpr ⟨by decide, printable_append.mpr ⟨?_, by decide⟩⟩
      refine printable_interleaved (fun part hpart => ?_) true
      obtain ⟨t, ht, rfl⟩ := List.mem_map.mp hpart
      exact ih t ht
  | obj members ih =>
      rw [JsonTree.writeCompact, writeCompactMembers_eq]
      refine printable_cons.mpr ⟨by decide, printable_append.mpr ⟨?_, by decide⟩⟩
      refine printable_interleaved (fun part hpart => ?_) true
      obtain ⟨m, hm, rfl⟩ := List.mem_map.mp hpart
      exact printable_append.mpr ⟨printable_stringText m.1,
        printable_cons.mpr ⟨by decide, ih m hm⟩⟩

/-- ASCII is its own UTF-8 encoding. -/
theorem encodeUtf8_of_printable {text : List Char} (h : Printable text) :
    encodeUtf8 text = text.map fun c => UInt8.ofNat c.toNat := by
  have hchar : ∀ c ∈ text, String.utf8EncodeChar c = [UInt8.ofNat c.toNat] := by
    intro c hc
    have hlow : c.val.toNat ≤ 0x7F := Nat.le_succ_of_le (h c hc).2
    unfold String.utf8EncodeChar
    simp only [if_pos hlow]
    rfl
  unfold encodeUtf8
  rw [String.toByteArray_ofList, List.utf8Encode, List.flatMap_congr hchar,
    ← List.map_eq_flatMap]
  simp

/-- No byte of a compact text ends a line. -/
theorem encodeUtf8_no_newline {text : List Char} (h : Printable text) :
    ∀ b ∈ encodeUtf8 text, b ≠ 10 := by
  rw [encodeUtf8_of_printable h]
  intro b hb
  obtain ⟨c, hc, rfl⟩ := List.mem_map.mp hb
  intro heq
  have hnat := congrArg UInt8.toNat heq
  rw [UInt8.toNat_ofNat'] at hnat
  have hc' := h c hc
  have hten : (10 : UInt8).toNat = 10 := rfl
  omega

end Repercep.Foundation
