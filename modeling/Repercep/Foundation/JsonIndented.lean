import Mathlib
import Repercep.Foundation.PythonJson
set_option autoImplicit false

/-!
# Indented JSON texts

What `json.dump` writes with an indentation and with its names sorted: every item and every
member on a line of its own, the members of an object in the order of the code points of
their names.  A text so laid out spells the same value, so the reader takes it back.
-/

namespace Repercep.Foundation

/-- The code points of a text, where two surrogates that make a pair are one of them. -/
def codePoints : Units → List Nat
  | [] => []
  | [u] => [u.val]
  | u :: v :: s =>
      if (0xD800 ≤ u.val ∧ u.val < 0xDC00) ∧ 0xDC00 ≤ v.val ∧ v.val < 0xE000 then
        (0x10000 + (u.val - 0xD800) * 0x400 + (v.val - 0xDC00)) :: codePoints s
      else u.val :: codePoints (v :: s)

/-- The members in the order of their names. -/
def sortMembers {β : Type} (members : List (Units × β)) : List (Units × β) :=
  members.insertionSort fun m m' => codePoints m.1 ≤ codePoints m'.1

/-- The start of a line inside `level` brackets. -/
def newline (level : Nat) : List Char := '\n' :: List.replicate (2 * level) ' '

namespace JsonTree

variable {N : Type}

mutual

/-- The tree with the members of every object in order. -/
def sortKeys : JsonTree N → JsonTree N
  | .null => .null
  | .bool b => .bool b
  | .num x => .num x
  | .str s => .str s
  | .arr items => .arr (sortKeysItems items)
  | .obj members => .obj (sortMembers (sortKeysMembers members))

/-- `sortKeys`, on the items of an array. -/
def sortKeysItems : List (JsonTree N) → List (JsonTree N)
  | [] => []
  | t :: ts => t.sortKeys :: sortKeysItems ts

/-- `sortKeys`, on the values of the members of an object. -/
def sortKeysMembers : List (Units × JsonTree N) → List (Units × JsonTree N)
  | [] => []
  | (k, t) :: ms => (k, t.sortKeys) :: sortKeysMembers ms

end

mutual

/-- The text of a value that stands inside `level` brackets. -/
def writeIndented (level : Nat) : JsonTree Lexeme → List Char
  | .null => nullText
  | .bool true => trueText
  | .bool false => falseText
  | .num x => x.text
  | .str s => stringText s
  | .arr items =>
      '[' :: (writeIndentedItems (level + 1) true items ++
        (if items.isEmpty then [] else newline level) ++ [']'])
  | .obj members =>
      '{' :: (writeIndentedMembers (level + 1) true members ++
        (if members.isEmpty then [] else newline level) ++ ['}'])

/-- The items of an array, each on a line of its own. -/
def writeIndentedItems (level : Nat) (first : Bool) : List (JsonTree Lexeme) → List Char
  | [] => []
  | t :: ts =>
      (if first then [] else [',']) ++ newline level ++
        (t.writeIndented level ++ writeIndentedItems level false ts)

/-- The members of an object, each on a line of its own. -/
def writeIndentedMembers (level : Nat) (first : Bool) :
    List (Units × JsonTree Lexeme) → List Char
  | [] => []
  | (k, t) :: ms =>
      (if first then [] else [',']) ++ newline level ++
        (stringText k ++ ':' :: ' ' :: (t.writeIndented level ++
          writeIndentedMembers level false ms))

end

@[simp] theorem sortKeysMembers_eq (members : List (Units × JsonTree N)) :
    sortKeysMembers members = members.map fun m => (m.1, m.2.sortKeys) := by
  induction members with
  | nil => rfl
  | cons m ms ih => rw [sortKeysMembers, ih, List.map_cons]

end JsonTree

theorem mem_map_fst_assignEntry {κ β : Type} [DecidableEq κ] {j k : κ} {v : β}
    {l : List (κ × β)} :
    j ∈ (assignEntry k v l).map Prod.fst ↔ j = k ∨ j ∈ l.map Prod.fst := by
  rw [map_fst_assignEntry]
  split
  · next hmem =>
      constructor
      · exact Or.inr
      · rintro (rfl | h)
        · exact hmem
        · exact h
  · rw [List.mem_append, List.mem_singleton, or_comm]

theorem mem_map_fst_sortMembers {β : Type} {k : Units} {members : List (Units × β)} :
    k ∈ (sortMembers members).map Prod.fst ↔ k ∈ members.map Prod.fst :=
  ((List.perm_insertionSort _ members).map Prod.fst).mem_iff

/-- A dict has the names of the members. -/
theorem mem_map_fst_dictOf {β : Type} {k : Units} {members : List (Units × β)} :
    k ∈ (dictOf members).map Prod.fst ↔ k ∈ members.map Prod.fst := by
  induction members using List.reverseRec with
  | nil => rfl
  | append_singleton members m ih =>
      rw [dictOf_append_singleton, mem_map_fst_assignEntry, ih, List.map_append, List.mem_append,
        List.map_singleton, List.mem_singleton, or_comm]

/-! ## The layout spells the value -/

/-- A line may start between any two tokens. -/
theorem spells_newline (level : Nat) {tokens : List JsonToken} {text : List Char}
    (hrest : Spells tokens text) : Spells tokens (newline level ++ text) := by
  have hblanks : ∀ n, Spells tokens (List.replicate n ' ' ++ text) := by
    intro n
    induction n with
    | zero => exact hrest
    | succ n ih => exact .whitespace ' ' rfl ih
  exact .whitespace '\n' rfl (hblanks _)

theorem stops_newline (level : Nat) (text : List Char) : Stops (newline level ++ text) :=
  stops_cons _ rfl

/-- What stands before the closing bracket does not go on with a word. -/
theorem stops_closing (empty : Bool) (level : Nat) {c : Char} (text : List Char)
    (hc : isWordChar c = false) :
    Stops ((if empty then [] else newline level) ++ c :: text) := by
  cases empty with
  | true => exact stops_cons text hc
  | false => exact stops_newline level _

theorem spells_closing (empty : Bool) (level : Nat) {tokens : List JsonToken}
    {text : List Char} (hrest : Spells tokens text) :
    Spells tokens ((if empty then [] else newline level) ++ text) := by
  cases empty with
  | true => exact hrest
  | false => exact spells_newline level hrest

/-- Before the parts of a value on lines of their own. -/
def commaNewline (level : Nat) (first : Bool) : List Char :=
  (if first then [] else [',']) ++ newline level

theorem separates_commaNewline (level : Nat) : Separates (commaNewline level) where
  spells := by
    intro first tokens text hrest
    cases first with
    | true => exact spells_newline level hrest
    | false => exact .structural ',' rfl (spells_newline level hrest)
  stops := fun _ => stops_cons _ rfl

theorem writeIndentedItems_eq (level : Nat) (items : List (JsonTree Lexeme)) :
    ∀ first, JsonTree.writeIndentedItems level first items =
      interleaved (commaNewline level) first (items.map (JsonTree.writeIndented level)) := by
  induction items with
  | nil => exact fun _ => rfl
  | cons t items ih =>
      intro first
      rw [JsonTree.writeIndentedItems, ih]
      rfl

theorem writeIndentedMembers_eq (level : Nat) (members : List (Units × JsonTree Lexeme)) :
    ∀ first, JsonTree.writeIndentedMembers level first members =
      interleaved (commaNewline level) first
        (members.map fun m => stringText m.1 ++ ':' :: ' ' :: m.2.writeIndented level) := by
  induction members with
  | nil => exact fun _ => rfl
  | cons m members ih =>
      intro first
      rw [JsonTree.writeIndentedMembers, ih, List.map_cons, interleaved, commaNewline]
      simp only [List.append_assoc, List.cons_append]

/-- The indented text spells the value, whatever the level. -/
theorem spells_writeIndented (t : JsonTree Lexeme) :
    ∀ level {tokens text}, Stops text → Spells tokens text →
      Spells (t.tokens ++ tokens) (t.writeIndented level ++ text) := by
  induction t with
  | null => exact fun _ _ _ hstops hrest => .word .null hstops hrest
  | bool b =>
      cases b with
      | false => exact fun _ _ _ hstops hrest => .word .boolFalse hstops hrest
      | true => exact fun _ _ _ hstops hrest => .word .boolTrue hstops hrest
  | num x => exact fun _ _ _ hstops hrest => .word (wordText_text x) hstops hrest
  | str s => exact fun _ _ _ _ hrest => spells_stringText s hrest
  | arr items ih =>
      intro level tokens text hstops hrest
      have hend : Spells (.endArray :: tokens) (']' :: text) := .structural ']' rfl hrest
      have hitems := (separates_commaNewline (level + 1)).spells_interleaved
        (fun t ht {_ _} => ih t ht (level + 1)) true (stops_closing items.isEmpty level text rfl) (spells_closing items.isEmpty level hend)
      rw [JsonTree.tokens, JsonTree.writeIndented, itemTokens_eq, writeIndentedItems_eq]
      simp only [List.cons_append, List.append_assoc, List.nil_append]
      exact .structural '[' rfl hitems
  | obj members ih =>
      intro level tokens text hstops hrest
      have hend : Spells (.endObject :: tokens) ('}' :: text) := .structural '}' rfl hrest
      have hmembers := (separates_commaNewline (level + 1)).spells_interleaved
        (fun m hm {_ _} hstops hrest => spells_member m.1 (ih m hm (level + 1) hstops hrest)) true
        (stops_closing members.isEmpty level text rfl) (spells_closing members.isEmpty level hend)
      rw [JsonTree.tokens, JsonTree.writeIndented, memberTokens_eq, writeIndentedMembers_eq]
      simp only [List.cons_append, List.append_assoc, List.nil_append]
      exact .structural '{' rfl hmembers

/-- The reader takes back what is written with an indentation. -/
theorem parseJson_writeIndented (t : JsonTree Lexeme) (level : Nat) :
    parseJson (t.writeIndented level) = some t := by
  refine parseJson_of_spells ?_
  simpa using @spells_writeIndented t level [] [] (fun _ h => nomatch h) .nil

end Repercep.Foundation
