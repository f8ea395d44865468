import Repercep.Foundation.JsonReading
set_option autoImplicit false

/-!
# The values of Python's `json`

What `json.loads` builds from a document and how `json.dumps` writes a value: integers
without bound, doubles for the literals with a point or an exponent, dicts for objects.
-/

namespace Repercep.Foundation

/-- A number as `json.loads` builds it. -/
inductive PyNumber where
  | int (n : Int)
  | float (x : Double)
  deriving DecidableEq

/-- A value as `json.loads` builds it; its objects are dicts. -/
abbrev PyValue : Type := JsonTree PyNumber

/-- `bool(value)`. -/
def truthOf : PyValue → Bool
  | .null => false
  | .bool b => b
  | .num (.int n) => n ≠ 0
  | .num (.float x) => x.nonzero
  | .str s => !s.isEmpty
  | .arr items => !items.isEmpty
  | .obj members => !members.isEmpty

/-- `int(literal)` or `float(literal)`. -/
def numberOf (l : Literal) : PyNumber :=
  if l.isInteger then .int l.integer else .float (.ofLiteral l)

/-- A number or a name for one. -/
def numberOfLexeme : Lexeme → PyNumber
  | .literal l => numberOf l
  | .infinity negative => .float (.infinite negative)
  | .nan => .float .nan

/-- `int.__repr__` and `float.__repr__`. -/
def lexemeOf : PyNumber → Lexeme
  | .int n => .literal (.ofInt n)
  | .float x => x.repr

/-- The value of a document, its objects made dicts. -/
def loaded (t : JsonTree Literal) : PyValue := (t.map numberOf).resolve

/-! ## Reading -/

theorem view_loaded (t : JsonTree Literal) (p : List JsonTree.Step) :
    (loaded t).view p = (t.view p).map (.map numberOf) := by
  rw [loaded, JsonTree.view_resolve, JsonTree.view_map]

theorem child_loaded (t : JsonTree Literal) (s : JsonTree.Step) :
    (loaded t).child s = (t.child s).map loaded := by
  rw [loaded, JsonTree.child_resolve, JsonTree.child_map, Option.map_map]
  rfl

theorem loaded_obj (members : List (Units × JsonTree Literal)) :
    ∃ parsed, loaded (.obj members) = .obj parsed ∧ (parsed.map Prod.fst).Nodup ∧
      ∀ k, lastValue k parsed = (lastValue k members).map loaded := by
  refine ⟨_, rfl, nodup_dictOf _, fun k => ?_⟩
  exact child_loaded (.obj members) (.member k)

theorem mem_nums_loaded {t : JsonTree Literal} {x : PyNumber} (h : x ∈ (loaded t).nums) :
    ∃ l ∈ t.resolve.nums, x = numberOf l := by
  obtain ⟨p, hp⟩ := JsonTree.mem_nums_resolve.mp h
  rw [JsonTree.view_map] at hp
  obtain ⟨shape, hview, hshape⟩ := Option.map_eq_some_iff.mp hp
  cases shape with
  | num l =>
      cases hshape
      exact ⟨l, JsonTree.mem_nums_resolve.mpr ⟨p, hview⟩, rfl⟩
  | _ => cases hshape

/-! ## Writing -/

/-- The literal of a number that has one. -/
def literalOf (x : PyNumber) : Literal :=
  match lexemeOf x with
  | .literal l => l
  | .infinity _ => .zero false
  | .nan => .zero false

theorem literalOf_eq {x : PyNumber} {l : Literal} (h : lexemeOf x = .literal l) :
    literalOf x = l := by
  rw [literalOf, h]

/-- What a float is written as is no integer. -/
theorem isInteger_literalOf_float (x : Double) : (literalOf (.float x)).isInteger = false := by
  have hlexeme : lexemeOf (.float x) = x.repr := rfl
  rw [literalOf, hlexeme]
  cases hrepr : x.repr with
  | literal l => exact Double.isInteger_of_repr hrepr
  | infinity negative => rfl
  | nan => rfl

theorem lexemeOf_int (n : Int) : lexemeOf (.int n) = .literal (literalOf (.int n)) := rfl

/-- A value all of whose numbers have literals is written as a document. -/
theorem map_literalOf {v : PyValue}
    (h : ∀ x ∈ v.nums, lexemeOf x = .literal (literalOf x)) :
    (v.map literalOf).map Lexeme.literal = v.map lexemeOf := by
  rw [JsonTree.map_map]
  exact JsonTree.map_congr fun x hx => (h x hx).symm

/-! ## UTF-8 -/

/-- `str.encode`. -/
def encodeUtf8 (text : List Char) : List UInt8 := (String.ofList text).toByteArray.data.toList

/-- `bytes.decode`; none where it raises. -/
def decodeUtf8 (raw : List UInt8) : Option (List Char) :=
  (ByteArray.mk raw.toArray).utf8Decode?.map Array.toList

theorem decodeUtf8_encodeUtf8 (text : List Char) : decodeUtf8 (encodeUtf8 text) = some text := by
  have hbytes : ByteArray.mk (encodeUtf8 text).toArray = text.utf8Encode := by
    unfold encodeUtf8
    rw [Array.toArray_toList, String.toByteArray_ofList]
  rw [decodeUtf8, hbytes, List.utf8Decode?_utf8Encode]
  rfl

end Repercep.Foundation
