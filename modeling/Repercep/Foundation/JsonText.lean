import Repercep.Foundation.Decimal
import Repercep.Foundation.Json
set_option autoImplicit false

/-!
# JSON texts

A text is a sequence of tokens with whitespace anywhere between them, as RFC 8259 has it;
the tokens of a value are those of its items and members between their brackets.  Beside
the grammar: the reader, a scanner that goes over the characters and a stack machine over
the tokens, and the writer, whose strings are ASCII.  The reader finds the value that a text
spells, so no text spells two.

Where a number is expected the reader and the writer also know the names of the floats that
are no decimals.  A text with one of them is not JSON.
-/

namespace Repercep.Foundation

/-! ## Characters -/

/-- The four characters that may stand between tokens. -/
def isWhitespace (c : Char) : Bool := c = ' ' ∨ c = '\t' ∨ c = '\n' ∨ c = '\r'

/-- The characters of numbers and names. -/
def isWordChar (c : Char) : Bool := c.isAlphanum ∨ c = '+' ∨ c = '-' ∨ c = '.'

/-- A decimal digit, written. -/
def digitChar (d : Digit) : Char := Char.ofNat (48 + d)

/-- A decimal digit, read. -/
def digit? (c : Char) : Option Digit :=
  if 48 ≤ c.toNat ∧ c.toNat ≤ 57 then some (Fin.ofNat 10 (c.toNat - 48)) else none

/-- A hexadecimal digit, written in lower case. -/
def hexChar (d : Fin 16) : Char :=
  if d.val < 10 then Char.ofNat (48 + d) else Char.ofNat (87 + d)

/-- A hexadecimal digit, read in either case. -/
def hexDigit? (c : Char) : Option (Fin 16) :=
  if 48 ≤ c.toNat ∧ c.toNat ≤ 57 then some (Fin.ofNat 16 (c.toNat - 48))
  else if 97 ≤ c.toNat ∧ c.toNat ≤ 102 then some (Fin.ofNat 16 (c.toNat - 87))
  else if 65 ≤ c.toNat ∧ c.toNat ≤ 70 then some (Fin.ofNat 16 (c.toNat - 55))
  else none

/-- The code units of a character. -/
def utf16 (c : Char) : Units :=
  if c.toNat < 0x10000 then [Fin.ofNat _ c.toNat]
  else [Fin.ofNat _ (0xD800 + (c.toNat - 0x10000) / 0x400),
    Fin.ofNat _ (0xDC00 + (c.toNat - 0x10000) % 0x400)]

/-- The code units of a string. -/
def unitsOf (s : String) : Units := s.toList.flatMap utf16

/-- What a backslash and one character stand for. -/
def escaped? (c : Char) : Option CodeUnit :=
  if c = '"' then some 0x22
  else if c = '\\' then some 0x5C
  else if c = '/' then some 0x2F
  else if c = 'b' then some 0x08
  else if c = 'f' then some 0x0C
  else if c = 'n' then some 0x0A
  else if c = 'r' then some 0x0D
  else if c = 't' then some 0x09
  else none

/-- The code unit of four hexadecimal digits. -/
def hexUnit (a b c d : Fin 16) : CodeUnit :=
  Fin.ofNat _ (((a.val * 16 + b.val) * 16 + c.val) * 16 + d.val)

/-! ## Spelling -/

/-- The tokens of a text. -/
inductive JsonToken where
  | beginArray
  | endArray
  | beginObject
  | endObject
  | colon
  | comma
  | null
  | bool (b : Bool)
  | num (x : Lexeme)
  | str (s : Units)
  deriving DecidableEq

/-- The token of a structural character. -/
def structural? (c : Char) : Option JsonToken :=
  if c = '[' then some .beginArray
  else if c = ']' then some .endArray
  else if c = '{' then some .beginObject
  else if c = '}' then some .endObject
  else if c = ':' then some .colon
  else if c = ',' then some .comma
  else none

/-- The body of a string. -/
inductive UnitsText : Units → List Char → Prop where
  | nil : UnitsText [] []
  | char (c : Char) {s : Units} {text : List Char} (hcontrol : 0x20 ≤ c.toNat)
      (hquote : c ≠ '"') (hbackslash : c ≠ '\\') (hrest : UnitsText s text) :
      UnitsText (utf16 c ++ s) (c :: text)
  | escape (c : Char) {u : CodeUnit} {s : Units} {text : List Char}
      (hescaped : escaped? c = some u) (hrest : UnitsText s text) :
      UnitsText (u :: s) ('\\' :: c :: text)
  | hex {c₁ c₂ c₃ c₄ : Char} {d₁ d₂ d₃ d₄ : Fin 16} {s : Units} {text : List Char}
      (h₁ : hexDigit? c₁ = some d₁) (h₂ : hexDigit? c₂ = some d₂)
      (h₃ : hexDigit? c₃ = some d₃) (h₄ : hexDigit? c₄ = some d₄) (hrest : UnitsText s text) :
      UnitsText (hexUnit d₁ d₂ d₃ d₄ :: s) ('\\' :: 'u' :: c₁ :: c₂ :: c₃ :: c₄ :: text)

/-- The exponent of a number. -/
inductive ExponentText : Option (Bool × List Digit) → List Char → Prop where
  | absent : ExponentText none []
  | unsigned {marker : Char} (hmarker : marker = 'e' ∨ marker = 'E') (digits : List Digit) :
      ExponentText (some (false, digits)) (marker :: digits.map digitChar)
  | plus {marker : Char} (hmarker : marker = 'e' ∨ marker = 'E') (digits : List Digit) :
      ExponentText (some (false, digits)) (marker :: '+' :: digits.map digitChar)
  | minus {marker : Char} (hmarker : marker = 'e' ∨ marker = 'E') (digits : List Digit) :
      ExponentText (some (true, digits)) (marker :: '-' :: digits.map digitChar)

/-- What stands before the exponent of a number. -/
def Literal.mantissaText (l : Literal) : List Char :=
  (if l.negative then ['-'] else []) ++ l.whole.map digitChar ++
    (if l.fraction = [] then [] else '.' :: l.fraction.map digitChar)

/-- The name of the null value. -/
def nullText : List Char := ['n', 'u', 'l', 'l']
/-- The name of the true value. -/
def trueText : List Char := ['t', 'r', 'u', 'e']
/-- The name of the false value. -/
def falseText : List Char := ['f', 'a', 'l', 's', 'e']
/-- The name that stands for a number that is none. -/
def nanText : List Char := ['N', 'a', 'N']
/-- The name that stands for an infinity. -/
def infinityText : List Char := ['I', 'n', 'f', 'i', 'n', 'i', 't', 'y']

/-- A name or a number. -/
inductive WordText : JsonToken → List Char → Prop where
  | null : WordText .null nullText
  | boolTrue : WordText (.bool true) trueText
  | boolFalse : WordText (.bool false) falseText
  | literal (l : Literal) {exponent : List Char} (hexponent : ExponentText l.exponent exponent) :
      WordText (.num (.literal l)) (l.mantissaText ++ exponent)
  | nan : WordText (.num .nan) nanText
  | infinity : WordText (.num (.infinity false)) infinityText
  | negInfinity : WordText (.num (.infinity true)) ('-' :: infinityText)

/-- What follows does not go on with a word. -/
def Stops (text : List Char) : Prop := ∀ c ∈ text.head?, isWordChar c = false

/-- A text is a sequence of tokens, with whitespace before and behind any of them. -/
inductive Spells : List JsonToken → List Char → Prop where
  | nil : Spells [] []
  | whitespace (c : Char) {tokens : List JsonToken} {text : List Char}
      (hspace : isWhitespace c = true) (hrest : Spells tokens text) : Spells tokens (c :: text)
  | structural (c : Char) {t : JsonToken} {tokens : List JsonToken} {text : List Char}
      (hmark : structural? c = some t) (hrest : Spells tokens text) :
      Spells (t :: tokens) (c :: text)
  | string {s : Units} {body : List Char} {tokens : List JsonToken} {text : List Char}
      (hbody : UnitsText s body) (hrest : Spells tokens text) :
      Spells (.str s :: tokens) ('"' :: (body ++ '"' :: text))
  | word {t : JsonToken} {word : List Char} {tokens : List JsonToken} {text : List Char}
      (hword : WordText t word) (hstops : Stops text) (hrest : Spells tokens text) :
      Spells (t :: tokens) (word ++ text)

namespace JsonTree

mutual

/-- The tokens of a value. -/
def tokens : JsonTree Lexeme → List JsonToken
  | .null => [.null]
  | .bool b => [.bool b]
  | .num x => [.num x]
  | .str s => [.str s]
  | .arr items => .beginArray :: (itemTokens true items ++ [.endArray])
  | .obj members => .beginObject :: (memberTokens true members ++ [.endObject])

/-- The tokens of the items of an array, with a comma before each but the first. -/
def itemTokens (first : Bool) : List (JsonTree Lexeme) → List JsonToken
  | [] => []
  | t :: ts => (if first then [] else [.comma]) ++ (t.tokens ++ itemTokens false ts)

/-- The tokens of the members of an object, with a comma before each but the first. -/
def memberTokens (first : Bool) : List (Units × JsonTree Lexeme) → List JsonToken
  | [] => []
  | (k, t) :: ms =>
      (if first then [] else [.comma]) ++ .str k :: .colon :: (t.tokens ++ memberTokens false ms)

end

/-- The text is JSON for the value. -/
def IsText (t : JsonTree Literal) (text : List Char) : Prop :=
  Spells (t.map .literal).tokens text

end JsonTree

/-! ## Reading tokens -/

/-- The digits at the front. -/
def spanDigits : List Char → List Digit × List Char
  | [] => ([], [])
  | c :: cs =>
      match digit? c with
      | some d => (d :: (spanDigits cs).1, (spanDigits cs).2)
      | none => ([], c :: cs)

/-- A minus at the front. -/
def spanMinus : List Char → Bool × List Char
  | '-' :: cs => (true, cs)
  | cs => (false, cs)

/-- The sign of an exponent. -/
def spanSign : List Char → Bool × List Char
  | '-' :: cs => (true, cs)
  | '+' :: cs => (false, cs)
  | cs => (false, cs)

/-- The exponent of a number; the outer option is none where it is malformed. -/
def exponent? : List Char → Option (Option (Bool × List Digit))
  | [] => some none
  | marker :: cs =>
      if marker = 'e' ∨ marker = 'E' then
        match spanDigits (spanSign cs).2 with
        | ([], _) => none
        | (digits, []) => some (some ((spanSign cs).1, digits))
        | _ => none
      else none

/-- The digits behind the point, and what follows them. -/
def fraction? : List Char → Option (List Digit × List Char)
  | '.' :: cs =>
      match spanDigits cs with
      | ([], _) => none
      | p => some p
  | cs => some ([], cs)

instance (ds : List Digit) : Decidable (Canonical ds) :=
  match ds with
  | [] => isFalse (by rintro (h | ⟨d, rest, h, -⟩) <;> cases h)
  | d :: ds =>
      if hd : d = 0 then
        if hds : ds = [] then isTrue (.inl (by rw [hd, hds]))
        else isFalse (by
          rintro (h | ⟨d', rest, h, hne⟩)
          · exact hds (List.cons.inj h).2
          · exact hne ((List.cons.inj h).1 ▸ hd))
      else isTrue (.inr ⟨d, ds, rfl, hd⟩)

instance (e : Option (Bool × List Digit)) : Decidable (∀ d ∈ e, d.2 ≠ []) :=
  match e with
  | none => isTrue Literal.filled_none
  | some (_, []) => isFalse fun h => h _ rfl rfl
  | some (_, _ :: _) => isTrue fun _ h => by
      cases h
      exact List.cons_ne_nil _ _

/-- A number. -/
def literal? (cs : List Char) : Option Literal :=
  let whole := spanDigits (spanMinus cs).2
  match fraction? whole.2 with
  | none => none
  | some fraction =>
      match exponent? fraction.2 with
      | none => none
      | some exponent =>
          if hcanonical : Canonical whole.1 then
            if hfilled : ∀ e ∈ exponent, e.2 ≠ [] then
              some ⟨(spanMinus cs).1, whole.1, fraction.1, exponent, hcanonical, hfilled⟩
            else none
          else none

/-- A name or a number. -/
def word? (w : List Char) : Option JsonToken :=
  if w = nullText then some .null
  else if w = trueText then some (.bool true)
  else if w = falseText then some (.bool false)
  else if w = nanText then some (.num .nan)
  else if w = infinityText then some (.num (.infinity false))
  else if w = '-' :: infinityText then some (.num (.infinity true))
  else (literal? w).map fun l => .num (.literal l)

/-- Where the scanner stands. -/
inductive Lexing where
  | between
  | word (w : List Char)
  | string (s : Units)
  | escape (s : Units)
  | hex (s : Units) (digits : List (Fin 16))

/-- A character between two tokens. -/
def lexStart (c : Char) : Option (List JsonToken × Lexing) :=
  if isWhitespace c then some ([], .between)
  else
    match structural? c with
    | some t => some ([t], .between)
    | none =>
        if c = '"' then some ([], .string [])
        else if isWordChar c then some ([], .word [c])
        else none

/-- One character: the tokens it ends, and what comes next. -/
def lexStep : Lexing → Char → Option (List JsonToken × Lexing)
  | .between, c => lexStart c
  | .word w, c =>
      if isWordChar c then some ([], .word (w ++ [c]))
      else (word? w).bind fun t => (lexStart c).map fun p => (t :: p.1, p.2)
  | .string s, c =>
      if c = '"' then some ([.str s], .between)
      else if c = '\\' then some ([], .escape s)
      else if c.toNat < 0x20 then none
      else some ([], .string (s ++ utf16 c))
  | .escape s, c =>
      if c = 'u' then some ([], .hex s [])
      else (escaped? c).map fun u => ([], .string (s ++ [u]))
  | .hex s digits, c =>
      match hexDigit? c, digits with
      | none, _ => none
      | some d, [d₁, d₂, d₃] => some ([], .string (s ++ [hexUnit d₁ d₂ d₃ d]))
      | some d, digits => some ([], .hex s (digits ++ [d]))

/-- The tokens of a text. -/
def lex : Lexing → List Char → Option (List JsonToken)
  | .between, [] => some []
  | .word w, [] => (word? w).map fun t => [t]
  | _, [] => none
  | m, c :: cs => (lexStep m c).bind fun p => (lex p.2 cs).map fun tokens => p.1 ++ tokens

/-! ## Reading values -/

/-- An array or an object that is still open. -/
inductive OpenValue where
  | array (items : List (JsonTree Lexeme))
  | object (members : List (Units × JsonTree Lexeme))
  | member (members : List (Units × JsonTree Lexeme)) (k : Units)

/-- What the reader waits for. -/
inductive Expecting where
  /-- a value, or the end of an array that has just begun -/
  | value (first : Bool)
  | name (first : Bool)
  | colon (k : Units)
  | next

/-- How far a reader has come: it is inside some values, or it has read all of one. -/
inductive Reading where
  | running (frames : List OpenValue) (expecting : Expecting)
  | done (t : JsonTree Lexeme)

/-- A value is complete. -/
def deliver (t : JsonTree Lexeme) : List OpenValue → Option Reading
  | [] => some (.done t)
  | .array items :: frames => some (.running (.array (items ++ [t]) :: frames) .next)
  | .member members k :: frames =>
      some (.running (.object (members ++ [(k, t)]) :: frames) .next)
  | .object _ :: _ => none

/-- One token. -/
def readStep : Reading → JsonToken → Option Reading
  | .running frames (.value _), .null => deliver .null frames
  | .running frames (.value _), .bool b => deliver (.bool b) frames
  | .running frames (.value _), .num x => deliver (.num x) frames
  | .running frames (.value _), .str s => deliver (.str s) frames
  | .running frames (.value _), .beginArray => some (.running (.array [] :: frames) (.value true))
  | .running frames (.value _), .beginObject => some (.running (.object [] :: frames) (.name true))
  | .running (.array items :: frames) (.value true), .endArray => deliver (.arr items) frames
  | .running frames (.name _), .str k => some (.running frames (.colon k))
  | .running (.object members :: frames) (.name true), .endObject =>
      deliver (.obj members) frames
  | .running (.object members :: frames) (.colon k), .colon =>
      some (.running (.member members k :: frames) (.value false))
  | .running (.array items :: frames) .next, .comma =>
      some (.running (.array items :: frames) (.value false))
  | .running (.array items :: frames) .next, .endArray => deliver (.arr items) frames
  | .running (.object members :: frames) .next, .comma =>
      some (.running (.object members :: frames) (.name false))
  | .running (.object members :: frames) .next, .endObject => deliver (.obj members) frames
  | _, _ => none

/-- One token after another. -/
def readAll : Reading → List JsonToken → Option Reading
  | r, [] => some r
  | r, t :: tokens => (readStep r t).bind fun r' => readAll r' tokens

/-- The value of a list of tokens, if they are one value. -/
def readTokens (tokens : List JsonToken) : Option (JsonTree Lexeme) :=
  match readAll (.running [] (.value false)) tokens with
  | some (.done t) => some t
  | _ => none

/-- The value a text spells. -/
def parseJson (text : List Char) : Option (JsonTree Lexeme) :=
  (lex .between text).bind readTokens

/-! ## Writing -/

/-- A code unit in an ASCII string. -/
def unitText (u : CodeUnit) : List Char :=
  if u.val = 0x22 then ['\\', '"']
  else if u.val = 0x5C then ['\\', '\\']
  else if u.val = 0x0A then ['\\', 'n']
  else if u.val = 0x0D then ['\\', 'r']
  else if u.val = 0x09 then ['\\', 't']
  else if u.val = 0x0C then ['\\', 'f']
  else if u.val = 0x08 then ['\\', 'b']
  else if 0x20 ≤ u.val ∧ u.val ≤ 0x7E then [Char.ofNat u.val]
  else '\\' :: 'u' :: [u.val / 4096, u.val / 256, u.val / 16, u.val].map fun n =>
    hexChar (Fin.ofNat 16 n)

/-- A string between its quotes. -/
def stringText (s : Units) : List Char := '"' :: (s.flatMap unitText ++ ['"'])

/-- A number as it is spelled. -/
def Literal.text (l : Literal) : List Char :=
  l.mantissaText ++
    match l.exponent with
    | none => []
    | some (negative, digits) => 'e' :: (if negative then '-' else '+') :: digits.map digitChar

/-- A number as it is spelled, or the name of a special one. -/
def Lexeme.text : Lexeme → List Char
  | .literal l => l.text
  | .infinity false => infinityText
  | .infinity true => '-' :: infinityText
  | .nan => nanText

namespace JsonTree

mutual

/-- The text of a value, with a blank behind commas and colons. -/
def write : JsonTree Lexeme → List Char
  | .null => nullText
  | .bool true => trueText
  | .bool false => falseText
  | .num x => x.text
  | .str s => stringText s
  | .arr items => '[' :: (writeItems true items ++ [']'])
  | .obj members => '{' :: (writeMembers true members ++ ['}'])

/-- The items of an array, with a comma and a blank before each but the first. -/
def writeItems (first : Bool) : List (JsonTree Lexeme) → List Char
  | [] => []
  | t :: ts => (if first then [] else [',', ' ']) ++ (t.write ++ writeItems false ts)

/-- The members of an object, with a comma and a blank before each but the first. -/
def writeMembers (first : Bool) : List (Units × JsonTree Lexeme) → List Char
  | [] => []
  | (k, t) :: ms =>
      (if first then [] else [',', ' ']) ++
        (stringText k ++ ':' :: ' ' :: (t.write ++ writeMembers false ms))

end

end JsonTree

end Repercep.Foundation
