import Mathlib.Algebra.Ring.Int.Defs
import Mathlib.Data.List.DropRight
import Repercep.Foundation.LineStream
set_option autoImplicit false

/-!
# Metering: the response meter

The model of `ResponseMeter` in `serving/metering.py`.  Bytes are lists of `UInt8`.

`json.loads` is a parameter: it may answer anything, and it may fail in two ways,
with an error the meter catches (`JSONDecodeError`, `UnicodeDecodeError`) or with one
that passes through it.  An operation returns its result together with the state it
leaves, so that what an error leaves behind can be told.
-/

namespace Repercep.Metering

open Repercep.Foundation

/-- A `bytes` object. -/
abbrev Bytes : Type := List UInt8

/-- A Python value as `json.loads` builds it; a float is given by its bits. -/
inductive Json where
  | none
  | bool (b : Bool)
  | int (n : Int)
  | float (bits : UInt64)
  | str (s : String)
  | list (items : List Json)
  | dict (fields : List (String × Json))

namespace Json

/-- Python truth: false are `None`, `False`, zeros and what is empty. -/
def truthy : Json → Bool
  | none => false
  | bool b => b
  | int n => n ≠ 0
  | float bits => bits <<< 1 ≠ 0
  | str s => s ≠ ""
  | list items => !items.isEmpty
  | dict fields => !fields.isEmpty

/-- The value of an `int`; a `bool` is one in Python. -/
def asInt : Json → Option Int
  | int n => some n
  | bool b => some (if b then 1 else 0)
  | none | float _ | str _ | list _ | dict _ => Option.none

end Json

/-- `obj.get(key)`. -/
def get (fields : List (String × Json)) (key : String) : Json :=
  (fields.lookup key).getD .none

/-- How `json.loads` fails. -/
inductive LoadError where
  | jsonDecode
  | unicodeDecode
  /-- anything else, such as a recursion error -/
  | other (kind : String)
  deriving DecidableEq, Repr

/-- The meter has a handler for the error. -/
def LoadError.caught : LoadError → Bool
  | jsonDecode | unicodeDecode => true
  | other _ => false

/-- `json.loads`. -/
abbrev Loads : Type := Bytes → Except LoadError Json

/-- Prompt and completion token counts for one call. -/
structure TokenUsage where
  promptTokens : Int
  completionTokens : Int
  deriving DecidableEq, Repr

/-- `total_tokens`. -/
def TokenUsage.totalTokens (u : TokenUsage) : Int := u.promptTokens + u.completionTokens

/-- `_usage_from_obj`, for a dict. -/
def usageFromFields (fields : List (String × Json)) : Option TokenUsage :=
  match get fields "usage" with
  | .dict usage =>
      match (get usage "prompt_tokens").asInt, (get usage "completion_tokens").asInt with
      | none, none => none
      | prompt, completion => some ⟨prompt.getD 0, completion.getD 0⟩
  | _ => none

/-- `_usage_from_obj`. -/
def usageFromObj : Json → Option TokenUsage
  | .dict fields => usageFromFields fields
  | _ => none

/-- One choice of a chunk carries content. -/
def choiceHasContent : Json → Bool
  | .dict choice =>
      (match get choice "delta" with
        | .dict delta => (get delta "content").truthy
        | _ => false) || (get choice "text").truthy
  | _ => false

/-- `_has_content_delta`. -/
def hasContentDelta (fields : List (String × Json)) : Bool :=
  match get fields "choices" with
  | .list choices => choices.any choiceHasContent
  | _ => false

/-! ## Bytes -/

/-- ASCII whitespace, as `bytes.strip` takes it. -/
def isSpace (b : UInt8) : Bool := b = 32 ∨ (9 ≤ b ∧ b ≤ 13)

/-- The byte a line ends with. -/
def isNewline (b : UInt8) : Bool := b = 10

/-- `bytes.strip`. -/
def strip (bytes : Bytes) : Bytes := (bytes.dropWhile isSpace).rdropWhile isSpace

/-- `data:` -/
def sseDataPrefix : Bytes := [100, 97, 116, 97, 58]

/-- `[DONE]` -/
def sseDone : Bytes := [91, 68, 79, 78, 69, 93]

/-- `_MAX_ACCUMULATE_BYTES`. -/
def maxAccumulateBytes : Nat := 8 * 1024 * 1024

/-- The payload `_inspect_sse_line` parses: that of a data line, unless it is empty
or the end marker. -/
def dataPayload (line : Bytes) : Option Bytes :=
  if sseDataPrefix.isPrefixOf (strip line) then
    let payload := strip ((strip line).drop sseDataPrefix.length)
    if payload = [] ∨ payload = sseDone then none else some payload
  else none

/-- `extract_usage`. -/
def extractUsage (loads : Loads) (payload : Bytes) : Except LoadError (Option TokenUsage) :=
  match loads payload with
  | .ok obj => .ok (usageFromObj obj)
  | .error e => if e.caught then .ok none else .error e

/-! ## The meter -/

/-- What the lines seen so far have told. -/
structure Tally where
  usage : Option TokenUsage
  deltaChunks : Nat
  dropNextBlank : Bool
  deriving DecidableEq, Repr

/-- `_inspect_sse_line`: record usage from a data line; true if the line must be
suppressed. -/
def inspectSseLine (loads : Loads) (suppress : Bool) (t : Tally) (line : Bytes) :
    Except LoadError Bool × Tally :=
  match dataPayload line with
  | none => (.ok false, t)
  | some payload =>
      match loads payload with
      | .error e => (if e.caught then .ok false else .error e, t)
      | .ok (.dict fields) =>
          match usageFromFields fields with
          | some found =>
              (.ok (suppress && !(get fields "choices").truthy), { t with usage := some found })
          | none =>
              (.ok false, if hasContentDelta fields then
                { t with deltaChunks := t.deltaChunks + 1 } else t)
      | .ok _ => (.ok false, t)

/-- `_forward_line`: inspect one complete line; true to forward it. -/
def forwardLine (loads : Loads) (suppress : Bool) (t : Tally) (line : Bytes) :
    Except LoadError Bool × Tally :=
  if strip line = [] then
    if t.dropNextBlank then (.ok false, { t with dropNextBlank := false })
    else (.ok true, t)
  else
    match inspectSseLine loads suppress { t with dropNextBlank := false } line with
    | (.error e, t') => (.error e, t')
    | (.ok true, t') => (.ok false, { t' with dropNextBlank := true })
    | (.ok false, t') => (.ok true, t')

/-- The bytes a complete line adds to the output. -/
def outLine (loads : Loads) (suppress : Bool) (t : Tally) (line : Bytes) :
    Except LoadError Bytes × Tally :=
  match forwardLine loads suppress t line with
  | (.error e, t') => (.error e, t')
  | (.ok keep, t') => (.ok (if keep then line else []), t')

/-- Tees an upstream response: forwards bytes, counts tokens. -/
structure ResponseMeter where
  streaming : Bool
  suppress : Bool
  buffer : Bytes
  body : Bytes
  truncated : Bool
  tally : Tally
  deriving DecidableEq, Repr

namespace ResponseMeter

/-- `ResponseMeter(streaming=…, suppress_usage_chunk=…)`. -/
def new (streaming suppress : Bool) : ResponseMeter where
  streaming := streaming
  suppress := suppress
  buffer := []
  body := []
  truncated := false
  tally := ⟨none, 0, false⟩

/-- Measured usage, or the chunk-count estimate when none was sent. -/
def usage (m : ResponseMeter) : TokenUsage :=
  m.tally.usage.getD ⟨0, m.tally.deltaChunks⟩

/-- False when `usage` is the estimate. -/
def exact (m : ResponseMeter) : Bool := m.tally.usage.isSome

/-- Accumulate a chunk of a non-streamed body, up to the cap. -/
def accumulate (m : ResponseMeter) (chunk : Bytes) : ResponseMeter :=
  if m.truncated then m
  else if maxAccumulateBytes < m.body.length + chunk.length then
    { m with truncated := true, body := [] }
  else { m with body := m.body ++ chunk }

/-- `_feed_sse`.  The loop takes line after line off the front of the buffer; an
error leaves there what follows the failing line. -/
def feedSse (loads : Loads) (m : ResponseMeter) (chunk : Bytes) :
    Except LoadError Bytes × ResponseMeter :=
  let pass := LineStream.feed isNewline (outLine loads m.suppress) m.tally m.buffer chunk
  (pass.result, { m with buffer := pass.rest, tally := pass.state })

/-- `feed`: consume an upstream chunk; return the bytes to forward onward. -/
def feed (loads : Loads) (m : ResponseMeter) (chunk : Bytes) :
    Except LoadError Bytes × ResponseMeter :=
  if m.streaming then m.feedSse loads chunk else (.ok chunk, m.accumulate chunk)

/-- `finish`: flush any buffered tail. -/
def finish (loads : Loads) (m : ResponseMeter) : Except LoadError Bytes × ResponseMeter :=
  if m.streaming then
    if m.buffer = [] then (.ok [], m)
    else
      match inspectSseLine loads m.suppress m.tally m.buffer with
      | (.error e, t) => (.error e, { m with buffer := [], tally := t })
      | (.ok _, t) => (.ok m.buffer, { m with buffer := [], tally := t })
  else if m.truncated then (.ok [], m)
  else
    match extractUsage loads m.body with
    | .error e => (.error e, m)
    | .ok found => (.ok [], { m with tally := { m.tally with usage := found } })

/-- Feed chunk after chunk, up to the first error. -/
def feedAll (loads : Loads) (m : ResponseMeter) : List Bytes → Except LoadError Bytes × ResponseMeter
  | [] => (.ok [], m)
  | chunk :: chunks =>
      match m.feed loads chunk with
      | (.error e, m') => (.error e, m')
      | (.ok out, m') =>
          match m'.feedAll loads chunks with
          | (.error e, m'') => (.error e, m'')
          | (.ok rest, m'') => (.ok (out ++ rest), m'')

/-- A whole response: the chunks, then the end of the stream. -/
def run (loads : Loads) (m : ResponseMeter) (chunks : List Bytes) :
    Except LoadError Bytes × ResponseMeter :=
  match m.feedAll loads chunks with
  | (.error e, m') => (.error e, m')
  | (.ok out, m') =>
      match m'.finish loads with
      | (.error e, m'') => (.error e, m'')
      | (.ok tail, m'') => (.ok (out ++ tail), m'')

end ResponseMeter

end Repercep.Metering
