import Mathlib.Data.Option.Basic
import Repercep.Foundation.PythonJson
import Repercep.Scheduling.Delivery
set_option autoImplicit false

/-!
# Scheduler: the payload across the boundary

The payload of a generation request on its way from the HTTP handler to the engine driver:
`model_dump` in `serving/app.py`, `py_to_json` and `json_to_py` in
`crates/repercep-scheduler/src/lib.rs`, `model_validate` in `serving/driver.py`.  The Python
scheduler hands the dict on as it is; the Rust one keeps a `serde_json::Value` made of the
text of it.

`serde_json` and the validation of pydantic are parameters, with what their documentation
says of them.  The strings of a request come out of JSON, so that two surrogates in a row
are one character.
-/

namespace Repercep.Scheduling

open Repercep.Foundation

/-! ## Requests -/

/-- An integer field with its bounds. -/
abbrev Bounded (low high : Int) : Type := {n : Int // low ≤ n ∧ n ≤ high}

/-- `ConditioningKind`. -/
inductive ConditioningKind where
  | none
  | image
  | video
  deriving DecidableEq

/-- The value of the enumeration. -/
def ConditioningKind.text : ConditioningKind → Units
  | .none => unitsOf "none"
  | .image => unitsOf "image"
  | .video => unitsOf "video"

/-- `ConditioningInput`. -/
structure ConditioningInput where
  kind : ConditioningKind
  uri : Option Units

/-- `GenerationParams`, with the bounds of its fields. -/
structure GenerationParams where
  numFrames : Bounded 1 256
  height : Bounded 64 2048
  width : Bounded 64 2048
  numInferenceSteps : Bounded 1 200
  guidanceScale : {x : Double // x.within 0 30 = true}
  fps : Bounded 1 120
  seed : Option Int

/-- `GenerationRequest`. -/
structure GenerationRequest where
  prompt : {s : Units // s ≠ []}
  negativePrompt : Option Units
  params : GenerationParams
  conditioning : ConditioningInput

/-- The name of the request in the payload. -/
def requestKey : Units := unitsOf "request"
/-- The name of its parameters. -/
def paramsKey : Units := unitsOf "params"
/-- The name of the one field that is a float. -/
def guidanceScaleKey : Units := unitsOf "guidance_scale"
/-- The name of the seed. -/
def seedKey : Units := unitsOf "seed"

/-- A field that may be `None`. -/
def optional {α : Type} (f : α → PyValue) : Option α → PyValue
  | none => .null
  | some a => f a

/-- An `int` as a value. -/
def intValue (n : Int) : PyValue := .num (.int n)

/-- `params.model_dump()`. -/
def GenerationParams.dump (p : GenerationParams) : PyValue :=
  .obj
    [(unitsOf "num_frames", intValue p.numFrames),
      (unitsOf "height", intValue p.height),
      (unitsOf "width", intValue p.width),
      (unitsOf "num_inference_steps", intValue p.numInferenceSteps),
      (guidanceScaleKey, .num (.float p.guidanceScale)),
      (unitsOf "fps", intValue p.fps),
      (seedKey, optional intValue p.seed)]

/-- `conditioning.model_dump()`. -/
def ConditioningInput.dump (c : ConditioningInput) : PyValue :=
  .obj [(unitsOf "kind", .str c.kind.text), (unitsOf "uri", optional .str c.uri)]

/-- `request.model_dump()`. -/
def GenerationRequest.dump (r : GenerationRequest) : PyValue :=
  .obj
    [(unitsOf "prompt", .str r.prompt),
      (unitsOf "negative_prompt", optional .str r.negativePrompt),
      (paramsKey, r.params.dump),
      (unitsOf "conditioning", r.conditioning.dump)]

/-- The payload that the handler stages. -/
def GenerationRequest.payload (r : GenerationRequest) : PyValue := .obj [(requestKey, r.dump)]

/-! ## The crossing -/

section Crossing

variable {V : Type}

/-- `py_to_json`: `json.dumps`, then `serde_json::from_str`. -/
def pyToJson (fromStr : List Char → Option V) (value : PyValue) : Option V :=
  fromStr (value.map lexemeOf).write

/-- `json_to_py`: `serde_json::to_string`, then `json.loads`. -/
def jsonToPy (toStr : V → List Char) (v : V) : Option PyValue :=
  (parseJson (toStr v)).map fun t => (t.map numberOfLexeme).resolve

/-- What `_run_one` makes of a payload. -/
def reconstruct (validate : PyValue → Option GenerationRequest) (payload : PyValue) :
    Option GenerationRequest :=
  (payload.child (.member requestKey)).bind validate

/-- A UTF-16 text without a lone surrogate. -/
def wellFormed : Units → Bool
  | [] => true
  | [u] => !(0xD800 ≤ u.val && u.val < 0xE000)
  | u :: v :: rest =>
      if 0xD800 ≤ u.val ∧ u.val < 0xDC00 ∧ 0xDC00 ≤ v.val ∧ v.val < 0xE000 then wellFormed rest
      else !(0xD800 ≤ u.val && u.val < 0xE000) && wellFormed (v :: rest)

/-- The texts of a document are Unicode. -/
def Unicode {N : Type} (t : JsonTree N) : Prop := ∀ s ∈ t.texts, wellFormed s = true

/-- An integer literal that `u64` or, with a sign, `i64` can hold. -/
def Fits (l : Literal) : Prop :=
  l.isInteger = true ∧
    if l.negative then 0 < digitsValue l.whole ∧ digitsValue l.whole ≤ 2 ^ 63
    else digitsValue l.whole < 2 ^ 64

/-- What `serde_json` makes of one place of a document: an integer that fits stays as it is,
every other number becomes an `f64`, which is printed so that it reads back. -/
inductive Crossed (float : Literal → Double) :
    JsonTree.Shape Literal → JsonTree.Shape Literal → Prop where
  | same {a : JsonTree.Shape Literal} (h : ∀ l, a ≠ .num l) : Crossed float a a
  | int {l l' : Literal} (hfits : Fits l) (hint : l'.isInteger = true)
      (hvalue : l'.integer = l.integer) : Crossed float (.num l) (.num l')
  | float {l l' : Literal} (hfits : ¬ Fits l) (hfloat : l'.isInteger = false)
      (hread : Double.ofLiteral l' = float l) : Crossed float (.num l) (.num l')

/-- `serde_json` with its default features; `float` is how it reads a number as an `f64`,
which without `float_roundtrip` need not be the nearest one. -/
structure SerdeDefaults (fromStr : List Char → Option V) (toStr : V → List Char)
    (float : Literal → Double) : Prop where
  /-- a lone surrogate is an error -/
  refuses : ∀ t text, JsonTree.IsText t text → ¬ Unicode t → fromStr text = none
  /-- a document is read, unless it is nested too deeply or a number is out of range -/
  reads : ∀ t text, JsonTree.IsText t text → Unicode t → t.depth < 128 →
    (∀ l ∈ t.nums, Fits l ∨ (float l).value?.isSome = true) → ∃ v, fromStr text = some v
  /-- what was read is printed as a document -/
  prints : ∀ t text v, JsonTree.IsText t text → fromStr text = some v →
    ∃ t', JsonTree.IsText t' (toStr v) ∧
      ∀ p, Option.Rel (Crossed float) (t.view p) (t'.view p)

/-- The validation of a `GenerationRequest`. -/
structure ValidatesRequest (validate : PyValue → Option GenerationRequest) : Prop where
  /-- what a request is dumped as validates as the request -/
  dumped : ∀ r v, Unicode r.dump → (∀ p, v.view p = r.dump.view p) → validate v = some r
  /-- a float is taken as it is -/
  guidanceScale : ∀ v r x, validate v = some r →
    v.view [.member paramsKey, .member guidanceScaleKey] = some (.num (.float x)) →
      r.params.guidanceScale.val = x
  /-- a float in the place of an integer becomes one of 64 bits, or is refused -/
  seed : ∀ v r x, validate v = some r →
    v.view [.member paramsKey, .member seedKey] = some (.num (.float x)) →
      ∃ n, r.params.seed = some n ∧ -2 ^ 63 ≤ n ∧ n < 2 ^ 63

/-- A request comes back as it was staged, whatever else the schedulers are asked. -/
def RoundTrips (fromStr : List Char → Option V) (toStr : V → List Char)
    (validate : PyValue → Option GenerationRequest) (r : GenerationRequest) : Prop :=
  (∃ v, pyToJson fromStr r.payload = some v ∧
      ∀ capacity, Returns (rust V capacity) v fun w =>
        ∃ payload, jsonToPy toStr w = some payload ∧ reconstruct validate payload = some r) ∧
    ∀ capacity hcapacity, Returns (python PyValue capacity hcapacity) r.payload fun payload =>
      reconstruct validate payload = some r

/-! ## What becomes of a number -/

theorem fits_ofInt (n : Int) : Fits (.ofInt n) ↔ -2 ^ 63 ≤ n ∧ n < 2 ^ 64 := by
  unfold Fits
  rw [and_iff_right (Literal.isInteger_ofInt n)]
  simp only [Literal.ofInt, digitsValue_digitsOf, decide_eq_true_eq]
  split <;> omega

/-- A number behind the crossing. -/
def carried (float : Literal → Double) : PyNumber → PyNumber
  | .int n => if -2 ^ 63 ≤ n ∧ n < 2 ^ 64 then .int n else .float (float (.ofInt n))
  | .float x => .float (float (literalOf (.float x)))

/-! ## Across -/

/-- A finite double has a literal. -/
theorem lexemeOf_finite {x : Double} (h : x.within 0 30 = true) :
    lexemeOf (.float x) = .literal (literalOf (.float x)) := by
  obtain ⟨l, hl⟩ : ∃ l, lexemeOf (.float x) = .literal l := by
    cases x with
    | finite negative m e =>
        unfold lexemeOf Double.repr
        dsimp only
        split
        · exact ⟨_, rfl⟩
        · exact ⟨_, rfl⟩
    | infinite negative => cases h
    | nan => cases h
  rw [hl, literalOf_eq hl]

/-- What the crossing leaves at a place reads as the number carried there. -/
theorem shape_of_crossed {float : Literal → Double} {a : JsonTree.Shape PyNumber}
    {b : JsonTree.Shape Literal} (h : Crossed float (a.map literalOf) b) :
    b.map numberOf = a.map (carried float) := by
  cases a with
  | num x =>
      cases x with
      | int n =>
          cases h with
          | same h => exact absurd rfl (h _)
          | int hfits hint hvalue =>
              have hrange := (fits_ofInt n).mp hfits
              simp only [JsonTree.Shape.map, carried, if_pos hrange, numberOf, if_pos hint, hvalue]
              exact congrArg (fun n => JsonTree.Shape.num (PyNumber.int n)) (Literal.integer_ofInt n)
          | float hfits hfloat hread =>
              have hrange := mt (fits_ofInt n).mpr hfits
              simp only [JsonTree.Shape.map, carried, if_neg hrange, numberOf, hfloat, hread]
              rfl
      | float x =>
          cases h with
          | same h => exact absurd rfl (h _)
          | int hfits hint hvalue =>
              cases (isInteger_literalOf_float x).symm.trans hfits.1
          | float hfits hfloat hread =>
              simp only [JsonTree.Shape.map, carried, numberOf, hfloat, hread]
              rfl
  | null => cases h; rfl
  | bool b => cases h; rfl
  | str s => cases h; rfl
  | arr n => cases h; rfl
  | obj => cases h; rfl

variable {fromStr : List Char → Option V} {toStr : V → List Char} {float : Literal → Double}
  {validate : PyValue → Option GenerationRequest}

/-- The document that a payload is written as. -/
def GenerationRequest.document (r : GenerationRequest) : JsonTree Literal :=
  r.payload.map literalOf

theorem nums_optional (o : Option Units) :
    (optional (JsonTree.str : Units → PyValue) o).nums = [] := by
  cases o <;> rfl

/-- The numbers of a payload. -/
theorem mem_nums_payload {r : GenerationRequest} {x : PyNumber} (h : x ∈ r.payload.nums) :
    x = .float r.params.guidanceScale ∨ (∃ n, r.params.seed = some n ∧ x = .int n) ∨
      ∃ n : Int, 0 ≤ n ∧ n ≤ 2048 ∧ x = .int n := by
  obtain ⟨prompt, negativePrompt, ⟨⟨frames, hframes⟩, ⟨height, hheight⟩, ⟨width, hwidth⟩,
    ⟨steps, hsteps⟩, guidance, ⟨fps, hfps⟩, seed⟩, kind, uri⟩ := r
  have hnums : x = .int frames ∨ x = .int height ∨ x = .int width ∨ x = .int steps ∨
      x = .float guidance ∨ x = .int fps ∨ x ∈ (optional intValue seed).nums := by
    simpa [GenerationRequest.payload, GenerationRequest.dump, GenerationParams.dump,
      ConditioningInput.dump, JsonTree.nums, JsonTree.numsMembers, intValue, nums_optional] using h
  rcases hnums with rfl | rfl | rfl | rfl | rfl | rfl | hseed
  · exact .inr (.inr ⟨frames, by omega, by omega, rfl⟩)
  · exact .inr (.inr ⟨height, by omega, by omega, rfl⟩)
  · exact .inr (.inr ⟨width, by omega, by omega, rfl⟩)
  · exact .inr (.inr ⟨steps, by omega, by omega, rfl⟩)
  · exact .inl rfl
  · exact .inr (.inr ⟨fps, by omega, by omega, rfl⟩)
  · cases seed with
    | none => cases hseed
    | some n => exact .inr (.inl ⟨n, rfl, List.mem_singleton.mp hseed⟩)

/-- A payload is written as JSON. -/
theorem isText_payload (r : GenerationRequest) :
    r.document.IsText (r.payload.map lexemeOf).write := by
  have hout : r.document.map Lexeme.literal = r.payload.map lexemeOf := by
    refine map_literalOf fun x hx => ?_
    rcases mem_nums_payload hx with rfl | ⟨n, -, rfl⟩ | ⟨n, -, -, rfl⟩
    · exact lexemeOf_finite r.params.guidanceScale.property
    · exact lexemeOf_int n
    · exact lexemeOf_int n
  rw [JsonTree.IsText, hout]
  exact spells_write_nil _

/-- What comes back of a payload that was read. -/
theorem jsonToPy_of_fromStr (hserde : SerdeDefaults fromStr toStr float) {r : GenerationRequest}
    {v : V} (hv : pyToJson fromStr r.payload = some v) :
    ∃ payload, jsonToPy toStr v = some payload ∧
      ∀ p, payload.view p = (r.payload.view p).map (.map (carried float)) := by
  obtain ⟨t', htext, hcrossed⟩ := hserde.prints _ _ v (isText_payload r) hv
  refine ⟨loaded t', ?_, ?_⟩
  · rw [jsonToPy, parseJson_of_spells htext, Option.map_some, JsonTree.map_map]
    rfl
  · intro p
    have hp := hcrossed p
    rw [GenerationRequest.document, JsonTree.view_map] at hp
    rw [view_loaded]
    cases ha : r.payload.view p with
    | none =>
        rw [ha] at hp
        generalize t'.view p = b at hp ⊢
        cases hp
        rfl
    | some a =>
        rw [ha] at hp
        generalize t'.view p = b at hp ⊢
        cases hp with
        | some h => exact congrArg some (shape_of_crossed h)

theorem child_payload (r : GenerationRequest) :
    r.payload.child (.member requestKey) = some r.dump := by
  simp [GenerationRequest.payload, JsonTree.child, lastValue]

theorem view_payload (r : GenerationRequest) (p : List JsonTree.Step) :
    r.payload.view (.member requestKey :: p) = r.dump.view p := by
  rw [JsonTree.view, child_payload, Option.bind_some]

theorem view_guidanceScale (r : GenerationRequest) :
    r.dump.view [.member paramsKey, .member guidanceScaleKey] =
      some (.num (.float r.params.guidanceScale)) := rfl

theorem view_seed (r : GenerationRequest) :
    r.dump.view [.member paramsKey, .member seedKey] =
      some (optional intValue r.params.seed).shape := rfl

theorem texts_payload (r : GenerationRequest) :
    r.payload.texts = requestKey :: r.dump.texts := by
  simp [GenerationRequest.payload, JsonTree.texts, JsonTree.textsMembers]

theorem depth_payload (r : GenerationRequest) : r.payload.depth < 128 := by
  obtain ⟨prompt, negativePrompt, ⟨frames, height, width, steps, guidance, fps, seed⟩,
    ⟨kind, uri⟩⟩ := r
  cases negativePrompt <;> cases seed <;> cases uri <;> exact of_decide_eq_true rfl

/-- The floats of a request are read back by `serde_json` as they are. -/
def GuidanceScaleKept (float : Literal → Double) (r : GenerationRequest) : Prop :=
  float (literalOf (.float r.params.guidanceScale)) = r.params.guidanceScale

/-- The seed is none, or one that `u64` or `i64` can hold. -/
def SeedFits (r : GenerationRequest) : Prop :=
  ∀ n, r.params.seed = some n → -2 ^ 63 ≤ n ∧ n < 2 ^ 64

/-- The numbers of a request whose seed fits and whose guidance scale is kept cross as they
are. -/
theorem carried_payload {r : GenerationRequest} (hseed : SeedFits r)
    (hguidance : GuidanceScaleKept float r) {x : PyNumber} (hx : x ∈ r.payload.nums) :
    carried float x = x := by
  rcases mem_nums_payload hx with rfl | ⟨n, hn, rfl⟩ | ⟨n, hlow, hhigh, rfl⟩
  · exact congrArg PyNumber.float hguidance
  · rw [carried, if_pos (hseed n hn)]
  · rw [carried, if_pos (by omega)]

/-- The payload of such a request is read by `serde_json`. -/
theorem pyToJson_payload (hserde : SerdeDefaults fromStr toStr float) {r : GenerationRequest}
    (hunicode : Unicode r.payload) (hseed : SeedFits r)
    (hguidance : GuidanceScaleKept float r) : ∃ v, pyToJson fromStr r.payload = some v := by
  refine hserde.reads _ _ (isText_payload r) ?_ ?_ ?_
  · intro s hs
    rw [GenerationRequest.document, JsonTree.texts_map] at hs
    exact hunicode s hs
  · rw [GenerationRequest.document, JsonTree.depth_map]
    exact depth_payload r
  · intro l hl
    rw [GenerationRequest.document, JsonTree.nums_map] at hl
    obtain ⟨x, hx, rfl⟩ := List.mem_map.mp hl
    rcases mem_nums_payload hx with rfl | ⟨n, hn, rfl⟩ | ⟨n, hlow, hhigh, rfl⟩
    · have hfinite := r.params.guidanceScale.property
      rw [hguidance]
      revert hfinite
      unfold Double.within
      cases r.params.guidanceScale.val.value? <;> simp
    · exact .inl ((fits_ofInt n).mpr (hseed n hn))
    · exact .inl ((fits_ofInt n).mpr ⟨by omega, by omega⟩)

/-- What a reconstructed request was reconstructed from. -/
theorem reconstruct_eq_some {payload : PyValue} {r : GenerationRequest}
    (h : reconstruct validate payload = some r) :
    ∃ u, payload.child (.member requestKey) = some u ∧ validate u = some r :=
  Option.bind_eq_some_iff.mp h

/-- What a request that comes back is like. -/
theorem fits_of_roundTrips (hserde : SerdeDefaults fromStr toStr float)
    (hvalidate : ValidatesRequest validate) {r : GenerationRequest} :
    RoundTrips fromStr toStr validate r →
      SeedFits r ∧ Unicode r.payload ∧ GuidanceScaleKept float r := by
  rintro ⟨⟨v, hv, hreturns⟩, -⟩
  obtain ⟨payload, hpayload, hback⟩ := of_returns_rust (hreturns 1)
  obtain ⟨payload', hpayload', hview⟩ := jsonToPy_of_fromStr hserde hv
  cases hpayload.symm.trans hpayload'
  obtain ⟨u, hchild, hvalid⟩ := reconstruct_eq_some hback
  have hread : ∀ p, u.view p = (r.dump.view p).map (.map (carried float)) := by
    intro p
    have hp := hview (.member requestKey :: p)
    rw [JsonTree.view, hchild, Option.bind_some, view_payload] at hp
    exact hp
  refine ⟨?_, ?_, ?_⟩
  · intro n hn
    by_contra hrange
    have hfloat : u.view [.member paramsKey, .member seedKey] =
        some (.num (.float (float (.ofInt n)))) := by
      rw [hread, view_seed, hn]
      simp only [optional, intValue, JsonTree.shape, Option.map_some, JsonTree.Shape.map, carried,
        if_neg hrange]
    obtain ⟨m, hm, hlow, hhigh⟩ := hvalidate.seed u r _ hvalid hfloat
    cases hn.symm.trans hm
    exact hrange ⟨hlow, by omega⟩
  · by_contra hnot
    have hnone := hserde.refuses _ _ (isText_payload r) fun hunicode => hnot fun s hs =>
      hunicode s (by rwa [GenerationRequest.document, JsonTree.texts_map])
    cases hv.symm.trans hnone
  · have hfloat : u.view [.member paramsKey, .member guidanceScaleKey] =
        some (.num (.float (float (literalOf (.float r.params.guidanceScale))))) := by
      rw [hread, view_guidanceScale]
      rfl
    exact (hvalidate.guidanceScale u r _ hvalid hfloat).symm

/-- Such a request comes back. -/
theorem roundTrips_of_fits (hserde : SerdeDefaults fromStr toStr float)
    (hvalidate : ValidatesRequest validate) {r : GenerationRequest} (hseed : SeedFits r)
    (hunicode : Unicode r.payload) (hguidance : GuidanceScaleKept float r) :
    RoundTrips fromStr toStr validate r := by
  have hdump : Unicode r.dump := fun s hs =>
    hunicode s (by rw [texts_payload]; exact List.mem_cons_of_mem _ hs)
  obtain ⟨v, hv⟩ := pyToJson_payload hserde hunicode hseed hguidance
  obtain ⟨payload, hpayload, hview⟩ := jsonToPy_of_fromStr hserde hv
  have hsame : ∀ p, payload.view p = r.payload.view p := by
    intro p
    rw [hview]
    cases hp : r.payload.view p with
    | none => rfl
    | some a =>
        cases a with
        | num x =>
            have hx := carried_payload hseed hguidance (JsonTree.mem_nums_of_view p hp)
            simp only [Option.map_some, JsonTree.Shape.map, hx]
        | _ => rfl
  refine ⟨⟨v, hv, fun capacity => (rust_handsOut capacity).returns ⟨payload, hpayload, ?_⟩⟩,
    fun capacity hcapacity => (python_handsOut capacity hcapacity).returns ?_⟩
  · have htop := hsame [.member requestKey]
    rw [view_payload, JsonTree.view] at htop
    obtain ⟨u, hchild, -⟩ := Option.bind_eq_some_iff.mp (htop.trans rfl)
    rw [reconstruct, hchild, Option.bind_some]
    refine hvalidate.dumped r u hdump fun p => ?_
    have hp := hsame (.member requestKey :: p)
    rw [JsonTree.view, hchild, Option.bind_some, view_payload] at hp
    exact hp
  · rw [reconstruct, child_payload, Option.bind_some]
    exact hvalidate.dumped r _ hdump fun _ => rfl

/-- A request comes back from the scheduler as it was staged exactly if its seed fits 64
bits, its strings are Unicode, and its guidance scale survives the float parser of
`serde_json`. -/
theorem roundTrips_iff (hserde : SerdeDefaults fromStr toStr float)
    (hvalidate : ValidatesRequest validate) (r : GenerationRequest) :
    RoundTrips fromStr toStr validate r ↔
      SeedFits r ∧ Unicode r.payload ∧ GuidanceScaleKept float r :=
  ⟨fits_of_roundTrips hserde hvalidate,
    fun h => roundTrips_of_fits hserde hvalidate h.1 h.2.1 h.2.2⟩

end Crossing

/-! ## A crossing -/

instance (l : Literal) : Decidable (Fits l) := inferInstanceAs (Decidable (_ ∧ _))

/-- A number that stands in a document. -/
def literalIn : Lexeme → Literal
  | .literal l => l
  | .infinity negative => .zero negative
  | .nan => .zero false

/-- Read a document; its numbers stay literals. -/
def readDocument (text : List Char) : Option (JsonTree Literal) :=
  (parseJson text).bind fun u =>
    if u.texts.all wellFormed then some (u.map literalIn) else none

/-- An integer that does not fit gets an exponent. -/
def printedLiteral (l : Literal) : Literal :=
  if l.isInteger = true ∧ ¬ Fits l then
    { l with
      exponent := some (false, [0])
      filled := by
        rintro e ⟨rfl⟩
        exact List.cons_ne_nil 0 [] }
  else l

/-- Print a document; a number that did not fit reads as one with an exponent. -/
def printDocument (t : JsonTree Literal) : List Char :=
  ((t.map printedLiteral).map Lexeme.literal).write

theorem readDocument_text {t : JsonTree Literal} {text : List Char} (h : t.IsText text) :
    readDocument text = if t.texts.all wellFormed then some t else none := by
  rw [readDocument, parseJson_of_spells h, Option.bind_some, JsonTree.texts_map,
    JsonTree.map_map]
  have hid : t.map (literalIn ∘ Lexeme.literal) = t := JsonTree.map_id t
  rw [hid]

theorem crossed_printedLiteral (l : Literal) :
    Crossed Double.ofLiteral (.num l) (.num (printedLiteral l)) := by
  unfold printedLiteral
  by_cases hfits : Fits l
  · rw [if_neg fun h => h.2 hfits]
    exact .int hfits hfits.1 rfl
  · by_cases hint : l.isInteger = true
    · rw [if_pos ⟨hint, hfits⟩]
      have hnone : l.exponent = none := (of_decide_eq_true hint).2
      refine .float hfits ?_ ?_
      · simp [Literal.isInteger]
      · simp [Double.ofLiteral, Literal.scale, Literal.coefficient, hnone, digitsValue]
    · rw [if_neg fun h => hint h.1]
      exact .float hfits (Bool.eq_false_iff.mpr hint) rfl

/-- A `serde_json` whose float parser is exact. -/
theorem serdeDefaults_document :
    SerdeDefaults readDocument printDocument Double.ofLiteral where
  refuses := by
    intro t text htext hnot
    rw [readDocument_text htext, if_neg]
    intro hall
    exact hnot (List.all_eq_true.mp hall)
  reads := by
    intro t text htext hunicode _ _
    rw [readDocument_text htext, if_pos (List.all_eq_true.mpr hunicode)]
    exact ⟨t, rfl⟩
  prints := by
    intro t text v htext hv
    rw [readDocument_text htext] at hv
    split at hv
    · cases hv
      refine ⟨t.map printedLiteral, spells_write_nil _, fun p => ?_⟩
      rw [JsonTree.view_map]
      cases t.view p with
      | none => exact .none
      | some a =>
          refine .some ?_
          cases a with
          | num l => exact crossed_printedLiteral l
          | _ => exact .same fun l h => nomatch h
    · cases hv

/-- A text or `None`. -/
def readOptionalText : JsonTree.Shape PyNumber → Option (Option Units)
  | .null => some none
  | .str s => some (some s)
  | _ => none

/-- An integer between two bounds. -/
def readBounded (low high : Int) : JsonTree.Shape PyNumber → Option (Bounded low high)
  | .num (.int n) => if h : low ≤ n ∧ n ≤ high then some ⟨n, h⟩ else none
  | _ => none

/-- An integer or `None`. -/
def readSeed : JsonTree.Shape PyNumber → Option (Option Int)
  | .null => some none
  | .num (.int n) => some (some n)
  | _ => none

/-- A float between its bounds. -/
def readGuidanceScale :
    JsonTree.Shape PyNumber → Option {x : Double // x.within 0 30 = true}
  | .num (.float x) => if h : x.within 0 30 = true then some ⟨x, h⟩ else none
  | _ => none

/-- One of the three kinds. -/
def readKind : JsonTree.Shape PyNumber → Option ConditioningKind
  | .str s =>
      if s = ConditioningKind.none.text then some .none
      else if s = ConditioningKind.image.text then some .image
      else if s = ConditioningKind.video.text then some .video
      else none
  | _ => none

/-- A text that is not empty. -/
def readPrompt : JsonTree.Shape PyNumber → Option {s : Units // s ≠ []}
  | .str s => if h : s ≠ [] then some ⟨s, h⟩ else none
  | _ => none

/-- The parameters, from what is found under their names. -/
def readParams (found : List JsonTree.Step → Option (JsonTree.Shape PyNumber)) :
    Option GenerationParams := do
  let numFrames ← (found [.member (unitsOf "num_frames")]).bind (readBounded 1 256)
  let height ← (found [.member (unitsOf "height")]).bind (readBounded 64 2048)
  let width ← (found [.member (unitsOf "width")]).bind (readBounded 64 2048)
  let steps ← (found [.member (unitsOf "num_inference_steps")]).bind (readBounded 1 200)
  let guidance ← (found [.member guidanceScaleKey]).bind readGuidanceScale
  let fps ← (found [.member (unitsOf "fps")]).bind (readBounded 1 120)
  let seed ← (found [.member seedKey]).bind readSeed
  return ⟨numFrames, height, width, steps, guidance, fps, seed⟩

/-- Read the fields of a request, every one of its own type. -/
def readRequest (v : PyValue) : Option GenerationRequest := do
  let prompt ← (v.view [.member (unitsOf "prompt")]).bind readPrompt
  let negative ← (v.view [.member (unitsOf "negative_prompt")]).bind readOptionalText
  let params ← readParams fun p => v.view (.member paramsKey :: p)
  let kind ← (v.view [.member (unitsOf "conditioning"), .member (unitsOf "kind")]).bind readKind
  let uri ← (v.view [.member (unitsOf "conditioning"), .member (unitsOf "uri")]).bind
    readOptionalText
  return ⟨prompt, negative, params, ⟨kind, uri⟩⟩

theorem readBounded_intValue {low high : Int} (n : Bounded low high) :
    readBounded low high (intValue n).shape = some n :=
  dif_pos n.property

theorem readOptionalText_optional (o : Option Units) :
    readOptionalText (optional JsonTree.str o : PyValue).shape = some o := by
  cases o <;> rfl

theorem readSeed_optional (o : Option Int) :
    readSeed (optional intValue o).shape = some o := by
  cases o <;> rfl

theorem readKind_text (kind : ConditioningKind) :
    readKind (.str kind.text) = some kind := by
  cases kind <;> exact of_decide_eq_true rfl

theorem readParams_dump (p : GenerationParams) : readParams p.dump.view = some p := by
  have hframes : p.dump.view [.member (unitsOf "num_frames")] =
      some (intValue p.numFrames).shape := rfl
  have hheight : p.dump.view [.member (unitsOf "height")] = some (intValue p.height).shape := rfl
  have hwidth : p.dump.view [.member (unitsOf "width")] = some (intValue p.width).shape := rfl
  have hsteps : p.dump.view [.member (unitsOf "num_inference_steps")] =
      some (intValue p.numInferenceSteps).shape := rfl
  have hguidance : p.dump.view [.member guidanceScaleKey] =
      some (.num (.float p.guidanceScale)) := rfl
  have hscale : readGuidanceScale (.num (.float p.guidanceScale)) = some p.guidanceScale :=
    dif_pos p.guidanceScale.property
  have hfps : p.dump.view [.member (unitsOf "fps")] = some (intValue p.fps).shape := rfl
  have hseed : p.dump.view [.member seedKey] = some (optional intValue p.seed).shape := rfl
  simp only [readParams, hframes, hheight, hwidth, hsteps, hguidance, hscale, hfps, hseed,
    Option.bind_eq_bind, Option.bind_some, readBounded_intValue, readSeed_optional, Option.pure_def]

/-- What was read of the places of the parameters. -/
theorem readParams_eq_some {found : List JsonTree.Step → Option (JsonTree.Shape PyNumber)}
    {p : GenerationParams} (h : readParams found = some p) :
    (found [.member guidanceScaleKey]).bind readGuidanceScale = some p.guidanceScale ∧
      (found [.member seedKey]).bind readSeed = some p.seed := by
  simp only [readParams, Option.bind_eq_bind, Option.bind_eq_some_iff] at h
  obtain ⟨frames, -, height, -, width, -, steps, -, guidance, hguidance, fps, -, seed, hseed,
    hp⟩ := h
  cases hp
  exact ⟨Option.bind_eq_some_iff.mpr hguidance, Option.bind_eq_some_iff.mpr hseed⟩

theorem readRequest_eq_some {v : PyValue} {r : GenerationRequest} (h : readRequest v = some r) :
    readParams (fun p => v.view (.member paramsKey :: p)) = some r.params := by
  simp only [readRequest, Option.bind_eq_bind, Option.bind_eq_some_iff] at h
  obtain ⟨prompt, -, negative, -, params, hparams, kind, -, uri, -, hr⟩ := h
  cases hr
  exact hparams

theorem validatesRequest_readRequest : ValidatesRequest readRequest where
  dumped := by
    intro r v _ hview
    have hprompt : r.dump.view [.member (unitsOf "prompt")] = some (.str r.prompt) := rfl
    have hread : readPrompt (.str r.prompt) = some r.prompt := dif_pos r.prompt.property
    have hnegative : r.dump.view [.member (unitsOf "negative_prompt")] =
        some (optional JsonTree.str r.negativePrompt).shape := rfl
    have hparams : readParams (fun p => r.dump.view (.member paramsKey :: p)) = some r.params :=
      readParams_dump r.params
    have hkind : r.dump.view [.member (unitsOf "conditioning"), .member (unitsOf "kind")] =
        some (.str r.conditioning.kind.text) := rfl
    have huri : r.dump.view [.member (unitsOf "conditioning"), .member (unitsOf "uri")] =
        some (optional JsonTree.str r.conditioning.uri).shape := rfl
    simp only [readRequest, hview, hprompt, hread, hnegative, hparams, hkind, huri,
      Option.bind_eq_bind, Option.bind_some, readOptionalText_optional, readKind_text,
      Option.pure_def]
  guidanceScale := by
    intro v r x hvalid hfloat
    have hread := (readParams_eq_some (readRequest_eq_some hvalid)).1
    rw [hfloat, Option.bind_some, readGuidanceScale] at hread
    split at hread
    · exact congrArg Subtype.val (Option.some.inj hread).symm
    · cases hread
  seed := by
    intro v r x hvalid hfloat
    have hread := (readParams_eq_some (readRequest_eq_some hvalid)).2
    rw [hfloat] at hread
    cases hread

/-- A request with the default parameters and a seed. -/
def seeded (n : Int) : GenerationRequest where
  prompt := ⟨unitsOf "a cat", List.cons_ne_nil _ _⟩
  negativePrompt := none
  params := {
    numFrames := ⟨121, by decide⟩
    height := ⟨704, by decide⟩
    width := ⟨1280, by decide⟩
    numInferenceSteps := ⟨35, by decide⟩
    guidanceScale := ⟨.finite false (7 * 2 ^ 50) (-50), by decide +kernel⟩
    fps := ⟨24, by decide⟩
    seed := some n }
  conditioning := ⟨.none, none⟩

/-- A small seed comes back. -/
theorem roundTrips_seeded : RoundTrips readDocument printDocument readRequest (seeded 7) := by
  have hseed : SeedFits (seeded 7) := by
    intro n hn
    cases hn
    decide
  have hunicode : Unicode (seeded 7).payload := List.all_eq_true.mp (of_decide_eq_true rfl)
  have hguidance : GuidanceScaleKept Double.ofLiteral (seeded 7) := by
    unfold GuidanceScaleKept
    decide +kernel
  exact (roundTrips_iff serdeDefaults_document validatesRequest_readRequest _).mpr
    ⟨hseed, hunicode, hguidance⟩

/-- A seed beyond 64 bits does not. -/
theorem wideSeed_lost :
    ¬ RoundTrips readDocument printDocument readRequest (seeded (2 ^ 64)) := by
  intro hback
  have hfits := (fits_of_roundTrips serdeDefaults_document validatesRequest_readRequest hback).1
  exact absurd (hfits (2 ^ 64) rfl).2 (by decide)

end Repercep.Scheduling
