import Mathlib
import Repercep.Driver.Model
import Repercep.Foundation.Base64
import Repercep.Foundation.DoubleText
import Repercep.Foundation.JsonCompact
import Repercep.Foundation.LineStream
import Repercep.Foundation.Tensor
import Repercep.Metering.RequestBody
set_option autoImplicit false

/-!
# The engine driver: frames on the wire

`encode_frame_line`, `decode_frame_line`, `_encode` and `_encode_marker` of
`serving/driver.py`, and the lines `body_iter` of `serving/app.py` writes.  A frame is one
line of compact JSON with its pixels in base64.  What a client reads of a response is the
frames that were encoded, whatever the cuts between the chunks of the body, and the frames
before the break if the body breaks off.
-/

namespace Repercep.Driver

open Repercep.Foundation
open Repercep.Metering (Limits)

/-! ## Encoding -/

/-- The name of `frame_index`. -/
def frameIndexKey : Units := unitsOf "frame_index"
/-- The name of `total_frames`. -/
def totalFramesKey : Units := unitsOf "total_frames"
/-- The name of `height`. -/
def heightKey : Units := unitsOf "height"
/-- The name of `width`. -/
def widthKey : Units := unitsOf "width"
/-- The name of `latency_ms`. -/
def latencyKey : Units := unitsOf "latency_ms"
/-- The name of `is_final`. -/
def isFinalKey : Units := unitsOf "is_final"
/-- The name of `pixels_b64`. -/
def pixelsKey : Units := unitsOf "pixels_b64"

/-- The arguments of `encode_frame_line`. -/
structure FrameFields where
  frameIndex : Int
  totalFrames : Int
  height : Int
  width : Int
  pixelsB64 : Units
  latencyMs : Double
  isFinal : Bool

/-- The dict that is written. -/
def FrameFields.entries (f : FrameFields) : List (Units × PyValue) :=
  [(frameIndexKey, .num (.int f.frameIndex)), (totalFramesKey, .num (.int f.totalFrames)),
    (heightKey, .num (.int f.height)), (widthKey, .num (.int f.width)),
    (latencyKey, .num (.float f.latencyMs)), (isFinalKey, .bool f.isFinal),
    (pixelsKey, .str f.pixelsB64)]

/-- The integers of the dict are not too long to be written or read. -/
def writable (limits : Limits) (v : PyValue) : Bool :=
  (v.nums.map lexemeOf).all fun x => !limits.tooLong x

/-- `encode_frame_line`; `none` where `json.dumps` raises. -/
def encodeFrameLine (limits : Limits) (f : FrameFields) : Option (List UInt8) :=
  let obj : PyValue := .obj f.entries
  if writable limits obj then some (encodeUtf8 (obj.map lexemeOf).writeCompact) else none

/-- What `decode_frame_line` raises. -/
inductive LineError where
  | unicode
  | json
  | recursion
  | intDigits
  | assertion
  deriving DecidableEq, Repr

/-- `decode_frame_line`. -/
def decodeFrameLine (limits : Limits) (line : List UInt8) :
    Except LineError (List (Units × PyValue)) :=
  match decodeUtf8 line with
  | none => .error .unicode
  | some text =>
      match parseJson text with
      | none => .error .json
      | some t =>
          if limits.readDepth < t.depth then .error .recursion
          else if t.nums.any limits.tooLong then .error .intDigits
          else
            match (t.map numberOfLexeme).resolve with
            | .obj parsed => .ok parsed
            | _ => .error .assertion

/-- A `Frame` the engine yields; its pixels are bytes. -/
structure EngineOutput where
  index : Int
  total : Int
  pixels : Tensor UInt8

/-- `is_final`, as the driver decides it. -/
def EngineOutput.isFinal (frame : EngineOutput) : Bool := decide (frame.index = frame.total - 1)

/-- What `_encode` passes on; `none` where the pixels have no height and width. -/
def fieldsOf (frame : EngineOutput) (latencyMs : Double) (isFinal : Bool) : Option FrameFields :=
  match frame.pixels.shape with
  | height :: width :: _ => some
      { frameIndex := frame.index
        totalFrames := frame.total
        height := height
        width := width
        pixelsB64 := (encodeBase64 frame.pixels.data).flatMap utf16
        latencyMs := latencyMs
        isFinal := isFinal }
  | _ => none

/-- `_encode`. -/
def encode (limits : Limits) (frame : EngineOutput) (latencyMs : Double) (isFinal : Bool) :
    Option (List UInt8) :=
  (fieldsOf frame latencyMs isFinal).bind (encodeFrameLine limits)

/-- What `_encode_marker` passes on. -/
def markerFields (frameIndex total : Int) (latencyMs : Double) : FrameFields where
  frameIndex := frameIndex
  totalFrames := total
  height := 0
  width := 0
  pixelsB64 := []
  latencyMs := latencyMs
  isFinal := true

/-- `_encode_marker`. -/
def encodeMarker (limits : Limits) (frameIndex total : Int) (latencyMs : Double) :
    Option (List UInt8) :=
  encodeFrameLine limits (markerFields frameIndex total latencyMs)

/-! ## Writing and reading the lines of a response -/

/-- The byte that ends a line. -/
def newlineByte : UInt8 := 10

/-- A byte ends a line. -/
def endsLine (b : UInt8) : Bool := b = newlineByte

/-- What `body_iter` yields for a payload. -/
def wireLine (payload : List UInt8) : List UInt8 := payload ++ [newlineByte]

/-- A client decodes each line, less its end, and keeps what it has decoded. -/
def readLine (limits : Limits) (seen : List (List (Units × PyValue))) (line : List UInt8) :
    Except LineError (List UInt8) × List (List (Units × PyValue)) :=
  match decodeFrameLine limits line.dropLast with
  | .error e => (.error e, seen)
  | .ok parsed => (.ok [], seen ++ [parsed])

/-- A client that reads a response chunk by chunk. -/
def readBody (limits : Limits) (chunks : List (List UInt8)) :
    LineStream.Pass UInt8 (List (List (Units × PyValue))) LineError :=
  LineStream.feedAll endsLine (readLine limits) [] [] chunks

/-- A frame as a client sees it. -/
structure SeenFrame where
  index : Int
  total : Int
  latencyMs : Double
  isFinal : Bool
  pixels : Tensor UInt8

/-- The picture of height `h` and width `w` with the given bytes. -/
def pictureOf (h w : Int) (bytes : List UInt8) : Option (Tensor UInt8) :=
  if hsize : bytes.length = [h.toNat, w.toNat, 3].prod then
    some ⟨[h.toNat, w.toNat, 3], bytes, hsize⟩
  else none

/-- The frame of a decoded line. -/
def seenFrame (parsed : List (Units × PyValue)) : Option SeenFrame :=
  match lastValue frameIndexKey parsed, lastValue totalFramesKey parsed,
      lastValue heightKey parsed, lastValue widthKey parsed, lastValue latencyKey parsed,
      lastValue isFinalKey parsed, lastValue pixelsKey parsed with
  | some (.num (.int index)), some (.num (.int total)), some (.num (.int h)),
      some (.num (.int w)), some (.num (.float latencyMs)), some (.bool isFinal),
      some (.str text) =>
        ((decodeBase64 (text.map fun u => Char.ofNat u.val)).bind (pictureOf h w)).map
          fun pixels => ⟨index, total, latencyMs, isFinal, pixels⟩
  | _, _, _, _, _, _, _ => none

/-! ## One line -/

/-- A float that is written in its normal form is read back, and so is an integer. -/
theorem numberOfLexeme_lexemeOf {x : PyNumber} (h : ∀ d, x = .float d → d.Regular) :
    numberOfLexeme (lexemeOf x) = x := by
  cases x with
  | int n =>
      have hinteger := Literal.isInteger_ofInt n
      simp only [lexemeOf, numberOfLexeme, numberOf, hinteger, if_true, Literal.integer_ofInt]
  | float d =>
      have hregular := h d rfl
      cases hrepr : d.repr with
      | literal l =>
          simp only [lexemeOf, hrepr, numberOfLexeme, numberOf, Double.isInteger_of_repr hrepr,
            Bool.false_eq_true, if_false, Double.ofLiteral_repr hregular hrepr]
      | infinity negative =>
          cases d with
          | finite => simp only [Double.repr] at hrepr; split at hrepr <;> cases hrepr
          | infinite => cases hrepr; rfl
          | nan => cases hrepr
      | nan =>
          cases d with
          | finite => simp only [Double.repr] at hrepr; split at hrepr <;> cases hrepr
          | infinite => cases hrepr
          | nan => rfl

theorem FrameFields.nodup_entries (f : FrameFields) : (f.entries.map Prod.fst).Nodup := by
  have hkeys : f.entries.map Prod.fst = [frameIndexKey, totalFramesKey, heightKey, widthKey,
    latencyKey, isFinalKey, pixelsKey] := rfl
  rw [hkeys]
  decide

theorem FrameFields.resolve_entries (f : FrameFields) :
    (JsonTree.obj f.entries).resolve = .obj f.entries := by
  have hvalues : (f.entries.map fun m => (m.1, m.2.resolve)) = f.entries := rfl
  rw [JsonTree.resolve, JsonTree.resolveMembers_eq, hvalues, dictOf_of_nodup f.nodup_entries]

/-- What has been encoded is decoded. -/
theorem decodeFrameLine_encodeFrameLine {limits : Limits} (hread : 0 < limits.readDepth)
    {f : FrameFields} (hlatency : f.latencyMs.Regular) {line : List UInt8}
    (h : encodeFrameLine limits f = some line) :
    decodeFrameLine limits line = .ok f.entries := by
  unfold encodeFrameLine at h
  simp only at h
  split at h
  · next hwritable =>
      cases h
      have hdepth : (JsonTree.obj f.entries).depth = 1 := rfl
      have hnums : ((JsonTree.obj f.entries).map lexemeOf).nums.any limits.tooLong = false := by
        rw [JsonTree.nums_map]
        simpa [writable] using hwritable
      have hback : ((JsonTree.obj f.entries).map lexemeOf).map numberOfLexeme =
          .obj f.entries := by
        rw [JsonTree.map_map, JsonTree.map_congr (g := id), JsonTree.map_id]
        intro x hx
        refine numberOfLexeme_lexemeOf fun d hd => ?_
        subst hd
        have hmem : PyNumber.float d ∈ [PyNumber.int f.frameIndex, .int f.totalFrames,
          .int f.height, .int f.width, .float f.latencyMs] := hx
        simp only [List.mem_cons, List.not_mem_nil, or_false, reduceCtorEq, false_or,
          PyNumber.float.injEq] at hmem
        rw [hmem]
        exact hlatency
      unfold decodeFrameLine
      rw [decodeUtf8_encodeUtf8]
      simp only [parseJson_writeCompact, JsonTree.depth_map, hdepth, hnums, hback,
        Bool.false_eq_true, if_false, if_neg (Nat.not_lt.mpr hread), f.resolve_entries]
  · cases h

/-- A line has no line end in it. -/
theorem encodeFrameLine_one_line {limits : Limits} {f : FrameFields} {line : List UInt8}
    (h : encodeFrameLine limits f = some line) : ∀ b ∈ line, endsLine b = false := by
  unfold encodeFrameLine at h
  simp only at h
  split at h
  · cases h
    intro b hb
    exact decide_eq_false (encodeUtf8_no_newline (printable_writeCompact _) b hb)
  · cases h

/-! ## Pixels -/

/-- ASCII text is read back from its code units. -/
theorem map_unit_utf16 {text : List Char} (h : Printable text) :
    ((text.flatMap utf16).map fun u => Char.ofNat u.val) = text := by
  induction text with
  | nil => rfl
  | cons c text ih =>
      obtain ⟨⟨-, hc⟩, htext⟩ := printable_cons.mp h
      have hone : utf16 c = [Fin.ofNat _ c.toNat] := if_pos (by omega)
      have hval : (Fin.ofNat 65536 c.toNat).val = c.toNat := Nat.mod_eq_of_lt (by omega)
      rw [List.flatMap_cons, List.map_append, ih htext, hone, List.map_singleton, hval,
        Char.ofNat_toNat]
      rfl

/-- A picture a client can see: a height, a width and three channels. -/
def EngineOutput.IsPicture (frame : EngineOutput) : Prop :=
  ∃ h w, frame.pixels.shape = [h, w, 3]

/-- What the driver sends: a frame of the engine, or the marker of a stream that ended early. -/
inductive Sent where
  | frame (output : EngineOutput) (latencyMs : Double) (isFinal : Bool)
  | marker (frameIndex total : Int) (latencyMs : Double)

namespace Sent

/-- The latency that is sent along. -/
def latencyMs : Sent → Double
  | .frame _ latencyMs _ => latencyMs
  | .marker _ _ latencyMs => latencyMs

/-- A frame is a picture; a marker has no pixels. -/
def IsPicture : Sent → Prop
  | .frame output _ _ => output.IsPicture
  | .marker _ _ _ => True

/-- What is passed to `encode_frame_line`. -/
def fields : Sent → Option FrameFields
  | .frame output latencyMs isFinal => fieldsOf output latencyMs isFinal
  | .marker frameIndex total latencyMs => some (markerFields frameIndex total latencyMs)

/-- The line that is sent. -/
def line (limits : Limits) : Sent → Option (List UInt8)
  | .frame output latencyMs isFinal => encode limits output latencyMs isFinal
  | .marker frameIndex total latencyMs => encodeMarker limits frameIndex total latencyMs

/-- What a client should see of it. -/
def seen : Sent → SeenFrame
  | .frame output latencyMs isFinal =>
      ⟨output.index, output.total, latencyMs, isFinal, output.pixels⟩
  | .marker frameIndex total latencyMs =>
      ⟨frameIndex, total, latencyMs, true, ⟨[0, 0, 3], [], rfl⟩⟩

theorem line_eq (limits : Limits) (x : Sent) :
    x.line limits = x.fields.bind (encodeFrameLine limits) := by
  cases x with
  | frame => rfl
  | marker => rfl

/-- The line has no line end in it. -/
theorem one_line {limits : Limits} {x : Sent} {payload : List UInt8}
    (h : x.line limits = some payload) : ∀ b ∈ payload, endsLine b = false := by
  rw [line_eq] at h
  obtain ⟨f, -, hencode⟩ := Option.bind_eq_some_iff.mp h
  exact encodeFrameLine_one_line hencode

theorem fields_latencyMs {x : Sent} (hpicture : x.IsPicture) {f : FrameFields}
    (hf : x.fields = some f) : f.latencyMs = x.latencyMs := by
  cases x with
  | frame output latencyMs isFinal =>
      obtain ⟨h, w, hshape⟩ := hpicture
      rw [fields, fieldsOf, hshape] at hf
      cases hf
      rfl
  | marker frameIndex total latencyMs =>
      cases hf
      rfl

end Sent

/-- A client sees the frame, pixel for pixel. -/
theorem seenFrame_frame {output : EngineOutput} (hpicture : output.IsPicture) {latencyMs : Double}
    {isFinal : Bool} {f : FrameFields} (hf : fieldsOf output latencyMs isFinal = some f) :
    seenFrame f.entries = some (Sent.frame output latencyMs isFinal).seen := by
  obtain ⟨h, w, hshape⟩ := hpicture
  unfold fieldsOf at hf
  rw [hshape] at hf
  cases hf
  have hbytes : decodeBase64 (((encodeBase64 output.pixels.data).flatMap utf16).map
      fun u => Char.ofNat u.val) = some output.pixels.data := by
    rw [map_unit_utf16 (printable_encodeBase64 _), decodeBase64_encodeBase64]
  have hpixels : pictureOf h w output.pixels.data = some output.pixels := by
    have hsize : output.pixels.data.length = [(h : Int).toNat, (w : Int).toNat, 3].prod := by
      rw [Int.toNat_natCast, Int.toNat_natCast, ← hshape]
      exact output.pixels.size
    rw [pictureOf, dif_pos hsize]
    exact congrArg some (Tensor.ext hshape.symm rfl)
  have hfound : seenFrame (FrameFields.entries
      { frameIndex := output.index
        totalFrames := output.total
        height := h
        width := w
        pixelsB64 := (encodeBase64 output.pixels.data).flatMap utf16
        latencyMs := latencyMs
        isFinal := isFinal }) =
      ((decodeBase64 (((encodeBase64 output.pixels.data).flatMap utf16).map
        fun u => Char.ofNat u.val)).bind (pictureOf h w)).map
          fun pixels => ⟨output.index, output.total, latencyMs, isFinal, pixels⟩ := rfl
  rw [hfound, hbytes, Option.bind_some, hpixels]
  rfl

/-- A client sees what was sent; of a marker, an empty picture. -/
theorem seenFrame_entries {x : Sent} (hpicture : x.IsPicture) {f : FrameFields}
    (hf : x.fields = some f) : seenFrame f.entries = some x.seen := by
  cases x with
  | frame output latencyMs isFinal => exact seenFrame_frame hpicture hf
  | marker frameIndex total latencyMs =>
      cases hf
      rfl

/-! ## Whole responses -/

/-- The response that carries the payloads. -/
def responseBody (payloads : List (List UInt8)) : List UInt8 := payloads.flatMap wireLine

theorem isLine_wireLine {payload : List UInt8} (h : ∀ b ∈ payload, endsLine b = false) :
    LineStream.IsLine endsLine (wireLine payload) :=
  ⟨payload, newlineByte, rfl, rfl, h⟩

/-- The lines of a response are those of its payloads. -/
theorem lines_responseBody {payloads : List (List UInt8)}
    (hlines : ∀ line ∈ payloads, ∀ b ∈ line, endsLine b = false) :
    LineStream.lines endsLine [] (responseBody payloads) = (payloads.map wireLine, []) := by
  have hall : ∀ l ∈ payloads.map wireLine, LineStream.IsLine endsLine l := by
    intro l hl
    obtain ⟨payload, hmem, rfl⟩ := List.mem_map.mp hl
    exact isLine_wireLine (hlines payload hmem)
  have hnone : ∀ b ∈ ([] : List UInt8), endsLine b = false := by simp
  have htold := LineStream.lines_flatten endsLine hnone _ hall
  rwa [List.append_nil] at htold

theorem count_responseBody {payloads : List (List UInt8)}
    (hlines : ∀ line ∈ payloads, ∀ b ∈ line, endsLine b = false) :
    (responseBody payloads).countP endsLine = payloads.length := by
  rw [← LineStream.length_lines endsLine _ [], lines_responseBody hlines, List.length_map]

theorem count_wireLine {payload : List UInt8} (hline : ∀ b ∈ payload, endsLine b = false) :
    (wireLine payload).countP endsLine = 1 := by
  rw [← List.flatMap_singleton wireLine payload]
  exact count_responseBody (List.forall_mem_singleton.mpr hline)

/-- A body that breaks off inside the second line has one line. -/
theorem count_brokenOff {first second : List UInt8} (hfirst : ∀ b ∈ first, endsLine b = false)
    (hsecond : ∀ b ∈ second, endsLine b = false) (k : Nat) :
    (wireLine first ++ second.take k).countP endsLine = 1 := by
  have hnone : (second.take k).countP endsLine = 0 := by
    refine List.countP_eq_zero.mpr fun b hb => ?_
    rw [hsecond b (List.mem_of_mem_take hb)]
    decide
  rw [List.countP_append, count_wireLine hfirst, hnone]

/-- A client has decoded the lines it has read, however the response was cut, and wherever
it broke off. -/
theorem readBody_lines {limits : Limits} {parsed : List (List (Units × PyValue))}
    {payloads : List (List UInt8)}
    (hdecode : payloads.map (decodeFrameLine limits) = parsed.map Except.ok)
    (hlines : ∀ line ∈ payloads, ∀ b ∈ line, endsLine b = false)
    {chunks : List (List UInt8)} (hchunks : chunks.flatten <+: responseBody payloads) :
    (∃ out, (readBody limits chunks).result = .ok out) ∧
      (readBody limits chunks).state = parsed.take (chunks.flatten.countP endsLine) ∧
      (chunks.flatten = responseBody payloads → (readBody limits chunks).rest = [] ∧
        chunks.flatten.countP endsLine = payloads.length) := by
  have hwhole := lines_responseBody hlines
  obtain ⟨n, hn⟩ : ∃ n, chunks.flatten.countP endsLine = n := ⟨_, rfl⟩
  -- the complete lines of what has come are the first of the payloads
  have hread : (LineStream.lines endsLine [] chunks.flatten).1 = (payloads.take n).map wireLine := by
    obtain ⟨ys, hys⟩ := hchunks
    rw [← hys, LineStream.lines_append] at hwhole
    have hfirst := congrArg (List.take n) (congrArg Prod.fst hwhole)
    have hlength := LineStream.length_lines endsLine chunks.flatten []
    rw [hn] at hlength
    rw [List.map_take, ← hfirst, ← hlength, List.take_left]
  obtain ⟨hresult, hstate, hrest⟩ := LineStream.feedAll_eq_scan endsLine (readLine limits) chunks
    [] [] (by simp)
  obtain ⟨out, seen, hscan, hseen⟩ := LineStream.scan_invariant endsLine (readLine limits)
    (A := fun l => l ∈ payloads.map wireLine)
    (P := fun done seen => (done.map fun l => decodeFrameLine limits l.dropLast) =
      seen.map Except.ok)
    (by
      intro done seen l hdone hl
      obtain ⟨payload, hmem, rfl⟩ := List.mem_map.mp hl
      have hok : decodeFrameLine limits payload ∈ parsed.map Except.ok := by
        rw [← hdecode]
        exact List.mem_map_of_mem hmem
      obtain ⟨d, -, hd⟩ := List.mem_map.mp hok
      have hline : decodeFrameLine limits (wireLine payload).dropLast = .ok d := by
        rw [wireLine, List.dropLast_concat, hd]
      refine ⟨[], seen ++ [d], by rw [readLine, hline], ?_⟩
      rw [List.map_append, List.map_append, hdone, List.map_singleton, hline, List.map_singleton])
    chunks.flatten [] [] [] rfl
    (by
      rw [hread]
      intro l hl
      exact (List.map_subset wireLine (List.take_subset n payloads)) hl)
  have hfinal : seen = parsed.take n := by
    rw [List.nil_append, hread, List.map_map] at hseen
    have hdecoded : (fun l => decodeFrameLine limits l.dropLast) ∘ wireLine =
        decodeFrameLine limits := by
      funext payload
      simp only [Function.comp_apply, wireLine, List.dropLast_concat]
    rw [hdecoded, List.map_take, hdecode, ← List.map_take] at hseen
    exact (List.map_injective_iff.mpr (fun _ _ h => Except.ok.inj h) hseen).symm
  refine ⟨⟨out, ?_⟩, ?_, fun hcomplete => ⟨?_, ?_⟩⟩
  · rw [readBody, hresult, hscan]
  · rw [readBody, hstate, hscan, hn, hfinal]
  · rw [readBody, hrest out (by rw [hscan]), hscan, hcomplete, hwhole]
  · rw [hcomplete, count_responseBody hlines]

/-- The lines of frames are decoded one by one. -/
theorem Sent.decoded {limits : Limits} (hread : 0 < limits.readDepth) {sent : List Sent} :
    ∀ {payloads : List (List UInt8)}, sent.map (Sent.line limits) = payloads.map some →
      (∀ x ∈ sent, x.latencyMs.Regular) → (∀ x ∈ sent, x.IsPicture) →
        ∃ parsed : List (List (Units × PyValue)),
          payloads.map (decodeFrameLine limits) = parsed.map Except.ok ∧
          (∀ line ∈ payloads, ∀ b ∈ line, endsLine b = false) ∧
          parsed.map seenFrame = sent.map fun x => some x.seen := by
  induction sent with
  | nil =>
      intro payloads hencoded _ _
      cases payloads with
      | nil => exact ⟨[], rfl, by simp, rfl⟩
      | cons line payloads => cases hencoded
  | cons x sent ih =>
      intro payloads hencoded hregular hpicture
      cases payloads with
      | nil => cases hencoded
      | cons line payloads =>
          obtain ⟨hline, hrest⟩ := List.cons.inj hencoded
          obtain ⟨hlatencies, hrestRegular⟩ := List.forall_mem_cons.mp hregular
          obtain ⟨hshown, hrestPicture⟩ := List.forall_mem_cons.mp hpicture
          obtain ⟨parsed, hdecode, hlines, hseen⟩ := ih hrest hrestRegular hrestPicture
          have hone := Sent.one_line hline
          rw [Sent.line_eq] at hline
          obtain ⟨f, hf, hencode⟩ := Option.bind_eq_some_iff.mp hline
          have hlatency : f.latencyMs.Regular := by
            rw [Sent.fields_latencyMs hshown hf]
            exact hlatencies
          refine ⟨f.entries :: parsed, ?_, ?_, ?_⟩
          · rw [List.map_cons, decodeFrameLine_encodeFrameLine hread hlatency hencode, hdecode,
              List.map_cons]
          · exact List.forall_mem_cons.mpr ⟨hone, hlines⟩
          · rw [List.map_cons, seenFrame_entries hshown hf, hseen, List.map_cons]

/-- What a client has seen of a response, however the body was cut into chunks and wherever
it broke off: as many frames and markers as lines have come, each as it was sent, pixel for
pixel; of the whole body, all of them. -/
theorem readBody_frames {limits : Limits} (hread : 0 < limits.readDepth) {sent : List Sent}
    {payloads : List (List UInt8)} (hencoded : sent.map (Sent.line limits) = payloads.map some)
    (hregular : ∀ x ∈ sent, x.latencyMs.Regular) (hpicture : ∀ x ∈ sent, x.IsPicture)
    {chunks : List (List UInt8)} (hchunks : chunks.flatten <+: responseBody payloads) :
    (∃ out, (readBody limits chunks).result = .ok out) ∧
      (readBody limits chunks).state.map seenFrame =
        ((sent.take (chunks.flatten.countP endsLine)).map fun x => some x.seen) ∧
      (chunks.flatten = responseBody payloads → (readBody limits chunks).rest = [] ∧
        chunks.flatten.countP endsLine = sent.length) := by
  obtain ⟨parsed, hdecode, hlines, hseen⟩ := Sent.decoded hread hencoded hregular hpicture
  obtain ⟨hok, hstate, hcomplete⟩ := readBody_lines hdecode hlines hchunks
  refine ⟨hok, ?_, fun hwhole => ⟨(hcomplete hwhole).1, ?_⟩⟩
  · rw [hstate, List.map_take, hseen, ← List.map_take]
  · rw [(hcomplete hwhole).2]
    simpa using (congrArg List.length hencoded).symm

/-- A picture of one pixel. -/
def onePixelFrame : EngineOutput := ⟨0, 1, ⟨[1, 1, 3], [1, 2, 3], rfl⟩⟩

/-- A picture of one pixel, sent as the final frame. -/
def onePixel : Sent := .frame onePixelFrame (.finite false 0 0) true

/-- Two frames of a stream of three, and the marker in place of the third. -/
def endedEarly : List Sent :=
  [.frame ⟨0, 3, ⟨[1, 1, 3], [1, 2, 3], rfl⟩⟩ (.finite false 0 0) false,
    .frame ⟨1, 3, ⟨[1, 2, 3], [4, 5, 6, 255, 0, 7], rfl⟩⟩ (.finite false 0 0) false,
    .marker 2 3 (.finite false 0 0)]

/-- A body that breaks off inside the second line, and one that is cut there and goes on. -/
theorem readBody_endedEarly : ∃ first second last : List UInt8,
    endedEarly.map (Sent.line ⟨8, 8, 8⟩) = [some first, some second, some last] ∧
      (readBody ⟨8, 8, 8⟩ [wireLine first ++ second.take 9]).state.map seenFrame =
        (endedEarly.take 1).map (fun x => some x.seen) ∧
      (readBody ⟨8, 8, 8⟩ [wireLine first ++ second.take 9,
          second.drop 9 ++ newlineByte :: wireLine last]).state.map seenFrame =
        endedEarly.map fun x => some x.seen := by
  obtain ⟨first, hfirst⟩ : ∃ line, Sent.line ⟨8, 8, 8⟩ endedEarly[0] = some line :=
    Option.isSome_iff_exists.mp (by decide +kernel)
  obtain ⟨second, hsecond⟩ : ∃ line, Sent.line ⟨8, 8, 8⟩ endedEarly[1] = some line :=
    Option.isSome_iff_exists.mp (by decide +kernel)
  obtain ⟨last, hlast⟩ : ∃ line, Sent.line ⟨8, 8, 8⟩ endedEarly[2] = some line :=
    Option.isSome_iff_exists.mp (by decide +kernel)
  have hencoded : endedEarly.map (Sent.line ⟨8, 8, 8⟩) = [first, second, last].map some := by
    rw [List.map_cons, List.map_cons, List.map_singleton, ← hfirst, ← hsecond, ← hlast]
    rfl
  have hregular : ∀ x ∈ endedEarly, x.latencyMs.Regular := by
    intro x hx
    have hzero : x.latencyMs = .finite false 0 0 := by
      simp only [endedEarly, List.mem_cons, List.not_mem_nil, or_false] at hx
      rcases hx with rfl | rfl | rfl
      all_goals rfl
    rw [hzero]
    exact Or.inl ⟨rfl, rfl⟩
  have hpicture : ∀ x ∈ endedEarly, x.IsPicture := by
    intro x hx
    simp only [endedEarly, List.mem_cons, List.not_mem_nil, or_false] at hx
    rcases hx with rfl | rfl | rfl
    · exact ⟨1, 1, rfl⟩
    · exact ⟨1, 2, rfl⟩
    · trivial
  -- the two chunks of the body
  have hsplit : responseBody [first, second, last] =
      wireLine first ++ second.take 9 ++ (second.drop 9 ++ newlineByte :: wireLine last) := by
    have hcut : second.take 9 ++ second.drop 9 = second := List.take_append_drop 9 second
    rw [List.append_assoc, ← List.append_assoc (second.take 9), hcut]
    simp [responseBody, wireLine]
  have hone : (wireLine first ++ second.take 9).countP endsLine = 1 :=
    count_brokenOff (Sent.one_line hfirst) (Sent.one_line hsecond) 9
  have hbegun : [wireLine first ++ second.take 9].flatten <+: responseBody [first, second, last] := by
    rw [hsplit, List.flatten_singleton]
    exact List.prefix_append _ _
  have hwhole : [wireLine first ++ second.take 9,
      second.drop 9 ++ newlineByte :: wireLine last].flatten = responseBody [first, second, last] := by
    rw [hsplit]
    simp
  obtain ⟨-, hbroken, -⟩ := readBody_frames (by decide) hencoded hregular hpicture hbegun
  obtain ⟨-, hseen, hlength⟩ := readBody_frames (by decide) hencoded hregular hpicture
    ⟨[], (List.append_nil _).trans hwhole⟩
  refine ⟨first, second, last, hencoded, ?_, ?_⟩
  · rw [hbroken]
    simp only [List.flatten_singleton, hone]
  · rw [hseen, (hlength hwhole).2]
    rfl

end Repercep.Driver
