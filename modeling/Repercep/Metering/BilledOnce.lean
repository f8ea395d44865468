import Repercep.Metering.Proxy
set_option autoImplicit false

/-!
# Metering: one record for each proxied call

When `LlmProxy._proxy_post_stream` hands its sink a record, told by the outcomes of its
awaits and by the bytes its upstream delivered.

Two things stand between a response whose generator was started and its record, both in
the `finally` block.  A response that is still open there has to be closed, and that await
may raise.  And `meter.finish()` is called there whatever happened before: it parses the
body delivered so far, or the line an interruption has left open, or what lies behind a
line on which the meter has failed.  Nothing is left to parse of a streamed response that
came to its end, since the `finish()` of the `try` block empties the buffer before it
parses it, even when it raises.

No more than one record is ever handed over.
-/

namespace Repercep.Metering

open Repercep.Foundation

/-! ## What was delivered -/

/-- The lines of a stream that have come to their end. -/
def completeLines (stream : Bytes) : List Bytes := (LineStream.lines isNewline [] stream).1

/-- What follows the last newline of a stream. -/
def openLine (stream : Bytes) : Bytes := (LineStream.lines isNewline [] stream).2

/-- What lies behind the first line the meter fails on, if there is one. -/
def behindRaising (loads : Loads) (tail : Bytes) : List Bytes → Option Bytes
  | [] => none
  | line :: lines =>
      if raises loads line then some (lines.flatten ++ tail)
      else behindRaising loads tail lines

/-- What goes out of the bytes delivered so far, before the end of the response. -/
def RequestPlan.shown (loads : Loads) (plan : RequestPlan) (bytes : Bytes) : Bytes :=
  if plan.streaming then
    (keptLines loads plan.injectedUsage false (completeLines bytes)).flatten
  else bytes

/-- The meter fails on a line of the bytes delivered so far. -/
def RequestPlan.breaksOn (loads : Loads) (plan : RequestPlan) (bytes : Bytes) : Bool :=
  plan.streaming && (completeLines bytes).any (raises loads)

/-- The await raises. -/
def fails (outcome : Await Unit) : Bool :=
  match outcome with
  | .ok _ => false
  | .error _ => true

/-- What the upstream delivered, and whether it came to its end. -/
structure Delivery where
  bytes : Bytes
  complete : Bool

/-- What the turns deliver behind `before`: chunk after chunk, up to an iteration that
raises, a line the meter fails on, or a `yield` that raises, if the chunk lets anything
go out. -/
def RequestPlan.delivery (loads : Loads) (plan : RequestPlan) (before : Bytes) :
    List Turn → Delivery
  | [] => ⟨before, true⟩
  | .raise _ :: _ => ⟨before, false⟩
  | .chunk raw resumed :: turns =>
      if plan.breaksOn loads (before ++ raw) ||
          (fails resumed && plan.shown loads before ≠ plan.shown loads (before ++ raw)) then
        ⟨before ++ raw, false⟩
      else plan.delivery loads (before ++ raw) turns

/-! ## When the record is emitted -/

/-- The await returns. -/
def Returns {α : Type} (outcome : Await α) : Prop := ∃ a, outcome = .ok a

/-- The `finish()` of the `finally` block finds nothing it fails on. -/
def Delivery.Parses (loads : Loads) (plan : RequestPlan) (ended : Await Unit) (d : Delivery) :
    Prop :=
  if plan.streaming then
    match behindRaising loads (openLine d.bytes) (completeLines d.bytes) with
    | some behind => raises loads behind = false
    | none => (d.complete = true ∧ Returns ended) ∨ raises loads (openLine d.bytes) = false
  else d.bytes.length ≤ maxAccumulateBytes → bodyRaises loads d.bytes = false

/-- The outcomes under which a record is emitted: the upstream could not be reached; or an
error response was read; or the response generator was started, its upstream came to its
end or was closed, and what was delivered leaves nothing the meter fails on. -/
def Script.Accounted (loads : Loads) (plan : RequestPlan) (script : Script) : Prop :=
  script.send = .error .requestError ∨
    (∃ status, script.send = .ok status ∧ 400 ≤ status ∧ Returns script.aread) ∨
    (∃ status, script.send = .ok status ∧ status < 400 ∧ script.started = true ∧
      ((plan.delivery loads [] script.turns).complete = true ∨ Returns script.close) ∧
      (plan.delivery loads [] script.turns).Parses loads plan script.ended)

/-! ## The last `finish()` -/

/-- What a meter still holds, the open line or the accumulated body, makes
`json.loads` fail with an error the meter lets through. -/
def ResponseMeter.heldRaises (loads : Loads) (m : ResponseMeter) : Bool :=
  if m.streaming then raises loads m.buffer else !m.truncated && bodyRaises loads m.body

/-- `finish` raises exactly on what the meter holds. -/
theorem finish_spec (loads : Loads) (m : ResponseMeter) :
    (m.heldRaises loads = true ∧ ∃ e m', m.finish loads = (.error e, m')) ∨
      (m.heldRaises loads = false ∧ ∃ out m', m.finish loads = (.ok out, m')) := by
  unfold ResponseMeter.heldRaises ResponseMeter.finish
  by_cases hstreaming : m.streaming = true
  · rw [if_pos hstreaming, if_pos hstreaming]
    by_cases hbuffer : m.buffer = []
    · have hquiet : raises loads [] = false := rfl
      rw [if_pos hbuffer, hbuffer]
      exact Or.inr ⟨hquiet, [], m, rfl⟩
    · rw [if_neg hbuffer]
      rcases inspectSseLine_spec loads m.suppress m.tally m.buffer with
        ⟨hraises, e, heq⟩ | ⟨hquiet, t, -, heq⟩
      · exact Or.inl ⟨hraises, e, _, by rw [heq]⟩
      · exact Or.inr ⟨hquiet, _, _, by rw [heq]⟩
  · rw [if_neg hstreaming, if_neg hstreaming]
    by_cases htruncated : m.truncated = true
    · rw [if_pos htruncated]
      exact Or.inr ⟨by simp [htruncated], [], m, rfl⟩
    · have hkept : m.truncated = false := by simpa using htruncated
      rw [if_neg htruncated]
      rcases extractUsage_spec loads m.body with ⟨hraises, e, heq⟩ | ⟨hquiet, found, heq⟩
      · exact Or.inl ⟨by simp [hkept, hraises], e, m, by rw [heq]⟩
      · exact Or.inr ⟨by simp [hquiet], _, _, by rw [heq]⟩

/-- Once finished, a streaming meter holds nothing, whether or not it raised. -/
theorem buffer_finish (loads : Loads) {m : ResponseMeter} (hstreaming : m.streaming = true) :
    (m.finish loads).2.streaming = true ∧ (m.finish loads).2.buffer = [] := by
  unfold ResponseMeter.finish
  rw [if_pos hstreaming]
  by_cases hbuffer : m.buffer = []
  · rw [if_pos hbuffer]
    exact ⟨hstreaming, hbuffer⟩
  · rw [if_neg hbuffer]
    rcases inspectSseLine loads m.suppress m.tally m.buffer with ⟨e | keep, t⟩
    · exact ⟨hstreaming, rfl⟩
    · exact ⟨hstreaming, rfl⟩

/-- An accumulating meter holds what it held before. -/
theorem heldRaises_finish (loads : Loads) {m : ResponseMeter} (hstreaming : m.streaming = false) :
    (m.finish loads).2.heldRaises loads = m.heldRaises loads := by
  have hkept : ¬ m.streaming = true := by rw [hstreaming]; decide
  unfold ResponseMeter.finish
  rw [if_neg hkept]
  by_cases htruncated : m.truncated = true
  · rw [if_pos htruncated]
  · rw [if_neg htruncated]
    rcases extractUsage loads m.body with e | found
    · rfl
    · rfl

/-- The `finally` block emits one record, or none. -/
theorem meteredFinally_records (loads : Loads) (path : String) (plan : RequestPlan)
    (status : Nat) (close : Await Unit) (block : TryBlock) :
    ((meteredFinally loads true path plan status close block).2.length = 1 ∧
        (block.isClosed = true ∨ Returns close) ∧ block.meter.heldRaises loads = false) ∨
      ((meteredFinally loads true path plan status close block).2 = [] ∧
        ¬ ((block.isClosed = true ∨ Returns close) ∧
          block.meter.heldRaises loads = false)) := by
  have hclosed : (∃ u, aclose block.isClosed close = .ok u ∧
        (block.isClosed = true ∨ Returns close)) ∨
      (∃ e, aclose block.isClosed close = .error e ∧
        ¬ (block.isClosed = true ∨ Returns close)) := by
    unfold aclose Returns
    cases block.isClosed with
    | true => exact .inl ⟨(), rfl, .inl rfl⟩
    | false =>
        cases close with
        | ok u => exact .inl ⟨u, rfl, .inr ⟨u, rfl⟩⟩
        | error e => exact .inr ⟨e, rfl, by simp⟩
  unfold meteredFinally
  rcases hclosed with ⟨u, hclose, hreturns⟩ | ⟨e, hclose, hraises⟩
  · rw [hclose]
    rcases finish_spec loads block.meter with
      ⟨hheld, e, m', hfinish⟩ | ⟨hquiet, out, m', hfinish⟩
    · exact .inr ⟨by simp [hfinish], by simp [hheld]⟩
    · exact .inl ⟨by simp [hfinish, emit], hreturns, hquiet⟩
  · rw [hclose]
    exact .inr ⟨rfl, fun h => hraises h.1⟩

/-! ## A streamed response -/

theorem behindRaising_eq_none {loads : Loads} (tail : Bytes) (lines : List Bytes) :
    behindRaising loads tail lines = none ↔ lines.any (raises loads) = false := by
  induction lines with
  | nil => simp [behindRaising]
  | cons line lines ih =>
      rw [behindRaising, List.any_cons]
      cases raises loads line with
      | true => simp
      | false => simpa using ih

/-- Lines the meter goes past do not matter. -/
theorem behindRaising_append {loads : Loads} {tail : Bytes} {done : List Bytes}
    (hquiet : done.any (raises loads) = false) (lines : List Bytes) :
    behindRaising loads tail (done ++ lines) = behindRaising loads tail lines := by
  induction done with
  | nil => rfl
  | cons line done ih =>
      rw [List.any_cons, Bool.or_eq_false_iff] at hquiet
      have hgo : ¬ raises loads line = true := by rw [hquiet.1]; decide
      rw [List.cons_append, behindRaising, if_neg hgo, ih hquiet.2]

/-- Lines in a row: either the meter fails on one of them and what lies behind it stays in
the buffer, or those that are kept go out, and it goes on from there. -/
theorem scan_kept (loads : Loads) (suppress : Bool) {tail : Bytes}
    (hopen : ∀ b ∈ tail, isNewline b = false) (lines : List Bytes)
    (hlines : ∀ line ∈ lines, LineStream.IsLine isNewline line) :
    ∀ t : Tally,
      (∃ behind, behindRaising loads tail lines = some behind ∧ ∃ e t',
        LineStream.scan isNewline (outLine loads suppress) t [] (lines.flatten ++ tail) =
          ⟨.error e, t', behind⟩) ∨
      (behindRaising loads tail lines = none ∧ ∃ t',
        LineStream.scan isNewline (outLine loads suppress) t [] (lines.flatten ++ tail) =
          ⟨.ok (keptLines loads suppress t.dropNextBlank lines).flatten, t', tail⟩ ∧
        ∀ more, (keptLines loads suppress t.dropNextBlank (lines ++ more)).flatten =
          (keptLines loads suppress t.dropNextBlank lines).flatten ++
            (keptLines loads suppress t'.dropNextBlank more).flatten) := by
  induction lines with
  | nil =>
      intro t
      have hscan := LineStream.scan_of_open isNewline (outLine loads suppress) hopen [] t []
      rw [List.append_nil, List.nil_append] at hscan
      exact .inr ⟨rfl, t, hscan, fun more => rfl⟩
  | cons line lines ih =>
      intro t
      obtain ⟨body, b, rfl, hb, hbody⟩ := hlines _ List.mem_cons_self
      rw [List.flatten_cons, List.append_assoc,
        LineStream.scan_line isNewline _ hbody hb, behindRaising]
      rcases outLine_spec loads suppress t (body ++ [b]) with
        ⟨hraises, e, t₁, hout⟩ | ⟨hquiet, out, t₁, hout, hkept⟩
      · exact .inl ⟨_, if_pos hraises, e, t₁, by rw [hout]⟩
      · have hgo : ¬ raises loads (body ++ [b]) = true := by rw [hquiet]; decide
        rw [if_neg hgo, hout]
        rcases ih (fun l hl => hlines l (List.mem_cons_of_mem _ hl)) t₁ with
          ⟨behind, hbehind, e, t₂, hscan⟩ | ⟨hnone, t₂, hscan, hmore⟩
        · exact .inl ⟨behind, hbehind, e, t₂, by simp [hscan, LineStream.Pass.after, Except.map]⟩
        · refine .inr ⟨hnone, t₂, ?_, fun more => ?_⟩
          · simp only [hscan, LineStream.Pass.after, Except.map, hkept]
          · rw [List.cons_append, hkept, hkept, hmore, List.append_assoc]

/-- A streaming meter that has taken in these bytes without an error. -/
structure TakenIn (loads : Loads) (plan : RequestPlan) (before : Bytes) (m : ResponseMeter) :
    Prop where
  streaming : m.streaming = true
  suppress : m.suppress = plan.injectedUsage
  buffer : m.buffer = openLine before
  quiet : (completeLines before).any (raises loads) = false
  more : ∀ lines, (keptLines loads plan.injectedUsage false (completeLines before ++ lines)).flatten =
    (keptLines loads plan.injectedUsage false (completeLines before)).flatten ++
      (keptLines loads plan.injectedUsage m.tally.dropNextBlank lines).flatten

theorem TakenIn.new (loads : Loads) (plan : RequestPlan) :
    TakenIn loads plan [] (.new true plan.injectedUsage) := ⟨rfl, rfl, rfl, rfl, fun _ => rfl⟩

/-- One chunk: the meter fails on a line that it completes, and keeps what lies behind it;
or it goes on, and something goes out exactly when more is shown than before. -/
theorem TakenIn.feed {loads : Loads} {plan : RequestPlan} {before : Bytes} {m : ResponseMeter}
    (h : TakenIn loads plan before m) (hstream : plan.streaming = true) (raw : Bytes) :
    (plan.breaksOn loads (before ++ raw) = true ∧ ∃ e m', m.feed loads raw = (.error e, m') ∧
        m'.streaming = true ∧ behindRaising loads (openLine (before ++ raw))
          (completeLines (before ++ raw)) = some m'.buffer) ∨
      (plan.breaksOn loads (before ++ raw) = false ∧ ∃ out m', m.feed loads raw = (.ok out, m') ∧
        TakenIn loads plan (before ++ raw) m' ∧
        (out = [] ↔ plan.shown loads before = plan.shown loads (before ++ raw))) := by
  -- the lines that the chunk completes, and the line it leaves open
  obtain ⟨lines, hnew⟩ : ∃ lines, (LineStream.lines isNewline (openLine before) raw).1 = lines :=
    ⟨_, rfl⟩
  obtain ⟨tail, htail⟩ : ∃ tail, (LineStream.lines isNewline (openLine before) raw).2 = tail :=
    ⟨_, rfl⟩
  have hbeforeOpen : ∀ b ∈ openLine before, isNewline b = false :=
    LineStream.open_lines isNewline before [] fun _ hb => nomatch hb
  have hopen := LineStream.open_lines isNewline raw (openLine before) hbeforeOpen
  have hlines := LineStream.isLine_of_mem_lines isNewline raw (openLine before) hbeforeOpen
  have hflatten := LineStream.flatten_lines isNewline raw (openLine before)
  have happend := LineStream.lines_append isNewline before raw []
  rw [← completeLines, ← openLine] at happend
  rw [hnew] at hlines hflatten
  rw [htail] at hopen hflatten
  have hcomplete : completeLines (before ++ raw) = completeLines before ++ lines := by
    rw [completeLines, happend, hnew]
  have hleft : openLine (before ++ raw) = tail := by rw [openLine, happend, htail]
  have hfeed : m.feed loads raw =
      let pass := LineStream.scan isNewline (outLine loads plan.injectedUsage) m.tally []
        (lines.flatten ++ tail)
      (pass.result, { m with buffer := pass.rest, tally := pass.state }) := by
    rw [ResponseMeter.feed, if_pos h.streaming, ResponseMeter.feedSse, LineStream.feed,
      h.suppress, h.buffer, hflatten]
  have hbehind : behindRaising loads tail (completeLines before ++ lines) =
      behindRaising loads tail lines := behindRaising_append h.quiet lines
  unfold RequestPlan.breaksOn RequestPlan.shown
  rw [hcomplete, hleft, hstream, if_pos rfl, if_pos rfl, Bool.true_and, hfeed, hbehind]
  rcases scan_kept loads plan.injectedUsage hopen lines hlines m.tally with
    ⟨behind, hsome, e, t', hscan⟩ | ⟨hnone, t', hscan, hmore⟩
  · refine .inl ⟨?_, e, { m with buffer := behind, tally := t' }, by rw [hscan], h.streaming,
      hsome⟩
    by_contra hcalm
    have hcalm' := (behindRaising_eq_none tail _).mpr (Bool.not_eq_true _ ▸ hcalm)
    rw [hbehind, hsome] at hcalm'
    cases hcalm'
  · have hcalm := (behindRaising_eq_none _ _).mp (hbehind.trans hnone)
    refine .inr ⟨hcalm, _, { m with buffer := tail, tally := t' }, by rw [hscan],
      ⟨h.streaming, h.suppress, hleft.symm, by rw [hcomplete]; exact hcalm, fun more => ?_⟩, ?_⟩
    · rw [hcomplete, List.append_assoc, h.more, hmore, h.more, List.append_assoc]
    · rw [h.more, List.self_eq_append_right]

theorem TakenIn.heldRaises {loads : Loads} {plan : RequestPlan} {before : Bytes}
    {m : ResponseMeter} (h : TakenIn loads plan before m) :
    m.heldRaises loads = raises loads (openLine before) := by
  rw [ResponseMeter.heldRaises, if_pos h.streaming, h.buffer]

theorem TakenIn.parses_iff {loads : Loads} {plan : RequestPlan} {before : Bytes}
    {m : ResponseMeter} (h : TakenIn loads plan before m) (hstream : plan.streaming = true)
    (ended : Await Unit) (complete : Bool) :
    Delivery.Parses loads plan ended ⟨before, complete⟩ ↔
      (complete = true ∧ Returns ended) ∨ raises loads (openLine before) = false := by
  rw [Delivery.Parses, if_pos hstream, (behindRaising_eq_none _ _).mpr h.quiet]

/-- How the `try` block leaves a streamed response. -/
theorem meteredBody_stream {loads : Loads} {plan : RequestPlan} (hstream : plan.streaming = true)
    (ended tailResumed : Await Unit) (turns : List Turn) :
    ∀ (before : Bytes) (m : ResponseMeter), TakenIn loads plan before m →
      (meteredBody loads ended tailResumed m turns).isClosed =
          (plan.delivery loads before turns).complete ∧
        ((meteredBody loads ended tailResumed m turns).meter.heldRaises loads = false ↔
          (plan.delivery loads before turns).Parses loads plan ended) := by
  induction turns with
  | nil =>
      intro before m h
      simp only [meteredBody, RequestPlan.delivery]
      rw [h.parses_iff hstream]
      cases ended with
      | error e => exact ⟨rfl, by simp [h.heldRaises, Returns]⟩
      | ok u =>
          -- the buffer is emptied before it is parsed
          have hbuffer := buffer_finish loads h.streaming
          have hquiet : (m.finish loads).2.heldRaises loads = false := by
            rw [ResponseMeter.heldRaises, if_pos hbuffer.1, hbuffer.2]
            rfl
          rcases hfinish : m.finish loads with ⟨e | _ | ⟨b, tail⟩, m'⟩
          all_goals
            rw [hfinish] at hquiet
            exact ⟨rfl, by simp [hquiet, Returns]⟩
  | cons turn turns ih =>
      intro before m h
      cases turn with
      | raise e =>
          rw [meteredBody, RequestPlan.delivery, h.parses_iff hstream]
          exact ⟨rfl, by simp [h.heldRaises]⟩
      | chunk raw resumed =>
          rw [meteredBody, RequestPlan.delivery]
          rcases h.feed hstream raw with
            ⟨hbreaks, e, m', hfeed, hstreaming, hbehind⟩ |
            ⟨hcalm, out, m', hfeed, htaken, hshown⟩
          · rw [hfeed, hbreaks, Bool.true_or, if_pos rfl]
            refine ⟨rfl, ?_⟩
            rw [Delivery.Parses, if_pos hstream, hbehind, ResponseMeter.heldRaises,
              if_pos hstreaming]
          · rw [hfeed, hcalm, Bool.false_or]
            cases out with
            | nil =>
                have hsame := hshown.mp rfl
                simpa [hsame] using ih _ m' htaken
            | cons b out =>
                have hmore : plan.shown loads before ≠ plan.shown loads (before ++ raw) :=
                  fun hsame => nomatch hshown.mpr hsame
                cases resumed with
                | ok u => simpa [fails] using ih _ m' htaken
                | error e =>
                    simp only [fails, Bool.true_and, decide_eq_true_eq, if_pos hmore]
                    rw [htaken.parses_iff hstream]
                    simp [htaken.heldRaises]

/-! ## A response that is not streamed -/

/-- What an accumulating meter fails on. -/
theorem heldRaises_accumulate (loads : Loads) (suppress : Bool) (bytes : Bytes) :
    ((ResponseMeter.new false suppress).accumulate bytes).heldRaises loads = false ↔
      (bytes.length ≤ maxAccumulateBytes → bodyRaises loads bytes = false) := by
  unfold ResponseMeter.heldRaises ResponseMeter.accumulate
  by_cases hover : maxAccumulateBytes < bytes.length
  · have hnot : ¬ bytes.length ≤ maxAccumulateBytes := by omega
    simp [ResponseMeter.new, hover, hnot]
  · have hfits : bytes.length ≤ maxAccumulateBytes := by omega
    simp [ResponseMeter.new, hover, hfits]

theorem streaming_accumulate (suppress : Bool) (bytes : Bytes) :
    ((ResponseMeter.new false suppress).accumulate bytes).streaming = false := by
  unfold ResponseMeter.accumulate
  split
  · rfl
  · split <;> rfl

/-- How the `try` block leaves another response. -/
theorem meteredBody_body {loads : Loads} {plan : RequestPlan} (hplain : plan.streaming = false)
    (ended tailResumed : Await Unit) (suppress : Bool) (turns : List Turn) :
    ∀ before : Bytes,
      let block := meteredBody loads ended tailResumed
        ((ResponseMeter.new false suppress).accumulate before) turns
      block.isClosed = (plan.delivery loads before turns).complete ∧
        (block.meter.heldRaises loads = false ↔
          (plan.delivery loads before turns).Parses loads plan ended) := by
  have hnot : ¬ plan.streaming = true := by rw [hplain]; decide
  have hparses : ∀ bytes complete,
      (((ResponseMeter.new false suppress).accumulate bytes).heldRaises loads = false ↔
        Delivery.Parses loads plan ended ⟨bytes, complete⟩) := by
    intro bytes complete
    rw [heldRaises_accumulate, Delivery.Parses, if_neg hnot]
  induction turns with
  | nil =>
      intro before
      have hheld := heldRaises_finish loads (streaming_accumulate suppress before)
      simp only [meteredBody, RequestPlan.delivery]
      rw [← hparses before true, ← hheld]
      cases ended with
      | error e => exact ⟨rfl, by rw [hheld]⟩
      | ok u =>
          rcases ((ResponseMeter.new false suppress).accumulate before).finish loads with
            ⟨e | _ | ⟨b, tail⟩, m'⟩
          all_goals exact ⟨rfl, Iff.rfl⟩
  | cons turn turns ih =>
      intro before
      cases turn with
      | raise e => exact ⟨rfl, hparses before false⟩
      | chunk raw resumed =>
          have hfeed : ((ResponseMeter.new false suppress).accumulate before).feed loads raw =
              (.ok raw, (ResponseMeter.new false suppress).accumulate (before ++ raw)) := by
            rw [ResponseMeter.feed, streaming_accumulate, if_neg Bool.false_ne_true,
              ResponseMeter.accumulate_accumulate]
          simp only [meteredBody, RequestPlan.delivery, hfeed, RequestPlan.breaksOn,
            RequestPlan.shown, hplain, Bool.false_and, Bool.false_or, if_neg Bool.false_ne_true]
          cases raw with
          | nil => simpa using ih before
          | cons b raw =>
              cases resumed with
              | ok u => simpa [fails] using ih (before ++ b :: raw)
              | error e => simpa [fails] using hparses (before ++ b :: raw) false

/-! ## One record -/

/-- How the `try` block leaves any response. -/
theorem meteredBody_delivery (loads : Loads) (plan : RequestPlan)
    (ended tailResumed : Await Unit) (turns : List Turn) :
    let block := meteredBody loads ended tailResumed
      (.new plan.streaming plan.injectedUsage) turns
    block.isClosed = (plan.delivery loads [] turns).complete ∧
      (block.meter.heldRaises loads = false ↔
        (plan.delivery loads [] turns).Parses loads plan ended) := by
  cases hstream : plan.streaming with
  | true =>
      exact meteredBody_stream hstream ended tailResumed turns [] _ (.new loads plan)
  | false =>
      exact meteredBody_body hstream ended tailResumed plan.injectedUsage turns []

/-- For every combination of outcomes of the awaits, a proxied POST hands the sink at
most one record, and exactly one exactly when its outcomes are accounted for. -/
theorem billedOnce_iff (loads : Loads) (path : String) (plan : RequestPlan)
    (script : Script) :
    (proxyPostStream loads true path plan script).records.length ≤ 1 ∧
      ((proxyPostStream loads true path plan script).records.length = 1 ↔
        script.Accounted loads plan) := by
  unfold proxyPostStream Script.Accounted
  cases hsend : script.send with
  | error e =>
      cases e with
      | requestError => simp [emit]
      | cancelled => simp
      | generatorExit => simp
      | httpException status => simp
      | meter e => simp
      | other kind => simp
  | ok status =>
      by_cases hstatus : 400 ≤ status
      · have hnot : ¬ status < 400 := by omega
        simp only [if_pos hstatus]
        cases haread : script.aread with
        | error e => simp [hnot, Returns]
        | ok detail => simp [hstatus, emit, Returns, aclose]
      · have hlt : status < 400 := by omega
        simp only [if_neg hstatus]
        cases hstarted : script.started with
        | false => simp [hstatus]
        | true =>
            obtain ⟨hclosed, hparses⟩ := meteredBody_delivery loads plan script.ended
              script.tailResumed script.turns
            rcases meteredFinally_records loads path plan status script.close
                (meteredBody loads script.ended script.tailResumed
                  (.new plan.streaming plan.injectedUsage) script.turns) with
              ⟨hone, hclose, hquiet⟩ | ⟨hnone, hnot⟩
            · rw [hclosed] at hclose
              simp [hone, hstatus, hlt, hclose, hparses.mp hquiet]
            · rw [hclosed, hparses] at hnot
              have hfails := not_and.mp hnot
              simp only [if_true, hnone]
              simpa [hstatus, hlt] using hfails

/-- A client that goes away in the middle of a stream, and the cancellation strikes again
while the `finally` block closes the upstream. -/
def cancelledInFinally : Script where
  send := .ok 200
  aread := .ok []
  started := true
  turns := [
    -- `data: {}` and the blank line
    .chunk [100, 97, 116, 97, 58, 32, 123, 125, 10, 10] (.ok ()),
    .raise .cancelled]
  ended := .ok ()
  tailResumed := .ok ()
  close := .error .cancelled

/-- There the call is not billed. -/
theorem cancelledInFinally_not_billed :
    (proxyPostStream (fun _ => .ok (.dict [])) true "/v1/completions"
      ⟨"model", true, true⟩ cancelledInFinally).records.length ≠ 1 := by
  decide

end Repercep.Metering
