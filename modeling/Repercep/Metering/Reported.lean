import Mathlib.Data.List.Induction
import Repercep.Metering.Proxy
set_option autoImplicit false

/-!
# Metering: what a response reports

The token counts of a response, read off its JSON: those of the last object that states
one, and otherwise the number of objects with content.  A proxied call whose response is
delivered to the end, and whose JSON the meter can handle, is recorded once, with these
counts, whatever the upstream sent.
-/

namespace Repercep.Metering

open Repercep.Foundation

/-- The fields of a JSON object. -/
abbrev Fields : Type := List (String × Json)

/-- The integers an object states as its token counts. -/
def statedCounts (fields : Fields) : List Int :=
  match get fields "usage" with
  | .dict usage =>
      (get usage "prompt_tokens").asInt.toList ++ (get usage "completion_tokens").asInt.toList
  | _ => []

/-- The lines of an event stream, the open one at its end included. -/
def streamLines (stream : Bytes) : List Bytes :=
  (LineStream.lines isNewline [] stream).1 ++
    match (LineStream.lines isNewline [] stream).2 with
    | [] => []
    | tail => [tail]

/-- The JSON objects of a response that the meter looks at: those of the data lines, or
the body, unless it is over the cap. -/
def responseObjects (loads : Loads) (streaming : Bool) (bytes : Bytes) : List Fields :=
  if streaming then (streamLines bytes).filterMap (dataObject loads)
  else if maxAccumulateBytes < bytes.length then []
  else
    match loads bytes with
    | .ok (.dict fields) => [fields]
    | _ => []

/-- What a response tells of its tokens. -/
structure Reported where
  /-- the counts of the last object that states any -/
  stated : List Int
  /-- the events with content that state none -/
  contentEvents : Nat
  deriving DecidableEq, Repr

namespace Reported

/-- No stated count is negative. -/
def NonNegative (r : Reported) : Prop := ∀ n ∈ r.stated, 0 ≤ n

instance (r : Reported) : Decidable r.NonNegative :=
  inferInstanceAs (Decidable (∀ n ∈ r.stated, 0 ≤ n))

/-- The tokens of the call: the stated counts, or the estimate. -/
def tokens (r : Reported) : Int := if r.stated = [] then r.contentEvents else r.stated.sum

end Reported

/-- The report of a response. -/
def reported (loads : Loads) (streaming : Bool) (bytes : Bytes) : Reported where
  stated := (((responseObjects loads streaming bytes).map statedCounts).filter
    fun counts => !counts.isEmpty).getLast?.getD []
  contentEvents :=
    if streaming then
      (responseObjects loads streaming bytes).countP fun fields =>
        (statedCounts fields).isEmpty && hasContentDelta fields
    else 0

/-- The meter can handle the response: nothing in it makes `json.loads` fail with an
error that passes through. -/
def Manageable (loads : Loads) (streaming : Bool) (bytes : Bytes) : Prop :=
  if streaming then ∀ line ∈ streamLines bytes, raises loads line = false
  else bytes.length ≤ maxAccumulateBytes → bodyRaises loads bytes = false

instance (loads : Loads) (streaming : Bool) (bytes : Bytes) :
    Decidable (Manageable loads streaming bytes) := by
  unfold Manageable
  cases streaming
  · exact inferInstanceAs (Decidable (bytes.length ≤ maxAccumulateBytes → _))
  · exact inferInstanceAs (Decidable (∀ line ∈ streamLines bytes, _))

/-! ## The counts of one object -/

/-- What `_usage_from_obj` makes of the stated counts. -/
theorem usageFromFields_spec (fields : Fields) :
    (statedCounts fields = [] ∧ usageFromFields fields = none) ∨
      (statedCounts fields ≠ [] ∧ ∃ u, usageFromFields fields = some u ∧
        u.totalTokens = (statedCounts fields).sum ∧
        ((∀ n ∈ statedCounts fields, 0 ≤ n) → 0 ≤ u.promptTokens ∧ 0 ≤ u.completionTokens)) := by
  unfold statedCounts usageFromFields
  cases get fields "usage" with
  | dict usage =>
      cases hprompt : (get usage "prompt_tokens").asInt with
      | none =>
          cases hcompletion : (get usage "completion_tokens").asInt with
          | none => exact Or.inl ⟨by simp [hprompt, hcompletion], by simp [hprompt, hcompletion]⟩
          | some c =>
              exact Or.inr ⟨by simp [hprompt, hcompletion], ⟨0, c⟩,
                by simp [hprompt, hcompletion],
                by simp [hprompt, hcompletion, TokenUsage.totalTokens],
                by simp [hprompt, hcompletion]⟩
      | some p =>
          cases hcompletion : (get usage "completion_tokens").asInt with
          | none =>
              exact Or.inr ⟨by simp [hprompt, hcompletion], ⟨p, 0⟩,
                by simp [hprompt, hcompletion],
                by simp [hprompt, hcompletion, TokenUsage.totalTokens],
                by simp [hprompt, hcompletion]⟩
          | some c =>
              exact Or.inr ⟨by simp [hprompt, hcompletion], ⟨p, c⟩,
                by simp [hprompt, hcompletion],
                by simp [hprompt, hcompletion, TokenUsage.totalTokens],
                by simp [hprompt, hcompletion]⟩
  | none => exact Or.inl ⟨rfl, rfl⟩
  | bool b => exact Or.inl ⟨rfl, rfl⟩
  | int n => exact Or.inl ⟨rfl, rfl⟩
  | float bits => exact Or.inl ⟨rfl, rfl⟩
  | str s => exact Or.inl ⟨rfl, rfl⟩
  | list items => exact Or.inl ⟨rfl, rfl⟩

/-! ## What the meter has seen -/

/-- The tally after the objects seen so far. -/
structure Tracks (objects : List Fields) (t : Tally) : Prop where
  usage : t.usage = (objects.filterMap usageFromFields).getLast?
  deltaChunks : t.deltaChunks = objects.countP fun fields =>
    (statedCounts fields).isEmpty && hasContentDelta fields

namespace Tracks

theorem new (streaming suppress : Bool) :
    Tracks [] (ResponseMeter.new streaming suppress).tally := ⟨rfl, rfl⟩

theorem blank {objects : List Fields} {t : Tally} (h : Tracks objects t) (flag : Bool) :
    Tracks objects { t with dropNextBlank := flag } := ⟨h.usage, h.deltaChunks⟩

/-- One object more. -/
theorem snoc {objects : List Fields} {t : Tally} (h : Tracks objects t) (fields : Fields) :
    Tracks (objects ++ [fields])
      (match usageFromFields fields with
        | some found => { t with usage := some found }
        | none => if hasContentDelta fields then
            { t with deltaChunks := t.deltaChunks + 1 } else t) := by
  obtain ⟨husage, hdelta⟩ := h
  rcases usageFromFields_spec fields with ⟨hnone, hfound⟩ | ⟨hsome, found, hfound, -⟩
  · simp only [hfound]
    cases hcontent : hasContentDelta fields with
    | false => exact ⟨by simp [hfound, husage], by simp [hcontent, hdelta]⟩
    | true => exact ⟨by simp [hfound, husage], by simp [hcontent, hnone, hdelta]⟩
  · simp only [hfound]
    exact ⟨by simp [hfound], by simp [hsome, hdelta]⟩

/-- A line the meter can handle. -/
theorem inspectSseLine {loads : Loads} (suppress : Bool) {objects : List Fields} {t : Tally}
    {line : Bytes} (h : Tracks objects t) (hquiet : raises loads line = false) :
    ∃ drop t', Metering.inspectSseLine loads suppress t line = (.ok drop, t') ∧
      Tracks (objects ++ (dataObject loads line).toList) t' := by
  unfold raises at hquiet
  unfold Metering.inspectSseLine dataObject
  cases hpayload : dataPayload line with
  | none => exact ⟨false, t, rfl, by simpa using h⟩
  | some payload =>
      simp only [hpayload] at hquiet ⊢
      cases hloads : loads payload with
      | error e =>
          have hcaught : e.caught = true := by simpa [hloads] using hquiet
          exact ⟨false, t, by simp [hcaught], by simpa using h⟩
      | ok value =>
          cases value with
          | dict fields =>
              have hsnoc := h.snoc fields
              cases hfound : usageFromFields fields with
              | some found =>
                  refine ⟨_, _, by simp only [hfound]; rfl, ?_⟩
                  simpa only [hfound, Option.toList_some] using hsnoc
              | none =>
                  refine ⟨_, _, by simp only [hfound]; rfl, ?_⟩
                  simpa only [hfound, Option.toList_some] using hsnoc
          | none => exact ⟨false, t, rfl, by simpa using h⟩
          | bool b => exact ⟨false, t, rfl, by simpa using h⟩
          | int n => exact ⟨false, t, rfl, by simpa using h⟩
          | float bits => exact ⟨false, t, rfl, by simpa using h⟩
          | str s => exact ⟨false, t, rfl, by simpa using h⟩
          | list items => exact ⟨false, t, rfl, by simpa using h⟩

/-- A complete line the meter can handle: what it adds to the output does not matter
here. -/
theorem outLine {loads : Loads} (suppress : Bool) {objects : List Fields} {t : Tally}
    {line : Bytes} (h : Tracks objects t) (hquiet : raises loads line = false) :
    ∃ out t', Metering.outLine loads suppress t line = (.ok out, t') ∧
      Tracks (objects ++ (dataObject loads line).toList) t' := by
  unfold Metering.outLine forwardLine
  by_cases hblank : strip line = []
  · have hpayload : dataPayload line = none := by
      rw [dataPayload, hblank]
      rfl
    rw [if_pos hblank]
    cases hdrop : t.dropNextBlank with
    | true =>
        exact ⟨[], _, rfl, by simpa [dataObject, hpayload] using h.blank false⟩
    | false =>
        exact ⟨line, t, rfl, by simpa [dataObject, hpayload] using h⟩
  · rw [if_neg hblank]
    obtain ⟨drop, t', hinspect, htracks⟩ := (h.blank false).inspectSseLine
      suppress hquiet
    cases drop with
    | true => exact ⟨[], _, by simp only [hinspect]; rfl, htracks.blank true⟩
    | false => exact ⟨line, t', by simp only [hinspect]; rfl, htracks⟩

end Tracks

/-! ## A response delivered to the end -/

/-- The meter after a manageable stream: the open line is still in its buffer. -/
theorem feedAll_stream (loads : Loads) (suppress : Bool) {chunks : List Bytes}
    (hquiet : ∀ line ∈ (LineStream.lines isNewline [] chunks.flatten).1,
      raises loads line = false) :
    ∃ out t, (ResponseMeter.new true suppress).feedAll loads chunks =
        (.ok out, { ResponseMeter.new true suppress with
          buffer := (LineStream.lines isNewline [] chunks.flatten).2, tally := t }) ∧
      Tracks ((LineStream.lines isNewline [] chunks.flatten).1.filterMap (dataObject loads)) t := by
  obtain ⟨out, t, hscan, htracks⟩ := LineStream.scan_invariant isNewline
    (outLine loads suppress) (A := fun line => raises loads line = false)
    (P := fun done t => Tracks (done.filterMap (dataObject loads)) t)
    (by
      intro done t line htracks hline
      obtain ⟨out, t', hout, htracks'⟩ := htracks.outLine suppress hline
      refine ⟨out, t', hout, ?_⟩
      rw [List.filterMap_append]
      cases hobject : dataObject loads line <;> simpa [hobject] using htracks')
    chunks.flatten (ResponseMeter.new true suppress).tally [] [] (Tracks.new true suppress) hquiet
  obtain ⟨hresult, hstate, hrest⟩ := LineStream.feedAll_eq_scan isNewline
    (outLine loads suppress) chunks (ResponseMeter.new true suppress).tally [] (by simp)
  rw [hscan] at hresult hstate hrest
  refine ⟨out, t, ?_, by simpa using htracks⟩
  rw [ResponseMeter.feedAll_of_streaming loads chunks _ rfl]
  exact Prod.ext hresult (by simp only [ResponseMeter.new] at hstate hrest ⊢; rw [hstate, hrest out rfl])

/-- What the meter has seen at the end of a manageable stream. -/
theorem run_stream {loads : Loads} (suppress : Bool) {chunks : List Bytes}
    (hquiet : ∀ line ∈ streamLines chunks.flatten, raises loads line = false) :
    ∃ out m, (ResponseMeter.new true suppress).run loads chunks = (.ok out, m) ∧
      Tracks ((streamLines chunks.flatten).filterMap (dataObject loads)) m.tally := by
  unfold streamLines at hquiet ⊢
  obtain ⟨out, t, hfeed, htracks⟩ := feedAll_stream loads suppress
    fun line hline => hquiet line (List.mem_append_left _ hline)
  rw [ResponseMeter.run, hfeed]
  cases htail : (LineStream.lines isNewline [] chunks.flatten).2 with
  | nil =>
      refine ⟨_, _, rfl, ?_⟩
      simpa using htracks
  | cons b rest =>
      have hline : raises loads (b :: rest) = false := hquiet _ (by simp [htail])
      obtain ⟨drop, t', hinspect, htracks'⟩ := htracks.inspectSseLine
        suppress hline
      have hfinish : ResponseMeter.finish loads
          { ResponseMeter.new true suppress with buffer := b :: rest, tally := t } =
          (.ok (b :: rest), { ResponseMeter.new true suppress with tally := t' }) := by
        simp [ResponseMeter.finish, ResponseMeter.new, hinspect]
      simp only [hfinish]
      refine ⟨_, _, rfl, ?_⟩
      rw [List.filterMap_append]
      cases hobject : dataObject loads (b :: rest) <;> simpa [hobject] using htracks'

/-- A body over the cap is given up. -/
theorem finish_of_over {loads : Loads} {suppress : Bool} {body : Bytes}
    (hover : maxAccumulateBytes < body.length) :
    ((ResponseMeter.new false suppress).accumulate body).finish loads =
      (.ok [], { ResponseMeter.new false suppress with truncated := true }) := by
  simp [ResponseMeter.finish, ResponseMeter.accumulate, ResponseMeter.new, hover]

/-- Another one is parsed as a whole. -/
theorem finish_of_fits {loads : Loads} {suppress : Bool} {body : Bytes}
    {found : Option TokenUsage} (hfits : ¬ maxAccumulateBytes < body.length)
    (hfound : extractUsage loads body = .ok found) :
    ((ResponseMeter.new false suppress).accumulate body).finish loads =
      (.ok [], { ResponseMeter.new false suppress with
        body := body, tally := ⟨found, 0, false⟩ }) := by
  simp [ResponseMeter.finish, ResponseMeter.accumulate, ResponseMeter.new, hfits, hfound]

/-- The meter at the end of a manageable body. -/
theorem run_body {loads : Loads} (suppress : Bool) {chunks : List Bytes}
    (hquiet : chunks.flatten.length ≤ maxAccumulateBytes →
      bodyRaises loads chunks.flatten = false) :
    ∃ out m, (ResponseMeter.new false suppress).run loads chunks = (.ok out, m) ∧
      m.tally.deltaChunks = 0 ∧ m.tally.usage =
        ((responseObjects loads false chunks.flatten).filterMap usageFromFields).getLast? := by
  rw [ResponseMeter.run, ResponseMeter.feedAll_new_of_not_streaming]
  generalize chunks.flatten = body at hquiet ⊢
  rw [responseObjects, if_neg Bool.false_ne_true]
  by_cases hover : maxAccumulateBytes < body.length
  · simp only [finish_of_over hover]
    rw [if_pos hover]
    exact ⟨_, _, rfl, rfl, rfl⟩
  · rcases extractUsage_spec loads body with ⟨hraises, -⟩ | ⟨-, found, hfound⟩
    · rw [hquiet (by omega)] at hraises
      cases hraises
    · simp only [finish_of_fits hover hfound]
      refine ⟨_, _, rfl, rfl, ?_⟩
      rw [if_neg hover]
      unfold extractUsage at hfound
      cases hloads : loads body with
      | error e =>
          cases hcaught : e.caught with
          | true => simpa [hloads, hcaught, eq_comm] using hfound
          | false => simp [hloads, hcaught] at hfound
      | ok value =>
          simp only [hloads, Except.ok.injEq] at hfound
          rw [← hfound]
          cases value with
          | dict fields =>
              cases husage : usageFromFields fields <;> simp [usageFromObj, husage]
          | none => rfl
          | bool b => rfl
          | int n => rfl
          | float bits => rfl
          | str s => rfl
          | list items => rfl

/-- What the meter has seen at the end of a manageable response. -/
theorem run_manageable {loads : Loads} {streaming : Bool} (suppress : Bool) {chunks : List Bytes}
    (hmanageable : Manageable loads streaming chunks.flatten) :
    ∃ out m, (ResponseMeter.new streaming suppress).run loads chunks = (.ok out, m) ∧
      m.tally.usage =
        ((responseObjects loads streaming chunks.flatten).filterMap usageFromFields).getLast? ∧
      m.tally.deltaChunks = (reported loads streaming chunks.flatten).contentEvents := by
  cases streaming with
  | true =>
      obtain ⟨out, m, hrun, htracks⟩ := run_stream suppress
        (show ∀ line ∈ streamLines chunks.flatten, raises loads line = false from hmanageable)
      exact ⟨out, m, hrun, htracks.usage, htracks.deltaChunks⟩
  | false =>
      obtain ⟨out, m, hrun, hdelta, husage⟩ := run_body suppress
        (show _ → bodyRaises loads chunks.flatten = false from hmanageable)
      exact ⟨out, m, hrun, husage, hdelta⟩

/-- The last usage the meter found and the last counts stated are of one object. -/
theorem last_usage (objects : List Fields) :
    ((objects.filterMap usageFromFields).getLast? = none ∧
        ((objects.map statedCounts).filter fun counts => !counts.isEmpty).getLast? = none) ∨
      ∃ fields u, usageFromFields fields = some u ∧
        (objects.filterMap usageFromFields).getLast? = some u ∧
        ((objects.map statedCounts).filter fun counts => !counts.isEmpty).getLast? =
          some (statedCounts fields) := by
  induction objects using List.reverseRecOn with
  | nil => exact Or.inl ⟨rfl, rfl⟩
  | append_singleton objects fields ih =>
      rw [List.filterMap_append, List.map_append, List.filter_append]
      rcases usageFromFields_spec fields with ⟨hnone, hfound⟩ | ⟨hsome, u, hfound, -⟩
      · simpa [hnone, hfound] using ih
      · exact Or.inr ⟨fields, u, hfound, by simp [hfound], by simp [hsome]⟩

/-- The usage of a meter that has seen these objects is what they report. -/
theorem usage_reported {loads : Loads} {streaming : Bool} {bytes : Bytes} {m : ResponseMeter}
    (husage : m.tally.usage =
      ((responseObjects loads streaming bytes).filterMap usageFromFields).getLast?)
    (hdelta : m.tally.deltaChunks = (reported loads streaming bytes).contentEvents) :
    m.usage.totalTokens = (reported loads streaming bytes).tokens ∧
      ((reported loads streaming bytes).NonNegative →
        0 ≤ m.usage.promptTokens ∧ 0 ≤ m.usage.completionTokens) := by
  unfold Reported.tokens Reported.NonNegative
  rw [← hdelta, ResponseMeter.usage, husage]
  unfold reported
  rcases last_usage (responseObjects loads streaming bytes) with
    ⟨hnone, hstated⟩ | ⟨fields, u, hfound, hlast, hstated⟩
  · simp [hnone, hstated, TokenUsage.totalTokens]
  · rcases usageFromFields_spec fields with ⟨-, hnone⟩ | ⟨hsome, u', hfound', htotal, hnonneg⟩
    · rw [hfound] at hnone
      cases hnone
    · have hsame : u = u' := Option.some.inj (hfound.symm.trans hfound')
      subst hsame
      rw [hlast, hstated]
      exact ⟨by simpa [hsome] using htotal, hnonneg⟩

/-! ## The record of a delivered response -/

/-- The script of a response that arrives to its end, at a client that takes it. -/
def Script.delivered (status : Nat) (chunks : List Bytes) : Script where
  send := .ok status
  aread := .ok chunks.flatten
  started := true
  turns := chunks.map fun raw => .chunk raw (.ok ())
  ended := .ok ()
  tailResumed := .ok ()
  close := .ok ()

theorem run_nil (loads : Loads) (m : ResponseMeter) : m.run loads [] = m.finish loads := by
  simp only [ResponseMeter.run, ResponseMeter.feedAll]
  rcases m.finish loads with ⟨e | tail, m₁⟩ <;> rfl

/-- The first chunk of a response, then the rest of it. -/
theorem run_cons (loads : Loads) (m : ResponseMeter) (chunk : Bytes) (chunks : List Bytes) :
    m.run loads (chunk :: chunks) =
      match m.feed loads chunk with
      | (.error e, m') => (.error e, m')
      | (.ok fed, m') =>
          match m'.run loads chunks with
          | (.error e, m'') => (.error e, m'')
          | (.ok rest, m'') => (.ok (fed ++ rest), m'') := by
  rw [ResponseMeter.run, ResponseMeter.feedAll]
  rcases m.feed loads chunk with ⟨e | fed, m₁⟩
  · rfl
  · simp only [ResponseMeter.run]
    rcases m₁.feedAll loads chunks with ⟨e | fed', m₂⟩
    · rfl
    · simp only
      rcases m₂.finish loads with ⟨e | tail, m₃⟩
      · rfl
      · simp only [List.append_assoc]

/-- At a client that takes everything, the `try` block does what the meter does on the
response: it raises, or it yields what goes out and leaves the meter at its end. -/
theorem meteredBody_run (loads : Loads) (chunks : List Bytes) :
    ∀ m : ResponseMeter,
      (∃ e m', m.run loads chunks = (.error e, m') ∧
        (meteredBody loads (.ok ()) (.ok ()) m
          (chunks.map fun raw => .chunk raw (.ok ()))).outcome = .error (.meter e)) ∨
      (∃ out m', m.run loads chunks = (.ok out, m') ∧
        ∃ outs, meteredBody loads (.ok ()) (.ok ()) m
          (chunks.map fun raw => .chunk raw (.ok ())) = ⟨.ok (), outs, m', true⟩ ∧
            outs.flatten = out) := by
  induction chunks with
  | nil =>
      intro m
      rw [run_nil, List.map_nil]
      simp only [meteredBody]
      rcases m.finish loads with ⟨e | tail, m₁⟩
      · exact .inl ⟨e, m₁, rfl, rfl⟩
      · cases tail with
        | nil => exact .inr ⟨_, m₁, rfl, [], rfl, rfl⟩
        | cons b tail => exact .inr ⟨_, m₁, rfl, [b :: tail], rfl, by simp⟩
  | cons chunk chunks ih =>
      intro m
      rw [run_cons, List.map_cons, meteredBody]
      rcases m.feed loads chunk with ⟨e | fed, m₁⟩
      · exact .inl ⟨e, m₁, rfl, rfl⟩
      · rcases ih m₁ with ⟨e, m', hrun, hbody⟩ | ⟨out, m', hrun, outs, hbody, hflat⟩
        · refine .inl ⟨e, m', by simp only [hrun], ?_⟩
          cases fed with
          | nil => exact hbody
          | cons b fed => exact hbody
        · refine .inr ⟨fed ++ out, m', by simp only [hrun], ?_⟩
          cases fed with
          | nil => exact ⟨outs, hbody, hflat⟩
          | cons b fed =>
              exact ⟨(b :: fed) :: outs, by simp only [hbody, TryBlock.after], by simp [hflat]⟩

/-- The reply to a response that the meter takes to its end. -/
theorem delivered_reply {loads : Loads} (path : String) {plan : RequestPlan} {status : Nat}
    {chunks : List Bytes} {out : Bytes} {m : ResponseMeter} (hstatus : status < 400)
    (hrun : (ResponseMeter.new plan.streaming plan.injectedUsage).run loads chunks =
      (.ok out, m)) :
    ∃ outs, outs.flatten = out ∧ proxyPostStream loads true path plan (.delivered status chunks) =
      ⟨.ok (), outs, [⟨path, plan.model, m.usage.promptTokens, m.usage.completionTokens, m.exact,
        status⟩]⟩ := by
  have hstatus' : ¬ 400 ≤ status := by omega
  rcases meteredBody_run loads chunks (.new plan.streaming plan.injectedUsage) with
    ⟨e, m', hrun', -⟩ | ⟨out', m', hrun', outs, hbody, hflat⟩
  · cases hrun.symm.trans hrun'
  · cases hrun.symm.trans hrun'
    have hfinish := ResponseMeter.finish_of_run loads hrun
    refine ⟨outs, hflat, ?_⟩
    simp [proxyPostStream, Script.delivered, hstatus', hbody, meteredFinally, hfinish, emit]

/-- The reply to a response on which the meter raises. -/
theorem broken_reply {loads : Loads} (path : String) {plan : RequestPlan} {status : Nat}
    {chunks : List Bytes} {e : LoadError} {m : ResponseMeter} (hstatus : status < 400)
    (hrun : (ResponseMeter.new plan.streaming plan.injectedUsage).run loads chunks =
      (.error e, m)) :
    (proxyPostStream loads true path plan (.delivered status chunks)).outcome ≠ .ok () := by
  have hstatus' : ¬ 400 ≤ status := by omega
  rcases meteredBody_run loads chunks (.new plan.streaming plan.injectedUsage) with
    ⟨e', m', -, hbody⟩ | ⟨out, m', hrun', -⟩
  · intro hok
    simp only [proxyPostStream, Script.delivered, if_neg hstatus', if_true, hbody,
      meteredFinally, aclose_ok] at hok
    generalize ResponseMeter.finish loads _ = last at hok
    rcases last with ⟨e | out, m'⟩
    · cases hok
    · cases hok
  · cases hrun.symm.trans hrun'

/-- A response the meter can handle is recorded once, with the counts it reports. -/
theorem delivered_record {loads : Loads} (path : String) {plan : RequestPlan} {status : Nat}
    {chunks : List Bytes} (hstatus : status < 400)
    (hmanageable : Manageable loads plan.streaming chunks.flatten) :
    ∃ record, (proxyPostStream loads true path plan (.delivered status chunks)).records =
        [record] ∧ record.route = path ∧ record.status = status ∧
      record.promptTokens + record.completionTokens =
        (reported loads plan.streaming chunks.flatten).tokens ∧
      ((reported loads plan.streaming chunks.flatten).NonNegative →
        0 ≤ record.promptTokens ∧ 0 ≤ record.completionTokens) := by
  obtain ⟨out, m, hrun, husage, hdelta⟩ := run_manageable
    plan.injectedUsage hmanageable
  obtain ⟨htokens, hnonneg⟩ := usage_reported husage hdelta
  obtain ⟨outs, -, hreply⟩ := delivered_reply path hstatus hrun
  rw [hreply]
  exact ⟨_, rfl, rfl, rfl, htokens, hnonneg⟩

/-- An error response is recorded without tokens. -/
theorem refused_record (loads : Loads) (path : String) (plan : RequestPlan) {status : Nat}
    (chunks : List Bytes) (hstatus : 400 ≤ status) :
    (proxyPostStream loads true path plan (.delivered status chunks)).records =
      [emptyRecord path plan status] := by
  simp [proxyPostStream, Script.delivered, hstatus, aclose, emit]

end Repercep.Metering
