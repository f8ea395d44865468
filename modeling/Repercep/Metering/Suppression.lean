import Repercep.Metering.ChunkInvariance
set_option autoImplicit false

/-!
# Metering: what suppression takes out of an event stream

Suppression decides line by line, with one flag for the blank line that follows a
dropped data line.  On a stream of complete events it takes exactly the events that
carry the injected usage chunk out exactly when such an event has no other line: any
`event:`, `id:` or comment line next to the usage line stays behind.
-/

namespace Repercep.Metering

open Repercep.Foundation

/-- A line of an event: it ends in its only newline, and it starts with a field name
or with the colon of a comment, so not with white space. -/
structure IsFieldLine (line : Bytes) : Prop where
  terminated : ∃ body, line = body ++ [10] ∧ ∀ b ∈ body, isNewline b = false
  unindented : ∃ b rest, line = b :: rest ∧ isSpace b = false

/-- That there is no newline in a line can be computed. -/
theorem no_newline_of_all {body : Bytes} (h : body.all (fun b => !isNewline b) = true) :
    ∀ b ∈ body, isNewline b = false := by
  simpa using h

/-- A complete server-sent event: one or more lines and the blank line that
dispatches it. -/
structure SseEvent where
  lines : List Bytes
  blank : Bytes
  nonempty : lines ≠ []
  fields : ∀ line ∈ lines, IsFieldLine line
  ends : blank = [10] ∨ blank = [13, 10]

namespace SseEvent

/-- The event on the wire. -/
def bytes (e : SseEvent) : Bytes := e.lines.flatten ++ e.blank

end SseEvent

/-- The JSON object of a data line, if it has one. -/
def dataObject (loads : Loads) (line : Bytes) : Option (List (String × Json)) :=
  match dataPayload line with
  | none => none
  | some payload =>
      match loads payload with
      | .ok (.dict fields) => some fields
      | _ => none

/-- A data line whose object has usage and empty choices. -/
def carriesUsage (loads : Loads) (line : Bytes) : Bool :=
  match dataObject loads line with
  | none => false
  | some fields =>
      (match get fields "usage" with
        | .dict _ => true
        | _ => false) && !(get fields "choices").truthy

/-- A data line with empty choices and a token count in its usage: what the meter
takes for the injected chunk. -/
def suppressible (loads : Loads) (line : Bytes) : Bool :=
  match dataObject loads line with
  | none => false
  | some fields => (usageFromFields fields).isSome && !(get fields "choices").truthy

/-- A data line on which `json.loads` fails with an error the meter lets through. -/
def raises (loads : Loads) (line : Bytes) : Bool :=
  match dataPayload line with
  | none => false
  | some payload =>
      match loads payload with
      | .ok _ => false
      | .error e => !e.caught

namespace SseEvent

/-- The event carries the injected usage chunk. -/
def carries (loads : Loads) (e : SseEvent) : Bool := e.lines.any (carriesUsage loads)

end SseEvent

theorem carriesUsage_of_suppressible {loads : Loads} {line : Bytes}
    (h : suppressible loads line = true) : carriesUsage loads line = true := by
  unfold suppressible at h
  unfold carriesUsage
  cases hobject : dataObject loads line with
  | none => simp [hobject] at h
  | some fields =>
      simp only [hobject, Bool.and_eq_true] at h ⊢
      refine ⟨?_, h.2⟩
      have husage := h.1
      unfold usageFromFields at husage
      cases hvalue : get fields "usage" <;> simp_all

/-! ## One line -/

/-- What inspecting a line answers. -/
theorem inspectSseLine_spec (loads : Loads) (suppress : Bool) (t : Tally) (line : Bytes) :
    (raises loads line = true ∧ ∃ e, inspectSseLine loads suppress t line = (.error e, t)) ∨
      (raises loads line = false ∧ ∃ t', t'.dropNextBlank = t.dropNextBlank ∧
        inspectSseLine loads suppress t line =
          (.ok (suppress && suppressible loads line), t')) := by
  unfold raises suppressible dataObject inspectSseLine
  cases dataPayload line with
  | none => exact Or.inr ⟨rfl, t, rfl, by simp⟩
  | some payload =>
      simp only
      cases loads payload with
      | error e =>
          cases hcaught : e.caught with
          | true => exact Or.inr ⟨by simp [hcaught], t, rfl, by simp [hcaught]⟩
          | false => exact Or.inl ⟨by simp [hcaught], e, by simp [hcaught]⟩
      | ok value =>
          cases value with
          | dict fields =>
              cases hfound : usageFromFields fields with
              | some found =>
                  exact Or.inr ⟨rfl, { t with usage := some found }, rfl, by simp [hfound]⟩
              | none =>
                  refine Or.inr ⟨rfl, if hasContentDelta fields then
                    { t with deltaChunks := t.deltaChunks + 1 } else t, ?_, by simp [hfound]⟩
                  split <;> rfl
          | none => exact Or.inr ⟨rfl, t, rfl, by simp⟩
          | bool b => exact Or.inr ⟨rfl, t, rfl, by simp⟩
          | int n => exact Or.inr ⟨rfl, t, rfl, by simp⟩
          | float bits => exact Or.inr ⟨rfl, t, rfl, by simp⟩
          | str s => exact Or.inr ⟨rfl, t, rfl, by simp⟩
          | list items => exact Or.inr ⟨rfl, t, rfl, by simp⟩

/-- The lines the meter lets through, none of which raises. -/
def keptLines (loads : Loads) (suppress : Bool) : Bool → List Bytes → List Bytes
  | _, [] => []
  | dropped, line :: lines =>
      if strip line = [] then
        if dropped then keptLines loads suppress false lines
        else line :: keptLines loads suppress false lines
      else if suppress && suppressible loads line then keptLines loads suppress true lines
      else line :: keptLines loads suppress false lines

/-- What a line adds to the output. -/
theorem outLine_spec (loads : Loads) (suppress : Bool) (t : Tally) (line : Bytes) :
    (raises loads line = true ∧ ∃ e t', outLine loads suppress t line = (.error e, t')) ∨
      (raises loads line = false ∧ ∃ out t', outLine loads suppress t line = (.ok out, t') ∧
        ∀ lines, (keptLines loads suppress t.dropNextBlank (line :: lines)).flatten
          = out ++ (keptLines loads suppress t'.dropNextBlank lines).flatten) := by
  unfold outLine forwardLine
  by_cases hblank : strip line = []
  · have hquiet : raises loads line = false := by
      unfold raises dataPayload
      rw [hblank]
      rfl
    refine .inr ⟨hquiet, ?_⟩
    rw [if_pos hblank]
    cases hdropped : t.dropNextBlank with
    | true => exact ⟨[], _, rfl, fun lines => by simp [keptLines, hblank]⟩
    | false => exact ⟨line, t, rfl, fun lines => by simp [keptLines, hblank, hdropped]⟩
  · rw [if_neg hblank]
    rcases inspectSseLine_spec loads suppress { t with dropNextBlank := false } line with
      ⟨hraises, e, heq⟩ | ⟨hquiet, t', hflag, heq⟩
    · exact .inl ⟨hraises, e, _, by rw [heq]⟩
    · refine .inr ⟨hquiet, ?_⟩
      cases hsuppress : (suppress && suppressible loads line) with
      | true =>
          rw [hsuppress] at heq
          exact ⟨[], { t' with dropNextBlank := true }, by rw [heq]; rfl,
            fun lines => by simp [keptLines, hblank, hsuppress]⟩
      | false =>
          rw [hsuppress] at heq
          exact ⟨line, t', by rw [heq]; rfl,
            fun lines => by simp [keptLines, hblank, hsuppress, hflag]⟩

/-- A line that starts with something else than white space is not blank. -/
theorem IsFieldLine.strip_ne_nil {line : Bytes} (h : IsFieldLine line) : strip line ≠ [] := by
  obtain ⟨b, rest, rfl, hb⟩ := h.unindented
  unfold strip
  rw [List.dropWhile_cons_of_neg (by simp [hb])]
  intro hnil
  have hall := List.rdropWhile_eq_nil_iff.mp hnil b (List.mem_cons_self ..)
  rw [hb] at hall
  cases hall

/-- What a field line adds to the output. -/
theorem outLine_field (loads : Loads) (t : Tally) {line : Bytes} (h : IsFieldLine line) :
    (raises loads line = true ∧ ∃ e t', outLine loads true t line = (.error e, t')) ∨
      (raises loads line = false ∧ ∃ t', t'.dropNextBlank = suppressible loads line ∧
        outLine loads true t line =
          (.ok (if suppressible loads line then [] else line), t')) := by
  unfold outLine forwardLine
  rw [if_neg h.strip_ne_nil]
  rcases inspectSseLine_spec loads true { t with dropNextBlank := false } line with
    ⟨hraises, e, heq⟩ | ⟨hraises, t', hflag, heq⟩
  · exact Or.inl ⟨hraises, e, { t with dropNextBlank := false }, by simp only [heq]⟩
  · refine Or.inr ⟨hraises, ?_⟩
    cases hsuppress : suppressible loads line with
    | true => exact ⟨{ t' with dropNextBlank := true }, rfl, by simp [heq, hsuppress]⟩
    | false => exact ⟨t', hflag, by simp [heq, hsuppress]⟩

/-- What a blank line adds to the output. -/
theorem outLine_blank (loads : Loads) (t : Tally) {line : Bytes} (h : strip line = []) :
    ∃ t', t'.dropNextBlank = false ∧
      outLine loads true t line = (.ok (if t.dropNextBlank then [] else line), t') := by
  unfold outLine forwardLine
  rw [if_pos h]
  cases hflag : t.dropNextBlank with
  | true => exact ⟨{ t with dropNextBlank := false }, rfl, by simp⟩
  | false => exact ⟨t, hflag, by simp⟩

/-! ## One event -/

namespace SseEvent

/-- What the client receives of an event. -/
def received (loads : Loads) (e : SseEvent) : Bytes :=
  (e.lines.filter (fun line => !suppressible loads line)).flatten ++
    if e.lines.getLast?.any (suppressible loads) then [] else e.blank

end SseEvent

/-- The transducer of the streaming meter with suppression on. -/
abbrev scanSse (loads : Loads) (t : Tally) (input : Bytes) :
    LineStream.Pass UInt8 Tally LoadError :=
  LineStream.scan isNewline (outLine loads true) t [] input

/-- A complete line at the front of the stream. -/
theorem scanSse_line (loads : Loads) (t : Tally) {line : Bytes}
    (hline : ∃ body, line = body ++ [10] ∧ ∀ b ∈ body, isNewline b = false) (input : Bytes) :
    scanSse loads t (line ++ input) =
      match outLine loads true t line with
      | (.error e, t') => ⟨.error e, t', input⟩
      | (.ok out, t') => (scanSse loads t' input).after out := by
  obtain ⟨body, rfl, hopen⟩ := hline
  have hnewline : isNewline 10 = true := by decide
  have hscan := LineStream.scan_line isNewline (outLine loads true) hopen hnewline t input
  rw [scanSse, hscan]
  rcases outLine loads true t (body ++ [10]) with ⟨e | out, t'⟩ <;> rfl

/-- The lines of an event, none of which raises. -/
theorem scanSse_lines (loads : Loads) (lines : List Bytes) :
    ∀ (t : Tally), (∀ line ∈ lines, IsFieldLine line) →
      (∀ line ∈ lines, raises loads line = false) →
        ∃ t', t'.dropNextBlank =
            (if lines = [] then t.dropNextBlank
              else lines.getLast?.any (suppressible loads)) ∧
          ∀ input, scanSse loads t (lines.flatten ++ input) =
            (scanSse loads t' input).after
              (lines.filter (fun line => !suppressible loads line)).flatten := by
  induction lines with
  | nil =>
      intro t _ _
      exact ⟨t, rfl, fun input => by simp⟩
  | cons line lines ih =>
      intro t hfields hquiet
      rcases outLine_field loads t (hfields line (List.mem_cons_self ..)) with
        ⟨hraises, -⟩ | ⟨-, t₁, hflag₁, hout⟩
      · rw [hquiet line (List.mem_cons_self ..)] at hraises
        cases hraises
      · obtain ⟨t₂, hflag₂, hscan⟩ := ih t₁
          (fun l hl => hfields l (List.mem_cons_of_mem _ hl))
          (fun l hl => hquiet l (List.mem_cons_of_mem _ hl))
        refine ⟨t₂, ?_, ?_⟩
        · cases lines with
          | nil => simpa [hflag₁] using hflag₂
          | cons next rest => simpa using hflag₂
        · intro input
          rw [List.flatten_cons, List.append_assoc,
            scanSse_line loads t (hfields line (List.mem_cons_self ..)).terminated, hout]
          simp only
          rw [hscan, LineStream.Pass.after_after]
          cases hsuppress : suppressible loads line <;> simp [hsuppress]

/-- The lines of an event, one of which raises. -/
theorem scanSse_lines_raises (loads : Loads) (lines : List Bytes) :
    ∀ (t : Tally), (∀ line ∈ lines, IsFieldLine line) →
      (∃ line ∈ lines, raises loads line = true) →
        ∀ input, ∃ e, (scanSse loads t (lines.flatten ++ input)).result = .error e := by
  induction lines with
  | nil =>
      rintro t _ ⟨line, hline, -⟩
      cases hline
  | cons line lines ih =>
      rintro t hfields ⟨bad, hbad, hraises⟩ input
      rw [List.flatten_cons, List.append_assoc,
        scanSse_line loads t (hfields line (List.mem_cons_self ..)).terminated]
      rcases outLine_field loads t (hfields line (List.mem_cons_self ..)) with
        ⟨-, e, t', hout⟩ | ⟨hquiet, t', -, hout⟩
      · exact ⟨e, by simp only [hout]⟩
      · have htail : bad ∈ lines := by
          rcases List.mem_cons.mp hbad with rfl | hbad
          · rw [hquiet] at hraises
            cases hraises
          · exact hbad
        obtain ⟨e, he⟩ := ih t' (fun l hl => hfields l (List.mem_cons_of_mem _ hl))
          ⟨bad, htail, hraises⟩ input
        exact ⟨e, by simp [hout, he, Except.map]⟩

/-- A complete event, none of whose lines raises. -/
theorem scanSse_event (loads : Loads) (e : SseEvent) (t : Tally)
    (hquiet : ∀ line ∈ e.lines, raises loads line = false) :
    ∃ t', ∀ input, scanSse loads t (e.bytes ++ input) =
      (scanSse loads t' input).after (e.received loads) := by
  obtain ⟨t₁, hflag, hlines⟩ := scanSse_lines loads e.lines t e.fields hquiet
  rw [if_neg e.nonempty] at hflag
  have hblank : strip e.blank = [] := by
    rcases e.ends with h | h <;> rw [h] <;> decide
  have hline : ∃ body, e.blank = body ++ [10] ∧ ∀ b ∈ body, isNewline b = false := by
    rcases e.ends with h | h
    · exact ⟨[], by rw [h]; rfl, by simp⟩
    · exact ⟨[13], by rw [h]; rfl, no_newline_of_all rfl⟩
  obtain ⟨t₂, -, hout⟩ := outLine_blank loads t₁ hblank
  refine ⟨t₂, ?_⟩
  intro input
  rw [SseEvent.bytes, List.append_assoc, hlines, scanSse_line loads t₁ hline, hout]
  simp only
  rw [LineStream.Pass.after_after, hflag]
  rfl

/-! ## Whole streams -/

/-- A stream of complete events, none of which raises. -/
theorem scanSse_events (loads : Loads) (events : List SseEvent) :
    ∀ (t : Tally), (∀ e ∈ events, ∀ line ∈ e.lines, raises loads line = false) →
      (scanSse loads t (events.flatMap SseEvent.bytes)).result =
          .ok (events.flatMap (SseEvent.received loads)) ∧
        (scanSse loads t (events.flatMap SseEvent.bytes)).rest = [] := by
  induction events with
  | nil =>
      intro t _
      exact ⟨rfl, rfl⟩
  | cons e events ih =>
      intro t hquiet
      obtain ⟨t', hevent⟩ := scanSse_event loads e t (hquiet e (List.mem_cons_self ..))
      obtain ⟨hresult, hrest⟩ := ih t' (fun e' he' => hquiet e' (List.mem_cons_of_mem _ he'))
      rw [List.flatMap_cons, hevent, List.flatMap_cons]
      exact ⟨by simp [hresult, Except.map], by simp [hrest]⟩

theorem scanSse_events_raises (loads : Loads) (events : List SseEvent) :
    ∀ (t : Tally), (∃ e ∈ events, ∃ line ∈ e.lines, raises loads line = true) →
      ∃ err, (scanSse loads t (events.flatMap SseEvent.bytes)).result = .error err := by
  induction events with
  | nil =>
      rintro t ⟨e, he, -⟩
      cases he
  | cons e events ih =>
      rintro t ⟨bad, hbad, hraises⟩
      rw [List.flatMap_cons]
      by_cases hhere : ∃ line ∈ e.lines, raises loads line = true
      · rw [SseEvent.bytes, List.append_assoc]
        exact scanSse_lines_raises loads e.lines t e.fields hhere _
      · have hquiet : ∀ line ∈ e.lines, raises loads line = false := by
          intro line hline
          cases hr : raises loads line with
          | false => rfl
          | true => exact absurd ⟨line, hline, hr⟩ hhere
        obtain ⟨t', hevent⟩ := scanSse_event loads e t hquiet
        have htail : bad ∈ events := by
          rcases List.mem_cons.mp hbad with rfl | hbad
          · exact absurd hraises hhere
          · exact hbad
        obtain ⟨err, herr⟩ := ih t' ⟨bad, htail, hraises⟩
        exact ⟨err, by simp [hevent, herr, Except.map]⟩

/-- A stream that scans without error and leaves no open line goes out as scanned,
however it is cut. -/
theorem run_of_scan_ok (loads : Loads) {chunks : List Bytes} {out : Bytes}
    (hresult : (scanSse loads (ResponseMeter.new true true).tally chunks.flatten).result =
      .ok out)
    (hrest : (scanSse loads (ResponseMeter.new true true).tally chunks.flatten).rest = []) :
    ((ResponseMeter.new true true).run loads chunks).1 = .ok out := by
  obtain ⟨hfed, -, hopen⟩ := LineStream.feedAll_eq_scan isNewline (outLine loads true)
    chunks (ResponseMeter.new true true).tally [] (by simp)
  have hfeed := ResponseMeter.feedAll_of_streaming loads chunks (ResponseMeter.new true true) rfl
  unfold ResponseMeter.run
  rw [hfeed]
  have hok := hfed.trans hresult
  have hdrained := (hopen out hresult).trans hrest
  simp only [ResponseMeter.new] at hok hdrained ⊢
  simp [hok, hdrained, ResponseMeter.finish]

theorem run_of_scan_error (loads : Loads) {chunks : List Bytes} {e : LoadError}
    (hresult : (scanSse loads (ResponseMeter.new true true).tally chunks.flatten).result =
      .error e) :
    ((ResponseMeter.new true true).run loads chunks).1 = .error e := by
  obtain ⟨hfed, -, -⟩ := LineStream.feedAll_eq_scan isNewline (outLine loads true)
    chunks (ResponseMeter.new true true).tally [] (by simp)
  have hfeed := ResponseMeter.feedAll_of_streaming loads chunks (ResponseMeter.new true true) rfl
  unfold ResponseMeter.run
  rw [hfeed]
  have herror := hfed.trans hresult
  simp only [ResponseMeter.new] at herror ⊢
  simp [herror]

/-! ## When whole events go, and nothing else -/

namespace SseEvent

/-- An event without a suppressible line goes out whole. -/
theorem received_of_none {loads : Loads} {e : SseEvent}
    (h : ∀ line ∈ e.lines, suppressible loads line = false) :
    e.received loads = e.bytes := by
  have hall : e.lines.filter (fun line => !suppressible loads line) = e.lines := by
    rw [List.filter_eq_self]
    intro line hline
    simp [h line hline]
  have hlast : e.lines.getLast?.any (suppressible loads) = false := by
    cases hline : e.lines.getLast? with
    | none => rfl
    | some line => exact h line (List.mem_of_getLast? hline)
  rw [received, hall, hlast, if_neg Bool.false_ne_true, bytes]

/-- Nothing of an event goes out exactly when all its lines are suppressible. -/
theorem received_eq_nil_iff {loads : Loads} {e : SseEvent} :
    e.received loads = [] ↔ ∀ line ∈ e.lines, suppressible loads line = true := by
  constructor
  · intro h line hline
    cases hsuppress : suppressible loads line with
    | true => rfl
    | false =>
        -- the line itself is among what goes out
        obtain ⟨b, rest, hne, -⟩ := (e.fields line hline).unindented
        have hkept : line ∈ e.lines.filter (fun line => !suppressible loads line) := by
          simp [hline, hsuppress]
        have hnil := List.flatten_eq_nil_iff.mp (List.append_eq_nil_iff.mp h).1 line hkept
        rw [hne] at hnil
        cases hnil
  · intro h
    have hnone : e.lines.filter (fun line => !suppressible loads line) = [] := by
      rw [List.filter_eq_nil_iff]
      intro line hline
      simp [h line hline]
    have hlast : e.lines.getLast?.any (suppressible loads) = true := by
      rw [List.getLast?_eq_some_getLast e.nonempty, Option.any_some]
      exact h _ (List.getLast_mem e.nonempty)
    rw [received, hnone, hlast, if_pos rfl]
    rfl

theorem received_of_not_carries {loads : Loads} {e : SseEvent}
    (h : e.carries loads = false) : e.received loads = e.bytes := by
  apply received_of_none
  intro line hline
  cases hsuppress : suppressible loads line with
  | false => rfl
  | true =>
      have hcarries : e.carries loads = true :=
        List.any_eq_true.mpr ⟨line, hline, carriesUsage_of_suppressible hsuppress⟩
      rw [h] at hcarries
      cases hcarries

end SseEvent

/-- The stream without the events that carry the injected chunk. -/
def withoutUsage (loads : Loads) (events : List SseEvent) : Bytes :=
  (events.filter (fun e => !e.carries loads)).flatMap SseEvent.bytes

theorem withoutUsage_cons (loads : Loads) (e : SseEvent) (events : List SseEvent) :
    withoutUsage loads (e :: events) =
      (if e.carries loads then [] else e.bytes) ++ withoutUsage loads events := by
  cases h : e.carries loads <;> simp [withoutUsage, h]

/-- The client never receives less than the events that carry no usage. -/
theorem length_withoutUsage_le (loads : Loads) (events : List SseEvent) :
    (withoutUsage loads events).length ≤
      (events.flatMap (SseEvent.received loads)).length := by
  induction events with
  | nil => exact Nat.le_refl _
  | cons e events ih =>
      rw [withoutUsage_cons, List.flatMap_cons, List.length_append, List.length_append]
      cases h : e.carries loads with
      | true =>
          rw [if_pos rfl, List.length_nil]
          omega
      | false => rw [SseEvent.received_of_not_carries h]; simpa using ih

/-- What goes out is the stream without the usage events exactly when nothing of
those events goes out. -/
theorem received_eq_withoutUsage_iff (loads : Loads) (events : List SseEvent) :
    events.flatMap (SseEvent.received loads) = withoutUsage loads events ↔
      ∀ e ∈ events, e.carries loads = true → e.received loads = [] := by
  induction events with
  | nil => simp [withoutUsage]
  | cons e events ih =>
      rw [withoutUsage_cons, List.flatMap_cons, List.forall_mem_cons, ← ih]
      cases h : e.carries loads with
      | false =>
          rw [SseEvent.received_of_not_carries h]
          simp
      | true =>
          simp only [if_true, List.nil_append, true_implies]
          constructor
          · intro heq
            have hlength := congrArg List.length heq
            rw [List.length_append] at hlength
            have hle := length_withoutUsage_le loads events
            have hnil : e.received loads = [] := List.eq_nil_of_length_eq_zero (by omega)
            rw [hnil, List.nil_append] at heq
            exact ⟨hnil, heq⟩
          · rintro ⟨hnil, heq⟩
            rw [hnil, heq, List.nil_append]

/-- With suppression on, the client receives exactly the events that do not carry
the injected chunk, exactly when no data line makes `json.loads` fail uncaught and
every event that carries the chunk consists of suppressible lines only.  This holds
however the stream is cut. -/
theorem suppresses_events_iff (loads : Loads) {events : List SseEvent} {chunks : List Bytes}
    (hchunks : chunks.flatten = events.flatMap SseEvent.bytes) :
    ((ResponseMeter.new true true).run loads chunks).1 = .ok (withoutUsage loads events) ↔
      (∀ e ∈ events, ∀ line ∈ e.lines, raises loads line = false) ∧
        ∀ e ∈ events, e.carries loads = true →
          ∀ line ∈ e.lines, suppressible loads line = true := by
  by_cases hquiet : ∀ e ∈ events, ∀ line ∈ e.lines, raises loads line = false
  · obtain ⟨hresult, hrest⟩ := scanSse_events loads events
      (ResponseMeter.new true true).tally hquiet
    rw [← hchunks] at hresult hrest
    rw [run_of_scan_ok loads hresult hrest, Except.ok.injEq, received_eq_withoutUsage_iff]
    constructor
    · intro h
      exact ⟨hquiet, fun e he hcarries => SseEvent.received_eq_nil_iff.mp (h e he hcarries)⟩
    · rintro ⟨-, h⟩ e he hcarries
      exact SseEvent.received_eq_nil_iff.mpr (h e he hcarries)
  · have hraises : ∃ e ∈ events, ∃ line ∈ e.lines, raises loads line = true := by
      simpa using hquiet
    obtain ⟨err, herr⟩ := scanSse_events_raises loads events
      (ResponseMeter.new true true).tally hraises
    rw [← hchunks] at herr
    rw [run_of_scan_error loads herr]
    constructor
    · intro h
      cases h
    · rintro ⟨h, -⟩
      exact absurd h hquiet

/-- The bytes of an ASCII text. -/
def ascii (text : String) : Bytes := text.toList.map (fun c => UInt8.ofNat c.toNat)

/-- The injected chunk of a small call. -/
def usageChunk : Bytes :=
  ascii "\x7b\"choices\":[],\"usage\":\x7b\"prompt_tokens\":1,\"completion_tokens\":2\x7d\x7d"

/-- A chunk with content. -/
def contentChunk : Bytes := ascii "\x7b\"choices\":[\x7b\"text\":\"hi\"\x7d]\x7d"

/-- `json.loads` on these chunks. -/
def loadsUsageChunk : Loads := fun payload =>
  if payload = usageChunk then
    .ok (.dict [("choices", .list []),
      ("usage", .dict [("prompt_tokens", .int 1), ("completion_tokens", .int 2)])])
  else if payload = contentChunk then
    .ok (.dict [("choices", .list [.dict [("text", .str "hi")]])])
  else .error .jsonDecode

/-- An event of one data line. -/
def dataEvent (payload : Bytes) (hpayload : payload.all (fun b => !isNewline b) = true) :
    SseEvent where
  lines := [ascii "data: " ++ payload ++ [10]]
  blank := [10]
  nonempty := by simp
  fields := by
    intro line hline
    cases List.mem_singleton.mp hline
    have hopen : (ascii "data: " ++ payload).all (fun b => !isNewline b) = true := by
      rw [List.all_append, hpayload]
      decide
    exact ⟨⟨ascii "data: " ++ payload, rfl, no_newline_of_all hopen⟩, 100, _, rfl, by decide⟩
  ends := Or.inl rfl

/-- The events of a small call: content, the injected chunk, and the end marker. -/
def completionEvents : List SseEvent :=
  [dataEvent contentChunk (by decide), dataEvent usageChunk (by decide),
    dataEvent sseDone (by decide)]

/-- Its stream, cut inside the injected chunk and inside the end marker. -/
def completionChunks : List Bytes :=
  let stream := completionEvents.flatMap SseEvent.bytes
  [stream.take 60, (stream.drop 60).take 60, stream.drop 120]

/-- The client receives the other two events. -/
theorem completionChunks_suppressed :
    ((ResponseMeter.new true true).run loadsUsageChunk completionChunks).1 =
        .ok (withoutUsage loadsUsageChunk completionEvents) ∧
      withoutUsage loadsUsageChunk completionEvents =
        (dataEvent contentChunk (by decide)).bytes ++ (dataEvent sseDone (by decide)).bytes := by
  refine ⟨(suppresses_events_iff loadsUsageChunk (by rfl)).mpr ?_, by decide⟩
  decide

/-- The same chunk in an event with a name. -/
def namedUsageEvent : SseEvent where
  lines := [ascii "event: usage" ++ [10], ascii "data: " ++ usageChunk ++ [10]]
  blank := [10]
  nonempty := by simp
  fields := by
    intro line hline
    rcases List.mem_cons.mp hline with rfl | hline
    · exact ⟨⟨ascii "event: usage", rfl, no_newline_of_all (by decide)⟩, 101, _, rfl, by decide⟩
    · cases List.mem_singleton.mp hline
      exact ⟨⟨ascii "data: " ++ usageChunk, rfl, no_newline_of_all (by decide)⟩, 100, _, rfl, by decide⟩
  ends := Or.inl rfl

/-- Its name stays behind as a stray field. -/
theorem namedUsageEvent_leaves_field :
    ((ResponseMeter.new true true).run loadsUsageChunk [namedUsageEvent.bytes]).1 ≠
      .ok (withoutUsage loadsUsageChunk [namedUsageEvent]) := by
  have hout : ((ResponseMeter.new true true).run loadsUsageChunk [namedUsageEvent.bytes]).1 =
      .ok (ascii "event: usage" ++ [10]) := by rfl
  have hexpected : withoutUsage loadsUsageChunk [namedUsageEvent] = [] := by rfl
  rw [hout, hexpected]
  intro h
  cases h

end Repercep.Metering
