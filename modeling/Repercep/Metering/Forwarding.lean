import Repercep.Metering.Reported
set_option autoImplicit false

/-!
# Metering: what reaches the client

The meter decides line by line what to forward.  A line may be dropped only when it is
the usage chunk the proxy asked for, or the blank line behind one; everything else has to
go out once, in order and unmodified.  The two ways in which the meter fails this: an
error of `json.loads` that it does not catch, and a `choices` that is false for Python
without being empty.
-/

namespace Repercep.Metering

open Repercep.Foundation

/-! ## The law -/

/-- The value is missing or has nothing in it. -/
def Json.emptyOrMissing : Json → Bool
  | .none => true
  | .str s => s = ""
  | .list items => items.isEmpty
  | .dict fields => fields.isEmpty
  | .bool _ | .int _ | .float _ => false

/-- A data line whose object has usage and empty or missing choices: what may be
dropped. -/
def droppable (loads : Loads) (line : Bytes) : Bool :=
  match dataObject loads line with
  | none => false
  | some fields =>
      (match get fields "usage" with
        | .dict _ => true
        | _ => false) && (get fields "choices").emptyOrMissing

/-- What may go out of the lines of a stream; the flag says that the line before was
dropped. -/
inductive Forwards (loads : Loads) : Bool → List Bytes → List Bytes → Prop where
  | nil (dropped : Bool) : Forwards loads dropped [] []
  | keep (dropped : Bool) (line : Bytes) {lines kept : List Bytes}
      (hrest : Forwards loads false lines kept) :
      Forwards loads dropped (line :: lines) (line :: kept)
  | drop (dropped : Bool) {line : Bytes} {lines kept : List Bytes}
      (hdroppable : droppable loads line = true) (hrest : Forwards loads true lines kept) :
      Forwards loads dropped (line :: lines) kept
  | dropBlank {line : Bytes} {lines kept : List Bytes} (hblank : strip line = [])
      (hrest : Forwards loads false lines kept) : Forwards loads true (line :: lines) kept

/-- The response went out to its end, and nothing but droppable lines and the blank lines
behind them is missing; nothing at all when there is nothing to suppress. -/
def LosesNothing (loads : Loads) (streaming suppress : Bool) (stream : Bytes)
    (result : Except LoadError Bytes) : Prop :=
  ∃ out, result = .ok out ∧
    if streaming = true ∧ suppress = true then
      ∃ kept, Forwards loads false (LineStream.lines isNewline [] stream).1 kept ∧
        out = kept.flatten ++ (LineStream.lines isNewline [] stream).2
    else out = stream

/-! ## What the meter does -/

/-- The lines of a stream go out up to the first that raises. -/
theorem passLines_outLine (loads : Loads) (suppress : Bool) (lines : List Bytes) :
    ∀ t : Tally,
      ((∃ line ∈ lines, raises loads line = true) ∧
        ∃ e, (LineStream.passLines (outLine loads suppress) t lines).1 = .error e) ∨
      ((∀ line ∈ lines, raises loads line = false) ∧
        (LineStream.passLines (outLine loads suppress) t lines).1
          = .ok (keptLines loads suppress t.dropNextBlank lines).flatten) := by
  induction lines with
  | nil => exact fun t => .inr ⟨(fun _ h => nomatch h), rfl⟩
  | cons line lines ih =>
      intro t
      rw [LineStream.passLines]
      rcases outLine_spec loads suppress t line with
        ⟨hraises, e, t', hout⟩ | ⟨hquiet, out, t', hout, hkept⟩
      · exact .inl ⟨⟨line, List.mem_cons_self, hraises⟩, e, by simp only [hout]⟩
      · rcases ih t' with ⟨⟨bad, hbad, hraises⟩, e, hrest⟩ | ⟨hall, hrest⟩
        · refine .inl ⟨⟨bad, List.mem_cons_of_mem _ hbad, hraises⟩, e, ?_⟩
          simp only [hout, hrest, Except.map]
        · refine .inr ⟨?_, ?_⟩
          · intro l hl
            rcases List.mem_cons.mp hl with rfl | hl
            · exact hquiet
            · exact hall l hl
          · simp only [hout, hrest, Except.map]
            rw [hkept]

/-- A streamed response goes out, line by line and then its open end, exactly if none of
these raises. -/
theorem run_streaming (loads : Loads) (suppress : Bool) (chunks : List Bytes) :
    (¬ Manageable loads true chunks.flatten ∧
        ∃ e, ((ResponseMeter.new true suppress).run loads chunks).1 = .error e) ∨
      (Manageable loads true chunks.flatten ∧
        ((ResponseMeter.new true suppress).run loads chunks).1 =
          .ok ((keptLines loads suppress false
              (LineStream.lines isNewline [] chunks.flatten).1).flatten ++
            (LineStream.lines isNewline [] chunks.flatten).2)) := by
  obtain ⟨hfed, -, hopen⟩ := LineStream.feedAll_eq_scan isNewline (outLine loads suppress)
    chunks (ResponseMeter.new true suppress).tally [] (by simp)
  obtain ⟨hscan, hrest⟩ := LineStream.scan_eq_passLines isNewline (outLine loads suppress)
    chunks.flatten (ResponseMeter.new true suppress).tally []
  have hfeed := ResponseMeter.feedAll_of_streaming loads chunks
    (ResponseMeter.new true suppress) rfl
  have hmanageable : Manageable loads true chunks.flatten ↔
      (∀ line ∈ (LineStream.lines isNewline [] chunks.flatten).1, raises loads line = false) ∧
        raises loads (LineStream.lines isNewline [] chunks.flatten).2 = false := by
    change (∀ line ∈ streamLines chunks.flatten, raises loads line = false) ↔ _
    unfold streamLines
    cases (LineStream.lines isNewline [] chunks.flatten).2 with
    | nil =>
        have hquiet : raises loads [] = false := rfl
        simp [hquiet]
    | cons b tail => simp [or_imp, forall_and]
  rw [ResponseMeter.run, hfeed, hmanageable]
  simp only [ResponseMeter.new] at hfed hopen hscan hrest ⊢
  rcases passLines_outLine loads suppress (LineStream.lines isNewline [] chunks.flatten).1
      ⟨none, 0, false⟩ with ⟨⟨bad, hbad, hraises⟩, e, hpass⟩ | ⟨hall, hpass⟩
  · refine .inl ⟨fun h => ?_, e, ?_⟩
    · rw [h.1 bad hbad] at hraises
      cases hraises
    · simp only [hfed.trans (hscan.trans hpass)]
  · have hresult := hscan.trans hpass
    rw [hfed, hresult]
    simp only [hopen _ hresult, hrest _ hresult]
    generalize (LineStream.lines isNewline [] chunks.flatten).2 = tail
    generalize (LineStream.feedAll isNewline (outLine loads suppress) _ [] chunks).state = t
    rw [ResponseMeter.finish, if_pos rfl]
    cases tail with
    | nil =>
        have hquiet : raises loads [] = false := rfl
        exact .inr ⟨⟨hall, hquiet⟩, rfl⟩
    | cons b tail =>
        rw [if_neg (List.cons_ne_nil b tail)]
        rcases inspectSseLine_spec loads suppress t (b :: tail) with
          ⟨hraises, e, heq⟩ | ⟨hquiet, t', -, heq⟩
        · refine .inl ⟨fun h => ?_, e, ?_⟩
          · rw [h.2] at hraises
            cases hraises
          · simp only [heq]
        · refine .inr ⟨⟨hall, hquiet⟩, ?_⟩
          simp only [heq]

/-- A response that is not streamed goes out as it comes in, unless its body raises at the
end. -/
theorem run_not_streaming (loads : Loads) (suppress : Bool) (chunks : List Bytes) :
    (¬ Manageable loads false chunks.flatten ∧
        ∃ e, ((ResponseMeter.new false suppress).run loads chunks).1 = .error e) ∨
      (Manageable loads false chunks.flatten ∧
        ((ResponseMeter.new false suppress).run loads chunks).1 = .ok chunks.flatten) := by
  change (¬ (chunks.flatten.length ≤ maxAccumulateBytes →
      bodyRaises loads chunks.flatten = false) ∧ _) ∨
    ((chunks.flatten.length ≤ maxAccumulateBytes → bodyRaises loads chunks.flatten = false) ∧ _)
  rw [ResponseMeter.run, ResponseMeter.feedAll_new_of_not_streaming]
  generalize chunks.flatten = body
  by_cases hover : maxAccumulateBytes < body.length
  · refine .inr ⟨fun h => absurd h (by omega), ?_⟩
    simp only [finish_of_over hover, List.append_nil]
  · rcases extractUsage_spec loads body with ⟨hraises, e, herror⟩ | ⟨hquiet, found, hfound⟩
    · refine .inl ⟨fun h => ?_, e, ?_⟩
      · rw [h (by omega)] at hraises
        cases hraises
      · simp [ResponseMeter.finish, ResponseMeter.accumulate, ResponseMeter.new, hover, herror]
    · refine .inr ⟨fun _ => hquiet, ?_⟩
      simp only [finish_of_fits hover hfound, List.append_nil]

/-! ## When the law holds -/

/-- A chunk that is taken for the injected one has usage. -/
theorem droppable_of_suppressible {loads : Loads} {line : Bytes}
    (h : suppressible loads line = true) :
    droppable loads line = true ↔ ∀ fields, dataObject loads line = some fields →
      (get fields "choices").emptyOrMissing = true := by
  have hcarries := carriesUsage_of_suppressible h
  unfold carriesUsage at hcarries
  unfold droppable
  cases hobject : dataObject loads line with
  | none => simp [hobject] at hcarries
  | some fields =>
      simp only [hobject, Bool.and_eq_true] at hcarries ⊢
      constructor
      · intro hdroppable fields' hsame
        cases hsame
        exact hdroppable.2
      · intro hall
        exact ⟨hcarries.1, hall fields rfl⟩

/-- What the meter lets through obeys the law, when every line it drops may be dropped. -/
theorem forwards_keptLines {loads : Loads} (lines : List Bytes) :
    ∀ dropped, (∀ line ∈ lines, suppressible loads line = true → droppable loads line = true) →
      Forwards loads dropped lines (keptLines loads true dropped lines) := by
  induction lines with
  | nil => exact fun dropped _ => .nil dropped
  | cons line lines ih =>
      intro dropped hall
      have hrest := fun flag => ih flag fun l hl => hall l (List.mem_cons_of_mem _ hl)
      rw [keptLines]
      by_cases hblank : strip line = []
      · rw [if_pos hblank]
        cases dropped with
        | true => exact .dropBlank hblank (hrest false)
        | false => exact .keep false line (hrest false)
      · rw [if_neg hblank, Bool.true_and]
        by_cases hsuppress : suppressible loads line = true
        · rw [if_pos hsuppress]
          exact .drop dropped (hall line List.mem_cons_self hsuppress) (hrest true)
        · rw [if_neg hsuppress]
          exact .keep dropped line (hrest false)

/-- A line that may not be dropped goes out as often as it comes in. -/
theorem Forwards.count {loads : Loads} {dropped : Bool} {lines kept : List Bytes}
    (h : Forwards loads dropped lines kept) {line : Bytes} (hline : strip line ≠ [])
    (hkept : droppable loads line = false) : kept.count line = lines.count line := by
  induction h with
  | nil dropped => rfl
  | keep dropped l hrest ih => rw [List.count_cons, List.count_cons, ih]
  | @drop dropped l lines kept hdroppable hrest ih =>
      have hne : l ≠ line := by
        rintro rfl
        cases hdroppable.symm.trans hkept
      rw [ih, List.count_cons_of_ne hne]
  | @dropBlank l lines kept hblank hrest ih =>
      have hne : l ≠ line := by
        rintro rfl
        exact hline hblank
      rw [ih, List.count_cons_of_ne hne]

theorem Forwards.subset {loads : Loads} {dropped : Bool} {lines kept : List Bytes}
    (h : Forwards loads dropped lines kept) : kept ⊆ lines := by
  induction h with
  | nil dropped => exact List.Subset.refl _
  | keep dropped l hrest ih => exact List.cons_subset_cons l ih
  | drop dropped hdroppable hrest ih => exact List.subset_cons_of_subset _ ih
  | dropBlank hblank hrest ih => exact List.subset_cons_of_subset _ ih

/-- No line that the meter takes for the injected chunk goes out. -/
theorem not_mem_keptLines {loads : Loads} {line : Bytes} (hline : strip line ≠ [])
    (hsuppress : suppressible loads line = true) (lines : List Bytes) :
    ∀ dropped, line ∉ keptLines loads true dropped lines := by
  induction lines with
  | nil => exact fun _ h => nomatch h
  | cons l lines ih =>
      intro dropped hmem
      rw [keptLines] at hmem
      by_cases hblank : strip l = []
      · rw [if_pos hblank] at hmem
        cases dropped with
        | true => exact ih false hmem
        | false =>
            rcases List.mem_cons.mp hmem with rfl | hmem
            · exact hline hblank
            · exact ih false hmem
      · rw [if_neg hblank, Bool.true_and] at hmem
        by_cases hdrop : suppressible loads l = true
        · rw [if_pos hdrop] at hmem
          exact ih true hmem
        · rw [if_neg hdrop] at hmem
          rcases List.mem_cons.mp hmem with rfl | hmem
          · exact hdrop hsuppress
          · exact ih false hmem

theorem keptLines_subset (loads : Loads) (suppress : Bool) (lines : List Bytes) :
    ∀ dropped, keptLines loads suppress dropped lines ⊆ lines := by
  induction lines with
  | nil => exact fun _ => List.Subset.refl _
  | cons l lines ih =>
      intro dropped
      rw [keptLines]
      split
      · split
        · exact List.subset_cons_of_subset _ (ih false)
        · exact List.cons_subset_cons l (ih false)
      · split
        · exact List.subset_cons_of_subset _ (ih true)
        · exact List.cons_subset_cons l (ih false)

/-- Without suppression every line goes out. -/
theorem keptLines_unsuppressed (loads : Loads) (lines : List Bytes) :
    keptLines loads false false lines = lines := by
  induction lines with
  | nil => rfl
  | cons l lines ih => simp [keptLines, ih]

/-- A line taken for the injected chunk is not blank. -/
theorem strip_ne_nil_of_suppressible {loads : Loads} {line : Bytes}
    (h : suppressible loads line = true) : strip line ≠ [] := by
  intro hblank
  unfold suppressible dataObject dataPayload at h
  rw [hblank] at h
  cases h

/-- What the meter lets through is what may go out exactly if it drops only what may be
dropped. -/
theorem keptLines_forwards_iff {loads : Loads} {lines : List Bytes} {tail : Bytes}
    (hlines : ∀ l ∈ lines, LineStream.IsLine isNewline l)
    (htail : ∀ b ∈ tail, isNewline b = false) :
    (∃ kept, Forwards loads false lines kept ∧
        (keptLines loads true false lines).flatten ++ tail = kept.flatten ++ tail) ↔
      ∀ line ∈ lines, suppressible loads line = true → droppable loads line = true := by
  constructor
  · rintro ⟨kept, hforwards, hsame⟩ line hline hsuppress
    -- both sides fall into the same lines
    have hcode := LineStream.lines_flatten isNewline htail (keptLines loads true false lines)
      fun l hl => hlines l (keptLines_subset loads true lines false hl)
    have hlaw := LineStream.lines_flatten isNewline htail kept
      fun l hl => hlines l (hforwards.subset hl)
    rw [hsame, hlaw] at hcode
    have hkept : kept = keptLines loads true false lines := (Prod.mk.inj hcode).1
    have hfilled := strip_ne_nil_of_suppressible hsuppress
    cases hdrop : droppable loads line with
    | true => rfl
    | false =>
        have hcount := hforwards.count hfilled hdrop
        rw [hkept, List.count_eq_zero_of_not_mem
          (not_mem_keptLines hfilled hsuppress lines false)] at hcount
        exact absurd hline (List.count_eq_zero.mp hcount.symm)
  · intro hall
    exact ⟨_, forwards_keptLines lines false hall, rfl⟩

/-- No content is lost exactly if nothing makes `json.loads` fail uncaught and, when there
is something to suppress, no complete line with token counts has a `choices` that is false
for Python without being empty.  This holds however the response is cut. -/
theorem losesNothing_iff (loads : Loads) (streaming suppress : Bool) (chunks : List Bytes) :
    LosesNothing loads streaming suppress chunks.flatten
        ((ResponseMeter.new streaming suppress).run loads chunks).1 ↔
      Manageable loads streaming chunks.flatten ∧
        (streaming = true → suppress = true →
          ∀ line ∈ (LineStream.lines isNewline [] chunks.flatten).1,
            suppressible loads line = true → ∀ fields, dataObject loads line = some fields →
              (get fields "choices").emptyOrMissing = true) := by
  cases streaming with
  | false =>
      rcases run_not_streaming loads suppress chunks with ⟨hnot, e, hrun⟩ | ⟨hmanageable, hrun⟩
      · refine iff_of_false ?_ fun h => hnot h.1
        rintro ⟨out, hout, -⟩
        cases hrun.symm.trans hout
      · refine iff_of_true ⟨_, hrun, ?_⟩ ⟨hmanageable, fun h => nomatch h⟩
        rw [if_neg (by simp)]
  | true =>
      rcases run_streaming loads suppress chunks with ⟨hnot, e, hrun⟩ | ⟨hmanageable, hrun⟩
      · refine iff_of_false ?_ fun h => hnot h.1
        rintro ⟨out, hout, -⟩
        cases hrun.symm.trans hout
      · cases suppress with
        | false =>
            refine iff_of_true ⟨_, hrun, ?_⟩ ⟨hmanageable, fun _ h => nomatch h⟩
            rw [if_neg (by simp), keptLines_unsuppressed, LineStream.flatten_lines,
              List.nil_append]
        | true =>
            have hiff := @keptLines_forwards_iff loads _ _
              (LineStream.isLine_of_mem_lines isNewline chunks.flatten [] fun b hb => nomatch hb)
              (LineStream.open_lines isNewline chunks.flatten [] fun b hb => nomatch hb)
            constructor
            · rintro ⟨out, hout, hlaw⟩
              cases hrun.symm.trans hout
              rw [if_pos ⟨rfl, rfl⟩] at hlaw
              refine ⟨hmanageable, fun _ _ line hline hsuppress => ?_⟩
              exact (droppable_of_suppressible hsuppress).mp (hiff.mp hlaw line hline hsuppress)
            · rintro ⟨-, hchoices⟩
              refine ⟨_, hrun, ?_⟩
              rw [if_pos ⟨rfl, rfl⟩]
              apply hiff.mpr
              intro line hline hsuppress
              exact (droppable_of_suppressible hsuppress).mpr
                (hchoices rfl rfl line hline hsuppress)

/-- An event line that opens `n + 1` arrays and closes none. -/
def nestedLine (n : Nat) : Bytes := sseDataPrefix ++ List.replicate (n + 1) 91 ++ [10]

theorem dataPayload_nestedLine (n : Nat) :
    dataPayload (nestedLine n) = some (List.replicate (n + 1) 91) := by
  have hpayload : strip (List.replicate (n + 1) 91) = List.replicate (n + 1) 91 := by
    unfold strip
    rw [List.replicate_succ, List.dropWhile_cons_of_neg (by decide), ← List.replicate_succ,
      List.replicate_succ', List.rdropWhile_concat_neg _ _ _ (by decide)]
  have hline : strip (nestedLine n) = sseDataPrefix ++ List.replicate (n + 1) 91 := by
    unfold strip nestedLine
    have hfront : (sseDataPrefix ++ List.replicate (n + 1) 91 ++ [10]).dropWhile isSpace
        = sseDataPrefix ++ List.replicate (n + 1) 91 ++ [10] :=
      List.dropWhile_cons_of_neg (by decide)
    rw [hfront, List.rdropWhile_concat_pos _ _ _ (by decide), List.replicate_succ',
      ← List.append_assoc, List.rdropWhile_concat_neg _ _ _ (by decide)]
  have hprefix : sseDataPrefix.isPrefixOf (sseDataPrefix ++ List.replicate (n + 1) 91) = true :=
    List.isPrefixOf_iff_prefix.mpr (List.prefix_append _ _)
  have hdone : List.replicate (n + 1) 91 ≠ sseDone := by
    intro h
    have hmem : (68 : UInt8) ∈ List.replicate (n + 1) 91 := h ▸ by decide
    exact absurd (List.eq_of_mem_replicate hmem) (by decide)
  unfold dataPayload
  rw [hline, if_pos hprefix, List.drop_left, hpayload]
  simp [hdone]

/-- `json.loads` where such a payload exceeds the recursion limit. -/
def loadsNested (n : Nat) : Loads := fun payload =>
  if payload = List.replicate (n + 1) 91 then .error (.other "RecursionError")
  else .error .jsonDecode

/-- With such a line the stream breaks off. -/
theorem nestedLine_breaks (n : Nat) :
    ¬ LosesNothing (loadsNested n) true false [nestedLine n].flatten
      ((ResponseMeter.new true false).run (loadsNested n) [nestedLine n]).1 := by
  have hraises : raises (loadsNested n) (nestedLine n) = true := by
    unfold raises
    rw [dataPayload_nestedLine]
    simp only [loadsNested, if_true]
    rfl
  rcases run_streaming (loadsNested n) false [nestedLine n] with
    ⟨-, e, hrun⟩ | ⟨hmanageable, -⟩
  · rintro ⟨out, hout, -⟩
    cases hrun.symm.trans hout
  · have hlines := @LineStream.lines_flatten _ isNewline [] (fun b hb => nomatch hb)
      [nestedLine n] ?_
    · have hquiet : ∀ line ∈ streamLines [nestedLine n].flatten,
          raises (loadsNested n) line = false := hmanageable
      rw [streamLines, ← List.append_nil [nestedLine n].flatten, hlines] at hquiet
      rw [hquiet _ (List.mem_append_left _ (List.mem_singleton_self _))] at hraises
      cases hraises
    · intro l hl
      cases List.mem_singleton.mp hl
      refine ⟨sseDataPrefix ++ List.replicate (n + 1) 91, 10, rfl, rfl, ?_⟩
      intro b hb
      rcases List.mem_append.mp hb with hb | hb
      · exact @no_newline_of_all sseDataPrefix rfl b hb
      · rw [List.eq_of_mem_replicate hb]
        rfl

/-- A hundred thousand open brackets in an event. -/
theorem nestedLine_lost :
    ¬ LosesNothing (loadsNested 99999) true false [nestedLine 99999].flatten
      ((ResponseMeter.new true false).run (loadsNested 99999) [nestedLine 99999]).1 :=
  nestedLine_breaks 99999

end Repercep.Metering
