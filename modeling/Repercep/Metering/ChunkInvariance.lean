import Repercep.Metering.Meter
set_option autoImplicit false

/-!
# Metering: the cuts of the upstream are invisible

The network cuts a response anywhere, inside a character, a CRLF or a line.  What
the client receives and what is billed depend only on the bytes, in both modes.  On
the streaming path the meter is a line-buffered transducer; on the other it is an
accumulator with a cap.
-/

namespace Repercep.Metering

open Repercep.Foundation

namespace ResponseMeter

/-! ## Streaming -/

/-- The streaming meter is the line transducer around `outLine`. -/
theorem feedAll_of_streaming (loads : Loads) (chunks : List Bytes) :
    ∀ (m : ResponseMeter), m.streaming = true →
      m.feedAll loads chunks =
        ((LineStream.feedAll isNewline (outLine loads m.suppress) m.tally m.buffer
            chunks).result,
          { m with
            buffer := (LineStream.feedAll isNewline (outLine loads m.suppress) m.tally
              m.buffer chunks).rest
            tally := (LineStream.feedAll isNewline (outLine loads m.suppress) m.tally
              m.buffer chunks).state }) := by
  induction chunks with
  | nil =>
      intro m _
      rfl
  | cons chunk chunks ih =>
      intro m hstreaming
      have hfeed : m.feed loads chunk = m.feedSse loads chunk := by
        rw [feed, if_pos hstreaming]
      rw [feedAll, hfeed, feedSse, LineStream.feedAll]
      generalize LineStream.feed isNewline (outLine loads m.suppress) m.tally m.buffer chunk = p
      cases hresult : p.result with
      | error e => simp only [hresult]
      | ok out =>
          simp only [LineStream.Pass.after_result, LineStream.Pass.after_state,
            LineStream.Pass.after_rest]
          rw [ih { m with buffer := p.rest, tally := p.state } hstreaming]
          cases (LineStream.feedAll isNewline (outLine loads m.suppress) p.state p.rest
            chunks).result <;> rfl

/-- Two ways of cutting one stream end in the same result and the same tally, and
without an error in the same meter. -/
theorem feedAll_streaming_congr (loads : Loads) {m : ResponseMeter}
    (hstreaming : m.streaming = true) (hopen : ∀ b ∈ m.buffer, isNewline b = false)
    {chunks chunks' : List Bytes} (hsame : chunks.flatten = chunks'.flatten) :
    (m.feedAll loads chunks).1 = (m.feedAll loads chunks').1 ∧
      (m.feedAll loads chunks).2.tally = (m.feedAll loads chunks').2.tally ∧
      ∀ out, (m.feedAll loads chunks').1 = .ok out →
        (m.feedAll loads chunks).2 = (m.feedAll loads chunks').2 := by
  obtain ⟨hresult, hstate, hrest⟩ := LineStream.feedAll_eq_scan isNewline
    (outLine loads m.suppress) chunks m.tally m.buffer hopen
  obtain ⟨hresult', hstate', hrest'⟩ := LineStream.feedAll_eq_scan isNewline
    (outLine loads m.suppress) chunks' m.tally m.buffer hopen
  rw [hsame] at hresult hstate hrest
  rw [feedAll_of_streaming loads chunks m hstreaming,
    feedAll_of_streaming loads chunks' m hstreaming]
  refine ⟨hresult.trans hresult'.symm, hstate.trans hstate'.symm, ?_⟩
  intro out hok
  have hscan := hresult'.symm.trans hok
  rw [hstate, hstate', hrest out hscan, hrest' out hscan]

/-! ## Accumulating -/

/-- The cap counts bytes, not chunks. -/
theorem accumulate_accumulate (m : ResponseMeter) (a b : Bytes) :
    (m.accumulate a).accumulate b = m.accumulate (a ++ b) := by
  unfold accumulate
  by_cases htruncated : m.truncated = true
  · simp [htruncated]
  · by_cases hover : maxAccumulateBytes < m.body.length + a.length
    · have hboth : maxAccumulateBytes < m.body.length + (a.length + b.length) := by omega
      simp [htruncated, hover, hboth]
    · have hlength : m.body.length + (a ++ b).length = (m.body ++ a).length + b.length := by
        simp only [List.length_append]
        omega
      simp only [htruncated, hover, if_false, Bool.false_eq_true, hlength, List.append_assoc]

theorem feedAll_of_not_streaming (loads : Loads) (chunks : List Bytes) :
    ∀ (m : ResponseMeter), m.streaming = false →
      m.feedAll loads chunks = (.ok chunks.flatten, chunks.foldl accumulate m) := by
  induction chunks with
  | nil =>
      intro m _
      rfl
  | cons chunk chunks ih =>
      intro m hstreaming
      have hkept : (m.accumulate chunk).streaming = false := by
        unfold accumulate
        split
        · exact hstreaming
        · split <;> exact hstreaming
      rw [feedAll, feed, hstreaming, if_neg Bool.false_ne_true]
      simp only
      rw [ih _ hkept]
      rfl

theorem foldl_accumulate (chunks : List Bytes) :
    ∀ (m : ResponseMeter) (a : Bytes),
      chunks.foldl accumulate (m.accumulate a) = m.accumulate (a ++ chunks.flatten) := by
  induction chunks with
  | nil =>
      intro m a
      simp
  | cons chunk chunks ih =>
      intro m a
      rw [List.foldl_cons, accumulate_accumulate, ih, List.flatten_cons, List.append_assoc]

/-- A fresh meter accumulates the concatenation of its chunks. -/
theorem feedAll_new_of_not_streaming (loads : Loads) (suppress : Bool) (chunks : List Bytes) :
    (new false suppress).feedAll loads chunks =
      (.ok chunks.flatten, (new false suppress).accumulate chunks.flatten) := by
  have hempty : new false suppress = (new false suppress).accumulate [] := rfl
  rw [feedAll_of_not_streaming loads chunks _ rfl]
  conv_lhs => rw [hempty]
  rw [foldl_accumulate, List.nil_append]

theorem truncated_accumulate_new (suppress : Bool) (bytes : Bytes) :
    ((new false suppress).accumulate bytes).truncated = true ↔
      maxAccumulateBytes < bytes.length := by
  unfold accumulate
  by_cases hover : maxAccumulateBytes < bytes.length
  · simp [new, hover]
  · simp [new, hover]

/-! ## Whole responses -/

theorem truncated_finish (loads : Loads) (m : ResponseMeter) :
    (m.finish loads).2.truncated = m.truncated := by
  unfold finish
  split
  · split
    · rfl
    · split <;> rfl
  · split
    · rfl
    · split <;> rfl

/-- A second `finish` returns nothing and changes nothing. -/
theorem finish_finish (loads : Loads) {m m' : ResponseMeter} {out : Bytes}
    (h : m.finish loads = (.ok out, m')) : m'.finish loads = (.ok [], m') := by
  unfold finish at h
  by_cases hstreaming : m.streaming = true
  · rw [if_pos hstreaming] at h
    by_cases hbuffer : m.buffer = []
    · rw [if_pos hbuffer] at h
      obtain ⟨-, rfl⟩ := Prod.mk.inj h
      rw [finish, if_pos hstreaming, if_pos hbuffer]
    · rw [if_neg hbuffer] at h
      rcases hinspect : inspectSseLine loads m.suppress m.tally m.buffer with ⟨e | keep, t⟩
      · simp [hinspect] at h
      · simp only [hinspect] at h
        obtain ⟨-, rfl⟩ := Prod.mk.inj h
        simp [finish, hstreaming]
  · rw [if_neg hstreaming] at h
    by_cases htruncated : m.truncated = true
    · rw [if_pos htruncated] at h
      obtain ⟨-, rfl⟩ := Prod.mk.inj h
      rw [finish, if_neg hstreaming, if_pos htruncated]
    · rw [if_neg htruncated] at h
      cases hfound : extractUsage loads m.body with
      | error e => simp [hfound] at h
      | ok found =>
          simp only [hfound] at h
          obtain ⟨-, rfl⟩ := Prod.mk.inj h
          simp [finish, hstreaming, htruncated, hfound]

/-- A response that was metered to its end leaves a meter that stays as it is. -/
theorem finish_of_run (loads : Loads) {m m' : ResponseMeter} {chunks : List Bytes} {out : Bytes}
    (hrun : m.run loads chunks = (.ok out, m')) : m'.finish loads = (.ok [], m') := by
  unfold run at hrun
  rcases hfeed : m.feedAll loads chunks with ⟨e | fed, m₁⟩
  · simp [hfeed] at hrun
  · rcases hfinish : m₁.finish loads with ⟨e | tail, m₂⟩
    · simp [hfeed, hfinish] at hrun
    · simp only [hfeed, hfinish] at hrun
      obtain ⟨-, rfl⟩ := Prod.mk.inj hrun
      exact finish_finish loads hfinish

/-- The client receives the same and is billed the same. -/
structure SameMetering (cut whole : Except LoadError Bytes × ResponseMeter) : Prop where
  output : cut.1 = whole.1
  usage : cut.2.usage = whole.2.usage
  exact : cut.2.exact = whole.2.exact

theorem SameMetering.of_eq {cut whole : Except LoadError Bytes × ResponseMeter}
    (h : cut = whole) : SameMetering cut whole := by
  rw [h]
  exact ⟨rfl, rfl, rfl⟩

/-- A response metered chunk by chunk, however it is cut, is metered as a whole. -/
theorem run_sameMetering (loads : Loads) (streaming suppress : Bool) (chunks : List Bytes) :
    SameMetering ((new streaming suppress).run loads chunks)
      ((new streaming suppress).run loads [chunks.flatten]) := by
  have hflat : chunks.flatten = [chunks.flatten].flatten := by simp
  cases streaming with
  | false =>
      apply SameMetering.of_eq
      unfold run
      rw [feedAll_new_of_not_streaming, feedAll_new_of_not_streaming, ← hflat]
  | true =>
      obtain ⟨hresult, htally, hmeter⟩ := feedAll_streaming_congr loads
        (m := new true suppress) rfl (by simp [new]) hflat
      unfold run
      generalize (new true suppress).feedAll loads chunks = cut at hresult htally hmeter
      generalize (new true suppress).feedAll loads [chunks.flatten] = whole at hresult htally hmeter
      obtain ⟨result, m⟩ := cut
      obtain ⟨result', m'⟩ := whole
      have hsame : result = result' := hresult
      subst hsame
      cases result with
      | error e =>
          have htally' : m.tally = m'.tally := htally
          exact ⟨rfl, by simp [usage, htally'], by simp [exact, htally']⟩
      | ok out =>
          have hsame : m = m' := hmeter out rfl
          exact SameMetering.of_eq (by rw [hsame])

/-- Metering is chunk-invariant: for every way of cutting a byte string, in both
modes and with or without suppression, the output, the usage and its exactness are
those of the uncut string; once finished, the meter stays as it is; and a
non-streamed body is given up exactly when its total length is over the cap. -/
theorem run_chunkInvariant (loads : Loads) (streaming suppress : Bool) (chunks : List Bytes) :
    SameMetering ((new streaming suppress).run loads chunks)
        ((new streaming suppress).run loads [chunks.flatten]) ∧
      (∀ out m, (new streaming suppress).run loads chunks = (.ok out, m) →
        m.finish loads = (.ok [], m)) ∧
      (((new false suppress).run loads chunks).2.truncated = true ↔
        maxAccumulateBytes < chunks.flatten.length) := by
  refine ⟨run_sameMetering loads streaming suppress chunks, ?_, ?_⟩
  · intro out m hrun
    exact finish_of_run loads hrun
  · have hkept : ((new false suppress).run loads chunks).2.truncated =
        ((new false suppress).accumulate chunks.flatten).truncated := by
      unfold run
      rw [feedAll_new_of_not_streaming]
      have hfinish := truncated_finish loads ((new false suppress).accumulate chunks.flatten)
      rcases hres : ((new false suppress).accumulate chunks.flatten).finish loads with
        ⟨e | tail, m⟩
      · simpa [hres] using hfinish
      · simpa [hres] using hfinish
    rw [hkept]
    exact truncated_accumulate_new suppress chunks.flatten

end ResponseMeter

end Repercep.Metering
