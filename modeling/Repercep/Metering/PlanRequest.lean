import Repercep.Foundation.PythonJson
import Repercep.Metering.Forwarding
set_option autoImplicit false

/-!
# Metering: planning a request

The model of `plan_request` in `serving/metering.py`, and of a proxied call from the
request body to the record.  A body that streams and does not say whether it wants its
usage is written anew with `stream_options.include_usage` set; every other body goes on as
it came.

`json.loads` and `json.dumps` are parameters here.  The values of a request are trees,
because its texts count; the meter looks into a response only.
-/

namespace Repercep.Metering

open Repercep.Foundation

/-- `json.loads(raw)`. -/
abbrev LoadsRequest : Type := Bytes → Except LoadError PyValue

/-- `json.dumps(value).encode()`. -/
abbrev DumpsRequest : Type := PyValue → Except LoadError Bytes

/-- The name of the model. -/
def modelKey : Units := unitsOf "model"
/-- The name of the flag that asks for a stream. -/
def streamKey : Units := unitsOf "stream"
/-- The name of the options of a stream. -/
def streamOptions : Units := unitsOf "stream_options"
/-- The name of the option that asks for the usage. -/
def includeUsage : Units := unitsOf "include_usage"

/-- `RequestPlan`, with the body to send. -/
structure PlannedRequest where
  body : Bytes
  model : Units
  streaming : Bool
  injectedUsage : Bool

/-- `bool(parsed.get("stream", False))`. -/
def streams (parsed : List (Units × PyValue)) : Bool :=
  match lastValue streamKey parsed with
  | some value => truthOf value
  | none => false

/-- `isinstance(opts, dict) and "include_usage" in opts`. -/
def choosesUsage (parsed : List (Units × PyValue)) : Bool :=
  match lastValue streamOptions parsed with
  | some (.obj opts) => (lastValue includeUsage opts).isSome
  | _ => false

/-- `merged`: the options with the usage asked for. -/
def mergedOptions (parsed : List (Units × PyValue)) : List (Units × PyValue) :=
  assignEntry includeUsage (.bool true)
    (match lastValue streamOptions parsed with
      | some (.obj opts) => opts
      | _ => [])

/-- `parsed`, with the merged options. -/
def withUsage (parsed : List (Units × PyValue)) : PyValue :=
  .obj (assignEntry streamOptions (.obj (mergedOptions parsed)) parsed)

/-- `plan_request`. -/
def planRequest (loads : LoadsRequest) (dumps : DumpsRequest) (raw : Bytes) :
    Except LoadError PlannedRequest :=
  match loads raw with
  | .error e => if e.caught then .ok ⟨raw, [], false, false⟩ else .error e
  | .ok (.obj parsed) =>
      let model :=
        match lastValue modelKey parsed with
        | some (.str s) => s
        | _ => []
      if streams parsed then
        if choosesUsage parsed then .ok ⟨raw, model, true, false⟩
        else
          match dumps (withUsage parsed) with
          | .error e => .error e
          | .ok body => .ok ⟨body, model, true, true⟩
      else .ok ⟨raw, model, false, false⟩
  | .ok _ => .ok ⟨raw, [], false, false⟩

/-- The text of the units.  A surrogate without its other half is shown as U+FFFD. -/
def textOf : Units → List Char
  | [] => []
  | [u] => [charOf u]
  | u :: v :: rest =>
      if 0xD800 ≤ u.val ∧ u.val < 0xDC00 ∧ 0xDC00 ≤ v.val ∧ v.val < 0xE000 then
        Char.ofNat (0x10000 + (u.val - 0xD800) * 0x400 + (v.val - 0xDC00)) :: textOf rest
      else charOf u :: textOf (v :: rest)
where
  charOf (u : CodeUnit) : Char :=
    if 0xD800 ≤ u.val ∧ u.val < 0xE000 then Char.ofNat 0xFFFD else Char.ofNat u.val

/-- What the proxy keeps of a plan beside the body. -/
def PlannedRequest.plan (p : PlannedRequest) : RequestPlan where
  model := String.ofList (textOf p.model)
  streaming := p.streaming
  injectedUsage := p.injectedUsage

/-! ## When nothing is raised -/

/-- The plan of a body that is read and, where it has to be, written. -/
def Plannable (loads : LoadsRequest) (dumps : DumpsRequest) (raw : Bytes) : Prop :=
  match loads raw with
  | .error e => e.caught = true
  | .ok (.obj parsed) =>
      streams parsed = true → choosesUsage parsed = false →
        ∃ body, dumps (withUsage parsed) = .ok body
  | .ok _ => True

/-- The body asks for a stream. -/
def asksForStream (loads : LoadsRequest) (raw : Bytes) : Bool :=
  match loads raw with
  | .ok (.obj parsed) => streams parsed
  | _ => false

/-- `plan_request` raises exactly on the other bodies. -/
theorem planRequest_spec (loads : LoadsRequest) (dumps : DumpsRequest) (raw : Bytes) :
    (¬ Plannable loads dumps raw ∧ ∃ e, planRequest loads dumps raw = .error e) ∨
      (Plannable loads dumps raw ∧ ∃ p, planRequest loads dumps raw = .ok p ∧
        p.streaming = asksForStream loads raw) := by
  unfold Plannable planRequest asksForStream
  cases loads raw with
  | error e =>
      cases hcaught : e.caught with
      | false => exact .inl ⟨by simp [hcaught], e, by simp [hcaught]⟩
      | true => exact .inr ⟨hcaught, _, by simp only [hcaught]; rfl, rfl⟩
  | ok value =>
      cases value with
      | obj parsed =>
          simp only
          cases hstreams : streams parsed with
          | false => exact .inr ⟨by simp, _, rfl, rfl⟩
          | true =>
              cases hchooses : choosesUsage parsed with
              | true => exact .inr ⟨by simp, _, rfl, rfl⟩
              | false =>
                  cases hdumps : dumps (withUsage parsed) with
                  | error e => exact .inl ⟨by simp, e, rfl⟩
                  | ok body => exact .inr ⟨by simp, _, rfl, rfl⟩
      | null => exact .inr ⟨trivial, _, rfl, rfl⟩
      | bool b => exact .inr ⟨trivial, _, rfl, rfl⟩
      | num x => exact .inr ⟨trivial, _, rfl, rfl⟩
      | str s => exact .inr ⟨trivial, _, rfl, rfl⟩
      | arr items => exact .inr ⟨trivial, _, rfl, rfl⟩

/-- What goes out of a response, with the chunk that the proxy asked for left out. -/
def delivered (loads : Loads) (plan : RequestPlan) (stream : Bytes) : Bytes :=
  if plan.streaming then
    (keptLines loads plan.injectedUsage false (LineStream.lines isNewline [] stream).1).flatten ++
      (LineStream.lines isNewline [] stream).2
  else stream

/-- The meter raises on a response, or lets it out. -/
theorem run_spec (loads : Loads) (plan : RequestPlan) (chunks : List Bytes) :
    (¬ Manageable loads plan.streaming chunks.flatten ∧ ∃ e m,
        (ResponseMeter.new plan.streaming plan.injectedUsage).run loads chunks = (.error e, m)) ∨
      (Manageable loads plan.streaming chunks.flatten ∧ ∃ m,
        (ResponseMeter.new plan.streaming plan.injectedUsage).run loads chunks =
          (.ok (delivered loads plan chunks.flatten), m)) := by
  obtain ⟨model, streaming, suppress⟩ := plan
  unfold delivered
  cases streaming with
  | false =>
      rcases run_not_streaming loads suppress chunks with ⟨hnot, e, hrun⟩ | ⟨hmanageable, hrun⟩
      · exact .inl ⟨hnot, e, _, Prod.ext hrun rfl⟩
      · exact .inr ⟨hmanageable, _, Prod.ext hrun rfl⟩
  | true =>
      rcases run_streaming loads suppress chunks with ⟨hnot, e, hrun⟩ | ⟨hmanageable, hrun⟩
      · exact .inl ⟨hnot, e, _, Prod.ext hrun rfl⟩
      · exact .inr ⟨hmanageable, _, Prod.ext hrun rfl⟩

/-- A call is metered without harm: the plan is made, the call is recorded once, and a
response that is no error goes out to its end. -/
def Unharmed (loadsRequest : LoadsRequest) (dumps : DumpsRequest) (loads : Loads)
    (path : String) (raw : Bytes) (status : Nat) (chunks : List Bytes) : Prop :=
  ∃ p, planRequest loadsRequest dumps raw = .ok p ∧
    let reply := proxyPostStream loads true path p.plan (.delivered status chunks)
    reply.records.length = 1 ∧
      (status < 400 → reply.outcome = .ok () ∧
        reply.forwarded.flatten = delivered loads p.plan chunks.flatten)

/-- The parts of the metering return, and a proxied call comes to no harm, exactly if
nothing they read makes `json.loads` fail with an error other than the two they handle, and
`json.dumps` can write the request anew when it has to. -/
theorem metering_returns_iff (loadsRequest : LoadsRequest) (dumps : DumpsRequest)
    (loads : Loads) (path : String) :
    (∀ raw, (∃ p, planRequest loadsRequest dumps raw = .ok p) ↔
      Plannable loadsRequest dumps raw) ∧
    (∀ payload, (∃ found, extractUsage loads payload = .ok found) ↔
      bodyRaises loads payload = false) ∧
    (∀ streaming suppress chunks,
      (∃ out, ((ResponseMeter.new streaming suppress).run loads chunks).1 = .ok out) ↔
        Manageable loads streaming chunks.flatten) ∧
    (∀ raw status chunks, Unharmed loadsRequest dumps loads path raw status chunks ↔
      Plannable loadsRequest dumps raw ∧
        (status < 400 →
          Manageable loads (asksForStream loadsRequest raw) chunks.flatten)) := by
  refine ⟨?_, ?_, ?_, ?_⟩
  · intro raw
    rcases planRequest_spec loadsRequest dumps raw with ⟨hnot, e, hplan⟩ | ⟨hplannable, p, hplan, -⟩
    · refine iff_of_false ?_ hnot
      rintro ⟨p, hp⟩
      cases hplan.symm.trans hp
    · exact iff_of_true ⟨p, hplan⟩ hplannable
  · intro payload
    rcases extractUsage_spec loads payload with ⟨hraises, e, hfound⟩ | ⟨hquiet, found, hfound⟩
    · refine iff_of_false ?_ (by simp [hraises])
      rintro ⟨found, h⟩
      cases hfound.symm.trans h
    · exact iff_of_true ⟨found, hfound⟩ hquiet
  · intro streaming suppress chunks
    rcases run_spec loads ⟨"", streaming, suppress⟩ chunks with
      ⟨hnot, e, m, hrun⟩ | ⟨hmanageable, m, hrun⟩
    · refine iff_of_false ?_ hnot
      rintro ⟨out, h⟩
      rw [hrun] at h
      cases h
    · exact iff_of_true ⟨_, congrArg Prod.fst hrun⟩ hmanageable
  · intro raw status chunks
    rcases planRequest_spec loadsRequest dumps raw with
      ⟨hnot, e, hplan⟩ | ⟨hplannable, p, hplan, hstreaming⟩
    · refine iff_of_false ?_ fun h => hnot h.1
      rintro ⟨p, hp, -⟩
      cases hplan.symm.trans hp
    · rw [← hstreaming]
      by_cases hstatus : status < 400
      · rcases run_spec loads p.plan chunks with ⟨hnot, e, m, hrun⟩ | ⟨hmanageable, m, hrun⟩
        · refine iff_of_false ?_ fun h => hnot (h.2 hstatus)
          rintro ⟨p', hp', -, hdelivers⟩
          cases hplan.symm.trans hp'
          -- the record may still be made, but the response breaks off
          exact broken_reply path hstatus hrun (hdelivers hstatus).1
        · refine iff_of_true ⟨p, hplan, ?_⟩ ⟨hplannable, fun _ => hmanageable⟩
          obtain ⟨outs, hflat, hreply⟩ := delivered_reply path hstatus hrun
          simp only [hreply]
          exact ⟨rfl, fun _ => ⟨trivial, hflat⟩⟩
      · refine iff_of_true ⟨p, hplan, ?_, fun h => absurd h hstatus⟩
          ⟨hplannable, fun h => absurd h hstatus⟩
        rw [refused_record loads path p.plan chunks (by omega)]
        rfl

/-- `json.loads` of a request that is nested too deeply for it. -/
def loadsNestedRequest (n : Nat) : LoadsRequest := fun raw =>
  if raw = List.replicate (n + 1) 91 then .error (.other "RecursionError")
  else .error .jsonDecode

theorem nestedRequest_raises (n : Nat) :
    ¬ ∃ p, planRequest (loadsNestedRequest n) (fun _ => .ok []) (List.replicate (n + 1) 91) =
      .ok p := by
  rintro ⟨p, hp⟩
  have hloads : loadsNestedRequest n (List.replicate (n + 1) 91) =
      .error (.other "RecursionError") := if_pos rfl
  rw [planRequest, hloads] at hp
  cases hp

/-- A request of a hundred thousand open brackets is not planned. -/
theorem nestedRequest_not_planned :
    ¬ ∃ p, planRequest (loadsNestedRequest 99999) (fun _ => .ok [])
      (List.replicate (99999 + 1) 91) = .ok p :=
  nestedRequest_raises 99999

end Repercep.Metering
