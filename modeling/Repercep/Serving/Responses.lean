import Mathlib
import Repercep.Driver.FrameLines
import Repercep.Serving.Interruption
import Repercep.Serving.Projection
set_option autoImplicit false

/-!
# The v2 path: what a client gets of its request

End to end: the engine's frames are encoded by the driver thread, pushed through the router,
read by the `body_iter` of the request and written to its response as lines.  Whatever else
the application serves meanwhile, and however the response is cut or breaks off, the client
decodes a beginning of the frames the engine has yielded for its own request, and all of
them once the request is complete and its stream is drained.
-/

namespace Repercep.Serving.V2

open Repercep.Foundation
open Repercep.Router (RequestId ChanId)
open Repercep.Driver
open Repercep.Metering (Limits)

variable {P : Type}

/-- What `_encode` is given for a frame, with the latency measured then. -/
def sentOf (output : EngineOutput × Double) : Sent :=
  .frame output.1 output.2 output.1.isFinal

/-- What the driver reads of a frame, and the line it makes of it. -/
def engineFrame (limits : Limits) (output : EngineOutput × Double) : EngineFrame where
  index := output.1.index
  total := output.1.total
  line := (sentOf output).line limits

/-- The item of a request for which the engine yields these frames. -/
def jobOf (limits : Limits) (outputs : List (EngineOutput × Double)) (raises : Bool)
    (marker : List UInt8) : Job where
  wellFormed := true
  numFrames := outputs.length
  frames := outputs.map (engineFrame limits)
  raises := raises
  marker := marker

/-- The frames are numbered from zero, each with the total that was asked for. -/
def Numbered (outputs : List (EngineOutput × Double)) : Prop :=
  ∀ (j : Nat) (output : EngineOutput × Double), outputs[j]? = some output →
    output.1.index = j ∧ output.1.total = outputs.length

theorem regular_jobOf {limits : Limits} {outputs : List (EngineOutput × Double)} {raises : Bool}
    {marker : List UInt8} (hnumbered : Numbered outputs) :
    (jobOf limits outputs raises marker).Regular where
  announced := by
    have hlength : (jobOf limits outputs raises marker).frames.length = outputs.length :=
      List.length_map ..
    rw [hlength]
    rfl
  numbered := by
    intro j frame hget
    have hlength : (jobOf limits outputs raises marker).frames.length = outputs.length :=
      List.length_map ..
    rw [hlength]
    obtain ⟨output, houtput, rfl⟩ := Option.map_eq_some_iff.mp ((List.getElem?_map ..).symm.trans hget)
    exact hnumbered j output houtput

/-- The lines of the frames. -/
theorem lines_jobOf (limits : Limits) (outputs : List (EngineOutput × Double)) (raises : Bool)
    (marker : List UInt8) : (jobOf limits outputs raises marker).lines =
      (outputs.map sentOf).map (Sent.line limits) := by
  unfold Job.lines jobOf
  rw [List.map_map, List.map_map]
  rfl

/-- What a `body_iter` has yielded. -/
def yielded (ch : ChanId) (log : List (Event P)) : List UInt8 :=
  responseBody (payloadsOn ch (log.filterMap routed))

namespace V2State

variable {parses : P → Bool} {depth capacity : Nat} {s : V2State P} {as : List (Action P)}
  {log : List (Event P)} {id : RequestId} {job : Job}

/-- What the driver's model knows of a request holds of it in the application. -/
theorem account (hregular : job.Regular)
    (hrun : (machine parses depth capacity).run (machine parses depth capacity).init as =
      some (log, s)) (haccepted : s.Accepted log id)
    (hjob : ∀ run, s.runs id = some run → run.job = job) :
    Account job id (log.filterMap routed) (s.project id) := by
  obtain ⟨bs, hmatched⟩ := project_run hrun haccepted hjob
  exact Machine.history_reachable (C := fun _ _ => True) (H := Account job id)
    ⟨.init depth id job, .init depth, Or.inl ⟨rfl, rfl, rfl⟩⟩
    (fun _ _ _ _ _ hs _ hstep => hs.step hregular hstep)
    (Machine.meets_of_forall fun _ _ _ => trivial) hmatched

end V2State

/-- In every run of the application, whatever else it serves, and for every cut of what has
been yielded so far: the client of a request decodes the first frames the engine has yielded
for this request, one for each line that has come, pixel for pixel; and when the request is
complete, its stream drained and the body read, these are all of them. -/
theorem response_frames {parses : P → Bool} {depth capacity : Nat} {as : List (Action P)}
    {log : List (Event P)} {s : V2State P}
    (hrun : (machine parses depth capacity).run (machine parses depth capacity).init as =
      some (log, s))
    {id : RequestId} {body : Body} (hbody : s.bodies id = some body)
    {limits : Limits} (hread : 0 < limits.readDepth) {outputs : List (EngineOutput × Double)}
    {raises : Bool} {marker : List UInt8}
    (hjob : ∀ run, s.runs id = some run → run.job = jobOf limits outputs raises marker)
    (hnumbered : Numbered outputs) (hpicture : ∀ x ∈ outputs, x.1.IsPicture)
    (hlatency : ∀ x ∈ outputs, x.2.Regular)
    {chunks : List (List UInt8)} (hchunks : chunks.flatten <+: yielded body.stream log) :
    (∃ out, (readBody limits chunks).result = .ok out) ∧
      (readBody limits chunks).state.map seenFrame =
        ((outputs.map sentOf).take (chunks.flatten.countP endsLine)).map (fun x => some x.seen) ∧
      (s.router.inner.state id = some .complete →
        Drained body.stream (log.filterMap routed) s.router →
        chunks.flatten = yielded body.stream log →
          chunks.flatten.countP endsLine = outputs.length) := by
  have haccepted := (V2State.Inv.run hrun).responding id body hbody
  have haccount := V2State.account (regular_jobOf hnumbered) hrun haccepted hjob
  have hstream : (s.project id).stream = some body.stream := by
    unfold V2State.project
    rw [hbody]
    rfl
  obtain ⟨hreceived, hall⟩ := haccount.received hstream
  rw [lines_jobOf] at hreceived hall
  -- what has been received are the lines of the first `n` frames
  obtain ⟨n, hn⟩ : ∃ n, (payloadsOn body.stream (log.filterMap routed)).length = n := ⟨_, rfl⟩
  have hencoded : ((outputs.map sentOf).take n).map (Sent.line limits) =
      (payloadsOn body.stream (log.filterMap routed)).map some := by
    have htake := List.prefix_iff_eq_take.mp hreceived
    rw [List.length_map, hn] at htake
    rw [List.map_take, htake]
  have hsent : ∀ x ∈ (outputs.map sentOf).take n, x.latencyMs.Regular ∧ x.IsPicture := by
    intro x hx
    obtain ⟨output, houtput, rfl⟩ := List.mem_map.mp (List.mem_of_mem_take hx)
    exact ⟨hlatency output houtput, hpicture output houtput⟩
  obtain ⟨parsed, hdecode, hlines, hseen⟩ := Sent.decoded hread hencoded
    (fun x hx => (hsent x hx).1) fun x hx => (hsent x hx).2
  obtain ⟨hok, hstate, hwhole⟩ := readBody_lines hdecode hlines hchunks
  have hcount : chunks.flatten.countP endsLine ≤ n := by
    have hle := hchunks.sublist.countP_le (p := endsLine)
    rwa [yielded, count_responseBody hlines, hn] at hle
  refine ⟨hok, ?_, ?_⟩
  · rw [hstate, List.map_take, hseen, ← List.map_take, List.take_take, Nat.min_eq_left hcount]
  · intro hcomplete hdrained hread'
    have hlength := congrArg List.length (hall hcomplete hdrained)
    rw [List.length_map, List.length_map, List.length_map, hn] at hlength
    rw [(hwhole hread').2, hn, hlength]

/-- Two frames of different sizes. -/
def twoOutputs : List (EngineOutput × Double) :=
  [(⟨0, 2, ⟨[1, 1, 3], [9, 0, 128], rfl⟩⟩, .finite false 0 0),
    (⟨1, 2, ⟨[1, 2, 3], [4, 5, 6, 255, 1, 7], rfl⟩⟩, .finite false 0 0)]

/-- A single frame. -/
def oneOutput : List (EngineOutput × Double) := [(onePixelFrame, onePixel.latencyMs)]

/-- The items of two requests whose engine yields these frames. -/
def jobsInTurn : Job × Job :=
  (jobOf ⟨8, 8, 8⟩ twoOutputs false [], jobOf ⟨8, 8, 8⟩ oneOutput false [])

/-- Two requests are answered with their streams.  The driver serves the one, which is read
frame by frame to its end, and then the other. -/
def servedInTurn (jobs : Job × Job) : List (Action Nat) :=
  startedResponse ++ [.arrive ⟨⟨"b"⟩, .normal⟩ 8, .handle 2, .handle 2, .call (.ensureOpen 2),
    .call (.enter 2), .handle 2, .handle 2, .handle 2, .handle 3, .call (.ensureOpen 3),
    .handle 3, .resume ⟨"b"⟩,
    .checkStop, .fetch jobs.1, .drive .advance, .drive .advance, .drive .advance,
    .launch ⟨"a"⟩ 4, .call (.ensureOpen 4), .call (.enter 4), .call (.send 4), .drive .advance,
    .receive ⟨"a"⟩, .resume ⟨"a"⟩, .drive .advance, .drive .advance, .drive .advance,
    .launch ⟨"a"⟩ 5, .call (.ensureOpen 5), .call (.enter 5), .call (.send 5),
    .call (.complete 5), .drive .advance, .receive ⟨"a"⟩, .resume ⟨"a"⟩, .receive ⟨"a"⟩,
    .drive .advance, .finish,
    .checkStop, .fetch jobs.2, .drive .advance, .drive .advance, .drive .advance,
    .launch ⟨"b"⟩ 6, .call (.ensureOpen 6), .call (.enter 6), .call (.send 6),
    .call (.complete 6), .drive .advance, .receive ⟨"b"⟩]

/-- What the run comes to, whatever the lines of the frames are. -/
theorem servedInTurn_run (first second other : List UInt8) : ∃ log s body body',
    (machine (fun _ : Nat => true) 4 2).run (machine (fun _ : Nat => true) 4 2).init
        (servedInTurn (⟨true, 2, [⟨0, 2, some first⟩, ⟨1, 2, some second⟩], false, []⟩,
          ⟨true, 1, [⟨0, 1, some other⟩], false, []⟩)) = some (log, s) ∧
      s.bodies ⟨"a"⟩ = some body ∧ s.bodies ⟨"b"⟩ = some body' ∧
      (∀ run, s.runs ⟨"a"⟩ = some run →
        run.job = ⟨true, 2, [⟨0, 2, some first⟩, ⟨1, 2, some second⟩], false, []⟩) ∧
      (∀ run, s.runs ⟨"b"⟩ = some run → run.job = ⟨true, 1, [⟨0, 1, some other⟩], false, []⟩) ∧
      yielded body.stream log = wireLine first ++ wireLine second ∧
      yielded body'.stream log = wireLine other := by
  refine ⟨_, _, _, _, rfl, rfl, rfl, ?_, ?_, ?_, ?_⟩
  · rintro run ⟨⟩
    rfl
  · rintro run ⟨⟩
    rfl
  · exact (List.append_assoc _ _ _).symm.trans (List.append_nil _)
  · exact List.append_nil _

/-- The first client has one frame when its response breaks off inside the second line, and
both when it goes on; the second client has its own. -/
theorem servedInTurn_seen : ∃ log s body body' begun rest,
    (machine (fun _ : Nat => true) 4 2).run (machine (fun _ : Nat => true) 4 2).init
        (servedInTurn jobsInTurn) = some (log, s) ∧
      s.bodies ⟨"a"⟩ = some body ∧ s.bodies ⟨"b"⟩ = some body' ∧
      begun ++ rest = yielded body.stream log ∧
      (readBody ⟨8, 8, 8⟩ [begun]).state.map seenFrame =
        (twoOutputs.take 1).map (fun x => some (sentOf x).seen) ∧
      (readBody ⟨8, 8, 8⟩ [begun, rest]).state.map seenFrame =
        twoOutputs.map (fun x => some (sentOf x).seen) ∧
      (readBody ⟨8, 8, 8⟩ [yielded body'.stream log]).state.map seenFrame =
        oneOutput.map (fun x => some (sentOf x).seen) := by
  have hencoded : ∀ i : Fin 2, ((sentOf (twoOutputs.get i)).line ⟨8, 8, 8⟩).isSome = true := by
    decide +kernel
  obtain ⟨first, hfirst⟩ := Option.isSome_iff_exists.mp (hencoded 0)
  obtain ⟨second, hsecond⟩ := Option.isSome_iff_exists.mp (hencoded 1)
  obtain ⟨other, hother⟩ : ∃ line, onePixel.line ⟨8, 8, 8⟩ = some line :=
    Option.isSome_iff_exists.mp (by decide +kernel)
  have hjobs : jobsInTurn = (⟨true, 2, [⟨0, 2, some first⟩, ⟨1, 2, some second⟩], false, []⟩,
      ⟨true, 1, [⟨0, 1, some other⟩], false, []⟩) := by
    rw [← hfirst, ← hsecond, ← hother]
    rfl
  obtain ⟨log, s, body, body', hrun, hbody, hbody', hruns, hruns', htext, htext'⟩ :=
    servedInTurn_run first second other
  rw [← hjobs] at hrun
  have hnumbered : Numbered twoOutputs := by
    rintro (_ | _ | j) output hget
    · cases hget
      exact ⟨rfl, rfl⟩
    · cases hget
      exact ⟨rfl, rfl⟩
    · cases hget
  have hnumbered' : Numbered oneOutput := by
    rintro (_ | j) output hget
    · cases hget
      exact ⟨rfl, rfl⟩
    · cases hget
  have hpicture : ∀ x ∈ twoOutputs, x.1.IsPicture :=
    List.forall_mem_cons.mpr ⟨⟨1, 1, rfl⟩, List.forall_mem_singleton.mpr ⟨1, 2, rfl⟩⟩
  have hlatency : ∀ x ∈ twoOutputs, x.2.Regular :=
    List.forall_mem_cons.mpr ⟨Or.inl ⟨rfl, rfl⟩, List.forall_mem_singleton.mpr (Or.inl ⟨rfl, rfl⟩)⟩
  have hjob : ∀ run, s.runs ⟨"a"⟩ = some run → run.job = jobOf ⟨8, 8, 8⟩ twoOutputs false [] :=
    fun run hrun' => (hruns run hrun').trans (congrArg Prod.fst hjobs).symm
  have hjob' : ∀ run, s.runs ⟨"b"⟩ = some run → run.job = jobOf ⟨8, 8, 8⟩ oneOutput false [] :=
    fun run hrun' => (hruns' run hrun').trans (congrArg Prod.snd hjobs).symm
  have hcut : wireLine first ++ second.take 9 ++ (second.drop 9 ++ [newlineByte]) =
      yielded body.stream log := by
    rw [htext, List.append_assoc, ← List.append_assoc (second.take 9), List.take_append_drop]
    rfl
  have hone : (wireLine first ++ second.take 9).countP endsLine = 1 :=
    count_brokenOff (Sent.one_line hfirst) (Sent.one_line hsecond) 9
  have htwo : (yielded body.stream log).countP endsLine = 2 := by
    rw [htext, List.countP_append, count_wireLine (Sent.one_line hfirst),
      count_wireLine (Sent.one_line hsecond)]
  have hwhole : [wireLine first ++ second.take 9, second.drop 9 ++ [newlineByte]].flatten =
      yielded body.stream log := by
    rw [← hcut]
    simp
  have hbegun : [wireLine first ++ second.take 9].flatten <+: yielded body.stream log :=
    ⟨second.drop 9 ++ [newlineByte], by rw [List.flatten_singleton, hcut]⟩
  have hread' : [yielded body'.stream log].flatten <+: yielded body'.stream log :=
    ⟨[], by simp⟩
  obtain ⟨-, hbroken, -⟩ := response_frames hrun hbody (by decide) hjob hnumbered hpicture
    hlatency hbegun
  obtain ⟨-, hseen, -⟩ := response_frames hrun hbody (by decide) hjob hnumbered hpicture
    hlatency ⟨[], (List.append_nil _).trans hwhole⟩
  obtain ⟨-, hseen', -⟩ := response_frames hrun hbody' (by decide) hjob' hnumbered'
    (List.forall_mem_singleton.mpr ⟨1, 1, rfl⟩)
    (List.forall_mem_singleton.mpr (Or.inl ⟨rfl, rfl⟩)) hread'
  refine ⟨log, s, body, body', _, _, hrun, hbody, hbody', hcut, ?_, ?_, ?_⟩
  · rw [hbroken, List.flatten_singleton, hone]
    rfl
  · rw [hseen, hwhole, htwo]
    rfl
  · rw [hseen', List.flatten_singleton, htext', count_wireLine (Sent.one_line hother)]
    rfl

end Repercep.Serving.V2
