import Repercep.Metering.Proxy
set_option autoImplicit false

/-!
# Metering: several sinks on one proxy

The model of `LlmProxy.attach_call_sink` and of the call of the composed sink in
`LlmProxy._emit` (`serving/llm_proxy.py`).  A sink attached to a proxy that has one
already is composed with it by a closure that calls the two in turn; the guard against
what a sink raises is outside the whole composition.  So the sinks after one that
raises are skipped, and only an `Exception` is kept from the request.
-/

namespace Repercep.Metering

/-- What a sink raises. -/
inductive SinkRaise where
  /-- `Exception` and its subclasses -/
  | exception (kind : String)
  /-- the rest of `BaseException`: `KeyboardInterrupt`, `SystemExit`, … -/
  | baseException (kind : String)
  deriving DecidableEq, Repr

/-- What `self._on_call` can be: the sinks in the order of their attachment, or the
closure `_both` over two of them. -/
inductive CallSink where
  | given (i : Nat)
  | both (existing sink : CallSink)
  deriving DecidableEq, Repr

/-- One call of one attached sink. -/
structure Handed (ρ : Type) where
  sink : Nat
  request : ρ
  record : CallRecord
  deriving DecidableEq, Repr

variable {ρ : Type}

/-- The call of a sink, where `raises i` is what the attached sink `i` raises on this
emission: the attached sinks it reaches, and what it raises. -/
def CallSink.call (raises : Nat → Option SinkRaise) (request : ρ) (record : CallRecord) :
    CallSink → List (Handed ρ) × Option SinkRaise
  | .given i => ([⟨i, request, record⟩], raises i)
  | .both existing sink =>
      match existing.call raises request record with
      | (handed, some e) => (handed, some e)
      | (handed, none) =>
          ((handed ++ (sink.call raises request record).1),
            (sink.call raises request record).2)

/-- The proxy, as far as its metering goes. -/
structure LlmProxy where
  onCall : Option CallSink
  deriving DecidableEq, Repr

/-- `attach_call_sink`. -/
def LlmProxy.attachCallSink (p : LlmProxy) (sink : CallSink) : LlmProxy :=
  match p.onCall with
  | none => { p with onCall := some sink }
  | some existing => { p with onCall := some (.both existing sink) }

/-- The guard of `_emit`: it catches an `Exception`. -/
def caught : Option SinkRaise → Option SinkRaise
  | some (.exception _) => none
  | raised => raised

@[simp] theorem caught_none : caught none = none := rfl

/-- `_emit`: the attached sinks that are handed the record, and what reaches the
request. -/
def LlmProxy.emit (p : LlmProxy) (raises : Nat → Option SinkRaise) (request : ρ)
    (record : CallRecord) : List (Handed ρ) × Option SinkRaise :=
  match p.onCall with
  | none => ([], none)
  | some onCall =>
      ((onCall.call raises request record).1,
        caught (onCall.call raises request record).2)

/-- A proxy with `n` sinks attached one after the other. -/
def LlmProxy.attached : Nat → LlmProxy
  | 0 => ⟨none⟩
  | n + 1 => (attached n).attachCallSink (.given n)

/-- A sequence of emissions, where `raises i k` is what the sink `i` raises on the one
with `k` emissions before it: the calls of the sinks in order, and what reaches the
request of each emission. -/
def LlmProxy.emitAll (p : LlmProxy) (raises : Nat → Nat → Option SinkRaise) :
    List (ρ × CallRecord) → List (Handed ρ) × List (Option SinkRaise)
  | [] => ([], [])
  | (request, record) :: rest =>
      let one := p.emit (fun i => raises i 0) request record
      let more := p.emitAll (fun i k => raises i (k + 1)) rest
      (one.1 ++ more.1, one.2 :: more.2)

@[simp] theorem LlmProxy.emit_unattached (raises : Nat → Option SinkRaise) (request : ρ)
    (record : CallRecord) : (LlmProxy.attached 0).emit raises request record = ([], none) := rfl

@[simp] theorem LlmProxy.emitAll_nil (p : LlmProxy) (raises : Nat → Nat → Option SinkRaise) :
    p.emitAll raises ([] : List (ρ × CallRecord)) = ([], []) := rfl

theorem LlmProxy.emitAll_cons (p : LlmProxy) (raises : Nat → Nat → Option SinkRaise)
    (e : ρ × CallRecord) (rest : List (ρ × CallRecord)) :
    p.emitAll raises (e :: rest) =
      ((p.emit (fun i => raises i 0) e.1 e.2).1 ++
          (p.emitAll (fun i k => raises i (k + 1)) rest).1,
        (p.emit (fun i => raises i 0) e.1 e.2).2 ::
          (p.emitAll (fun i k => raises i (k + 1)) rest).2) := rfl

/-- What the sink `i` is handed in a sequence of calls. -/
def received (i : Nat) (handed : List (Handed ρ)) : List (ρ × CallRecord) :=
  (handed.filter (·.sink = i)).map fun h => (h.request, h.record)

@[simp] theorem received_nil (i : Nat) : received i ([] : List (Handed ρ)) = [] := rfl

@[simp] theorem received_append (i : Nat) (as bs : List (Handed ρ)) :
    received i (as ++ bs) = received i as ++ received i bs := by
  simp [received]

@[simp] theorem received_singleton (i j : Nat) (request : ρ) (record : CallRecord) :
    received i [⟨j, request, record⟩] = if j = i then [(request, record)] else [] := by
  by_cases hji : j = i
  · simp [received, hji]
  · simp [received, hji]

/-! ## One emission -/

/-- No sink attached before the sink `i` raises. -/
def Reached (raises : Nat → Option SinkRaise) (i : Nat) : Prop :=
  ∀ j < i, raises j = none

theorem Reached.succ {raises : Nat → Option SinkRaise} {n : Nat} :
    Reached raises (n + 1) ↔ Reached raises n ∧ raises n = none := by
  constructor
  · intro h
    exact ⟨fun j hj => h j (Nat.lt_succ_of_lt hj), h n (Nat.lt_succ_self n)⟩
  · intro h j hj
    cases Nat.lt_succ_iff_lt_or_eq.mp hj with
    | inl hlt => exact h.1 j hlt
    | inr heq => exact heq ▸ h.2

theorem Reached.mono {raises : Nat → Option SinkRaise} {m n : Nat}
    (h : Reached raises n) (hmn : m ≤ n) : Reached raises m :=
  fun j hj => h j (Nat.lt_of_lt_of_le hj hmn)

instance Reached.decidable (raises : Nat → Option SinkRaise) (n : Nat) :
    Decidable (Reached raises n) :=
  inferInstanceAs (Decidable (∀ j < n, raises j = none))

/-- The composition of the sinks `0, …, n`. -/
def CallSink.chain : Nat → CallSink
  | 0 => .given 0
  | n + 1 => .both (chain n) (.given (n + 1))

theorem LlmProxy.attached_succ (n : Nat) :
    LlmProxy.attached (n + 1) = ⟨some (CallSink.chain n)⟩ := by
  induction n with
  | zero => rfl
  | succ n ih =>
      rw [attached, ih]
      rfl

/-- What a chain of sinks does with one record: a sink of the chain is handed it, once,
exactly when the sinks before it return, and the chain returns exactly when all do. -/
structure Chained (raises : Nat → Option SinkRaise) (n : Nat) (request : ρ)
    (record : CallRecord) (outcome : List (Handed ρ) × Option SinkRaise) : Prop where
  received_eq : ∀ i,
    received i outcome.1 =
      if i < n ∧ Reached raises i then [(request, record)] else []
  quiet : outcome.2 = none ↔ Reached raises n
  raised : ∀ i < n, Reached raises i → raises i ≠ none → outcome.2 = raises i

/-- A chain that raised is left as it is by a sink composed behind it. -/
theorem Chained.stopped {raises : Nat → Option SinkRaise} {n : Nat} {request : ρ}
    {record : CallRecord} {handed : List (Handed ρ)} {e : SinkRaise}
    (h : Chained raises n request record (handed, some e)) :
    Chained raises (n + 1) request record (handed, some e) := by
  have hstops : ¬ Reached raises n := fun hreached => by
    have hnone := h.quiet.mpr hreached
    cases hnone
  have hmoot : ∀ i, i < n + 1 → Reached raises i → i < n := by
    intro i hi hreached
    apply Nat.lt_of_le_of_ne (Nat.lt_succ_iff.mp hi)
    intro heq
    exact hstops (heq ▸ hreached)
  constructor
  · intro i
    rw [h.received_eq i]
    have hiff : (i < n ∧ Reached raises i) ↔ (i < n + 1 ∧ Reached raises i) :=
      ⟨fun hi => ⟨Nat.lt_succ_of_lt hi.1, hi.2⟩, fun hi => ⟨hmoot i hi.1 hi.2, hi.2⟩⟩
    simp only [hiff]
  · constructor
    · intro hnone
      cases hnone
    · intro hreached
      exact absurd (Reached.succ.mp hreached).1 hstops
  · intro i hi hreached
    exact h.raised i (hmoot i hi hreached) hreached

/-- A chain that returned hands the record on to the sink composed behind it. -/
theorem Chained.handsOn {raises : Nat → Option SinkRaise} {n : Nat} {request : ρ}
    {record : CallRecord} {handed : List (Handed ρ)}
    (h : Chained raises n request record (handed, none)) :
    Chained raises (n + 1) request record
      (handed ++ [⟨n, request, record⟩], raises n) := by
  have hreached : Reached raises n := h.quiet.mp rfl
  constructor
  · intro i
    rw [received_append, received_singleton, h.received_eq i]
    rcases Nat.lt_trichotomy i n with hlt | heq | hgt
    · have hi : Reached raises i := hreached.mono (Nat.le_of_lt hlt)
      simp [hlt, hi, Nat.ne_of_gt hlt, Nat.lt_succ_of_lt hlt]
    · subst heq
      simp [hreached]
    · have hne : n ≠ i := Nat.ne_of_lt hgt
      have hout : ¬ i < n + 1 := by omega
      simp [hne, hout, Nat.lt_asymm hgt]
  · rw [Reached.succ]
    exact ⟨fun hn => ⟨hreached, hn⟩, fun hn => hn.2⟩
  · intro i hi _ hraises
    cases Nat.lt_succ_iff_lt_or_eq.mp hi with
    | inl hlt => exact absurd (hreached i hlt) hraises
    | inr heq => exact heq ▸ rfl

theorem CallSink.chained (raises : Nat → Option SinkRaise) (request : ρ)
    (record : CallRecord) (n : Nat) :
    Chained raises (n + 1) request record
      ((CallSink.chain n).call raises request record) := by
  induction n with
  | zero =>
      constructor
      · intro i
        change received i [⟨0, request, record⟩] = _
        rw [received_singleton]
        by_cases hi : i = 0
        · simp [hi, Reached]
        · simp [hi, Ne.symm hi]
      · change raises 0 = none ↔ _
        simp [Reached]
      · intro i hi _ _
        have hzero : i = 0 := by omega
        rw [hzero]
        rfl
  | succ n ih =>
      rw [chain, call]
      cases hcall : (chain n).call raises request record with
      | mk handed raised =>
          rw [hcall] at ih
          cases raised with
          | some e => exact ih.stopped
          | none => exact ih.handsOn

theorem exists_first_of_not_reached {raises : Nat → Option SinkRaise} {n : Nat}
    (h : ¬ Reached raises n) : ∃ i < n, Reached raises i ∧ raises i ≠ none := by
  induction n with
  | zero => exact absurd (fun j hj => absurd hj (Nat.not_lt_zero j)) h
  | succ n ih =>
      by_cases hn : Reached raises n
      · exact ⟨n, Nat.lt_succ_self n, hn, fun hnone => h (Reached.succ.mpr ⟨hn, hnone⟩)⟩
      · obtain ⟨i, hi, hreached, hraises⟩ := ih hn
        exact ⟨i, Nat.lt_succ_of_lt hi, hreached, hraises⟩

/-! ## The emission of a proxy -/

theorem LlmProxy.emit_received (raises : Nat → Option SinkRaise) (request : ρ)
    (record : CallRecord) (n i : Nat) :
    received i ((LlmProxy.attached n).emit raises request record).1 =
      if i < n ∧ Reached raises i then [(request, record)] else [] := by
  cases n with
  | zero => simp
  | succ n =>
      rw [attached_succ]
      exact (CallSink.chained raises request record n).received_eq i

/-- Nothing reaches the request exactly when no sink that is called raises outside
`Exception`. -/
theorem LlmProxy.emit_contained (raises : Nat → Option SinkRaise) (request : ρ)
    (record : CallRecord) (n : Nat) :
    ((LlmProxy.attached n).emit raises request record).2 = none ↔
      ∀ i < n, Reached raises i → caught (raises i) = none := by
  cases n with
  | zero => simp
  | succ n =>
      have hchain := CallSink.chained raises request record n
      rw [attached_succ]
      change caught ((CallSink.chain n).call raises request record).2 = none ↔ _
      constructor
      · intro hcaught i hi hreached
        by_cases hraises : raises i = none
        · rw [hraises, caught_none]
        · rw [← hchain.raised i hi hreached hraises]
          exact hcaught
      · intro hall
        by_cases hreached : Reached raises (n + 1)
        · rw [hchain.quiet.mpr hreached, caught_none]
        · obtain ⟨i, hi, hbefore, hraises⟩ := exists_first_of_not_reached hreached
          rw [hchain.raised i hi hbefore hraises]
          exact hall i hi hbefore

/-! ## Sequences of emissions -/

theorem LlmProxy.emitAll_received_cons (raises : Nat → Nat → Option SinkRaise)
    (n i : Nat) (hi : i < n) (e : ρ × CallRecord) (rest : List (ρ × CallRecord)) :
    received i ((LlmProxy.attached n).emitAll raises (e :: rest)).1 =
      (if Reached (fun j => raises j 0) i then [e] else []) ++
        received i ((LlmProxy.attached n).emitAll (fun j k => raises j (k + 1)) rest).1 := by
  rw [emitAll_cons, received_append, emit_received]
  simp only [hi, true_and]

theorem LlmProxy.emitAll_received_length (raises : Nat → Nat → Option SinkRaise)
    (n i : Nat) (hi : i < n) (emissions : List (ρ × CallRecord)) :
    (received i ((LlmProxy.attached n).emitAll raises emissions).1).length ≤
      emissions.length := by
  induction emissions generalizing raises with
  | nil => simp
  | cons e rest ih =>
      rw [emitAll_received_cons raises n i hi, List.length_append, List.length_cons]
      have hrest := ih fun j k => raises j (k + 1)
      split <;> simp <;> omega

/-- A sink receives every record of a sequence, once and in order, exactly when no sink
attached before it raises on any of them. -/
theorem LlmProxy.emitAll_received (raises : Nat → Nat → Option SinkRaise) (n i : Nat)
    (hi : i < n) (emissions : List (ρ × CallRecord)) :
    received i ((LlmProxy.attached n).emitAll raises emissions).1 = emissions ↔
      ∀ m < emissions.length, Reached (fun j => raises j m) i := by
  induction emissions generalizing raises with
  | nil => simp
  | cons e rest ih =>
      rw [emitAll_received_cons raises n i hi, List.length_cons,
        Nat.forall_lt_succ_left]
      rw [← ih fun j k => raises j (k + 1)]
      by_cases hreached : Reached (fun j => raises j 0) i
      · simp [hreached]
      · have hlength := emitAll_received_length (fun j k => raises j (k + 1)) n i hi rest
        have hshort : received i
            ((LlmProxy.attached n).emitAll (fun j k => raises j (k + 1)) rest).1 ≠ e :: rest := by
          intro heq
          rw [heq, List.length_cons] at hlength
          omega
        simp [hreached, hshort]

/-- Nothing reaches any request of a sequence exactly when no sink that is called
raises outside `Exception`. -/
theorem LlmProxy.emitAll_contained (raises : Nat → Nat → Option SinkRaise) (n : Nat)
    (emissions : List (ρ × CallRecord)) :
    (∀ raised ∈ ((LlmProxy.attached n).emitAll raises emissions).2, raised = none) ↔
      ∀ m < emissions.length, ∀ i < n, Reached (fun j => raises j m) i →
        caught (raises i m) = none := by
  induction emissions generalizing raises with
  | nil => simp
  | cons e rest ih =>
      rw [emitAll_cons, List.length_cons, Nat.forall_lt_succ_left]
      simp only [List.forall_mem_cons]
      rw [← ih fun j k => raises j (k + 1), emit_contained]

/-- Call sinks are independent on a sequence of emissions, every sink receiving every
record once and in order and no request being broken, exactly when on each of them no
sink but the one attached last raises, and that one nothing but an `Exception`. -/
theorem LlmProxy.callSinks_independent_iff (n : Nat)
    (raises : Nat → Nat → Option SinkRaise) (emissions : List (ρ × CallRecord)) :
    ((∀ i < n, received i ((attached n).emitAll raises emissions).1 = emissions) ∧
        ∀ raised ∈ ((attached n).emitAll raises emissions).2, raised = none) ↔
      ∀ m < emissions.length, ∀ i < n,
        (i + 1 < n → raises i m = none) ∧ (i + 1 = n → caught (raises i m) = none) := by
  rw [emitAll_contained]
  constructor
  · intro h m hm i hi
    obtain ⟨hreceived, hcontained⟩ := h
    have hreached : ∀ j < n, Reached (fun j => raises j m) j := by
      intro j hj
      exact (emitAll_received raises n j hj emissions).mp (hreceived j hj) m hm
    constructor
    · intro hnext
      exact hreached (i + 1) hnext i (Nat.lt_succ_self i)
    · intro _
      exact hcontained m hm i hi (hreached i hi)
  · intro h
    have hreached : ∀ m < emissions.length, ∀ i < n,
        Reached (fun j => raises j m) i := by
      intro m hm i hi j hj
      exact (h m hm j (Nat.lt_trans hj hi)).1 (by omega)
    constructor
    · intro i hi
      apply (emitAll_received raises n i hi emissions).mpr
      intro m hm
      exact hreached m hm i hi
    · intro m hm i hi _
      obtain ⟨hbefore, hlast⟩ := h m hm i hi
      cases Nat.lt_or_eq_of_le (Nat.succ_le_of_lt hi) with
      | inl hnext => rw [hbefore hnext, caught_none]
      | inr heq => exact hlast heq

/-- One sink that always fails takes every record from the sink attached after it. -/
theorem LlmProxy.failing_sink_starves :
    ¬ ∀ (n : Nat) (raises : Nat → Nat → Option SinkRaise)
        (emissions : List (Unit × CallRecord)),
      (∀ i < n, received i ((attached n).emitAll raises emissions).1 = emissions) ∧
        ∀ raised ∈ ((attached n).emitAll raises emissions).2, raised = none := by
  intro h
  have hbilled := (h 2 (fun i _ => if i = 0 then some (.exception "ValueError") else none)
    [((), ⟨"/v1/completions", "m", 3, 5, true, 200⟩)]).1 1 (by decide)
  revert hbilled
  decide

end Repercep.Metering
