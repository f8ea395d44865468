import Mathlib
import Repercep.Ledger.Views
import Repercep.Metering.Proxy
import Repercep.Tenancy.Resolution
set_option autoImplicit false

/-!
# The metered gateway

`create_app` of `serving/app.py` with a key store, a usage ledger and a proxy, and perhaps a
shared token.  Operators mint and revoke keys; a request is authenticated, checked against its
quota, forwarded and recorded for whom it was authenticated as, or answered with the caller's
own usage.  The key store and the ledger are locked within each query, not between two of
them: requests, operators and the clock take their steps in any order.
-/

namespace Repercep.Tenants

open Repercep.Foundation Repercep.Tenancy Repercep.Ledger

/-! ## Requests -/

/-- A request, under way or answered. -/
structure CallId where
  val : Nat
  deriving DecidableEq, Repr

/-- How far a request has come, and whom it was resolved to. -/
inductive Call where
  | resolved (principal : Principal)
  /-- `month_start()` has been read, the ledger not yet -/
  | asking (principal : Principal) (quota : Int) (since : Tenancy.Text)
  | admitted (principal : Principal)
  /-- with the upstream -/
  | forwarded (principal : Principal)
  | ended
  deriving DecidableEq, Repr

/-- Whom a request was resolved to, while it is under way. -/
def Call.principal? : Call → Option Principal
  | .resolved principal | .asking principal _ _ | .admitted principal
  | .forwarded principal => some principal
  | .ended => none

/-- What an operator, the clock, a client or the upstream does next. -/
inductive Action where
  | create (mint : Mint) (customer label : Tenancy.Text) (monthlyTokenQuota : Option Int)
  | revoke (keyId : Tenancy.Text)
  | tick (now : UtcTime)
  | arrive (c : CallId) (authorization : Option Tenancy.Text)
  | monthStart (c : CallId)
  /-- `rejects` is the comparison with the quota where the total is a double -/
  | check (c : CallId) (rejects : Bool)
  | forward (c : CallId)
  /-- the proxy reports what the call cost -/
  | record (c : CallId) (record : Metering.CallRecord)
  /-- the handler of `/v1/usage` -/
  | usage (c : CallId)
  /-- any other end of a request -/
  | finish (c : CallId)

/-- What the gateway did: to its keys, to a request, or to the ledger. -/
inductive Event where
  | store (keyId : Tenancy.Text) (e : KeyEvent)
  | asked (c : CallId) (fullKey : Tenancy.Text) (result : Option Principal)
  | refused (c : CallId) (refusal : Refusal)
  /-- status 429; no total where it is a double -/
  | quotaExhausted (c : CallId) (spent : Option Int) (quota : Int)
  /-- status 500 -/
  | failed (c : CallId) (error : String)
  | billed (c : CallId) (event : UsageEvent)
  /-- the ledger refuses an integer, and `_emit` only logs it -/
  | unbilled (c : CallId) (event : UsageEvent)
  | reported (c : CallId) (principal : Principal) (report : Answer UsageReport)
  deriving DecidableEq

/-! ## The gateway -/

variable {D : Type} [DecidableEq D] {hash : Tenancy.Text → D}

theorem KeyStore.step_isSome (s : KeyStore D) (call : KeyCall) :
    (s.step hash call).isSome = true := by
  cases call with
  | create mint customer label quota now =>
      rw [KeyStore.step]
      rcases s.create hash mint customer label quota now with ⟨_ | ⟨_, _⟩, _⟩ <;> rfl
  | _ => rfl

/-- A call on a store. -/
def ReachedStore.step (s : ReachedStore hash) (call : KeyCall) :
    List KeyEvent × ReachedStore hash :=
  match hstep : s.val.step hash call with
  | none => ([], s)
  | some (es, t) => (es, ⟨t, by
      obtain ⟨calls, log, hrun⟩ := s.property
      exact ⟨calls ++ [call], log ++ es, Machine.run_snoc hrun hstep⟩⟩)

theorem ReachedStore.step_eq (s : ReachedStore hash) (call : KeyCall) :
    s.val.step hash call =
      some ((ReachedStore.step s call).1, (ReachedStore.step s call).2.val) := by
  unfold ReachedStore.step
  split
  · next hnone =>
      have hsome : (s.val.step hash call).isSome = true := KeyStore.step_isSome s.val call
      rw [hnone] at hsome
      cases hsome
  · next hstep => exact hstep

/-- The key store, the usage ledger, the clock and the requests. -/
structure Gateway (hash : Tenancy.Text → D) where
  keyStore : ReachedStore hash
  ledger : UsageLedger
  now : UtcTime
  calls : CallId → Option Call

/-- The event `_record_call` stores. -/
def usageEvent (principal : Principal) (record : Metering.CallRecord) : UsageEvent where
  keyId := String.ofList principal.keyId
  customer := String.ofList principal.customer
  route := record.route
  model := record.model
  promptTokens := record.promptTokens
  completionTokens := record.completionTokens
  exact := record.exact
  status := record.status

namespace Gateway

/-- A request has come further. -/
def advance (g : Gateway hash) (c : CallId) (call : Call) : Gateway hash :=
  { g with calls := Function.update g.calls c (some call) }

theorem advance_calls (g : Gateway hash) (c c' : CallId) (call : Call) :
    (g.advance c call).calls c' = if c' = c then some call else g.calls c' := by
  unfold advance
  exact Function.update_apply ..

/-- An operator's call. -/
def stored (g : Gateway hash) (keyId : Tenancy.Text) (call : KeyCall) :
    List Event × Gateway hash :=
  ((ReachedStore.step g.keyStore call).1.map (Event.store keyId),
    { g with keyStore := (ReachedStore.step g.keyStore call).2 })

/-- What a credential is resolved by. -/
def credentials (g : Gateway hash) (apiToken : Option Tenancy.Text) : Credentials hash :=
  ⟨some g.keyStore, apiToken⟩

/-- The question to the key store, if there is a credential. -/
def asks (g : Gateway hash) (c : CallId) (authorization : Option Tenancy.Text) : List Event :=
  (bearerOf authorization).toList.map fun bearer =>
    .asked c bearer (g.keyStore.val.authenticate hash bearer)

/-- `_require_api_token`, up to the quota check. -/
def arrive (apiToken : Option Tenancy.Text) (g : Gateway hash) (c : CallId)
    (authorization : Option Tenancy.Text) : List Event × Gateway hash :=
  match (g.credentials apiToken).requireApiToken authorization with
  | .error refusal => (g.asks c authorization ++ [.refused c refusal], g.advance c .ended)
  | .ok principal => (g.asks c authorization, g.advance c (.resolved principal))

/-- The comparison in `_check_quota`. -/
def check (g : Gateway hash) (c : CallId) (principal : Principal) (quota : Int)
    (since : Tenancy.Text) (rejects : Bool) : List Event × Gateway hash :=
  match g.ledger.tokensSince (some (String.ofList principal.keyId)) none since with
  | .answer spent =>
      if quota ≤ spent then ([.quotaExhausted c (some spent) quota], g.advance c .ended)
      else ([], g.advance c (.admitted principal))
  | .approximate =>
      if rejects then ([.quotaExhausted c none quota], g.advance c .ended)
      else ([], g.advance c (.admitted principal))
  | .raised error => ([.failed c error], g.advance c .ended)

/-- `_record_call`. -/
def record (g : Gateway hash) (c : CallId) (event : UsageEvent) : List Event × Gateway hash :=
  match g.ledger.record event g.now with
  | some ledger => ([.billed c event], { g.advance c .ended with ledger := ledger })
  | none => ([.unbilled c event], g.advance c .ended)

/-- One step of the gateway. -/
def step (apiToken : Option Tenancy.Text) (g : Gateway hash) :
    Action → Option (List Event × Gateway hash)
  | .create mint customer label monthlyTokenQuota =>
      some (g.stored mint.keyId
        (.create mint customer label monthlyTokenQuota (isoformat g.now)))
  | .revoke keyId => some (g.stored keyId (.revoke keyId (isoformat g.now)))
  | .tick now => some ([], { g with now := now })
  | .arrive c authorization =>
      match g.calls c with
      | none => some (g.arrive apiToken c authorization)
      | some _ => none
  | .monthStart c =>
      match g.calls c with
      | some (.resolved principal) =>
          match principal.monthlyTokenQuota with
          | none => some ([], g.advance c (.admitted principal))
          | some quota => some ([], g.advance c (.asking principal quota (monthStart g.now)))
      | _ => none
  | .check c rejects =>
      match g.calls c with
      | some (.asking principal quota since) => some (g.check c principal quota since rejects)
      | _ => none
  | .forward c =>
      match g.calls c with
      | some (.admitted principal) => some ([], g.advance c (.forwarded principal))
      | _ => none
  | .record c record =>
      match g.calls c with
      | some (.forwarded principal) => some (g.record c (usageEvent principal record))
      | _ => none
  | .usage c =>
      match g.calls c with
      | some (.admitted principal) =>
          some ([.reported c principal
            (Ledger.usage g.ledger (String.ofList principal.keyId) g.now)], g.advance c .ended)
      | _ => none
  | .finish c =>
      match g.calls c with
      | some (.admitted _) | some (.forwarded _) => some ([], g.advance c .ended)
      | _ => none

end Gateway

/-- The gateway with nothing in its store and its ledger. -/
def gateway (hash : Tenancy.Text → D) (apiToken : Option Tenancy.Text) (now : UtcTime) :
    Machine (Gateway hash) Action Event where
  init := ⟨⟨KeyStore.empty, [], [], rfl⟩, [], now, fun _ => none⟩
  step := Gateway.step apiToken

/-! ## What a step can do -/

/-- What an operator asks of the store, and about which key. -/
def Action.storeCall (now : UtcTime) : Action → Option (Tenancy.Text × KeyCall)
  | .create mint customer label monthlyTokenQuota =>
      some (mint.keyId, .create mint customer label monthlyTokenQuota (isoformat now))
  | .revoke keyId => some (keyId, .revoke keyId (isoformat now))
  | _ => none

namespace Gateway

variable {apiToken : Option Tenancy.Text} {g g' : Gateway hash} {a : Action} {es : List Event}

/-- The steps, with what they emit and where they lead. -/
inductive Moves (apiToken : Option Tenancy.Text) (g : Gateway hash) :
    Action → List Event → Gateway hash → Prop
  | stored {a : Action} {keyId : Tenancy.Text} {call : KeyCall}
      (hcall : a.storeCall g.now = some (keyId, call)) :
      Moves apiToken g a (g.stored keyId call).1 (g.stored keyId call).2
  | ticked {now : UtcTime} : Moves apiToken g (.tick now) [] { g with now := now }
  | refused {c : CallId} {authorization : Option Tenancy.Text} {refusal : Refusal}
      (hfree : g.calls c = none)
      (hresolve : (g.credentials apiToken).requireApiToken authorization = .error refusal) :
      Moves apiToken g (.arrive c authorization) (g.asks c authorization ++ [.refused c refusal])
        (g.advance c .ended)
  | resolved {c : CallId} {authorization : Option Tenancy.Text} {principal : Principal}
      (hfree : g.calls c = none)
      (hresolve : (g.credentials apiToken).requireApiToken authorization = .ok principal) :
      Moves apiToken g (.arrive c authorization) (g.asks c authorization)
        (g.advance c (.resolved principal))
  | unlimited {c : CallId} {principal : Principal}
      (hcall : g.calls c = some (.resolved principal))
      (hquota : principal.monthlyTokenQuota = none) :
      Moves apiToken g (.monthStart c) [] (g.advance c (.admitted principal))
  | limited {c : CallId} {principal : Principal} {quota : Int}
      (hcall : g.calls c = some (.resolved principal))
      (hquota : principal.monthlyTokenQuota = some quota) :
      Moves apiToken g (.monthStart c) [] (g.advance c (.asking principal quota (monthStart g.now)))
  | rejected {c : CallId} {principal : Principal} {quota : Int} {since : Tenancy.Text}
      {rejects : Bool} {e : Event} (hcall : g.calls c = some (.asking principal quota since))
      (he : (∃ spent, e = .quotaExhausted c spent quota) ∨ ∃ error, e = .failed c error) :
      Moves apiToken g (.check c rejects) [e] (g.advance c .ended)
  | passed {c : CallId} {principal : Principal} {quota : Int} {since : Tenancy.Text}
      {rejects : Bool} (hcall : g.calls c = some (.asking principal quota since)) :
      Moves apiToken g (.check c rejects) [] (g.advance c (.admitted principal))
  | forwarded {c : CallId} {principal : Principal}
      (hcall : g.calls c = some (.admitted principal)) :
      Moves apiToken g (.forward c) [] (g.advance c (.forwarded principal))
  | billed {c : CallId} {principal : Principal} {record : Metering.CallRecord}
      {ledger : UsageLedger} (hcall : g.calls c = some (.forwarded principal))
      (hrecord : g.ledger.record (usageEvent principal record) g.now = some ledger) :
      Moves apiToken g (.record c record) [.billed c (usageEvent principal record)]
        { g.advance c .ended with ledger := ledger }
  | unbilled {c : CallId} {principal : Principal} {record : Metering.CallRecord}
      (hcall : g.calls c = some (.forwarded principal))
      (hrecord : g.ledger.record (usageEvent principal record) g.now = none) :
      Moves apiToken g (.record c record) [.unbilled c (usageEvent principal record)]
        (g.advance c .ended)
  | reported {c : CallId} {principal : Principal}
      (hcall : g.calls c = some (.admitted principal)) :
      Moves apiToken g (.usage c) [.reported c principal
        (Ledger.usage g.ledger (String.ofList principal.keyId) g.now)] (g.advance c .ended)
  | finished {c : CallId} {principal : Principal}
      (hcall : g.calls c = some (.admitted principal) ∨
        g.calls c = some (.forwarded principal)) :
      Moves apiToken g (.finish c) [] (g.advance c .ended)

/-- The ledger grows by the event. -/
theorem ledger_of_record {rows ledger : UsageLedger} {event : UsageEvent} {now : UtcTime}
    (h : rows.record event now = some ledger) : ledger = rows ++ [⟨isoformat now, event⟩] := by
  unfold UsageLedger.record at h
  split at h
  · exact (Option.some.inj h).symm
  · cases h

/-- Who is let in has a live key or the shared token. -/
theorem resolved_cases {authorization : Option Tenancy.Text} {principal : Principal}
    (hresolve : (g.credentials apiToken).requireApiToken authorization = .ok principal) :
    ∃ bearer, bearerOf authorization = some bearer ∧
      (g.keyStore.val.authenticate hash bearer = some principal ∨
        (apiToken = some bearer ∧ principal = legacy)) := by
  have hresolved : (g.credentials apiToken).resolve (bearerOf authorization) =
      .ok (some principal) := by
    unfold Credentials.requireApiToken at hresolve
    split at hresolve
    · cases hresolve
    · cases hresolve
    · next hok =>
        cases hresolve
        exact hok
  unfold Credentials.resolve at hresolved
  rw [if_neg (by simp [Gateway.credentials])] at hresolved
  split at hresolved
  · cases hresolved
  · next bearer hbearer =>
      refine ⟨bearer, hbearer, ?_⟩
      split at hresolved
      · next hauth =>
          cases hresolved
          exact Or.inl hauth
      · split at hresolved
        · cases hresolved
        · next token htoken =>
            split at hresolved
            · cases hresolved
            · next hsame =>
                cases hresolved
                unfold compareDigest at hsame
                split at hsame
                · have heq : bearer = token := by simpa using hsame
                  exact Or.inr ⟨heq ▸ htoken, rfl⟩
                · cases hsame
            · cases hresolved

theorem check_moves {c : CallId} {principal : Principal} {quota : Int} {since : Tenancy.Text}
    {rejects : Bool} (hcall : g.calls c = some (.asking principal quota since))
    (h : g.check c principal quota since rejects = (es, g')) :
    Moves apiToken g (.check c rejects) es g' := by
  unfold check at h
  split at h
  · split at h
    · cases h
      exact .rejected hcall (Or.inl ⟨_, rfl⟩)
    · cases h
      exact .passed hcall
  · split at h
    · cases h
      exact .rejected hcall (Or.inl ⟨_, rfl⟩)
    · cases h
      exact .passed hcall
  · cases h
    exact .rejected hcall (Or.inr ⟨_, rfl⟩)

theorem stored_moves {keyId : Tenancy.Text} {call : KeyCall}
    (hcall : a.storeCall g.now = some (keyId, call)) (h : g.stored keyId call = (es, g')) :
    Moves apiToken g a es g' := by
  cases h
  exact .stored hcall

theorem step_moves (h : g.step apiToken a = some (es, g')) : Moves apiToken g a es g' := by
  cases a with
  | create mint customer label quota => exact stored_moves rfl (Option.some.inj h)
  | revoke keyId => exact stored_moves rfl (Option.some.inj h)
  | tick now =>
      cases h
      exact .ticked
  | arrive c authorization =>
      simp only [step] at h
      split at h
      · next hfree =>
          unfold arrive at h
          split at h
          · next hresolve =>
              cases h
              exact .refused hfree hresolve
          · next hresolve =>
              cases h
              exact .resolved hfree hresolve
      · cases h
  | monthStart c =>
      simp only [step] at h
      split at h
      · next hcall =>
          split at h
          · next hquota =>
              cases h
              exact .unlimited hcall hquota
          · next hquota =>
              cases h
              exact .limited hcall hquota
      · cases h
  | check c rejects =>
      simp only [step] at h
      split at h
      · next hcall => exact check_moves hcall (Option.some.inj h)
      · cases h
  | forward c =>
      simp only [step] at h
      split at h
      · next hcall =>
          cases h
          exact .forwarded hcall
      · cases h
  | record c record =>
      simp only [step] at h
      split at h
      · next hcall =>
          unfold Gateway.record at h
          split at h
          · next hrecord =>
              cases h
              exact .billed hcall hrecord
          · next hrecord =>
              cases h
              exact .unbilled hcall hrecord
      · cases h
  | usage c =>
      simp only [step] at h
      split at h
      · next hcall =>
          cases h
          exact .reported hcall
      · cases h
  | finish c =>
      simp only [step] at h
      split at h
      · next hcall =>
          cases h
          exact .finished (Or.inl hcall)
      · next hcall =>
          cases h
          exact .finished (Or.inr hcall)
      · cases h

end Gateway

end Repercep.Tenants
