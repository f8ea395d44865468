import Repercep.Foundation.Machine
import Mathlib.Logic.Function.Basic
import Mathlib.Tactic.Simps.Basic
set_option autoImplicit false

/-!
# Billing: quota checks and the usage ledger

The metered path of `serving/app.py` (`_require_api_token`, `_check_quota`,
`_record_call`) over the ledger of `serving/usage.py`.  A call is checked before it is
forwarded and recorded after its response has ended; the ledger is locked within each
of the two, not between them.  Any number of calls interleave.

Only the calendar month of a timestamp matters here, so the clock counts months.
Token counts are natural numbers.
-/

namespace Repercep.Billing

open Repercep.Foundation

/-- What the key store knows of a key. -/
structure KeyInfo where
  customer : String
  monthlyTokenQuota : Option Nat

/-- What one proxied call cost, as the proxy reports it. -/
structure CallRecord where
  route : String
  model : String
  promptTokens : Nat
  completionTokens : Nat
  exact : Bool
  status : Nat

/-- One billable call. -/
structure UsageEvent where
  keyId : String
  customer : String
  route : String
  model : String
  promptTokens : Nat
  completionTokens : Nat
  exact : Bool
  status : Nat
  deriving DecidableEq

/-- `total_tokens`. -/
def UsageEvent.totalTokens (e : UsageEvent) : Nat := e.promptTokens + e.completionTokens

/-- A row of the ledger: the event and the month of its timestamp. -/
structure Row where
  month : Nat
  event : UsageEvent

/-- The tokens of a list of events. -/
def total : List UsageEvent → Nat
  | [] => 0
  | e :: events => e.totalTokens + total events

theorem total_append (events events' : List UsageEvent) :
    total (events ++ events') = total events + total events' := by
  induction events with
  | nil => rw [List.nil_append, total, Nat.zero_add]
  | cons e events ih => rw [List.cons_append, total, total, ih, Nat.add_assoc]

@[simp] theorem total_nil : total [] = 0 := rfl

@[simp] theorem total_singleton (e : UsageEvent) : total [e] = e.totalTokens := by
  simp [total]

/-- The events of a key recorded since a month. -/
def eventsSince (ledger : List Row) (keyId : String) (since : Nat) : List UsageEvent :=
  (ledger.filter (fun row => row.event.keyId = keyId ∧ since ≤ row.month)).map Row.event

/-- `UsageLedger.tokens_since`. -/
def tokensSince (ledger : List Row) (keyId : String) (since : Nat) : Nat :=
  total (eventsSince ledger keyId since)

/-- A call, under way or answered. -/
abbrev CallId : Type := Nat

/-- How far a call has come.  `key` is the key its bearer token was resolved to. -/
inductive Call where
  /-- `_resolve` has returned -/
  | resolved (key : String)
  /-- `month_start()` has been read, the ledger not yet -/
  | asking (key : String) (since : Nat)
  /-- `_check_quota` has let the call pass -/
  | admitted (key : String)
  /-- the call is with the upstream -/
  | forwarded (key : String)
  | ended
  deriving DecidableEq

/-- One scheduled step. -/
inductive Action where
  | arrive (c : CallId) (key : String)
  | monthStart (c : CallId)
  | check (c : CallId)
  | forward (c : CallId)
  | record (c : CallId) (rec : CallRecord)
  /-- an admitted call that ends without a record -/
  | abandon (c : CallId)
  | newMonth

/-- What a rejected caller is told. -/
inductive Event where
  | quotaExhausted (c : CallId) (spent quota : Nat)

/-- The clock, the ledger and the calls in flight. -/
structure Gateway where
  month : Nat
  ledger : List Row
  calls : CallId → Option Call

namespace Gateway

/-- Move a call to its next program counter. -/
@[simps -fullyApplied] def advance (g : Gateway) (c : CallId) (call : Call) : Gateway :=
  { g with calls := Function.update g.calls c (some call) }

/-- `UsageLedger.record`: append one row. -/
@[simps -fullyApplied] def append (g : Gateway) (event : UsageEvent) : Gateway :=
  { g with ledger := g.ledger ++ [⟨g.month, event⟩] }

/-- The event `_record_call` stores. -/
def usageEvent (keys : String → KeyInfo) (key : String) (rec : CallRecord) : UsageEvent where
  keyId := key
  customer := (keys key).customer
  route := rec.route
  model := rec.model
  promptTokens := rec.promptTokens
  completionTokens := rec.completionTokens
  exact := rec.exact
  status := rec.status

/-- One step of one call. -/
def step (keys : String → KeyInfo) (g : Gateway) : Action → Option (List Event × Gateway)
  | .arrive c key =>
      match g.calls c with
      | none => some ([], g.advance c (.resolved key))
      | some _ => none
  | .monthStart c =>
      match g.calls c with
      | some (.resolved key) =>
          match (keys key).monthlyTokenQuota with
          | none => some ([], g.advance c (.admitted key))
          | some _ => some ([], g.advance c (.asking key g.month))
      | _ => none
  | .check c =>
      match g.calls c with
      | some (.asking key since) =>
          match (keys key).monthlyTokenQuota with
          | none => some ([], g.advance c (.admitted key))
          | some quota =>
              if quota ≤ tokensSince g.ledger key since then
                some ([.quotaExhausted c (tokensSince g.ledger key since) quota],
                  g.advance c .ended)
              else some ([], g.advance c (.admitted key))
      | _ => none
  | .forward c =>
      match g.calls c with
      | some (.admitted key) => some ([], g.advance c (.forwarded key))
      | _ => none
  | .record c rec =>
      match g.calls c with
      | some (.forwarded key) =>
          some ([], (g.append (usageEvent keys key rec)).advance c .ended)
      | _ => none
  | .abandon c =>
      match g.calls c with
      | some (.admitted _) => some ([], g.advance c .ended)
      | some (.forwarded _) => some ([], g.advance c .ended)
      | _ => none
  | .newMonth => some ([], { g with month := g.month + 1 })

end Gateway

/-- The gateway of a key table under every schedule of calls. -/
def machine (keys : String → KeyInfo) : Machine Gateway Action Event where
  init := { month := 0, ledger := [], calls := fun _ => none }
  step := Gateway.step keys

namespace Gateway

/-! ## Step inversion -/

variable {keys : String → KeyInfo} {g g' : Gateway} {c : CallId} {es : List Event}

theorem step_arrive {key : String} (h : g.step keys (.arrive c key) = some (es, g')) :
    g.calls c = none ∧ g' = g.advance c (.resolved key) := by
  unfold step at h
  dsimp only at h
  split at h
  · rename_i hfree
    simp only [Option.some.injEq, Prod.mk.injEq] at h
    exact ⟨hfree, h.2.symm⟩
  · cases h

theorem step_monthStart (h : g.step keys (.monthStart c) = some (es, g')) :
    ∃ key, g.calls c = some (.resolved key) ∧
      (((keys key).monthlyTokenQuota = none ∧ g' = g.advance c (.admitted key)) ∨
        g' = g.advance c (.asking key g.month)) := by
  unfold step at h
  dsimp only at h
  split at h
  · rename_i key hcall
    split at h
    · rename_i hquota
      simp only [Option.some.injEq, Prod.mk.injEq] at h
      exact ⟨key, hcall, Or.inl ⟨hquota, h.2.symm⟩⟩
    · simp only [Option.some.injEq, Prod.mk.injEq] at h
      exact ⟨key, hcall, Or.inr h.2.symm⟩
  · cases h

/-- A check either rejects the call or admits it, below its quota if it has one. -/
theorem step_check (h : g.step keys (.check c) = some (es, g')) :
    ∃ key since, g.calls c = some (.asking key since) ∧
      (g' = g.advance c .ended ∨
        ((∀ quota, (keys key).monthlyTokenQuota = some quota →
            tokensSince g.ledger key since < quota) ∧
          g' = g.advance c (.admitted key))) := by
  unfold step at h
  dsimp only at h
  split at h
  · rename_i key since hcall
    split at h
    · rename_i hquota
      simp only [Option.some.injEq, Prod.mk.injEq] at h
      exact ⟨key, since, hcall, Or.inr ⟨by simp [hquota], h.2.symm⟩⟩
    · rename_i quota hquota
      split at h
      · simp only [Option.some.injEq, Prod.mk.injEq] at h
        exact ⟨key, since, hcall, Or.inl h.2.symm⟩
      · rename_i hspent
        simp only [Option.some.injEq, Prod.mk.injEq] at h
        refine ⟨key, since, hcall, Or.inr ⟨?_, h.2.symm⟩⟩
        intro quota' hquota'
        rw [hquota] at hquota'
        cases hquota'
        exact Nat.lt_of_not_le hspent
  · cases h

theorem step_forward (h : g.step keys (.forward c) = some (es, g')) :
    ∃ key, g.calls c = some (.admitted key) ∧ g' = g.advance c (.forwarded key) := by
  unfold step at h
  dsimp only at h
  split at h
  · rename_i key hcall
    simp only [Option.some.injEq, Prod.mk.injEq] at h
    exact ⟨key, hcall, h.2.symm⟩
  · cases h

theorem step_record {rec : CallRecord} (h : g.step keys (.record c rec) = some (es, g')) :
    ∃ key, g.calls c = some (.forwarded key) ∧
      g' = (g.append (usageEvent keys key rec)).advance c .ended := by
  unfold step at h
  dsimp only at h
  split at h
  · rename_i key hcall
    simp only [Option.some.injEq, Prod.mk.injEq] at h
    exact ⟨key, hcall, h.2.symm⟩
  · cases h

theorem step_abandon (h : g.step keys (.abandon c) = some (es, g')) :
    (∃ key, g.calls c = some (.admitted key) ∨ g.calls c = some (.forwarded key)) ∧
      g' = g.advance c .ended := by
  unfold step at h
  dsimp only at h
  split at h
  · rename_i key hcall
    simp only [Option.some.injEq, Prod.mk.injEq] at h
    exact ⟨⟨key, Or.inl hcall⟩, h.2.symm⟩
  · rename_i key hcall
    simp only [Option.some.injEq, Prod.mk.injEq] at h
    exact ⟨⟨key, Or.inr hcall⟩, h.2.symm⟩
  · cases h

theorem step_newMonth (h : g.step keys .newMonth = some (es, g')) :
    g' = { g with month := g.month + 1 } := by
  simp only [step, Option.some.injEq, Prod.mk.injEq] at h
  exact h.2.symm

end Gateway

end Repercep.Billing
