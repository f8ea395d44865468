import Mathlib.Algebra.Ring.Int.Defs
import Mathlib.Data.List.Basic
import Repercep.Ledger.Clock
set_option autoImplicit false

/-!
# The usage ledger

The model of `UsageLedger` in `serving/usage.py`, with the arithmetic of SQLite below
it.  An `INTEGER` column holds 64 bits: a Python integer beyond them is refused when it
is bound.  Within a query, a sum of two integers beyond 64 bits becomes a double, and
`SUM` over integers beyond 64 bits raises.  The value of a double is not modelled: what
is computed with one is `approximate`.

Latencies and request ids, which no query reads, are left out.
-/

namespace Repercep.Ledger

/-! ## SQLite integers -/

/-- The integer fits in 64 bits. -/
def FitsInteger (n : Int) : Prop := -(2 ^ 63) ≤ n ∧ n < 2 ^ 63

instance (n : Int) : Decidable (FitsInteger n) :=
  inferInstanceAs (Decidable (-(2 ^ 63) ≤ n ∧ n < 2 ^ 63))

/-- The value of an expression. -/
inductive SqlValue where
  | integer (n : Int)
  /-- a double -/
  | real
  deriving DecidableEq, Repr

/-- `a + b`. -/
def sqlAdd (a b : Int) : SqlValue :=
  if FitsInteger (a + b) then .integer (a + b) else .real

/-- The accumulator of `SUM`. -/
inductive SqlSum where
  | integer (n : Int)
  /-- a double was among the values -/
  | real
  /-- `integer overflow` -/
  | overflow
  deriving DecidableEq, Repr

/-- One value more. -/
def SqlSum.step : SqlSum → SqlValue → SqlSum
  | .integer s, .integer n => if FitsInteger (s + n) then .integer (s + n) else .overflow
  | .integer _, .real => .real
  | .real, _ => .real
  | .overflow, _ => .overflow

/-- `COALESCE(SUM(...), 0)`. -/
def sqlSum (values : List SqlValue) : SqlSum := values.foldl SqlSum.step (.integer 0)

/-- What a query returns, or raises. -/
inductive Answer (α : Type) where
  | answer (a : α)
  | approximate
  | raised (error : String)
  deriving DecidableEq, Repr

/-- `int(...)` of a sum. -/
def SqlSum.int : SqlSum → Answer Int
  | .integer n => .answer n
  | .real => .approximate
  | .overflow => .raised "integer overflow"

/-! ## The ledger -/

/-- One billable call. -/
structure UsageEvent where
  keyId : String
  customer : String
  route : String
  model : String
  promptTokens : Int
  completionTokens : Int
  exact : Bool
  status : Nat
  deriving DecidableEq, Repr

/-- `total_tokens` of an event. -/
def UsageEvent.totalTokens (e : UsageEvent) : Int := e.promptTokens + e.completionTokens

/-- A row of `usage_events`. -/
structure Row where
  ts : Text
  event : UsageEvent
  deriving DecidableEq, Repr

/-- `prompt_tokens + completion_tokens`. -/
def Row.total (row : Row) : SqlValue :=
  sqlAdd row.event.promptTokens row.event.completionTokens

/-- The rows in the order of their insertion. -/
abbrev UsageLedger : Type := List Row

namespace UsageLedger

/-- `record`, at the time `now`; `none` when an integer cannot be bound. -/
def record (ledger : UsageLedger) (event : UsageEvent) (now : UtcTime) :
    Option UsageLedger :=
  if FitsInteger event.promptTokens ∧ FitsInteger event.completionTokens ∧
      FitsInteger event.status then
    some (ledger ++ [⟨isoformat now, event⟩])
  else none

/-- The rows of `WHERE {column} = ? AND ts >= ?`. -/
def select (ledger : UsageLedger) (column : UsageEvent → String) (value : String)
    (since : Text) : List Row :=
  ledger.filter fun row => column row.event = value ∧ textLe since row.ts

/-- `tokens_since`. -/
def tokensSince (ledger : UsageLedger) (keyId customer : Option String) (since : Text) :
    Answer Int :=
  match keyId, customer with
  | some value, none =>
      (sqlSum ((ledger.select UsageEvent.keyId value since).map Row.total)).int
  | none, some value =>
      (sqlSum ((ledger.select UsageEvent.customer value since).map Row.total)).int
  | _, _ => .raised "pass exactly one of key_id or customer"

end UsageLedger

/-- Rolled-up usage for one key or customer over a window. -/
structure UsageSummary where
  keyId : String
  customer : String
  calls : Nat
  promptTokens : Int
  completionTokens : Int
  estimatedTokens : Int
  deriving DecidableEq, Repr

/-- `total_tokens` of a summary. -/
def UsageSummary.totalTokens (s : UsageSummary) : Int := s.promptTokens + s.completionTokens

/-- The estimated tokens of a row: `CASE WHEN exact = 0 THEN ... ELSE 0 END`. -/
def Row.estimate (row : Row) : SqlValue :=
  if row.event.exact then .integer 0 else row.total

/-- A group of `GROUP BY key_id, customer`. -/
abbrev Group : Type := String × String

/-- The `GROUP BY` key of a row. -/
def Row.group (row : Row) : Group := (row.event.keyId, row.event.customer)

/-- Each group once. -/
def groups (rows : List Row) : List Group := (rows.map Row.group).dedup

/-- The summary of one group. -/
def summarize (rows : List Row) (group : Group) : Answer UsageSummary :=
  let members := rows.filter fun row => row.group = group
  match (sqlSum (members.map fun row => .integer row.event.promptTokens)).int,
      (sqlSum (members.map fun row => .integer row.event.completionTokens)).int,
      (sqlSum (members.map Row.estimate)).int with
  | .answer pt, .answer ct, .answer est =>
      .answer ⟨group.1, group.2, members.length, pt, ct, est⟩
  | .raised e, _, _ => .raised e
  | _, .raised e, _ => .raised e
  | _, _, .raised e => .raised e
  | _, _, _ => .approximate

/-- `ORDER BY pt + ct DESC, key_id`. -/
def summaryLe (a b : UsageSummary) : Bool :=
  b.totalTokens < a.totalTokens ∨
    (a.totalTokens = b.totalTokens ∧ textLe a.keyId.toList b.keyId.toList)

/-- All answers, or the first failure. -/
def collect {α : Type} : List (Answer α) → Answer (List α)
  | [] => .answer []
  | .answer a :: rest =>
      match collect rest with
      | .answer as => .answer (a :: as)
      | .approximate => .approximate
      | .raised e => .raised e
  | .approximate :: _ => .approximate
  | .raised e :: _ => .raised e

/-- The rows of the `WHERE` clause of `summary`, whose conditions are optional. -/
def UsageLedger.window (ledger : UsageLedger) (since : Option Text)
    (customer : Option String) : List Row :=
  ledger.filter fun row =>
    (∀ ts ∈ since, textLe ts row.ts) ∧ ∀ value ∈ customer, row.event.customer = value

/-- `summary`. -/
def UsageLedger.summary (ledger : UsageLedger) (since : Option Text)
    (customer : Option String) : Answer (List UsageSummary) :=
  let rows := ledger.window since customer
  match collect ((groups rows).map (summarize rows)) with
  | .answer summaries => .answer (summaries.mergeSort summaryLe)
  | .approximate => .approximate
  | .raised e => .raised e

/-- What `/v1/usage` reports of a key. -/
structure UsageReport where
  keyId : String
  calls : Nat
  promptTokens : Int
  completionTokens : Int
  totalTokens : Int
  estimatedTokens : Int
  deriving DecidableEq, Repr

/-- The `usage` endpoint: the first row of the key in the summary since the start of
the month, or zeros. -/
def usage (ledger : UsageLedger) (keyId : String) (now : UtcTime) : Answer UsageReport :=
  match ledger.summary (some (monthStart now)) none with
  | .approximate => .approximate
  | .raised e => .raised e
  | .answer summaries =>
      match summaries.filter fun s => s.keyId = keyId with
      | [] => .answer ⟨keyId, 0, 0, 0, 0, 0⟩
      | spent :: _ =>
          .answer ⟨keyId, spent.calls, spent.promptTokens, spent.completionTokens,
            spent.totalTokens, spent.estimatedTokens⟩

/-- How a quota check ends. -/
inductive QuotaCheck where
  | passed
  | rejected (spent quota : Int)
  /-- the total is a double: the comparison with it is not modelled -/
  | approximate
  | failed (error : String)
  deriving DecidableEq, Repr

/-- `_check_quota`, with a ledger. -/
def checkQuota (ledger : UsageLedger) (keyId : String) (quota : Option Int)
    (now : UtcTime) : QuotaCheck :=
  match quota with
  | none => .passed
  | some quota =>
      match ledger.tokensSince (some keyId) none (monthStart now) with
      | .answer spent => if quota ≤ spent then .rejected spent quota else .passed
      | .approximate => .approximate
      | .raised e => .failed e

end Repercep.Ledger
