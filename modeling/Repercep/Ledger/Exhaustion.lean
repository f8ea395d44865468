import Mathlib.Data.List.Forall2
import Repercep.Foundation.Machine
import Repercep.Ledger.Views
import Repercep.Metering.Reported
set_option autoImplicit false

/-!
# Billed totals and the quota

Metered calls over time: the upstream answers, the meter counts, `_record_call` of the
app hands the counts to the ledger, and `_emit` drops what the ledger refuses.  The
counts are the upstream's own.  As long as what the responses report can be billed, every
call is in the ledger with the tokens it reported, the total of a key never decreases
within a month, and a key that has reached its quota stays rejected.  A negative count
takes a total back below its quota, and a count beyond 64 bits leaves its call out.

The names of a call are texts that SQLite can store.
-/

namespace Repercep.Ledger

open Repercep.Foundation
open Repercep.Metering

/-- The ledger, and the time its rows get. -/
structure Books where
  ledger : UsageLedger
  now : UtcTime

/-- A call through the proxy, under a key, and its response. -/
structure MeteredCall where
  keyId : String
  customer : String
  path : String
  plan : RequestPlan
  status : Nat
  chunks : List Bytes
  /-- a status has three digits -/
  status_lt : status < 1000

namespace MeteredCall

/-- What the proxy hands to its sink. -/
def records (loads : Loads) (call : MeteredCall) : List CallRecord :=
  (proxyPostStream loads true call.path call.plan
    (.delivered call.status call.chunks)).records

/-- What the response reports. -/
def reported (loads : Loads) (call : MeteredCall) : Reported :=
  Metering.reported loads call.plan.streaming call.chunks.flatten

/-- The tokens the call is worth: an error response is worth none. -/
def tokens (loads : Loads) (call : MeteredCall) : Int :=
  if 400 ≤ call.status then 0 else (call.reported loads).tokens

/-- `_record_call`, inside `_emit`: an event the ledger refuses is logged and dropped. -/
def recordCall (call : MeteredCall) (now : UtcTime) (ledger : UsageLedger)
    (record : CallRecord) : UsageLedger :=
  (ledger.record
    { keyId := call.keyId
      customer := call.customer
      route := record.route
      model := record.model
      promptTokens := record.promptTokens
      completionTokens := record.completionTokens
      exact := record.exact
      status := record.status } now).getD ledger

end MeteredCall

/-- The clock is set forward, or the upstream has answered a call. -/
inductive BillingLabel where
  | tick (t : UtcTime)
  | respond (call : MeteredCall)

/-- The clock moves forward, and calls are answered.  The events are the calls. -/
def billing (loads : Loads) (start : UtcTime) : Machine Books BillingLabel MeteredCall where
  init := ⟨[], start⟩
  step s
    | .tick t => if s.now.NotAfter t then some ([], { s with now := t }) else none
    | .respond call =>
        some ([call], { s with
          ledger := (call.records loads).foldl (call.recordCall s.now) s.ledger })

namespace Books

/-- What a key has spent in the current month. -/
def spent (s : Books) (key : String) : Int :=
  Ledger.tokens (s.ledger.select UsageEvent.keyId key (monthStart s.now))

end Books

/-- What a response reports can be billed: it is an error response, or the meter can
handle it, it states no negative count, and what its key has spent this month does not
go beyond 64 bits with it. -/
def Billable (loads : Loads) (s : Books) : BillingLabel → Prop
  | .tick _ => True
  | .respond call =>
      400 ≤ call.status ∨
        (Manageable loads call.plan.streaming call.chunks.flatten ∧
          (call.reported loads).NonNegative ∧
          s.spent call.keyId + (call.reported loads).tokens < 2 ^ 63)

instance (loads : Loads) (s : Books) (label : BillingLabel) :
    Decidable (Billable loads s label) :=
  match label with
  | .tick _ => isTrue trivial
  | .respond call => inferInstanceAs (Decidable (400 ≤ call.status ∨ _))

/-! ## The law -/

/-- The row of a call. -/
structure RowOf (loads : Loads) (call : MeteredCall) (row : Row) : Prop where
  key : row.event.keyId = call.keyId
  customer : row.event.customer = call.customer
  route : row.event.route = call.path
  status : row.event.status = call.status
  tokens : row.event.totalTokens = call.tokens loads

/-- A count that the ledger can store. -/
def Storable (n : Int) : Prop := 0 ≤ n ∧ n < 2 ^ 63

instance (n : Int) : Decidable (Storable n) := inferInstanceAs (Decidable (0 ≤ n ∧ n < 2 ^ 63))

/-- The ledger holds these calls, in their order, with storable counts. -/
structure Billed (loads : Loads) (calls : List MeteredCall) (s : Books) : Prop where
  counts : ∀ row ∈ s.ledger,
    Storable row.event.promptTokens ∧ Storable row.event.completionTokens
  complete : List.Forall₂ (RowOf loads) calls s.ledger

/-- What holds of two states of a run in the same month. -/
structure Sticky (s t : Books) : Prop where
  monotone : ∀ key, ∃ before after,
    s.ledger.tokensSince (some key) none (monthStart s.now) = .answer before ∧
    t.ledger.tokensSince (some key) none (monthStart t.now) = .answer after ∧ before ≤ after
  rejected : ∀ key quota spent,
    checkQuota s.ledger key (some quota) s.now = .rejected spent quota →
      ∃ spent', checkQuota t.ledger key (some quota) t.now = .rejected spent' quota

/-! ## One step -/

/-- The invariant: the calls are billed, and no total is beyond 64 bits. -/
structure BillingInv (loads : Loads) (calls : List MeteredCall) (s : Books) : Prop where
  billed : Billed loads calls s
  fits : ∀ key, s.spent key < 2 ^ 63

namespace BillingInv

variable {loads : Loads} {calls : List MeteredCall} {s : Books}

theorem bounded (h : BillingInv loads calls s) (key : String) :
    Bounded (s.ledger.select UsageEvent.keyId key (monthStart s.now)) where
  nonneg := by
    intro row hrow
    have hcounts := h.billed.counts row (List.mem_of_mem_filter hrow)
    exact ⟨hcounts.1.1, hcounts.2.1⟩
  fits := h.fits key

theorem spent_nonneg (h : BillingInv loads calls s) (key : String) : 0 ≤ s.spent key :=
  sum_map_nonneg (h.bounded key).total_nonneg

end BillingInv

theorem select_append (ledger more : UsageLedger) (key : String) (since : Text) :
    UsageLedger.select (ledger ++ more) UsageEvent.keyId key since =
      ledger.select UsageEvent.keyId key since ++
        UsageLedger.select more UsageEvent.keyId key since :=
  List.filter_append ..

/-- The one record of a billable call. -/
theorem records_billable {loads : Loads} {s : Books} {call : MeteredCall}
    (h : Billable loads s (.respond call)) (hspent : 0 ≤ s.spent call.keyId) :
    ∃ record, call.records loads = [record] ∧ record.route = call.path ∧
      record.status = call.status ∧ Storable record.promptTokens ∧
      Storable record.completionTokens ∧
      record.promptTokens + record.completionTokens = call.tokens loads := by
  by_cases hrefused : 400 ≤ call.status
  · have hzero : Storable 0 := by decide
    refine ⟨_, refused_record loads call.path call.plan call.chunks hrefused, rfl, rfl,
      hzero, hzero, ?_⟩
    rw [MeteredCall.tokens, if_pos hrefused]
    rfl
  · obtain ⟨hmanageable, hnonneg, hfits⟩ := h.resolve_left hrefused
    obtain ⟨record, hrecords, hroute, hstatus, htokens, hcounts⟩ :=
      delivered_record call.path (by omega : call.status < 400) hmanageable
    obtain ⟨hprompt, hcompletion⟩ := hcounts hnonneg
    have hworth : (call.reported loads).tokens =
        record.promptTokens + record.completionTokens := htokens.symm
    refine ⟨record, hrecords, hroute, hstatus, ⟨hprompt, by omega⟩,
      ⟨hcompletion, by omega⟩, ?_⟩
    rw [MeteredCall.tokens, if_neg hrefused, hworth]

/-- The row a billable call adds to the ledger. -/
theorem respond_row {loads : Loads} {s : Books} {call : MeteredCall}
    (h : Billable loads s (.respond call)) (hspent : 0 ≤ s.spent call.keyId) :
    ∃ row, (call.records loads).foldl (call.recordCall s.now) s.ledger = s.ledger ++ [row] ∧
      RowOf loads call row ∧ Storable row.event.promptTokens ∧
      Storable row.event.completionTokens := by
  obtain ⟨record, hrecords, hroute, hstatus, hprompt, hcompletion, htokens⟩ :=
    records_billable h hspent
  have hstatusFits : FitsInteger record.status := by
    have hlt := call.status_lt
    rw [hstatus]
    constructor <;> omega
  have hpromptFits : FitsInteger record.promptTokens := ⟨by have := hprompt.1; omega, hprompt.2⟩
  have hcompletionFits : FitsInteger record.completionTokens :=
    ⟨by have := hcompletion.1; omega, hcompletion.2⟩
  rw [hrecords, List.foldl_cons, List.foldl_nil, MeteredCall.recordCall, UsageLedger.record,
    if_pos ⟨hpromptFits, hcompletionFits, hstatusFits⟩]
  exact ⟨_, rfl, ⟨rfl, rfl, hroute, hstatus, htokens⟩, hprompt, hcompletion⟩

/-- What one more row adds to the total of a key. -/
theorem spent_snoc (s : Books) (key : String) (row : Row) :
    Books.spent { s with ledger := s.ledger ++ [row] } key = s.spent key +
      if row.event.keyId = key ∧ textLe (monthStart s.now) row.ts = true then
        row.event.totalTokens else 0 := by
  rw [Books.spent, Books.spent, select_append, tokens, List.map_append, List.sum_append]
  congr 1
  rw [UsageLedger.select, List.filter_cons]
  by_cases hrow : row.event.keyId = key ∧ textLe (monthStart s.now) row.ts = true
  · simp [hrow]
  · simp [hrow]

namespace BillingInv

variable {loads : Loads} {calls : List MeteredCall} {s : Books}

theorem init (loads : Loads) (start : UtcTime) :
    BillingInv loads [] (billing loads start).init where
  billed := ⟨by simp [billing], List.Forall₂.nil⟩
  fits := by
    intro key
    change (0 : Int) < 2 ^ 63
    decide

/-- Time passes: at most, the window shrinks. -/
theorem tick (h : BillingInv loads calls s) {t : UtcTime} (ht : s.now.NotAfter t) :
    BillingInv loads calls { s with now := t } where
  billed := ⟨h.billed.counts, h.billed.complete⟩
  fits := by
    intro key
    have hsub : (s.ledger.select UsageEvent.keyId key (monthStart t)).Sublist
        (s.ledger.select UsageEvent.keyId key (monthStart s.now)) := by
      apply List.monotone_filter_right
      intro row hrow
      rw [decide_eq_true_eq] at hrow ⊢
      exact ⟨hrow.1, textLe_trans (textLe_monthStart ht) hrow.2⟩
    exact ((h.bounded key).sublist hsub).fits

/-- A billable call is answered. -/
theorem respond (h : BillingInv loads calls s) {call : MeteredCall}
    (hbillable : Billable loads s (.respond call)) :
    BillingInv loads (calls ++ [call]) { s with
      ledger := (call.records loads).foldl (call.recordCall s.now) s.ledger } := by
  have hspent := h.spent_nonneg call.keyId
  obtain ⟨row, hledger, hrow, hprompt, hcompletion⟩ := respond_row hbillable hspent
  rw [hledger]
  refine ⟨⟨?_, ?_⟩, ?_⟩
  · intro other hother
    rcases List.mem_append.mp hother with hold | hnew
    · exact h.billed.counts other hold
    · rw [List.mem_singleton.mp hnew]
      exact ⟨hprompt, hcompletion⟩
  · exact List.rel_append h.billed.complete (List.Forall₂.cons hrow List.Forall₂.nil)
  · intro key
    rw [spent_snoc]
    have hfits := h.fits key
    by_cases hmine : row.event.keyId = key ∧ textLe (monthStart s.now) row.ts = true
    · rw [if_pos hmine, hrow.tokens, MeteredCall.tokens]
      by_cases hrefused : 400 ≤ call.status
      · rw [if_pos hrefused]
        omega
      · have hkey : call.keyId = key := hrow.key.symm.trans hmine.1
        rw [if_neg hrefused, ← hkey]
        exact (hbillable.resolve_left hrefused).2.2
    · rw [if_neg hmine]
      omega

theorem step (h : BillingInv loads calls s) {start : UtcTime} {label : BillingLabel}
    {es : List MeteredCall} {t : Books} (hbillable : Billable loads s label)
    (hstep : (billing loads start).step s label = some (es, t)) :
    BillingInv loads (calls ++ es) t := by
  cases label with
  | tick u =>
      simp only [billing] at hstep
      by_cases hlater : s.now.NotAfter u
      · rw [if_pos hlater, Option.some.injEq, Prod.mk.injEq] at hstep
        rw [← hstep.1, ← hstep.2, List.append_nil]
        exact h.tick hlater
      · rw [if_neg hlater] at hstep
        cases hstep
  | respond call =>
      simp only [billing, Option.some.injEq, Prod.mk.injEq] at hstep
      rw [← hstep.1, ← hstep.2]
      exact h.respond hbillable

end BillingInv

/-! ## Whole runs -/

/-- Rows are only ever appended. -/
theorem ledger_extends {loads : Loads} {start : UtcTime} {s t : Books}
    {labels : List BillingLabel} {es : List MeteredCall}
    (hrun : (billing loads start).run s labels = some (es, t)) : s.ledger <+: t.ledger := by
  apply Machine.invariant_run (I := fun u : Books => s.ledger <+: u.ledger) _
    (List.prefix_refl _) hrun
  intro u label fs v hprefix hstep
  cases label with
  | tick t =>
      simp only [billing] at hstep
      split at hstep
      · cases hstep
        exact hprefix
      · cases hstep
  | respond call =>
      simp only [billing, Option.some.injEq, Prod.mk.injEq] at hstep
      rw [← hstep.2]
      apply List.foldlRecOn (motive := fun ledger => s.ledger <+: ledger) _ _ hprefix
      intro ledger hledger record _
      rw [MeteredCall.recordCall, UsageLedger.record]
      split
      · exact hledger.trans (List.prefix_append _ _)
      · exact hledger

/-- Two sound states of one month, the later with the longer ledger. -/
theorem sticky_of_prefix {loads : Loads} {calls calls' : List MeteredCall} {s t : Books}
    (hs : BillingInv loads calls s) (ht : BillingInv loads calls' t)
    (hextends : s.ledger <+: t.ledger) (hmonth : monthStart s.now = monthStart t.now) :
    Sticky s t := by
  have htotal : ∀ key, s.spent key ≤ t.spent key := by
    intro key
    apply sum_map_sublist (ht.bounded key).total_nonneg
    rw [← hmonth]
    exact hextends.sublist.filter _
  have hanswers : ∀ key,
      s.ledger.tokensSince (some key) none (monthStart s.now) = .answer (s.spent key) := by
    intro key
    rw [UsageLedger.tokensSince, (hs.bounded key).sqlSum_total]
    rfl
  have hanswert : ∀ key,
      t.ledger.tokensSince (some key) none (monthStart t.now) = .answer (t.spent key) := by
    intro key
    rw [UsageLedger.tokensSince, (ht.bounded key).sqlSum_total]
    rfl
  refine ⟨?_, ?_⟩
  · intro key
    exact ⟨_, _, hanswers key, hanswert key, htotal key⟩
  · intro key quota spent hrejected
    rw [checkQuota, hanswers] at hrejected
    have hreached : quota ≤ s.spent key := by
      by_contra hbelow
      simp [hbelow] at hrejected
    have hstill : quota ≤ t.spent key := Int.le_trans hreached (htotal key)
    refine ⟨t.spent key, ?_⟩
    simp [checkQuota, hanswert, hstill]

/-- In every run whose responses can be billed, every call is in the ledger with storable
counts, and within a month no total decreases and no key that has reached its quota
passes the check again. -/
theorem billing_sticky {loads : Loads} {start : UtcTime} {before after : List BillingLabel}
    {es fs : List MeteredCall} {s t : Books}
    (hbillable : (billing loads start).Meets (Billable loads) (billing loads start).init
      (before ++ after))
    (hbefore : (billing loads start).run (billing loads start).init before = some (es, s))
    (hafter : (billing loads start).run s after = some (fs, t)) :
    Billed loads es s ∧ Billed loads (es ++ fs) t ∧
      (monthStart s.now = monthStart t.now → Sticky s t) := by
  obtain ⟨hfirst, hrest⟩ := (Machine.along_append hbefore).mp hbillable
  have hs : BillingInv loads es s :=
    Machine.history_reachable (BillingInv.init loads start)
      (fun calls u label es v h hC hstep => h.step hC hstep) hfirst hbefore
  have ht : BillingInv loads (es ++ fs) t :=
    Machine.history_run (H := BillingInv loads)
      (fun calls u label es v h hC hstep => h.step hC hstep) after es s fs t hs hrest hafter
  exact ⟨hs.billed, ht.billed, sticky_of_prefix hs ht (ledger_extends hafter)⟩

/-- A body that states one count. -/
def usageBody (count : String) : Bytes :=
  ascii ("\x7b\"usage\":\x7b\"prompt_tokens\":" ++ count ++ "\x7d\x7d")

/-- `json.loads` on three such bodies. -/
def loadsUsageBody : Loads := fun body =>
  if body = usageBody "12" then .ok (.dict [("usage", .dict [("prompt_tokens", .int 12)])])
  else if body = usageBody "-5" then
    .ok (.dict [("usage", .dict [("prompt_tokens", .int (-5))])])
  else if body = usageBody "9223372036854775808" then
    .ok (.dict [("usage", .dict [("prompt_tokens", .int (2 ^ 63))])])
  else .error .jsonDecode

/-- A call under one key that is answered with such a body. -/
def callAnswered (count : String) : MeteredCall where
  keyId := "key-1"
  customer := "acme"
  path := "/v1/completions"
  plan := ⟨"model", false, false⟩
  status := 200
  chunks := [usageBody count]
  status_lt := by decide

/-- A time in the middle of a month. -/
def june : UtcTime := ⟨2026, 6, 15, 12, 30, 0, 0, by decide, by decide⟩

/-- A key whose quota is reached by the first of two calls. -/
theorem billing_sticky_after_two :
    ∃ s t, (billing loadsUsageBody june).run (billing loadsUsageBody june).init
        [.respond (callAnswered "12")] = some ([callAnswered "12"], s) ∧
      (billing loadsUsageBody june).run s [.tick june, .respond (callAnswered "12")] =
        some ([callAnswered "12"], t) ∧
      Billed loadsUsageBody [callAnswered "12"] s ∧
      Billed loadsUsageBody ([callAnswered "12"] ++ [callAnswered "12"]) t ∧
      (monthStart s.now = monthStart t.now → Sticky s t) :=
  ⟨_, _, rfl, rfl, @billing_sticky _ _ [.respond (callAnswered "12")]
    [.tick june, .respond (callAnswered "12")] _ _ _ _ (by decide) rfl rfl⟩

/-- The row of such a call. -/
def juneRow (promptTokens : Int) : Row where
  ts := isoformat june
  event := ⟨"key-1", "acme", "/v1/completions", "model", promptTokens, 0, true, 200⟩

/-- A count beyond 64 bits cannot be bound. -/
theorem oversized_dropped (ledger : UsageLedger) :
    ((callAnswered "9223372036854775808").records loadsUsageBody).foldl
      ((callAnswered "9223372036854775808").recordCall june) ledger = ledger := by
  have hrecords : (callAnswered "9223372036854775808").records loadsUsageBody =
      [⟨"/v1/completions", "model", 2 ^ 63, 0, true, 200⟩] := rfl
  have hover : ¬ FitsInteger 9223372036854775808 := by decide
  simp [hrecords, MeteredCall.recordCall, UsageLedger.record, hover]

/-- Three calls under a key with a quota of 10 tokens, which the first one reaches: a
negative count takes the total back below the quota, and a count beyond 64 bits leaves
its call out of the ledger. -/
theorem negative_count_lifts_rejection :
    (billing loadsUsageBody june).run (billing loadsUsageBody june).init
        [.respond (callAnswered "12")] =
        some ([callAnswered "12"], ⟨[juneRow 12], june⟩) ∧
      (billing loadsUsageBody june).run ⟨[juneRow 12], june⟩ [.respond (callAnswered "-5")] =
        some ([callAnswered "-5"], ⟨[juneRow 12, juneRow (-5)], june⟩) ∧
      (billing loadsUsageBody june).run ⟨[juneRow 12, juneRow (-5)], june⟩
          [.respond (callAnswered "9223372036854775808")] =
        some ([callAnswered "9223372036854775808"], ⟨[juneRow 12, juneRow (-5)], june⟩) ∧
      checkQuota [juneRow 12] "key-1" (some 10) june = .rejected 12 10 ∧
      checkQuota [juneRow 12, juneRow (-5)] "key-1" (some 10) june = .passed := by
  refine ⟨rfl, rfl, ?_, by decide, by decide⟩
  have hdropped := oversized_dropped [juneRow 12, juneRow (-5)]
  simp [Machine.run, billing, hdropped]

end Repercep.Ledger
