import Mathlib.Algebra.Order.BigOperators.Group.List
import Mathlib.Algebra.Order.Group.Int
import Mathlib.Algebra.Order.Ring.Int
import Mathlib.Data.List.Count
import Mathlib.Data.List.Dedup
import Repercep.Foundation.Grouping
import Repercep.Ledger.Model
set_option autoImplicit false

/-!
# The views of the ledger agree

Whatever the ledger holds, as long as its counts are not negative and add up within 64
bits, no query overflows, and the rows of a summary partition the events of its window.
So the tokens of a key, or of a customer, are the totals of the rows of that key or
customer, and what the quota check compares is what the usage endpoint reports.
-/

namespace Repercep.Ledger

open Repercep.Foundation

/-! ## Sums without overflow -/

/-- The tokens of some rows. -/
def tokens (rows : List Row) : Int := (rows.map fun row => row.event.totalTokens).sum

/-- The rows have no negative counts, and their tokens fit in 64 bits. -/
structure Bounded (rows : List Row) : Prop where
  nonneg : ∀ row ∈ rows, 0 ≤ row.event.promptTokens ∧ 0 ≤ row.event.completionTokens
  fits : tokens rows < 2 ^ 63

theorem sum_map_nonneg {rows : List Row} {f : Row → Int} (h : ∀ row ∈ rows, 0 ≤ f row) :
    0 ≤ (rows.map f).sum := by
  apply List.sum_nonneg
  intro x hx
  obtain ⟨row, hrow, rfl⟩ := List.mem_map.mp hx
  exact h row hrow

theorem sum_map_sublist {part rows : List Row} {f : Row → Int}
    (h : ∀ row ∈ rows, 0 ≤ f row) (hsub : part.Sublist rows) :
    (part.map f).sum ≤ (rows.map f).sum := by
  induction hsub with
  | slnil => exact Int.le_refl _
  | cons row hsub ih =>
      rw [List.map_cons, List.sum_cons]
      have hrow := h row List.mem_cons_self
      have hpart := ih fun r hr => h r (List.mem_cons_of_mem row hr)
      omega
  | cons_cons row hsub ih =>
      rw [List.map_cons, List.sum_cons, List.map_cons, List.sum_cons]
      have hpart := ih fun r hr => h r (List.mem_cons_of_mem row hr)
      omega

namespace Bounded

variable {rows : List Row}

theorem total_nonneg (h : Bounded rows) (row : Row) (hrow : row ∈ rows) :
    0 ≤ row.event.totalTokens := by
  have hcounts := h.nonneg row hrow
  exact Int.add_nonneg hcounts.1 hcounts.2

theorem sublist {part : List Row} (h : Bounded rows) (hsub : part.Sublist rows) :
    Bounded part where
  nonneg := fun row hrow => h.nonneg row (hsub.subset hrow)
  fits := Int.lt_of_le_of_lt (sum_map_sublist h.total_nonneg hsub) h.fits

/-- A sum of parts of the tokens does not overflow. -/
theorem sqlSum_eq (h : Bounded rows) {f : Row → Int}
    (hf : ∀ row ∈ rows, 0 ≤ f row ∧ f row ≤ row.event.totalTokens) :
    sqlSum (rows.map fun row => .integer (f row)) = .integer (rows.map f).sum := by
  have hfold : ∀ (part : List Row) (s : Int), 0 ≤ s → (∀ row ∈ part, 0 ≤ f row) →
      s + (part.map f).sum < 2 ^ 63 →
      (part.map fun row => SqlValue.integer (f row)).foldl SqlSum.step (.integer s) =
        .integer (s + (part.map f).sum) := by
    intro part
    induction part with
    | nil =>
        intro s _ _ _
        simp
    | cons row part ih =>
        intro s hs hpart hfits
        have hrow := hpart row List.mem_cons_self
        have hrest := sum_map_nonneg fun r hr => hpart r (List.mem_cons_of_mem row hr)
        rw [List.map_cons, List.sum_cons] at hfits
        have hstep : FitsInteger (s + f row) := ⟨by omega, by omega⟩
        rw [List.map_cons, List.foldl_cons, SqlSum.step, if_pos hstep,
          ih (s + f row) (by omega) (fun r hr => hpart r (List.mem_cons_of_mem row hr))
            (by omega), List.map_cons, List.sum_cons, add_assoc]
  have hle : (rows.map f).sum ≤ tokens rows := List.sum_le_sum fun row hrow => (hf row hrow).2
  have hlt := h.fits
  have hsum := hfold rows 0 (Int.le_refl 0) (fun row hrow => (hf row hrow).1) (by omega)
  rw [sqlSum, hsum, zero_add]

theorem total_eq (h : Bounded rows) {row : Row} (hrow : row ∈ rows) :
    row.total = .integer row.event.totalTokens := by
  have hone : (rows.map fun r => r.event.totalTokens).sum < 2 ^ 63 := h.fits
  have hle := sum_map_sublist h.total_nonneg (List.singleton_sublist.mpr hrow)
  rw [List.map_singleton, List.sum_singleton] at hle
  have hnonneg := h.total_nonneg row hrow
  apply if_pos
  constructor
  · change -(2 ^ 63) ≤ row.event.totalTokens
    omega
  · change row.event.totalTokens < 2 ^ 63
    omega

/-- The tokens of bounded rows, as SQL adds them up. -/
theorem sqlSum_total (h : Bounded rows) :
    sqlSum (rows.map Row.total) = .integer (tokens rows) := by
  have hvalues : rows.map Row.total =
      rows.map fun row => .integer row.event.totalTokens := by
    apply List.map_congr_left
    intro row hrow
    exact h.total_eq hrow
  rw [hvalues, h.sqlSum_eq fun row hrow => ⟨h.total_nonneg row hrow, Int.le_refl _⟩, tokens]

end Bounded

/-! ## The rows of a summary -/

/-- The estimated tokens of a row, as an integer. -/
def Row.estimated (row : Row) : Int := if row.event.exact then 0 else row.event.totalTokens

/-- The summary of a group, with exact sums. -/
def summaryOf (rows : List Row) (group : Group) : UsageSummary :=
  let members := rows.filter fun row => row.group = group
  ⟨group.1, group.2, members.length, (members.map fun row => row.event.promptTokens).sum,
    (members.map fun row => row.event.completionTokens).sum, (members.map Row.estimated).sum⟩

theorem summaryOf_total (rows : List Row) (group : Group) :
    (summaryOf rows group).totalTokens = tokens (rows.filter fun row => row.group = group) := by
  rw [UsageSummary.totalTokens, summaryOf, tokens, ← List.sum_map_add]
  rfl

theorem summarize_eq {rows : List Row} {group : Group}
    (hmembers : Bounded (rows.filter fun row => row.group = group)) :
    summarize rows group = .answer (summaryOf rows group) := by
  have hestimates : (rows.filter fun row => row.group = group).map Row.estimate =
      (rows.filter fun row => row.group = group).map
        fun row => .integer row.estimated := by
    apply List.map_congr_left
    intro row hrow
    rw [Row.estimate, Row.estimated, hmembers.total_eq hrow]
    split <;> rfl
  rw [summarize, hestimates, hmembers.sqlSum_eq, hmembers.sqlSum_eq, hmembers.sqlSum_eq]
  · rfl
  · intro row hrow
    have htotal := hmembers.total_nonneg row hrow
    rw [Row.estimated]
    split
    · exact ⟨Int.le_refl 0, htotal⟩
    · exact ⟨htotal, Int.le_refl _⟩
  · intro row hrow
    have hcounts := hmembers.nonneg row hrow
    rw [UsageEvent.totalTokens]
    exact ⟨hcounts.2, by omega⟩
  · intro row hrow
    have hcounts := hmembers.nonneg row hrow
    rw [UsageEvent.totalTokens]
    exact ⟨hcounts.1, by omega⟩

theorem collect_answers {α : Type} (as : List α) :
    collect (as.map Answer.answer) = .answer as := by
  induction as with
  | nil => rfl
  | cons a as ih => rw [List.map_cons, collect, ih]

/-- A summary whose groups are bounded answers, with the exact sums of every group. -/
theorem summary_eq {ledger : UsageLedger} {since : Option Text} {customer : Option String}
    (hgroups : ∀ group,
      Bounded ((ledger.window since customer).filter fun row => row.group = group)) :
    ledger.summary since customer =
      .answer (((groups (ledger.window since customer)).map
        (summaryOf (ledger.window since customer))).mergeSort summaryLe) := by
  have hall : (groups (ledger.window since customer)).map
      (summarize (ledger.window since customer)) =
      ((groups (ledger.window since customer)).map
        (summaryOf (ledger.window since customer))).map Answer.answer := by
    rw [List.map_map]
    apply List.map_congr_left
    intro group _
    exact summarize_eq (hgroups group)
  rw [UsageLedger.summary, hall, collect_answers]

/-- The rows of a summary, before they are sorted and after. -/
theorem summary_perm (rows : List Row) :
    (((groups rows).map (summaryOf rows)).mergeSort summaryLe).Perm
      ((groups rows).map (summaryOf rows)) :=
  List.mergeSort_perm _ _

theorem group_mem {rows : List Row} {row : Row} (hrow : row ∈ rows) :
    row.group ∈ groups rows :=
  List.mem_dedup.mpr (List.mem_map_of_mem hrow)

/-- The totals of a summary add up to the tokens of its window. -/
theorem summary_total (rows : List Row) :
    ((((groups rows).map (summaryOf rows)).mergeSort summaryLe).map
      UsageSummary.totalTokens).sum = tokens rows := by
  rw [((summary_perm rows).map UsageSummary.totalTokens).sum_eq, List.map_map]
  have hgroups := sum_groups (fun row : Row => row.event.totalTokens)
    (List.nodup_dedup (rows.map Row.group)) fun row hrow => group_mem hrow
  rw [tokens, ← hgroups]
  congr 1
  apply List.map_congr_left
  intro group _
  exact summaryOf_total rows group

/-- Its calls add up to the number of events in the window. -/
theorem summary_calls (rows : List Row) :
    ((((groups rows).map (summaryOf rows)).mergeSort summaryLe).map
      UsageSummary.calls).sum = rows.length := by
  rw [((summary_perm rows).map UsageSummary.calls).sum_eq, List.map_map]
  have hgroups := sum_groups (fun _ : Row => (1 : Nat))
    (List.nodup_dedup (rows.map Row.group)) fun row hrow => group_mem hrow
  have hlength : (rows.map fun _ : Row => (1 : Nat)).sum = rows.length := by simp
  rw [← hlength, ← hgroups]
  congr 1
  apply List.map_congr_left
  intro group _
  simp [summaryOf]

/-- An event is in one row. -/
theorem summary_once {rows : List Row} {row : Row} (hrow : row ∈ rows) :
    ((((groups rows).map (summaryOf rows)).mergeSort summaryLe).map
      fun s => (s.keyId, s.customer)).count row.group = 1 := by
  have hgroups : ((groups rows).map (summaryOf rows)).map
      (fun s => (s.keyId, s.customer)) = groups rows := by
    rw [List.map_map]
    exact List.map_id _
  rw [((summary_perm rows).map fun s => (s.keyId, s.customer)).count_eq, hgroups]
  exact List.count_eq_one_of_mem (List.nodup_dedup _) (group_mem hrow)

theorem estimated_le {rows : List Row} (hgroups : ∀ group,
      Bounded (rows.filter fun row => row.group = group)) {s : UsageSummary}
    (hs : s ∈ ((groups rows).map (summaryOf rows)).mergeSort summaryLe) :
    s.estimatedTokens ≤ s.totalTokens := by
  obtain ⟨group, -, rfl⟩ := List.mem_map.mp (List.mem_mergeSort.mp hs)
  rw [summaryOf_total]
  apply List.sum_le_sum
  intro row hrow
  rw [Row.estimated]
  split
  · exact (hgroups group).total_nonneg row hrow
  · exact Int.le_refl _

/-! ## Windows -/

theorem select_eq_filter (ledger : UsageLedger) (key : String) (since : Text) :
    ledger.select UsageEvent.keyId key since =
      (ledger.window (some since) none).filter fun row => row.event.keyId = key := by
  rw [UsageLedger.select, UsageLedger.window, List.filter_filter]
  apply List.filter_congr
  intro row _
  simp

theorem window_customer (ledger : UsageLedger) (customer : String) (since : Text) :
    ledger.window (some since) (some customer) =
      ledger.select UsageEvent.customer customer since := by
  rw [UsageLedger.select, UsageLedger.window]
  apply List.filter_congr
  intro row _
  simp [and_comm]

/-- Each key belongs to one customer. -/
def Owned (rows : List Row) : Prop :=
  ∀ a ∈ rows, ∀ b ∈ rows, a.event.keyId = b.event.keyId →
    a.event.customer = b.event.customer

/-- The events of a key are those of its group. -/
theorem Owned.group_eq {rows : List Row} (h : Owned rows) {group : Group}
    (hgroup : group ∈ groups rows) :
    (rows.filter fun row => row.group = group) =
      rows.filter fun row => row.event.keyId = group.1 := by
  obtain ⟨row, hrow, rfl⟩ := List.mem_map.mp (List.mem_dedup.mp hgroup)
  apply List.filter_congr
  intro other hother
  apply decide_eq_decide.mpr
  constructor
  · intro heq
    exact congrArg Prod.fst heq
  · intro hkey
    exact Prod.ext hkey (h other hother row hrow hkey)

/-- The counts are not negative, and those of every customer since a time add up within
64 bits. -/
structure WithinIntegers (ledger : UsageLedger) (since : Text) : Prop where
  nonneg : ∀ row ∈ ledger, 0 ≤ row.event.promptTokens ∧ 0 ≤ row.event.completionTokens
  fits : ∀ customer, tokens (ledger.select UsageEvent.customer customer since) < 2 ^ 63

/-- A ledger that adds up within 64 bits as a whole does so by customer. -/
theorem Bounded.withinIntegers {ledger : UsageLedger} (h : Bounded ledger) (since : Text) :
    WithinIntegers ledger since where
  nonneg := h.nonneg
  fits := fun _ => (h.sublist List.filter_sublist).fits

namespace WithinIntegers

variable {ledger : UsageLedger} {since : Text}

theorem customer (h : WithinIntegers ledger since) (value : String) :
    Bounded (ledger.select UsageEvent.customer value since) where
  nonneg := fun row hrow => h.nonneg row (List.mem_of_mem_filter hrow)
  fits := h.fits value

/-- The events of a group are among those of its customer. -/
theorem group (h : WithinIntegers ledger since) (customer : Option String)
    (group : Group) :
    Bounded ((ledger.window (some since) customer).filter fun row => row.group = group) := by
  apply (h.customer group.2).sublist
  rw [UsageLedger.window, List.filter_filter]
  apply List.monotone_filter_right
  intro row hrow
  have hboth : row.group = group ∧ textLe since row.ts = true := by simp_all
  simp [← hboth.1, hboth.2, Row.group]

/-- And so are those of a key that belongs to one customer. -/
theorem key (h : WithinIntegers ledger since) (howned : Owned ledger) (value : String) :
    Bounded (ledger.select UsageEvent.keyId value since) := by
  cases hselected : ledger.select UsageEvent.keyId value since with
  | nil => exact ⟨fun row hrow => absurd hrow List.not_mem_nil, by decide⟩
  | cons first rest =>
      have hfirst : first ∈ ledger.select UsageEvent.keyId value since :=
        hselected ▸ List.mem_cons_self
      rw [UsageLedger.select, List.mem_filter, decide_eq_true_eq] at hfirst
      rw [← hselected]
      apply (h.customer first.event.customer).sublist
      have hsame : ledger.select UsageEvent.keyId value since =
          (ledger.select UsageEvent.customer first.event.customer since).filter
            fun row => row.event.keyId = value := by
        rw [UsageLedger.select, UsageLedger.select, List.filter_filter]
        apply List.filter_congr
        intro row hrow
        have hcustomer : row.event.keyId = value →
            row.event.customer = first.event.customer := fun hkey =>
          howned row hrow first hfirst.1 (hkey.trans hfirst.2.1.symm)
        simp only [← Bool.decide_and, decide_eq_decide]
        constructor
        · intro hrow
          exact ⟨hrow.1, hcustomer hrow.1, hrow.2⟩
        · intro hrow
          exact ⟨hrow.1, hrow.2.2⟩
      rw [hsame]
      exact List.filter_sublist

end WithinIntegers

/-! ## The views -/

/-- The views of a ledger in the month of `now`. -/
structure ViewsAgree (ledger : UsageLedger) (now : UtcTime) : Prop where
  /-- the textual comparison selects what was recorded since the start of the month -/
  boundary : ∀ t, textLe (monthStart now) (isoformat t) = true ↔ now.monthStart.NotAfter t
  /-- what a key has spent is the total of its row in the summary, what the endpoint
  reports, and what the quota check compares -/
  perKey : ∀ key, ∃ spent summaries report,
    ledger.tokensSince (some key) none (monthStart now) = .answer spent ∧
    ledger.summary (some (monthStart now)) none = .answer summaries ∧
    (∀ s ∈ summaries, s.keyId = key → s.totalTokens = spent) ∧
    usage ledger key now = .answer report ∧ report.totalTokens = spent ∧
    ∀ quota, checkQuota ledger key (some quota) now =
      if quota ≤ spent then .rejected spent quota else .passed
  /-- what a customer has spent is the sum over its summary -/
  perCustomer : ∀ customer, ∃ summaries,
    ledger.summary (some (monthStart now)) (some customer) = .answer summaries ∧
    ledger.tokensSince none (some customer) (monthStart now) =
      .answer (summaries.map UsageSummary.totalTokens).sum
  /-- every event of the window of a summary is in one row of it, the calls add up, and
  no row estimates more than its total -/
  partition : ∀ customer, ∃ summaries,
    ledger.summary (some (monthStart now)) customer = .answer summaries ∧
    (summaries.map UsageSummary.calls).sum =
      (ledger.window (some (monthStart now)) customer).length ∧
    (∀ row ∈ ledger.window (some (monthStart now)) customer,
      (summaries.map fun s => (s.keyId, s.customer)).count row.group = 1) ∧
    ∀ s ∈ summaries, s.estimatedTokens ≤ s.totalTokens

theorem tokensSince_key {ledger : UsageLedger} {key : String} {since : Text}
    (h : Bounded (ledger.select UsageEvent.keyId key since)) :
    ledger.tokensSince (some key) none since =
      .answer (tokens ((ledger.window (some since) none).filter
        fun row => row.event.keyId = key)) := by
  rw [UsageLedger.tokensSince, h.sqlSum_total, SqlSum.int, select_eq_filter]

theorem tokensSince_customer {ledger : UsageLedger} {customer : String} {since : Text}
    (h : Bounded (ledger.select UsageEvent.customer customer since)) :
    ledger.tokensSince none (some customer) since =
      .answer (tokens (ledger.window (some since) (some customer))) := by
  rw [UsageLedger.tokensSince, h.sqlSum_total, SqlSum.int, window_customer]

/-- The endpoint reports what the key has spent. -/
theorem usage_eq {ledger : UsageLedger} {key : String} {now : UtcTime} {spent : Int}
    {summaries : List UsageSummary}
    (hsummary : ledger.summary (some (monthStart now)) none = .answer summaries)
    (htotal : ∀ s ∈ summaries, s.keyId = key → s.totalTokens = spent)
    (hnone : (∀ s ∈ summaries, s.keyId ≠ key) → spent = 0) :
    ∃ report, usage ledger key now = .answer report ∧ report.totalTokens = spent := by
  rw [usage, hsummary]
  dsimp only
  cases hmine : summaries.filter fun s => s.keyId = key with
  | nil =>
      refine ⟨⟨key, 0, 0, 0, 0, 0⟩, rfl, ?_⟩
      symm
      apply hnone
      intro s hs hkey
      have hmem : s ∈ summaries.filter fun s => s.keyId = key :=
        List.mem_filter.mpr ⟨hs, by simpa using hkey⟩
      rw [hmine] at hmem
      cases hmem
  | cons s rest =>
      have hmem : s ∈ summaries.filter fun s => s.keyId = key := hmine ▸ List.mem_cons_self
      rw [List.mem_filter] at hmem
      exact ⟨⟨key, s.calls, s.promptTokens, s.completionTokens, s.totalTokens,
        s.estimatedTokens⟩, rfl, htotal s hmem.1 (by simpa using hmem.2)⟩

/-- The views of the ledger agree, whatever it holds, as long as its counts are not
negative and add up within 64 bits and every key belongs to one customer. -/
theorem ledgerViews_agree {ledger : UsageLedger} {now : UtcTime}
    (hwithin : WithinIntegers ledger (monthStart now)) (howned : Owned ledger) :
    ViewsAgree ledger now where
  boundary := textLe_monthStart_iff now
  perKey := by
    intro key
    let rows := ledger.window (some (monthStart now)) none
    have howned' : Owned rows := by
      intro a ha b hb hkey
      exact howned a (List.mem_of_mem_filter ha) b (List.mem_of_mem_filter hb) hkey
    have hsummary := summary_eq (hwithin.group none)
    have hspent := tokensSince_key (hwithin.key howned key)
    have htotal : ∀ s ∈ ((groups rows).map (summaryOf rows)).mergeSort summaryLe,
        s.keyId = key →
          s.totalTokens = tokens (rows.filter fun row => row.event.keyId = key) := by
      intro s hs hkey
      obtain ⟨group, hgroup, rfl⟩ := List.mem_map.mp (List.mem_mergeSort.mp hs)
      have hfirst : group.1 = key := hkey
      rw [summaryOf_total, howned'.group_eq hgroup, hfirst]
    have hnone : (∀ s ∈ ((groups rows).map (summaryOf rows)).mergeSort summaryLe,
        s.keyId ≠ key) → tokens (rows.filter fun row => row.event.keyId = key) = 0 := by
      intro habsent
      have hempty : (rows.filter fun row => row.event.keyId = key) = [] := by
        apply List.filter_eq_nil_iff.mpr
        intro row hrow hkey
        have hrowKey : (summaryOf rows row.group).keyId = key := of_decide_eq_true hkey
        exact habsent (summaryOf rows row.group)
          (List.mem_mergeSort.mpr (List.mem_map_of_mem (group_mem hrow))) hrowKey
      rw [hempty]
      rfl
    obtain ⟨report, husage, hreport⟩ := usage_eq hsummary htotal hnone
    refine ⟨_, _, report, hspent, hsummary, htotal, husage, hreport, ?_⟩
    intro quota
    rw [checkQuota, hspent]
  perCustomer := by
    intro customer
    refine ⟨_, summary_eq (hwithin.group (some customer)), ?_⟩
    rw [tokensSince_customer (hwithin.customer customer), summary_total]
  partition := by
    intro customer
    exact ⟨_, summary_eq (hwithin.group customer), summary_calls _,
      fun row hrow => summary_once hrow, fun s hs => estimated_le (hwithin.group customer) hs⟩

/-- A ledger with an event of the last second of May and one of the first of June. -/
theorem ledgerViews_agree_at_boundary :
    ViewsAgree
      [⟨isoformat ⟨2026, 5, 31, 23, 59, 59, 999999, by decide, by decide⟩,
          ⟨"a", "acme", "/v1/completions", "m", 7, 5, true, 200⟩⟩,
        ⟨isoformat ⟨2026, 6, 1, 0, 0, 0, 0, by decide, by decide⟩,
          ⟨"a", "acme", "/v1/completions", "m", 3, 2, false, 200⟩⟩,
        ⟨isoformat ⟨2026, 6, 2, 0, 0, 0, 0, by decide, by decide⟩,
          ⟨"b", "acme", "/v1/completions", "m", 0, 4, true, 200⟩⟩]
      ⟨2026, 6, 15, 12, 30, 0, 0, by decide, by decide⟩ := by
  apply ledgerViews_agree
  · exact Bounded.withinIntegers ⟨by decide, by decide⟩ _
  · unfold Owned
    decide

end Repercep.Ledger
