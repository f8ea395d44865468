import Mathlib.Algebra.Order.BigOperators.Group.List
import Mathlib.Algebra.Order.Ring.Nat
import Repercep.Billing.Gateway
set_option autoImplicit false

/-!
# Billing: how far a key can overshoot its quota

A call is admitted against what has been recorded, so the calls of a key that are
still with the upstream are invisible to the check.  The overshoot is at most one
call exactly when the calls of a key come one at a time: a check admits a call only
while no other admitted call of the key is unrecorded.
-/

namespace Repercep.Billing

open Repercep.Foundation

/-! ## Totals -/

theorem totalTokens_le_total {events : List UsageEvent} {e : UsageEvent} (h : e ∈ events) :
    e.totalTokens ≤ total events := by
  obtain ⟨before, after, rfl⟩ := List.append_of_mem h
  rw [total_append, total]
  omega

theorem total_le_of_sublist {events events' : List UsageEvent} (h : events.Sublist events') :
    total events ≤ total events' := by
  induction h with
  | slnil => exact le_rfl
  | cons e _ ih => exact ih.trans (Nat.le_add_left _ e.totalTokens)
  | cons_cons e _ ih => exact Nat.add_le_add_left ih e.totalTokens

/-- A later start counts fewer tokens. -/
theorem tokensSince_anti (ledger : List Row) (keyId : String) {since since' : Nat}
    (h : since ≤ since') : tokensSince ledger keyId since' ≤ tokensSince ledger keyId since := by
  have hsublist : (eventsSince ledger keyId since').Sublist (eventsSince ledger keyId since) := by
    unfold eventsSince
    apply List.Sublist.map
    have hfilter : ledger.filter (fun row => row.event.keyId = keyId ∧ since' ≤ row.month) =
        (ledger.filter (fun row => row.event.keyId = keyId ∧ since ≤ row.month)).filter
          (fun row => since' ≤ row.month) := by
      rw [List.filter_filter]
      apply List.filter_congr
      intro row _
      rw [← Bool.decide_and, decide_eq_decide]
      constructor
      · rintro ⟨hkey, hmonth⟩
        exact ⟨hmonth, hkey, Nat.le_trans h hmonth⟩
      · rintro ⟨hmonth, hkey, -⟩
        exact ⟨hkey, hmonth⟩
    rw [hfilter]
    exact List.filter_sublist
  exact total_le_of_sublist hsublist

/-- At most one call overshoots: the total stays below the quota plus the tokens of a
single call, and a call that ends at or beyond the quota is the last one. -/
structure WithinOneCall (quota : Nat) (events : List UsageEvent) : Prop where
  bound : events = [] ∨ ∃ e ∈ events, total events < quota + e.totalTokens
  last : ∀ before e after, events = before ++ e :: after →
    quota ≤ total (before ++ [e]) → after = []

/-- If everything before the last call is below the quota, at most one call
overshoots. -/
theorem WithinOneCall.of_before {quota : Nat} {events : List UsageEvent}
    (h : ∀ before e, events = before ++ [e] → total before < quota) :
    WithinOneCall quota events where
  bound := by
    rcases List.eq_nil_or_concat events with hnil | ⟨before, e, rfl⟩
    · exact Or.inl hnil
    · refine Or.inr ⟨e, by simp, ?_⟩
      have hbefore := h before e (by simp)
      rw [List.concat_eq_append, total_append, total_singleton]
      omega
  last := by
    intro before e after hevents hover
    rcases List.eq_nil_or_concat after with hnil | ⟨middle, x, rfl⟩
    · exact hnil
    · have hbefore := h (before ++ e :: middle) x (by simp [hevents])
      have hsplit : before ++ e :: middle = (before ++ [e]) ++ middle := by simp
      rw [hsplit, total_append] at hbefore
      omega

namespace Gateway

/-- The events of a key in the current month. -/
def monthEvents (g : Gateway) (key : String) : List UsageEvent :=
  eventsSince g.ledger key g.month

/-- An admitted call of a key that is not recorded yet. -/
def InFlight (g : Gateway) (c : CallId) (key : String) : Prop :=
  g.calls c = some (.admitted key) ∨ g.calls c = some (.forwarded key)

/-- A check of a key with a quota admits a call only while no other call of the key
is in flight. -/
def Alone (keys : String → KeyInfo) (g : Gateway) : Action → Prop
  | .check c => ∀ key since quota, g.calls c = some (.asking key since) →
      (keys key).monthlyTokenQuota = some quota →
      tokensSince g.ledger key since < quota → ∀ d, ¬ g.InFlight d key
  | _ => True

/-! ## One call at a time -/

theorem monthEvents_append (g : Gateway) (event : UsageEvent) (key : String) :
    (g.append event).monthEvents key =
      g.monthEvents key ++ if event.keyId = key then [event] else [] := by
  unfold monthEvents eventsSince
  rw [append_ledger, append_month, List.filter_append, List.map_append]
  by_cases h : event.keyId = key <;> simp [h]

theorem inFlight_advance {g : Gateway} {c d : CallId} {call : Call} {key : String} :
    (g.advance c call).InFlight d key ↔
      (d = c ∧ (call = .admitted key ∨ call = .forwarded key)) ∨
        (d ≠ c ∧ g.InFlight d key) := by
  unfold InFlight
  by_cases hd : d = c
  · subst hd
    simp
  · simp [hd]

/-- What coming one at a time keeps true. -/
structure Sequential (keys : String → KeyInfo) (g : Gateway) : Prop where
  clock : ∀ row ∈ g.ledger, row.month ≤ g.month
  asked : ∀ {c key since}, g.calls c = some (.asking key since) → since ≤ g.month
  alone : ∀ {c d key quota}, (keys key).monthlyTokenQuota = some quota →
    g.InFlight c key → g.InFlight d key → c = d
  below : ∀ {c key quota}, (keys key).monthlyTokenQuota = some quota →
    g.InFlight c key → total (g.monthEvents key) < quota
  before : ∀ {key quota}, (keys key).monthlyTokenQuota = some quota →
    ∀ events e, g.monthEvents key = events ++ [e] → total events < quota

variable {keys : String → KeyInfo} {g g' : Gateway} {c : CallId}

/-- A call that moves without being admitted keeps the invariant. -/
theorem Sequential.advance (h : Sequential keys g) {call : Call}
    (hasked : ∀ key since, call = .asking key since → since ≤ g.month)
    (hflight : ∀ key quota, (keys key).monthlyTokenQuota = some quota →
      (call = .admitted key ∨ call = .forwarded key) → g.InFlight c key) :
    Sequential keys (g.advance c call) := by
  have hold : ∀ {d key quota}, (keys key).monthlyTokenQuota = some quota →
      (g.advance c call).InFlight d key → g.InFlight d key := by
    intro d key quota hquota hd
    rcases inFlight_advance.mp hd with ⟨rfl, hcall⟩ | ⟨-, hd⟩
    · exact hflight key quota hquota hcall
    · exact hd
  refine
    { clock := h.clock
      asked := ?_
      alone := fun hquota hc hd => h.alone hquota (hold hquota hc) (hold hquota hd)
      below := fun hquota hc => h.below hquota (hold hquota hc)
      before := h.before }
  intro d key since hd
  by_cases hdc : d = c
  · subst hdc
    have hcall : call = .asking key since := by simpa using hd
    exact hasked key since hcall
  · exact h.asked (by simpa [hdc] using hd)

/-- Admitting a call alone keeps the invariant. -/
theorem Sequential.admit (h : Sequential keys g) {key : String} {since : Nat}
    (hcall : g.calls c = some (.asking key since))
    (hspent : ∀ quota, (keys key).monthlyTokenQuota = some quota →
      tokensSince g.ledger key since < quota)
    (halone : ∀ quota, (keys key).monthlyTokenQuota = some quota → ∀ d, ¬ g.InFlight d key) :
    Sequential keys (g.advance c (.admitted key)) := by
  have hflight : ∀ {d key'}, (g.advance c (.admitted key)).InFlight d key' →
      (d = c ∧ key' = key) ∨ g.InFlight d key' := by
    intro d key' hd
    rcases inFlight_advance.mp hd with ⟨hdc, hadmitted | hforwarded⟩ | ⟨-, hd⟩
    · exact Or.inl ⟨hdc, (Call.admitted.inj hadmitted).symm⟩
    · cases hforwarded
    · exact Or.inr hd
  refine
    { clock := h.clock
      asked := ?_
      alone := ?_
      below := ?_
      before := h.before }
  · intro d key' since' hd
    by_cases hdc : d = c
    · subst hdc
      simp at hd
    · exact h.asked (by simpa [hdc] using hd)
  · intro d d' key' quota hquota hd hd'
    rcases hflight hd with ⟨rfl, rfl⟩ | hold
    · rcases hflight hd' with ⟨rfl, -⟩ | hold'
      · rfl
      · exact absurd hold' (halone quota hquota d')
    · rcases hflight hd' with ⟨rfl, rfl⟩ | hold'
      · exact absurd hold (halone quota hquota d)
      · exact h.alone hquota hold hold'
  · intro d key' quota hquota hd
    rcases hflight hd with ⟨rfl, rfl⟩ | hold
    · exact Nat.lt_of_le_of_lt (tokensSince_anti g.ledger key' (h.asked hcall))
        (hspent quota hquota)
    · exact h.below hquota hold

/-- Recording a call in flight keeps the invariant. -/
theorem Sequential.record (h : Sequential keys g) {key : String} {event : UsageEvent}
    (hflight : g.InFlight c key) (hkey : event.keyId = key) :
    Sequential keys ((g.append event).advance c .ended) := by
  have hold : ∀ {d key'}, ((g.append event).advance c .ended).InFlight d key' →
      d ≠ c ∧ g.InFlight d key' := by
    intro d key' hd
    rcases inFlight_advance.mp hd with ⟨-, hcall | hcall⟩ | hd
    · cases hcall
    · cases hcall
    · exact hd
  have hevents : ∀ key', ((g.append event).advance c .ended).monthEvents key' =
      g.monthEvents key' ++ if event.keyId = key' then [event] else [] :=
    fun key' => monthEvents_append g event key'
  refine
    { clock := ?_
      asked := ?_
      alone := fun hquota hd hd' => h.alone hquota (hold hd).2 (hold hd').2
      below := ?_
      before := ?_ }
  · intro row hrow
    rcases List.mem_append.mp hrow with hrow | hrow
    · exact h.clock row hrow
    · rw [List.mem_singleton.mp hrow]
      exact Nat.le_refl _
  · intro d key' since hd
    by_cases hdc : d = c
    · subst hdc
      simp at hd
    · exact h.asked (by simpa [hdc] using hd)
  · intro d key' quota hquota hd
    obtain ⟨hne, hd⟩ := hold hd
    have hother : event.keyId ≠ key' := by
      intro heq
      rw [hkey] at heq
      subst heq
      exact hne (h.alone hquota hd hflight)
    rw [hevents, if_neg hother, List.append_nil]
    exact h.below hquota hd
  · intro key' quota hquota events e heq
    rw [hevents] at heq
    by_cases hsame : event.keyId = key'
    · rw [if_pos hsame] at heq
      have hprefix := (List.append_inj' heq rfl).1
      rw [← hprefix]
      rw [hkey] at hsame
      subst hsame
      exact h.below hquota hflight
    · rw [if_neg hsame, List.append_nil] at heq
      exact h.before hquota events e heq

/-- A new month starts without events. -/
theorem Sequential.newMonth (h : Sequential keys g) :
    Sequential keys { g with month := g.month + 1 } := by
  have hempty : ∀ key, monthEvents { g with month := g.month + 1 } key = [] := by
    intro key
    unfold monthEvents eventsSince
    rw [List.map_eq_nil_iff, List.filter_eq_nil_iff]
    intro row hrow
    have hold := h.clock row hrow
    simp only [decide_eq_true_eq]
    omega
  refine
    { clock := fun row hrow => Nat.le_succ_of_le (h.clock row hrow)
      asked := fun hc => Nat.le_succ_of_le (h.asked hc)
      alone := h.alone
      below := ?_
      before := ?_ }
  · intro c key quota hquota hc
    rw [hempty, total_nil]
    exact Nat.lt_of_le_of_lt (Nat.zero_le _) (h.below hquota hc)
  · intro key quota _ events e heq
    rw [hempty] at heq
    simp at heq

theorem Sequential.step (h : Sequential keys g) {a : Action} {es : List Event}
    (halone : g.Alone keys a) (hstep : g.step keys a = some (es, g')) :
    Sequential keys g' := by
  cases a with
  | arrive c key =>
      obtain ⟨-, rfl⟩ := step_arrive hstep
      exact h.advance (by simp) (by simp)
  | monthStart c =>
      obtain ⟨key, -, ⟨hquota, rfl⟩ | rfl⟩ := step_monthStart hstep
      · refine h.advance (by simp) ?_
        intro key' quota hquota' hcall
        rcases hcall with hcall | hcall
        · rw [← Call.admitted.inj hcall, hquota] at hquota'
          cases hquota'
        · cases hcall
      · refine h.advance ?_ (by simp)
        intro key' since hcall
        exact Nat.le_of_eq (Call.asking.inj hcall).2.symm
  | check c =>
      obtain ⟨key, since, hcall, rfl | ⟨hspent, rfl⟩⟩ := step_check hstep
      · exact h.advance (by simp) (by simp)
      · exact h.admit hcall hspent fun quota hquota =>
          halone key since quota hcall hquota (hspent quota hquota)
  | forward c =>
      obtain ⟨key, hcall, rfl⟩ := step_forward hstep
      refine h.advance (by simp) ?_
      intro key' quota _ hnext
      rcases hnext with hnext | hnext
      · cases hnext
      · rw [← Call.forwarded.inj hnext]
        exact Or.inl hcall
  | record c rec =>
      obtain ⟨key, hcall, rfl⟩ := step_record hstep
      exact h.record (Or.inr hcall) rfl
  | abandon c =>
      obtain ⟨-, rfl⟩ := step_abandon hstep
      exact h.advance (by simp) (by simp)
  | newMonth =>
      rw [step_newMonth hstep]
      exact h.newMonth

theorem Sequential.init (keys : String → KeyInfo) : Sequential keys (machine keys).init where
  clock := by simp [machine]
  asked := by
    intro c key since hc
    cases hc
  alone := by
    intro c d key quota _ hc
    rcases hc with hc | hc <;> cases hc
  below := by
    intro c key quota _ hc
    rcases hc with hc | hc <;> cases hc
  before := by
    intro key quota _ events e heq
    have hnil : ([] : List UsageEvent) = events ++ [e] := heq
    simp at hnil

/-! ## Two calls in flight -/

variable (keys)

/-- A call in flight can always be recorded, whatever it cost. -/
theorem exists_record {key : String} (h : g.InFlight c key) (rec : CallRecord) :
    ∃ bs g', (machine keys).run g bs = some ([], g') ∧
      (∀ b ∈ bs, ∀ d, b ≠ .check d) ∧
      g'.month = g.month ∧ g'.ledger = g.ledger ++ [⟨g.month, usageEvent keys key rec⟩] ∧
      ∀ d, d ≠ c → g'.calls d = g.calls d := by
  have hrecord : ∀ g₁ : Gateway, g₁.calls c = some (.forwarded key) →
      (machine keys).step g₁ (.record c rec) =
        some ([], (g₁.append (usageEvent keys key rec)).advance c .ended) := by
    intro g₁ hcall
    simp only [machine, Gateway.step, hcall]
  rcases h with hadmitted | hforwarded
  · have hforward : (machine keys).step g (.forward c) =
        some ([], g.advance c (.forwarded key)) := by
      simp only [machine, Gateway.step, hadmitted]
    have hstep := hrecord (g.advance c (.forwarded key)) (by simp)
    refine ⟨[.forward c, .record c rec], _,
      Machine.run_snoc (Machine.run_singleton hforward) hstep, by simp, rfl, rfl, ?_⟩
    intro d hd
    simp [hd]
  · refine ⟨[.record c rec], _, Machine.run_singleton (hrecord g hforwarded), by simp, rfl, rfl, ?_⟩
    intro d hd
    simp [hd]

/-- Once two calls of a key are in flight, they can overshoot its quota by two. -/
theorem exists_overshoot {d : CallId} {key : String} (quota : Nat) (hne : d ≠ c)
    (hc : g.InFlight c key) (hd : g.InFlight d key) :
    ∃ bs es g', (machine keys).run g bs = some (es, g') ∧
      (∀ b ∈ bs, ∀ k, b ≠ .check k) ∧ ¬ WithinOneCall quota (g'.monthEvents key) := by
  let cost : CallRecord := ⟨"", "", quota, 0, true, 200⟩
  obtain ⟨bs₁, g₁, hrun₁, hbs₁, hmonth₁, hledger₁, hcalls₁⟩ :=
    exists_record keys hc cost
  have hd₁ : g₁.InFlight d key := by
    unfold InFlight
    rw [hcalls₁ d hne]
    exact hd
  obtain ⟨bs₂, g₂, hrun₂, hbs₂, hmonth₂, hledger₂, -⟩ := exists_record keys hd₁ cost
  refine ⟨bs₁ ++ bs₂, _, g₂, Machine.run_append_eq_some.mpr ⟨_, g₁, _, hrun₁, hrun₂, rfl⟩,
    ?_, ?_⟩
  · intro b hb
    rcases List.mem_append.mp hb with hb | hb
    · exact hbs₁ b hb
    · exact hbs₂ b hb
  · have hevents : g₂.monthEvents key = g.monthEvents key ++
        [usageEvent keys key cost] ++ [usageEvent keys key cost] := by
      unfold monthEvents eventsSince
      rw [hledger₂, hledger₁, hmonth₂, hmonth₁]
      simp [List.filter_append, usageEvent]
    have hcost : (usageEvent keys key cost).totalTokens = quota := by
      simp [usageEvent, UsageEvent.totalTokens, cost]
    rintro ⟨hbound, -⟩
    rw [hevents] at hbound
    rcases hbound with hnil | ⟨e, he, hlt⟩
    · simp at hnil
    · rw [total_append, total_append, total_singleton, hcost] at hlt
      rcases List.mem_append.mp he with he | he
      · rcases List.mem_append.mp he with he | he
        · have hle := totalTokens_le_total he
          omega
        · rw [List.mem_singleton.mp he, hcost] at hlt
          omega
      · rw [List.mem_singleton.mp he, hcost] at hlt
        omega

end Gateway

/-- At every point of the schedule, and whatever the calls then in flight turn out to
cost, every key with a quota overshoots it by at most one call in the month. -/
def OvershootsByOneCall (keys : String → KeyInfo) (as : List Action) : Prop :=
  ∀ as₁ as₂ bs es g key quota, as = as₁ ++ as₂ → (∀ b ∈ bs, ∀ c, b ≠ .check c) →
    (machine keys).run (machine keys).init (as₁ ++ bs) = some (es, g) →
    (keys key).monthlyTokenQuota = some quota → WithinOneCall quota (g.monthEvents key)

/-- In a run whose checks come one call at a time, the overshoot is at most one
call. -/
theorem withinOneCall_of_alone {keys : String → KeyInfo} {as : List Action}
    {es : List Event} {g : Gateway}
    (halone : (machine keys).Meets (Gateway.Alone keys) (machine keys).init as)
    (hrun : (machine keys).run (machine keys).init as = some (es, g))
    {key : String} {quota : Nat} (hquota : (keys key).monthlyTokenQuota = some quota) :
    WithinOneCall quota (g.monthEvents key) := by
  have hinv : Gateway.Sequential keys g :=
    Machine.history_reachable (C := Gateway.Alone keys)
      (H := fun _ g => Gateway.Sequential keys g) (Gateway.Sequential.init keys)
      (fun _ _ _ _ _ h halone hstep => h.step halone hstep) halone hrun
  exact WithinOneCall.of_before (hinv.before hquota)

/-- For any number of concurrent calls in any interleaving, the overshoot of a
monthly quota is at most one call exactly when every check that admits a call of a
key with a quota finds no other call of that key in flight. -/
theorem overshootsByOneCall_iff (keys : String → KeyInfo) (as : List Action) :
    OvershootsByOneCall keys as ↔
      (machine keys).Meets (Gateway.Alone keys) (machine keys).init as := by
  constructor
  · intro hone
    unfold Machine.Meets
    rw [Machine.along_iff_split]
    intro as₁ a as₂ es₁ g es₂ g' has hpre hstep
    cases a with
    | check c =>
        intro key since quota hcall hquota hspent d hflight
        have hne : d ≠ c := by
          rintro rfl
          rcases hflight with h | h <;> cases hcall.symm.trans h
        have hadmit : g' = g.advance c (.admitted key) := by
          have hnot : ¬ quota ≤ tokensSince g.ledger key since := by omega
          have hstep' : (machine keys).step g (.check c) =
              some ([], g.advance c (.admitted key)) := by
            simp only [machine, Gateway.step, hcall, hquota, if_neg hnot]
          exact (Prod.mk.inj (Option.some.inj (hstep.symm.trans hstep'))).2
        subst hadmit
        have hc : (g.advance c (.admitted key)).InFlight c key := Or.inl (by simp)
        have hd : (g.advance c (.admitted key)).InFlight d key :=
          Gateway.inFlight_advance.mpr (Or.inr ⟨hne, hflight⟩)
        obtain ⟨bs, es, g₂, hrun, hbs, hover⟩ :=
          Gateway.exists_overshoot keys quota hne hc hd
        have hall := Machine.run_append_eq_some.mpr
          ⟨_, _, _, Machine.run_snoc hpre hstep, hrun, rfl⟩
        exact hover (hone (as₁ ++ [.check c]) as₂ bs _ g₂ key quota (by simp [has]) hbs hall hquota)
    | arrive c key => trivial
    | monthStart c => trivial
    | forward c => trivial
    | record c rec => trivial
    | abandon c => trivial
    | newMonth => trivial
  · intro halone as₁ as₂ bs es g key quota has hbs hrun hquota
    subst has
    obtain ⟨es₁, g₁, es₂, hpre, -, -⟩ := Machine.run_append_eq_some.mp hrun
    have hquiet : (machine keys).Meets (Gateway.Alone keys) g₁ bs := by
      refine Machine.meets_of_forall fun b hb g => ?_
      cases b with
      | check c => exact absurd rfl (hbs _ hb c)
      | arrive c key => trivial
      | monthStart c => trivial
      | forward c => trivial
      | record c rec => trivial
      | abandon c => trivial
      | newMonth => trivial
    exact withinOneCall_of_alone
      ((Machine.along_append hpre).mpr
        ⟨((Machine.along_append hpre).mp halone).1, hquiet⟩) hrun hquota

/-- One key with a quota of ten tokens. -/
def tenTokens : String → KeyInfo := fun _ => ⟨"customer", some 10⟩

/-- Two calls checked before either is recorded, ten tokens each. -/
def twoChecksFirst : List Action :=
  [.arrive 0 "k", .monthStart 0, .check 0, .arrive 1 "k", .monthStart 1, .check 1,
    .forward 0, .forward 1, .record 0 ⟨"/v1/completions", "m", 10, 0, true, 200⟩,
    .record 1 ⟨"/v1/completions", "m", 10, 0, true, 200⟩]

/-- Both are admitted, and the key ends at twice its quota. -/
theorem twoChecksFirst_not_overshootsByOneCall :
    ¬ OvershootsByOneCall tenTokens twoChecksFirst := by
  intro h
  obtain ⟨hbound, -⟩ := h twoChecksFirst [] [] _ _ "k" 10 rfl (by simp) rfl rfl
  revert hbound
  decide

end Repercep.Billing
