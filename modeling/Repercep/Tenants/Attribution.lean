import Mathlib
import Repercep.Tenants.Gateway
set_option autoImplicit false

/-!
# Whom a call is billed to

A row of the ledger stands for one request, and carries the key that request presented, the
customer the key was minted for, and what the proxy reported of it.  The key had been minted
and not revoked when the request arrived.
-/

namespace Repercep.Tenants

open Repercep.Foundation Repercep.Tenancy Repercep.Ledger

variable {D : Type} [DecidableEq D] {hash : Tenancy.Text → D}
variable {apiToken : Option Tenancy.Text} {start : UtcTime}

/-! ## Histories -/

/-- What the key store was asked and answered. -/
def Event.key? : Event → Option KeyEvent
  | .store _ e => some e
  | .asked _ fullKey result => some (.authenticated fullKey result)
  | _ => none

/-- What the key store did. -/
def keyEvents (log : List Event) : List KeyEvent := log.filterMap Event.key?

/-- The call and the usage of a bill. -/
def Event.bill? : Event → Option (CallId × UsageEvent)
  | .billed c event => some (c, event)
  | _ => none

/-- The bills of a history. -/
def bills (log : List Event) : List (CallId × UsageEvent) := log.filterMap Event.bill?

theorem keyEvents_append (log es : List Event) :
    keyEvents (log ++ es) = keyEvents log ++ keyEvents es :=
  List.filterMap_append

theorem bills_append (log es : List Event) : bills (log ++ es) = bills log ++ bills es :=
  List.filterMap_append

theorem mem_bills {log : List Event} {c : CallId} {event : UsageEvent} :
    (c, event) ∈ bills log ↔ .billed c event ∈ log := by
  unfold bills
  rw [List.mem_filterMap]
  constructor
  · rintro ⟨e, he, hbill⟩
    cases e with
    | billed c' event' =>
        cases hbill
        exact he
    | _ => cases hbill
  · exact fun h => ⟨_, h, rfl⟩

/-- Whom a request is charged to, from the history before it arrived. -/
inductive Charged (apiToken : Option Tenancy.Text) (log : List Event)
    (authorization : Option Tenancy.Text) (principal : Principal) : Prop
  /-- the owner of a key that had been minted and not revoked -/
  | key {fullKey : Tenancy.Text} {record : ApiKeyRecord}
      (hbearer : bearerOf authorization = some fullKey)
      (hissued : Issued (keyEvents log) fullKey record) (hprincipal : principal = record.principal)
  | shared {token : Tenancy.Text} (hbearer : bearerOf authorization = some token)
      (htoken : apiToken = some token) (hprincipal : principal = legacy)

/-- The request arrived, and was to be charged to the principal. -/
def Arrived (hash : Tenancy.Text → D) (apiToken : Option Tenancy.Text) (start : UtcTime)
    (labels : List Action) (c : CallId) (principal : Principal) : Prop :=
  ∃ before authorization after log g, labels = before ++ .arrive c authorization :: after ∧
    (gateway hash apiToken start).run (gateway hash apiToken start).init before = some (log, g) ∧
    Charged apiToken log authorization principal

/-- No minted key has the hash of another credential that is presented. -/
def NoCollision (hash : Tenancy.Text → D) (labels : List Action) (log : List Event) : Prop :=
  ∀ c authorization presented, .arrive c authorization ∈ labels →
    bearerOf authorization = some presented → ∀ fullKey record,
      .created fullKey record ∈ keyEvents log → hash fullKey = hash presented →
        fullKey = presented

omit [DecidableEq D] in
theorem NoCollision.before {labels more : List Action} {log es : List Event}
    (h : NoCollision hash (labels ++ more) (log ++ es)) : NoCollision hash labels log :=
  fun c authorization presented hmem hbearer fullKey record hcreated =>
    h c authorization presented (List.mem_append_left _ hmem) hbearer fullKey record
      (keyEvents_append log es ▸ List.mem_append_left _ hcreated)

theorem Arrived.later {labels : List Action} {c : CallId} {principal : Principal}
    (h : Arrived hash apiToken start labels c principal) (more : List Action) :
    Arrived hash apiToken start (labels ++ more) c principal := by
  obtain ⟨before, authorization, after, log, g, rfl, hrun, hcharged⟩ := h
  exact ⟨before, authorization, after ++ more, log, g, by simp, hrun, hcharged⟩

/-- Where the credential is accepted, it is a live key or the shared token. -/
theorem charged_of_resolved {g : Gateway hash} {log : List Event} {principal : Principal}
    {authorization : Option Tenancy.Text} (hrecorded : Recorded hash (keyEvents log) g.keyStore.val)
    (hcollision : ∀ presented, bearerOf authorization = some presented → ∀ fullKey record,
      .created fullKey record ∈ keyEvents log → hash fullKey = hash presented →
        fullKey = presented)
    (hresolve : (g.credentials apiToken).requireApiToken authorization = .ok principal) :
    Charged apiToken log authorization principal := by
  obtain ⟨bearer, hbearer, hcases⟩ := Gateway.resolved_cases hresolve
  rcases hcases with hauth | ⟨htoken, hlegacy⟩
  · have hissued := (hrecorded.authenticate_iff (hcollision bearer hbearer) _).mp hauth
    obtain ⟨record, hissued, hprincipal⟩ := hissued
    exact .key hbearer hissued hprincipal
  · exact .shared hbearer htoken hlegacy

/-! ## The invariant -/

/-- The ledger holds the bills, and each is for a request that arrived. -/
structure Accounted (hash : Tenancy.Text → D) (apiToken : Option Tenancy.Text) (start : UtcTime)
    (labels : List Action) (log : List Event) (g : Gateway hash) : Prop where
  recorded : Recorded hash (keyEvents log) g.keyStore.val
  ledger : g.ledger.map Row.event = (bills log).map Prod.snd
  once : ((bills log).map Prod.fst).Nodup
  ended : ∀ bill ∈ bills log, g.calls bill.1 = some .ended
  arrived : ∀ c call principal, g.calls c = some call → call.principal? = some principal →
    Arrived hash apiToken start labels c principal
  billed : ∀ bill ∈ bills log, ∃ principal record,
    Arrived hash apiToken start labels bill.1 principal ∧ .record bill.1 record ∈ labels ∧
      bill.2 = usageEvent principal record

namespace Accounted

variable {labels : List Action} {log es : List Event} {g : Gateway hash} {a : Action}

/-- A step that bills nothing and leaves the requests alone. -/
theorem quiet (h : Accounted hash apiToken start labels log g) (keyStore : ReachedStore hash)
    (now : UtcTime)
    (hrecorded : Recorded hash (keyEvents (log ++ es)) keyStore.val) (hes : bills es = []) :
    Accounted hash apiToken start (labels ++ [a]) (log ++ es)
      { g with keyStore := keyStore, now := now } := by
  have hbills : bills (log ++ es) = bills log := by rw [bills_append, hes, List.append_nil]
  refine ⟨hrecorded, ?_, ?_, ?_, fun c call principal hcall hprincipal =>
    (h.arrived c call principal hcall hprincipal).later [a], ?_⟩
  · rw [hbills]
    exact h.ledger
  · rw [hbills]
    exact h.once
  · rw [hbills]
    exact h.ended
  · rw [hbills]
    intro bill hbill
    obtain ⟨principal, record, harrived, hrecord, hevent⟩ := h.billed bill hbill
    exact ⟨principal, record, harrived.later [a], List.mem_append_left _ hrecord, hevent⟩

/-- A request that has not ended takes a step and is not billed. -/
theorem advance {c : CallId} {call : Call} (h : Accounted hash apiToken start labels log g)
    (hrecorded : Recorded hash (keyEvents (log ++ es)) g.keyStore.val) (hes : bills es = [])
    (hrunning : g.calls c ≠ some .ended)
    (hcall : ∀ principal, call.principal? = some principal →
      Arrived hash apiToken start (labels ++ [a]) c principal) :
    Accounted hash apiToken start (labels ++ [a]) (log ++ es) (g.advance c call) := by
  obtain ⟨hstore, hledger, honce, hended, harrived, hbilled⟩ :=
    h.quiet (a := a) g.keyStore g.now hrecorded hes
  refine ⟨hstore, hledger, honce, fun bill hbill => ?_, fun c' call' principal hc' hprincipal => ?_,
    hbilled⟩
  · have hne : bill.1 ≠ c := fun heq => hrunning (heq ▸ hended bill hbill)
    exact (Function.update_of_ne hne ..).trans (hended bill hbill)
  · by_cases heq : c' = c
    · subst heq
      have hsame : call = call' := by simpa [Gateway.advance] using hc'
      subst hsame
      exact hcall principal hprincipal
    · exact harrived c' call' principal ((Function.update_of_ne heq ..).symm.trans hc') hprincipal

/-- The ledger takes the row of a request. -/
theorem bill {c : CallId} {principal : Principal} {record : Metering.CallRecord}
    {ledger : UsageLedger} (h : Accounted hash apiToken start labels log g)
    (hcall : g.calls c = some (.forwarded principal))
    (hledger : g.ledger.record (usageEvent principal record) g.now = some ledger) :
    Accounted hash apiToken start (labels ++ [.record c record])
      (log ++ [.billed c (usageEvent principal record)])
      { g.advance c .ended with ledger := ledger } := by
  have hkeys : keyEvents (log ++ [.billed c (usageEvent principal record)]) = keyEvents log := by
    simp [keyEvents, Event.key?]
  have hbills : bills (log ++ [.billed c (usageEvent principal record)]) =
      bills log ++ [(c, usageEvent principal record)] := by
    simp [bills, Event.bill?]
  have hledger' := Gateway.ledger_of_record hledger
  have hnew : ∀ bill ∈ bills log, bill.1 ≠ c := by
    intro bill hbill heq
    have hended := h.ended bill hbill
    rw [heq, hcall] at hended
    cases hended
  refine ⟨?_, ?_, ?_, fun bill hbill => ?_, fun c' call principal' hc' hprincipal => ?_,
    fun bill hbill => ?_⟩
  · rw [hkeys]
    exact h.recorded
  · rw [hbills, hledger', List.map_append, List.map_append, h.ledger]
    rfl
  · rw [hbills, List.map_append]
    refine h.once.append (List.nodup_singleton _) ?_
    rw [List.map_singleton, List.disjoint_singleton]
    intro hmem
    obtain ⟨bill, hbill, heq⟩ := List.mem_map.mp hmem
    exact hnew bill hbill heq
  · rw [hbills] at hbill
    rcases List.mem_append.mp hbill with hbill | hbill
    · exact (Function.update_of_ne (hnew bill hbill) ..).trans (h.ended bill hbill)
    · rw [List.mem_singleton.mp hbill]
      exact Function.update_self ..
  · by_cases heq : c' = c
    · subst heq
      have hsame : call = .ended := by simpa [Gateway.advance, eq_comm] using hc'
      rw [hsame] at hprincipal
      cases hprincipal
    · exact (h.arrived c' call principal' ((Function.update_of_ne heq ..).symm.trans hc')
        hprincipal).later _
  · rw [hbills] at hbill
    rcases List.mem_append.mp hbill with hbill | hbill
    · obtain ⟨principal', record', harrived, hrecord, hevent⟩ := h.billed bill hbill
      exact ⟨principal', record', harrived.later _, List.mem_append_left _ hrecord, hevent⟩
    · rw [List.mem_singleton.mp hbill]
      exact ⟨principal, record, (h.arrived c _ principal hcall rfl).later _,
        List.mem_append_right _ (List.mem_singleton_self _), rfl⟩

/-- The store records the question a request with a credential puts to it. -/
theorem recorded_asks (h : Accounted hash apiToken start labels log g) (c : CallId)
    (authorization : Option Tenancy.Text) (more : List Event) (hmore : keyEvents more = []) :
    Recorded hash (keyEvents (log ++ (g.asks c authorization ++ more))) g.keyStore.val := by
  rw [keyEvents_append, keyEvents_append, hmore, List.append_nil]
  unfold Gateway.asks
  cases bearerOf authorization with
  | none => simpa [keyEvents] using h.recorded
  | some fullKey =>
      have hstep : g.keyStore.val.step hash (.authenticate fullKey) = some
          ([.authenticated fullKey (g.keyStore.val.authenticate hash fullKey)], g.keyStore.val) :=
        rfl
      exact h.recorded.step hstep

theorem bills_asks (g : Gateway hash) (c : CallId) (authorization : Option Tenancy.Text) :
    bills (g.asks c authorization) = [] := by
  unfold Gateway.asks bills
  cases bearerOf authorization <;> rfl

theorem step {g' : Gateway hash}
    (hrun : (gateway hash apiToken start).run (gateway hash apiToken start).init labels =
      some (log, g)) (h : Accounted hash apiToken start labels log g)
    (hcollision : NoCollision hash (labels ++ [a]) (log ++ es))
    (hmoves : Gateway.Moves apiToken g a es g') :
    Accounted hash apiToken start (labels ++ [a]) (log ++ es) g' := by
  have hsame : ∀ more, keyEvents more = [] →
      Recorded hash (keyEvents (log ++ more)) g.keyStore.val := by
    intro more hmore
    rw [keyEvents_append, hmore, List.append_nil]
    exact h.recorded
  have hrunning : ∀ {c call}, g.calls c = some call → call ≠ .ended → g.calls c ≠ some .ended :=
    fun hcall hne hended => hne (Option.some.inj (hcall.symm.trans hended))
  have hkept : ∀ {c call principal}, g.calls c = some call →
      call.principal? = some principal → ∀ principal', some principal = some principal' →
        Arrived hash apiToken start (labels ++ [a]) c principal' := by
    intro c call principal hcall hprincipal principal' heq
    cases heq
    exact (h.arrived c call principal hcall hprincipal).later [a]
  cases hmoves with
  | @stored _ keyId call hcall =>
      refine h.quiet _ g.now ?_ ?_
      · have hkeys : keyEvents (g.stored keyId call).1 = (ReachedStore.step g.keyStore call).1 := by
          simp [keyEvents, Gateway.stored, List.filterMap_map, Event.key?, Function.comp_def]
        rw [keyEvents_append, hkeys]
        exact h.recorded.step (ReachedStore.step_eq g.keyStore call)
      · simp [bills, Gateway.stored, List.filterMap_map, Event.bill?, Function.comp_def]
  | ticked => exact h.quiet g.keyStore _ (hsame [] rfl) rfl
  | @refused c authorization refusal hfree hresolve =>
      refine h.advance (h.recorded_asks c authorization _ rfl) ?_ (by simp [hfree]) nofun
      rw [bills_append, bills_asks]
      rfl
  | @resolved c authorization principal hfree hresolve =>
      have hrecorded := h.recorded_asks c authorization [] rfl
      rw [List.append_nil] at hrecorded
      refine h.advance hrecorded (bills_asks g c authorization) (by simp [hfree])
        fun principal' heq => ?_
      cases heq
      refine ⟨labels, authorization, [], log, g, rfl, hrun, ?_⟩
      refine charged_of_resolved h.recorded (fun presented hbearer fullKey record hcreated => ?_)
        hresolve
      refine hcollision c authorization presented
        (List.mem_append_right _ (List.mem_singleton_self _)) hbearer fullKey record ?_
      rw [keyEvents_append]
      exact List.mem_append_left _ hcreated
  | unlimited hcall | limited hcall | passed hcall | forwarded hcall =>
      exact h.advance (hsame [] rfl) rfl (hrunning hcall nofun) (hkept hcall rfl)
  | @rejected c principal quota since rejects e hcall he =>
      have hquiet : keyEvents [e] = [] ∧ bills [e] = [] := by
        rcases he with ⟨spent, rfl⟩ | ⟨error, rfl⟩
        · exact ⟨rfl, rfl⟩
        · exact ⟨rfl, rfl⟩
      exact h.advance (hsame [e] hquiet.1) hquiet.2 (hrunning hcall nofun) nofun
  | billed hcall hrecord => exact h.bill hcall hrecord
  | unbilled hcall hrecord =>
      exact h.advance (hsame _ rfl) rfl (hrunning hcall nofun) nofun
  | reported hcall => exact h.advance (hsame _ rfl) rfl (hrunning hcall nofun) nofun
  | finished hcall =>
      refine h.advance (hsame [] rfl) rfl ?_ nofun
      rcases hcall with hcall | hcall
      · exact hrunning hcall nofun
      · exact hrunning hcall nofun

end Accounted

theorem accounted_run {labels : List Action} : ∀ {log : List Event} {g : Gateway hash},
    (gateway hash apiToken start).run (gateway hash apiToken start).init labels = some (log, g) →
      NoCollision hash labels log → Accounted hash apiToken start labels log g := by
  induction labels using List.reverseRecOn with
  | nil =>
      intro log g hrun _
      cases hrun
      exact ⟨Recorded.init, rfl, List.nodup_nil, nofun, nofun, nofun⟩
  | append_singleton labels a ih =>
      intro log g hrun hcollision
      obtain ⟨before, t, es, hbefore, hstep, rfl⟩ := Machine.run_snoc_eq_some.mp hrun
      exact (ih hbefore hcollision.before).step hbefore hcollision (Gateway.step_moves hstep)

/-! ## Owners -/

/-- A principal that can be charged. -/
def Owner (log : List Event) (principal : Principal) : Prop :=
  principal = legacy ∨
    ∃ fullKey record, .created fullKey record ∈ keyEvents log ∧ principal = record.principal

theorem Arrived.owner {labels : List Action} {log : List Event} {g : Gateway hash} {c : CallId}
    {principal : Principal}
    (hrun : (gateway hash apiToken start).run (gateway hash apiToken start).init labels =
      some (log, g)) (h : Arrived hash apiToken start labels c principal) :
    Owner log principal := by
  obtain ⟨before, authorization, after, earlier, t, rfl, hbefore, hcharged⟩ := h
  obtain ⟨earlier', t', rest, hbefore', -, rfl⟩ := Machine.run_append_eq_some.mp hrun
  cases hbefore.symm.trans hbefore'
  cases hcharged with
  | @key fullKey record hbearer hissued hprincipal =>
      obtain ⟨events, after', hevents, -⟩ := hissued
      refine Or.inr ⟨fullKey, record, ?_, hprincipal⟩
      rw [keyEvents_append, hevents]
      exact List.mem_append_left _ (List.mem_append_right _ List.mem_cons_self)
  | shared hbearer htoken hprincipal => exact Or.inl hprincipal

/-- The row of a minted key. -/
theorem Recorded.row_of_mem {s : ReachedStore hash} {es : List KeyEvent}
    (h : Recorded hash es s.val) {fullKey : Tenancy.Text} {record : ApiKeyRecord}
    (hmem : .created fullKey record ∈ es) :
    ∃ row ∈ s.val.rows, row.record.keyId = record.keyId ∧
      row.record.principal = record.principal := by
  obtain ⟨before, after, hes⟩ := List.append_of_mem hmem
  obtain ⟨row, hrow, hof⟩ := h.row_of_created before fullKey record after hes
  exact ⟨row, hrow, hof.keyId, hof.principal⟩

/-- A key id has one owner. -/
theorem Owner.unique {s : ReachedStore hash} {log : List Event} {p q : Principal}
    (hrecorded : Recorded hash (keyEvents log) s.val) (hp : Owner log p) (hq : Owner log q)
    (hkey : p.keyId = q.keyId) : p = q := by
  have hlegacy : ∀ {fullKey record}, .created fullKey record ∈ keyEvents log →
      record.principal.keyId ≠ legacy.keyId := by
    intro fullKey record hmem heq
    obtain ⟨row, hrow, hrowKey, -⟩ := Recorded.row_of_mem hrecorded hmem
    have hhex : 'l' ∈ hexDigits := by
      refine s.minted row hrow 'l' ?_
      have hid : row.record.keyId = legacy.keyId := hrowKey.trans heq
      rw [hid]
      decide
    exact absurd hhex (by decide)
  rcases hp with rfl | ⟨fullKey, record, hmem, rfl⟩
  · rcases hq with rfl | ⟨fullKey, record, hmem, rfl⟩
    · rfl
    · exact absurd hkey.symm (hlegacy hmem)
  · rcases hq with rfl | ⟨fullKey', record', hmem', rfl⟩
    · exact absurd hkey (hlegacy hmem)
    · obtain ⟨row, hrow, hrowKey, hprincipal⟩ := Recorded.row_of_mem hrecorded hmem
      obtain ⟨row', hrow', hrowKey', hprincipal'⟩ := Recorded.row_of_mem hrecorded hmem'
      have hsame : row = row' :=
        KeyStore.unique hrow hrow' (hrowKey.trans (hkey.trans hrowKey'.symm))
      rw [← hprincipal, ← hprincipal', hsame]

/-- In the ledger of a gateway each key belongs to one customer. -/
theorem Accounted.owned {labels : List Action} {log : List Event} {g : Gateway hash}
    (hrun : (gateway hash apiToken start).run (gateway hash apiToken start).init labels =
      some (log, g)) (h : Accounted hash apiToken start labels log g) : Owned g.ledger := by
  have howner : ∀ row ∈ g.ledger, ∃ principal record, Owner log principal ∧
      row.event = usageEvent principal record := by
    intro row hrow
    have hevent : row.event ∈ (bills log).map Prod.snd := h.ledger ▸ List.mem_map_of_mem hrow
    obtain ⟨bill, hbill, heq⟩ := List.mem_map.mp hevent
    obtain ⟨principal, record, harrived, -, hbilled⟩ := h.billed bill hbill
    exact ⟨principal, record, harrived.owner hrun, heq ▸ hbilled⟩
  intro a ha b hb hkey
  obtain ⟨p, record, hp, hpa⟩ := howner a ha
  obtain ⟨q, record', hq, hqb⟩ := howner b hb
  rw [hpa, hqb] at hkey ⊢
  rw [hp.unique h.recorded hq (String.ofList_injective hkey)]
  rfl

/-- In every run of the gateway the ledger holds, in order, one row for each request that was
billed and no other, every key in it belongs to one customer, and what a request was billed is
what the proxy reported of it, for the owner of the live key (or of the shared token) it
presented when it arrived. -/
theorem ledger_attributed {labels : List Action} {log : List Event} {g : Gateway hash}
    (hrun : (gateway hash apiToken start).run (gateway hash apiToken start).init labels =
      some (log, g)) (hcollision : NoCollision hash labels log) :
    g.ledger.map Row.event = (bills log).map Prod.snd ∧ ((bills log).map Prod.fst).Nodup ∧
      Owned g.ledger ∧
      ∀ c event, .billed c event ∈ log → ∃ principal record,
        Arrived hash apiToken start labels c principal ∧ .record c record ∈ labels ∧
          event = usageEvent principal record := by
  have h := accounted_run hrun hcollision
  exact ⟨h.ledger, h.once, h.owned hrun, fun c event he => h.billed (c, event) (mem_bills.mpr he)⟩

/-- The mint of a key. -/
def mintA : Mint := ⟨['a'], ['x'], by simp [hexDigits], by decide, by decide⟩

/-- A time of a day in spring. -/
def springDay : UtcTime := ⟨2026, 4, 23, 9, 15, 0, 0, by decide, by decide⟩

/-- A key is minted, presented, and revoked while its call is with the upstream. -/
def billedAfterRevocation : List Action :=
  [.create mintA ['A'] [] (some 9), .arrive ⟨0⟩ (some (bearerPrefix ++ mintA.fullKey)),
    .monthStart ⟨0⟩, .check ⟨0⟩ false, .forward ⟨0⟩, .revoke ['a'],
    .arrive ⟨1⟩ (some (bearerPrefix ++ mintA.fullKey)),
    .record ⟨0⟩ ⟨"/v1/completions", "m", 3, 4, true, 200⟩]

/-- What the call is billed. -/
def billedToA : UsageEvent :=
  usageEvent ⟨['a'], ['A'], [], some 9⟩ ⟨"/v1/completions", "m", 3, 4, true, 200⟩

theorem billedAfterRevocation_attributed :
    ∃ log g, (gateway (id : Tenancy.Text → Tenancy.Text) none springDay).run
        (gateway id none springDay).init billedAfterRevocation = some (log, g) ∧
      g.ledger.map Row.event = [billedToA] ∧ Owned g.ledger ∧
      ∃ principal record, Arrived id none springDay billedAfterRevocation ⟨0⟩ principal ∧
        .record ⟨0⟩ record ∈ billedAfterRevocation ∧ billedToA = usageEvent principal record := by
  have hruns : ((gateway (id : Tenancy.Text → Tenancy.Text) none springDay).run
      (gateway id none springDay).init billedAfterRevocation).any (fun r =>
        decide (bills r.1 = [(⟨0⟩, billedToA)])) = true := by decide
  obtain ⟨⟨log, g⟩, hrun, hbills⟩ := (Option.any_eq_true ..).mp hruns
  have hbills := of_decide_eq_true hbills
  obtain ⟨hledger, -, howned, hcharged⟩ := ledger_attributed hrun fun _ _ _ _ _ _ _ _ heq => heq
  have hbilled : .billed ⟨0⟩ billedToA ∈ log := by
    rw [← mem_bills, hbills]
    exact List.mem_singleton_self _
  refine ⟨log, g, hrun, ?_, howned, hcharged ⟨0⟩ billedToA hbilled⟩
  rw [hledger, hbills]
  rfl

end Repercep.Tenants
