import Mathlib
import Repercep.Tenants.Attribution
set_option autoImplicit false

/-!
# Tenants do not see each other

A key's requests read of the store the row of that key, and of the ledger the rows of that
key.  So whatever the other keys' owners, the operators and the holders of the shared token
do, the requests of one key are answered and billed as on a gateway of their own.
-/

namespace Repercep.Tenants

open Repercep.Foundation Repercep.Tenancy Repercep.Ledger

variable {D : Type} [DecidableEq D] {hash : Tenancy.Text → D}

/-! ## One row of the store -/

section Select

variable {s s' t : KeyStore D} {keyId k now : Tenancy.Text}

omit [DecidableEq D] in
theorem select_isSome_iff : (s.select k).isSome = true ↔
    k ∈ s.rows.map fun row => row.record.keyId := by
  rw [KeyStore.select, List.find?_isSome, List.mem_map]
  constructor
  · rintro ⟨row, hrow, hkey⟩
    exact ⟨row, hrow, of_decide_eq_true hkey⟩
  · rintro ⟨row, hrow, hkey⟩
    exact ⟨row, hrow, decide_eq_true hkey⟩

omit [DecidableEq D] in
theorem keyId_of_select {row : KeyRow D} (h : s.select k = some row) : row.record.keyId = k := by
  simpa using List.find?_some h

omit [DecidableEq D] in
theorem select_insert {row : KeyRow D} (h : s.insert row = some s') :
    s'.select k = if row.record.keyId = k then some row else s.select k := by
  have hrows := KeyStore.insert_rows h
  have hnew : row.record.keyId ∉ s.rows.map fun row => row.record.keyId := by
    intro hmem
    rw [KeyStore.insert, dif_pos hmem] at h
    cases h
  unfold KeyStore.select
  rw [hrows, List.find?_append]
  split
  · next hkey =>
      have hnone : s.rows.find? (fun row => row.record.keyId = k) = none := by
        rw [← Option.not_isSome_iff_eq_none]
        exact fun hsome => hnew (hkey ▸ select_isSome_iff.mp hsome)
      simp [hnone, hkey]
  · next hkey => simp [hkey]

omit [DecidableEq D] in
theorem insert_eq_none {row : KeyRow D} :
    s.insert row = none ↔ (s.select row.record.keyId).isSome = true := by
  rw [select_isSome_iff]
  unfold KeyStore.insert
  split
  · next hmem => exact iff_of_true rfl hmem
  · next hmem => exact iff_of_false (Option.some_ne_none _) hmem

omit [DecidableEq D] in
theorem select_revoke : (s.revoke keyId now).2.select k =
    (s.select k).map (KeyStore.stamp keyId now) := by
  simp only [KeyStore.select, KeyStore.revoke, List.find?_map, Function.comp_def,
    KeyStore.stamp_keyId]

omit [DecidableEq D] in
theorem stamp_other {row : KeyRow D} (hne : row.record.keyId ≠ keyId) :
    KeyStore.stamp keyId now row = row :=
  if_neg fun h => hne h.1

omit [DecidableEq D] in
/-- A revocation depends on the row of the key. -/
theorem revoke_congr (h : t.select k = s.select k) : (t.revoke k now).1 = (s.revoke k now).1 := by
  have hrow : ∀ u : KeyStore D, (u.revoke k now).1 = true ↔
      ∃ row, u.select k = some row ∧ row.record.revokedAt = none := by
    intro u
    rw [KeyStore.revoke_true]
    constructor
    · rintro ⟨row, hrow, rfl, hactive⟩
      exact ⟨row, KeyStore.select_of_mem hrow, hactive⟩
    · rintro ⟨row, hselect, hactive⟩
      exact ⟨row, List.mem_of_find?_eq_some hselect, keyId_of_select hselect, hactive⟩
  rw [Bool.eq_iff_iff, hrow, hrow, h]

/-- And so does the question for a credential that names the key. -/
theorem authenticate_congr (hash : Tenancy.Text → D) {fullKey : Tenancy.Text} (hparse : parseKeyId fullKey = some k)
    (h : t.select k = s.select k) : t.authenticate hash fullKey = s.authenticate hash fullKey := by
  unfold KeyStore.authenticate
  simp only [hparse, h]

theorem authenticate_owner {fullKey : Tenancy.Text} {principal : Principal}
    (hauth : s.authenticate hash fullKey = some principal) :
    ∃ row, s.select row.record.keyId = some row ∧ parseKeyId fullKey = some row.record.keyId ∧
      principal = row.record.principal := by
  obtain ⟨row, hrow, hparse, -, -, hprincipal⟩ :=
    (KeyStore.authenticate_iff_live s fullKey principal).mp hauth
  exact ⟨row, KeyStore.select_of_mem hrow, hparse, hprincipal⟩

end Select

/-! ## The rows of one key in the ledger -/

section Usage

variable {ledger : UsageLedger} {key : String} {since : Tenancy.Text} {now : UtcTime}

/-- The rows of a key. -/
def rowsOf (key : String) (ledger : UsageLedger) : UsageLedger :=
  ledger.filter fun row => row.event.keyId = key

theorem record_of_fits {rows rows' : UsageLedger} {event : UsageEvent} {now : UtcTime}
    (h : rows.record event now = some rows') (ledger : UsageLedger) (later : UtcTime) :
    ledger.record event later = some (ledger ++ [⟨isoformat later, event⟩]) := by
  unfold UsageLedger.record at h ⊢
  split at h
  · next hfits => rw [if_pos hfits]
  · cases h

theorem record_of_not_fits {rows : UsageLedger} {event : UsageEvent} {now : UtcTime}
    (h : rows.record event now = none) (ledger : UsageLedger) (later : UtcTime) :
    ledger.record event later = none := by
  unfold UsageLedger.record at h ⊢
  split at h
  · cases h
  · next hfits => rw [if_neg hfits]

theorem rowsOf_snoc (row : Row) : rowsOf key (ledger ++ [row]) =
    if row.event.keyId = key then rowsOf key ledger ++ [row] else rowsOf key ledger := by
  unfold rowsOf
  rw [List.filter_append]
  split
  · next hkey => rw [List.filter_singleton, decide_eq_true hkey, cond_true]
  · next hkey => rw [List.filter_singleton, decide_eq_false hkey, cond_false, List.append_nil]

theorem tokensSince_rowsOf : (rowsOf key ledger).tokensSince (some key) none since =
    ledger.tokensSince (some key) none since := by
  unfold UsageLedger.tokensSince UsageLedger.select rowsOf
  simp only [List.filter_filter]
  congr 3
  refine List.filter_congr fun row _ => ?_
  by_cases hkey : row.event.keyId = key <;> simp [hkey]

/-- What the usage endpoint reports of a key. -/
def reportOf (key : String) : List UsageSummary → UsageReport
  | [] => ⟨key, 0, 0, 0, 0, 0⟩
  | spent :: _ => ⟨key, spent.calls, spent.promptTokens, spent.completionTokens,
      spent.totalTokens, spent.estimatedTokens⟩

theorem usage_summary {summaries : List UsageSummary}
    (h : ledger.summary (some (monthStart now)) none = .answer summaries) :
    usage ledger key now = .answer (reportOf key (summaries.filter fun s => s.keyId = key)) := by
  unfold usage
  rw [h]
  dsimp only
  cases summaries.filter fun s => s.keyId = key <;> rfl

theorem groups_of_key {rows : List Row} {customer : String}
    (howned : ∀ row ∈ rows, row.event.keyId = key → row.event.customer = customer) :
    (groups rows).filter (fun group => group.1 = key) =
      if rowsOf key rows = [] then [] else [(key, customer)] := by
  split
  · next hnone =>
      refine List.filter_eq_nil_iff.mpr fun group hgroup hkey => ?_
      obtain ⟨row, hrow, rfl⟩ := List.mem_map.mp (List.mem_dedup.mp hgroup)
      exact List.filter_eq_nil_iff.mp hnone row hrow hkey
  · next hsome =>
      have honly : ∀ group ∈ (groups rows).filter (fun group => group.1 = key),
          group = (key, customer) := by
        intro group hgroup
        obtain ⟨hmem, hkey⟩ := List.mem_filter.mp hgroup
        obtain ⟨row, hrow, rfl⟩ := List.mem_map.mp (List.mem_dedup.mp hmem)
        have hkey := of_decide_eq_true hkey
        exact Prod.ext hkey (howned row hrow hkey)
      have hnodup : ((groups rows).filter fun group => group.1 = key).Nodup :=
        (List.nodup_dedup _).filter _
      obtain ⟨row, hrow⟩ := List.exists_mem_of_ne_nil _ hsome
      obtain ⟨hrow, hkey⟩ := List.mem_filter.mp hrow
      have hmem : row.group ∈ (groups rows).filter fun group => group.1 = key :=
        List.mem_filter.mpr ⟨group_mem hrow, hkey⟩
      rw [List.eq_replicate_of_mem honly] at hnodup ⊢
      have hlength : ((groups rows).filter fun group => group.1 = key).length = 1 :=
        Nat.le_antisymm (List.nodup_replicate.mp hnodup) (List.length_pos_of_mem hmem)
      rw [hlength]
      rfl

theorem summaryOf_rowsOf (rows : List Row) (customer : String) :
    summaryOf (rowsOf key rows) (key, customer) = summaryOf rows (key, customer) := by
  have hmembers : (rowsOf key rows).filter (fun row => row.group = (key, customer)) =
      rows.filter fun row => row.group = (key, customer) := by
    rw [rowsOf, List.filter_filter]
    refine List.filter_congr fun row _ => ?_
    by_cases hgroup : row.group = (key, customer)
    · have hkey : row.event.keyId = key := congrArg Prod.fst hgroup
      simp [hgroup, hkey]
    · simp [hgroup]
  unfold summaryOf
  rw [hmembers]

/-- A summary has one row for a key with one customer, made of the rows of the key. -/
theorem summaries_of_key {rows : List Row} {customer : String}
    (howned : ∀ row ∈ rows, row.event.keyId = key → row.event.customer = customer) :
    ((((groups rows).map (summaryOf rows)).mergeSort summaryLe).filter
        fun s => s.keyId = key) =
      if rowsOf key rows = [] then [] else [summaryOf (rowsOf key rows) (key, customer)] := by
  have hperm : ((((groups rows).map (summaryOf rows)).mergeSort summaryLe).filter
      fun s => s.keyId = key).Perm
        (((groups rows).filter fun group => group.1 = key).map (summaryOf rows)) := by
    refine ((summary_perm rows).filter _).trans ?_
    rw [List.filter_map]
    rfl
  rw [groups_of_key howned] at hperm
  split
  · next hnone =>
      rw [if_pos hnone] at hperm
      exact hperm.eq_nil
  · next hsome =>
      rw [if_neg hsome] at hperm
      rw [summaryOf_rowsOf]
      exact hperm.eq_singleton

theorem window_rowsOf : (rowsOf key ledger).window (some since) none =
    rowsOf key (ledger.window (some since) none) := by
  unfold UsageLedger.window rowsOf
  simp only [List.filter_filter]
  exact List.filter_congr fun row _ => Bool.and_comm ..

theorem rowsOf_rowsOf : rowsOf key (rowsOf key ledger) = rowsOf key ledger := by
  unfold rowsOf
  simp

/-- The endpoint reports of a key what it would report if there were no other. -/
theorem usage_rowsOf {customer : String} (hbounded : Bounded ledger)
    (howned : ∀ row ∈ ledger, row.event.keyId = key → row.event.customer = customer) :
    usage (rowsOf key ledger) key now = usage ledger key now := by
  have hgroups : ∀ {rows : UsageLedger}, Bounded rows → ∀ group,
      Bounded ((rows.window (some (monthStart now)) none).filter fun row => row.group = group) :=
    fun h group => h.sublist (List.filter_sublist.trans List.filter_sublist)
  have hmine : Bounded (rowsOf key ledger) := hbounded.sublist List.filter_sublist
  have hwindow : ∀ row ∈ ledger.window (some (monthStart now)) none, row.event.keyId = key →
      row.event.customer = customer :=
    fun row hrow => howned row (List.mem_of_mem_filter hrow)
  have hrows : ∀ row ∈ rowsOf key (ledger.window (some (monthStart now)) none),
      row.event.keyId = key → row.event.customer = customer :=
    fun row hrow => hwindow row (List.mem_of_mem_filter hrow)
  rw [usage_summary (summary_eq (hgroups hbounded)), usage_summary (summary_eq (hgroups hmine)),
    window_rowsOf, summaries_of_key hwindow, summaries_of_key hrows, rowsOf_rowsOf]

end Usage

/-! ## The part of one key -/

section Part

variable (k : Tenancy.Text) (mine : CallId → Bool)

/-- The steps of a key: those of its requests, what operators do about it, and the clock's. -/
def Action.isOf : Action → Bool
  | .create mint _ _ _ => mint.keyId = k
  | .revoke keyId => keyId = k
  | .tick _ => true
  | .arrive c _ | .monthStart c | .check c _ | .forward c | .record c _ | .usage c
  | .finish c => mine c

/-- What they emit. -/
def Event.isOf : Event → Bool
  | .store keyId _ => keyId = k
  | .asked c _ _ | .refused c _ | .quotaExhausted c _ _ | .failed c _ | .billed c _
  | .unbilled c _ | .reported c _ _ => mine c

/-- The credential presented names the key. -/
def Names (authorization : Option Tenancy.Text) : Prop :=
  (bearerOf authorization).bind parseKeyId = some k

/-- The owner of the key, once it has been minted. -/
def ownerOf (s : KeyStore D) : Option Principal := (s.select k).map fun row => row.record.principal

/-- The requests of the key are its owner's, and no other request goes by its id. -/
def OwnedBy (s : KeyStore D) (c : CallId) (principal : Principal) : Prop :=
  if mine c = true then ownerOf k s = some principal else principal.keyId ≠ k

/-- `t` is the part of `g` that belongs to the key. -/
structure PartOf (g t : Gateway hash) : Prop where
  row : t.keyStore.val.select k = g.keyStore.val.select k
  now : t.now = g.now
  calls : ∀ c, mine c = true → t.calls c = g.calls c
  ledger : t.ledger = rowsOf (String.ofList k) g.ledger
  resolved : ∀ c call principal, g.calls c = some call → call.principal? = some principal →
    OwnedBy k mine g.keyStore.val c principal
  customer : ∀ row ∈ g.ledger, row.event.keyId = String.ofList k → ∃ principal,
    ownerOf k g.keyStore.val = some principal ∧
      row.event.customer = String.ofList principal.customer

end Part

/-! ## Steps of the store -/

section StoreSteps

variable {s t : KeyStore D} {k keyId now : Tenancy.Text} {call : KeyCall} {es : List KeyEvent}
  {s' : KeyStore D}

omit [DecidableEq D] in
theorem keyId_of_ownerOf {principal : Principal} (h : ownerOf k s = some principal) :
    principal.keyId = k := by
  obtain ⟨row, hrow, rfl⟩ := Option.map_eq_some_iff.mp h
  exact keyId_of_select hrow

/-- The key a call of an operator is about. -/
def KeyCall.isAbout (k : Tenancy.Text) : KeyCall → Prop
  | .create mint _ _ _ _ => mint.keyId = k
  | .revoke keyId _ => keyId = k
  | .authenticate _ => False

omit [DecidableEq D] in
theorem insert_congr (row : KeyRow D)
    (hrow : t.select row.record.keyId = s.select row.record.keyId) :
    (t.insert row = none ∧ s.insert row = none) ∨
      ∃ t' s', t.insert row = some t' ∧ s.insert row = some s' ∧
        t'.select row.record.keyId = s'.select row.record.keyId := by
  have hsame : t.insert row = none ↔ s.insert row = none := by
    rw [insert_eq_none, insert_eq_none, hrow]
  cases ht : t.insert row with
  | none => exact Or.inl ⟨rfl, hsame.mp ht⟩
  | some t' =>
      cases hs : s.insert row with
      | none => exact absurd (ht.symm.trans (hsame.mpr hs)) nofun
      | some s' =>
          refine Or.inr ⟨t', s', rfl, rfl, ?_⟩
          rw [select_insert ht, select_insert hs, hrow]

/-- The event of a `create`. -/
def createEvents : Except CreateError (Tenancy.Text × ApiKeyRecord) → List KeyEvent
  | .error e => [.refused e]
  | .ok (fullKey, record) => [.created fullKey record]

theorem step_create (s : KeyStore D) (mint : Mint) (customer label : Tenancy.Text)
    (quota : Option Int) (now : Tenancy.Text) :
    s.step hash (.create mint customer label quota now) =
      some (createEvents (s.create hash mint customer label quota now).1,
        (s.create hash mint customer label quota now).2) := by
  rw [KeyStore.step]
  rcases s.create hash mint customer label quota now with ⟨_ | ⟨_, _⟩, _⟩ <;> rfl

omit [DecidableEq D] in
/-- What `create` answers and stores of a key depends on the row of the key. -/
theorem create_congr (hash : Tenancy.Text → D) {mint : Mint} {customer label : Tenancy.Text} {quota : Option Int}
    (hrow : t.select mint.keyId = s.select mint.keyId) :
    (t.create hash mint customer label quota now).1 =
        (s.create hash mint customer label quota now).1 ∧
      (t.create hash mint customer label quota now).2.select mint.keyId =
        (s.create hash mint customer label quota now).2.select mint.keyId := by
  have hinsert := insert_congr ⟨⟨mint.keyId, customer, label, now, none, quota⟩, hash mint.fullKey⟩
    hrow
  unfold KeyStore.create
  split
  · exact ⟨rfl, hrow⟩
  · split
    · exact ⟨rfl, hrow⟩
    · dsimp only
      rcases hinsert with h | h
      · rw [h.1, h.2]
        exact ⟨rfl, hrow⟩
      · obtain ⟨t', s', ht, hs, hselect⟩ := h
        rw [ht, hs]
        exact ⟨rfl, hselect⟩

/-- A call about a key reads and writes the row of the key. -/
theorem step_about (hcall : KeyCall.isAbout k call) (hrow : t.select k = s.select k)
    (hstep : s.step hash call = some (es, s')) :
    ∃ t', t.step hash call = some (es, t') ∧ t'.select k = s'.select k := by
  cases call with
  | create mint customer label quota now =>
      have hkey : mint.keyId = k := hcall
      subst hkey
      obtain ⟨hresult, hselect⟩ := create_congr hash hrow
      rw [step_create] at hstep
      cases hstep
      rw [step_create, hresult]
      exact ⟨_, rfl, hselect⟩
  | revoke keyId now =>
      have hkey : keyId = k := hcall
      subst hkey
      cases hstep
      refine ⟨(t.revoke keyId now).2, ?_, ?_⟩
      · rw [KeyStore.step, revoke_congr hrow]
      · rw [select_revoke, select_revoke, hrow]
  | authenticate fullKey => cases hcall

/-- No other call touches it. -/
theorem step_elsewhere (hcall : ¬ KeyCall.isAbout k call)
    (hstep : s.step hash call = some (es, s')) : s'.select k = s.select k := by
  cases call with
  | create mint customer label quota now =>
      rw [step_create] at hstep
      cases hstep
      rcases KeyStore.create_cases (Prod.eta _).symm with h | h
      · obtain ⟨e, -, hsame⟩ := h
        rw [hsame]
      · obtain ⟨record, -, hrecord, hinsert⟩ := h
        rw [select_insert hinsert, if_neg]
        rw [hrecord]
        exact hcall
  | revoke keyId now =>
      cases hstep
      rw [select_revoke]
      cases hselect : s.select k with
      | none => rfl
      | some row =>
          have hne : row.record.keyId ≠ keyId :=
            fun heq => hcall (heq.symm.trans (keyId_of_select hselect))
          exact congrArg some (stamp_other hne)
  | authenticate fullKey =>
      cases hstep
      rfl

/-- A key keeps its owner. -/
theorem ownerOf_step {principal : Principal} (howner : ownerOf k s = some principal)
    (hstep : s.step hash call = some (es, s')) : ownerOf k s' = some principal := by
  obtain ⟨row, hrow, rfl⟩ := Option.map_eq_some_iff.mp howner
  cases call with
  | create mint customer label quota now =>
      rw [step_create] at hstep
      cases hstep
      rcases KeyStore.create_cases (Prod.eta _).symm with h | h
      · obtain ⟨e, -, hsame⟩ := h
        rw [hsame]
        exact howner
      · obtain ⟨record, -, hrecord, hinsert⟩ := h
        have hother : record.keyId ≠ k := by
          intro heq
          have hsome : (s.select record.keyId).isSome = true :=
            heq.symm ▸ Option.isSome_of_eq_some hrow
          have hnone : s.insert ⟨record, hash mint.fullKey⟩ = none := insert_eq_none.mpr hsome
          exact absurd (hnone.symm.trans hinsert) nofun
        unfold ownerOf
        rw [select_insert hinsert, if_neg hother]
        exact howner
  | revoke keyId now =>
      cases hstep
      unfold ownerOf
      rw [select_revoke, hrow, Option.map_some, Option.map_some]
      unfold KeyStore.stamp
      split <;> rfl
  | authenticate fullKey =>
      cases hstep
      exact howner

end StoreSteps

/-! ## Steps of the gateway -/

section GatewaySteps

variable {apiToken : Option Tenancy.Text} {k : Tenancy.Text} {mine : CallId → Bool}
  {g g' t : Gateway hash} {es : List Event}

/-- Who is let in with a credential that names the key owns it, and nobody else goes by its
id. -/
theorem ownedBy_of_resolved {c : CallId} {authorization : Option Tenancy.Text}
    {principal : Principal} (hlegacy : k ≠ legacy.keyId)
    (htoken : ∀ token, apiToken = some token → parseKeyId token ≠ some k)
    (hmine : mine c = true ↔ Names k authorization)
    (hresolve : (g.credentials apiToken).requireApiToken authorization = .ok principal) :
    OwnedBy k mine g.keyStore.val c principal := by
  obtain ⟨bearer, hbearer, hcases⟩ := Gateway.resolved_cases hresolve
  have hnames : mine c = true ↔ parseKeyId bearer = some k := by
    rw [hmine, Names, hbearer, Option.bind_some]
  unfold OwnedBy
  rcases hcases with hauth | ⟨hshared, rfl⟩
  · obtain ⟨row, hrow, hparse, rfl⟩ := authenticate_owner hauth
    split
    · next hc =>
        have hkey : row.record.keyId = k := Option.some.inj (hparse.symm.trans (hnames.mp hc))
        rw [ownerOf, ← hkey, hrow, Option.map_some]
    · next hc =>
        intro hkey
        exact hc (hnames.mpr (hparse.trans (congrArg some hkey)))
  · rw [if_neg fun hc => htoken bearer hshared (hnames.mp hc)]
    exact Ne.symm hlegacy

namespace PartOf

theorem resolved_advance {c : CallId} {call : Call} (h : PartOf k mine g t)
    (hcall : ∀ principal, call.principal? = some principal →
      OwnedBy k mine g.keyStore.val c principal) :
    ∀ c' call' principal, (g.advance c call).calls c' = some call' →
      call'.principal? = some principal → OwnedBy k mine g.keyStore.val c' principal := by
  intro c' call' principal hc' hprincipal
  rw [Gateway.advance_calls] at hc'
  split at hc'
  · next heq =>
      cases hc'
      exact heq ▸ hcall principal hprincipal
  · exact h.resolved c' call' principal hc' hprincipal

/-- A request of the key takes a step in both. -/
theorem advance {c : CallId} {call : Call} (h : PartOf k mine g t)
    (hcall : ∀ principal, call.principal? = some principal →
      OwnedBy k mine g.keyStore.val c principal) :
    PartOf k mine (g.advance c call) (t.advance c call) where
  row := h.row
  now := h.now
  calls := by
    intro c' hc'
    rw [Gateway.advance_calls, Gateway.advance_calls, h.calls c' hc']
  ledger := h.ledger
  resolved := h.resolved_advance hcall
  customer := h.customer

/-- Another request takes a step. -/
theorem advance_other {c : CallId} {call : Call} (h : PartOf k mine g t) (hc : mine c = false)
    (hcall : ∀ principal, call.principal? = some principal →
      OwnedBy k mine g.keyStore.val c principal) :
    PartOf k mine (g.advance c call) t where
  row := h.row
  now := h.now
  calls := by
    intro c' hc'
    have hne : c' ≠ c := by
      intro heq
      rw [heq, hc] at hc'
      cases hc'
    rw [Gateway.advance_calls, if_neg hne]
    exact h.calls c' hc'
  ledger := h.ledger
  resolved := h.resolved_advance hcall
  customer := h.customer

/-- An operator's call, on the store of `g` and perhaps on that of `t`. -/
theorem stored {call : KeyCall} {events : List KeyEvent} {gs ts : ReachedStore hash}
    (h : PartOf k mine g t) (hstep : g.keyStore.val.step hash call = some (events, gs.val))
    (hrow : ts.val.select k = gs.val.select k) :
    PartOf k mine { g with keyStore := gs } { t with keyStore := ts } where
  row := hrow
  now := h.now
  calls := h.calls
  ledger := h.ledger
  resolved := by
    intro c call principal hcall hprincipal
    have howned := h.resolved c call principal hcall hprincipal
    unfold OwnedBy at howned ⊢
    split
    · next hc =>
        rw [if_pos hc] at howned
        exact ownerOf_step howned hstep
    · next hc =>
        rw [if_neg hc] at howned
        exact howned
  customer := by
    intro row hrow hkey
    obtain ⟨principal, howner, hcustomer⟩ := h.customer row hrow hkey
    exact ⟨principal, ownerOf_step howner hstep, hcustomer⟩

/-- A request of the key is billed. -/
theorem billed {principal : Principal} (record : Metering.CallRecord)
    (h : PartOf k mine g t) (howner : ownerOf k g.keyStore.val = some principal) :
    PartOf k mine
      { g with ledger := g.ledger ++ [⟨isoformat g.now, usageEvent principal record⟩] }
      { t with ledger := t.ledger ++ [⟨isoformat t.now, usageEvent principal record⟩] } where
  row := h.row
  now := h.now
  calls := h.calls
  ledger := by
    have hkey : (usageEvent principal record).keyId = String.ofList k :=
      congrArg String.ofList (keyId_of_ownerOf howner)
    rw [rowsOf_snoc, if_pos hkey, ← h.ledger, ← h.now]
  resolved := h.resolved
  customer := by
    intro row hrow hkey
    rcases List.mem_append.mp hrow with hold | hnew
    · exact h.customer row hold hkey
    · rw [List.mem_singleton.mp hnew]
      exact ⟨principal, howner, rfl⟩

/-- Another request is billed. -/
theorem billed_other {principal : Principal} {record : Metering.CallRecord}
    (h : PartOf k mine g t) (hkey : principal.keyId ≠ k) :
    PartOf k mine
      { g with ledger := g.ledger ++ [⟨isoformat g.now, usageEvent principal record⟩] } t where
  row := h.row
  now := h.now
  calls := h.calls
  ledger := by
    have hne : (usageEvent principal record).keyId ≠ String.ofList k :=
      fun heq => hkey (String.ofList_injective heq)
    rw [rowsOf_snoc, if_neg hne]
    exact h.ledger
  resolved := h.resolved
  customer := by
    intro row hrow heq
    rcases List.mem_append.mp hrow with hold | hnew
    · exact h.customer row hold heq
    · rw [List.mem_singleton.mp hnew] at heq
      exact absurd (String.ofList_injective heq) hkey

/-- An operator's call about the key. -/
theorem stored_about (keyId : Tenancy.Text) {call : KeyCall} (h : PartOf k mine g t)
    (hcall : KeyCall.isAbout k call) :
    (t.stored keyId call).1 = (g.stored keyId call).1 ∧
      PartOf k mine (g.stored keyId call).2 (t.stored keyId call).2 := by
  have hstep := ReachedStore.step_eq g.keyStore call
  obtain ⟨t', ht, hrow⟩ := step_about hcall h.row hstep
  obtain ⟨hes, hstore⟩ := Prod.mk.inj
    (Option.some.inj ((ReachedStore.step_eq t.keyStore call).symm.trans ht))
  refine ⟨?_, h.stored hstep (hstore ▸ hrow)⟩
  unfold Gateway.stored
  rw [hes]

/-- An operator's call about another key. -/
theorem stored_elsewhere (keyId : Tenancy.Text) {call : KeyCall} (h : PartOf k mine g t)
    (hcall : ¬ KeyCall.isAbout k call) : PartOf k mine (g.stored keyId call).2 t := by
  have hstep := ReachedStore.step_eq g.keyStore call
  exact h.stored hstep (h.row.trans (step_elsewhere hcall hstep).symm)

/-- The credential is judged by the row of the key it names. -/
theorem arrive_eq (apiToken : Option Tenancy.Text) (c : CallId) {authorization : Option Tenancy.Text} (h : PartOf k mine g t)
    (hnames : Names k authorization) :
    t.asks c authorization = g.asks c authorization ∧
      (t.credentials apiToken).requireApiToken authorization =
        (g.credentials apiToken).requireApiToken authorization := by
  unfold Names at hnames
  cases hbearer : bearerOf authorization with
  | none =>
      rw [hbearer] at hnames
      cases hnames
  | some bearer =>
      rw [hbearer, Option.bind_some] at hnames
      have hauth := authenticate_congr hash hnames h.row
      unfold Gateway.asks Credentials.requireApiToken Credentials.resolve Credentials.authenticate
        Gateway.credentials
      rw [hbearer]
      simp only [hauth, Option.toList_some, List.map_cons, List.map_nil, Option.isNone_some,
        and_self]

theorem owner {c : CallId} {call : Call} {principal : Principal} (h : PartOf k mine g t)
    (hc : mine c = true) (hcall : g.calls c = some call)
    (hprincipal : call.principal? = some principal) :
    ownerOf k g.keyStore.val = some principal := by
  have howned := h.resolved c call principal hcall hprincipal
  unfold OwnedBy at howned
  rwa [if_pos hc] at howned

theorem kept {c : CallId} {call : Call} {principal : Principal} (h : PartOf k mine g t)
    (hcall : g.calls c = some call) (hprincipal : call.principal? = some principal) :
    ∀ principal', some principal = some principal' →
      OwnedBy k mine g.keyStore.val c principal' := by
  intro principal' heq
  exact h.resolved c call principal' hcall (hprincipal.trans heq)

/-- The quota check reads the rows of the key. -/
theorem check_eq {c : CallId} {principal : Principal} {quota : Int} {since : Tenancy.Text}
    (rejects : Bool) (h : PartOf k mine g t) (hc : mine c = true)
    (hcall : g.calls c = some (.asking principal quota since)) :
    (t.check c principal quota since rejects).1 = (g.check c principal quota since rejects).1 ∧
      PartOf k mine (g.check c principal quota since rejects).2
        (t.check c principal quota since rejects).2 := by
  have hkey := keyId_of_ownerOf (h.owner hc hcall rfl)
  have hended : PartOf k mine (g.advance c .ended) (t.advance c .ended) := h.advance nofun
  have hadmitted : PartOf k mine (g.advance c (.admitted principal))
      (t.advance c (.admitted principal)) :=
    h.advance (h.kept hcall rfl)
  unfold Gateway.check
  rw [h.ledger, hkey, tokensSince_rowsOf]
  split
  · split
    · exact ⟨rfl, hended⟩
    · exact ⟨rfl, hadmitted⟩
  · split
    · exact ⟨rfl, hended⟩
    · exact ⟨rfl, hadmitted⟩
  · exact ⟨rfl, hended⟩

theorem step_check {c : CallId} {principal : Principal} {quota : Int} {since : Tenancy.Text}
    {rejects : Bool} (h : PartOf k mine g t) (hc : mine c = true)
    (hcall : g.calls c = some (.asking principal quota since))
    (hstep : g.step apiToken (.check c rejects) = some (es, g')) :
    ∃ t', t.step apiToken (.check c rejects) = some (es, t') ∧ PartOf k mine g' t' := by
  obtain ⟨hes, hpart⟩ := h.check_eq rejects hc hcall
  simp only [Gateway.step, hcall, Option.some.injEq] at hstep
  simp only [Gateway.step, h.calls c hc, hcall]
  rw [hstep] at hes hpart
  exact ⟨(t.check c principal quota since rejects).2, congrArg some (Prod.ext hes rfl), hpart⟩

theorem customer_of_key (h : PartOf k mine g t) : ∃ customer, ∀ row ∈ g.ledger,
    row.event.keyId = String.ofList k → row.event.customer = customer := by
  cases howner : ownerOf k g.keyStore.val with
  | none =>
      refine ⟨"", fun row hrow hkey => ?_⟩
      obtain ⟨principal, hsome, -⟩ := h.customer row hrow hkey
      exact absurd (howner.symm.trans hsome) nofun
  | some principal =>
      refine ⟨String.ofList principal.customer, fun row hrow hkey => ?_⟩
      obtain ⟨principal', hsome, hcustomer⟩ := h.customer row hrow hkey
      cases howner.symm.trans hsome
      exact hcustomer

end PartOf

theorem isAbout_of_storeCall {a : Action} {now : UtcTime} {keyId : Tenancy.Text} {call : KeyCall}
    (hcall : a.storeCall now = some (keyId, call)) :
    a.isOf k mine = true ↔ KeyCall.isAbout k call := by
  cases a with
  | create mint customer label quota =>
      cases hcall
      exact decide_eq_true_iff
  | revoke keyId' =>
      cases hcall
      exact decide_eq_true_iff
  | _ => cases hcall

theorem step_of_storeCall {a : Action} {keyId : Tenancy.Text} {call : KeyCall}
    (hcall : a.storeCall g.now = some (keyId, call)) :
    g.step apiToken a = some (g.stored keyId call) := by
  cases a with
  | create mint customer label quota =>
      cases hcall
      rfl
  | revoke keyId' =>
      cases hcall
      rfl
  | _ => cases hcall

/-- What a step emits belongs to the key if the step does. -/
theorem isOf_of_moves {a : Action} (hmoves : Gateway.Moves apiToken g a es g') :
    ∀ e ∈ es, e.isOf k mine = a.isOf k mine := by
  cases hmoves with
  | @stored _ keyId call hcall =>
      intro e he
      obtain ⟨event, -, rfl⟩ := List.mem_map.mp he
      cases a with
      | create mint customer label quota =>
          cases hcall
          rfl
      | revoke keyId' =>
          cases hcall
          rfl
      | _ => cases hcall
  | @refused c authorization refusal hfree hresolve =>
      intro e he
      rcases List.mem_append.mp he with hask | hrefusal
      · obtain ⟨bearer, -, rfl⟩ := List.mem_map.mp hask
        rfl
      · rw [List.mem_singleton.mp hrefusal]
        rfl
  | resolved hfree hresolve =>
      intro e he
      obtain ⟨bearer, -, rfl⟩ := List.mem_map.mp he
      rfl
  | @rejected c principal quota since rejects e hcall he =>
      intro e' he'
      rw [List.mem_singleton.mp he']
      rcases he with ⟨spent, rfl⟩ | ⟨error, rfl⟩
      · rfl
      · rfl
  | billed hcall hrecord | unbilled hcall hrecord =>
      intro e he
      rw [List.mem_singleton.mp he]
      rfl
  | reported hcall =>
      intro e he
      rw [List.mem_singleton.mp he]
      rfl
  | ticked | unlimited hcall hquota | limited hcall hquota | passed hcall | forwarded hcall
  | finished hcall => exact fun e he => absurd he List.not_mem_nil

/-- A step of the key is a step of its part. -/
theorem step_own {a : Action} (h : PartOf k mine g t) (hbounded : Bounded g.ledger)
    (hlegacy : k ≠ legacy.keyId)
    (htoken : ∀ token, apiToken = some token → parseKeyId token ≠ some k)
    (harrive : ∀ c authorization, a = .arrive c authorization →
      (mine c = true ↔ Names k authorization))
    (ha : a.isOf k mine = true) (hstep : g.step apiToken a = some (es, g')) :
    ∃ t', t.step apiToken a = some (es, t') ∧ PartOf k mine g' t' := by
  cases Gateway.step_moves hstep with
  | @stored _ keyId call hcall =>
      obtain ⟨hes, hpart⟩ := h.stored_about keyId ((isAbout_of_storeCall hcall).mp ha)
      rw [← h.now] at hcall
      exact ⟨_, (step_of_storeCall hcall).trans (by rw [← hes]), hpart⟩
  | ticked =>
      exact ⟨_, rfl, ⟨h.row, rfl, h.calls, h.ledger, h.resolved, h.customer⟩⟩
  | @refused c authorization refusal hfree hresolve =>
      obtain ⟨hasks, hsame⟩ := h.arrive_eq apiToken c
        ((harrive c authorization rfl).mp ha)
      refine ⟨t.advance c .ended, ?_, h.advance nofun⟩
      simp only [Gateway.step, h.calls c ha, hfree, Gateway.arrive, hsame, hresolve, hasks]
  | @resolved c authorization principal hfree hresolve =>
      have hnames := harrive c authorization rfl
      obtain ⟨hasks, hsame⟩ := h.arrive_eq apiToken c (hnames.mp ha)
      refine ⟨t.advance c (.resolved principal), ?_, h.advance fun principal' heq => ?_⟩
      · simp only [Gateway.step, h.calls c ha, hfree, Gateway.arrive, hsame, hresolve, hasks]
      · cases heq
        exact ownedBy_of_resolved hlegacy htoken hnames hresolve
  | @unlimited c principal hcall hquota =>
      refine ⟨t.advance c (.admitted principal), ?_, h.advance (h.kept hcall rfl)⟩
      simp only [Gateway.step, h.calls c ha, hcall, hquota]
  | @limited c principal quota hcall hquota =>
      refine ⟨t.advance c (.asking principal quota (monthStart t.now)), ?_, ?_⟩
      · simp only [Gateway.step, h.calls c ha, hcall, hquota]
      · rw [h.now]
        exact h.advance (h.kept hcall rfl)
  | rejected hcall he => exact h.step_check ha hcall hstep
  | passed hcall => exact h.step_check ha hcall hstep
  | @forwarded c principal hcall =>
      refine ⟨t.advance c (.forwarded principal), ?_, h.advance (h.kept hcall rfl)⟩
      simp only [Gateway.step, h.calls c ha, hcall]
  | @billed c principal record ledger hcall hrecord =>
      have hended : PartOf k mine (g.advance c .ended) (t.advance c .ended) := h.advance nofun
      have hpart := hended.billed record (h.owner ha hcall rfl)
      refine ⟨_, ?_, Gateway.ledger_of_record hrecord ▸ hpart⟩
      simp only [Gateway.step, h.calls c ha, hcall, Gateway.record]
      rw [record_of_fits hrecord]
      rfl
  | @unbilled c principal record hcall hrecord =>
      refine ⟨t.advance c .ended, ?_, h.advance nofun⟩
      simp only [Gateway.step, h.calls c ha, hcall, Gateway.record, record_of_not_fits hrecord]
  | @reported c principal hcall =>
      obtain ⟨customer, hcustomer⟩ := h.customer_of_key
      have hkey := keyId_of_ownerOf (h.owner ha hcall rfl)
      refine ⟨t.advance c .ended, ?_, h.advance nofun⟩
      simp only [Gateway.step, h.calls c ha, hcall]
      rw [h.ledger, h.now, hkey, usage_rowsOf hbounded hcustomer]
  | @finished c principal hcall =>
      refine ⟨t.advance c .ended, ?_, h.advance nofun⟩
      rcases hcall with hcall | hcall
      · simp only [Gateway.step, h.calls c ha, hcall]
      · simp only [Gateway.step, h.calls c ha, hcall]

/-- Its part does not notice any other step. -/
theorem step_other {a : Action} (h : PartOf k mine g t) (hlegacy : k ≠ legacy.keyId)
    (htoken : ∀ token, apiToken = some token → parseKeyId token ≠ some k)
    (harrive : ∀ c authorization, a = .arrive c authorization →
      (mine c = true ↔ Names k authorization))
    (ha : a.isOf k mine = false) (hmoves : Gateway.Moves apiToken g a es g') :
    PartOf k mine g' t := by
  cases hmoves with
  | @stored _ keyId call hcall =>
      refine h.stored_elsewhere keyId fun habout => ?_
      rw [(isAbout_of_storeCall hcall).mpr habout] at ha
      cases ha
  | ticked => cases ha
  | @resolved c authorization principal hfree hresolve =>
      refine h.advance_other ha fun principal' heq => ?_
      cases heq
      exact ownedBy_of_resolved hlegacy htoken (harrive c authorization rfl) hresolve
  | unlimited hcall | limited hcall | passed hcall | forwarded hcall =>
      exact h.advance_other ha (h.kept hcall rfl)
  | refused hfree | rejected hcall | unbilled hcall | reported hcall | finished hcall =>
      exact h.advance_other ha nofun
  | @billed c principal record ledger hcall hrecord =>
      have howned := h.resolved c _ principal hcall rfl
      unfold OwnedBy at howned
      rw [if_neg (by simp [show mine c = false from ha])] at howned
      have hended : PartOf k mine (g.advance c .ended) t := h.advance_other ha nofun
      exact Gateway.ledger_of_record hrecord ▸ hended.billed_other howned

theorem ledger_grows {a : Action} (hmoves : Gateway.Moves apiToken g a es g') :
    g.ledger.Sublist g'.ledger := by
  cases hmoves with
  | billed hcall hrecord =>
      rw [Gateway.ledger_of_record hrecord]
      exact List.sublist_append_left ..
  | _ => exact List.Sublist.refl _

end GatewaySteps

/-! ## Runs -/

variable {apiToken : Option Tenancy.Text} {start : UtcTime}

theorem PartOf.init (k : Tenancy.Text) (mine : CallId → Bool) :
    PartOf k mine (gateway hash apiToken start).init (gateway hash apiToken start).init where
  row := rfl
  now := rfl
  calls := fun _ _ => rfl
  ledger := rfl
  resolved := nofun
  customer := nofun

/-- A ledger that stays within bounds was within them all along. -/
theorem bounded_before {after : List Action} {fs : List Event} {t g : Gateway hash}
    (hrun : (gateway hash apiToken start).run t after = some (fs, g)) (hbounded : Bounded g.ledger) :
    Bounded t.ledger := by
  have hgrown : t.ledger.Sublist g.ledger :=
    Machine.invariant_run (I := fun u => t.ledger.Sublist u.ledger)
      (fun _ _ _ _ hsub hstep => hsub.trans (ledger_grows (Gateway.step_moves hstep)))
      (List.Sublist.refl _) hrun
  exact hbounded.sublist hgrown

/-- Whatever else a gateway is asked, and in whatever order, the requests that present one key
are answered and billed as they would be if nobody had asked anything else: the part of a run
that belongs to a key is a run, with the same events, and leaves in the ledger the rows of the
key and in the store its row. -/
theorem tenants_separate {labels : List Action} {log : List Event} {g : Gateway hash}
    {k : Tenancy.Text} {mine : CallId → Bool}
    (hrun : (gateway hash apiToken start).run (gateway hash apiToken start).init labels =
      some (log, g)) (hlegacy : k ≠ legacy.keyId)
    (htoken : ∀ token, apiToken = some token → parseKeyId token ≠ some k)
    (hmine : ∀ c authorization, .arrive c authorization ∈ labels →
      (mine c = true ↔ Names k authorization)) (hbounded : Bounded g.ledger) :
    ∃ t, (gateway hash apiToken start).run (gateway hash apiToken start).init
        (labels.filter (Action.isOf k mine)) = some (log.filter (Event.isOf k mine), t) ∧
      t.ledger = rowsOf (String.ofList k) g.ledger ∧
      t.keyStore.val.select k = g.keyStore.val.select k := by
  have hmeets : (gateway hash apiToken start).Meets (fun u a => Bounded u.ledger ∧
      ∀ c authorization, a = .arrive c authorization → (mine c = true ↔ Names k authorization))
      (gateway hash apiToken start).init labels := by
    refine Machine.along_iff_split.mpr fun before a after es u fs v hlabels hbefore hstep => ?_
    obtain ⟨rest, hrest, -⟩ := Machine.run_rest (hlabels ▸ hrun) hbefore hstep
    refine ⟨bounded_before (Machine.run_cons_eq_some.mpr ⟨fs, v, rest, hstep, hrest, rfl⟩) hbounded,
      fun c authorization heq => hmine c authorization ?_⟩
    rw [hlabels, heq]
    exact List.mem_append_right _ List.mem_cons_self
  obtain ⟨t, hpart, h⟩ := Machine.run_project (M := gateway hash apiToken start)
    (N := gateway hash apiToken start) (R := PartOf k mine)
    (fun u v a es u' h hC ha hstep =>
      ⟨fun e he => (isOf_of_moves (Gateway.step_moves hstep) e he).trans ha,
        step_own h hC.1 hlegacy htoken hC.2 ha hstep⟩)
    (fun u v a es u' h hC ha hstep =>
      ⟨fun e he => (isOf_of_moves (Gateway.step_moves hstep) e he).trans ha,
        step_other h hlegacy htoken hC.2 ha (Gateway.step_moves hstep)⟩)
    labels _ _ log g (PartOf.init k mine) hmeets hrun
  exact ⟨t, hpart, h.ledger, h.row⟩

/-- The secret parts of a second key. -/
def mintB : Mint := ⟨['b'], ['y', 'y'], by simp [hexDigits], by decide, by decide⟩

/-- The calls of two keys in turn; one of the keys is revoked. -/
def interleaved : List Action :=
  [.create mintA ['A'] [] (some 9), .create mintB ['B'] [] none,
    .arrive ⟨0⟩ (some (bearerPrefix ++ mintA.fullKey)),
    .arrive ⟨1⟩ (some (bearerPrefix ++ mintB.fullKey)), .monthStart ⟨1⟩, .monthStart ⟨0⟩,
    .forward ⟨1⟩, .revoke ['b'], .record ⟨1⟩ ⟨"/v1/completions", "m", 30, 40, true, 200⟩,
    .check ⟨0⟩ false, .forward ⟨0⟩, .record ⟨0⟩ ⟨"/v1/completions", "m", 3, 4, true, 200⟩]

theorem interleaved_separate :
    ∃ log g t, (gateway (id : Tenancy.Text → Tenancy.Text) none springDay).run
        (gateway id none springDay).init interleaved = some (log, g) ∧
      (gateway id none springDay).run (gateway id none springDay).init
        (interleaved.filter (Action.isOf ['a'] fun c => c.val = 0)) =
          some (log.filter (Event.isOf ['a'] fun c => c.val = 0), t) ∧
      t.ledger = rowsOf "a" g.ledger ∧
      t.keyStore.val.select ['a'] = g.keyStore.val.select ['a'] := by
  have hruns : ((gateway (id : Tenancy.Text → Tenancy.Text) none springDay).run
      (gateway id none springDay).init interleaved).any (fun r =>
        decide ((r.2.ledger.map fun row => row.event.totalTokens) = [70, 7] ∧
          ∀ row ∈ r.2.ledger, 0 ≤ row.event.promptTokens ∧ 0 ≤ row.event.completionTokens)) =
      true := by decide
  obtain ⟨⟨log, g⟩, hrun, hrows⟩ := (Option.any_eq_true ..).mp hruns
  obtain ⟨htotals, hnonneg⟩ := of_decide_eq_true hrows
  have hbounded : Bounded g.ledger := by
    refine ⟨hnonneg, ?_⟩
    unfold tokens
    rw [htotals]
    decide
  have hmine : ∀ c authorization, .arrive c authorization ∈ interleaved →
      (decide (c.val = 0) = true ↔ Names ['a'] authorization) := by
    intro c authorization hmem
    simp only [interleaved, List.mem_cons, reduceCtorEq, false_or, List.not_mem_nil, or_false,
      Action.arrive.injEq] at hmem
    rcases hmem with ⟨rfl, rfl⟩ | ⟨rfl, rfl⟩
    · exact iff_of_true rfl rfl
    · exact iff_of_false nofun nofun
  obtain ⟨t, h⟩ := tenants_separate (k := ['a']) hrun (by decide) nofun hmine hbounded
  exact ⟨log, g, t, hrun, h⟩

end Repercep.Tenants
