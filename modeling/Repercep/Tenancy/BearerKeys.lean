import Repercep.Tenancy.KeyStore
set_option autoImplicit false

/-!
# Whom a bearer key authenticates

A row of the store stands for one minted key: its hash is that of the full key, and it
carries a revocation date exactly when the key was revoked after it was minted.  So a
string authenticates its bearer exactly when it is a full key that was minted and not
revoked since, provided that no other minted key has its hash.
-/

namespace Repercep.Tenancy

open Repercep.Foundation

variable {D : Type}

/-- In a history, the full key was minted with this record and not revoked since. -/
def Issued (es : List KeyEvent) (fullKey : Text) (record : ApiKeyRecord) : Prop :=
  ∃ before after, es = before ++ .created fullKey record :: after ∧
    ∀ result, .revoked record.keyId result ∉ after

/-! ## Rows and histories -/

/-- The row of a minted key, after the events that followed. -/
structure KeyRow.Of (hash : Text → D) (fullKey : Text) (record : ApiKeyRecord)
    (after : List KeyEvent) (row : KeyRow D) : Prop where
  hashed : row.keyHash = hash fullKey
  recorded : { row.record with revokedAt := none } = record
  active : row.record.revokedAt = none ↔ ∀ result, .revoked record.keyId result ∉ after

/-- The rows of a store are those of the minted keys of a history. -/
structure Recorded (hash : Text → D) (es : List KeyEvent) (s : KeyStore D) : Prop where
  parsed : ∀ fullKey record, .created fullKey record ∈ es →
    parseKeyId fullKey = some record.keyId
  row_of_created : ∀ before fullKey record after,
    es = before ++ .created fullKey record :: after →
      ∃ row ∈ s.rows, row.Of hash fullKey record after
  created_of_row : ∀ row ∈ s.rows, ∃ before fullKey record after,
    es = before ++ .created fullKey record :: after ∧ record.keyId = row.record.keyId
  stamped : ∀ keyId, .revoked keyId true ∈ es →
    ∃ row ∈ s.rows, row.record.keyId = keyId ∧ row.record.revokedAt ≠ none

theorem KeyRow.Of.keyId {hash : Text → D} {fullKey : Text} {record : ApiKeyRecord}
    {after : List KeyEvent} {row : KeyRow D} (h : row.Of hash fullKey record after) :
    row.record.keyId = record.keyId := by
  rw [← h.recorded]

theorem KeyRow.Of.principal {hash : Text → D} {fullKey : Text} {record : ApiKeyRecord}
    {after : List KeyEvent} {row : KeyRow D} (h : row.Of hash fullKey record after) :
    row.record.principal = record.principal := by
  rw [← h.recorded]
  rfl

/-- An event that revokes nothing leaves the row of a key as it is. -/
theorem KeyRow.Of.snoc {hash : Text → D} {fullKey : Text} {record : ApiKeyRecord}
    {after : List KeyEvent} {row : KeyRow D} {e : KeyEvent}
    (h : row.Of hash fullKey record after) (he : ∀ result, e ≠ .revoked record.keyId result) :
    row.Of hash fullKey record (after ++ [e]) where
  hashed := h.hashed
  recorded := h.recorded
  active := by
    rw [h.active]
    apply forall_congr'
    intro result
    rw [List.mem_append, List.mem_singleton, not_or]
    exact ⟨fun hmem => ⟨hmem, Ne.symm (he result)⟩, fun hmem => hmem.1⟩

/-- A revocation stamps the row of its key and no other. -/
theorem KeyRow.Of.stamp {hash : Text → D} {fullKey : Text} {record : ApiKeyRecord}
    {after : List KeyEvent} {row : KeyRow D} (h : row.Of hash fullKey record after)
    (keyId now : Text) (result : Bool) :
    (KeyStore.stamp keyId now row).Of hash fullKey record
      (after ++ [.revoked keyId result]) := by
  by_cases hkey : record.keyId = keyId
  · have hnot : ¬ ∀ other, .revoked record.keyId other ∉
        after ++ [.revoked keyId result] := by
      intro hall
      exact hall result (hkey ▸ List.mem_append_right _ (List.mem_singleton_self _))
    rw [KeyStore.stamp]
    split
    · refine ⟨h.hashed, h.recorded, ⟨?_, fun hall => absurd hall hnot⟩⟩
      intro hactive
      cases hactive
    · next hstamped =>
        have hkeyId := h.keyId.trans hkey
        refine ⟨h.hashed, h.recorded, ⟨fun hactive => ?_, fun hall => absurd hall hnot⟩⟩
        exact absurd ⟨hkeyId, hactive⟩ hstamped
  · have hother : row.record.keyId ≠ keyId := fun heq => hkey (h.keyId.symm.trans heq)
    rw [KeyStore.stamp, if_neg (fun hboth => hother hboth.1)]
    apply h.snoc
    intro result' heq
    injection heq with hid
    exact hkey hid.symm

theorem KeyStore.revoke_true {s : KeyStore D} {keyId now : Text} :
    (s.revoke keyId now).1 = true ↔
      ∃ row ∈ s.rows, row.record.keyId = keyId ∧ row.record.revokedAt = none := by
  simp only [revoke, decide_eq_true_eq, List.length_pos_iff_exists_mem, List.mem_filter]

/-- Authentication finds the row of the key id, unstamped and with the presented hash. -/
theorem KeyStore.authenticate_some [DecidableEq D] {hash : Text → D} {s : KeyStore D}
    {fullKey : Text} {principal : Principal}
    (h : s.authenticate hash fullKey = some principal) :
    ∃ row ∈ s.rows, row.record.revokedAt = none ∧ row.keyHash = hash fullKey ∧
      principal = row.record.principal := by
  rw [authenticate] at h
  split at h
  · cases h
  · split at h
    · cases h
    · next row hselect =>
        split at h
        · cases h
        · next hactive =>
            split at h
            · cases h
            · next hhash =>
                cases h
                exact ⟨row, List.mem_of_find?_eq_some hselect, not_not.mp hactive,
                  not_not.mp hhash, rfl⟩

theorem KeyStore.unique {s : KeyStore D} {row row' : KeyRow D} (hmem : row ∈ s.rows)
    (hmem' : row' ∈ s.rows) (hkey : row.record.keyId = row'.record.keyId) : row = row' :=
  List.inj_on_of_nodup_map s.primary hmem hmem' hkey

theorem KeyStore.select_of_mem {s : KeyStore D} {row : KeyRow D} (hmem : row ∈ s.rows) :
    s.select row.record.keyId = some row := by
  rw [select]
  cases hfind : s.rows.find? fun other => other.record.keyId = row.record.keyId with
  | none =>
      have hnot := List.find?_eq_none.mp hfind row hmem
      simp at hnot
  | some other =>
      have hkey : other.record.keyId = row.record.keyId := by
        simpa using List.find?_some hfind
      rw [unique (List.mem_of_find?_eq_some hfind) hmem hkey]

/-- Only a successful `revoke` says so. -/
theorem KeyStore.step_revoked [DecidableEq D] {hash : Text → D} {s s' : KeyStore D}
    {call : KeyCall} {fs : List KeyEvent} {keyId : Text}
    (hstep : s.step hash call = some (fs, s')) (hmem : .revoked keyId true ∈ fs) :
    fs = [.revoked keyId true] ∧ ∃ now, (s.revoke keyId now).1 = true := by
  cases call with
  | create mint customer label quota now =>
      rw [step] at hstep
      split at hstep
      · cases hstep
        cases List.mem_singleton.mp hmem
      · cases hstep
        cases List.mem_singleton.mp hmem
  | revoke keyId' now =>
      cases hstep
      have heq := List.mem_singleton.mp hmem
      injection heq with hid hresult
      subst hid
      exact ⟨by rw [← hresult], now, hresult.symm⟩
  | authenticate fullKey =>
      cases hstep
      cases List.mem_singleton.mp hmem

/-- A list extended by one element, cut at one of its elements. -/
theorem append_singleton_eq {α : Type} {es before after : List α} {e a : α}
    (h : es ++ [e] = before ++ a :: after) :
    (before = es ∧ a = e ∧ after = []) ∨
      ∃ after', after = after' ++ [e] ∧ es = before ++ a :: after' := by
  rcases List.eq_nil_or_concat' after with rfl | ⟨after', b, rfl⟩
  · obtain ⟨hes, hlast⟩ := List.append_inj' h rfl
    exact .inl ⟨hes.symm, (List.singleton_inj.mp hlast).symm, rfl⟩
  · rw [← List.cons_append, ← List.append_assoc] at h
    obtain ⟨hes, hlast⟩ := List.append_inj' h rfl
    have hb : e = b := List.singleton_inj.mp hlast
    exact .inr ⟨after', by rw [hb], hes⟩

namespace Recorded

variable {hash : Text → D} {es : List KeyEvent} {s : KeyStore D}

theorem init : Recorded hash [] KeyStore.empty where
  parsed := fun _ _ h => absurd h List.not_mem_nil
  row_of_created := by
    intro before fullKey record after h
    exact absurd h (by simp)
  created_of_row := fun _ h => absurd h List.not_mem_nil
  stamped := fun _ h => absurd h List.not_mem_nil

/-- A call that neither mints nor revokes changes nothing. -/
theorem quiet (h : Recorded hash es s) {e : KeyEvent}
    (hcreated : ∀ fullKey record, e ≠ .created fullKey record)
    (hrevoked : ∀ keyId result, e ≠ .revoked keyId result) :
    Recorded hash (es ++ [e]) s where
  parsed := by
    intro fullKey record hmem
    cases List.mem_append.mp hmem with
    | inl hold => exact h.parsed fullKey record hold
    | inr hnew => exact absurd (List.mem_singleton.mp hnew).symm (hcreated fullKey record)
  row_of_created := by
    intro before fullKey record after hes
    rcases append_singleton_eq hes with ⟨-, heq, -⟩ | ⟨after', rfl, hes'⟩
    · exact absurd heq.symm (hcreated fullKey record)
    · obtain ⟨row, hmem, hrow⟩ := h.row_of_created before fullKey record after' hes'
      exact ⟨row, hmem, hrow.snoc (hrevoked record.keyId)⟩
  created_of_row := by
    intro row hmem
    obtain ⟨before, fullKey, record, after, hes, hkey⟩ := h.created_of_row row hmem
    exact ⟨before, fullKey, record, after ++ [e], by simp [hes], hkey⟩
  stamped := by
    intro keyId hmem
    cases List.mem_append.mp hmem with
    | inl hold => exact h.stamped keyId hold
    | inr hnew => exact absurd (List.mem_singleton.mp hnew).symm (hrevoked keyId true)

/-- Minting adds the row of the new key. -/
theorem created (h : Recorded hash es s) {mint : Mint} {record : ApiKeyRecord}
    {s' : KeyStore D} (hkey : record.keyId = mint.keyId) (hactive : record.revokedAt = none)
    (hinsert : s.insert ⟨record, hash mint.fullKey⟩ = some s') :
    Recorded hash (es ++ [.created mint.fullKey record]) s' := by
  have hrows := KeyStore.insert_rows hinsert
  constructor
  · intro fullKey record' hmem
    cases List.mem_append.mp hmem with
    | inl hold => exact h.parsed fullKey record' hold
    | inr hnew =>
        cases List.mem_singleton.mp hnew
        rw [hkey]
        exact mint.parse
  · intro before fullKey record' after hes
    rw [hrows]
    rcases append_singleton_eq hes with ⟨-, heq, rfl⟩ | ⟨after', rfl, hes'⟩
    · cases heq
      refine ⟨_, List.mem_append_right _ (List.mem_singleton_self _), rfl, ?_, ?_⟩
      · rw [← hactive]
      · simp [hactive]
    · obtain ⟨row, hmem, hrow⟩ := h.row_of_created before fullKey record' after' hes'
      exact ⟨row, List.mem_append_left _ hmem, hrow.snoc fun _ heq => by cases heq⟩
  · intro row hmem
    rw [hrows] at hmem
    cases List.mem_append.mp hmem with
    | inl hold =>
        obtain ⟨before, fullKey, record', after, hes, hkey'⟩ := h.created_of_row row hold
        exact ⟨before, fullKey, record', after ++ [.created mint.fullKey record],
          by simp [hes], hkey'⟩
    | inr hnew =>
        rw [List.mem_singleton.mp hnew]
        exact ⟨es, mint.fullKey, record, [], rfl, rfl⟩
  · intro keyId hmem
    cases List.mem_append.mp hmem with
    | inl hold =>
        obtain ⟨row, hrow, hstamped⟩ := h.stamped keyId hold
        exact ⟨row, hrows ▸ List.mem_append_left _ hrow, hstamped⟩
    | inr hnew => cases List.mem_singleton.mp hnew

/-- Revoking stamps the row of the key, if it has one without a stamp. -/
theorem revoked (h : Recorded hash es s) (keyId now : Text) :
    Recorded hash (es ++ [.revoked keyId (s.revoke keyId now).1])
      (s.revoke keyId now).2 := by
  have hrows : (s.revoke keyId now).2.rows = s.rows.map (KeyStore.stamp keyId now) := rfl
  constructor
  · intro fullKey record hmem
    cases List.mem_append.mp hmem with
    | inl hold => exact h.parsed fullKey record hold
    | inr hnew => cases List.mem_singleton.mp hnew
  · intro before fullKey record after hes
    rcases append_singleton_eq hes with ⟨-, heq, -⟩ | ⟨after', rfl, hes'⟩
    · cases heq
    · obtain ⟨row, hmem, hrow⟩ := h.row_of_created before fullKey record after' hes'
      refine ⟨KeyStore.stamp keyId now row, hrows ▸ List.mem_map_of_mem hmem, ?_⟩
      exact hrow.stamp keyId now _
  · intro row hmem
    rw [hrows] at hmem
    obtain ⟨old, hold, rfl⟩ := List.mem_map.mp hmem
    obtain ⟨before, fullKey, record, after, hes, hkey⟩ := h.created_of_row old hold
    refine ⟨before, fullKey, record, after ++ [.revoked keyId (s.revoke keyId now).1],
      by simp [hes], ?_⟩
    rw [hkey, KeyStore.stamp_keyId]
  · intro keyId' hmem
    rw [hrows]
    cases List.mem_append.mp hmem with
    | inl hold =>
        obtain ⟨row, hrow, hkey, hstamped⟩ := h.stamped keyId' hold
        refine ⟨KeyStore.stamp keyId now row, List.mem_map_of_mem hrow, ?_, ?_⟩
        · rw [KeyStore.stamp_keyId, hkey]
        · rw [KeyStore.stamp, if_neg (fun hboth => hstamped hboth.2)]
          exact hstamped
    | inr hnew =>
        have heq := List.mem_singleton.mp hnew
        injection heq with hid hresult
        obtain ⟨row, hrow, hkey, hactive⟩ := KeyStore.revoke_true.mp hresult.symm
        refine ⟨KeyStore.stamp keyId now row, List.mem_map_of_mem hrow, ?_, ?_⟩
        · rw [KeyStore.stamp_keyId, hkey, hid]
        · rw [KeyStore.stamp, if_pos ⟨hkey, hactive⟩]
          simp

theorem step [DecidableEq D] {s' : KeyStore D} {call : KeyCall} {fs : List KeyEvent}
    (h : Recorded hash es s) (hstep : s.step hash call = some (fs, s')) :
    Recorded hash (es ++ fs) s' := by
  cases call with
  | create mint customer label quota now =>
      rw [KeyStore.step] at hstep
      split at hstep
      · next e t hcreate =>
          cases hstep
          obtain ⟨-, -, hsame⟩ | ⟨record, hresult, -, -⟩ := KeyStore.create_cases hcreate
          · rw [hsame]
            exact h.quiet (fun _ _ heq => by cases heq) (fun _ _ heq => by cases heq)
          · cases hresult
      · next fullKey record t hcreate =>
          cases hstep
          obtain ⟨e, hresult, -⟩ | ⟨minted, hresult, hrecord, hinsert⟩ :=
            KeyStore.create_cases hcreate
          · cases hresult
          · cases hresult
            subst hrecord
            exact h.created rfl rfl hinsert
  | revoke keyId now =>
      cases hstep
      exact h.revoked keyId now
  | authenticate fullKey =>
      cases hstep
      exact h.quiet (fun _ _ heq => by cases heq) (fun _ _ heq => by cases heq)

end Recorded

/-! ## What the calls answer -/

namespace Recorded

variable {hash : Text → D} {es : List KeyEvent} {s : KeyStore D}

/-- A row without a stamp is that of a key that was minted and not revoked since. -/
theorem issued_of_row (h : Recorded hash es s) {row : KeyRow D} (hmem : row ∈ s.rows)
    (hactive : row.record.revokedAt = none) :
    ∃ fullKey record, Issued es fullKey record ∧ row.keyHash = hash fullKey ∧
      record.keyId = row.record.keyId ∧ row.record.principal = record.principal := by
  obtain ⟨before, fullKey, record, after, hes, hkey⟩ := h.created_of_row row hmem
  obtain ⟨row', hmem', hrow'⟩ := h.row_of_created before fullKey record after hes
  have hsame : row' = row := KeyStore.unique hmem' hmem (hrow'.keyId.trans hkey)
  rw [hsame] at hrow'
  exact ⟨fullKey, record, ⟨before, after, hes, hrow'.active.mp hactive⟩, hrow'.hashed,
    hkey, hrow'.principal⟩

/-- And the key has such a row. -/
theorem row_of_issued (h : Recorded hash es s) {fullKey : Text} {record : ApiKeyRecord}
    (hissued : Issued es fullKey record) :
    ∃ row ∈ s.rows, row.record.keyId = record.keyId ∧ row.record.revokedAt = none ∧
      row.keyHash = hash fullKey ∧ row.record.principal = record.principal := by
  obtain ⟨before, after, hes, hafter⟩ := hissued
  obtain ⟨row, hmem, hrow⟩ := h.row_of_created before fullKey record after hes
  exact ⟨row, hmem, hrow.keyId, hrow.active.mpr hafter, hrow.hashed, hrow.principal⟩

/-- A key is revoked with success exactly while it is issued. -/
theorem revoke_iff (h : Recorded hash es s) (keyId now : Text) :
    (s.revoke keyId now).1 = true ↔
      ∃ fullKey record, Issued es fullKey record ∧ record.keyId = keyId := by
  rw [KeyStore.revoke_true]
  constructor
  · rintro ⟨row, hmem, hkey, hactive⟩
    obtain ⟨fullKey, record, hissued, -, hrecord, -⟩ := h.issued_of_row hmem hactive
    exact ⟨fullKey, record, hissued, hrecord.trans hkey⟩
  · rintro ⟨fullKey, record, hissued, hkey⟩
    obtain ⟨row, hmem, hrow, hactive, -, -⟩ := h.row_of_issued hissued
    exact ⟨row, hmem, hrow.trans hkey, hactive⟩

/-- A presented string authenticates the bearer of the issued key it is. -/
theorem authenticate_iff [DecidableEq D] (h : Recorded hash es s) {presented : Text}
    (hinj : ∀ fullKey record, .created fullKey record ∈ es →
      hash fullKey = hash presented → fullKey = presented) (principal : Principal) :
    s.authenticate hash presented = some principal ↔
      ∃ record, Issued es presented record ∧ principal = record.principal := by
  constructor
  · intro hauth
    obtain ⟨row, hmem, hactive, hhash, rfl⟩ := KeyStore.authenticate_some hauth
    obtain ⟨fullKey, record, hissued, hkeyHash, -, hprincipal⟩ :=
      h.issued_of_row hmem hactive
    have hcreated : .created fullKey record ∈ es := by
      obtain ⟨before, after, rfl, -⟩ := hissued
      exact List.mem_append_right _ List.mem_cons_self
    have hpresented := hinj fullKey record hcreated (hkeyHash.symm.trans hhash)
    exact ⟨record, hpresented ▸ hissued, hprincipal⟩
  · rintro ⟨record, hissued, rfl⟩
    obtain ⟨row, hmem, hkey, hactive, hhash, hprincipal⟩ := h.row_of_issued hissued
    have hparsed : parseKeyId presented = some row.record.keyId := by
      obtain ⟨before, after, rfl, -⟩ := hissued
      rw [hkey]
      exact h.parsed presented record (List.mem_append_right _ List.mem_cons_self)
    rw [KeyStore.authenticate, hparsed, ← hprincipal]
    simp [KeyStore.select_of_mem hmem, hactive, hhash]

end Recorded

/-- What the calls on a store answer after a history. -/
structure BearerLaw [DecidableEq D] (hash : Text → D) (es : List KeyEvent)
    (s : KeyStore D) : Prop where
  /-- a string authenticates exactly when it is a full key minted before and not revoked
  since, and then as the principal of its record -/
  authenticates : ∀ presented,
    (∀ fullKey record, .created fullKey record ∈ es → hash fullKey = hash presented →
      fullKey = presented) →
    ∀ principal, s.authenticate hash presented = some principal ↔
      ∃ record, Issued es presented record ∧ principal = record.principal
  /-- a revocation succeeds exactly when the key was minted before and not revoked since -/
  revokes : ∀ keyId now, (s.revoke keyId now).1 = true ↔
    ∃ fullKey record, Issued es fullKey record ∧ record.keyId = keyId
  /-- no key was revoked with success twice -/
  once : ∀ keyId, es.count (.revoked keyId true) ≤ 1
  /-- a key that was revoked with success authenticates nobody -/
  stays : ∀ keyId, .revoked keyId true ∈ es → ∀ presented principal,
    s.authenticate hash presented = some principal → principal.keyId ≠ keyId

namespace Recorded

variable {hash : Text → D} {es : List KeyEvent} {s : KeyStore D}

theorem not_revoked_true (h : Recorded hash es s) {keyId now : Text}
    (hrevokes : (s.revoke keyId now).1 = true) : .revoked keyId true ∉ es := by
  intro hmem
  obtain ⟨row, hrow, hkey, hactive⟩ := KeyStore.revoke_true.mp hrevokes
  obtain ⟨row', hrow', hkey', hstamped⟩ := h.stamped keyId hmem
  exact hstamped (KeyStore.unique hrow' hrow (hkey'.trans hkey.symm) ▸ hactive)

/-- The law holds of any recorded history in which no key was revoked twice. -/
theorem law [DecidableEq D] (h : Recorded hash es s)
    (honce : ∀ keyId, es.count (.revoked keyId true) ≤ 1) : BearerLaw hash es s where
  authenticates := fun _ hinj principal => h.authenticate_iff hinj principal
  revokes := h.revoke_iff
  once := honce
  stays := by
    intro keyId hmem presented principal hauth heq
    obtain ⟨row, hrow, hactive, -, rfl⟩ := KeyStore.authenticate_some hauth
    obtain ⟨row', hrow', hkey', hstamped⟩ := h.stamped keyId hmem
    have hkey : row.record.keyId = keyId := heq
    exact hstamped (KeyStore.unique hrow' hrow (hkey'.trans hkey.symm) ▸ hactive)

/-- One more call revokes no key a second time. -/
theorem once_step [DecidableEq D] (h : Recorded hash es s) {s' : KeyStore D}
    {call : KeyCall} {fs : List KeyEvent}
    (honce : ∀ keyId, es.count (.revoked keyId true) ≤ 1)
    (hstep : s.step hash call = some (fs, s')) (keyId : Text) :
    (es ++ fs).count (.revoked keyId true) ≤ 1 := by
  rw [List.count_append]
  by_cases hmem : .revoked keyId true ∈ fs
  · obtain ⟨hfs, now, hrevokes⟩ := KeyStore.step_revoked hstep hmem
    rw [List.count_eq_zero_of_not_mem (h.not_revoked_true hrevokes), hfs]
    simp
  · rw [List.count_eq_zero_of_not_mem hmem]
    exact honce keyId

end Recorded

/-- Bearer keys are correct over whole runs: after any sequence of calls, the store
authenticates, and revokes, exactly the keys it minted and did not revoke since. -/
theorem bearerKeys_lawful [DecidableEq D] (hash : Text → D) {calls : List KeyCall}
    {es : List KeyEvent} {s : KeyStore D}
    (hrun : (keyStore hash).run (keyStore hash).init calls = some (es, s)) :
    BearerLaw hash es s := by
  have hboth : Recorded hash es s ∧ ∀ keyId, es.count (.revoked keyId true) ≤ 1 := by
    apply Machine.history_reachable (C := fun _ _ => True)
      (H := fun es s => Recorded hash es s ∧ ∀ keyId, es.count (.revoked keyId true) ≤ 1)
      ⟨Recorded.init, fun _ => Nat.zero_le 1⟩ ?_ (Machine.meets_of_forall fun _ _ _ => trivial)
      hrun
    intro es s call fs s' h _ hstep
    exact ⟨h.1.step hstep, h.1.once_step h.2 hstep⟩
  exact hboth.1.law hboth.2

/-- Two keys minted and one of them revoked twice: the other one authenticates. -/
theorem bearerKeys_lawful_after_revocation :
    ∃ es s, (keyStore (id : Text → Text)).run (keyStore id).init
        [.create ⟨['a'], ['x', '_', '-'], by simp [hexDigits], by decide, by decide⟩
            ['A'] [] none [],
          .create ⟨['b'], ['y'], by simp [hexDigits], by decide, by decide⟩ ['B'] [] (some 9) [],
          .revoke ['a'] [], .revoke ['a'] [],
          .authenticate ['r', 'p', 'c', '_', 'b', '_', 'y']] = some (es, s) ∧
      BearerLaw id es s ∧
      es.drop 2 = [.revoked ['a'] true, .revoked ['a'] false,
        .authenticated ['r', 'p', 'c', '_', 'b', '_', 'y']
          (some ⟨['b'], ['B'], [], some 9⟩)] := by
  have hruns : ∃ es s, (keyStore (id : Text → Text)).run (keyStore id).init
      [.create ⟨['a'], ['x', '_', '-'], by simp [hexDigits], by decide, by decide⟩
          ['A'] [] none [],
        .create ⟨['b'], ['y'], by simp [hexDigits], by decide, by decide⟩ ['B'] [] (some 9) [],
        .revoke ['a'] [], .revoke ['a'] [],
        .authenticate ['r', 'p', 'c', '_', 'b', '_', 'y']] = some (es, s) ∧
      es.drop 2 = [.revoked ['a'] true, .revoked ['a'] false,
        .authenticated ['r', 'p', 'c', '_', 'b', '_', 'y']
          (some ⟨['b'], ['B'], [], some 9⟩)] := ⟨_, _, rfl, rfl⟩
  obtain ⟨es, s, hrun, hes⟩ := hruns
  exact ⟨es, s, hrun, bearerKeys_lawful id hrun, hes⟩

end Repercep.Tenancy
