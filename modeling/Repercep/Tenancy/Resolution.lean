import Repercep.Tenancy.BearerKeys
set_option autoImplicit false

/-!
# Who a bearer credential belongs to

The model of `_resolve` in `serving/app.py` and of its two callers, the HTTP dependency
`_require_api_token` (up to the quota check) and the handshake of `/v2/world/session`.
A key of the store comes first and the shared token second; the latter is compared by
`hmac.compare_digest`, which refuses strings that are not ASCII.
-/

namespace Repercep.Tenancy

open Repercep.Foundation

variable {D : Type} [DecidableEq D] {hash : Text → D}

/-- `_ANONYMOUS`. -/
def anonymous : Principal where
  keyId := ['a', 'n', 'o', 'n', 'y', 'm', 'o', 'u', 's']
  customer := ['a', 'n', 'o', 'n', 'y', 'm', 'o', 'u', 's']
  label := []
  monthlyTokenQuota := none

/-- `_LEGACY`. -/
def legacy : Principal where
  keyId := ['l', 'e', 'g', 'a', 'c', 'y', '-', 's', 'h', 'a', 'r', 'e', 'd']
  customer := ['l', 'e', 'g', 'a', 'c', 'y']
  label := []
  monthlyTokenQuota := none

/-- A store that calls have led to. -/
def ReachedStore (hash : Text → D) : Type :=
  {s : KeyStore D //
    ∃ calls es, (keyStore hash).run (keyStore hash).init calls = some (es, s)}

/-- The credentials a gateway is configured with. -/
structure Credentials (hash : Text → D) where
  keyStore : Option (ReachedStore hash)
  apiToken : Option Text

/-- `TypeError`, as `hmac.compare_digest` raises it. -/
inductive CompareError where
  | typeError
  deriving DecidableEq, Repr

/-- `str.isascii`. -/
def isAscii (s : Text) : Bool := s.all fun c => c.toNat < 128

/-- `hmac.compare_digest` of two strings. -/
def compareDigest (a b : Text) : Except CompareError Bool :=
  if isAscii a && isAscii b then .ok (a = b) else .error .typeError

namespace Credentials

/-- `key_store.authenticate(bearer)`, where there is a key store. -/
def authenticate (c : Credentials hash) (bearer : Text) : Option Principal :=
  match c.keyStore with
  | none => none
  | some s => s.val.authenticate hash bearer

/-- `_resolve`; `None` means reject. -/
def resolve (c : Credentials hash) (bearer : Option Text) :
    Except CompareError (Option Principal) :=
  if c.keyStore.isNone && c.apiToken.isNone then .ok (some anonymous)
  else
    match bearer with
    | none => .ok none
    | some bearer =>
        match c.authenticate bearer with
        | some principal => .ok (some principal)
        | none =>
            match c.apiToken with
            | none => .ok none
            | some apiToken =>
                match compareDigest bearer apiToken with
                | .error e => .error e
                | .ok true => .ok (some legacy)
                | .ok false => .ok none

end Credentials

/-! ## The callers -/

/-- `"Bearer "`. -/
def bearerPrefix : Text := ['B', 'e', 'a', 'r', 'e', 'r', ' ']

/-- The credential of an `Authorization` header. -/
def bearerOf : Option Text → Option Text
  | none => none
  | some authorization =>
      if bearerPrefix.isPrefixOf authorization then
        some (authorization.drop bearerPrefix.length)
      else none

/-- What `_require_api_token` raises. -/
inductive Refusal where
  /-- `HTTPException(401)` -/
  | unauthorized
  /-- an error nobody handles, answered by status 500 -/
  | raised (e : CompareError)
  deriving DecidableEq, Repr

/-- `_require_api_token`, up to the quota check. -/
def Credentials.requireApiToken (c : Credentials hash) (authorization : Option Text) :
    Except Refusal Principal :=
  match c.resolve (bearerOf authorization) with
  | .error e => .error (.raised e)
  | .ok none => .error .unauthorized
  | .ok (some principal) => .ok principal

/-- How the handshake of a world session ends. -/
inductive Handshake where
  | accepted
  /-- closed with code 1008 -/
  | policyClose
  | raised (e : CompareError)
  deriving DecidableEq, Repr

/-- The credential of a handshake: the query parameter, else the header. -/
def handshakeBearer (token authorization : Option Text) : Option Text :=
  match token with
  | some supplied => some supplied
  | none => bearerOf authorization

/-- The start of `world_session`. -/
def Credentials.handshake (c : Credentials hash) (token authorization : Option Text) :
    Handshake :=
  if c.apiToken.isSome || c.keyStore.isSome then
    match c.resolve (handshakeBearer token authorization) with
    | .error e => .raised e
    | .ok none => .policyClose
    | .ok (some _) => .accepted
  else .accepted

/-! ## What is decided -/

namespace Credentials

/-- Neither a key store nor a token is configured. -/
def Unconfigured (c : Credentials hash) : Prop := c.keyStore = none ∧ c.apiToken = none

/-- The credential is a live key, and the principal its owner. -/
def IsLiveKey (c : Credentials hash) (bearer : Option Text) (principal : Principal) : Prop :=
  ∃ s fullKey, c.keyStore = some s ∧ bearer = some fullKey ∧ ∃ row ∈ s.val.rows,
    parseKeyId fullKey = some row.record.keyId ∧ row.record.revokedAt = none ∧
      row.keyHash = hash fullKey ∧ principal = row.record.principal

/-- Who the credential belongs to. -/
structure Decision (c : Credentials hash) (bearer : Option Text) (r : Option Principal) :
    Prop where
  anonymous : r = some anonymous ↔ c.Unconfigured
  legacy : r = some legacy ↔ (∃ token, bearer = some token ∧ c.apiToken = some token) ∧
    ¬ ∃ principal, c.IsLiveKey bearer principal
  live : ∀ principal, c.IsLiveKey bearer principal ↔
    r = some principal ∧ principal ≠ Tenancy.anonymous ∧ principal ≠ Tenancy.legacy

/-- `_resolve` decides. -/
def Resolves (c : Credentials hash) (bearer : Option Text) : Prop :=
  ∃ r, c.resolve bearer = .ok r ∧ c.Decision bearer r

/-- A request is served for whom its credential belongs to, or answered by 401. -/
def Answers (c : Credentials hash) (authorization : Option Text) : Prop :=
  ∃ r, c.Decision (bearerOf authorization) r ∧ c.requireApiToken authorization =
    match r with
    | some principal => .ok principal
    | none => .error .unauthorized

/-- A handshake is accepted when its credential belongs to someone, or ends in a policy
close. -/
def Admits (c : Credentials hash) (token authorization : Option Text) : Prop :=
  ∃ r, c.Decision (handshakeBearer token authorization) r ∧
    c.handshake token authorization = if r.isSome then .accepted else .policyClose

/-- The comparison with the shared token is not reached, or is one of ASCII strings. -/
def Comparable (c : Credentials hash) (bearer : Option Text) : Prop :=
  ∀ fullKey apiToken, bearer = some fullKey → c.apiToken = some apiToken →
    (∃ principal, c.IsLiveKey bearer principal) ∨
      (isAscii fullKey = true ∧ isAscii apiToken = true)

end Credentials

/-! ## Keys of a store -/

omit [DecidableEq D] in
theorem KeyStore.insert_cases {s s' : KeyStore D} {row r : KeyRow D}
    (h : s.insert row = some s') : r ∈ s'.rows ↔ r ∈ s.rows ∨ r = row := by
  rw [KeyStore.insert_rows h, List.mem_append, List.mem_singleton]

/-- The key ids of a store are the hexadecimal ones that were minted. -/
def KeyStore.Minted (s : KeyStore D) : Prop :=
  ∀ row ∈ s.rows, ∀ c ∈ row.record.keyId, c ∈ hexDigits

theorem KeyStore.Minted.step {s s' : KeyStore D} {call : KeyCall} {es : List KeyEvent}
    (h : s.Minted) (hstep : s.step hash call = some (es, s')) : s'.Minted := by
  cases call with
  | create mint customer label quota now =>
      rw [KeyStore.step] at hstep
      rcases hcreate : s.create hash mint customer label quota now with ⟨result, t⟩
      have hsame : t = s' := by
        rw [hcreate] at hstep
        cases result with
        | error e => cases hstep; rfl
        | ok p => cases hstep; rfl
      subst hsame
      rcases KeyStore.create_cases hcreate with ⟨e, -, rfl⟩ | ⟨record, -, hrecord, hinsert⟩
      · exact h
      · intro row hrow
        rcases (KeyStore.insert_cases hinsert).mp hrow with hold | rfl
        · exact h row hold
        · rw [hrecord]
          exact mint.hex
  | revoke keyId now =>
      cases hstep
      intro row hrow
      obtain ⟨old, hold, rfl⟩ := List.mem_map.mp hrow
      rw [KeyStore.stamp_keyId]
      exact h old hold
  | authenticate fullKey =>
      cases hstep
      exact h

theorem ReachedStore.minted (s : ReachedStore hash) : s.val.Minted := by
  obtain ⟨calls, es, hrun⟩ := s.property
  exact Machine.invariant_run (I := KeyStore.Minted) (fun _ _ _ _ h hstep => h.step hstep)
    (fun row hrow => absurd hrow List.not_mem_nil) hrun

/-- `authenticate` answers with the owner of the live key presented. -/
theorem KeyStore.authenticate_iff_live (s : KeyStore D) (fullKey : Text)
    (principal : Principal) :
    s.authenticate hash fullKey = some principal ↔
      ∃ row ∈ s.rows, parseKeyId fullKey = some row.record.keyId ∧
        row.record.revokedAt = none ∧ row.keyHash = hash fullKey ∧
          principal = row.record.principal := by
  unfold authenticate
  constructor
  · intro h
    split at h
    · cases h
    · next keyId hparse =>
        split at h
        · cases h
        · next row hselect =>
            split at h
            · cases h
            · next hactive =>
                split at h
                · cases h
                · next hhash =>
                    cases h
                    have hkey : row.record.keyId = keyId := by
                      simpa using List.find?_some hselect
                    exact ⟨row, List.mem_of_find?_eq_some hselect, hkey ▸ hparse,
                      not_not.mp hactive, not_not.mp hhash, rfl⟩
  · rintro ⟨row, hrow, hparse, hactive, hhash, rfl⟩
    simp [hparse, KeyStore.select_of_mem hrow, hactive, hhash]

namespace Credentials

variable {c : Credentials hash} {bearer : Option Text}

theorem authenticate_iff (fullKey : Text) (principal : Principal) :
    c.authenticate fullKey = some principal ↔ c.IsLiveKey (some fullKey) principal := by
  unfold authenticate IsLiveKey
  cases hstore : c.keyStore with
  | none => simp
  | some s =>
      simp only [KeyStore.authenticate_iff_live, Option.some.injEq]
      constructor
      · intro h
        exact ⟨s, fullKey, rfl, rfl, h⟩
      · rintro ⟨_, _, rfl, rfl, h⟩
        exact h

/-- Nobody who owns a key is anonymous, or goes by the shared token. -/
theorem IsLiveKey.ne {principal : Principal} (h : c.IsLiveKey bearer principal) :
    principal ≠ Tenancy.anonymous ∧ principal ≠ Tenancy.legacy := by
  obtain ⟨s, fullKey, -, -, row, hrow, -, -, -, rfl⟩ := h
  have hhex : ∀ ch ∈ row.record.principal.keyId, ch ∈ hexDigits := s.minted row hrow
  constructor
  · intro heq
    exact absurd (hhex 'n' (heq ▸ by decide)) (by decide)
  · intro heq
    exact absurd (hhex 'l' (heq ▸ by decide)) (by decide)

theorem IsLiveKey.unique {p q : Principal} (hp : c.IsLiveKey bearer p)
    (hq : c.IsLiveKey bearer q) : p = q := by
  obtain ⟨s, fullKey, hstore, rfl, hrow⟩ := hp
  have hp' := (authenticate_iff fullKey p).mpr ⟨s, fullKey, hstore, rfl, hrow⟩
  exact Option.some.inj (hp'.symm.trans ((authenticate_iff fullKey q).mpr hq))

theorem IsLiveKey.configured {principal : Principal} (h : c.IsLiveKey bearer principal) :
    ¬ c.Unconfigured := by
  obtain ⟨s, fullKey, hstore, -⟩ := h
  rintro ⟨hnone, -⟩
  cases hstore.symm.trans hnone

/-! ## The decision -/

theorem Decision.of_unconfigured (h : c.Unconfigured) :
    c.Decision bearer (some Tenancy.anonymous) where
  anonymous := iff_of_true rfl h
  legacy := by
    refine iff_of_false (by decide) ?_
    rintro ⟨⟨token, -, htoken⟩, -⟩
    cases h.2.symm.trans htoken
  live := fun principal => iff_of_false (fun hlive => hlive.configured h)
    fun hsame => hsame.2.1 (Option.some.inj hsame.1).symm

theorem Decision.of_live {principal : Principal} (h : c.IsLiveKey bearer principal) :
    c.Decision bearer (some principal) where
  anonymous := iff_of_false (fun heq => h.ne.1 (Option.some.inj heq)) h.configured
  legacy := iff_of_false (fun heq => h.ne.2 (Option.some.inj heq))
    fun hnone => hnone.2 ⟨principal, h⟩
  live := by
    intro q
    constructor
    · intro hq
      exact ⟨congrArg some (h.unique hq), hq.ne⟩
    · rintro ⟨heq, -⟩
      exact Option.some.inj heq ▸ h

theorem Decision.of_legacy {token : Text} (htoken : c.apiToken = some token)
    (hnone : ¬ ∃ principal, c.IsLiveKey (some token) principal) :
    c.Decision (some token) (some Tenancy.legacy) where
  anonymous := by
    refine iff_of_false (by decide) ?_
    rintro ⟨-, h⟩
    cases htoken.symm.trans h
  legacy := iff_of_true rfl ⟨⟨token, rfl, htoken⟩, hnone⟩
  live := fun principal => iff_of_false (fun hlive => hnone ⟨principal, hlive⟩)
    fun hsame => hsame.2.2 (Option.some.inj hsame.1).symm

theorem Decision.of_none (hconfigured : ¬ c.Unconfigured)
    (hnone : ¬ ∃ principal, c.IsLiveKey bearer principal)
    (htoken : ¬ ∃ token, bearer = some token ∧ c.apiToken = some token) :
    c.Decision bearer none where
  anonymous := iff_of_false (fun h => nomatch h) hconfigured
  legacy := iff_of_false (fun h => nomatch h) fun h => htoken h.1
  live := fun principal => iff_of_false (fun hlive => hnone ⟨principal, hlive⟩)
    fun hsame => nomatch hsame.1

/-- `_resolve` decides, or raises because it compares strings that are not ASCII. -/
theorem resolve_spec (c : Credentials hash) (bearer : Option Text) :
    (c.Comparable bearer ∧ ∃ r, c.resolve bearer = .ok r ∧ c.Decision bearer r) ∨
      (¬ c.Comparable bearer ∧ ¬ c.Unconfigured ∧
        c.resolve bearer = .error .typeError) := by
  unfold resolve
  by_cases hconfigured : c.Unconfigured
  · refine .inl ⟨?_, some Tenancy.anonymous, ?_, .of_unconfigured hconfigured⟩
    · intro fullKey apiToken _ htoken
      cases hconfigured.2.symm.trans htoken
    · simp [hconfigured.1, hconfigured.2]
  · have hguard : ¬ ((c.keyStore.isNone && c.apiToken.isNone) = true) := by
      simpa [Unconfigured] using hconfigured
    rw [if_neg hguard]
    cases bearer with
    | none =>
        have hnobody : ¬ ∃ principal, c.IsLiveKey none principal := by
          rintro ⟨principal, s, fullKey, -, hnone, -⟩
          cases hnone
        refine .inl ⟨(fun fullKey apiToken h => nomatch h), none, rfl, ?_⟩
        exact .of_none hconfigured hnobody fun ⟨token, h, _⟩ => nomatch h
    | some fullKey =>
        dsimp only
        cases hauth : c.authenticate fullKey with
        | some principal =>
            have hlive := (authenticate_iff fullKey principal).mp hauth
            exact .inl ⟨fun _ _ _ _ => .inl ⟨principal, hlive⟩, some principal, rfl,
              .of_live hlive⟩
        | none =>
            have hnobody : ¬ ∃ principal, c.IsLiveKey (some fullKey) principal := by
              rintro ⟨principal, hlive⟩
              cases hauth.symm.trans ((authenticate_iff fullKey principal).mpr hlive)
            cases htoken : c.apiToken with
            | none =>
                refine .inl ⟨?_, none, rfl, .of_none hconfigured hnobody ?_⟩
                · intro _ apiToken _ h
                  cases htoken.symm.trans h
                · rintro ⟨token, -, h⟩
                  cases htoken.symm.trans h
            | some apiToken =>
                have hcomparable : c.Comparable (some fullKey) ↔
                    (isAscii fullKey && isAscii apiToken) = true := by
                  rw [Bool.and_eq_true]
                  constructor
                  · intro h
                    exact (h fullKey apiToken rfl htoken).resolve_left hnobody
                  · rintro h key token hkey htoken'
                    cases hkey
                    cases htoken.symm.trans htoken'
                    exact .inr h
                rw [hcomparable]
                unfold compareDigest
                by_cases hascii : (isAscii fullKey && isAscii apiToken) = true
                · simp only [if_pos hascii]
                  by_cases hsame : fullKey = apiToken
                  · subst hsame
                    simp only [decide_true]
                    exact .inl ⟨hascii, some Tenancy.legacy, rfl, .of_legacy htoken hnobody⟩
                  · simp only [hsame, decide_false]
                    refine .inl ⟨hascii, none, rfl, .of_none hconfigured hnobody ?_⟩
                    rintro ⟨token, hkey, htoken'⟩
                    cases hkey
                    cases htoken.symm.trans htoken'
                    exact hsame rfl
                · simp only [if_neg hascii]
                  exact .inr ⟨hascii, hconfigured, trivial⟩

theorem resolves_iff (c : Credentials hash) (bearer : Option Text) :
    c.Resolves bearer ↔ c.Comparable bearer := by
  rcases c.resolve_spec bearer with ⟨hcomparable, hresolve⟩ | ⟨hnot, -, herror⟩
  · exact iff_of_true hresolve hcomparable
  · refine iff_of_false ?_ hnot
    rintro ⟨r, hok, -⟩
    cases herror.symm.trans hok

theorem answers_iff (c : Credentials hash) (authorization : Option Text) :
    c.Answers authorization ↔ c.Comparable (bearerOf authorization) := by
  unfold Answers requireApiToken
  rcases c.resolve_spec (bearerOf authorization) with
    ⟨hcomparable, r, hresolve, hdecision⟩ | ⟨hnot, -, herror⟩
  · refine iff_of_true ⟨r, hdecision, ?_⟩ hcomparable
    rw [hresolve]
    cases r <;> rfl
  · refine iff_of_false ?_ hnot
    rintro ⟨r, -, hanswer⟩
    rw [herror] at hanswer
    cases r <;> cases hanswer

theorem admits_iff (c : Credentials hash) (token authorization : Option Text) :
    c.Admits token authorization ↔ c.Comparable (handshakeBearer token authorization) := by
  have hguard : (c.apiToken.isSome || c.keyStore.isSome) = true ↔ ¬ c.Unconfigured := by
    unfold Unconfigured
    cases c.keyStore <;> cases c.apiToken <;> simp
  unfold Admits handshake
  rcases c.resolve_spec (handshakeBearer token authorization) with
    ⟨hcomparable, r, hresolve, hdecision⟩ | ⟨hnot, hconfigured, herror⟩
  · refine iff_of_true ⟨r, hdecision, ?_⟩ hcomparable
    by_cases hconfigured : c.Unconfigured
    · rw [if_neg fun h => hguard.mp h hconfigured, hdecision.anonymous.mpr hconfigured]
      rfl
    · rw [if_pos (hguard.mpr hconfigured), hresolve]
      cases r <;> rfl
  · refine iff_of_false ?_ hnot
    rintro ⟨r, -, hend⟩
    rw [if_pos (hguard.mpr hconfigured), herror] at hend
    cases r <;> cases hend

end Credentials

/-- Whatever is configured and whatever a client sends, `_resolve` decides whom the
credential belongs to, an HTTP request gets its answer and a handshake its end, exactly if
the credential is a live key, or no shared token is configured, or both it and the token
are ASCII. -/
theorem resolution_decided_iff (c : Credentials hash) :
    (∀ bearer, c.Resolves bearer ↔ c.Comparable bearer) ∧
      (∀ authorization, c.Answers authorization ↔ c.Comparable (bearerOf authorization)) ∧
      ∀ token authorization,
        c.Admits token authorization ↔ c.Comparable (handshakeBearer token authorization) :=
  ⟨c.resolves_iff, c.answers_iff, c.admits_iff⟩

/-- A shared token alone, and a header with a letter of Latin-1. -/
theorem resolution_raises :
    ¬ ∀ (c : Credentials (id : Text → Text)) (authorization : Option Text),
      c.Resolves (bearerOf authorization) ∧ c.Answers authorization := by
  intro hall
  obtain ⟨⟨r, hresolve, -⟩, -⟩ := hall ⟨none, some ['s', '3']⟩ (some (bearerPrefix ++ ['é']))
  cases hresolve

end Repercep.Tenancy
