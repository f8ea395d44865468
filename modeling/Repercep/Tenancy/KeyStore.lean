import Mathlib.Algebra.Ring.Int.Defs
import Repercep.Foundation.Machine
import Mathlib.Data.List.Nodup
set_option autoImplicit false

/-!
# Per-customer API keys

The model of `serving/tenancy.py`.  A key reads `rpc_<key_id>_<secret>`; the store keeps
a row for each key with the SHA-256 of the whole key, and finds the row of a presented
string by the part between the first two underscores, which anyone can name.

The hash is a parameter.  What `secrets` mints is an input of `create`; SQLite refuses a
key id it has already, and an integer beyond 64 bits.
-/

namespace Repercep.Tenancy

open Repercep.Foundation

/-- A Python string that can be encoded. -/
abbrev Text : Type := List Char

/-- `s.split(sep, maxsplit)`. -/
def splitMax (sep : Char) : Nat → Text → List Text
  | 0, s => [s]
  | n + 1, s =>
      if sep ∈ s then
        s.takeWhile (· ≠ sep) :: splitMax sep n ((s.dropWhile (· ≠ sep)).drop 1)
      else [s]

/-- The part of a string before its first separator is split off. -/
theorem splitMax_append {sep : Char} {a : Text} (ha : sep ∉ a) (n : Nat) (rest : Text) :
    splitMax sep (n + 1) (a ++ sep :: rest) = a :: splitMax sep n rest := by
  have hne : ∀ c ∈ a, decide (c ≠ sep) = true := by
    intro c hc
    apply decide_eq_true
    intro heq
    exact ha (heq ▸ hc)
  have hmem : sep ∈ a ++ sep :: rest := List.mem_append_right a List.mem_cons_self
  rw [splitMax, if_pos hmem, List.takeWhile_append_of_pos hne,
    List.dropWhile_append_of_pos hne]
  simp

/-! ## The format of a key -/

/-- `_KEY_PREFIX`. -/
def keyPrefix : Text := ['r', 'p', 'c']

/-- The characters of `secrets.token_hex`. -/
def hexDigits : Text :=
  ['0', '1', '2', '3', '4', '5', '6', '7', '8', '9', 'a', 'b', 'c', 'd', 'e', 'f']

/-- What `mint_key` draws: a hexadecimal key id and a secret, which may contain any
character, an underscore too. -/
structure Mint where
  keyId : Text
  secret : Text
  hex : ∀ c ∈ keyId, c ∈ hexDigits
  keyIdNonempty : keyId ≠ []
  secretNonempty : secret ≠ []

/-- `f"{_KEY_PREFIX}_{key_id}_{secret}"`. -/
def Mint.fullKey (m : Mint) : Text := keyPrefix ++ '_' :: (m.keyId ++ '_' :: m.secret)

/-- `parse_key_id`. -/
def parseKeyId (fullKey : Text) : Option Text :=
  match splitMax '_' 2 fullKey with
  | [head, keyId, secret] =>
      if head ≠ keyPrefix ∨ keyId = [] ∨ secret = [] then none else some keyId
  | _ => none

/-- The key id of a minted key is read back from it, whatever the secret contains. -/
theorem Mint.parse (m : Mint) : parseKeyId m.fullKey = some m.keyId := by
  have hprefix : '_' ∉ keyPrefix := by decide
  have hkeyId : '_' ∉ m.keyId := fun h => absurd (m.hex '_' h) (by decide)
  rw [parseKeyId, fullKey, splitMax_append hprefix, splitMax_append hkeyId, splitMax]
  simp [m.keyIdNonempty, m.secretNonempty]

/-! ## The store -/

/-- `Principal`. -/
structure Principal where
  keyId : Text
  customer : Text
  label : Text
  monthlyTokenQuota : Option Int
  deriving DecidableEq, Repr

/-- `ApiKeyRecord`. -/
structure ApiKeyRecord where
  keyId : Text
  customer : Text
  label : Text
  createdAt : Text
  revokedAt : Option Text
  monthlyTokenQuota : Option Int
  deriving DecidableEq, Repr

/-- The principal of a stored key. -/
def ApiKeyRecord.principal (r : ApiKeyRecord) : Principal :=
  ⟨r.keyId, r.customer, r.label, r.monthlyTokenQuota⟩

variable {D : Type}

/-- A row of `api_keys`: a record and the hash of its key. -/
structure KeyRow (D : Type) where
  record : ApiKeyRecord
  keyHash : D
  deriving DecidableEq, Repr

/-- The table, with `key_id` as its primary key. -/
structure KeyStore (D : Type) where
  rows : List (KeyRow D)
  primary : (rows.map fun row => row.record.keyId).Nodup

/-- What `create` raises. -/
inductive CreateError where
  | valueError (message : String)
  /-- `sqlite3.IntegrityError`: the key id is taken -/
  | integrityError
  /-- the quota does not fit a SQLite integer -/
  | overflowError
  deriving DecidableEq, Repr

/-- `str.isspace` of one character. -/
def isSpace (c : Char) : Bool :=
  let n := c.toNat
  (9 ≤ n && n ≤ 13) || (28 ≤ n && n ≤ 32) || n == 0x85 || n == 0xA0 || n == 0x1680 ||
    (0x2000 ≤ n && n ≤ 0x200A) || n == 0x2028 || n == 0x2029 || n == 0x202F ||
    n == 0x205F || n == 0x3000

/-- A SQLite integer. -/
def fitsInteger (x : Int) : Bool := -(2 ^ 63) ≤ x && x < 2 ^ 63

namespace KeyStore

/-- The table without rows. -/
def empty : KeyStore D := ⟨[], List.nodup_nil⟩

/-- `SELECT * FROM api_keys WHERE key_id = ?`. -/
def select (s : KeyStore D) (keyId : Text) : Option (KeyRow D) :=
  s.rows.find? fun row => row.record.keyId = keyId

/-- `INSERT INTO api_keys`, where the primary key allows it. -/
def insert (s : KeyStore D) (row : KeyRow D) : Option (KeyStore D) :=
  if h : row.record.keyId ∈ s.rows.map (fun row => row.record.keyId) then none
  else some
    { rows := s.rows ++ [row]
      primary := by
        rw [List.map_append]
        exact s.primary.append (List.nodup_singleton _)
          (List.disjoint_singleton.mpr h) }

/-- `create`, at the time `now`: the full key and the record. -/
def create (hash : Text → D) (s : KeyStore D) (mint : Mint) (customer label : Text)
    (monthlyTokenQuota : Option Int) (now : Text) :
    Except CreateError (Text × ApiKeyRecord) × KeyStore D :=
  if customer.all isSpace then
    (.error (.valueError "customer must be a non-empty name"), s)
  else if ¬ monthlyTokenQuota.all fitsInteger then (.error .overflowError, s)
  else
    let record : ApiKeyRecord :=
      ⟨mint.keyId, customer, label, now, none, monthlyTokenQuota⟩
    match s.insert ⟨record, hash mint.fullKey⟩ with
    | none => (.error .integrityError, s)
    | some s' => (.ok (mint.fullKey, record), s')

/-- `create` refuses and leaves the store as it is, or adds the row of the new key. -/
theorem create_cases {hash : Text → D} {s s' : KeyStore D} {mint : Mint}
    {customer label now : Text} {quota : Option Int}
    {result : Except CreateError (Text × ApiKeyRecord)}
    (h : s.create hash mint customer label quota now = (result, s')) :
    (∃ e, result = .error e ∧ s' = s) ∨
      ∃ record, result = .ok (mint.fullKey, record) ∧
        record = ⟨mint.keyId, customer, label, now, none, quota⟩ ∧
        s.insert ⟨record, hash mint.fullKey⟩ = some s' := by
  rw [create] at h
  split at h
  · cases h
    exact .inl ⟨_, rfl, rfl⟩
  · split at h
    · cases h
      exact .inl ⟨_, rfl, rfl⟩
    · dsimp only at h
      split at h
      · cases h
        exact .inl ⟨_, rfl, rfl⟩
      · next hinsert =>
          cases h
          exact .inr ⟨_, rfl, rfl, hinsert⟩

theorem insert_rows {s s' : KeyStore D} {row : KeyRow D} (h : s.insert row = some s') :
    s'.rows = s.rows ++ [row] := by
  rw [insert] at h
  split at h
  · cases h
  · cases h
    rfl

/-- What the `UPDATE` of `revoke` does to a row it matches. -/
def stamp (keyId now : Text) (row : KeyRow D) : KeyRow D :=
  if row.record.keyId = keyId ∧ row.record.revokedAt = none then
    { row with record := { row.record with revokedAt := some now } }
  else row

@[simp] theorem stamp_keyId (keyId now : Text) (row : KeyRow D) :
    (stamp keyId now row).record.keyId = row.record.keyId := by
  rw [stamp]
  split <;> rfl

/-- `revoke`, at the time `now`: whether the `UPDATE` counted a row. -/
def revoke (s : KeyStore D) (keyId now : Text) : Bool × KeyStore D :=
  (0 < (s.rows.filter fun row =>
      row.record.keyId = keyId ∧ row.record.revokedAt = none).length,
    { rows := s.rows.map (stamp keyId now)
      primary := by
        rw [List.map_map]
        simpa [Function.comp_def] using s.primary })

/-- `authenticate`. -/
def authenticate [DecidableEq D] (hash : Text → D) (s : KeyStore D) (fullKey : Text) :
    Option Principal :=
  match parseKeyId fullKey with
  | none => none
  | some keyId =>
      match s.select keyId with
      | none => none
      | some row =>
          if row.record.revokedAt ≠ none then none
          else if row.keyHash ≠ hash fullKey then none
          else some row.record.principal

end KeyStore

/-! ## The calls -/

/-- The calls on a store. -/
inductive KeyCall where
  | create (mint : Mint) (customer label : Text) (monthlyTokenQuota : Option Int)
      (now : Text)
  | revoke (keyId now : Text)
  | authenticate (fullKey : Text)

/-- What the calls return. -/
inductive KeyEvent where
  | created (fullKey : Text) (record : ApiKeyRecord)
  | refused (e : CreateError)
  | revoked (keyId : Text) (result : Bool)
  | authenticated (fullKey : Text) (result : Option Principal)
  deriving DecidableEq, Repr

/-- One call. -/
def KeyStore.step [DecidableEq D] (hash : Text → D) (s : KeyStore D) :
    KeyCall → Option (List KeyEvent × KeyStore D)
  | .create mint customer label quota now =>
      match s.create hash mint customer label quota now with
      | (.error e, s') => some ([.refused e], s')
      | (.ok (fullKey, record), s') => some ([.created fullKey record], s')
  | .revoke keyId now =>
      some ([.revoked keyId (s.revoke keyId now).1], (s.revoke keyId now).2)
  | .authenticate fullKey =>
      some ([.authenticated fullKey (s.authenticate hash fullKey)], s)

/-- The calls on a key store that starts empty. -/
def keyStore [DecidableEq D] (hash : Text → D) : Machine (KeyStore D) KeyCall KeyEvent where
  init := KeyStore.empty
  step := KeyStore.step hash

end Repercep.Tenancy
