import AltrStream.Python.Str
import AltrStream.Foundations.Reached
import AltrStream.Foundations.Table
import Mathlib.Data.List.Dedup
import Mathlib.Data.List.Sort

/-! # API keys

`api_key_service.py` and `api_key_repository.py`: how a key's scopes are stored
and which keys `verify_key` accepts. Keys are looked up by the digest of their
secret; the digest is a parameter.
-/
namespace AltrStream.Security
open Python

structure ApiKeyModel where
  keyHash : String
  scopes : String
  isActive : Bool := true
  expiresAt : Option ℕ := none
  deriving DecidableEq

section
variable (py : Casing)

/-- The text in which a key's scopes are stored. -/
def storedScopes (scopes : List String) : String :=
  let names := (scopes.filter (strip · ≠ "")).map fun s => py.lower (strip s)
  let text := join ',' (names.dedup.mergeSort (· ≤ ·))
  if text = "" then "read" else text

/-- `SqliteApiKeyRepository.create` -/
def create (keyHash : String) (scopes : List String) (expiresAt : Option ℕ) : ApiKeyModel where
  keyHash := strip keyHash
  scopes := storedScopes py scopes
  expiresAt := expiresAt

/-- `hash_api_key`, for the digest of a text. -/
def hashApiKey (digest : String → String) (rawKey : String) : String := digest (strip rawKey)

/-- `ApiKeyService.generate_key`; no scopes at all stand for read and write. -/
def generateKey (digest : String → String) (rawKey : String) (scopes : List String)
    (expiresAt : Option ℕ) : ApiKeyModel :=
  create py (hashApiKey digest rawKey) (if scopes.isEmpty then ["read", "write"] else scopes)
    expiresAt

/-- `get_by_hash`: the active key with the digest, unless it has expired. -/
def getByHash (now : ℕ) (keys : List ApiKeyModel) (keyHash : String) : Option ApiKeyModel :=
  (keys.find? fun k => k.keyHash = keyHash && k.isActive).filter fun k =>
    !(k.expiresAt.any (· < now))

/-- `[s.strip().lower() for s in key_model.scopes.split(",") if s.strip()]` -/
def activeScopes (scopes : String) : List String :=
  ((split ',' scopes).filter (strip · ≠ "")).map fun s => py.lower (strip s)

/-- The scope check of `verify_key`. -/
def scopeGranted (scopes requiredScope : String) : Bool :=
  let active := activeScopes py scopes
  if "admin" ∈ active then true
  else
    let req := py.lower (strip requiredScope)
    if req = "read" then "read" ∈ active || "write" ∈ active
    else if req = "write" then "write" ∈ active
    else req ≠ "admin"

/-- The secret without the scheme in front of it. -/
def cleanKey (rawKey : String) : String :=
  let key := strip rawKey
  if "Bearer ".toList <+: key.toList then strip (String.ofList (key.toList.drop 7)) else key

/-- `ApiKeyService.verify_key` -/
def verifyKey (digest : String → String) (now : ℕ) (keys : List ApiKeyModel) (rawKey : String)
    (requiredScope : Option String) : Option ApiKeyModel :=
  if rawKey = "" then none
  else (getByHash now keys (hashApiKey digest (cleanKey rawKey))).filter fun key =>
    match requiredScope.filter (· ≠ "") with
    | some required => scopeGranted py key.scopes required
    | none => true

end

/-! ## The store of API keys

The operations of `api_key_service.py` on the table of keys, and the time that
passes between them. A digest stands in one row at most; a key is looked up
among the active rows and expires by the clock alone.
-/
open Foundations

structure ApiKeyRow extends ApiKeyModel where
  id : String
  deriving DecidableEq

/-- `key.is_active = False` -/
def ApiKeyRow.revoked (key : ApiKeyRow) : ApiKeyRow := { key with isActive := false }

instance : Keyed ApiKeyRow String := ⟨ApiKeyRow.id⟩

/-- The table `api_keys` and the time. -/
structure KeyStore where
  rows : Table ApiKeyRow
  unique : (rows.rows.map (·.keyHash)).Nodup
  now : ℕ

inductive KeyError
  | integrityError
  deriving DecidableEq

inductive KeyOperation
  | generateKey (id rawKey : String) (scopes : List String)
      (expiresInDays expiresInHours : Option ℤ) (expiresAt : Option ℕ)
  | revokeKey (keyId : String)
  | deleteKey (keyId : String)
  | wait (seconds : ℕ)

/-- The operation adds no key. -/
def KeyOperation.Closes : KeyOperation → Prop
  | .generateKey .. => False
  | .revokeKey _ | .deleteKey _ | .wait _ => True

/-- `resolved_expires_at`, in seconds. -/
def resolvedExpiresAt (now : ℕ) (expiresInDays expiresInHours : Option ℤ) :
    Option ℕ → Option ℕ
  | some expiresAt => some expiresAt
  | none =>
    match expiresInHours.filter (0 < ·), expiresInDays.filter (0 < ·) with
    | some hours, _ => some (now + hours.toNat * 3600)
    | none, some days => some (now + days.toNat * 86400)
    | none, none => none

namespace KeyStore

def empty : KeyStore := ⟨.empty, List.nodup_nil, 0⟩

/-- `self.session.add(model)`; neither the id nor the digest may be taken. -/
def add (store : KeyStore) (row : ApiKeyRow) : Except KeyError KeyStore :=
  if hhash : row.keyHash ∈ store.rows.rows.map (·.keyHash) then .error .integrityError
  else
    match hrows : store.rows.insert? row with
    | none => .error .integrityError
    | some rows => .ok { store with
        rows
        unique := by
          rw [Table.rows_of_insert? hrows, List.map_append, List.nodup_append]
          refine ⟨store.unique, List.nodup_singleton _, fun _ ha _ hb heq => hhash ?_⟩
          rw [List.map_singleton, List.mem_singleton] at hb
          exact hb ▸ heq ▸ ha }

/-- `revoke` -/
def revoke (store : KeyStore) (keyId : String) : KeyStore where
  rows := store.rows.modify keyId ApiKeyRow.revoked fun _ => rfl
  unique := by
    have hsame : (store.rows.modify keyId ApiKeyRow.revoked fun _ => rfl).rows.map (·.keyHash) =
        store.rows.rows.map (·.keyHash) := by
      simp only [Table.modify, Table.map, List.map_map]
      exact List.map_congr_left fun key _ => by dsimp only [Function.comp]; split_ifs <;> rfl
    rw [hsame]
    exact store.unique
  now := store.now

/-- `delete` -/
def delete (store : KeyStore) (keyId : String) : KeyStore where
  rows := store.rows.filter (·.id ≠ keyId)
  unique := store.unique.sublist (List.filter_sublist.map _)
  now := store.now

/-- One operation of the service, or the time that passes. -/
def apply (py : Casing) (digest : String → String) (store : KeyStore) :
    KeyOperation → Except KeyError KeyStore
  | .generateKey id rawKey scopes days hours expiresAt =>
    store.add { generateKey py digest rawKey scopes
      (resolvedExpiresAt store.now days hours expiresAt) with id }
  | .revokeKey keyId => .ok (store.revoke keyId)
  | .deleteKey keyId => .ok (store.delete keyId)
  | .wait seconds => .ok { store with now := store.now + seconds }

/-- `has_active_keys`: the expiry is not looked at. -/
def hasActiveKeys (store : KeyStore) : Bool := store.rows.rows.any (·.isActive)

/-- The rows as `get_by_hash` selects among them. -/
def models (store : KeyStore) : List ApiKeyModel := store.rows.rows.map (·.toApiKeyModel)

@[simp] theorem hasActiveKeys_iff {store : KeyStore} :
    store.hasActiveKeys = true ↔ ∃ key ∈ store.rows, key.isActive = true := List.any_eq_true

theorem mem_revoke {store : KeyStore} {keyId : String} {key : ApiKeyRow} :
    key ∈ (store.revoke keyId).rows ↔ (key ∈ store.rows ∧ key.id ≠ keyId) ∨
      ∃ old ∈ store.rows, old.id = keyId ∧ old.revoked = key :=
  Table.mem_modify (f := ApiKeyRow.revoked) fun _ => rfl

theorem mem_delete {store : KeyStore} {keyId : String} {key : ApiKeyRow} :
    key ∈ (store.delete keyId).rows ↔ key ∈ store.rows ∧ key.id ≠ keyId := by
  rw [delete, Table.mem_filter, decide_eq_true_eq]

theorem mem_add {store store' : KeyStore} {row key : ApiKeyRow} (h : store.add row = .ok store') :
    key ∈ store'.rows ↔ key ∈ store.rows ∨ key = row := by
  unfold add at h
  split at h
  · cases h
  · split at h
    · cases h
    · next rows hrows =>
      cases h
      exact Table.mem_of_insert? hrows

end KeyStore

/-! ### What one operation does to the rows -/

section
variable {py : Casing} {digest : String → String} {store store' : KeyStore}

/-- The digest that the operation draws. -/
def KeyOperation.drawn (digest : String → String) : KeyOperation → Option String
  | .generateKey _ rawKey _ _ _ _ => some (strip (hashApiKey digest rawKey))
  | .revokeKey _ | .deleteKey _ | .wait _ => none

/-- A row either stood there before with the same key, active if it is active now, or
it is the one that was drawn. -/
theorem KeyStore.row_before {op : KeyOperation} (h : store.apply py digest op = .ok store')
    {key : ApiKeyRow} (hkey : key ∈ store'.rows) :
    (∃ old ∈ store.rows, old.keyHash = key.keyHash ∧ (key.isActive = true → old = key)) ∨
      op.drawn digest = some key.keyHash := by
  cases op with
  | generateKey id rawKey scopes days hours expiresAt =>
    rcases (KeyStore.mem_add h).1 hkey with hold | rfl
    · exact .inl ⟨key, hold, rfl, fun _ => rfl⟩
    · exact .inr rfl
  | revokeKey keyId =>
    cases h
    rcases KeyStore.mem_revoke.1 hkey with ⟨hold, -⟩ | ⟨old, hold, -, rfl⟩
    · exact .inl ⟨key, hold, rfl, fun _ => rfl⟩
    · exact .inl ⟨old, hold, rfl, fun hactive => by cases hactive⟩
  | deleteKey keyId =>
    cases h
    exact .inl ⟨key, (KeyStore.mem_delete.1 hkey).1, rfl, fun _ => rfl⟩
  | wait seconds =>
    cases h
    exact .inl ⟨key, hkey, rfl, fun _ => rfl⟩

/-- Time does not run backwards. -/
theorem KeyStore.now_le {op : KeyOperation} (h : store.apply py digest op = .ok store') :
    store.now ≤ store'.now := by
  cases op with
  | generateKey id rawKey scopes days hours expiresAt =>
    simp only [KeyStore.apply, KeyStore.add] at h
    split at h
    · cases h
    · split at h <;> cases h
      exact le_rfl
  | revokeKey keyId => cases h; exact le_rfl
  | deleteKey keyId => cases h; exact le_rfl
  | wait seconds => cases h; exact Nat.le_add_right _ _

end

end AltrStream.Security
