import AltrStream.Security.KeyStore

/-! # The guard of the endpoints and its bootstrap mode

`require_scope` of `security.py`. Without an active key every request is let
through, and revoking or deleting the last active key brings that state back.
-/
namespace AltrStream.Security
open Foundations Python

structure HTTPException where
  statusCode : ℕ
  detail : String
  headers : List (String × String) := []
  deriving DecidableEq

/-- The headers that `_verify` reads. -/
structure Request where
  apiKeyHeader : Option String := none
  authorization : Option String := none
  altrClient : Option String := none

section
variable (py : Casing) (digest : String → String)

/-- `raw_key`: the key of either header, without the scheme in front of it. -/
def Request.rawKey (request : Request) : Option String :=
  ((request.apiKeyHeader.filter (· ≠ "")).or request.authorization).map fun key =>
    if "bearer ".toList <+: (py.lower key).toList then strip (String.ofList (key.toList.drop 7))
    else key

def missingApiKey : HTTPException where
  statusCode := 401
  detail := "Missing API key. Provide 'X-Altr-API-Key' or 'Authorization: Bearer <key>' header."
  headers := [("WWW-Authenticate", "ApiKey")]

def invalidApiKey (scope : String) : HTTPException where
  statusCode := 403
  detail := "Invalid or unauthorized API key for scope '" ++ scope ++ "'."

/-- `require_scope._verify` -/
def requireScope (requireApiKey : Bool) (scope : String) (store : KeyStore) (request : Request) :
    Except HTTPException (Option ApiKeyModel) :=
  if request.altrClient = some "web-dashboard" then .ok none
  else if !store.hasActiveKeys && !requireApiKey then .ok none
  else
    match (request.rawKey py).filter (· ≠ "") with
    | none => .error missingApiKey
    | some rawKey =>
      match verifyKey py digest store.now store.models rawKey (some scope) with
      | none => .error (invalidApiKey scope)
      | some key => .ok (some key)

/-- The request gets past the guard of an endpoint. -/
def LetThrough (store : KeyStore) (scope : String) (request : Request) : Prop :=
  ∃ key, requireScope py digest false scope store request = .ok key

/-- The key is active and has not expired. -/
def ApiKeyModel.Valid (now : ℕ) (key : ApiKeyModel) : Prop :=
  key.isActive = true ∧ ∀ expiresAt, key.expiresAt = some expiresAt → now ≤ expiresAt

/-- The request presents the secret with the digest. -/
def Request.Presents (request : Request) (keyHash : String) : Prop :=
  ∃ rawKey, request.rawKey py = some rawKey ∧ rawKey ≠ "" ∧
    hashApiKey digest (cleanKey rawKey) = keyHash

/-- The request carries a key that is active, unexpired and allowed the scope. -/
def Carries (store : KeyStore) (scope : String) (request : Request) : Prop :=
  ∃ key ∈ store.rows, request.Presents py digest key.keyHash ∧ key.Valid store.now ∧
    scopeGranted py key.scopes scope = true

end

variable {py : Casing} {digest : String → String}

/-! ### What the guard decides in one state -/

theorem scopeGranted_empty (scopes : String) : scopeGranted py scopes "" = true := by
  have hreq : py.lower (strip "") = "" := by
    have hstrip : strip "" = "" := by decide
    rw [hstrip]
    exact py.lower_of_kept _ (py.kept_of_forall (by decide))
  simp [scopeGranted, hreq]

/-- The row that `get_by_hash` finds. -/
theorem getByHash_eq_some {store : KeyStore} {keyHash : String} {key : ApiKeyModel} :
    getByHash store.now store.models keyHash = some key ↔
      ∃ row ∈ store.rows, row.toApiKeyModel = key ∧ key.keyHash = keyHash ∧ key.Valid store.now := by
  have hvalid : (!(key.expiresAt.any (· < store.now))) = true ↔
      ∀ expiresAt, key.expiresAt = some expiresAt → store.now ≤ expiresAt := by
    cases key.expiresAt <;> simp
  rw [getByHash, Option.filter_eq_some_iff, hvalid]
  constructor
  · rintro ⟨hfound, hexpiry⟩
    obtain ⟨row, hrow, rfl⟩ := List.mem_map.1 (List.mem_of_find?_eq_some hfound)
    have hkey := List.find?_some hfound
    simp only [Bool.and_eq_true, decide_eq_true_eq] at hkey
    exact ⟨row, hrow, rfl, hkey.1, hkey.2, hexpiry⟩
  · rintro ⟨row, hrow, rfl, rfl, hactive, hexpiry⟩
    refine ⟨?_, hexpiry⟩
    cases hfound : store.models.find? fun k => k.keyHash = row.keyHash && k.isActive with
    | none =>
      have hnone := List.find?_eq_none.1 hfound _ (List.mem_map_of_mem hrow)
      simp [hactive] at hnone
    | some other =>
      obtain ⟨row', hrow', rfl⟩ := List.mem_map.1 (List.mem_of_find?_eq_some hfound)
      have hhash := List.find?_some hfound
      simp only [Bool.and_eq_true, decide_eq_true_eq] at hhash
      rw [List.inj_on_of_nodup_map store.unique hrow' hrow hhash.1]

theorem verifyKey_eq_some {store : KeyStore} {rawKey scope : String} (hne : rawKey ≠ "")
    {key : ApiKeyModel} :
    verifyKey py digest store.now store.models rawKey (some scope) = some key ↔
      getByHash store.now store.models (hashApiKey digest (cleanKey rawKey)) = some key ∧
        scopeGranted py key.scopes scope = true := by
  rw [verifyKey, if_neg hne, Option.filter_eq_some_iff]
  refine and_congr_right fun _ => ?_
  by_cases hempty : scope = ""
  · subst hempty
    rw [scopeGranted_empty]
    simp [Option.filter]
  · simp [Option.filter, hempty]

/-- Whom the guard lets through once some key is active. -/
theorem letThrough_iff {store : KeyStore} {scope : String} {request : Request}
    (hclient : request.altrClient ≠ some "web-dashboard") (hkeys : store.hasActiveKeys = true) :
    LetThrough py digest store scope request ↔ Carries py digest store scope request := by
  simp only [LetThrough, requireScope, hclient, hkeys, if_false, Bool.not_true, Bool.false_and,
    Bool.false_eq_true]
  constructor
  · rintro ⟨key, h⟩
    cases hraw : (request.rawKey py).filter (· ≠ "") with
    | none => rw [hraw] at h; cases h
    | some rawKey =>
      rw [hraw] at h
      obtain ⟨hrawKey, hne⟩ := Option.filter_eq_some_iff.1 hraw
      rw [decide_eq_true_eq] at hne
      dsimp only at h
      split at h
      · cases h
      · next found hfound =>
        obtain ⟨hhash, hgranted⟩ := (verifyKey_eq_some hne).1 hfound
        obtain ⟨row, hrow, rfl, hpresents, hvalid⟩ := getByHash_eq_some.1 hhash
        exact ⟨row, hrow, ⟨rawKey, hrawKey, hne, hpresents.symm⟩, hvalid, hgranted⟩
  · rintro ⟨row, hrow, ⟨rawKey, hrawKey, hne, hpresents⟩, hvalid, hgranted⟩
    have hfound : verifyKey py digest store.now store.models rawKey (some scope) =
        some row.toApiKeyModel := (verifyKey_eq_some hne).2
      ⟨getByHash_eq_some.2 ⟨row, hrow, rfl, hpresents.symm, hvalid⟩, hgranted⟩
    refine ⟨some row.toApiKeyModel, ?_⟩
    simp [hrawKey, Option.filter, hne, hfound]

/-- Without an active key everybody is let through. -/
theorem letThrough_of_no_keys {store : KeyStore} (hkeys : store.hasActiveKeys = false)
    (scope : String) (request : Request) : LetThrough py digest store scope request := by
  refine ⟨none, ?_⟩
  simp [requireScope, hkeys]

/-! ### Runs -/

section
variable (py : Casing) (digest : String → String)

/-- The store after the operations. -/
def keysAfter (ops : List KeyOperation) : KeyStore :=
  ops.foldl (attempt (KeyStore.apply py digest)) .empty

/-- A key has been registered by one of the operations. -/
def Registered (ops : List KeyOperation) : Prop :=
  ∃ earlier, earlier <+: ops ∧ ∃ key, key ∈ (keysAfter py digest earlier).rows

/-- Revoking never opens the door to a request that is not the dashboard's. -/
structure DoorStaysShut (ops : List KeyOperation) : Prop where
  /-- Once a key is registered, whoever is let through carries a valid key. -/
  shut : ∀ pre, pre <+: ops → Registered py digest pre → ∀ scope request,
    request.altrClient ≠ some "web-dashboard" →
      LetThrough py digest (keysAfter py digest pre) scope request →
        Carries py digest (keysAfter py digest pre) scope request
  /-- Who is rejected is still rejected after a key is revoked, deleted or expires. -/
  rejected : ∀ pre op, pre ++ [op] <+: ops → op.Closes → ∀ scope request,
    request.altrClient ≠ some "web-dashboard" →
      ¬ LetThrough py digest (keysAfter py digest pre) scope request →
        ¬ LetThrough py digest (keysAfter py digest (pre ++ [op])) scope request
  /-- A revoked key is not accepted again. -/
  revoked : ∀ pre keyId later, pre ++ .revokeKey keyId :: later <+: ops →
    ∀ key ∈ (keysAfter py digest pre).rows, key.id = keyId → ∀ scope request,
      request.altrClient ≠ some "web-dashboard" → request.Presents py digest key.keyHash →
        ¬ LetThrough py digest (keysAfter py digest (pre ++ .revokeKey keyId :: later)) scope request

/-- The operation leaves a key active if one is. -/
def KeyOperation.SparesAKey (store : KeyStore) : KeyOperation → Prop
  | .revokeKey keyId | .deleteKey keyId =>
    (∃ key ∈ store.rows, key.isActive = true) →
      ∃ key ∈ store.rows, key.isActive = true ∧ key.id ≠ keyId
  | .generateKey .. | .wait _ => True

/-- No operation revokes or deletes the last active key. -/
def SparesTheLastKey (ops : List KeyOperation) : Prop :=
  ∀ pre op, pre ++ [op] <+: ops → op.SparesAKey (keysAfter py digest pre)

end

theorem keysAfter_append (ops : List KeyOperation) (op : KeyOperation) :
    keysAfter py digest (ops ++ [op]) =
      attempt (KeyStore.apply py digest) (keysAfter py digest ops) op := by
  rw [keysAfter, List.foldl_append]
  rfl

/-- An operation that spares a key leaves an active key where there was one, and nothing else
can remove the last one. -/
theorem hasActiveKeys_apply_iff {store store' : KeyStore} {op : KeyOperation}
    (h : store.apply py digest op = .ok store') (hkeys : store.hasActiveKeys = true) :
    store'.hasActiveKeys = true ↔ op.SparesAKey store := by
  rw [KeyStore.hasActiveKeys_iff] at hkeys ⊢
  cases op with
  | generateKey id rawKey scopes days hours expiresAt =>
    obtain ⟨key, hkey, hactive⟩ := hkeys
    exact iff_of_true ⟨key, (KeyStore.mem_add h).2 (.inl hkey), hactive⟩ trivial
  | revokeKey keyId =>
    cases h
    constructor
    · rintro ⟨key, hkey, hactive⟩ -
      rcases KeyStore.mem_revoke.1 hkey with ⟨hold, hid⟩ | ⟨old, -, -, rfl⟩
      · exact ⟨key, hold, hactive, hid⟩
      · cases hactive
    · intro hspares
      obtain ⟨key, hkey, hactive, hid⟩ := hspares hkeys
      exact ⟨key, KeyStore.mem_revoke.2 (.inl ⟨hkey, hid⟩), hactive⟩
  | deleteKey keyId =>
    cases h
    constructor
    · rintro ⟨key, hkey, hactive⟩ -
      obtain ⟨hold, hid⟩ := KeyStore.mem_delete.1 hkey
      exact ⟨key, hold, hactive, hid⟩
    · intro hspares
      obtain ⟨key, hkey, hactive, hid⟩ := hspares hkeys
      exact ⟨key, KeyStore.mem_delete.2 ⟨hkey, hid⟩, hactive⟩
  | wait seconds =>
    cases h
    exact iff_of_true hkeys trivial

/-- Some row is active, or there is no row at all. -/
def KeyStore.Settled (store : KeyStore) : Prop :=
  (∃ key, key ∈ store.rows) → store.hasActiveKeys = true

theorem KeyStore.Settled.apply {store store' : KeyStore} {op : KeyOperation}
    (hsettled : store.Settled) (h : store.apply py digest op = .ok store')
    (hspares : op.SparesAKey store) : store'.Settled := by
  rintro ⟨key, hkey⟩
  by_cases hrows : ∃ key, key ∈ store.rows
  · exact (hasActiveKeys_apply_iff h (hsettled hrows)).2 hspares
  · -- the first row is the one that was just generated
    cases op with
    | generateKey id rawKey scopes days hours expiresAt =>
      rcases (KeyStore.mem_add h).1 hkey with hold | rfl
      · exact absurd ⟨key, hold⟩ hrows
      · exact KeyStore.hasActiveKeys_iff.2 ⟨_, hkey, rfl⟩
    | revokeKey keyId =>
      cases h
      rcases KeyStore.mem_revoke.1 hkey with ⟨hold, -⟩ | ⟨old, hold, -, -⟩
      · exact absurd ⟨key, hold⟩ hrows
      · exact absurd ⟨old, hold⟩ hrows
    | deleteKey keyId =>
      cases h
      exact absurd ⟨key, (KeyStore.mem_delete.1 hkey).1⟩ hrows
    | wait seconds =>
      cases h
      exact absurd ⟨key, hkey⟩ hrows

/-- Along a run that spares the last key some key stays active from the first registration on. -/
theorem SparesTheLastKey.hasActiveKeys {ops : List KeyOperation}
    (hspares : SparesTheLastKey py digest ops) {pre : List KeyOperation} (hpre : pre <+: ops) :
    (keysAfter py digest pre).Settled ∧
      (Registered py digest pre → (keysAfter py digest pre).hasActiveKeys = true) := by
  induction pre using List.reverseRecOn with
  | nil =>
    have hnone : ¬ ∃ key, key ∈ (keysAfter py digest []).rows := by
      rintro ⟨key, hkey⟩
      exact Table.not_mem_empty hkey
    refine ⟨fun hsome => absurd hsome hnone, ?_⟩
    rintro ⟨earlier, hearlier, hsome⟩
    rw [List.prefix_nil.1 hearlier] at hsome
    exact absurd hsome hnone
  | append_singleton pre op ih =>
    obtain ⟨hsettled, hactive⟩ := ih ((List.prefix_append _ _).trans hpre)
    have hop := hspares pre op hpre
    have hsettled' : (keysAfter py digest (pre ++ [op])).Settled := by
      rw [keysAfter_append]
      cases happly : (keysAfter py digest pre).apply py digest op with
      | error e => rwa [attempt_error happly]
      | ok store' =>
        rw [attempt_ok happly]
        exact hsettled.apply happly hop
    refine ⟨hsettled', ?_⟩
    rintro ⟨earlier, hearlier, hsome⟩
    rcases List.prefix_concat_iff.1 hearlier with rfl | hearlier
    · exact hsettled' hsome
    · have hkeys := hactive ⟨earlier, hearlier, hsome⟩
      rw [keysAfter_append]
      cases happly : (keysAfter py digest pre).apply py digest op with
      | error e => rwa [attempt_error happly]
      | ok store' =>
        rw [attempt_ok happly]
        exact (hasActiveKeys_apply_iff happly hkeys).2 hop

/-- Nobody comes to carry a valid key by an operation that adds none. -/
theorem Carries.of_apply {store store' : KeyStore} {op : KeyOperation} (hop : op.Closes)
    (h : store.apply py digest op = .ok store') {scope : String} {request : Request}
    (hcarries : Carries py digest store' scope request) :
    Carries py digest store scope request := by
  obtain ⟨key, hkey, hpresents, ⟨hactive, hexpiry⟩, hgranted⟩ := hcarries
  have hdrawn : op.drawn digest = none := by cases op <;> first | exact hop.elim | rfl
  rcases KeyStore.row_before h hkey with ⟨old, hold, -, hsame⟩ | hnew
  · rw [hsame hactive] at hold
    exact ⟨key, hold, hpresents,
      ⟨hactive, fun e he => (KeyStore.now_le h).trans (hexpiry e he)⟩, hgranted⟩
  · rw [hdrawn] at hnew
    cases hnew

/-- Every row has a digest that the run has drawn. -/
theorem mem_drawn_of_mem_rows {ops : List KeyOperation} {key : ApiKeyRow}
    (hkey : key ∈ (keysAfter py digest ops).rows) :
    key.keyHash ∈ ops.filterMap (·.drawn digest) := by
  induction ops using List.reverseRecOn generalizing key with
  | nil => exact absurd hkey Table.not_mem_empty
  | append_singleton ops op ih =>
    rw [List.filterMap_append, List.mem_append]
    rw [keysAfter_append] at hkey
    cases happly : (keysAfter py digest ops).apply py digest op with
    | error e =>
      rw [attempt_error happly] at hkey
      exact .inl (ih hkey)
    | ok store' =>
      rw [attempt_ok happly] at hkey
      rcases KeyStore.row_before happly hkey with ⟨old, hold, hhash, -⟩ | hnew
      · exact .inl (hhash ▸ ih hold)
      · exact .inr (List.mem_filterMap.2 ⟨op, List.mem_singleton_self op, hnew⟩)

/-- No row with the digest is active. -/
def KeyStore.Retired (store : KeyStore) (keyHash : String) : Prop :=
  ∀ key ∈ store.rows, key.keyHash = keyHash → key.isActive = false

theorem KeyStore.Retired.revoke {store : KeyStore} {key : ApiKeyRow} (hkey : key ∈ store.rows) :
    (store.revoke key.id).Retired key.keyHash := by
  intro key' hkey' hhash
  rcases KeyStore.mem_revoke.1 hkey' with ⟨hold, hid⟩ | ⟨old, -, -, rfl⟩
  · exact absurd (congrArg ApiKeyRow.id (List.inj_on_of_nodup_map store.unique hold hkey hhash)) hid
  · rfl

theorem KeyStore.Retired.apply {store store' : KeyStore} {op : KeyOperation} {keyHash : String}
    (hretired : store.Retired keyHash) (hdrawn : op.drawn digest ≠ some keyHash)
    (h : store.apply py digest op = .ok store') : store'.Retired keyHash := by
  intro key hkey hhash
  rcases KeyStore.row_before h hkey with ⟨old, hold, hsame, hactive⟩ | hnew
  · by_contra hne
    rw [Bool.not_eq_false] at hne
    rw [hactive hne] at hold
    exact absurd (hretired key hold hhash) (by rw [hne]; decide)
  · exact absurd (hhash ▸ hnew) hdrawn

/-- A digest whose key is revoked stays retired if no digest is drawn twice. -/
theorem retired_of_revoked {pre later : List KeyOperation} {key : ApiKeyRow}
    (hkey : key ∈ (keysAfter py digest pre).rows)
    (hdrawn : ((pre ++ .revokeKey key.id :: later).filterMap (·.drawn digest)).Nodup) :
    (keysAfter py digest (pre ++ .revokeKey key.id :: later)).Retired key.keyHash := by
  induction later using List.reverseRecOn with
  | nil =>
    rw [keysAfter_append]
    exact KeyStore.Retired.revoke hkey
  | append_singleton later op ih =>
    rw [← List.cons_append, ← List.append_assoc] at hdrawn ⊢
    rw [List.filterMap_append, List.nodup_append] at hdrawn
    obtain ⟨hbefore, -, hnew⟩ := hdrawn
    rw [keysAfter_append]
    cases happly : (keysAfter py digest (pre ++ .revokeKey key.id :: later)).apply py digest op with
    | error e =>
      rw [attempt_error happly]
      exact ih hbefore
    | ok store' =>
      rw [attempt_ok happly]
      refine (ih hbefore).apply (fun hop => ?_) happly
      have hold : key.keyHash ∈
          (pre ++ .revokeKey key.id :: later).filterMap (·.drawn digest) := by
        rw [List.filterMap_append]
        exact List.mem_append_left _ (mem_drawn_of_mem_rows hkey)
      exact hnew _ hold _ (List.mem_filterMap.2 ⟨op, List.mem_singleton_self op, hop⟩) rfl

end AltrStream.Security
