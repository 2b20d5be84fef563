import AltrStream.Domain.Models
import AltrStream.Foundations.Checks
import AltrStream.Foundations.Lines
import AltrStream.Foundations.Table
import AltrStream.Python.Str

/-! # Credentials at rest

The passwords of the sources are encrypted before they are stored. Whether a text is encrypted
already is read off its beginning.
-/
namespace AltrStream.Security
open Foundations Python Domain

/-- `cryptography.fernet.Fernet` with its key; a token depends on the time and on random bits. -/
structure Fernet where
  encrypt : ℕ → String → String
  /-- `none` is `InvalidToken`. -/
  decrypt : String → Option String

/-- Decryption inverts encryption and knows no other tokens. -/
structure Fernet.Lawful (f : Fernet) : Prop where
  decrypt_encrypt : ∀ random plaintext, f.decrypt (f.encrypt random plaintext) = some plaintext
  encrypted : ∀ token plaintext, f.decrypt token = some plaintext →
    ∃ random, f.encrypt random plaintext = token

inductive SourceError where
  | sourceAlreadyExists (name : String)
  | sourceNotFound (id : String)
  | integrityError
  | credentialDecryption (message : String)
  deriving DecidableEq, Repr

def encryptionPrefix : String := "enc:v1:"

def isEncrypted (value : String) : Bool :=
  value ≠ "" && (encryptionPrefix.toList.isPrefixOf value.toList ||
    "gAAAAA".toList.isPrefixOf value.toList && 100 ≤ value.toList.length)

/-- `encrypt` -/
def encrypt (f : Fernet) (random : ℕ) : Option String → Option String
  | none => none
  | some plaintext =>
    if plaintext = "" then some ""
    else if isEncrypted plaintext then some plaintext
    else some (encryptionPrefix ++ f.encrypt random plaintext)

/-- `decrypt`; what is not encrypted is returned as it is. -/
def decrypt (f : Fernet) : Option String → Except SourceError (Option String)
  | none => .ok none
  | some ciphertext =>
    if ciphertext = "" then .ok (some "")
    else if !isEncrypted ciphertext then .ok (some ciphertext)
    else
      let token := String.ofList
        ((ciphertext.toList.dropPrefix? encryptionPrefix.toList).getD ciphertext.toList)
      match f.decrypt token with
      | some plaintext => .ok (some plaintext)
      | none => .error (.credentialDecryption
          "Failed to decrypt credential: wrong encryption key or corrupted ciphertext.")

/-! ### Sources -/

/-- A row of the table `sources`; the entity read from it has the same fields, with the password
decrypted. -/
structure SourceModel where
  id : String
  name : String
  type : SourceType
  host : Option String
  port : Option ℤ
  databaseName : Option String
  username : Option String
  password : Option String
  filePath : Option String
  status : SourceStatus
  deriving DecidableEq, Repr

instance : Keyed SourceModel String := ⟨SourceModel.id⟩

abbrev SourceTable := Table SourceModel

/-- The arguments of `update_source`. -/
structure SourceUpdate where
  name : Option String := none
  host : Option String := none
  port : Option ℤ := none
  databaseName : Option String := none
  username : Option String := none
  password : Option String := none
  filePath : Option String := none
  deriving DecidableEq, Repr

section
variable (f : Fernet)

/-- `_to_domain` -/
def toDomain (model : SourceModel) : Except SourceError SourceModel := do
  return { model with password := ← decrypt f model.password }

def getById (t : SourceTable) (id : String) : Except SourceError (Option SourceModel) :=
  match t.find? id with
  | some model => some <$> toDomain f model
  | none => .ok none

def getByName (t : SourceTable) (name : String) : Except SourceError (Option SourceModel) :=
  match t.rows.find? (·.name = name) with
  | some model => some <$> toDomain f model
  | none => .ok none

/-- `list_all`, the newest first. -/
def listAll (t : SourceTable) : Except SourceError (List SourceModel) :=
  t.rows.reverse.mapM (toDomain f)

/-- `create_source`, for a source with a new id and the status of the connection test. -/
def createSource (random : ℕ) (source : SourceModel) (t : SourceTable) :
    Except SourceError SourceTable := do
  if (← getByName f t source.name).isSome then .error (.sourceAlreadyExists source.name)
  else
    let model := { source with password := encrypt f random source.password }
    match t.insert? model with
    | none => .error .integrityError
    | some t' => do
      let _ ← toDomain f model
      return t'

def getSource (t : SourceTable) (id : String) : Except SourceError SourceModel := do
  match ← getById f t id with
  | some source => return source
  | none => .error (.sourceNotFound id)

/-- The name of the update, if it is free. -/
def renamed (t : SourceTable) (source : SourceModel) : Option String → Except SourceError String
  | none => .ok source.name
  | some name =>
    if name ≠ "" ∧ name ≠ source.name then do
      match ← getByName f t name with
      | some existing =>
        if existing.id ≠ source.id then .error (.sourceAlreadyExists name) else return name
      | none => return name
    else .ok source.name

/-- A password of `update_source` counts if it is not blank. -/
def newPassword (password : Option String) : Option String := password.filter (strip · ≠ "")

/-- `SqliteSourceRepository.update`: the row of the source is written, its password if there is
one. -/
def storeUpdate (random : ℕ) (source model : SourceModel) : SourceModel :=
  { source with
    id := model.id
    password :=
      if source.password.getD "" ≠ "" then encrypt f random source.password else model.password }

def updateSource (random : ℕ) (id : String) (changes : SourceUpdate) (t : SourceTable) :
    Except SourceError SourceTable := do
  let source ← getSource f t id
  let name ← renamed f t source changes.name
  let source := { source with
    name
    host := changes.host.or source.host
    port := changes.port.or source.port
    databaseName := changes.databaseName.or source.databaseName
    username := changes.username.or source.username
    password := (newPassword changes.password).or source.password
    filePath := changes.filePath.or source.filePath }
  match t.find? id with
  | none => .error (.sourceNotFound id)
  | some model =>
    let _ ← toDomain f (storeUpdate f random source model)
    return t.modify id (storeUpdate f random source) fun _ => rfl

/-- `test_source_connection`: the source is read, and the status of the test is written. -/
def updateStatus (id : String) (status : SourceStatus) (t : SourceTable) :
    Except SourceError SourceTable := do
  let _ ← getSource f t id
  return t.modify id (fun model => { model with status }) fun _ => rfl

/-- The encryption of plaintext passwords in `run_migrations`. -/
def runMigrations (randoms : String → ℕ) (t : SourceTable) : SourceTable :=
  t.map (fun model =>
    if model.password.getD "" ≠ "" ∧ ¬ isEncrypted (model.password.getD "") then
      { model with password := encrypt f (randoms model.id) model.password }
    else model) fun model => by
      change (if _ then _ else _ : SourceModel).id = model.id
      split_ifs <;> rfl

end

/-! ### Runs -/

inductive SourceAction where
  | createSource (random : ℕ) (source : SourceModel)
  | updateSource (random : ℕ) (id : String) (changes : SourceUpdate)
  | updateStatus (id : String) (status : SourceStatus)
  | runMigrations (randoms : String → ℕ)

/-- The password that the action gives to a source. -/
def SourceAction.password : SourceAction → Option String
  | .createSource _ source => source.password
  | .updateSource _ _ changes => newPassword changes.password
  | .updateStatus .. | .runMigrations _ => none

/-- The passwords last given to the sources. -/
abbrev Given := String → Option String

def SourceAction.given (g : Given) : SourceAction → Given
  | .createSource _ source => Function.update g source.id source.password
  | .updateSource _ id changes =>
    (newPassword changes.password).elim g fun p => Function.update g id (some p)
  | .updateStatus .. | .runMigrations _ => g

section
variable (f : Fernet)

def applySource (t : SourceTable) : SourceAction → Except SourceError SourceTable
  | .createSource random source => createSource f random source t
  | .updateSource random id changes => updateSource f random id changes t
  | .updateStatus id status => updateStatus f id status t
  | .runMigrations randoms => .ok (runMigrations f randoms t)

/-- A request whose action raises is rolled back. -/
def stepSource (s : SourceTable × Given) (a : SourceAction) : SourceTable × Given :=
  match applySource f s.1 a with
  | .ok t => (t, a.given s.2)
  | .error _ => s

/-- The table after some actions, and the passwords last given. -/
def runSources (actions : List SourceAction) : SourceTable × Given :=
  actions.foldl (stepSource f) (.empty, fun _ => none)

/-- Credentials survive: each source has the password last given, all sources can be listed, no
password is stored as it is, and the migrations change nothing when they are run again. -/
structure Survives (t : SourceTable) (g : Given) : Prop where
  get : ∀ row ∈ t, ∃ source, getById f t row.id = .ok (some source) ∧ source.password = g row.id
  list : ∃ sources, listAll f t = .ok sources
  atRest : ∀ row ∈ t, ∀ password, g row.id = some password → password ≠ "" →
    row.password ≠ some password
  migrations : ∀ randoms randoms', runMigrations f randoms' (runMigrations f randoms t) =
    runMigrations f randoms t

end

/-! ### What is stored -/

section
variable {f : Fernet}

/-- The stored text holds the password, encrypted unless it is empty. -/
def Sealed (f : Fernet) (stored : Option String) : Option String → Prop
  | none => stored = none
  | some password =>
    if password = "" then stored = some ""
    else isEncrypted password = false ∧
      ∃ random, stored = some (encryptionPrefix ++ f.encrypt random password)

theorem isEncrypted_prefixed (token : String) : isEncrypted (encryptionPrefix ++ token) = true := by
  have hchars : (encryptionPrefix ++ token).toList = encryptionPrefix.toList ++ token.toList :=
    String.toList_append
  have hne : encryptionPrefix ++ token ≠ "" := by
    intro h
    have hlength := congrArg (fun s => s.toList.length) h
    rw [hchars] at hlength
    simp [encryptionPrefix] at hlength
  have hbegins : encryptionPrefix.toList.isPrefixOf (encryptionPrefix ++ token).toList = true := by
    rw [hchars, List.isPrefixOf_iff_prefix]
    exact List.prefix_append _ _
  rw [isEncrypted, decide_eq_true hne, hbegins]
  rfl

theorem isEncrypted_empty : isEncrypted "" = false := by decide

theorem sealed_encrypt {given : Option String} (h : ∀ p, given = some p → isEncrypted p = false)
    (random : ℕ) : Sealed f (encrypt f random given) given := by
  cases given with
  | none => rfl
  | some p =>
    unfold Sealed encrypt
    dsimp only
    split_ifs with hempty hencrypted
    · rfl
    · rw [h p rfl] at hencrypted
      cases hencrypted
    · exact ⟨h p rfl, random, rfl⟩

theorem decrypt_sealed (hf : f.Lawful) {stored given : Option String} (h : Sealed f stored given) :
    decrypt f stored = .ok given := by
  cases given with
  | none =>
    rw [show stored = none from h]
    rfl
  | some p =>
    unfold Sealed at h
    dsimp only at h
    split_ifs at h with hempty
    · rw [h, hempty]
      rfl
    · obtain ⟨-, random, rfl⟩ := h
      have hencrypted := isEncrypted_prefixed (f.encrypt random p)
      have hne : encryptionPrefix ++ f.encrypt random p ≠ "" := by
        intro heq
        rw [heq, isEncrypted_empty] at hencrypted
        cases hencrypted
      have htoken : String.ofList (((encryptionPrefix ++ f.encrypt random p).toList.dropPrefix?
          encryptionPrefix.toList).getD (encryptionPrefix ++ f.encrypt random p).toList) =
          f.encrypt random p := by
        have hdrop : (encryptionPrefix ++ f.encrypt random p).toList.dropPrefix?
            encryptionPrefix.toList = some (f.encrypt random p).toList := by
          rw [String.toList_append, dropPrefix?_append]
        rw [hdrop, Option.getD_some, String.ofList_toList]
      unfold decrypt
      simp only [if_neg hne, hencrypted, Bool.not_true, Bool.false_eq_true, if_false, htoken,
        hf.decrypt_encrypt]

theorem sealed_ne {stored : Option String} {password : String} (h : Sealed f stored (some password))
    (hne : password ≠ "") : stored ≠ some password := by
  rintro rfl
  unfold Sealed at h
  dsimp only at h
  rw [if_neg hne] at h
  obtain ⟨hplain, random, heq⟩ := h
  rw [Option.some.inj heq, isEncrypted_prefixed] at hplain
  cases hplain

/-- A sealed password is empty or looks encrypted. -/
theorem sealed_stored {stored given : Option String} (h : Sealed f stored given) :
    stored.getD "" = "" ∨ isEncrypted (stored.getD "") = true := by
  cases given with
  | none =>
    rw [show stored = none from h]
    exact .inl rfl
  | some p =>
    unfold Sealed at h
    dsimp only at h
    split_ifs at h
    · rw [h]
      exact .inl rfl
    · obtain ⟨-, random, rfl⟩ := h
      exact .inr (isEncrypted_prefixed _)

/-- Every stored password is sealed. -/
def AllSealed (f : Fernet) (t : SourceTable) (g : Given) : Prop :=
  ∀ row ∈ t, Sealed f row.password (g row.id)

variable {t t' : SourceTable} {g : Given}

theorem toDomain_sealed (hf : f.Lawful) {row : SourceModel} (h : Sealed f row.password (g row.id)) :
    toDomain f row = .ok { row with password := g row.id } :=
  bind_eq_ok.2 ⟨_, decrypt_sealed hf h, rfl⟩

theorem getById_sealed (hf : f.Lawful) (h : AllSealed f t g) {row : SourceModel} (hrow : row ∈ t) :
    getById f t row.id = .ok (some { row with password := g row.id }) := by
  have hfind : t.find? row.id = some row := Table.find?_eq_some.2 ⟨hrow, rfl⟩
  rw [getById, hfind]
  exact map_eq_ok.2 ⟨_, toDomain_sealed hf (h row hrow), rfl⟩

theorem getSource_sealed (hf : f.Lawful) (h : AllSealed f t g) {id : String} {source : SourceModel}
    (hsource : getSource f t id = .ok source) :
    ∃ row ∈ t, row.id = id ∧ t.find? id = some row ∧ source = { row with password := g id } := by
  obtain ⟨found, hfound, hsource⟩ := bind_eq_ok.1 hsource
  cases found with
  | none => cases hsource
  | some found =>
    cases hsource
    unfold getById at hfound
    cases hfind : t.find? id with
    | none =>
      rw [hfind] at hfound
      cases hfound
    | some row =>
      obtain ⟨hrow, hid⟩ := Table.find?_eq_some.1 hfind
      have hid : row.id = id := hid
      subst hid
      have hsealed := getById_sealed hf h hrow
      rw [getById, hfind] at hsealed
      rw [hfind, hsealed] at hfound
      exact ⟨row, hrow, rfl, rfl, (Option.some.inj (Except.ok.inj hfound)).symm⟩

/-- Nothing is left to encrypt. -/
theorem runMigrations_eq (randoms : String → ℕ)
    (h : ∀ row ∈ t, row.password.getD "" = "" ∨ isEncrypted (row.password.getD "") = true) :
    runMigrations f randoms t = t := by
  obtain ⟨rows, hnodup⟩ := t
  refine (Table.mk.injEq ..).mpr ((List.map_congr_left fun row hrow => ?_).trans (List.map_id _))
  refine if_neg ?_
  rintro ⟨hne, hplain⟩
  rcases h row hrow with hempty | hencrypted
  · exact hne hempty
  · exact hplain hencrypted

/-- Whatever the migrations find, there is nothing left to encrypt afterwards. -/
theorem encrypted_runMigrations (randoms : String → ℕ) (t : SourceTable) :
    ∀ row ∈ runMigrations f randoms t,
      row.password.getD "" = "" ∨ isEncrypted (row.password.getD "") = true := by
  intro row hrow
  obtain ⟨model, -, rfl⟩ := Table.mem_map.1 hrow
  split_ifs with h
  · obtain ⟨hne, hplain⟩ := h
    cases hpassword : model.password with
    | none =>
      rw [hpassword] at hne
      exact absurd rfl hne
    | some p =>
      rw [hpassword, Option.getD_some] at hne hplain
      dsimp only
      rw [encrypt, if_neg hne, if_neg hplain]
      exact .inr (isEncrypted_prefixed _)
  · by_contra hnot
    rw [not_or] at hnot
    exact h ⟨hnot.1, hnot.2⟩

theorem AllSealed.survives (hf : f.Lawful) (h : AllSealed f t g) : Survives f t g := by
  refine ⟨fun row hrow => ⟨_, getById_sealed hf h hrow, rfl⟩, ?_,
    fun row hrow password hgiven hne => ?_,
    fun randoms randoms' => runMigrations_eq randoms' (encrypted_runMigrations randoms t)⟩
  · refine mapM_succeeds fun row hrow => ?_
    exact ⟨_, toDomain_sealed hf (h row (List.mem_reverse.1 hrow))⟩
  · have hsealed := h row hrow
    rw [hgiven] at hsealed
    exact sealed_ne hsealed hne

/-! ### Steps -/

/-- The action gives no password that looks encrypted. -/
def SourceAction.Plain (a : SourceAction) : Prop := ∀ p, a.password = some p → isEncrypted p = false

theorem createSource_eq_ok {random : ℕ} {source : SourceModel}
    (h : createSource f random source t = .ok t') :
    t.insert? { source with password := encrypt f random source.password } = some t' := by
  obtain ⟨existing, -, h⟩ := bind_eq_ok.1 h
  split_ifs at h
  dsimp only at h
  split at h
  case h_1 => cases h
  case h_2 inserted hinsert =>
    obtain ⟨_, -, heq⟩ := bind_eq_ok.1 h
    rw [hinsert, pure_eq_ok.1 heq]

theorem AllSealed.createSource (hs : AllSealed f t g) {random : ℕ} {source : SourceModel}
    (hplain : (SourceAction.createSource random source).Plain)
    (h : createSource f random source t = .ok t') :
    AllSealed f t' ((SourceAction.createSource random source).given g) := by
  have hinsert := createSource_eq_ok h
  intro row hrow
  rcases (Table.mem_of_insert? hinsert).1 hrow with hrow | rfl
  · have hne : row.id ≠ source.id := Table.key_ne_of_insert? hinsert hrow
    rw [SourceAction.given, Function.update_of_ne hne]
    exact hs row hrow
  · rw [SourceAction.given, Function.update_self]
    exact sealed_encrypt hplain random

/-- The entity that `update_source` stores. -/
theorem updateSource_eq_ok {random : ℕ} {id : String} {changes : SourceUpdate}
    (h : updateSource f random id changes t = .ok t') : ∃ source updated : SourceModel,
      getSource f t id = .ok source ∧
      updated.password = (newPassword changes.password).or source.password ∧
      (∃ model, t.find? id = some model) ∧
      t' = t.modify id (storeUpdate f random updated) fun _ => rfl := by
  obtain ⟨source, hsource, h⟩ := bind_eq_ok.1 h
  obtain ⟨name, -, h⟩ := bind_eq_ok.1 h
  dsimp only at h
  split at h
  case h_1 => cases h
  case h_2 model hfind =>
    obtain ⟨_, -, heq⟩ := bind_eq_ok.1 h
    exact ⟨source, _, hsource, rfl, ⟨model, hfind⟩, (pure_eq_ok.1 heq).symm⟩

theorem newPassword_ne {password : Option String} {p : String} (h : newPassword password = some p) :
    p ≠ "" := by
  obtain ⟨-, hne⟩ := Option.filter_eq_some_iff.1 h
  rintro rfl
  exact absurd rfl (of_decide_eq_true hne)

theorem given_updateSource_self {random : ℕ} {id : String} {changes : SourceUpdate} :
    (SourceAction.updateSource random id changes).given g id =
      (newPassword changes.password).or (g id) := by
  change (newPassword changes.password).elim g (fun p => Function.update g id (some p)) id = _
  cases newPassword changes.password with
  | none => rfl
  | some p => exact Function.update_self _ _ _

theorem given_updateSource_of_ne {random : ℕ} {id other : String} {changes : SourceUpdate}
    (hne : other ≠ id) : (SourceAction.updateSource random id changes).given g other = g other := by
  change (newPassword changes.password).elim g (fun p => Function.update g id (some p)) other = _
  cases newPassword changes.password with
  | none => rfl
  | some p => exact Function.update_of_ne hne _ _

theorem AllSealed.updateSource (hf : f.Lawful) (hs : AllSealed f t g) {random : ℕ} {id : String}
    {changes : SourceUpdate} (hplain : (SourceAction.updateSource random id changes).Plain)
    (h : updateSource f random id changes t = .ok t') :
    AllSealed f t' ((SourceAction.updateSource random id changes).given g) := by
  obtain ⟨source, updated, hsource, hpassword, -, rfl⟩ := updateSource_eq_ok h
  obtain ⟨current, -, -, -, rfl⟩ := getSource_sealed hf hs hsource
  dsimp only at hpassword
  intro row hrow
  rcases (Table.mem_modify _).1 hrow with ⟨hrow, hne⟩ | ⟨model, hmodel, hmodelId, rfl⟩
  · have hne : row.id ≠ id := hne
    rw [given_updateSource_of_ne hne]
    exact hs row hrow
  · have hmodelId : model.id = id := hmodelId
    subst hmodelId
    have hold := hs model hmodel
    change Sealed f (storeUpdate f random updated model).password
      ((SourceAction.updateSource random model.id changes).given g model.id)
    rw [given_updateSource_self, ← hpassword]
    unfold storeUpdate
    dsimp only
    split_ifs with hne
    · refine sealed_encrypt (fun p hp => ?_) random
      rw [hpassword] at hp
      cases hnew : newPassword changes.password with
      | none =>
        rw [hnew, Option.none_or] at hp
        rw [hp] at hold
        unfold Sealed at hold
        dsimp only at hold
        split_ifs at hold with hempty
        · rw [hempty]
          exact isEncrypted_empty
        · exact hold.1
      | some q =>
        rw [hnew, Option.some_or] at hp
        exact hplain p (hnew.trans hp)
    · have hempty : updated.password.getD "" = "" := not_not.1 hne
      cases hnew : newPassword changes.password with
      | none =>
        rw [hpassword, hnew, Option.none_or]
        exact hold
      | some q =>
        rw [hpassword, hnew, Option.some_or, Option.getD_some] at hempty
        exact absurd hempty (newPassword_ne hnew)

/-- One action keeps the passwords sealed if it gives none that looks encrypted. -/
theorem AllSealed.apply (hf : f.Lawful) (hs : AllSealed f t g) {a : SourceAction} (hplain : a.Plain)
    (h : applySource f t a = .ok t') : AllSealed f t' (a.given g) := by
  cases a with
  | createSource random source => exact hs.createSource hplain h
  | updateSource random id changes => exact hs.updateSource hf hplain h
  | updateStatus id status =>
    obtain ⟨_, -, heq⟩ := bind_eq_ok.1 h
    obtain rfl := pure_eq_ok.1 heq
    intro row hrow
    rcases (Table.mem_modify _).1 hrow with ⟨hrow, -⟩ | ⟨model, hmodel, -, rfl⟩
    · exact hs row hrow
    · exact hs model hmodel
  | runMigrations randoms =>
    obtain rfl := Except.ok.inj h
    change AllSealed f (runMigrations f randoms t) g
    rw [runMigrations_eq randoms fun row hrow => sealed_stored (hs row hrow)]
    exact hs

/-- A password that looks encrypted is stored as it is. -/
theorem encrypt_of_isEncrypted {p : String} (h : isEncrypted p = true) (random : ℕ) :
    encrypt f random (some p) = some p := by
  have hne : p ≠ "" := by
    rintro rfl
    rw [isEncrypted_empty] at h
    cases h
  rw [encrypt, if_neg hne, if_pos h]

theorem not_survives_of_isEncrypted {a : SourceAction} (h : applySource f t a = .ok t') {p : String}
    (hp : a.password = some p) (hencrypted : isEncrypted p = true) :
    ¬ Survives f t' (a.given g) := by
  have hne : p ≠ "" := by
    rintro rfl
    rw [isEncrypted_empty] at hencrypted
    cases hencrypted
  intro hs
  cases a with
  | createSource random source =>
    have hinsert := createSource_eq_ok h
    have hp : source.password = some p := hp
    rw [hp, encrypt_of_isEncrypted hencrypted] at hinsert
    refine hs.atRest _ ((Table.mem_of_insert? hinsert).2 (.inr rfl)) p ?_ hne rfl
    rw [SourceAction.given, Function.update_self, hp]
  | updateSource random id changes =>
    obtain ⟨source, updated, -, hpassword, ⟨model, hmodel⟩, rfl⟩ := updateSource_eq_ok h
    have hnew : newPassword changes.password = some p := hp
    obtain ⟨hmem, hid⟩ := Table.find?_eq_some.1 hmodel
    have hid : model.id = id := hid
    subst hid
    rw [hnew, Option.some_or] at hpassword
    refine hs.atRest _ ((Table.mem_modify _).2 (.inr ⟨model, hmem, rfl, rfl⟩)) p ?_ hne ?_
    · change (SourceAction.updateSource random model.id changes).given g model.id = some p
      rw [given_updateSource_self, hnew, Option.some_or]
    · unfold storeUpdate
      dsimp only
      rw [hpassword, Option.getD_some, if_pos hne, encrypt_of_isEncrypted hencrypted]
  | updateStatus id status => cases hp
  | runMigrations randoms => cases hp

end

section
variable (f : Fernet)

theorem runSources_concat (actions : List SourceAction) (a : SourceAction) :
    runSources f (actions ++ [a]) = stepSource f (runSources f actions) a := List.foldl_concat ..

theorem allSealed_run (hf : f.Lawful) {actions : List SourceAction}
    (h : ∀ before a after, actions = before ++ a :: after →
      (∃ t, applySource f (runSources f before).1 a = .ok t) → a.Plain) :
    AllSealed f (runSources f actions).1 (runSources f actions).2 := by
  induction actions using List.reverseRecOn with
  | nil =>
    intro row hrow
    exact absurd hrow Table.not_mem_empty
  | append_singleton actions a ih =>
    have hs := ih fun before b after hactions => h before b (after ++ [a]) (by
      rw [hactions, List.append_assoc, List.cons_append])
    rw [runSources_concat, stepSource]
    split
    case h_1 t' happly => exact hs.apply hf (h actions a [] rfl ⟨t', happly⟩) happly
    case h_2 => exact hs

/-- Credentials survive every run, in every state of it, if no password that is accepted looks
encrypted. -/
theorem survives_iff (hf : f.Lawful) (actions : List SourceAction) :
    (∀ before, before <+: actions → Survives f (runSources f before).1 (runSources f before).2) ↔
      ∀ before a after, actions = before ++ a :: after →
        (∃ t, applySource f (runSources f before).1 a = .ok t) → a.Plain := by
  constructor
  · rintro h before a after rfl ⟨t', happly⟩ p hp
    rw [Bool.eq_false_iff]
    intro hencrypted
    have hs := h (before ++ [a]) ⟨after, by rw [List.append_assoc, List.singleton_append]⟩
    rw [runSources_concat, stepSource, happly] at hs
    exact not_survives_of_isEncrypted happly hp hencrypted hs
  · rintro h before ⟨after, rfl⟩
    refine (allSealed_run f hf fun first a rest hbefore => ?_).survives hf
    exact h first a (rest ++ after) (by rw [hbefore, List.append_assoc, List.cons_append])

end

/-! ### A token that says its plaintext -/

def plainFernet : Fernet where
  encrypt _ plaintext := "gAAAAA" ++ plaintext
  decrypt token := (token.toList.dropPrefix? "gAAAAA".toList).map String.ofList

theorem plainFernet_lawful : plainFernet.Lawful where
  decrypt_encrypt _ plaintext := by
    change (List.dropPrefix? ("gAAAAA" ++ plaintext).toList "gAAAAA".toList).map _ = _
    rw [String.toList_append, dropPrefix?_append, Option.map_some, String.ofList_toList]
  encrypted token plaintext h := by
    obtain ⟨rest, hrest, rfl⟩ := Option.map_eq_some_iff.1 h
    refine ⟨0, ?_⟩
    change "gAAAAA" ++ String.ofList rest = token
    apply String.toList_injective
    rw [String.toList_append, @String.toList_ofList rest]
    exact (dropPrefix?_eq_some.1 hrest).symm

/-- The source with the given password. -/
def sourceOf (password : String) : SourceModel where
  id := "a"
  name := "orders"
  type := .postgresql
  host := some "db"
  port := some 5432
  databaseName := some "shop"
  username := some "reader"
  password := some password
  filePath := none
  status := .active

/-- A source whose password is changed keeps its credentials. -/
theorem survives_iff_change :
    Survives plainFernet
      (runSources plainFernet [.createSource 0 (sourceOf "old"),
        .updateSource 1 "a" { password := some "new" }, .runMigrations fun _ => 2]).1
      (runSources plainFernet [.createSource 0 (sourceOf "old"),
        .updateSource 1 "a" { password := some "new" }, .runMigrations fun _ => 2]).2 := by
  refine (survives_iff plainFernet plainFernet_lawful _).2 ?_ _ List.prefix_rfl
  intro before a after hrun _
  have ha : a ∈ [SourceAction.createSource 0 (sourceOf "old"),
      .updateSource 1 "a" { password := some "new" }, .runMigrations fun _ => 2] := by
    rw [hrun]
    exact List.mem_append_right _ List.mem_cons_self
  intro p hp
  simp only [List.mem_cons, List.not_mem_nil, or_false] at ha
  rcases ha with rfl | rfl | rfl
  · obtain rfl := Option.some.inj hp
    decide
  · have hnew : newPassword (some "new") = some "new" := by decide
    obtain rfl := Option.some.inj (hnew.symm.trans hp)
    decide
  · cases hp

/-- A password that is a token of this key is stored as it is. -/
theorem not_survives_token : ¬ Survives plainFernet
    (runSources plainFernet [.createSource 0 (sourceOf "enc:v1:gAAAAAsecret")]).1
    (runSources plainFernet [.createSource 0 (sourceOf "enc:v1:gAAAAAsecret")]).2 := by
  intro h
  refine h.atRest (sourceOf "enc:v1:gAAAAAsecret") ?_ "enc:v1:gAAAAAsecret" ?_ ?_ rfl
  · change sourceOf "enc:v1:gAAAAAsecret" ∈
      (runSources plainFernet [.createSource 0 (sourceOf "enc:v1:gAAAAAsecret")]).1.rows
    decide
  · decide
  · decide

end AltrStream.Security
