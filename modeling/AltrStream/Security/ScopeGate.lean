import AltrStream.QueryEngine.Ast
import AltrStream.Security.KeyStore

/-! # The scope gate of AltrQL mutations

The route looks for `write` and `admin` anywhere in the stored scopes, the key
service among the scopes themselves. The two agree unless a longer scope name
contains one of the words.
-/
namespace AltrStream.Security
open Python QueryEngine

/-- `any(s in auth_key.scopes for s in ("write", "admin"))`, on the stored text. -/
def holdsWriteScope (authKey : ApiKeyModel) : Bool :=
  isIn "write" authKey.scopes || isIn "admin" authKey.scopes

/-- The statement gets past the scope check of `execute_altrql_query`. -/
def scopeGate (operation : QueryOperation) (authKey : Option ApiKeyModel) : Bool :=
  match operation with
  | .read => true
  | .create | .update | .delete => authKey.all holdsWriteScope

section
variable {py : Casing}

/-- The stored scopes are in lower case. -/
theorem kept_storedScopes (scopes : List String) : py.Kept (storedScopes py scopes) := by
  unfold storedScopes
  dsimp only
  split_ifs with hempty
  · exact py.kept_of_forall (by decide)
  · intro c hc
    rcases mem_join hc with rfl | ⟨p, hp, hc⟩
    · exact py.kept_of_ascii (by decide) (by decide)
    · rw [List.mem_mergeSort, List.mem_dedup] at hp
      obtain ⟨s, -, rfl⟩ := List.mem_map.1 hp
      exact py.kept_of_lower _ c hc

/-- Parsing scopes that are in lower case only trims them. -/
theorem mem_activeScopes {stored a : String} (hkept : py.Kept stored) :
    a ∈ activeScopes py stored ↔ ∃ p ∈ split ',' stored, strip p ≠ "" ∧ strip p = a := by
  have hlower : ∀ p ∈ split ',' stored, py.lower (strip p) = strip p := fun p hp =>
    py.lower_of_kept _ fun c hc => hkept c (mem_split hp (mem_strip hc))
  simp only [activeScopes, List.mem_map, List.mem_filter, decide_eq_true_eq, and_assoc]
  exact exists_congr fun p => and_congr_right fun hp => by rw [hlower p hp]

/-- A word of lower-case letters occurs in stored scopes exactly if it occurs in one of them. -/
theorem isIn_stored {word : String} (hne : word ≠ "") (hspace : ∀ c ∈ word.toList, isspace c = false)
    (hcomma : ',' ∉ word.toList) {stored : String} (hkept : py.Kept stored) :
    isIn word stored = true ↔ ∃ a ∈ activeScopes py stored, isIn word a = true := by
  have hpieces : isIn word stored = true ↔ ∃ p ∈ split ',' stored, isIn word p = true := by
    simp only [isIn, split, decide_eq_true_eq, infix_iff_splitOn hcomma stored.toList,
      List.mem_map, exists_exists_and_eq_and, String.toList_ofList]
  rw [hpieces]
  simp only [mem_activeScopes hkept]
  constructor
  · rintro ⟨p, hp, hword⟩
    rw [← isIn_strip hne hspace] at hword
    refine ⟨strip p, ⟨p, hp, fun hempty => ?_, rfl⟩, hword⟩
    rw [hempty, isIn, decide_eq_true_eq] at hword
    exact hne (String.toList_eq_nil_iff.1 (List.infix_nil.1 hword))
  · rintro ⟨a, ⟨p, hp, -, rfl⟩, hword⟩
    exact ⟨p, hp, (isIn_strip hne hspace p).symm.trans hword⟩

theorem scopeGranted_write (stored : String) :
    scopeGranted py stored "write" = true ↔
      ∃ a ∈ activeScopes py stored, a = "write" ∨ a = "admin" := by
  have hreq : py.lower (strip "write") = "write" := by
    have hstrip : strip "write" = "write" := by decide
    rw [hstrip]
    exact py.lower_of_kept _ (py.kept_of_forall (by decide))
  simp only [scopeGranted, hreq]
  by_cases hadmin : "admin" ∈ activeScopes py stored <;> simp [hadmin, and_or_left, exists_or]

theorem holdsWriteScope_iff {key : ApiKeyModel} (hkept : py.Kept key.scopes) :
    holdsWriteScope key = true ↔
      ∃ a ∈ activeScopes py key.scopes, isIn "write" a = true ∨ isIn "admin" a = true := by
  rw [holdsWriteScope, Bool.or_eq_true,
    isIn_stored (by decide) (by decide) (by decide) hkept,
    isIn_stored (by decide) (by decide) (by decide) hkept]
  simp only [and_or_left, exists_or]

/-- A key that is valid for no particular scope is valid for one that it grants. -/
theorem verifyKey_isSome {digest : String → String} {now : ℕ} {keys : List ApiKeyModel}
    {rawKey : String} {key : ApiKeyModel} (h : verifyKey py digest now keys rawKey none = some key)
    {scope : String} (hscope : scope ≠ "") :
    (verifyKey py digest now keys rawKey (some scope)).isSome = scopeGranted py key.scopes scope := by
  unfold verifyKey at h ⊢
  split_ifs at h ⊢ with hempty
  obtain ⟨hkey, -⟩ := Option.filter_eq_some_iff.1 h
  rw [hkey]
  cases hgranted : scopeGranted py key.scopes scope <;> simp [Option.filter, hscope, hgranted]

end

/-- The gate and the key service agree on a mutation exactly if one of the key's scopes is `write`
or `admin`, or none contains either word. -/
theorem scopeGate_agrees_iff (py : Casing) (digest : String → String) (now : ℕ)
    (keys : List ApiKeyModel) (rawKey : String) (scopes : List String) (expiresAt : Option ℕ)
    (operation : QueryOperation) (hop : operation ≠ .read)
    (hfound : verifyKey py digest now keys rawKey none =
      some (generateKey py digest rawKey scopes expiresAt)) :
    let key := generateKey py digest rawKey scopes expiresAt
    (scopeGate operation (some key) = true ↔
        (verifyKey py digest now keys rawKey (some "write")).isSome = true) ↔
      (∃ a ∈ activeScopes py key.scopes, a = "write" ∨ a = "admin") ∨
        ∀ a ∈ activeScopes py key.scopes, isIn "write" a = false ∧ isIn "admin" a = false := by
  intro key
  have hkept : py.Kept key.scopes := kept_storedScopes _
  change verifyKey py digest now keys rawKey none = some key at hfound
  clear_value key
  have hgate : scopeGate operation (some key) = holdsWriteScope key := by
    cases operation <;> first | exact absurd rfl hop | rfl
  have hcontains : ∀ a, a = "write" ∨ a = "admin" → isIn "write" a = true ∨ isIn "admin" a = true := by
    rintro a (rfl | rfl)
    · exact .inl (by decide)
    · exact .inr (by decide)
  rw [hgate, holdsWriteScope_iff hkept, verifyKey_isSome hfound (by decide),
    scopeGranted_write]
  constructor
  · intro h
    by_cases hany : ∃ a ∈ activeScopes py key.scopes, isIn "write" a = true ∨ isIn "admin" a = true
    · exact .inl (h.1 hany)
    · refine .inr fun a ha => ?_
      have hnone : ¬ (isIn "write" a = true ∨ isIn "admin" a = true) := fun hword =>
        hany ⟨a, ha, hword⟩
      rw [not_or, Bool.not_eq_true, Bool.not_eq_true] at hnone
      exact hnone
  · rintro (⟨a, ha, hword⟩ | hnone)
    · exact ⟨fun _ => ⟨a, ha, hword⟩, fun _ => ⟨a, ha, hcontains a hword⟩⟩
    · have hno : ∀ a ∈ activeScopes py key.scopes, ¬ (isIn "write" a = true ∨ isIn "admin" a = true) :=
        fun a ha => by simp [hnone a ha]
      exact ⟨fun ⟨a, ha, hword⟩ => absurd hword (hno a ha),
        fun ⟨a, ha, hword⟩ => absurd (hcontains a hword) (hno a ha)⟩

/-- A key for reading is refused by both. -/
theorem scopeGate_agrees_read :
    let key := generateKey .ascii id "altr_live_x" ["read"] none
    scopeGate .delete (some key) = true ↔
      (verifyKey .ascii id 0 [key] "altr_live_x" (some "write")).isSome = true :=
  (scopeGate_agrees_iff .ascii id 0 [generateKey .ascii id "altr_live_x" ["read"] none] "altr_live_x"
    ["read"] none .delete (by decide) (by decide +kernel)).2 (.inr (by decide +kernel))

/-- A key with the scope `overwrite` gets past the gate and is refused by the key service. -/
theorem scopeGate_overwrite :
    let key := generateKey .ascii id "altr_live_x" ["overwrite"] none
    verifyKey .ascii id 0 [key] "altr_live_x" none = some key ∧
      scopeGate .delete (some key) = true ∧
      verifyKey .ascii id 0 [key] "altr_live_x" (some "write") = none := by
  decide +kernel

end AltrStream.Security
