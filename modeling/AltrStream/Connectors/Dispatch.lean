import AltrStream.Connectors.ShellParser
import AltrStream.Domain.Errors
import AltrStream.Foundations.Checks

/-! # Native commands of the MongoDB connector

`_dispatch_command` with the four operations behind it, up to the call of the driver on a
collection. A parameter that the command does not have gets its default there, the filter
of a mass write too.
-/
namespace AltrStream.Connectors.Native
open Foundations Python Domain
open Shell (Env Spec truthy)

/-- A call of the driver. -/
inductive CollectionCall (β : Type) where
  | find (collection : CodePoints) (filter : Spec β) (projection : Option (Spec β))
  | insertMany (collection : CodePoints) (documents : List (Spec β)) (ordered : Bool)
  | updateMany (collection : CodePoints) (filter update : Spec β) (upsert : Bool)
  | deleteMany (collection : CodePoints) (filter : Spec β)

/-- The filter of an update or a deletion. -/
def CollectionCall.massFilter? {β : Type} : CollectionCall β → Option (Spec β)
  | updateMany _ filter _ _ => some filter
  | deleteMany _ filter => some filter
  | _ => none

/-- `mongodb:` -/
def marker : List Char := ['m', 'o', 'n', 'g', 'o', 'd', 'b', ':']

/-- `text.replace("mongodb:", "")` -/
def removeMarker : List Char → List Char
  | 'm' :: 'o' :: 'n' :: 'g' :: 'o' :: 'd' :: 'b' :: ':' :: rest => removeMarker rest
  | c :: rest => c :: removeMarker rest
  | [] => []

/-- The name of the operation that a query asks for. -/
def operationText (u : Unicode) (query : List Char) : String :=
  u.lower (String.ofList (stripChars (removeMarker query)))

/-- `not text.strip()`; a lone surrogate is no space. -/
def isBlank (text : CodePoints) : Bool := text.all fun n => isspace (Char.ofNat n)

def failed (message : String) : QueryError := .queryExecution message none

section
variable {β : Type}

def documentOr (default : Spec β) (message : String) : Option (PyValue β) → Except QueryError (Spec β)
  | none => .ok default
  | some (.dict entries) => .ok entries
  | some _ => .error (failed message)

/-- `_execute_find` -/
def executeFind (collection : CodePoints) (spec : Spec β) : Except QueryError (CollectionCall β) := do
  let filter ← documentOr [] "MongoDB 'find' filter must be a dictionary."
    (Dict.get? spec (codePoints "filter"))
  match Dict.get? spec (codePoints "projection") with
  | none | some .none => return .find collection filter none
  | some (.dict projection) => return .find collection filter (some projection)
  | some _ => .error (failed "MongoDB 'find' projection must be a dictionary.")

/-- The items of a list that are documents, all of them. -/
def documents? : List (PyValue β) → Option (List (Spec β))
  | [] => some []
  | .dict doc :: items => (documents? items).map (doc :: ·)
  | _ => none

/-- `_execute_insert_many` -/
def executeInsertMany (collection : CodePoints) (spec : Spec β) :
    Except QueryError (CollectionCall β) :=
  match Dict.get? spec (codePoints "documents") with
  | some (.list (doc :: docs)) =>
    match documents? (doc :: docs) with
    | some documents =>
      let ordered := (Dict.get? spec (codePoints "ordered")).getD (.bool true)
      .ok (.insertMany collection documents (truthy ordered))
    | none => .error (failed "Each item in 'documents' must be a dictionary.")
  | _ => .error <| failed <| "MongoDB 'insert_many' requires a non-empty list of document " ++
      "dictionaries in 'documents'."

/-- `_execute_update_many` -/
def executeUpdateMany (collection : CodePoints) (spec : Spec β) :
    Except QueryError (CollectionCall β) := do
  let filter ← documentOr [] "MongoDB 'update_many' filter must be a dictionary."
    (Dict.get? spec (codePoints "filter"))
  match Dict.get? spec (codePoints "update") with
  | some (.dict (entry :: entries)) =>
    let upsert := (Dict.get? spec (codePoints "upsert")).getD (.bool false)
    return .updateMany collection filter (entry :: entries) (truthy upsert)
  | _ =>
    .error (failed "MongoDB 'update_many' requires a non-empty update dictionary in 'update'.")

/-- `_execute_delete_many` -/
def executeDeleteMany (collection : CodePoints) (spec : Spec β) :
    Except QueryError (CollectionCall β) := do
  let filter ← documentOr [] "MongoDB 'delete_many' filter must be a dictionary."
    (Dict.get? spec (codePoints "filter"))
  return .deleteMany collection filter

/-- The specification is the first parameter, if that is a dictionary. -/
def specification : List (PyValue β) → Spec β
  | .dict spec :: _ => spec
  | _ => []

/-- The operation of that name. -/
def executeOperation (op : String) (collection : CodePoints) (spec : Spec β) :
    Except QueryError (CollectionCall β) :=
  if op = "find" then executeFind collection spec
  else if op = "insert_many" then executeInsertMany collection spec
  else if op = "update_many" then executeUpdateMany collection spec
  else if op = "delete_many" then executeDeleteMany collection spec
  else
    .error <| failed <| s!"Unsupported MongoDB operation: '{op}'. Supported operations are: " ++
      "'find', 'insert_many', 'update_many', 'delete_many'."

/-- `_dispatch_command` -/
def dispatchCommand (u : Unicode) (query : List Char) (parameters : List (PyValue β)) :
    Except QueryError (CollectionCall β) :=
  if query = [] then
    .error (failed "MongoDB query must be a non-empty operation string (e.g. 'mongodb:find').")
  else
    let spec := specification parameters
    if spec.isEmpty then
      .error (failed "MongoDB command requires a dictionary specification in parameters.")
    else
      match Dict.get? spec (codePoints "collection") with
      | some (.str collection) =>
        if isBlank collection then
          .error (failed "MongoDB command specification missing required string field 'collection'.")
        else executeOperation (operationText u query) collection spec
      | _ =>
        .error (failed "MongoDB command specification missing required string field 'collection'.")

/-! ### Mass writes -/

/-- The specification is one that an operation of that name writes to a collection with. -/
def MassWrite (op : String) (spec : Spec β) : Prop :=
  (∃ collection, Dict.get? spec (codePoints "collection") = some (.str collection) ∧
      isBlank collection = false) ∧
    (op = "delete_many" ∨ op = "update_many" ∧
      ∃ entry entries, Dict.get? spec (codePoints "update") = some (.dict (entry :: entries)))

/-- What a mass write does for a filter that is not in the specification. -/
def FilterOf (spec filter : Spec β) : Prop :=
  Dict.get? spec (codePoints "filter") = some (.dict filter) ∨
    Dict.get? spec (codePoints "filter") = none ∧ filter = []

theorem documentOr_eq_ok {default entries : Spec β} {message : String} {value : Option (PyValue β)} :
    documentOr default message value = .ok entries ↔
      value = some (.dict entries) ∨ value = none ∧ entries = default := by
  unfold documentOr
  split
  · simp [eq_comm]
  · simp
  · next hnot =>
    simp only [reduceCtorEq, Option.some.injEq, false_iff, not_or, not_and]
    exact ⟨fun h => hnot entries h, fun h => absurd h (by simp)⟩

theorem executeFind_massFilter {collection : CodePoints} {spec : Spec β} {call : CollectionCall β}
    (h : executeFind collection spec = .ok call) : call.massFilter? = none := by
  obtain ⟨filter, -, hprojection⟩ := bind_eq_ok.1 h
  split at hprojection <;> cases hprojection <;> rfl

theorem executeInsertMany_massFilter {collection : CodePoints} {spec : Spec β}
    {call : CollectionCall β} (h : executeInsertMany collection spec = .ok call) :
    call.massFilter? = none := by
  unfold executeInsertMany at h
  split at h
  · split at h <;> cases h
    rfl
  · cases h

theorem executeUpdateMany_massFilter {collection : CodePoints} {spec filter : Spec β} :
    (∃ call, executeUpdateMany collection spec = .ok call ∧ call.massFilter? = some filter) ↔
      (∃ entry entries, Dict.get? spec (codePoints "update") = some (.dict (entry :: entries))) ∧
        FilterOf spec filter := by
  constructor
  · rintro ⟨call, hcall, hfilter⟩
    obtain ⟨written, hwritten, hupdate⟩ := bind_eq_ok.1 hcall
    split at hupdate
    · next entry entries heq =>
      cases hupdate
      obtain rfl := Option.some.inj hfilter
      exact ⟨⟨entry, entries, heq⟩, documentOr_eq_ok.1 hwritten⟩
    · cases hupdate
  · rintro ⟨⟨entry, entries, hupdate⟩, hfilter⟩
    have hcall : executeUpdateMany collection spec = .ok (.updateMany collection filter (entry :: entries)
        (truthy ((Dict.get? spec (codePoints "upsert")).getD (.bool false)))) := by
      refine bind_eq_ok.2 ⟨filter, documentOr_eq_ok.2 hfilter, ?_⟩
      rw [hupdate]
      rfl
    exact ⟨_, hcall, rfl⟩

theorem executeDeleteMany_massFilter {collection : CodePoints} {spec filter : Spec β} :
    (∃ call, executeDeleteMany collection spec = .ok call ∧ call.massFilter? = some filter) ↔
      FilterOf spec filter := by
  constructor
  · rintro ⟨call, hcall, hfilter⟩
    obtain ⟨written, hwritten, hdelete⟩ := bind_eq_ok.1 hcall
    cases hdelete
    obtain rfl := Option.some.inj hfilter
    exact documentOr_eq_ok.1 hwritten
  · intro hfilter
    exact ⟨.deleteMany collection filter, bind_eq_ok.2 ⟨filter, documentOr_eq_ok.2 hfilter, rfl⟩, rfl⟩

theorem executeOperation_massFilter {op : String} {collection : CodePoints} {spec filter : Spec β} :
    (∃ call, executeOperation op collection spec = .ok call ∧ call.massFilter? = some filter) ↔
      (op = "delete_many" ∨ op = "update_many" ∧
        ∃ entry entries, Dict.get? spec (codePoints "update") = some (.dict (entry :: entries))) ∧
        FilterOf spec filter := by
  have hnone : ∀ {m : Except QueryError (CollectionCall β)},
      (∀ call, m = .ok call → call.massFilter? = none) →
        ¬∃ call, m = .ok call ∧ call.massFilter? = some filter := by
    rintro m hm ⟨call, hcall, hfilter⟩
    rw [hm call hcall] at hfilter
    cases hfilter
  unfold executeOperation
  split_ifs with hfind hinsert hupdate hdelete
  · subst hfind
    simpa using hnone fun _ => executeFind_massFilter
  · subst hinsert
    simpa using hnone fun _ => executeInsertMany_massFilter
  · subst hupdate
    simpa [FilterOf] using executeUpdateMany_massFilter
  · subst hdelete
    simpa [FilterOf] using executeDeleteMany_massFilter
  · simp [hupdate, hdelete]

/-- The filter of a mass write is that of the specification, or the default that matches all. -/
theorem dispatchCommand_massFilter {u : Unicode} {query : List Char} {spec filter : Spec β}
    {rest : List (PyValue β)} (hquery : query ≠ []) :
    (∃ call, dispatchCommand u query (.dict spec :: rest) = .ok call ∧
        call.massFilter? = some filter) ↔
      MassWrite (operationText u query) spec ∧ FilterOf spec filter := by
  unfold dispatchCommand MassWrite
  rw [if_neg hquery]
  dsimp only [specification]
  cases spec with
  | nil => simp [Dict.get?]
  | cons entry entries =>
    rw [List.isEmpty_cons, if_neg (by decide)]
    generalize entry :: entries = spec
    split
    · next collection hcollection =>
      cases hblank : isBlank collection with
      | true => simp [hcollection, hblank]
      | false =>
        rw [if_neg (by decide), executeOperation_massFilter]
        simp [hcollection, hblank]
    · next hnot =>
      have hnone : ¬∃ c, Dict.get? spec (codePoints "collection") = some (.str c) ∧
          isBlank c = false := by
        rintro ⟨c, hc, -⟩
        exact hnot c hc
      simp [hnone]

end

end AltrStream.Connectors.Native
