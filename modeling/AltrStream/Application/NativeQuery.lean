import AltrStream.Connectors.Dispatch
import AltrStream.Connectors.ShellAgreement

/-! # Native queries to MongoDB

`_prepare_mongodb_query`: the front ends through which a native command comes, as a
dictionary among the parameters, as JSON behind `mongodb:<operation>` or on its own, and
in shell syntax. Only the shell insists on the filter of an update or a deletion; the
others pass the dictionary on, and the connector reads a missing filter as the one that
matches every document.
-/
namespace AltrStream.Application
open Foundations Python Domain Connectors Connectors.Native
open Connectors.Shell (Env Spec Spells parseMongodbShellQuery)

/-- What a native query takes from elsewhere. -/
structure NativeEnv (β : Type) extends Env β where
  /-- The text of the exception of `json.loads`. -/
  decodeError : List Char → String

section
variable {β : Type} (env : NativeEnv β)

/-- `str(value)`; a lone surrogate, which no name of an operation has, becomes U+0000. -/
def textOf : PyValue β → List Char
  | .str s => s.map Char.ofNat
  | v => (env.str v).toList

/-- The dictionary without a key. -/
def without (key : String) (spec : Spec β) : Spec β := spec.filter fun e => e.1 ≠ codePoints key

/-- `text.partition(c)` without the separator. -/
def partition (c : Char) (text : List Char) : List Char × List Char :=
  (text.takeWhile (· ≠ c), (text.dropWhile (· ≠ c)).tail)

/-- The operation of a prefixed query and the text behind it, from the first space or line on. -/
def prefixed (raw : List Char) : List Char × List Char :=
  if stripChars (partition ' ' raw).2 = [] then partition '\n' raw else partition ' ' raw

/-- A text that has to be a JSON object. -/
def loadSpec (text : List Char) : Except QueryError (Spec β) :=
  match loads env.unicode text with
  | none => .error (failed s!"Invalid MongoDB JSON query: {env.decodeError text}")
  | some (.dict spec) => .ok spec
  | some _ => .error (failed "MongoDB query specification must be a JSON object.")

/-- `str(spec.pop("operation")).strip().lower()`, if there is such a key. -/
def namedOperation? (spec : Spec β) : Option (List Char) :=
  (Dict.get? spec (codePoints "operation")).map fun op =>
    (env.unicode.lower (String.ofList (stripChars (textOf env op)))).toList

/-- The operation that the keys of a dictionary tell. -/
def inferredOperation (spec : Spec β) : List Char :=
  (if Dict.contains spec (codePoints "documents") || Dict.contains spec (codePoints "document") then
    "insert_many"
  else if Dict.contains spec (codePoints "update") then "update_many"
  else if Dict.contains spec (codePoints "delete") then "delete_many"
  else "find").toList

/-- A command as the connector takes it. -/
def command (operation : List Char) (spec : Spec β) : List Char × List (PyValue β) :=
  (marker ++ operation, [.dict spec])

/-- The operation of a prefixed query. -/
def prefixedOperation (raw : List Char) : List Char :=
  let op := operationText env.unicode (prefixed raw).1
  (if op = "" then "find" else op).toList

/-- JSON behind `mongodb:<operation>`. -/
def preparePrefixed (raw : List Char) : Except QueryError (List Char × List (PyValue β)) :=
  let rest := stripChars (prefixed raw).2
  if rest = [] then
    .error (failed "MongoDB command requires a dictionary specification in parameters.")
  else do
    let spec ← loadSpec env rest
    return command ((namedOperation? env spec).getD (prefixedOperation env raw))
      (without "operation" spec)

/-- JSON on its own. -/
def prepareStructured (raw : List Char) : Except QueryError (List Char × List (PyValue β)) := do
  let spec ← loadSpec env raw
  return command ((namedOperation? env spec).getD (inferredOperation spec)) (without "operation" spec)

/-- Shell syntax; the parser never runs out of fuel. -/
def prepareShell (raw : List Char) : Except QueryError (List Char × List (PyValue β)) :=
  match parseMongodbShellQuery env.toEnv raw with
  | .ok (operation, spec) => .ok (command operation.name.toList spec)
  | .error (.queryExecution message) => .error (failed message)
  | .error .outOfFuel => .error (failed "")

/-- The operations that a query may name when the parameters are a dictionary. -/
def operationNames : List (List Char) :=
  ["find".toList, "insert_many".toList, "update_many".toList, "delete_many".toList]

/-- `mode.strip().lower()`, unless the mode is empty. -/
def normalizedMode (mode : Option (List Char)) : Option String :=
  (mode.filter (· ≠ [])).map fun m => env.unicode.lower (String.ofList (stripChars m))

/-- The text is read as JSON, by its mode or because it starts with a brace. -/
def ReadAsJson (raw : List Char) (mode : Option (List Char)) : Prop :=
  normalizedMode env mode ≠ some "shell" ∧
    (normalizedMode env mode = some "physical" ∨ raw.head? = some '{')

instance (raw : List Char) (mode : Option (List Char)) : Decidable (ReadAsJson env raw mode) :=
  inferInstanceAs (Decidable (_ ∧ _))

/-- A dictionary among the parameters. -/
def prepareDictionary (raw : List Char) (spec : Spec β) (rest : List (PyValue β)) :
    List Char × List (PyValue β) :=
  if raw = [] then
    let op := (Dict.get? spec (codePoints "operation")).map (textOf env)
    (marker ++ op.getD "find".toList, .dict (without "operation" spec) :: rest)
  else if marker <+: raw then (raw, .dict spec :: rest)
  else (marker ++ (if operationNames.contains raw then raw else "find".toList), .dict spec :: rest)

/-- A text without such a dictionary. -/
def prepareText (raw : List Char) (mode : Option (List Char)) :
    Except QueryError (List Char × List (PyValue β)) :=
  if raw = [] then .error (.readOnlyQueryRequired "Query cannot be empty.")
  else if marker <+: raw then preparePrefixed env raw
  else if ReadAsJson env raw mode then prepareStructured env raw
  else prepareShell env raw

/-- `_prepare_mongodb_query`; no parameters are an empty list. -/
def prepareMongodbQuery (query : List Char) (parameters : List (PyValue β))
    (mode : Option (List Char)) : Except QueryError (List Char × List (PyValue β)) :=
  match parameters with
  | .dict spec :: rest => .ok (prepareDictionary env (stripChars query) spec rest)
  | _ => prepareText env (stripChars query) mode

/-- `QueryService.execute_query` on a MongoDB source, up to the call of the driver. -/
def executeNative (query : List Char) (parameters : List (PyValue β)) (mode : Option (List Char)) :
    Except QueryError (CollectionCall β) := do
  let (query, parameters) ← prepareMongodbQuery env query parameters mode
  dispatchCommand env.unicode query parameters

/-! ### The commands that a request writes -/

/-- The request writes a dictionary for that operation: among its parameters, or as JSON. -/
inductive WritesSpec (query : List Char) (mode : Option (List Char)) :
    List (PyValue β) → List Char → Spec β → Prop
  | emptyQuery {spec : Spec β} {rest : List (PyValue β)} (hraw : stripChars query = []) :
      WritesSpec query mode (.dict spec :: rest)
        (((Dict.get? spec (codePoints "operation")).map (textOf env)).getD "find".toList)
        (without "operation" spec)
  | prefixedQuery {spec : Spec β} {rest : List (PyValue β)} (hraw : stripChars query ≠ [])
      (hmarker : marker <+: stripChars query) :
      WritesSpec query mode (.dict spec :: rest) (stripChars query) spec
  | namedQuery {spec : Spec β} {rest : List (PyValue β)} (hraw : stripChars query ≠ [])
      (hmarker : ¬marker <+: stripChars query) :
      WritesSpec query mode (.dict spec :: rest)
        (if operationNames.contains (stripChars query) then stripChars query else "find".toList) spec
  | prefixedJson {parameters : List (PyValue β)} {spec : Spec β}
      (hparameters : ∀ s r, parameters ≠ .dict s :: r) (hmarker : marker <+: stripChars query)
      (hspec : loads env.unicode (stripChars (prefixed (stripChars query)).2) = some (.dict spec)) :
      WritesSpec query mode parameters
        ((namedOperation? env spec).getD (prefixedOperation env (stripChars query)))
        (without "operation" spec)
  | json {parameters : List (PyValue β)} {spec : Spec β}
      (hparameters : ∀ s r, parameters ≠ .dict s :: r) (hraw : stripChars query ≠ [])
      (hmarker : ¬marker <+: stripChars query) (hmode : ReadAsJson env (stripChars query) mode)
      (hspec : loads env.unicode (stripChars query) = some (.dict spec)) :
      WritesSpec query mode parameters ((namedOperation? env spec).getD (inferredOperation spec))
        (without "operation" spec)

/-- The text is in shell syntax. -/
def ReadAsShell (query : List Char) (parameters : List (PyValue β)) (mode : Option (List Char)) :
    Prop :=
  (∀ s r, parameters ≠ .dict s :: r) ∧ stripChars query ≠ [] ∧ ¬marker <+: stripChars query ∧
    ¬ReadAsJson env (stripChars query) mode

/-- The filter is in the request: under its key in a dictionary, or as an argument of the shell. -/
def WritesFilter (query : List Char) (parameters : List (PyValue β)) (mode : Option (List Char))
    (filter : Spec β) : Prop :=
  (∃ op spec, WritesSpec env query mode parameters op spec ∧
      Dict.get? spec (codePoints "filter") = some (.dict filter)) ∨
    ReadAsShell env query parameters mode ∧ ∃ tokens ts more,
      Shell.Lexer.tokenize env.unicode (stripChars query) = .ok tokens ∧
      tokens.drop 6 = ts ++ more ∧ Spells env.toEnv (.value (.dict filter)) ts

variable {env}

theorem operationText_marker (u : Unicode) (op : List Char) :
    operationText u (marker ++ op) = operationText u op := rfl

theorem loads_nil (u : Unicode) : (loads u [] : Option (PyValue β)) = none := rfl

theorem prepareMongodbQuery_text {query : List Char} {parameters : List (PyValue β)}
    {mode : Option (List Char)} (h : ∀ s r, parameters ≠ .dict s :: r) :
    prepareMongodbQuery env query parameters mode = prepareText env (stripChars query) mode := by
  unfold prepareMongodbQuery
  split
  · exact absurd rfl (h _ _)
  · rfl

theorem loadSpec_eq_ok {text : List Char} {spec : Spec β} :
    loadSpec env text = .ok spec ↔ loads env.unicode text = some (.dict spec) := by
  unfold loadSpec
  split
  · next heq => simp [heq]
  · next heq => simp [heq]
  · next hnot heq =>
    rw [heq]
    simp only [reduceCtorEq, Option.some.injEq, false_iff]
    exact hnot spec

theorem preparePrefixed_eq_ok {raw : List Char} {prepared : List Char × List (PyValue β)} :
    preparePrefixed env raw = .ok prepared ↔
      ∃ spec, loads env.unicode (stripChars (prefixed raw).2) = some (.dict spec) ∧
        prepared = command ((namedOperation? env spec).getD (prefixedOperation env raw))
          (without "operation" spec) := by
  unfold preparePrefixed
  dsimp only
  split_ifs with hnil
  · simp [hnil, loads_nil]
  · simp only [bind_eq_ok, loadSpec_eq_ok, pure_eq_ok]
    exact exists_congr fun _ => and_congr_right fun _ => eq_comm

theorem prepareStructured_eq_ok {raw : List Char} {prepared : List Char × List (PyValue β)} :
    prepareStructured env raw = .ok prepared ↔
      ∃ spec, loads env.unicode raw = some (.dict spec) ∧
        prepared = command ((namedOperation? env spec).getD (inferredOperation spec))
          (without "operation" spec) := by
  unfold prepareStructured
  simp only [bind_eq_ok, loadSpec_eq_ok, pure_eq_ok]
  exact exists_congr fun _ => and_congr_right fun _ => eq_comm

/-- The command of a dictionary reaches the connector. -/
theorem prepare_of_writesSpec {query op : List Char} {mode : Option (List Char)}
    {parameters : List (PyValue β)} {spec : Spec β}
    (h : WritesSpec env query mode parameters op spec) :
    ∃ query' rest, prepareMongodbQuery env query parameters mode = .ok (query', .dict spec :: rest) ∧
      query' ≠ [] ∧ operationText env.unicode query' = operationText env.unicode op := by
  have hmarked : ∀ op, marker ++ op ≠ [] := fun op => List.cons_ne_nil _ _
  cases h with
  | @emptyQuery spec rest hraw =>
    have hprepare : prepareDictionary env (stripChars query) spec rest = _ := if_pos hraw
    exact ⟨_, _, congrArg Except.ok hprepare, hmarked _, rfl⟩
  | @prefixedQuery spec rest hraw hmarker =>
    have hprepare : prepareDictionary env (stripChars query) spec rest = _ :=
      (if_neg hraw).trans (if_pos hmarker)
    exact ⟨_, _, congrArg Except.ok hprepare, hraw, rfl⟩
  | @namedQuery spec rest hraw hmarker =>
    have hprepare : prepareDictionary env (stripChars query) spec rest = _ :=
      (if_neg hraw).trans (if_neg hmarker)
    exact ⟨_, _, congrArg Except.ok hprepare, hmarked _, rfl⟩
  | prefixedJson hparameters hmarker hspec =>
    have hraw : stripChars query ≠ [] := by
      rintro hnil
      rw [hnil] at hmarker
      exact absurd hmarker (by decide)
    rw [prepareMongodbQuery_text hparameters, prepareText, if_neg hraw, if_pos hmarker]
    exact ⟨_, _, preparePrefixed_eq_ok.2 ⟨_, hspec, rfl⟩, hmarked _, rfl⟩
  | json hparameters hraw hmarker hmode hspec =>
    rw [prepareMongodbQuery_text hparameters, prepareText, if_neg hraw, if_neg hmarker, if_pos hmode]
    exact ⟨_, _, prepareStructured_eq_ok.2 ⟨_, hspec, rfl⟩, hmarked _, rfl⟩

theorem prepareShell_eq_ok {raw : List Char} {prepared : List Char × List (PyValue β)} :
    prepareShell env raw = .ok prepared ↔ ∃ operation spec,
      parseMongodbShellQuery env.toEnv raw = .ok (operation, spec) ∧
        prepared = command operation.name.toList spec := by
  unfold prepareShell
  cases hparse : parseMongodbShellQuery env.toEnv raw with
  | error stop => cases stop <;> simp
  | ok result => simp [eq_comm, Prod.ext_iff]

/-- Every command comes from a dictionary or from shell syntax. -/
theorem writesSpec_of_prepare {query query' : List Char} {mode : Option (List Char)}
    {parameters parameters' : List (PyValue β)}
    (h : prepareMongodbQuery env query parameters mode = .ok (query', parameters')) :
    query' ≠ [] ∧ ((∃ op spec rest, WritesSpec env query mode parameters op spec ∧
        operationText env.unicode query' = operationText env.unicode op ∧
        parameters' = .dict spec :: rest) ∨
      ReadAsShell env query parameters mode ∧ ∃ operation spec,
        parseMongodbShellQuery env.toEnv (stripChars query) = .ok (operation, spec) ∧
        (query', parameters') = command operation.name.toList spec) := by
  have hmarked : ∀ op, marker ++ op ≠ [] := fun op => List.cons_ne_nil _ _
  by_cases hparameters : ∃ s r, parameters = .dict s :: r
  · obtain ⟨spec, rest, rfl⟩ := hparameters
    have hprepare : prepareDictionary env (stripChars query) spec rest = (query', parameters') :=
      Except.ok.inj h
    rw [prepareDictionary] at hprepare
    by_cases hraw : stripChars query = []
    · rw [if_pos hraw] at hprepare
      cases hprepare
      exact ⟨hmarked _, .inl ⟨_, _, _, .emptyQuery hraw, rfl, rfl⟩⟩
    · rw [if_neg hraw] at hprepare
      by_cases hmarker : marker <+: stripChars query
      · rw [if_pos hmarker] at hprepare
        cases hprepare
        exact ⟨hraw, .inl ⟨_, _, _, .prefixedQuery hraw hmarker, rfl, rfl⟩⟩
      · rw [if_neg hmarker] at hprepare
        cases hprepare
        exact ⟨hmarked _, .inl ⟨_, _, _, .namedQuery hraw hmarker, rfl, rfl⟩⟩
  · have hnone : ∀ s r, parameters ≠ .dict s :: r := fun s r h => hparameters ⟨s, r, h⟩
    rw [prepareMongodbQuery_text hnone, prepareText] at h
    split_ifs at h with hraw hmarker hmode
    · obtain ⟨spec, hspec, hprepared⟩ := preparePrefixed_eq_ok.1 h
      cases hprepared
      exact ⟨hmarked _, .inl ⟨_, _, _, .prefixedJson hnone hmarker hspec, rfl, rfl⟩⟩
    · obtain ⟨spec, hspec, hprepared⟩ := prepareStructured_eq_ok.1 h
      cases hprepared
      exact ⟨hmarked _, .inl ⟨_, _, _, .json hnone hraw hmarker hmode hspec, rfl, rfl⟩⟩
    · obtain ⟨operation, spec, hparse, hprepared⟩ := prepareShell_eq_ok.1 h
      cases hprepared
      exact ⟨hmarked _, .inr ⟨⟨hnone, hraw, hmarker, hmode⟩, operation, spec, hparse, rfl⟩⟩

/-- A request writes at most one command. -/
theorem WritesSpec.functional {query op op' : List Char} {mode : Option (List Char)}
    {parameters : List (PyValue β)} {spec spec' : Spec β}
    (h : WritesSpec env query mode parameters op spec)
    (h' : WritesSpec env query mode parameters op' spec') : spec = spec' := by
  obtain ⟨q, r, hprepare, -⟩ := prepare_of_writesSpec h
  obtain ⟨q', r', hprepare', -⟩ := prepare_of_writesSpec h'
  have hsame := (Prod.mk.inj (Except.ok.inj (hprepare.symm.trans hprepare'))).2
  exact PyValue.dict.inj (List.cons.inj hsame).1

theorem WritesSpec.not_readAsShell {query op : List Char} {mode : Option (List Char)}
    {parameters : List (PyValue β)} {spec : Spec β}
    (h : WritesSpec env query mode parameters op spec) : ¬ReadAsShell env query parameters mode := by
  rintro ⟨hnone, hraw, hmarker, hmode⟩
  cases h with
  | emptyQuery => exact hnone _ _ rfl
  | prefixedQuery => exact hnone _ _ rfl
  | namedQuery => exact hnone _ _ rfl
  | prefixedJson _ hprefix _ => exact hmarker hprefix
  | json _ _ _ hjson _ => exact hmode hjson

/-- The connector reads the names of the operations as they are. -/
theorem operationText_name {u : Unicode} (hu : AsciiTables u) (operation : Shell.Operation) :
    operationText u (marker ++ operation.name.toList) = operation.name := by
  have hstrip : stripChars (removeMarker (marker ++ operation.name.toList)) =
      operation.name.toList := by
    cases operation <;> decide
  have hascii : ∀ c ∈ operation.name.toList, c.toNat < 128 := by
    cases operation <;> decide
  rw [operationText, hstrip, hu.lower _ hascii]
  cases operation <;> decide

/-- A mass write in shell syntax has the filter that is its first argument. -/
theorem writesFilter_of_shell (hu : AsciiTables env.unicode) {query : List Char}
    {parameters : List (PyValue β)} {mode : Option (List Char)} {operation : Shell.Operation}
    {spec filter : Spec β} (hshell : ReadAsShell env query parameters mode)
    (hparse : parseMongodbShellQuery env.toEnv (stripChars query) = .ok (operation, spec))
    (hwrite : MassWrite (operationText env.unicode (marker ++ operation.name.toList)) spec)
    (hfilter : FilterOf spec filter) : WritesFilter env query parameters mode filter := by
  obtain ⟨tokens, htokens, hconservative⟩ := Shell.conservative_of_parse hparse
  rw [operationText_name hu] at hwrite
  have hsame : ∀ {written : Spec β}, Dict.get? spec (codePoints "filter") = some (.dict written) →
      written = filter := by
    intro written hwritten
    rcases hfilter with hget | ⟨hget, -⟩
    · exact PyValue.dict.inj (Option.some.inj (hwritten.symm.trans hget))
    · rw [hwritten] at hget
      cases hget
  rcases hwrite.2 with hdelete | ⟨hupdate, -⟩
  · have hoperation : operation = .deleteMany := by
      cases operation <;> first | rfl | exact absurd hdelete (by decide)
    obtain ⟨written, ts, p, rest, hdrop, hspells, hget⟩ := hconservative.deleteMany hoperation
    obtain rfl := hsame hget
    exact .inr ⟨hshell, tokens, ts, _, htokens, hdrop, hspells⟩
  · have hoperation : operation = .updateMany := by
      cases operation <;> first | rfl | exact absurd hupdate (by decide)
    obtain ⟨written, update, ts, ts', p, rest, hdrop, hspells, -, -, hget, -⟩ :=
      hconservative.updateMany hoperation
    obtain rfl := hsame hget
    exact .inr ⟨hshell, tokens, ts, _, htokens, hdrop, hspells⟩

/-- Every mass write has a filter of the request if and only if the request writes no dictionary
for a mass write without the key. -/
theorem writesFilter_iff (env : NativeEnv β) (hu : AsciiTables env.unicode) (query : List Char)
    (parameters : List (PyValue β)) (mode : Option (List Char)) :
    (∀ call filter, executeNative env query parameters mode = .ok call →
        call.massFilter? = some filter → WritesFilter env query parameters mode filter) ↔
      ∀ op spec, WritesSpec env query mode parameters op spec →
        MassWrite (operationText env.unicode op) spec →
          Dict.contains spec (codePoints "filter") = true := by
  constructor
  · intro h op spec hspec hwrite
    by_contra hmissing
    have hnone : Dict.get? spec (codePoints "filter") = none := by
      simpa [Dict.contains] using hmissing
    obtain ⟨query', rest, hprepare, hsome, hop⟩ := prepare_of_writesSpec hspec
    rw [← hop] at hwrite
    obtain ⟨call, hcall, hfilter⟩ := (dispatchCommand_massFilter hsome).2
      ⟨hwrite, .inr ⟨hnone, rfl⟩⟩
    rcases h call [] (bind_eq_ok.2 ⟨_, hprepare, hcall⟩) hfilter with ⟨op', spec', hspec', hget⟩ | hshell
    · rw [← hspec.functional hspec', hnone] at hget
      cases hget
    · exact hspec.not_readAsShell hshell.1
  · intro h call filter hcall hfilter
    obtain ⟨⟨query', parameters'⟩, hprepare, hdispatch⟩ := bind_eq_ok.1 hcall
    obtain ⟨hsome, ⟨op, spec, rest, hspec, hop, rfl⟩ | ⟨hshell, operation, spec, hparse, hcommand⟩⟩ :=
      writesSpec_of_prepare hprepare
    · obtain ⟨hwrite, hget⟩ := (dispatchCommand_massFilter hsome).1 ⟨call, hdispatch, hfilter⟩
      rw [hop] at hwrite
      have hcontains := h op spec hspec hwrite
      rcases hget with hget | ⟨hnone, -⟩
      · exact .inl ⟨op, spec, hspec, hget⟩
      · rw [Dict.contains, hnone] at hcontains
        cases hcontains
    · cases hcommand
      obtain ⟨hwrite, hget⟩ := (dispatchCommand_massFilter hsome).1 ⟨call, hdispatch, hfilter⟩
      exact writesFilter_of_shell hu hshell hparse hwrite hget

end

/-- ASCII texts, without the constructors of BSON values. -/
def bareNativeEnv : NativeEnv Unit where
  toEnv := Shell.bareEnv
  decodeError _ := ""

/-- `mongodb:delete_many` -/
def deleteMany : List Char :=
  marker ++ ['d', 'e', 'l', 'e', 't', 'e', '_', 'm', 'a', 'n', 'y']

/-- The parameter `{"collection": "c", "filter": {"a": true}}`. -/
def filteredSpec : Spec Unit :=
  [(codePoints "collection", .str [99]), (codePoints "filter", .dict [([97], .bool true)])]

/-- A deletion with a filter among the parameters deletes by that filter. -/
theorem writesFilter_iff_parameters :
    ∃ call, executeNative bareNativeEnv deleteMany [.dict filteredSpec] none = .ok call ∧
      call.massFilter? = some [([97], .bool true)] ∧
      WritesFilter bareNativeEnv deleteMany [.dict filteredSpec] none [([97], .bool true)] := by
  have hwrites : WritesSpec bareNativeEnv deleteMany none [.dict filteredSpec] deleteMany
      filteredSpec := .prefixedQuery (by decide) (by decide)
  have hcall : executeNative bareNativeEnv deleteMany [.dict filteredSpec] none =
      .ok (.deleteMany [99] [([97], .bool true)]) := rfl
  refine ⟨_, hcall, rfl, (writesFilter_iff bareNativeEnv asciiTables_ascii deleteMany
    [.dict filteredSpec] none).2 ?_ _ _ hcall rfl⟩
  intro op spec hspec _
  rw [← hwrites.functional hspec]
  rfl

/-- `{"collection":"c","delete":{"a":true}}` -/
def deleteByCondition : List Char :=
  ['{', '"', 'c', 'o', 'l', 'l', 'e', 'c', 't', 'i', 'o', 'n', '"', ':', '"', 'c', '"', ',',
    '"', 'd', 'e', 'l', 'e', 't', 'e', '"', ':', '{', '"', 'a', '"', ':', 't', 'r', 'u', 'e', '}', '}']

/-- The JSON command is one for a deletion by its `delete` key, which the connector does not read:
it deletes every document. -/
theorem not_writesFilter_deleteByCondition :
    executeNative bareNativeEnv deleteByCondition [] none = .ok (.deleteMany [99] []) ∧
      ¬WritesFilter bareNativeEnv deleteByCondition [] none [] := by
  have hloads : loads bareNativeEnv.unicode (stripChars deleteByCondition) =
      some (.dict [(codePoints "collection", .str [99]),
        (codePoints "delete", .dict [([97], .bool true)])] : PyValue Unit) := rfl
  have hnone : ∀ (s : Spec Unit) (r : List (PyValue Unit)), [] ≠ .dict s :: r :=
    fun _ _ => (List.cons_ne_nil _ _).symm
  have hwrites := WritesSpec.json hnone (by decide) (by decide)
    (by decide : ReadAsJson bareNativeEnv _ none) hloads
  refine ⟨rfl, ?_⟩
  rintro (⟨op, spec, hspec, hfilter⟩ | ⟨hshell, -⟩)
  · rw [← hwrites.functional hspec] at hfilter
    revert hfilter
    rintro ⟨⟩
  · exact hwrites.not_readAsShell hshell

end AltrStream.Application
