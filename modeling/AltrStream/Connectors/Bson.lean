import AltrStream.Domain.Models
import AltrStream.Foundations.Dict
import AltrStream.Python.Scalar
import Mathlib.Data.List.Sort

/-! # BSON values

`mongodb/mapper.py`: the standard type that schema discovery gives a value, the
fields that it infers from a sample of documents, and the value that a query
result shows in its place.
-/
namespace AltrStream.Connectors
open Foundations Python QueryEngine Domain

/-- A double or a decimal; `none` is NaN. -/
abbrev Real64 := Option (WithBot PyFloat)

def hexDigit (n : ℕ) : Char := "0123456789abcdef".toList.getD n '0'

def hexText (bytes : List UInt8) : List Char :=
  bytes.flatMap fun b => [hexDigit (b.toNat / 16), hexDigit (b.toNat % 16)]

/-- `str(ObjectId)` -/
def objectIdText (id : Vector UInt8 12) : String := String.ofList (hexText id.toList)

/-- `str(uuid.UUID)` -/
def uuidText (id : Vector UInt8 16) : String :=
  let digits := hexText id.toList
  let group (start count : ℕ) := (digits.drop start).take count
  String.ofList (group 0 8 ++ '-' :: group 8 4 ++ '-' :: group 12 4 ++ '-' :: group 16 4 ++
    '-' :: group 20 12)

/-- A value as the driver hands it out. A symbol is handed out as a string. -/
inductive Bson where
  | null
  | objectId (id : Vector UInt8 12)
  | decimal128 (x : Real64)
  | date (t : DateTime)
  | timestamp (time inc : UInt32)
  /-- `Binary`, or `bytes` for subtype 0 -/
  | binary (subtype : UInt8) (data : List UInt8)
  | document (fields : List (String × Bson))
  | array (items : List Bson)
  | string (s : String)
  /-- `Code`, a subclass of `str` -/
  | code (s : String)
  | bool (b : Bool)
  | int (n : Int32)
  | long (n : Int64)
  | double (x : Real64)
  /-- Any other type, with the name of its class and its `str`. -/
  | other (typeName text : String)

abbrev BsonDocument := Dict String Bson

def Bson.isNull : Bson → Bool
  | null => true
  | _ => false

def uuidSubtype : UInt8 := 4

/-- `map_bson_value_to_standard` -/
def mapBsonValueToStandard : Bson → StandardDataType × String
  | .null => (.string, "null")
  | .objectId _ => (.string, "objectId")
  | .decimal128 _ => (.decimal, "decimal128")
  | .date _ => (.timestamp, "date")
  | .timestamp _ _ => (.integer, "timestamp")
  | .binary subtype _ => if subtype = uuidSubtype then (.uuid, "uuid") else (.binary, "binary")
  | .document _ => (.json, "document")
  | .array _ => (.array, "array")
  | .string _ | .code _ => (.string, "string")
  | .bool _ => (.boolean, "bool")
  | .int _ => (.integer, "int")
  | .long _ => (.bigint, "long")
  | .double _ => (.float, "double")
  | .other typeName _ => (.other, typeName)

def sortTexts (texts : List String) : List String := texts.insertionSort (· ≤ ·)

/-- `merge_observed_types`, of a set without repetitions. -/
def mergeObservedTypes (types : List (StandardDataType × String)) : StandardDataType × String :=
  match types with
  | [] => (.string, "null")
  | [type] => type
  | _ =>
    let stdTypes := types.map (·.1)
    if stdTypes ⊆ integerTypes then
      if .bigint ∈ stdTypes then (.bigint, "long") else (.integer, "int")
    else if stdTypes ⊆ integerTypes ++ floatTypes then
      if .decimal ∈ stdTypes then (.decimal, "decimal128") else (.float, "double")
    else if stdTypes ⊆ temporalTypes then (.timestamp, "date")
    else
      let names := String.intercalate ", " (sortTexts (types.map (·.2)).dedup)
      (.other, s!"mixed({names})")

/-- `field_path` of a key of the document at `parent`. -/
def joinPath (parent key : String) : String := if parent = "" then key else s!"{parent}.{key}"

/-- `traverse_document_fields`, with so many levels of embedded documents left to enter. -/
def traverseDocumentFields : ℕ → String → BsonDocument → List (String × Bson)
  | 0, parent, doc => doc.map fun e => (joinPath parent e.1, e.2)
  | levels + 1, parent, doc => doc.flatMap fun e =>
    (joinPath parent e.1, e.2) :: match e.2 with
      | .document fields => traverseDocumentFields levels (joinPath parent e.1) fields
      | _ => []

/-- `max_depth` is 3. -/
def nestedLevels : ℕ := 2

/-- `doc_fields`: of several values at one path the last is kept. -/
def docFields (doc : BsonDocument) : BsonDocument :=
  Dict.ofEntries (traverseDocumentFields nestedLevels "" doc)

/-- The values other than null that the documents have at a path. -/
def observedValues (docs : List BsonDocument) (path : String) : List Bson :=
  (docs.filterMap fun doc => (docFields doc).get? path).filter (!·.isNull)

def observedTypes (docs : List BsonDocument) (path : String) : List (StandardDataType × String) :=
  ((observedValues docs path).map mapBsonValueToStandard).dedup

/-- The field that is inferred at a path: nullable if a document lacks it or holds null. -/
def inferField (docs : List BsonDocument) (path : String) : FieldSchema :=
  let (dataType, nativeDataType) := mergeObservedTypes (observedTypes docs path)
  { name := path, dataType, nativeDataType,
    nullable := path ≠ "_id" && (observedValues docs path).length < docs.length,
    isPrimaryKey := path = "_id" }

/-- `_id` comes first, the other paths follow in order. -/
def orderedPaths (docs : List BsonDocument) : List String :=
  let allPaths := (docs.flatMap fun doc => (docFields doc).keys).dedup
  (if "_id" ∈ allPaths then ["_id"] else []) ++ sortTexts (allPaths.filter (· ≠ "_id"))

def emptyCollection (databaseName collection : String) : EntitySchema where
  name := collection
  namespace_ := if databaseName = "" then "default" else databaseName
  entityType := "COLLECTION"
  fields := [{ name := "_id", dataType := .string,
               nativeDataType := "objectId (inferred default)",
               nullable := false, isPrimaryKey := true }]
  primaryKey := ["_id"]
  comment := some "Empty MongoDB collection (observed sample count: 0)"

/-- The entity of a collection with its sampled documents. -/
def inferEntity (databaseName : String) (sampled : String × List BsonDocument) : EntitySchema :=
  let (collection, docs) := sampled
  if docs = [] then emptyCollection databaseName collection
  else
    { name := collection
      namespace_ := if databaseName = "" then "default" else databaseName
      entityType := "COLLECTION"
      fields := (orderedPaths docs).map (inferField docs)
      primaryKey := if "_id" ∈ orderedPaths docs then ["_id"] else []
      comment := some s!"Observed MongoDB collection (sample count: {docs.length})" }

/-- `build_source_schema_from_mongodb_samples` -/
def buildSourceSchemaFromMongodbSamples (sourceId sourceName databaseName : String)
    (sampled : Dict String (List BsonDocument)) : SourceSchema where
  sourceId := sourceId
  sourceName := sourceName
  entities := (sampled.insertionSort fun a b => a.1 ≤ b.1).map (inferEntity databaseName)

/-! ### Fields of one type -/

inductive BsonType where
  | null
  | objectId
  | decimal
  | date
  | timestamp
  | binData
  | object
  | array
  | string
  | javascript
  | bool
  | int
  | long
  | double
  | other (typeName : String)
  deriving DecidableEq

def Bson.type : Bson → BsonType
  | .null => .null
  | .objectId _ => .objectId
  | .decimal128 _ => .decimal
  | .date _ => .date
  | .timestamp _ _ => .timestamp
  | .binary _ _ => .binData
  | .document _ => .object
  | .array _ => .array
  | .string _ => .string
  | .code _ => .javascript
  | .bool _ => .bool
  | .int _ => .int
  | .long _ => .long
  | .double _ => .double
  | .other typeName _ => .other typeName

/-- Every value that the documents hold at the path is null or of the type. -/
def AllOfType (docs : List BsonDocument) (path : String) (type : BsonType) : Prop :=
  ∀ doc ∈ docs, ∀ b, (path, b) ∈ traverseDocumentFields nestedLevels "" doc →
    b = .null ∨ b.type = type

theorem mem_traverse_of_get? {levels : ℕ} {doc : BsonDocument} {name : String} {b : Bson}
    (h : doc.get? name = some b) : (name, b) ∈ traverseDocumentFields levels "" doc := by
  have hmem : (name, b) ∈ doc := Dict.mem_of_get? h
  cases levels with
  | zero => exact List.mem_map_of_mem hmem
  | succ levels => exact List.mem_flatMap.2 ⟨_, hmem, List.mem_cons_self ..⟩

theorem type_of_mem_observedValues {docs : List BsonDocument} {path : String} {type : BsonType}
    (hdocs : AllOfType docs path type) {b : Bson} (hb : b ∈ observedValues docs path) :
    b.type = type := by
  obtain ⟨hb, hnull⟩ := List.mem_filter.1 hb
  obtain ⟨doc, hdoc, hget⟩ := List.mem_filterMap.1 hb
  have hmem : (path, b) ∈ traverseDocumentFields nestedLevels "" doc :=
    (Dict.get?_update_cases hget).resolve_left (by simp)
  rcases hdocs doc hdoc b hmem with rfl | htype
  · cases hnull
  · exact htype

/-- Values of one type have one standard type, but for binary data. -/
theorem mapBsonValueToStandard_congr {b b' : Bson} (h : b.type = b'.type)
    (hbinary : b.type ≠ .binData) : mapBsonValueToStandard b = mapBsonValueToStandard b' := by
  cases b <;> cases b' <;> first | cases h; done | exact absurd rfl hbinary | skip
  all_goals first | rfl | (cases h; rfl)

theorem mergeObservedTypes_of_forall {types : List (StandardDataType × String)}
    {type : StandardDataType × String} (hnodup : types.Nodup) (hne : types ≠ [])
    (h : ∀ t ∈ types, t = type) : mergeObservedTypes types = type := by
  rcases types with _ | ⟨t, _ | ⟨t', rest⟩⟩
  · exact absurd rfl hne
  · exact h t (List.mem_singleton_self t)
  · have hsame : t = t' := (h t (by simp)).trans (h t' (by simp)).symm
    exact absurd hsame (by simp at hnodup; tauto)

/-- The type that is inferred from binary data is no number's and no Boolean's. -/
theorem mergeObservedTypes_of_binary {types : List (StandardDataType × String)} (hne : types ≠ [])
    (h : ∀ t ∈ types, t.1 = .uuid ∨ t.1 = .binary) :
    toLogicalCategory (mergeObservedTypes types).1 = .string ∨
      toLogicalCategory (mergeObservedTypes types).1 = .unknown := by
  rcases types with _ | ⟨t, _ | ⟨t', rest⟩⟩
  · exact absurd rfl hne
  · obtain ht | ht := h t (List.mem_singleton_self t) <;>
      simp [mergeObservedTypes, ht, toLogicalCategory]
  · refine .inr ?_
    obtain ht | ht := h t (by simp) <;>
      simp [mergeObservedTypes, ht, toLogicalCategory, integerTypes, floatTypes, temporalTypes]

/-! ### Result values -/

/-- A value of a row of a query result. -/
inductive ResultValue where
  | none
  | str (s : String)
  | decimal (x : Real64)
  | datetime (t : DateTime)
  | int (n : ℤ)
  | uuid (id : Vector UInt8 16)
  | bytes (data : List UInt8)
  | dict (fields : List (String × ResultValue))
  | list (items : List ResultValue)
  | bool (b : Bool)
  | float (x : Real64)

/-- The `ValueError` of `uuid.UUID(bytes=...)`. -/
def notAUuid : PyError := { kind := .valueError, message := "bytes is not a 16-char string" }

mutual

def normalizeBsonValue : Bson → Except PyError ResultValue
  | .null => .ok .none
  | .objectId id => .ok (.str (objectIdText id))
  | .decimal128 x => .ok (.decimal x)
  | .date t => .ok (.datetime t)
  | .timestamp time _ => .ok (.int time.toNat)
  | .binary subtype data =>
    if subtype = uuidSubtype then
      if h : data.length = 16 then .ok (.uuid ⟨data.toArray, by simpa using h⟩)
      else .error notAUuid
    else .ok (.bytes data)
  | .document fields => .dict <$> normalizeFields fields
  | .array items => .list <$> normalizeItems items
  | .string s | .code s => .ok (.str s)
  | .bool b => .ok (.bool b)
  | .int n => .ok (.int n.toInt)
  | .long n => .ok (.int n.toInt)
  | .double x => .ok (.float x)
  | .other _ text => .ok (.str text)

def normalizeFields : List (String × Bson) → Except PyError (List (String × ResultValue))
  | [] => .ok []
  | (key, val) :: fields => do
    let v ← normalizeBsonValue val
    return (key, v) :: (← normalizeFields fields)

def normalizeItems : List Bson → Except PyError (List ResultValue)
  | [] => .ok []
  | item :: items => do
    let v ← normalizeBsonValue item
    return v :: (← normalizeItems items)

end

/-- `normalize_bson_document` -/
def normalizeBsonDocument (doc : BsonDocument) : Except PyError (Dict String ResultValue) :=
  normalizeFields doc

end AltrStream.Connectors
