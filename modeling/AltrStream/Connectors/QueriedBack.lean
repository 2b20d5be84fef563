import AltrStream.Connectors.Bson
import AltrStream.Lowering.MongoEncoding
import AltrStream.QueryEngine.LiteralTypes
import Mathlib.Data.List.Dedup

/-! # Querying a value that was read

A value that GET shows for a field of a collection, written as a literal, should
find its document again. Three translations meet: the type that discovery infers,
the value that the result shows, and the parameter that the literal becomes.
Values of some types come out as texts or numbers and go back as these.
-/
namespace AltrStream.Connectors
open Foundations Python QueryEngine Semantics
open Lowering.MongoDB

/-! ### What `find` returns -/

/-- The walk along the segments of a projected path. -/
def projectedValue : List String → ResultValue → ResultValue
  | [], val => val
  | seg :: rest, .dict fields => projectedValue rest ((Dict.get? fields seg).getD .none)
  | _ :: _, _ => .none

/-- The row that `_execute_find` makes of a document. -/
def findRow (projectionFields : List ProjectionField) (doc : BsonDocument) :
    Except PyError (Dict String ResultValue) := do
  let normalized ← normalizeBsonDocument doc
  return if projectionFields = [] then normalized
    else Dict.ofEntries (projectionFields.map fun pf =>
      (pf.name, projectedValue pf.path (.dict normalized)))

/-- The result shows a value for the field `name` of the document: under its own name without a
projection, else under the name that the last projection field of that name gives it. -/
def Shows (projectionFields : List ProjectionField) (doc : BsonDocument) (name : String)
    (v : ResultValue) : Prop :=
  ∃ row column, findRow projectionFields doc = .ok row ∧ Dict.get? row column = some v ∧
    (if projectionFields = [] then column = name
    else ∃ pf, (projectionFields.reverse.find? fun pf => pf.name = column) = some pf ∧
      pf.path = [name])

/-- A number as a double. -/
def realOf (x : PyFloat) : Real64 := some (x : WithBot PyFloat)

/-- The literals that a value of a result is written as. A decimal is written with or without a
fraction, and the literal of one with a fraction is read as the nearest double. -/
inductive WrittenAs : ResultValue → LiteralValue → Prop
  | none : WrittenAs .none .null
  | bool (b : Bool) : WrittenAs (.bool b) (.boolean b)
  | int (n : ℤ) : WrittenAs (.int n) (.integer n)
  | float (x : PyFloat) : WrittenAs (.float (realOf x)) (.float x)
  | str (s : String) : WrittenAs (.str s) (.string s)
  | uuid (id : Vector UInt8 16) : WrittenAs (.uuid id) (.string (uuidText id))
  | whole (n : ℤ) : WrittenAs (.decimal (realOf (n : ℚ))) (.integer n)
  | decimal (q : ℚ) (h : 0 ≤ q) : WrittenAs (.decimal (realOf q)) (.float (PyFloat.ofRat q))

/-! ### What a filter selects -/

/-- The number that a value is compared as. -/
def Bson.number? : Bson → Option Real64
  | .int n => some (realOf (n.toInt : ℚ))
  | .long n => some (realOf (n.toInt : ℚ))
  | .double x | .decimal128 x => some x
  | _ => none

/-- Equality compares numbers as numbers and other values within their type only. -/
def equalsScalar : Scalar → Bson → Bool
  | .none, .null => true
  | .bool b, .bool b' => b = b'
  | .int n, b => b.number? = some (realOf (n : ℚ))
  | .float x, b => b.number? = some (realOf x)
  | .str s, .string s' => s = s'
  | .datetime t, .date t' => t = t'
  | _, _ => false

/-- `{name: x}` on what a document has at the name: a missing field counts as null, and an array
is equal to what one of its items is equal to. -/
def equalsStored (x : Scalar) : Option Bson → Bool
  | none => x = .none
  | some (.array items) => items.any (equalsScalar x)
  | some b => equalsScalar x b

section
variable (others : FieldTest → Option Bson → Bool)

/-- `others` is the outcome of the orderings and of the regular expressions. -/
def keepsField (stored : Option Bson) : FieldTest → Bool
  | .compare .eq x => equalsStored x stored
  | .compare .neq x => !equalsStored x stored
  | .isIn xs => xs.any fun x => equalsStored x stored
  | .notIn xs => !xs.any fun x => equalsStored x stored
  | .exists => stored.isSome
  | test => others test stored

mutual

/-- The outcome of a filter whose paths are names of top-level fields. -/
def keeps (doc : BsonDocument) : Filter → Bool
  | .all => true
  | .equals path x => equalsStored x (doc.get? path)
  | .tests path ts => ts.all (keepsField others (doc.get? path))
  | .and fs => keepsAll doc fs
  | .or fs => keepsAny doc fs
  | .nor fs => !keepsAny doc fs

def keepsAll (doc : BsonDocument) : List Filter → Bool
  | [] => true
  | f :: fs => keeps doc f && keepsAll doc fs

def keepsAny (doc : BsonDocument) : List Filter → Bool
  | [] => false
  | f :: fs => keeps doc f || keepsAny doc fs

end

end

/-- The filter of a command that has one. -/
def filter? : Command → Option Filter
  | .insertMany _ _ => none
  | .updateMany _ filter _ | .deleteMany _ filter | .find _ filter .. => some filter

section
variable (clock : Clock) (others : FieldTest → Option Bson → Bool) (doc : BsonDocument)

/-- The query's filter can be sent and is true of the document. -/
def Selects (q : BoundAltrQueryIR) : Prop :=
  ∃ p f, lower clock q = .ok p ∧ filter? p.command = some f ∧ (∀ x ∈ f.scalars, Encodes x) ∧
    keeps others doc f = true

/-- `field = l` and `field != l` are type-correct, and a GET, UPDATE or DELETE with the first
selects the document and one with the second does not. -/
def QueriedBack (col : BoundFieldPath) (l : LiteralValue) : Prop :=
  let leaf (op : ComparisonOperator) : BoundFieldExpression := ⟨col, .comparison op, .literal l⟩
  ((leaf .eq).TypeChecked ∧ (leaf .neq).TypeChecked) ∧
    ∀ q : BoundAltrQueryIR, q.operation ≠ .create →
      (q.where_ = some (.atom (leaf .eq)) → Selects clock others doc q) ∧
      (q.where_ = some (.atom (leaf .neq)) → ¬ Selects clock others doc q)

end

/-! ### The filters of the two comparisons -/

section
variable {clock : Clock} {others : FieldTest → Option Bson → Bool} {doc : BsonDocument}

theorem selects_iff {q : BoundAltrQueryIR} (hop : q.operation ≠ .create) {e : BoundExpression}
    (he : q.where_ = some e) {f : Filter} (hf : lowerExpression clock e = .ok f) :
    Selects clock others doc q ↔ (∀ x ∈ f.scalars, Encodes x) ∧ keeps others doc f = true := by
  have hcommand : ∃ c, lowerCommand clock q = .ok c ∧ filter? c = some f := by
    have hwhere : lowerWhere clock q.where_ = .ok f := by rw [he]; exact hf
    unfold lowerCommand
    cases hq : q.operation with
    | create => exact absurd hq hop
    | _ =>
      rw [hwhere]
      exact ⟨_, rfl, rfl⟩
  obtain ⟨c, hc, hfilter⟩ := hcommand
  have hlower : lower clock q = .ok ⟨c, q.sourceId, q.sourceName⟩ := by
    rw [lower, hc]
    rfl
  constructor
  · rintro ⟨p, f', hp, hf', h⟩
    cases hlower.symm.trans hp
    cases hfilter.symm.trans hf'
    exact h
  · exact fun h => ⟨_, f, hlower, hfilter, h⟩

/-- No written value is a date or a time. -/
theorem WrittenAs.not_temporal {v : ResultValue} {l : LiteralValue} (h : WrittenAs v l) :
    ∀ t, l ≠ .temporal t := by
  cases h <;> exact nofun

theorem lowerExpression_eq {col : BoundFieldPath} {l : LiteralValue} (hl : ∀ t, l ≠ .temporal t) :
    lowerExpression clock (.atom ⟨col, .comparison .eq, .literal l⟩) =
      .ok (.equals col.fullPath (convertLiteralToParameter clock l)) := by
  cases l with
  | temporal t => exact absurd rfl (hl t)
  | _ => rfl

/-- `!=` keeps what `=` does not. -/
theorem lowerExpression_neq {col : BoundFieldPath} {l : LiteralValue} (hl : ∀ t, l ≠ .temporal t) :
    ∃ f, lowerExpression clock (.atom ⟨col, .comparison .neq, .literal l⟩) = .ok f ∧
      keeps others doc f = !equalsStored (convertLiteralToParameter clock l)
        (doc.get? col.fullPath) ∧
      (Encodes (convertLiteralToParameter clock l) → ∀ x ∈ f.scalars, Encodes x) := by
  have hdirect (x : Scalar) : keeps others doc (compareWith col.fullPath .neq x) =
      !equalsStored x (doc.get? col.fullPath) := by
    simp [compareWith, keeps, keepsField]
  have hscalars (x : Scalar) : Encodes x → ∀ y ∈ (compareWith col.fullPath .neq x).scalars,
      Encodes y := by
    simp [compareWith, Filter.scalars, FieldTest.scalars]
  cases l with
  | temporal t => exact absurd rfl (hl t)
  | null =>
    refine ⟨present col.fullPath, rfl, ?_, fun _ => ?_⟩
    · cases hget : doc.get? col.fullPath <;>
        simp [present, keeps, keepsField, hget, convertLiteralToParameter, equalsStored]
    · simp [present, Filter.scalars, FieldTest.scalars, Encodes]
  | _ => exact ⟨_, rfl, hdirect _, hscalars _⟩

/-- Only whether the parameter can be sent and is equal to what is stored counts. -/
theorem queriedBack_iff_found {col : BoundFieldPath} {l : LiteralValue}
    (hl : ∀ t, l ≠ .temporal t) (hchecked : ∀ op : ComparisonOperator, op.isOrdering = false →
      (⟨col, .comparison op, .literal l⟩ : BoundFieldExpression).TypeChecked) :
    QueriedBack clock others doc col l ↔ Encodes (convertLiteralToParameter clock l) ∧
      equalsStored (convertLiteralToParameter clock l) (doc.get? col.fullPath) = true := by
  have heq (q : BoundAltrQueryIR) (hop : q.operation ≠ .create)
      (hq : q.where_ = some (.atom ⟨col, .comparison .eq, .literal l⟩)) :
      Selects clock others doc q ↔ Encodes (convertLiteralToParameter clock l) ∧
        equalsStored (convertLiteralToParameter clock l) (doc.get? col.fullPath) = true := by
    rw [selects_iff hop hq (lowerExpression_eq hl)]
    simp [Filter.scalars, keeps]
  obtain ⟨f, hf, hkeeps, hscalars⟩ := @lowerExpression_neq clock others doc col l hl
  constructor
  · intro h
    let q : BoundAltrQueryIR :=
      { entity := ⟨"", "", "", none, []⟩,
        where_ := some (.atom ⟨col, .comparison .eq, .literal l⟩), sourceId := "", sourceName := "" }
    have hop : q.operation ≠ .create := by rintro ⟨⟩
    exact (heq q hop rfl).1 ((h.2 q hop).1 rfl)
  · intro h
    refine ⟨⟨hchecked .eq rfl, hchecked .neq rfl⟩, fun q hop => ⟨fun hq => (heq q hop hq).2 h, ?_⟩⟩
    intro hq hselects
    have hkept : keeps others doc f = true := ((selects_iff hop hq hf).1 hselects).2
    rw [hkeeps, h.2] at hkept
    cases hkept

end

/-! ### What is shown of a document -/

theorem get?_normalizeFields {name : String} {fields : List (String × Bson)}
    {out : List (String × ResultValue)} (h : normalizeFields fields = .ok out) :
    match Dict.get? fields name with
    | none => Dict.get? out name = none
    | some b => ∃ v, normalizeBsonValue b = .ok v ∧ Dict.get? out name = some v := by
  induction fields generalizing out with
  | nil =>
    cases h
    rfl
  | cons e fields ih =>
    obtain ⟨key, val⟩ := e
    rw [normalizeFields] at h
    simp only [bind_eq_ok, pure_eq_ok] at h
    obtain ⟨v, hv, rest, hrest, rfl⟩ := h
    by_cases hkey : key = name
    · simp [Dict.get?, hkey, hv]
    · simpa [Dict.get?, hkey] using ih hrest

/-- What is looked up by the last entry with a property. -/
theorem findSome?_of_find? {α β : Type*} {p : α → Bool} {f : α → β} {l : List α} {a : α}
    (h : l.find? p = some a) : (l.findSome? fun x => if p x then some (f x) else none) =
      some (f a) := by
  induction l with
  | nil => cases h
  | cons x l ih =>
    by_cases hx : p x = true
    · rw [List.find?_cons_of_pos hx] at h
      cases h
      simp [hx]
    · rw [List.find?_cons_of_neg hx] at h
      simpa [hx] using ih h

/-- A missing field is shown as None, any other as the normal form of what is stored. -/
theorem Shows.cases {pfs : List ProjectionField} {doc : BsonDocument} {name : String}
    {v : ResultValue} (h : Shows pfs doc name v) :
    (doc.get? name = none ∧ v = .none) ∨
      ∃ b, doc.get? name = some b ∧ normalizeBsonValue b = .ok v := by
  obtain ⟨row, column, hrow, hv, hshown⟩ := h
  simp only [findRow, bind_eq_ok, pure_eq_ok] at hrow
  obtain ⟨normalized, hnormalized, rfl⟩ := hrow
  have hget := @get?_normalizeFields name doc normalized hnormalized
  by_cases hpfs : pfs = []
  · rw [if_pos hpfs] at hshown hv
    subst hshown
    cases hdoc : doc.get? column with
    | none =>
      rw [hdoc] at hget
      cases hget.symm.trans hv
    | some b =>
      rw [hdoc] at hget
      obtain ⟨v', hb, hv'⟩ := hget
      cases hv'.symm.trans hv
      exact .inr ⟨b, rfl, hb⟩
  · rw [if_neg hpfs] at hshown hv
    obtain ⟨pf, hpf, hpath⟩ := hshown
    have hvalue : v = projectedValue [name] (.dict normalized) := by
      rw [Dict.get?_ofEntries, ← List.map_reverse, List.findSome?_map] at hv
      have hlast := findSome?_of_find? (f := fun pf : ProjectionField =>
        projectedValue pf.path (.dict normalized)) hpf
      simp only [decide_eq_true_eq] at hlast
      rw [← hpath]
      exact (Option.some.inj (hlast.symm.trans hv)).symm
    cases hdoc : doc.get? name with
    | none =>
      rw [hdoc] at hget
      refine .inl ⟨rfl, hvalue.trans ?_⟩
      simp [projectedValue, hget]
    | some b =>
      rw [hdoc] at hget
      obtain ⟨v', hb, hv'⟩ := hget
      refine .inr ⟨b, rfl, ?_⟩
      rw [hb, hvalue]
      simp [projectedValue, hv']

/-! ### The way back -/

/-- A double has exactly this value. -/
def IsBinary64 (x : Real64) : Prop := ∃ q : ℚ, x = realOf q ∧ PyFloat.ofRat q = q

/-- What is stored is of a type that the literal of what is shown for it stands for. -/
def StandsFor (l : LiteralValue) : Option Bson → Prop
  | some (.objectId _) | some (.timestamp _ _) | some (.binary _ _) | some (.code _)
  | some (.other _ _) => False
  | some (.decimal128 x) => match l with
    | .integer n => InInt64 n
    | _ => IsBinary64 x
  | _ => True

theorem realOf_inj {x y : PyFloat} : realOf x = realOf y ↔ x = y := by
  simp [realOf]

theorem inInt64_int (n : Int32) : InInt64 n.toInt := by
  have hlo := n.le_toInt
  have hhi := n.toInt_lt
  constructor <;> omega

theorem inInt64_long (n : Int64) : InInt64 n.toInt := ⟨n.le_toInt, n.toInt_lt⟩

/-- The parameter of a written value is equal to what is stored where the literal stands for it. -/
theorem equalsScalar_iff {clock : Clock} {b : Bson} {v : ResultValue} {l : LiteralValue}
    (hv : normalizeBsonValue b = .ok v) (hl : WrittenAs v l) :
    (Encodes (convertLiteralToParameter clock l) ∧
      equalsStored (convertLiteralToParameter clock l) (some b) = true) ↔
        StandsFor l (some b) := by
  cases b with
  | decimal128 x =>
    cases hv
    cases hl with
    | whole n =>
      simp [convertLiteralToParameter, Encodes, equalsStored, equalsScalar, Bson.number?, StandsFor]
    | decimal q hq =>
      have hbinary : IsBinary64 (realOf q) ↔ PyFloat.ofRat q = q := by
        refine ⟨?_, fun h => ⟨q, rfl, h⟩⟩
        rintro ⟨q', hq', h⟩
        obtain rfl := WithTop.coe_inj.1 (realOf_inj.1 hq')
        exact h
      simp [convertLiteralToParameter, Encodes, equalsStored, equalsScalar, Bson.number?, StandsFor,
        realOf_inj, hbinary, eq_comm]
  | binary subtype data =>
    rw [normalizeBsonValue] at hv
    split_ifs at hv <;> cases hv <;> cases hl
    simp [convertLiteralToParameter, equalsStored, equalsScalar, StandsFor]
  | document fields =>
    obtain ⟨out, -, rfl⟩ := map_eq_ok.1 hv
    cases hl
  | array items =>
    obtain ⟨out, -, rfl⟩ := map_eq_ok.1 hv
    cases hl
  | int n =>
    cases hv
    cases hl
    simp [convertLiteralToParameter, Encodes, equalsStored, equalsScalar, Bson.number?, StandsFor,
      inInt64_int]
  | long n =>
    cases hv
    cases hl
    simp [convertLiteralToParameter, Encodes, equalsStored, equalsScalar, Bson.number?, StandsFor,
      inInt64_long]
  | _ =>
    cases hv
    cases hl <;>
    simp [convertLiteralToParameter, Encodes, equalsStored, equalsScalar, Bson.number?, StandsFor]

/-! ### The type that discovery infers -/

/-- A top-level field that discovery infers from samples of a collection whose documents all hold
one BSON type there (or null, or nothing), of a category with literals of its own. -/
structure InferredField where
  databaseName : String
  collection : String
  stored : List BsonDocument
  samples : List BsonDocument
  type : BsonType
  field : FieldSchema
  sampled : samples ⊆ stored
  inferred : field ∈ (inferEntity databaseName (collection, samples)).fields
  allOfType : AllOfType stored field.name type
  observed : observedValues samples field.name ≠ []
  topLevel : '.' ∉ field.name.toList
  category : toLogicalCategory field.dataType ∈
    [LogicalTypeCategory.numeric, .string, .boolean]

namespace InferredField

variable (F : InferredField)

/-- The top-level field, as a query is bound to it. -/
def column : BoundFieldPath where
  path := ⟨F.field.name, []⟩
  dataType := F.field.dataType
  nativeType := F.field.nativeDataType
  nullable := F.field.nullable
  isPrimaryKey := F.field.isPrimaryKey

theorem fullPath_column : F.column.fullPath = F.field.name := by
  simp [column, BoundFieldPath.fullPath, FieldPath.fullPath, FieldPath.segments]

theorem dataType_eq :
    F.field.dataType = (mergeObservedTypes (observedTypes F.samples F.field.name)).1 := by
  have hne : F.samples ≠ [] := fun h => F.observed (by rw [h]; rfl)
  have hmem := F.inferred
  rw [inferEntity, if_neg hne] at hmem
  obtain ⟨path, -, hpath⟩ := List.mem_map.1 hmem
  rw [← hpath]
  rfl

theorem observedTypes_ne_nil : observedTypes F.samples F.field.name ≠ [] := by
  obtain ⟨b, hb⟩ := List.exists_mem_of_ne_nil _ F.observed
  exact List.ne_nil_of_mem (List.mem_dedup.2 (List.mem_map_of_mem hb))

theorem mem_observedTypes {t : StandardDataType × String}
    (h : t ∈ observedTypes F.samples F.field.name) :
    ∃ b, b.type = F.type ∧ t = mapBsonValueToStandard b := by
  obtain ⟨b, hb, rfl⟩ := List.mem_map.1 (List.mem_dedup.1 h)
  have htype : AllOfType F.samples F.field.name F.type := fun doc hdoc =>
    F.allOfType doc (F.sampled hdoc)
  exact ⟨b, type_of_mem_observedValues htype hb, rfl⟩

/-- Values of the field's type are of the category that was inferred, but for binary data. -/
theorem category_eq {b : Bson} (hb : b.type = F.type) (hbinary : b.type ≠ .binData) :
    toLogicalCategory F.field.dataType = toLogicalCategory (mapBsonValueToStandard b).1 := by
  have hsame : ∀ t ∈ observedTypes F.samples F.field.name, t = mapBsonValueToStandard b := by
    intro t ht
    obtain ⟨b', hb', rfl⟩ := F.mem_observedTypes ht
    exact (mapBsonValueToStandard_congr (hb.trans hb'.symm) hbinary).symm
  have hnodup : (observedTypes F.samples F.field.name).Nodup := List.nodup_dedup _
  rw [F.dataType_eq, mergeObservedTypes_of_forall hnodup F.observedTypes_ne_nil hsame]

theorem category_binary (h : F.type = .binData) :
    toLogicalCategory F.field.dataType = .string := by
  have hmerged := mergeObservedTypes_of_binary F.observedTypes_ne_nil fun t ht => by
    obtain ⟨b, hb, rfl⟩ := F.mem_observedTypes ht
    cases b <;> first | (cases hb.trans h; done) | skip
    simp only [mapBsonValueToStandard]
    split_ifs <;> simp
  have hcategory := F.category
  rw [← F.dataType_eq] at hmerged
  rcases hmerged with hstring | hunknown
  · exact hstring
  · simp [hunknown] at hcategory

/-- The literal of a value that is read from the field is of the field's category. -/
theorem category_of_writtenAs {b : Bson} {v : ResultValue} {l : LiteralValue}
    (hb : b.type = F.type) (hv : normalizeBsonValue b = .ok v) (hl : WrittenAs v l) :
    l = .null ∨ l.category? = some (toLogicalCategory F.field.dataType) := by
  cases b with
  | binary subtype data =>
    rw [F.category_binary hb.symm]
    rw [normalizeBsonValue] at hv
    split_ifs at hv <;> cases hv <;> cases hl
    exact .inr rfl
  | other typeName text =>
    have hcategory := F.category
    rw [F.category_eq hb (by rintro ⟨⟩)] at hcategory
    simp [mapBsonValueToStandard, toLogicalCategory] at hcategory
  | document fields =>
    obtain ⟨out, -, rfl⟩ := map_eq_ok.1 hv
    cases hl
  | array items =>
    obtain ⟨out, -, rfl⟩ := map_eq_ok.1 hv
    cases hl
  | null =>
    cases hv
    cases hl
    exact .inl rfl
  | _ =>
    rw [F.category_eq hb (by rintro ⟨⟩)]
    cases hv
    cases hl <;> exact .inr rfl

/-- A comparison by `=` or `!=` with NULL or a literal of the field's category is type-correct. -/
theorem typeChecked {op : ComparisonOperator} (hop : op.isOrdering = false) {l : LiteralValue}
    (hl : l = .null ∨ l.category? = some (toLogicalCategory F.field.dataType)) :
    (⟨F.column, .comparison op, .literal l⟩ : BoundFieldExpression).TypeChecked := by
  unfold BoundFieldExpression.TypeChecked validateFieldOperatorAndOperand
  by_cases hnull : l = .null
  · simp [hnull, validateNullOperand, hop]
  · have hcategory : l.category? = some F.column.logicalCategory := hl.resolve_left hnull
    have hknown : F.column.logicalCategory ≠ .unknown := by
      have := F.category
      intro h
      rw [show toLogicalCategory F.field.dataType = .unknown from h] at this
      simp at this
    have hdirect : validateDirectLiteral F.column l = .ok () := by
      refine requireCategory_eq_ok.2 fun c hc => ?_
      exact Option.some.inj ((Option.mem_def.1 hc).symm.trans hcategory)
    simp [hnull, hop, hknown, bind_eq_ok, validateComparisonOperand, hdirect,
      show F.column.path.isNested = false from rfl]

end InferredField

/-- For every field that discovery infers, every document and every value that a GET shows of
it, the literal that the value is written as finds the document again exactly when the value
is not of a type that comes out as another one, and when a decimal is a double's value (or an
integer of 64 bits, as which it is written). -/
theorem queriedBack_iff (clock : Clock) (others : FieldTest → Option Bson → Bool)
    (F : InferredField) {doc : BsonDocument} (hdoc : doc ∈ F.stored) {pfs : List ProjectionField}
    {v : ResultValue} (hshows : Shows pfs doc F.field.name v) {l : LiteralValue}
    (hl : WrittenAs v l) :
    QueriedBack clock others doc F.column l ↔ StandsFor l (doc.get? F.field.name) := by
  have hcategory : l = .null ∨ l.category? = some (toLogicalCategory F.field.dataType) := by
    rcases hshows.cases with ⟨-, rfl⟩ | ⟨b, hb, hv⟩
    · cases hl
      exact .inl rfl
    · rcases F.allOfType doc hdoc b (mem_traverse_of_get? hb) with rfl | htype
      · cases hv
        cases hl
        exact .inl rfl
      · exact F.category_of_writtenAs htype hv hl
  have hfound : (Encodes (convertLiteralToParameter clock l) ∧
      equalsStored (convertLiteralToParameter clock l) (doc.get? F.column.fullPath) = true) ↔
        StandsFor l (doc.get? F.field.name) := by
    rw [F.fullPath_column]
    rcases hshows.cases with ⟨hnone, rfl⟩ | ⟨b, hb, hv⟩
    · cases hl
      rw [hnone]
      simp [convertLiteralToParameter, Encodes, equalsStored, StandsFor]
    · rw [hb]
      exact equalsScalar_iff hv hl
  rw [← hfound]
  exact queriedBack_iff_found hl.not_temporal fun op hop => F.typeChecked hop hcategory

/-! ### A collection of one document -/

def visitorId : Vector UInt8 12 :=
  #v[0x50, 0x7f, 0x1f, 0x77, 0xbc, 0xf8, 0x6c, 0xd7, 0x99, 0x43, 0x90, 0x11]

def visitor : BsonDocument := [("_id", .objectId visitorId), ("name", .string "Ann")]

def visitorSchema : SourceSchema :=
  buildSourceSchemaFromMongodbSamples "src_mongo" "Visitors" "app" [("visitors", [visitor])]

/-- The field `_id`, as it is inferred. -/
def visitorIdField : InferredField where
  databaseName := "app"
  collection := "visitors"
  stored := [visitor]
  samples := [visitor]
  type := .objectId
  field := { name := "_id", dataType := .string, nativeDataType := "objectId", nullable := false,
             isPrimaryKey := true }
  sampled := List.Subset.refl _
  inferred := by decide +kernel
  allOfType := by
    intro doc hdoc b hb
    obtain rfl := List.mem_singleton.1 hdoc
    simp [visitor, traverseDocumentFields, nestedLevels, joinPath] at hb
    simp [hb, Bson.type]
  observed := by
    have hid : observedValues [visitor] "_id" = [.objectId visitorId] := rfl
    simp [hid]
  topLevel := by decide
  category := by decide

def nameField : InferredField where
  databaseName := "app"
  collection := "visitors"
  stored := [visitor]
  samples := [visitor]
  type := .string
  field := { name := "name", dataType := .string, nativeDataType := "string", nullable := false }
  sampled := List.Subset.refl _
  inferred := by decide +kernel
  allOfType := by
    intro doc hdoc b hb
    obtain rfl := List.mem_singleton.1 hdoc
    simp [visitor, traverseDocumentFields, nestedLevels, joinPath] at hb
    simp [hb, Bson.type]
  observed := by
    have hname : observedValues [visitor] "name" = [.string "Ann"] := rfl
    simp [hname]
  topLevel := by decide
  category := by decide

/-- `name = "Ann"` finds the visitor that is read with this name. -/
theorem queriedBack_name : QueriedBack .newYear (fun _ _ => false) visitor nameField.column
    (.string "Ann") := by
  have hshows : Shows [] visitor "name" (.str "Ann") := ⟨_, "name", rfl, rfl, rfl⟩
  exact (queriedBack_iff .newYear (fun _ _ => false) nameField (List.mem_singleton_self _) hshows
    (.str _)).2 trivial

/-- GET shows `_id` as a text of 24 digits, and `DELETE` with this text finds nothing. -/
theorem not_queriedBack_id :
    Shows [] visitor "_id" (.str "507f1f77bcf86cd799439011") ∧
      WrittenAs (.str "507f1f77bcf86cd799439011") (.string "507f1f77bcf86cd799439011") ∧
      AcceptedFrom .ascii "DELETE visitors WHERE \x7b _id = \"507f1f77bcf86cd799439011\" \x7d;"
        visitorSchema
        { operation := .delete, entity := boundEntity (inferEntity "app" ("visitors", [visitor])),
          where_ := some (.atom ⟨visitorIdField.column, .comparison .eq,
            .literal (.string "507f1f77bcf86cd799439011")⟩),
          sourceId := "src_mongo", sourceName := "Visitors" } ∧
      ¬ QueriedBack .newYear (fun _ _ => false) visitor visitorIdField.column
        (.string "507f1f77bcf86cd799439011") := by
  refine ⟨⟨_, "_id", rfl, rfl, rfl⟩, .str _, acceptedFrom_of_run (by decide +kernel), fun h => ?_⟩
  have hwritten : WrittenAs (.str "507f1f77bcf86cd799439011")
    (.string "507f1f77bcf86cd799439011") := .str _
  obtain ⟨-, hequal⟩ := (queriedBack_iff_found hwritten.not_temporal fun op hop =>
    visitorIdField.typeChecked hop (.inr rfl)).1 h
  cases hequal

end AltrStream.Connectors
