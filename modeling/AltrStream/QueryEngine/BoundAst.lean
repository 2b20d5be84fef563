import AltrStream.QueryEngine.Ast

/-! # Schema-bound queries

`domain/schema.py`'s data types and `domain/bound_ast.py`: the IR with every
field path resolved to the type and the properties of its column.
-/
namespace AltrStream.QueryEngine
open Foundations

/-- Normalised, vendor-neutral data types. -/
inductive StandardDataType where
  | string
  | integer
  | bigint
  | smallint
  | float
  | decimal
  | boolean
  | date
  | time
  | timestamp
  | timestamptz
  | json
  | array
  | binary
  | uuid
  | other
  deriving DecidableEq, Repr

def StandardDataType.value : StandardDataType → String
  | string => "STRING"
  | integer => "INTEGER"
  | bigint => "BIGINT"
  | smallint => "SMALLINT"
  | float => "FLOAT"
  | decimal => "DECIMAL"
  | boolean => "BOOLEAN"
  | date => "DATE"
  | time => "TIME"
  | timestamp => "TIMESTAMP"
  | timestamptz => "TIMESTAMPTZ"
  | json => "JSON"
  | array => "ARRAY"
  | binary => "BINARY"
  | uuid => "UUID"
  | other => "OTHER"

inductive LogicalTypeCategory where
  | numeric
  | string
  | boolean
  | temporal
  | unknown
  deriving DecidableEq, Repr

def LogicalTypeCategory.value : LogicalTypeCategory → String
  | numeric => "NUMERIC"
  | string => "STRING"
  | boolean => "BOOLEAN"
  | temporal => "TEMPORAL"
  | unknown => "UNKNOWN"

/-- `to_logical_category` -/
def toLogicalCategory : StandardDataType → LogicalTypeCategory
  | .integer | .bigint | .smallint | .float | .decimal => .numeric
  | .string | .uuid => .string
  | .boolean => .boolean
  | .date | .time | .timestamp | .timestamptz => .temporal
  | _ => .unknown

/-- A resolved field path. The source stores the logical category beside the data
type; the binder always derives it, so here it is computed. -/
structure BoundFieldPath where
  path : FieldPath
  dataType : StandardDataType
  nativeType : String
  nullable : Bool := true
  isPrimaryKey : Bool := false
  deriving DecidableEq, Repr

def BoundFieldPath.logicalCategory (field : BoundFieldPath) : LogicalTypeCategory :=
  toLogicalCategory field.dataType

/-- `data_type in (StandardDataType.TIMESTAMP, StandardDataType.TIMESTAMPTZ)` -/
def BoundFieldPath.isTimestampField (field : BoundFieldPath) : Bool :=
  match field.dataType with
  | .timestamp | .timestamptz => true
  | _ => false

def BoundFieldPath.isTemporal (field : BoundFieldPath) : Bool := field.logicalCategory = .temporal

theorem BoundFieldPath.isTemporal_of_isTimestampField {field : BoundFieldPath}
    (h : field.isTimestampField = true) : field.isTemporal = true := by
  obtain ⟨path, dataType, _, _, _⟩ := field
  cases dataType <;> first | rfl | cases h

structure BoundFieldSelection where
  field : BoundFieldPath
  alias_ : Option String
  deriving DecidableEq, Repr

structure BoundMutationAssignment where
  field : BoundFieldPath
  value : LiteralValue
  deriving DecidableEq

structure BoundCreateRecord where
  assignments : List BoundMutationAssignment
  deriving DecidableEq

structure BoundEntity where
  name : String
  namespace_ : String := "default"
  entityType : String := "TABLE"
  comment : Option String := none
  primaryKey : List String := []
  deriving DecidableEq, Repr

structure BoundFieldExpression where
  field : BoundFieldPath
  operator : Operator
  operand : Operand
  deriving DecidableEq

abbrev BoundExpression := Formula BoundFieldExpression

structure BoundSortClause where
  field : BoundFieldPath
  direction : SortDirection := .asc
  deriving DecidableEq, Repr

structure BoundRankingClause where
  direction : RankingDirection
  count : ℤ
  field : BoundFieldPath
  deriving DecidableEq, Repr

/-- A schema-bound and type-validated AltrQL query. -/
structure BoundAltrQueryIR where
  operation : QueryOperation := .read
  entity : BoundEntity
  projection : List BoundFieldSelection := []
  where_ : Option BoundExpression := none
  assignments : List BoundMutationAssignment := []
  records : List BoundCreateRecord := []
  sort : List BoundSortClause := []
  ranking : Option BoundRankingClause := none
  limit : Option ℤ := none
  offset : Option ℤ := none
  sourceId : String
  sourceName : String
  deriving DecidableEq

def BoundAltrQueryIR.isWildcardProjection (q : BoundAltrQueryIR) : Bool := q.projection.isEmpty

/-! ## Mutation classification

`classification/classifier.py`: which queries need a confirmation.
-/

inductive MutationScope where
  | notApplicable
  | constrained
  | mass
  deriving DecidableEq, Repr

structure MutationClassification where
  operation : QueryOperation
  mutationScope : MutationScope
  requiresConfirmation : Bool
  entity : String
  description : String
  deriving DecidableEq, Repr

/-- UPDATE and DELETE are classified alike, by the presence of a WHERE clause. -/
def classifyMutation (query : BoundAltrQueryIR) : MutationClassification :=
  let operation := query.operation
  let entity := query.entity.name
  match query.where_ with
  | none =>
    ⟨operation, .mass, true, entity,
      s!"Mass {operation.value} on entity '{entity}' without WHERE clause."⟩
  | some _ =>
    ⟨operation, .constrained, false, entity,
      s!"Constrained {operation.value} on entity '{entity}' with WHERE filter."⟩

def classifyQuery (query : BoundAltrQueryIR) : MutationClassification :=
  let entity := query.entity.name
  match query.operation with
  | .read => ⟨.read, .notApplicable, false, entity, s!"Read query on entity '{entity}'."⟩
  | .create => ⟨.create, .notApplicable, false, entity, s!"Create record on entity '{entity}'."⟩
  | .update | .delete => classifyMutation query

/-- A mutation that runs unconfirmed has a WHERE tree. -/
theorem where_of_not_requiresConfirmation {query : BoundAltrQueryIR}
    (hop : query.operation = .update ∨ query.operation = .delete)
    (h : (classifyQuery query).requiresConfirmation = false) : ∃ e, query.where_ = some e := by
  have hmutation : classifyQuery query = classifyMutation query := by
    rcases hop with hop | hop <;> simp [classifyQuery, hop]
  rw [hmutation] at h
  cases hw : query.where_ with
  | none => simp [classifyMutation, hw] at h
  | some e => exact ⟨e, rfl⟩

end AltrStream.QueryEngine
