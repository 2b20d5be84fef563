import AltrStream.Foundations.Dict
import AltrStream.Lowering.SqlLowerer
import AltrStream.QueryEngine.TypeValidator

/-! # The MongoDB lowerer

`lowering/mongodb.py`: filter documents and command specifications in place of
SQL text. A filter dictionary that holds operators of one field is the list of
its tests, so an operator that is written twice is kept once.
-/
namespace AltrStream.Lowering.MongoDB
open Foundations Python QueryEngine Semantics

/-- An entry of the dictionary of operators of one field. -/
inductive FieldTest where
  /-- `$eq`, `$ne`, `$gt`, `$gte`, `$lt` or `$lte` -/
  | compare (op : ComparisonOperator) (value : Scalar)
  | isIn (values : List Scalar)
  | notIn (values : List Scalar)
  /-- `$exists: True` -/
  | exists
  | regex (pattern : String)
  /-- `$not: {$regex: ...}` -/
  | notRegex (pattern : String)
  deriving DecidableEq

inductive Filter where
  /-- `{}` -/
  | all
  /-- `{path: value}` -/
  | equals (path : String) (value : Scalar)
  /-- `{path: {...}}` -/
  | tests (path : String) (tests : List FieldTest)
  | and (filters : List Filter)
  | or (filters : List Filter)
  | nor (filters : List Filter)

/-- The characters that `re.escape` puts a backslash in front of. -/
def specialChars : List Char :=
  ['(', ')', '[', ']', '\x7b', '\x7d', '?', '*', '+', '-', '|', '^', '$', '\\', '.', '&', '~', '#',
    ' ', '\t', '\n', '\r', '\x0b', '\x0c']

/-- `re.escape` -/
def reEscape (s : String) : String :=
  String.ofList (s.toList.flatMap fun c => if c ∈ specialChars then ['\\', c] else [c])

section
variable (clock : Clock)

/-- Keywords are replaced by the time at which the query is lowered. -/
def convertLiteralToParameter : LiteralValue → Scalar
  | .temporal (.keyword .today) => .datetime (.ofDate clock.today)
  | .temporal (.keyword .now) => .datetime clock.now
  | .temporal (.value d) => .date d
  | .null => .none
  | .boolean b => .bool b
  | .integer n => .int n
  | .float x => .float x
  | .string s => .str s

/-- `_parse_date_only_range` -/
def parseDateOnlyRange (d : Date) : Except PyError (DateTime × DateTime) :=
  match (DateTime.ofDate d).addDay? with
  | some next => .ok (.ofDate d, next)
  | none => .error dateOverflow

/-- `{path: {op: value}}` -/
def compareWith (path : String) (op : ComparisonOperator) (value : Scalar) : Filter :=
  .tests path [.compare op value]

/-- `{path: {"$ne": None, "$exists": True}}` -/
def present (path : String) : Filter := .tests path [.compare .neq .none, .exists]

/-- The only filter, or all of them under an operator. -/
def combine (join : List Filter → Filter) : List Filter → Filter
  | [filter] => filter
  | filters => join filters

/-- `{path: {"$gte": start, "$lt": end}}` over the day of a date. -/
def lowerDay (path : String) (d : Date) : Except PyError Filter := do
  let (startDt, endDt) ← parseDateOnlyRange d
  return .tests path [.compare .gte (.datetime startDt), .compare .lt (.datetime endDt)]

/-- `{"$or": [{path: {"$lt": start}}, {path: {"$gte": end}}]}` -/
def lowerOutsideDay (path : String) (d : Date) : Except PyError Filter := do
  let (startDt, endDt) ← parseDateOnlyRange d
  return .or [compareWith path .lt (.datetime startDt), compareWith path .gte (.datetime endDt)]

/-- `{path: {"$gte": start, "$lte": end}}` -/
def lowerBetween (path : String) (r : Range) : Filter :=
  .tests path [.compare .gte (convertLiteralToParameter clock r.start),
    .compare .lte (convertLiteralToParameter clock r.stop)]

/-- `{"$lt": start}` and `{"$gt": end}`, as two filters. -/
def lowerOutside (path : String) (r : Range) : List Filter :=
  [compareWith path .lt (convertLiteralToParameter clock r.start),
    compareWith path .gt (convertLiteralToParameter clock r.stop)]

/-- `{op_map[c.operator]: value for c in constraints}`: of the constraints with one
operator the last is kept, at the place of the first. -/
def constraintDict (cs : List ComparisonConstraint) : Dict ComparisonOperator LiteralValue :=
  Dict.ofEntries (cs.map fun c => (c.operator, c.value))

def lowerCompound (path : String) (cs : List ComparisonConstraint) : Filter :=
  .tests path ((constraintDict cs).map fun e =>
    .compare e.1 (convertLiteralToParameter clock e.2))

/-- A constraint that compares with NULL and stands alone. -/
def lowerNullTest (path : String) : ComparisonOperator → Filter
  | .eq => .equals path .none
  | .neq => present path
  | op => compareWith path op .none

/-- `= literal` as an operand of its own. -/
def lowerEquals (col : BoundFieldPath) (l : LiteralValue) : Except PyError Filter :=
  match dateOnly? l with
  | some d =>
    if col.isTimestampField then lowerDay col.fullPath d
    else .ok (.equals col.fullPath (convertLiteralToParameter clock l))
  | none => .ok (.equals col.fullPath (convertLiteralToParameter clock l))

def lowerConstraint (col : BoundFieldPath) (c : ComparisonConstraint) : Except PyError Filter :=
  match c.value, c.operator with
  | .null, op => .ok (lowerNullTest col.fullPath op)
  | l, .eq => lowerEquals clock col l
  | l, op => .ok (compareWith col.fullPath op (convertLiteralToParameter clock l))

/-! ### Value sets -/

/-- A literal that is not a date to be read as a day. -/
def isSimpleScalar (col : BoundFieldPath) : ValueSetElement → Bool
  | .literal .null => false
  | .literal l => !(col.isTimestampField && isDateOnlyLiteral l)
  | _ => false

def scalarOf : ValueSetElement → Scalar
  | .literal l => convertLiteralToParameter clock l
  | _ => .none

/-- The filter of an element under `=` that is no simple scalar, if there is a branch. -/
def lowerEqualityElement (col : BoundFieldPath) :
    ValueSetElement → Except PyError (Option Filter)
  | .range r => .ok (some (lowerBetween clock col.fullPath r))
  | .constraint c =>
    .ok (some (compareWith col.fullPath c.operator (convertLiteralToParameter clock c.value)))
  | .compound cs => .ok (some (lowerCompound clock col.fullPath cs))
  | .literal l =>
    match dateOnly? l with
    | some d => if col.isTimestampField then some <$> lowerDay col.fullPath d else .ok none
    | none => .ok none

def lowerInequalityElement (col : BoundFieldPath) :
    ValueSetElement → Except PyError (Option Filter)
  | .range r => .ok (some (.or (lowerOutside clock col.fullPath r)))
  | .constraint c => .ok (some (compareWith col.fullPath (invertOperator c.operator)
      (convertLiteralToParameter clock c.value)))
  | .compound cs => .ok (some (.or (cs.map fun c =>
      compareWith col.fullPath (invertOperator c.operator) (convertLiteralToParameter clock c.value))))
  | .literal l =>
    match dateOnly? l with
    | some d => if col.isTimestampField then some <$> lowerOutsideDay col.fullPath d else .ok none
    | none => .ok none

/-- The filter of the simple scalars, if there are any. -/
def lowerScalars (one : Scalar → Filter) (many : List Scalar → Filter) : List ValueSetElement →
    List Filter
  | [] => []
  | [e] => [one (scalarOf clock e)]
  | es => [many (es.map (scalarOf clock))]

def lowerEqualitySet (col : BoundFieldPath) (elements : List ValueSetElement) :
    Except PyError Filter := do
  let path := col.fullPath
  let nonNull := elements.filter (!·.isNull)
  let nullTest := if elements.any (·.isNull) then [Filter.equals path .none] else []
  let scalars := lowerScalars clock (.equals path) (fun vs => .tests path [.isIn vs])
    (nonNull.filter (isSimpleScalar col))
  let others ← (nonNull.filter (!isSimpleScalar col ·)).mapM (lowerEqualityElement clock col)
  let predicates := nullTest ++ scalars ++ others.filterMap id
  return if predicates.isEmpty then .all else combine .or predicates

def lowerInequalitySet (col : BoundFieldPath) (elements : List ValueSetElement) :
    Except PyError Filter := do
  let path := col.fullPath
  let nonNull := elements.filter (!·.isNull)
  let scalars := lowerScalars clock (compareWith path .neq) (fun vs => .tests path [.notIn vs])
    (nonNull.filter (isSimpleScalar col))
  let others ← (nonNull.filter (!isSimpleScalar col ·)).mapM (lowerInequalityElement clock col)
  let nullTest := if elements.any (·.isNull) then [present path] else []
  return combine .and (scalars ++ others.filterMap id ++ nullTest)

/-- An operand that has no branch of its own has no `value` either. -/
def scalarOfOperand : Operand → Scalar
  | .literal l => convertLiteralToParameter clock l
  | _ => .none

def lowerDirect (col : BoundFieldPath) (op : ComparisonOperator) (operand : Operand) : Filter :=
  compareWith col.fullPath op (scalarOfOperand clock operand)

def lowerComparison (col : BoundFieldPath) (op : ComparisonOperator) :
    Operand → Except PyError Filter
  | .literal .null => .ok (lowerNullTest col.fullPath op)
  | .literal l =>
    match op with
    | .eq => lowerEquals clock col l
    | op => .ok (lowerDirect clock col op (.literal l))
  | .range r =>
    match op with
    | .neq => .ok (.or (lowerOutside clock col.fullPath r ++ [.equals col.fullPath .none]))
    | _ => .ok (lowerBetween clock col.fullPath r)
  | .compound cs => .ok (lowerCompound clock col.fullPath cs)
  | .constraint c => lowerConstraint clock col c
  | .valueSet elements =>
    match op with
    | .eq => lowerEqualitySet clock col elements
    | .neq => lowerInequalitySet clock col elements
    | op => .ok (lowerDirect clock col op (.valueSet elements))

/-! ### String operators -/

def lowerHasElement (path : String) : ValueSetElement → Filter
  | .range r => .tests path [.compare .gte (.str (valueText r.start)),
      .compare .lte (.str (valueText r.stop))]
  | e => .tests path [.regex (reEscape (elementText e))]

def lowerNotHasElement (path : String) : ValueSetElement → Filter
  | .range r => .or [compareWith path .lt (.str (valueText r.start)),
      compareWith path .gt (.str (valueText r.stop))]
  | e => .tests path [.notRegex (reEscape (elementText e))]

def lowerHasSet (path : String) (elements : List ValueSetElement) : Filter :=
  let nullTest := if elements.any (·.isNull) then [Filter.equals path .none] else []
  let predicates := nullTest ++ (elements.filter (!·.isNull)).map (lowerHasElement path)
  if predicates.isEmpty then .all else combine .or predicates

def lowerNotHasSet (path : String) (elements : List ValueSetElement) : Filter :=
  let notLikes := (elements.filter (!·.isNull)).map (lowerNotHasElement path)
  if elements.any (·.isNull) then
    if notLikes.isEmpty then present path else .and (notLikes ++ [present path])
  else
    if notLikes.isEmpty then .equals path .none
    else .or [combine .and notLikes, .equals path .none]

def lowerStringOperator (path : String) (op : StringOperator) (operand : Operand) : Filter :=
  let text := reEscape (operandText operand)
  match op, operand with
  | .has, .valueSet elements => lowerHasSet path elements
  | .notHas, .valueSet elements => lowerNotHasSet path elements
  | .starts, _ => .tests path [.regex s!"^{text}"]
  | .ends, _ => .tests path [.regex s!"{text}$"]
  | .has, _ => .tests path [.regex text]
  | .notHas, _ => .or [.tests path [.notRegex text], .equals path .none]

/-! ### Expressions and commands -/

def lowerFieldExpression (expr : BoundFieldExpression) : Except PyError Filter :=
  match expr.operator with
  | .string op => .ok (lowerStringOperator expr.field.fullPath op expr.operand)
  | .comparison op => lowerComparison clock expr.field op expr.operand

def lowerExpression : BoundExpression → Except PyError Filter
  | .atom e => lowerFieldExpression clock e
  | .not e => do return .nor [← lowerExpression e]
  | .and l r => do return .and [← lowerExpression l, ← lowerExpression r]
  | .or l r => do return .or [← lowerExpression l, ← lowerExpression r]

def lowerWhere : Option BoundExpression → Except PyError Filter
  | some e => lowerExpression clock e
  | none => .ok .all

/-- `{a.field.path.full_path: value for a in assignments}` -/
def lowerAssignments (assignments : List BoundMutationAssignment) : Dict String Scalar :=
  Dict.ofEntries (assignments.map fun a =>
    (a.field.fullPath, convertLiteralToParameter clock a.value))

end

structure ProjectionField where
  path : List String
  alias_ : Option String
  name : String
  deriving DecidableEq

/-- The command that a connector carries out, with its specification. -/
inductive Command where
  | insertMany (collection : String) (documents : List (Dict String Scalar))
  | updateMany (collection : String) (filter : Filter) (set : Dict String Scalar)
  | deleteMany (collection : String) (filter : Filter)
  | find (collection : String) (filter : Filter) (projection : Option (Dict String ℕ))
      (projectionFields : List ProjectionField) (sort : List (String × ℤ)) (limit skip : Option ℤ)

structure PhysicalQuery where
  command : Command
  sourceId : String
  sourceName : String

/-- `{column: 1, ..., "_id": 0}`, where `_id` is only left out if it is not asked for. -/
def lowerProjection (projection : List BoundFieldSelection) : Dict String ℕ :=
  let columns := projection.map (·.field.fullPath)
  let selected : Dict String ℕ := Dict.ofEntries (columns.map fun c => (c, 1))
  if "_id" ∈ columns then selected else selected.set "_id" 0

def projectionField (sel : BoundFieldSelection) : ProjectionField where
  path := sel.field.path.segments
  alias_ := sel.alias_
  name := (sel.alias_.filter (· ≠ "")).getD sel.field.fullPath

def sortItems (query : BoundAltrQueryIR) : List (String × ℤ) :=
  let ranked := query.ranking.toList.map fun r =>
    (r.field.fullPath, if r.direction = .top then (-1 : ℤ) else 1)
  let sorted := query.sort.map fun s => (s.field.fullPath, if s.direction = .asc then (1 : ℤ) else -1)
  let byKey : List (String × ℤ) :=
    if query.entity.primaryKey.isEmpty then [("_id", 1)]
    else query.entity.primaryKey.map fun pk => (pk, 1)
  ranked ++ sorted ++ if query.ranking.isNone && query.sort.isEmpty then byKey else []

def lowerCommand (clock : Clock) (query : BoundAltrQueryIR) : Except PyError Command := do
  let collection := query.entity.name
  match query.operation with
  | .create =>
    return .insertMany collection
      ((recordsToCreate query).map fun rec => lowerAssignments clock rec.assignments)
  | .update =>
    return .updateMany collection (← lowerWhere clock query.where_)
      (lowerAssignments clock query.assignments)
  | .delete => return .deleteMany collection (← lowerWhere clock query.where_)
  | .read =>
    let filter ← lowerWhere clock query.where_
    let projected := !query.isWildcardProjection
    return .find collection filter
      (if projected then some (lowerProjection query.projection) else none)
      (if projected then query.projection.map projectionField else [])
      (sortItems query)
      ((query.ranking.map (·.count)).orElse fun _ => query.limit) query.offset

/-- `MongoDBLowerer.lower` -/
def lower (clock : Clock) (query : BoundAltrQueryIR) : Except PyError PhysicalQuery := do
  return ⟨← lowerCommand clock query, query.sourceId, query.sourceName⟩

end AltrStream.Lowering.MongoDB
