import AltrStream.Lowering.SqlLowerer

/-! # The PostgreSQL lowerer

`lowering/postgres.py`. Value sets are lowered element by element unless every
element is a plain literal.
-/
namespace AltrStream.Lowering.PostgreSQL
open Foundations Python QueryEngine Semantics

def quoteIdent (name : String) : String := s!"\"{name}\""

/-- `root->'k1'->>'k2'` -/
def nestedPath (root : String) (keys : List String) : String :=
  let chain := keys.dropLast.map fun k => s!"->'{k}'"
  let last := keys.getLastD ""
  s!"{root}{String.join chain}->>'{last}'"

def dialect : SqlDialect where
  name := "postgresql"
  quoteIdent := quoteIdent
  nestedPath := nestedPath
  placeholder := fun i => s!"${i}"
  current := fun
    | .today => "CURRENT_DATE"
    | .now => "CURRENT_TIMESTAMP"
  likeEscape := "'\\'"
  returning := " RETURNING *"

def convertLiteralToParameter : LiteralValue → Scalar
  | .temporal (.value d) => .date d
  | .temporal (.keyword _) => .none
  | .null => .none
  | .integer n => .int n
  | .float x => .float x
  | .string s => .str s
  | .boolean b => .bool b

def style : ParameterStyle where
  convertLiteralToParameter := convertLiteralToParameter
  dayBound := .datetime

/-- A literal that can stand in an `IN` list. -/
def isSimple : ValueSetElement → Bool
  | .literal (.temporal (.keyword _)) | .literal .null => false
  | .literal _ => true
  | _ => false

def isDateOnlyElement : ValueSetElement → Bool
  | .literal l => isDateOnlyLiteral l
  | _ => false

def lowerEqualityElement (col : BoundFieldPath) : ValueSetElement → LowerM Condition
  | .literal .null => return .isNull col
  | .range r => style.lowerBetween col r
  | .constraint c =>
    match c.value, c.operator with
    | .null, op => return lowerNullTest col op
    | l, .eq => style.lowerEquals col l
    | l, op => style.lowerCompare col op l
  | .compound cs => style.lowerCompound col cs
  | .literal l => style.lowerEquals col l

/-- The predicate of an element under `!=`, if there is one: a compound constraint
and an ordering against NULL have no branch and add nothing. -/
def lowerInequalityElement (col : BoundFieldPath) : ValueSetElement → LowerM (Option Condition)
  | .literal .null => return some (.isNotNull col)
  | .range r => do
    let lo ← style.lowerLiteral r.start
    let hi ← style.lowerLiteral r.stop
    return some (.group (.or (.or (.compare col .lt lo) (.compare col .gt hi)) (.isNull col)))
  | .constraint c =>
    match c.value, c.operator with
    | .null, .eq => return some (.isNotNull col)
    | .null, .neq => return some (.isNull col)
    | .null, _ => return none
    | l, op => do
      let pred ← style.lowerCompare col (invertOperator op) l
      return some (.group (.or pred (.isNull col)))
  | .compound _ => return none
  | .literal l => do
    let pred ← style.lowerCompare col .neq l
    return some (.group (.or pred (.isNull col)))

/-- Every element that is not NULL can stand in an `IN` list, and no date has to
be read as a day. -/
def allSimple (col : BoundFieldPath) (elements : List ValueSetElement) : Bool :=
  elements.all isSimple && !(col.isTimestampField && elements.any isDateOnlyElement)

def lowerEqualitySet (col : BoundFieldPath) (elements : List ValueSetElement) :
    LowerM Condition := do
  let nonNull := elements.filter (!·.isNull)
  match allSimple col nonNull, elements.any (·.isNull), nonNull with
  | true, true, [] => return .isNull col
  | true, true, [e] => do
    return .group (.or (.compare col .eq (← style.lowerElement e)) (.isNull col))
  | true, true, es => do
    return .group (.or (.isIn col (← es.mapM style.lowerElement)) (.isNull col))
  | true, false, e :: es => do return .isIn col (← (e :: es).mapM style.lowerElement)
  | _, _, _ => do return anyOf (← elements.mapM (lowerEqualityElement col))

def lowerInequalitySet (col : BoundFieldPath) (elements : List ValueSetElement) :
    LowerM Condition := do
  let nonNull := elements.filter (!·.isNull)
  match allSimple col nonNull, elements.any (·.isNull), nonNull with
  | true, true, [] => return .isNotNull col
  | true, true, [e] => do
    return .group (.and (.compare col .neq (← style.lowerElement e)) (.isNotNull col))
  | true, true, es => do
    return .group (.and (.notIn col (← es.mapM style.lowerElement)) (.isNotNull col))
  | true, false, e :: es => do
    return .group (.or (.notIn col (← (e :: es).mapM style.lowerElement)) (.isNull col))
  | _, _, _ => do
    return allOf ((← elements.mapM (lowerInequalityElement col)).filterMap id)

/-- A literal as the whole operand. Only literals that are not temporal get
`OR col IS NULL` under `!=`. -/
def lowerDirectLiteral (col : BoundFieldPath) (op : ComparisonOperator) (l : LiteralValue) :
    LowerM Condition :=
  match l, op with
  | .null, op => return lowerNullTest col op
  | l, .eq => style.lowerEquals col l
  | .temporal t, op => style.lowerCompare col op (.temporal t)
  | l, .neq => do return .group (.or (← style.lowerCompare col .neq l) (.isNull col))
  | l, op => style.lowerCompare col op l

def lowerComparison (col : BoundFieldPath) (op : ComparisonOperator) : Operand → LowerM Condition
  | .literal l => lowerDirectLiteral col op l
  | .range r => style.lowerBetween col r
  | .compound cs => style.lowerCompound col cs
  | .constraint c => style.lowerConstraint col c
  | .valueSet elements =>
    match op with
    | .eq => lowerEqualitySet col elements
    | .neq => lowerInequalitySet col elements
    | _ => do return .compare col .eq (← style.lowerOperand (.valueSet elements))

def lowerFieldExpression (expr : BoundFieldExpression) : LowerM Condition :=
  match expr.operator with
  | .string op => style.lowerStringOperator expr.field op expr.operand
  | .comparison op => lowerComparison expr.field op expr.operand

def targetTable (entity : BoundEntity) : String :=
  if entity.namespace_ = "" then quoteIdent entity.name
  else s!"{quoteIdent entity.namespace_}.{quoteIdent entity.name}"

def nullOrder : SortDirection → String
  | .asc => " NULLS FIRST"
  | .desc => " NULLS LAST"

def lowerer : SqlLowerer where
  dialect := dialect
  style := style
  targetTable := targetTable
  lowerFieldExpression := lowerFieldExpression
  nullOrder := nullOrder

def lower : BoundAltrQueryIR → Except PyError PhysicalQueryResult := lowerer.lower

end AltrStream.Lowering.PostgreSQL
