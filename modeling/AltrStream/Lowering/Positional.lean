import AltrStream.Lowering.SqlLowerer

/-! # The shared case analysis of the MySQL and SQLite lowerers

`lowering/mysql.py` and `lowering/sqlite.py` write the same `lower_field_expression`
up to notation and one name: for a compound constraint in an `=` set SQLite's copy
refers to a loop variable of another branch. `compound` is that branch.
-/
namespace AltrStream.Lowering.Positional
open Foundations Python QueryEngine Semantics

variable (style : ParameterStyle)
  (compound : BoundFieldPath → List ComparisonConstraint → LowerM Condition)

/-- A literal that is put in an `IN` list. -/
def isSimpleScalar (col : BoundFieldPath) : ValueSetElement → Bool
  | .literal .null => false
  | .literal l => !(col.isTimestampField && isDateOnlyLiteral l)
  | _ => false

/-- The parameter of a literal that stands in an `IN` list. -/
def lowerScalar : ValueSetElement → LowerM SqlOperand
  | .literal l => addParam (style.convertLiteralToParameter l)
  | _ => addParam .none

/-- The predicate of an element under `=` that is not in the `IN` list, if there is a branch. -/
def lowerEqualityElement (col : BoundFieldPath) : ValueSetElement → LowerM (Option Condition)
  | .range r => do return some (← style.lowerBetween col r)
  | .constraint c => do return some (← style.lowerCompare col c.operator c.value)
  | .compound cs => do return some (← compound col cs)
  | .literal l =>
    match dateOnly? l with
    | some d => if col.isTimestampField then do return some (← style.lowerDay col d) else return none
    | none => return none

def lowerInequalityElement (col : BoundFieldPath) : ValueSetElement → LowerM (Option Condition)
  | .range r => do
    let lo ← style.lowerLiteral r.start
    let hi ← style.lowerLiteral r.stop
    return some (.notBetween col lo hi)
  | .constraint c => do return some (← style.lowerCompare col (invertOperator c.operator) c.value)
  | .compound cs => do
    let preds ← cs.mapM fun c => style.lowerCompare col (invertOperator c.operator) c.value
    return some (.group (.joinOr preds))
  | .literal l =>
    match dateOnly? l with
    | some d =>
      if col.isTimestampField then do
        let (p₁, p₂) ← style.lowerDayBounds d
        return some (.group (.or (.compare col .lt p₁) (.compare col .gte p₂)))
      else return none
    | none => return none

/-- `[make(params)]` if any element is a simple scalar. -/
def lowerScalars (col : BoundFieldPath) (make : List SqlOperand → Condition)
    (nonNull : List ValueSetElement) : LowerM (List Condition) :=
  match nonNull.filter (isSimpleScalar col) with
  | [] => return []
  | scalars => do return [make (← scalars.mapM (lowerScalar style))]

def lowerEqualitySet (col : BoundFieldPath) (elements : List ValueSetElement) :
    LowerM Condition := do
  let nonNull := elements.filter (!·.isNull)
  let nullTest := if elements.any (·.isNull) then [Condition.isNull col] else []
  let scalars ← lowerScalars style col (.isIn col) nonNull
  let others ← (nonNull.filter (!isSimpleScalar col ·)).mapM
    (lowerEqualityElement style compound col)
  return bracketOr (nullTest ++ scalars ++ others.filterMap id)

def lowerInequalitySet (col : BoundFieldPath) (elements : List ValueSetElement) :
    LowerM Condition := do
  let nonNull := elements.filter (!·.isNull)
  let hasNull := elements.any (·.isNull)
  let nullTest := if hasNull then [Condition.isNotNull col] else []
  let scalars ← lowerScalars style col (.notIn col) nonNull
  let others ← (nonNull.filter (!isSimpleScalar col ·)).mapM (lowerInequalityElement style col)
  let conjunction := bracketAnd (nullTest ++ scalars ++ others.filterMap id)
  if hasNull then return conjunction else return .group (.or conjunction (.isNull col))

/-- An operand that has no branch of its own. -/
def lowerDirect (col : BoundFieldPath) (op : ComparisonOperator) (operand : Operand) :
    LowerM Condition := do
  let p ← style.lowerOperand operand
  if op = .neq then return .group (.or (.compare col .neq p) (.isNull col))
  else return .compare col op p

def lowerDirectLiteral (col : BoundFieldPath) (op : ComparisonOperator) (l : LiteralValue) :
    LowerM Condition :=
  match l, op with
  | .null, op => return lowerNullTest col op
  | l, .eq => style.lowerEquals col l
  | l, op => lowerDirect style col op (.literal l)

def lowerComparison (col : BoundFieldPath) (op : ComparisonOperator) : Operand → LowerM Condition
  | .literal l => lowerDirectLiteral style col op l
  | .range r => style.lowerBetween col r
  | .compound cs => style.lowerCompound col cs
  | .constraint c => style.lowerConstraint col c
  | .valueSet elements =>
    match op with
    | .eq => lowerEqualitySet style compound col elements
    | .neq => lowerInequalitySet style col elements
    | _ => lowerDirect style col op (.valueSet elements)

def lowerFieldExpression (expr : BoundFieldExpression) : LowerM Condition :=
  match expr.operator with
  | .string op => style.lowerStringOperator expr.field op expr.operand
  | .comparison op => lowerComparison style compound expr.field op expr.operand

end AltrStream.Lowering.Positional

/-! ## The MySQL lowerer

`lowering/mysql.py`.
-/
namespace AltrStream.Lowering.MySQL
open Foundations Python QueryEngine Semantics

def quoteIdent (name : String) : String :=
  let doubled := String.ofList (replaceChar '\x60' ['\x60', '\x60'] name.toList)
  s!"\x60{doubled}\x60"

def nestedPath (root : String) (keys : List String) : String :=
  let path := ".".intercalate keys
  s!"JSON_UNQUOTE(JSON_EXTRACT({root}, '$.{path}'))"

def dialect : SqlDialect where
  name := "mysql"
  quoteIdent := quoteIdent
  nestedPath := nestedPath
  placeholder := fun _ => "%s"
  current := fun
    | .today => "CURDATE()"
    | .now => "NOW()"
  likeEscape := "'\\\\'"
  returning := ""

def convertLiteralToParameter : LiteralValue → Scalar
  | .temporal (.value d) => .str d.isoformat
  | .temporal (.keyword _) => .none
  | .null => .none
  | .boolean b => .bool b
  | .integer n => .int n
  | .float x => .float x
  | .string s => .str s

def style : ParameterStyle where
  convertLiteralToParameter := convertLiteralToParameter
  dayBound := fun t => .str t.isoformat

def lowerFieldExpression : BoundFieldExpression → LowerM Condition :=
  Positional.lowerFieldExpression style style.lowerCompound

/-- The namespace is written unless it is empty or `default` in any case. No letter
outside ASCII has a lower-case form among the letters of `default`. -/
def targetTable (entity : BoundEntity) : String :=
  if entity.namespace_ = "" ∨ entity.namespace_.toList.map Char.toLower = "default".toList then
    quoteIdent entity.name
  else s!"{quoteIdent entity.namespace_}.{quoteIdent entity.name}"

def lowerer : SqlLowerer where
  dialect := dialect
  style := style
  targetTable := targetTable
  lowerFieldExpression := lowerFieldExpression
  nullOrder := fun _ => ""

def lower : BoundAltrQueryIR → Except PyError PhysicalQueryResult := lowerer.lower

end AltrStream.Lowering.MySQL

/-! ## The SQLite lowerer

`lowering/sqlite.py`.
-/
namespace AltrStream.Lowering.SQLite
open Foundations Python QueryEngine Semantics

def quoteIdent (name : String) : String :=
  let doubled := String.ofList (replaceChar '"' ['"', '"'] name.toList)
  s!"\"{doubled}\""

def nestedPath (root : String) (keys : List String) : String :=
  let path := ".".intercalate keys
  s!"json_extract({root}, '$.{path}')"

def dialect : SqlDialect where
  name := "sqlite"
  quoteIdent := quoteIdent
  nestedPath := nestedPath
  placeholder := fun _ => "?"
  current := fun
    | .today => "DATE('now')"
    | .now => "DATETIME('now')"
  likeEscape := "'\\'"
  returning := " RETURNING *"

def convertLiteralToParameter : LiteralValue → Scalar
  | .temporal (.value d) => .str d.isoformat
  | .temporal (.keyword _) => .none
  | .null => .none
  | .boolean b => .int (if b then 1 else 0)
  | .integer n => .int n
  | .float x => .float x
  | .string s => .str s

def style : ParameterStyle where
  convertLiteralToParameter := convertLiteralToParameter
  dayBound := fun t => .str t.isoformat

def unboundElem : PyError where
  kind := .unboundLocalError
  message := "cannot access local variable 'elem' where it is not associated with a value"

/-- The branch for a compound constraint in an `=` set reads `elem.constraints`,
where the loop variable is `el` and `elem` has no value. -/
def lowerCompoundElement (_ : BoundFieldPath) (_ : List ComparisonConstraint) : LowerM Condition :=
  throw unboundElem

def lowerFieldExpression : BoundFieldExpression → LowerM Condition :=
  Positional.lowerFieldExpression style lowerCompoundElement

def targetTable (entity : BoundEntity) : String := quoteIdent entity.name

def lowerer : SqlLowerer where
  dialect := dialect
  style := style
  targetTable := targetTable
  lowerFieldExpression := lowerFieldExpression
  nullOrder := fun _ => ""

def lower : BoundAltrQueryIR → Except PyError PhysicalQueryResult := lowerer.lower

end AltrStream.Lowering.SQLite
