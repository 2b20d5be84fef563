import AltrStream.Lowering.Sql
import AltrStream.Python.Scalar

/-! # What the three SQL lowerers share

`lowering/postgres.py`, `lowering/mysql.py` and `lowering/sqlite.py` repeat the
same code for literals, string operators, bare constraints, the Boolean tree
and the statements. It is written once here, over the way a dialect binds
parameters and over the dialect's own lowering of field expressions.
-/
namespace AltrStream.Lowering
open Foundations Python QueryEngine Semantics

/-- Lowering appends parameters and may raise. -/
abbrev LowerM := Emit PyError Scalar

def addParam (value : Scalar) : LowerM SqlOperand := do return .param (← emit value)

/-! ### Literals -/

/-- The date of a literal for which `_is_date_only_literal` holds. -/
def dateOnly? : LiteralValue → Option Date
  | .temporal (.value d) => some d
  | _ => none

def isDateOnlyLiteral (l : LiteralValue) : Bool := (dateOnly? l).isSome

def invertOperator : ComparisonOperator → ComparisonOperator
  | .eq => .neq
  | .neq => .eq
  | .gt => .lte
  | .lt => .gte
  | .gte => .lt
  | .lte => .gt

/-- `s.replace(c, t)` for a single character `c`. -/
def replaceChar (c : Char) (t s : List Char) : List Char := s.flatMap fun x => if x = c then t else [x]

def escapeLikeOperand (value : String) : List Char :=
  replaceChar '_' ['\\', '_'] (replaceChar '%' ['\\', '%']
    (replaceChar '\\' ['\\', '\\'] value.toList))

/-- `str(getattr(literal, "value", ""))` -/
def valueText : LiteralValue → String
  | .string s => s
  | .integer n => toString n
  | .float x => x.str
  | .boolean b => if b then "True" else "False"
  | .null => ""
  | .temporal (.value d) => d.isoformat
  | .temporal (.keyword _) => "None"

/-- The text a string operator looks for. `validate_ir` lets only string literals
through, alone or in a set; the text of other objects is left out. -/
def operandText : Operand → String
  | .literal l => valueText l
  | _ => ""

def elementText : ValueSetElement → String
  | .literal l => valueText l
  | _ => ""

def dateOverflow : PyError := { kind := .overflowError, message := "date value out of range" }

/-- `_parse_date_only_range`: the start of the day and of the next one. -/
def parseDateOnlyRange (d : Date) : LowerM (DateTime × DateTime) :=
  match (DateTime.ofDate d).addDay? with
  | some next => return (.ofDate d, next)
  | none => throw dateOverflow

/-- A constraint that compares with NULL: `IS NULL`, `IS NOT NULL`, or a comparison with NULL. -/
def lowerNullTest (col : BoundFieldPath) : ComparisonOperator → Condition
  | .eq => .isNull col
  | .neq => .isNotNull col
  | op => .compare col op .null

/-- The only predicate, or all of them joined in parentheses. -/
def bracketAnd : List Condition → Condition
  | [pred] => pred
  | preds => .group (.joinAnd preds)

def bracketOr : List Condition → Condition
  | [pred] => pred
  | preds => .group (.joinOr preds)

/-- `1=1` for no predicate at all. -/
def anyOf (preds : List Condition) : Condition :=
  if preds.isEmpty then .constant else bracketOr preds

def allOf (preds : List Condition) : Condition :=
  if preds.isEmpty then .constant else bracketAnd preds

/-- How a dialect hands values to its driver. -/
structure ParameterStyle where
  convertLiteralToParameter : LiteralValue → Scalar
  dayBound : DateTime → Scalar

namespace ParameterStyle

variable (style : ParameterStyle)

def lowerLiteral : LiteralValue → LowerM SqlOperand
  | .temporal (.keyword k) => return .current k
  | .null => return .null
  | l => addParam (style.convertLiteralToParameter l)

/-- `lower_literal` on any operand; an object that is not a literal has no `value`. -/
def lowerOperand : Operand → LowerM SqlOperand
  | .literal l => style.lowerLiteral l
  | _ => addParam .none

def lowerElement : ValueSetElement → LowerM SqlOperand
  | .literal l => style.lowerLiteral l
  | _ => addParam .none

/-- The parameters of the start of a day and of the next one. -/
def lowerDayBounds (d : Date) : LowerM (SqlOperand × SqlOperand) := do
  let (startDt, endDt) ← parseDateOnlyRange d
  let p₁ ← addParam (style.dayBound startDt)
  let p₂ ← addParam (style.dayBound endDt)
  return (p₁, p₂)

/-- `(col >= start AND col < end)` over the day of a date. -/
def lowerDay (col : BoundFieldPath) (d : Date) : LowerM Condition := do
  let (p₁, p₂) ← style.lowerDayBounds d
  return .group (.and (.compare col .gte p₁) (.compare col .lt p₂))

def lowerBetween (col : BoundFieldPath) (r : Range) : LowerM Condition := do
  let lo ← style.lowerLiteral r.start
  let hi ← style.lowerLiteral r.stop
  return .between col lo hi

/-- `col op value` -/
def lowerCompare (col : BoundFieldPath) (op : ComparisonOperator) (l : LiteralValue) :
    LowerM Condition := do
  return .compare col op (← style.lowerLiteral l)

/-- `(col >= a AND col <= b ...)` -/
def lowerCompound (col : BoundFieldPath) (cs : List ComparisonConstraint) : LowerM Condition := do
  let preds ← cs.mapM fun c => style.lowerCompare col c.operator c.value
  return .group (.joinAnd preds)

/-- `col = literal`, where a date that meets a timestamp column stands for its day. -/
def lowerEquals (col : BoundFieldPath) (l : LiteralValue) : LowerM Condition :=
  match dateOnly? l with
  | some d => if col.isTimestampField then style.lowerDay col d else style.lowerCompare col .eq l
  | none => style.lowerCompare col .eq l

/-- A constraint that stands alone as operand. -/
def lowerConstraint (col : BoundFieldPath) (c : ComparisonConstraint) : LowerM Condition :=
  match c.value, c.operator with
  | .null, op => return lowerNullTest col op
  | l, .eq => style.lowerEquals col l
  | l, .neq => do return .group (.or (← style.lowerCompare col .neq l) (.isNull col))
  | l, op => style.lowerCompare col op l

/-! ### String operators -/

def addPattern (pattern : List Char) : LowerM SqlOperand := addParam (.str (String.ofList pattern))

/-- `%text%` with the text escaped. -/
def infixPattern (text : String) : List Char := '%' :: (escapeLikeOperand text ++ ['%'])

def lowerHasElement (col : BoundFieldPath) : ValueSetElement → LowerM Condition
  | .range r => style.lowerBetween col r
  | e => do return .like col (← addPattern (infixPattern (elementText e)))

def lowerNotHasElement (col : BoundFieldPath) : ValueSetElement → LowerM Condition
  | .range r => do
    let lo ← style.lowerLiteral r.start
    let hi ← style.lowerLiteral r.stop
    return .group (.or (.compare col .lt lo) (.compare col .gt hi))
  | e => do return .notLike col (← addPattern (infixPattern (elementText e)))

def lowerHasSet (col : BoundFieldPath) (elements : List ValueSetElement) : LowerM Condition := do
  let nullTest := if elements.any (·.isNull) then [Condition.isNull col] else []
  let likes ← (elements.filter (!·.isNull)).mapM (style.lowerHasElement col)
  return anyOf (nullTest ++ likes)

def lowerNotHasSet (col : BoundFieldPath) (elements : List ValueSetElement) : LowerM Condition := do
  let notLikes ← (elements.filter (!·.isNull)).mapM (style.lowerNotHasElement col)
  if elements.any (·.isNull) then
    if notLikes.isEmpty then return .isNotNull col
    else return .group (.and (bracketAnd notLikes) (.isNotNull col))
  else
    if notLikes.isEmpty then return .isNull col
    else return .group (.or (bracketAnd notLikes) (.isNull col))

def lowerStringOperator (col : BoundFieldPath) (op : StringOperator) (operand : Operand) :
    LowerM Condition :=
  match op, operand with
  | .has, .valueSet elements => style.lowerHasSet col elements
  | .notHas, .valueSet elements => style.lowerNotHasSet col elements
  | .starts, _ => do
    return .like col (← addPattern (escapeLikeOperand (operandText operand) ++ ['%']))
  | .ends, _ => do
    return .like col (← addPattern ('%' :: escapeLikeOperand (operandText operand)))
  | .has, _ => do return .like col (← addPattern (infixPattern (operandText operand)))
  | .notHas, _ => do
    let p ← addPattern (infixPattern (operandText operand))
    return .group (.or (.notLike col p) (.isNull col))

end ParameterStyle

/-! ### Expressions and statements -/

/-- `NOT` in front of a condition that is put in parentheses unless its text already is. -/
def negate (d : SqlDialect) (c : Condition) : Condition :=
  let text := (d.render c).toList
  if text.head? = some '(' ∧ text.getLast? = some ')' then .not c else .not (.group c)

def lowerExpression (d : SqlDialect) (leaf : BoundFieldExpression → LowerM Condition) :
    BoundExpression → LowerM Condition
  | .atom e => leaf e
  | .and l r => do
    let left ← lowerExpression d leaf l
    let right ← lowerExpression d leaf r
    return .group (.and left right)
  | .or l r => do
    let left ← lowerExpression d leaf l
    let right ← lowerExpression d leaf r
    return .group (.or left right)
  | .not e => do return negate d (← lowerExpression d leaf e)

/-- `tuple(a.field.path.leaf for a in rec.assignments)` -/
def columnTuple (rec : BoundCreateRecord) : List String :=
  rec.assignments.map fun a => a.field.path.leaf

/-- Append a record to the last group if it fills the same columns, else open a new group. -/
def addToGroups (groups : List (List BoundCreateRecord)) (rec : BoundCreateRecord) :
    List (List BoundCreateRecord) :=
  match groups.getLast? with
  | some group =>
    if group.head?.map columnTuple = some (columnTuple rec) then
      groups.dropLast ++ [group ++ [rec]]
    else groups ++ [[rec]]
  | none => [[rec]]

/-- Consecutive records with identical column tuples. -/
def groupRecords (records : List BoundCreateRecord) : List (List BoundCreateRecord) :=
  records.foldl addToGroups []

/-- `query.records`, or the bare assignments as one record. -/
def recordsToCreate (query : BoundAltrQueryIR) : List BoundCreateRecord :=
  if !query.records.isEmpty then query.records
  else if !query.assignments.isEmpty then [⟨query.assignments⟩]
  else []

/-- What one of the three lowerers adds to the shared code. -/
structure SqlLowerer where
  dialect : SqlDialect
  style : ParameterStyle
  targetTable : BoundEntity → String
  lowerFieldExpression : BoundFieldExpression → LowerM Condition
  /-- What follows the direction of a SORT column. -/
  nullOrder : SortDirection → String

namespace SqlLowerer

variable (L : SqlLowerer)

def lowerWhere (w : Option BoundExpression) : LowerM (Option Condition) :=
  match w with
  | some e => do return some (← lowerExpression L.dialect L.lowerFieldExpression e)
  | none => return none

def lowerAssignment (a : BoundMutationAssignment) : LowerM (String × SqlOperand) := do
  return (L.dialect.quoteIdent a.field.path.leaf, ← L.style.lowerLiteral a.value)

def lowerGroup (table : String) (group : List BoundCreateRecord) : LowerM SqlStatement := do
  let columns := (group.head?.elim [] columnTuple).map L.dialect.quoteIdent
  let rows ← group.mapM fun rec => rec.assignments.mapM fun a => L.style.lowerLiteral a.value
  return .insert table columns rows

def selectItem (sel : BoundFieldSelection) : String × Option String :=
  (L.dialect.lowerFieldPath sel.field,
    (sel.alias_.filter fun a => a ≠ "").map L.dialect.quoteIdent)

def orderItems (query : BoundAltrQueryIR) : List OrderItem :=
  let ranked := query.ranking.toList.map fun r =>
    { column := L.dialect.lowerFieldPath r.field
      direction := if r.direction = .top then .desc else .asc }
  let sorted := query.sort.map fun s =>
    { column := L.dialect.lowerFieldPath s.field
      direction := s.direction
      nulls := L.nullOrder s.direction }
  let byKey := query.entity.primaryKey.map fun pk =>
    { column := L.dialect.quoteIdent pk, direction := .asc }
  ranked ++ sorted ++ if query.ranking.isNone && query.sort.isEmpty then byKey else []

/-- UPDATE, DELETE and READ. -/
def lowerStatement (query : BoundAltrQueryIR) : LowerM SqlStatement := do
  let table := L.targetTable query.entity
  match query.operation with
  | .update =>
    let assignments ← query.assignments.mapM L.lowerAssignment
    return .update table assignments (← L.lowerWhere query.where_)
  | .delete => return .delete table (← L.lowerWhere query.where_)
  | _ =>
    let w ← L.lowerWhere query.where_
    let limit := (query.ranking.map (·.count)).orElse fun _ => query.limit
    return .select (query.projection.map L.selectItem) table w (L.orderItems query) limit
      query.offset

def physicalQuery (query : BoundAltrQueryIR) (lowering : LowerM SqlStatement) :
    Except PyError PhysicalQuery := do
  let (statement, parameters) ← lowering.run []
  return ⟨L.dialect, statement, parameters, query.sourceId, query.sourceName⟩

/-- `lower`: one physical query, or a batch when a CREATE fills different columns. -/
def lower (query : BoundAltrQueryIR) : Except PyError PhysicalQueryResult :=
  if query.operation = .create then do
    let groups := groupRecords (recordsToCreate query)
    let queries ← groups.mapM fun group =>
      L.physicalQuery query (L.lowerGroup (L.targetTable query.entity) group)
    match queries with
    | [q] => return .single q
    | qs => return .batch L.dialect qs query.sourceId query.sourceName
  else do return .single (← L.physicalQuery query (L.lowerStatement query))

end SqlLowerer

end AltrStream.Lowering
