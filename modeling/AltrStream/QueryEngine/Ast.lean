import AltrStream.Foundations.Kleene
import AltrStream.Python.Scalar

/-! # The AltrQL intermediate representation

`domain/operators.py` and `domain/ast.py`. The parser is the only producer of
literals, so a temporal literal is a keyword or a date that the lexer has
validated, and a field path has at least one segment.
-/
namespace AltrStream.QueryEngine
open Foundations Python

inductive ComparisonOperator where
  | eq
  | neq
  | gt
  | lt
  | gte
  | lte
  deriving DecidableEq, Repr

def ComparisonOperator.value : ComparisonOperator → String
  | eq => "="
  | neq => "!="
  | gt => ">"
  | lt => "<"
  | gte => ">="
  | lte => "<="

/-- `operator in (GT, LT, GTE, LTE)` -/
def ComparisonOperator.isOrdering : ComparisonOperator → Bool
  | eq | neq => false
  | gt | lt | gte | lte => true

inductive StringOperator where
  | starts
  | ends
  | has
  | notHas
  deriving DecidableEq, Repr

def StringOperator.value : StringOperator → String
  | starts => "STARTS"
  | ends => "ENDS"
  | has => "HAS"
  | notHas => "NOT HAS"

inductive Operator where
  | comparison (op : ComparisonOperator)
  | string (op : StringOperator)
  deriving DecidableEq, Repr

def Operator.value : Operator → String
  | comparison op => op.value
  | string op => op.value

inductive SortDirection where
  | asc
  | desc
  deriving DecidableEq, Repr

def SortDirection.value : SortDirection → String
  | asc => "ASC"
  | desc => "DESC"

inductive RankingDirection where
  | top
  | bottom
  deriving DecidableEq, Repr

def RankingDirection.value : RankingDirection → String
  | top => "TOP"
  | bottom => "BOTTOM"

inductive TemporalKeyword where
  | today
  | now
  deriving DecidableEq, Repr

def TemporalKeyword.value : TemporalKeyword → String
  | today => "TODAY"
  | now => "NOW"

/-- A direct (`id`) or nested (`address.country`) field access path. -/
structure FieldPath where
  root : String
  keys : List String
  deriving DecidableEq, Repr

namespace FieldPath

def segments (p : FieldPath) : List String := p.root :: p.keys

def fullPath (p : FieldPath) : String := ".".intercalate p.segments

def leaf (p : FieldPath) : String := p.keys.getLastD p.root

def isNested (p : FieldPath) : Bool := !p.keys.isEmpty

end FieldPath

structure FieldSelection where
  path : FieldPath
  alias_ : Option String
  deriving DecidableEq, Repr

inductive TemporalLiteral where
  | keyword (keyword : TemporalKeyword)
  | value (value : Date)
  deriving DecidableEq

inductive LiteralValue where
  | string (value : String)
  | integer (value : ℤ)
  | float (value : PyFloat)
  | boolean (value : Bool)
  | null
  | temporal (literal : TemporalLiteral)
  deriving DecidableEq

/-- The literal's `kind` field. -/
def LiteralValue.kind : LiteralValue → String
  | string _ => "string"
  | integer _ => "integer"
  | float _ => "float"
  | boolean _ => "boolean"
  | null => "null"
  | temporal _ => "temporal"

/-- The name of the literal's class. -/
def LiteralValue.className : LiteralValue → String
  | string _ => "StringLiteral"
  | integer _ => "IntegerLiteral"
  | float _ => "FloatLiteral"
  | boolean _ => "BooleanLiteral"
  | null => "NullLiteral"
  | temporal _ => "TemporalLiteral"

def LiteralValue.isNull : LiteralValue → Bool
  | null => true
  | _ => false

structure Range where
  start : LiteralValue
  stop : LiteralValue
  deriving DecidableEq

structure ComparisonConstraint where
  operator : ComparisonOperator
  value : LiteralValue
  deriving DecidableEq

/-- An alternative of a value set. -/
inductive ValueSetElement where
  | literal (value : LiteralValue)
  | range (range : Range)
  | constraint (constraint : ComparisonConstraint)
  | compound (constraints : List ComparisonConstraint)
  deriving DecidableEq

/-- The name of the element's class. -/
def ValueSetElement.className : ValueSetElement → String
  | literal l => l.className
  | range _ => "Range"
  | constraint _ => "ComparisonConstraint"
  | compound _ => "CompoundAndConstraint"

/-- `isinstance(el, NullLiteral)` -/
def ValueSetElement.isNull : ValueSetElement → Bool
  | literal l => l.isNull
  | _ => false

/-- The right-hand side of a field expression. The parser builds literals,
ranges and value sets; the lowerers also take a bare constraint. -/
inductive Operand where
  | literal (value : LiteralValue)
  | valueSet (elements : List ValueSetElement)
  | range (range : Range)
  | constraint (constraint : ComparisonConstraint)
  | compound (constraints : List ComparisonConstraint)
  deriving DecidableEq

/-- The name of the operand's class. -/
def Operand.className : Operand → String
  | literal l => l.className
  | valueSet _ => "ValueSet"
  | range _ => "Range"
  | constraint _ => "ComparisonConstraint"
  | compound _ => "CompoundAndConstraint"

/-- What `validate_ir` asks of a range: no NULL bound. -/
def Range.WellFormed (r : Range) : Prop := r.start ≠ .null ∧ r.stop ≠ .null

/-- What `validate_ir` asks of an element: no NULL range bound, no empty compound. -/
def ValueSetElement.WellFormed : ValueSetElement → Prop
  | range r => r.WellFormed
  | compound cs => cs ≠ []
  | _ => True

/-- What `validate_ir` asks of an operand: no NULL range bound, and nothing empty. -/
def Operand.WellFormed : Operand → Prop
  | valueSet elements => elements ≠ [] ∧ ∀ e ∈ elements, e.WellFormed
  | range r => r.WellFormed
  | compound cs => cs ≠ []
  | _ => True

instance (r : Range) : Decidable r.WellFormed := inferInstanceAs (Decidable (_ ∧ _))

instance (e : ValueSetElement) : Decidable e.WellFormed :=
  match e with
  | .range r => inferInstanceAs (Decidable r.WellFormed)
  | .compound cs => inferInstanceAs (Decidable (cs ≠ []))
  | .literal _ | .constraint _ => isTrue trivial

instance (o : Operand) : Decidable o.WellFormed :=
  match o with
  | .valueSet elements =>
    inferInstanceAs (Decidable (elements ≠ [] ∧ ∀ e ∈ elements, e.WellFormed))
  | .range r => inferInstanceAs (Decidable r.WellFormed)
  | .compound cs => inferInstanceAs (Decidable (cs ≠ []))
  | .literal _ | .constraint _ => isTrue trivial

structure FieldExpression where
  field : FieldPath
  operator : Operator
  operand : Operand
  deriving DecidableEq

/-- The WHERE tree: AND, OR and NOT over field expressions. -/
abbrev Expression := Formula FieldExpression

inductive QueryOperation where
  | read
  | create
  | update
  | delete
  deriving DecidableEq, Repr

def QueryOperation.value : QueryOperation → String
  | read => "READ"
  | create => "CREATE"
  | update => "UPDATE"
  | delete => "DELETE"

structure MutationAssignment where
  field : FieldPath
  value : LiteralValue
  deriving DecidableEq

structure CreateRecord where
  assignments : List MutationAssignment
  deriving DecidableEq

structure SortClause where
  field : FieldPath
  direction : SortDirection := .asc
  deriving DecidableEq, Repr

structure RankingClause where
  direction : RankingDirection
  count : ℤ
  field : FieldPath
  deriving DecidableEq, Repr

/-- Root representation of an AltrQL query. -/
structure AltrQueryIR where
  operation : QueryOperation := .read
  entity : String
  projection : List FieldSelection := []
  where_ : Option Expression := none
  assignments : List MutationAssignment := []
  records : List CreateRecord := []
  sort : List SortClause := []
  ranking : Option RankingClause := none
  limit : Option ℤ := none
  offset : Option ℤ := none
  deriving DecidableEq

def AltrQueryIR.isWildcardProjection (ir : AltrQueryIR) : Bool := ir.projection.isEmpty

end AltrStream.QueryEngine
