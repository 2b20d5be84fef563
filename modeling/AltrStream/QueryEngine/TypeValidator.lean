import AltrStream.Foundations.Checks
import AltrStream.Python.Scalar
import AltrStream.QueryEngine.BoundAst
import AltrStream.QueryEngine.Errors

/-! # The type validator

`binding/type_validator.py`: which operators and literals a field of a given
category takes. Paths into a JSON column are not checked.
-/
namespace AltrStream.QueryEngine
open Foundations Python

def BoundFieldPath.fullPath (field : BoundFieldPath) : String := field.path.fullPath

def typeError (message : String) : PyError := { kind := .typeCompatibilityError, message }

/-- The category a literal belongs to; NULL belongs to every one. -/
def LiteralValue.category? : LiteralValue → Option LogicalTypeCategory
  | integer _ | float _ => some .numeric
  | string _ => some .string
  | boolean _ => some .boolean
  | temporal _ => some .temporal
  | null => none

def TemporalLiteral.description : TemporalLiteral → String
  | keyword k => k.value
  | value d => s!"@{d.isoformat}"

def boolText (b : Bool) : String := if b then "True" else "False"

/-- `operand.category = field.logical_category`, for a literal that has one. -/
def requireCategory (field : BoundFieldPath) (literal : LiteralValue) (message : String) :
    Except PyError Unit :=
  match literal.category? with
  | some category => raiseIf (field.logicalCategory ≠ category) (typeError message)
  | none => .ok ()

def validateDirectLiteral (field : BoundFieldPath) (literal : LiteralValue) : Except PyError Unit :=
  requireCategory field literal <|
    s!"Cannot compare {field.logicalCategory.value} field '{field.fullPath}' with " ++
    match literal with
    | .integer _ | .float _ => "NUMERIC literal."
    | .string _ => "STRING literal without explicit type conversion."
    | .boolean _ => "BOOLEAN literal."
    | .temporal t => s!"TEMPORAL literal '{t.description}'."
    | .null => ""

/-- How an element of a set, or the value of a constraint, is named in messages. -/
def LiteralValue.description : LiteralValue → String
  | integer n => toString n
  | float x => x.str
  | string s => s!"'{s}' (STRING)"
  | boolean b => s!"{boolText b} (BOOLEAN)"
  | temporal t => s!"'{t.description}' (TEMPORAL)"
  | null => ""

/-- The check that a set's elements and its constraints' values share. -/
def validateMember (noun : String) (field : BoundFieldPath) (literal : LiteralValue) :
    Except PyError Unit :=
  requireCategory field literal <| s!"{noun} {literal.description} is incompatible with " ++
    s!"{field.logicalCategory.value} field '{field.fullPath}'."

def validateComparisonConstraint (field : BoundFieldPath) (constraint : ComparisonConstraint) :
    Except PyError Unit := do
  let op := constraint.operator
  raiseIf (op.isOrdering = true ∧ field.logicalCategory = .boolean) <| typeError
    s!"Ordering operator '{op.value}' is not supported for BOOLEAN field '{field.fullPath}'."
  raiseIf (constraint.value = .null ∧ op.isOrdering = true) <| typeError
    s!"Ordering operator '{op.value}' is not supported with NULL on field '{field.fullPath}'."
  validateMember "Constraint value" field constraint.value

def requireBounds (field : BoundFieldPath) (range : Range) (expected : String) (upper : Bool)
    (category : LogicalTypeCategory) : Except PyError Unit :=
  let kind (l : LiteralValue) := if upper then (l.kind.map Char.toUpper) else l.kind
  raiseIf (¬(range.start.category? = some category ∧ range.stop.category? = some category)) <|
    typeError <| s!"Range on {field.logicalCategory.value} field '{field.fullPath}' must have " ++
      s!"{expected} bounds, got '{kind range.start}'..'{kind range.stop}'."

def validateFieldRange (field : BoundFieldPath) (range : Range) : Except PyError Unit :=
  match field.logicalCategory with
  | .boolean =>
    .error (typeError s!"Ranges are not supported on BOOLEAN field '{field.fullPath}'.")
  | .numeric => requireBounds field range "numeric" false .numeric
  | .string => requireBounds field range "string" false .string
  | .temporal => requireBounds field range "temporal" true .temporal
  | .unknown => .ok ()

def validateFieldElement (field : BoundFieldPath) : ValueSetElement → Except PyError Unit
  | .literal l => validateMember "ValueSet element" field l
  | .range r => validateFieldRange field r
  | .constraint c => validateComparisonConstraint field c
  | .compound cs => do
    raiseIf (field.logicalCategory = .boolean) <| typeError
      s!"Compound constraints are not supported on BOOLEAN field '{field.fullPath}'."
    checkAll (validateComparisonConstraint field) cs

def validateFieldValueSet (field : BoundFieldPath) (elements : List ValueSetElement) :
    Except PyError Unit :=
  checkAll (validateFieldElement field) elements

def validateNullOperand (field : BoundFieldPath) : Operator → Except PyError Unit
  | .string op =>
    .error (typeError s!"Operator '{op.value}' requires STRING literal operand, got 'NullLiteral'.")
  | .comparison op =>
    raiseIf (op.isOrdering = true) <| typeError
      s!"Ordering operator '{op.value}' is not supported with NULL on field '{field.fullPath}'."

def validateFieldStringOperand (field : BoundFieldPath) (op : StringOperator)
    (operand : Operand) : Except PyError Unit := do
  raiseIf (field.logicalCategory ≠ .string) <| typeError <| s!"Operator '{op.value}' is not " ++
    s!"compatible with field '{field.fullPath}' of type {field.logicalCategory.value}."
  match operand with
  | .valueSet elements => validateFieldValueSet field elements
  | .literal (.string _) => .ok ()
  | _ =>
    .error <| typeError
      s!"Operator '{op.value}' requires STRING literal operand, got '{operand.className}'."

def validateComparisonOperand (field : BoundFieldPath) : Operand → Except PyError Unit
  | .range r => validateFieldRange field r
  | .valueSet elements => validateFieldValueSet field elements
  | .literal l => validateDirectLiteral field l
  | .constraint _ | .compound _ => .ok ()

def validateFieldOperatorAndOperand (field : BoundFieldPath) (operator : Operator)
    (operand : Operand) : Except PyError Unit :=
  if operand = .literal .null then validateNullOperand field operator
  else if field.path.isNested then .ok ()
  else do
    raiseIf (field.logicalCategory = .unknown) <| typeError <| s!"Field '{field.fullPath}' has " ++
      s!"unsupported AltrQL comparison type '{field.dataType.value}'."
    match operator with
    | .string op => validateFieldStringOperand field op operand
    | .comparison op => do
      raiseIf (op.isOrdering = true ∧ field.logicalCategory = .boolean) <| typeError
        s!"Ordering operator '{op.value}' is not supported for BOOLEAN field '{field.fullPath}'."
      validateComparisonOperand field operand

/-- The names of the literals that a category's fields are assigned. -/
def validateAssignmentValue (field : BoundFieldPath) (value : LiteralValue) :
    Except PyError Unit :=
  let category := field.logicalCategory
  if value = .null then
    raiseIf (field.nullable = false) <| typeError
      s!"Cannot assign NULL to non-nullable field '{field.fullPath}'."
  else if category = .unknown then
    .error <| typeError <| s!"Field '{field.fullPath}' has unsupported AltrQL mutation type " ++
      s!"'{field.dataType.value}'."
  else
    raiseIf (value.category? ≠ some category) <| typeError <|
      s!"Cannot assign {value.className} to {category.value} field '{field.fullPath}'." ++
      if category = .temporal then " Expected @YYYY-MM-DD, TODAY, or NOW." else ""

end AltrStream.QueryEngine
