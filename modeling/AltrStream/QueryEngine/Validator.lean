import AltrStream.Foundations.Checks
import AltrStream.Python.Scalar
import AltrStream.QueryEngine.Ast
import AltrStream.QueryEngine.Errors

/-! # The semantic validator

`semantic/validator.py`. What an accepted query guarantees to the lowerers is
`Operand.WellFormed`, for every leaf of its WHERE tree.
-/
namespace AltrStream.QueryEngine
open Foundations Python

def semanticError (message : String) : PyError := { kind := .semanticError, message }

/-- The first text that occurs again, with the texts seen before. -/
def firstDuplicate? : List String → List String → Option String
  | _, [] => none
  | seen, s :: rest => if s ∈ seen then some s else firstDuplicate? (s :: seen) rest

def validateMutationAssignments (assignments : List MutationAssignment) : Except PyError Unit :=
  match firstDuplicate? [] (assignments.map fun a => a.field.fullPath) with
  | some field =>
    .error <| semanticError s!"Duplicate assignment for field '{field}' found in mutation payload."
  | none => .ok ()

def validateProjections (ir : AltrQueryIR) : Except PyError Unit :=
  match firstDuplicate? [] (ir.projection.filterMap FieldSelection.alias_) with
  | some name =>
    .error <| semanticError s!"Duplicate projection alias '{name}' found in query projection."
  | none => .ok ()

def validateRanking (ir : AltrQueryIR) : Except PyError Unit :=
  match ir.ranking with
  | some ranking =>
    raiseIf (ranking.count ≤ 0) <| semanticError
      s!"Ranking count must be a positive integer greater than 0, got {ranking.count}."
  | none => .ok ()

def validateLimit (ir : AltrQueryIR) : Except PyError Unit :=
  match ir.limit with
  | some limit => do
    raiseIf (limit ≤ 0) <| semanticError
      s!"LIMIT must be a positive integer greater than 0, got {limit}."
    raiseIf (ir.ranking.isSome = true) <| semanticError
      "Cannot combine 'LIMIT' with 'TOP'/'BOTTOM' ranking clause."
  | none => .ok ()

def validateOffset (ir : AltrQueryIR) : Except PyError Unit :=
  match ir.offset with
  | some offset =>
    raiseIf (offset < 0) <| semanticError s!"OFFSET must be non-negative (>= 0), got {offset}."
  | none => .ok ()

def validateSortAndRankingMutualExclusion (ir : AltrQueryIR) : Except PyError Unit :=
  raiseIf (ir.sort ≠ [] ∧ ir.ranking.isSome = true) <| semanticError
    "Cannot combine 'SORT' with 'TOP'/'BOTTOM' ranking clause in AltrQL v0.1."

/-- `float(x)` of a number, with the exception of an integer that is too large. -/
def floatOf : LiteralValue → Except PyError PyFloat
  | .integer n =>
    match floatOfInt? n with
    | some q => .ok q
    | none => .error { kind := .overflowError, message := "int too large to convert to float" }
  | .float x => .ok x
  | _ => .ok (0 : ℚ)

/-- `str(x)` of a number. -/
def numberText : LiteralValue → String
  | .integer n => toString n
  | .float x => x.str
  | _ => ""

def validateRange (range : Range) : Except PyError Unit :=
  match range.start, range.stop with
  | .boolean _, _ | .null, _ | _, .boolean _ | _, .null =>
    .error <| semanticError <| s!"Range cannot have boolean or null bounds: " ++
      s!"'{range.start.kind}'..'{range.stop.kind}'."
  | .integer _, .integer _ | .integer _, .float _ | .float _, .integer _ | .float _, .float _ => do
    let start ← floatOf range.start
    let stop ← floatOf range.stop
    raiseIf (stop < start) <| semanticError <| s!"Range start ({numberText range.start}) must be " ++
      s!"less than or equal to end ({numberText range.stop})."
  | .string start, .string stop =>
    raiseIf (stop < start) <| semanticError
      s!"Range start ('{start}') must be less than or equal to end ('{stop}')."
  | .temporal (.value start), .temporal (.value stop) =>
    raiseIf (stop.isoformat < start.isoformat) <| semanticError <| s!"Range start " ++
      s!"(@{start.isoformat}) must be less than or equal to end (@{stop.isoformat})."
  | .temporal _, .temporal _ => .ok ()
  | start, stop =>
    .error <| semanticError s!"Incompatible range bound types: '{start.kind}' and '{stop.kind}'."

def validateValueSetElement : ValueSetElement → Except PyError Unit
  | .range range => validateRange range
  | .compound constraints =>
    raiseIf (constraints.length < 2) <| semanticError
      "CompoundAndConstraint must contain at least 2 comparison constraints."
  | .literal _ | .constraint _ => .ok ()

def validateValueSet (elements : List ValueSetElement) : Except PyError Unit := do
  raiseIf (elements = []) (semanticError "ValueSet cannot be empty.")
  checkAll validateValueSetElement elements

/-- What a string operator asks of its operand. -/
def validateStringOperand : Operator → Operand → Except PyError Unit
  | .comparison _, _ => .ok ()
  | .string _, .literal (.string _) => .ok ()
  | .string op, .valueSet elements => do
    validateValueSet elements
    checkAll (fun element =>
      match element with
      | .literal (.string _) => .ok ()
      | _ => .error <| semanticError <| s!"String operator '{op.value}' cannot be used with " ++
          s!"non-string element '{element.className}' in value set.") elements
  | .string _, .constraint _ | .string _, .compound _ => .ok ()
  | .string op, operand =>
    .error <| semanticError <| s!"String operator '{op.value}' cannot be used with operand of " ++
      s!"type '{operand.className}'."

def validateOperand : Operand → Except PyError Unit
  | .range range => validateRange range
  | .valueSet elements => validateValueSet elements
  | _ => .ok ()

def validateFieldExpression (expr : FieldExpression) : Except PyError Unit := do
  validateStringOperand expr.operator expr.operand
  validateOperand expr.operand

def validateExpression : Expression → Except PyError Unit
  | .and left right | .or left right => do
    validateExpression left
    validateExpression right
  | .not operand => validateExpression operand
  | .atom expr => validateFieldExpression expr

def validateWhere (ir : AltrQueryIR) : Except PyError Unit :=
  match ir.where_ with
  | some expr => validateExpression expr
  | none => .ok ()

/-- The clauses of a READ that a mutation may not have. -/
def disallowReadClauses (ir : AltrQueryIR) : Except PyError Unit := do
  raiseIf (ir.projection ≠ []) <| semanticError
    s!"Projection is not allowed on {ir.operation.value} operations."
  raiseIf (ir.operation = .create ∧ ir.where_.isSome = true) <| semanticError
    "WHERE clause is not allowed on CREATE operations."
  raiseIf (ir.sort ≠ [] ∨ ir.ranking.isSome = true) <| semanticError
    s!"SORT/ranking clauses are not allowed on {ir.operation.value} operations."
  raiseIf (ir.limit.isSome = true) <| semanticError
    s!"LIMIT clause is not allowed on {ir.operation.value} operations."
  raiseIf (ir.offset.isSome = true) <| semanticError
    s!"OFFSET clause is not allowed on {ir.operation.value} operations."

def validateRecord (record : CreateRecord) : Except PyError Unit := do
  raiseIf (record.assignments = []) (semanticError "Record in CREATE batch cannot be empty.")
  validateMutationAssignments record.assignments

def validateCreatePayload (ir : AltrQueryIR) : Except PyError Unit :=
  if ir.records ≠ [] then checkAll validateRecord ir.records
  else validateMutationAssignments ir.assignments

def validateCreate (ir : AltrQueryIR) : Except PyError Unit := do
  raiseIf (ir.records = [] ∧ ir.assignments = []) <| semanticError
    "CREATE operation requires at least 1 record or field assignment."
  validateCreatePayload ir
  disallowReadClauses ir

def validateIr (ir : AltrQueryIR) : Except PyError Unit :=
  match ir.operation with
  | .read => do
    raiseIf (ir.assignments ≠ []) <| semanticError
      "Mutation assignments are not allowed on READ queries."
    validateProjections ir
    validateRanking ir
    validateLimit ir
    validateOffset ir
    validateSortAndRankingMutualExclusion ir
    validateWhere ir
  | .create => validateCreate ir
  | .update => do
    raiseIf (ir.assignments = []) <| semanticError
      "UPDATE operation requires at least 1 field assignment."
    raiseIf (ir.records ≠ []) <| semanticError
      "Grouped records are not allowed on UPDATE operations."
    validateMutationAssignments ir.assignments
    raiseIf (ir.where_.isSome = false) <| semanticError "UPDATE operation requires a WHERE clause."
    disallowReadClauses ir
    validateWhere ir
  | .delete => do
    raiseIf (ir.assignments ≠ []) <| semanticError
      "Mutation assignments are not allowed on DELETE operations."
    disallowReadClauses ir
    validateWhere ir

/-! ### What acceptance means -/

theorem firstDuplicate?_eq_none {seen l : List String} :
    firstDuplicate? seen l = none ↔ l.Nodup ∧ ∀ s ∈ l, s ∉ seen := by
  induction l generalizing seen with
  | nil => simp [firstDuplicate?]
  | cons s l ih =>
    rw [firstDuplicate?]
    split
    · next hs => exact iff_of_false (by rintro ⟨⟩) fun h => h.2 s List.mem_cons_self hs
    · next hs =>
      rw [ih, List.nodup_cons]
      constructor
      · rintro ⟨hnodup, hfresh⟩
        refine ⟨⟨fun hmem => hfresh s hmem List.mem_cons_self, hnodup⟩, List.forall_mem_cons.2 ⟨hs, ?_⟩⟩
        exact fun t ht htseen => hfresh t ht (List.mem_cons_of_mem _ htseen)
      · rintro ⟨⟨hnew, hnodup⟩, hfresh⟩
        refine ⟨hnodup, fun t ht hmem => ?_⟩
        rcases List.mem_cons.1 hmem with rfl | hmem
        · exact hnew ht
        · exact hfresh t (List.mem_cons_of_mem _ ht) hmem

theorem validateMutationAssignments_eq_ok {assignments : List MutationAssignment} {x : Unit} :
    validateMutationAssignments assignments = .ok x ↔
      (assignments.map fun a => a.field.fullPath).Nodup := by
  have hnone := @firstDuplicate?_eq_none [] (assignments.map fun a => a.field.fullPath)
  rw [validateMutationAssignments]
  split
  · next hsome => exact iff_of_false (by rintro ⟨⟩) fun h => by simp [hnone.2 ⟨h, by simp⟩] at hsome
  · next heq => exact iff_of_true rfl (hnone.1 heq).1

theorem validateProjections_eq_ok {ir : AltrQueryIR} {x : Unit} :
    validateProjections ir = .ok x ↔ (ir.projection.filterMap FieldSelection.alias_).Nodup := by
  have hnone := @firstDuplicate?_eq_none [] (ir.projection.filterMap FieldSelection.alias_)
  rw [validateProjections]
  split
  · next hsome => exact iff_of_false (by rintro ⟨⟩) fun h => by simp [hnone.2 ⟨h, by simp⟩] at hsome
  · next heq => exact iff_of_true rfl (hnone.1 heq).1

theorem disallowReadClauses_eq_ok {ir : AltrQueryIR} {x : Unit} : disallowReadClauses ir = .ok x ↔
    ir.projection = [] ∧ ¬(ir.operation = .create ∧ ir.where_.isSome = true) ∧ ir.sort = [] ∧
      ir.ranking = none ∧ ir.limit = none ∧ ir.offset = none := by
  simp only [disallowReadClauses, bind_eq_ok, raiseIf_eq_ok, exists_const, not_not, not_or,
    Bool.not_eq_true, Option.isSome_eq_false_iff, Option.isNone_iff_eq_none, and_assoc]

theorem Range.wellFormed_of_validateRange {range : Range} {x : Unit}
    (h : validateRange range = .ok x) : range.WellFormed := by
  obtain ⟨start, stop⟩ := range
  constructor <;> rintro rfl
  · cases h
  · cases start <;> cases h

theorem ValueSetElement.wellFormed_of_validate {element : ValueSetElement} {x : Unit}
    (h : validateValueSetElement element = .ok x) : element.WellFormed := by
  cases element with
  | literal l => trivial
  | range r => exact Range.wellFormed_of_validateRange h
  | constraint c => trivial
  | compound cs =>
    rintro rfl
    simp [validateValueSetElement] at h

theorem validateValueSet_wellFormed {elements : List ValueSetElement} {x : Unit}
    (h : validateValueSet elements = .ok x) : (Operand.valueSet elements).WellFormed := by
  simp only [validateValueSet, bind_eq_ok, raiseIf_eq_ok, checkAll_eq_ok] at h
  obtain ⟨-, hne, hall⟩ := h
  exact ⟨hne, fun e he => ValueSetElement.wellFormed_of_validate (hall e he)⟩

/-- An operator that the grammar lets a value set follow. -/
def Operator.takesSet : Operator → Bool
  | comparison op => !op.isOrdering
  | string .has | string .notHas => true
  | string .starts | string .ends => false

/-- An operand that the parser can build after an operator: never a bare constraint,
and a value set only where the grammar has one. -/
def Operand.Parsed (operator : Operator) : Operand → Prop
  | constraint _ | compound _ => False
  | valueSet _ => operator.takesSet = true
  | _ => True

theorem Operand.wellFormed_of_validate {expr : FieldExpression} {x : Unit}
    (hparsed : expr.operand.Parsed expr.operator) (h : validateFieldExpression expr = .ok x) :
    expr.operand.WellFormed := by
  obtain ⟨field, operator, operand⟩ := expr
  simp only [validateFieldExpression, bind_eq_ok] at h
  obtain ⟨-, -, h⟩ := h
  cases operand with
  | literal l => trivial
  | valueSet elements => exact validateValueSet_wellFormed h
  | range r => exact Range.wellFormed_of_validateRange h
  | constraint c => exact hparsed.elim
  | compound cs => exact hparsed.elim

theorem validateExpression_eq_ok {expr : Expression} {x : Unit} :
    validateExpression expr = .ok x ↔ ∀ e ∈ expr.atoms, validateFieldExpression e = .ok () := by
  induction expr with
  | atom e => simp [validateExpression, Formula.atoms]
  | and left right hl hr | or left right hl hr =>
    simp only [validateExpression, bind_eq_ok, hl, hr, Formula.atoms, List.mem_append]
    grind
  | not operand ih => simpa [validateExpression, Formula.atoms] using ih

/-- The counts of a validated READ are positive, and its OFFSET is not negative. -/
theorem validateIr_window {ir : AltrQueryIR} (h : validateIr ir = .ok ())
    (hop : ir.operation = .read) : (∀ n ∈ ir.limit, 0 < n) ∧ (∀ n ∈ ir.offset, 0 ≤ n) ∧
      ∀ n ∈ ir.ranking.map (·.count), 0 < n := by
  simp only [validateIr, hop, bind_eq_ok] at h
  obtain ⟨_, -, _, -, _, hranking, _, hlimit, _, hoffset, -⟩ := h
  refine ⟨fun n hn => ?_, fun n hn => ?_, fun n hn => ?_⟩
  · simp only [validateLimit, Option.mem_def.1 hn, bind_eq_ok, raiseIf_eq_ok] at hlimit
    obtain ⟨-, hn, -⟩ := hlimit
    omega
  · simp only [validateOffset, Option.mem_def.1 hn, raiseIf_eq_ok] at hoffset
    omega
  · obtain ⟨r, hr, rfl⟩ := Option.map_eq_some_iff.1 hn
    simp only [validateRanking, hr, raiseIf_eq_ok] at hranking
    omega

end AltrStream.QueryEngine
