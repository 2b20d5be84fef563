import AltrStream.QueryEngine.Accepted
import AltrStream.QueryEngine.Resolver
import AltrStream.QueryEngine.TypeValidator

/-! # The binder

`binding/binder.py`: every field path of an IR is resolved against a schema and
every literal is checked against its field. Binding keeps the WHERE tree, its
operators and its operands.
-/
namespace AltrStream.QueryEngine
open Foundations Python

def bindFieldPath (path : FieldPath) (entity : EntitySchema) : Except PyError BoundFieldPath := do
  let field ← resolveFieldPath path entity
  return { path, dataType := field.dataType, nativeType := field.nativeDataType,
           nullable := field.nullable, isPrimaryKey := field.isPrimaryKey }

def bindSelection (entity : EntitySchema) (sel : FieldSelection) :
    Except PyError BoundFieldSelection := do
  return ⟨← bindFieldPath sel.path entity, sel.alias_⟩

def bindAssignment (entity : EntitySchema) (assign : MutationAssignment) :
    Except PyError BoundMutationAssignment := do
  let field ← bindFieldPath assign.field entity
  validateAssignmentValue field assign.value
  return ⟨field, assign.value⟩

def bindRecord (entity : EntitySchema) (record : CreateRecord) :
    Except PyError BoundCreateRecord := do
  return ⟨← record.assignments.mapM (bindAssignment entity)⟩

def bindFieldExpression (entity : EntitySchema) (expr : FieldExpression) :
    Except PyError BoundFieldExpression := do
  let field ← bindFieldPath expr.field entity
  validateFieldOperatorAndOperand field expr.operator expr.operand
  return ⟨field, expr.operator, expr.operand⟩

def bindExpression (entity : EntitySchema) : Expression → Except PyError BoundExpression
  | .atom expr => do return .atom (← bindFieldExpression entity expr)
  | .not operand => do return .not (← bindExpression entity operand)
  | .and left right => do
    return .and (← bindExpression entity left) (← bindExpression entity right)
  | .or left right => do
    return .or (← bindExpression entity left) (← bindExpression entity right)

def bindWhere (entity : EntitySchema) : Option Expression → Except PyError (Option BoundExpression)
  | some expr => some <$> bindExpression entity expr
  | none => .ok none

def bindSortClause (entity : EntitySchema) (clause : SortClause) :
    Except PyError BoundSortClause := do
  return ⟨← bindFieldPath clause.field entity, clause.direction⟩

def bindRanking (entity : EntitySchema) :
    Option RankingClause → Except PyError (Option BoundRankingClause)
  | some ranking => do
    return some ⟨ranking.direction, ranking.count, ← bindFieldPath ranking.field entity⟩
  | none => .ok none

/-- The records of a CREATE; an assignment list alone is one record. -/
def recordsToBind (ir : AltrQueryIR) : List CreateRecord :=
  if ir.operation ≠ .create then []
  else if ir.records ≠ [] then ir.records
  else if ir.assignments ≠ [] then [⟨ir.assignments⟩]
  else []

def assignmentsToBind (ir : AltrQueryIR) : List MutationAssignment :=
  if ir.operation = .update then ir.assignments else []

def boundEntity (entity : EntitySchema) : BoundEntity where
  name := entity.name
  namespace_ := entity.namespace_
  entityType := entity.entityType
  comment := entity.comment
  primaryKey :=
    if entity.primaryKey ≠ [] then entity.primaryKey
    else (entity.fields.filter FieldSchema.isPrimaryKey).map FieldSchema.name

def bindAltrql (ir : AltrQueryIR) (schema : SourceSchema) : Except PyError BoundAltrQueryIR := do
  let entity ← resolveEntity ir.entity schema
  let projection ← ir.projection.mapM (bindSelection entity)
  let records ← (recordsToBind ir).mapM (bindRecord entity)
  let assignments ← (assignmentsToBind ir).mapM (bindAssignment entity)
  let where_ ← bindWhere entity ir.where_
  let sort ← ir.sort.mapM (bindSortClause entity)
  let ranking ← bindRanking entity ir.ranking
  return { operation := ir.operation, entity := boundEntity entity, projection, where_, assignments,
           records, sort, ranking, limit := ir.limit, offset := ir.offset,
           sourceId := schema.sourceId, sourceName := schema.sourceName }

/-! ### What binding keeps -/

/-- The leaf that a bound leaf comes from. -/
def BoundFieldExpression.unbound (e : BoundFieldExpression) : FieldExpression :=
  ⟨e.field.path, e.operator, e.operand⟩

/-- What the binder has checked of a leaf. -/
def BoundFieldExpression.TypeChecked (e : BoundFieldExpression) : Prop :=
  validateFieldOperatorAndOperand e.field e.operator e.operand = .ok ()

theorem bindFieldPath_path {path : FieldPath} {entity : EntitySchema} {field : BoundFieldPath}
    (h : bindFieldPath path entity = .ok field) : field.path = path := by
  simp only [bindFieldPath, bind_eq_ok, pure_eq_ok] at h
  obtain ⟨_, -, rfl⟩ := h
  rfl

theorem bindFieldExpression_eq_ok {entity : EntitySchema} {expr : FieldExpression}
    {e : BoundFieldExpression} (h : bindFieldExpression entity expr = .ok e) :
    e.unbound = expr ∧ e.TypeChecked := by
  simp only [bindFieldExpression, bind_eq_ok, pure_eq_ok] at h
  obtain ⟨field, hfield, _, hcheck, rfl⟩ := h
  refine ⟨?_, hcheck⟩
  simp [BoundFieldExpression.unbound, bindFieldPath_path hfield]

theorem bindExpression_eq_ok {entity : EntitySchema} {expr : Expression} {e : BoundExpression}
    (h : bindExpression entity expr = .ok e) :
    e.map BoundFieldExpression.unbound = expr ∧
      ∀ leaf ∈ e.atoms, BoundFieldExpression.TypeChecked leaf := by
  induction expr generalizing e with
  | atom a =>
    simp only [bindExpression, bind_eq_ok, pure_eq_ok] at h
    obtain ⟨a', ha, rfl⟩ := h
    obtain ⟨hu, hc⟩ := bindFieldExpression_eq_ok ha
    simpa [Formula.map, Formula.atoms, hu] using hc
  | not e ih =>
    simp only [bindExpression, bind_eq_ok, pure_eq_ok] at h
    obtain ⟨e', he, rfl⟩ := h
    obtain ⟨hu, hc⟩ := ih he
    exact ⟨congrArg Formula.not hu, hc⟩
  | and l r hl hr | or l r hl hr =>
    simp only [bindExpression, bind_eq_ok, pure_eq_ok] at h
    obtain ⟨l', hl', r', hr', rfl⟩ := h
    obtain ⟨hul, hcl⟩ := hl hl'
    obtain ⟨hur, hcr⟩ := hr hr'
    refine ⟨by rw [Formula.map, hul, hur], fun leaf hleaf => ?_⟩
    rcases List.mem_append.1 hleaf with hm | hm
    · exact hcl leaf hm
    · exact hcr leaf hm

theorem bindAltrql_where {ir : AltrQueryIR} {schema : SourceSchema} {q : BoundAltrQueryIR}
    (h : bindAltrql ir schema = .ok q) :
    q.operation = ir.operation ∧ ∃ entity, bindWhere entity ir.where_ = .ok q.where_ := by
  simp only [bindAltrql, bind_eq_ok, pure_eq_ok] at h
  obtain ⟨entity, -, _, -, _, -, _, -, w, hw, _, -, _, -, rfl⟩ := h
  exact ⟨rfl, entity, hw⟩

theorem bindWhere_eq_some {entity : EntitySchema} {w : Option Expression} {e : BoundExpression}
    (h : bindWhere entity w = .ok (some e)) : ∃ expr, w = some expr ∧
      bindExpression entity expr = .ok e := by
  cases w with
  | none => cases h
  | some expr =>
    obtain ⟨e', he, hsome⟩ := map_eq_ok.1 h
    cases hsome
    exact ⟨expr, rfl, he⟩

/-- A query that has passed `parse_altrql` and `bind_altrql`. -/
def AcceptedFrom (u : Unicode) (queryText : String) (schema : SourceSchema)
    (q : BoundAltrQueryIR) : Prop :=
  ∃ ir, parseAltrql u queryText = .ok ir ∧ bindAltrql ir schema = .ok q

def Accepted (q : BoundAltrQueryIR) : Prop := ∃ u queryText schema, AcceptedFrom u queryText schema q

theorem acceptedFrom_of_run {u : Unicode} {queryText : String} {schema : SourceSchema}
    {q : BoundAltrQueryIR}
    (h : (parseAltrql u queryText >>= fun ir => bindAltrql ir schema) = .ok q) :
    AcceptedFrom u queryText schema q := bind_eq_ok.1 h

/-- Every leaf that reaches a lowerer is well formed, parsed and type-checked. -/
theorem Accepted.leaves {q : BoundAltrQueryIR} (h : Accepted q) {e : BoundExpression}
    (he : q.where_ = some e) {leaf : BoundFieldExpression} (hleaf : leaf ∈ e.atoms) :
    leaf.operand.WellFormed ∧ leaf.operand.Parsed leaf.operator ∧ leaf.TypeChecked := by
  obtain ⟨u, text, schema, ir, hparse, hbind⟩ := h
  obtain ⟨-, entity, hwhere⟩ := bindAltrql_where hbind
  obtain ⟨expr, hexpr, hbound⟩ := bindWhere_eq_some (he ▸ hwhere)
  obtain ⟨hmap, hchecked⟩ := bindExpression_eq_ok hbound
  have hmem : leaf.unbound ∈ expr.atoms := by
    rw [← hmap, Formula.atoms_map]
    exact List.mem_map_of_mem hleaf
  obtain ⟨hwf, hparsed⟩ := parseAltrql_leaves hparse hexpr _ hmem
  exact ⟨hwf, hparsed, hchecked leaf hleaf⟩

theorem bindAltrql_window {ir : AltrQueryIR} {schema : SourceSchema} {q : BoundAltrQueryIR}
    (h : bindAltrql ir schema = .ok q) : q.operation = ir.operation ∧ q.limit = ir.limit ∧
      q.offset = ir.offset ∧ q.ranking.map (·.count) = ir.ranking.map (·.count) := by
  simp only [bindAltrql, bind_eq_ok, pure_eq_ok] at h
  obtain ⟨_, -, _, -, _, -, _, -, _, -, _, -, ranking, hranking, rfl⟩ := h
  refine ⟨rfl, rfl, rfl, ?_⟩
  cases hir : ir.ranking with
  | none =>
    rw [hir] at hranking
    cases hranking
    rfl
  | some r =>
    simp only [hir, bindRanking, bind_eq_ok, pure_eq_ok] at hranking
    obtain ⟨_, -, rfl⟩ := hranking
    rfl

/-! ### The schema of the unit tests -/

namespace TestSchema

def field (name : String) (dataType : StandardDataType) (nativeType : String) : BoundFieldPath :=
  { path := ⟨name, []⟩, dataType, nativeType }

def age : BoundFieldPath := field "age" .integer "integer"

def createdAt : BoundFieldPath := field "created_at" .timestamp "timestamp"

def users : EntitySchema where
  name := "users"
  namespace_ := "public"
  fields :=
    [{ name := "id", dataType := .integer, nativeDataType := "integer", isPrimaryKey := true },
     { name := "username", dataType := .string, nativeDataType := "varchar" },
     { name := "age", dataType := .integer, nativeDataType := "integer" },
     { name := "is_active", dataType := .boolean, nativeDataType := "boolean" },
     { name := "created_at", dataType := .timestamp, nativeDataType := "timestamp" },
     { name := "metadata", dataType := .json, nativeDataType := "jsonb" }]
  primaryKey := ["id"]

def schema : SourceSchema := ⟨"src_pg", "Test Source", [users]⟩

/-- A query on the users whose WHERE tree is `expr`. -/
def query (operation : QueryOperation) (expr : BoundExpression) : BoundAltrQueryIR where
  operation := operation
  entity := boundEntity users
  where_ := some expr
  sourceId := schema.sourceId
  sourceName := schema.sourceName

end TestSchema

/-! ## Normalised queries

The payload of a CREATE has two representations: records, or assignments that
stand for one record. The normaliser, the validator and the binder all let the
records come first, so a normalised query is accepted and bound like the query
it was made of.
-/

section
variable (ir : AltrQueryIR)

theorem normalizeIr_normalizeIr : normalizeIr (normalizeIr ir) = normalizeIr ir := by
  rcases normalizeIr_cases ir with heq | ⟨-, -, -, heq⟩
  · rw [heq, heq]
  · have hagain := normalizeIr_cases (normalizeIr ir)
    rcases hagain with hagain | ⟨-, hrecords, -⟩
    · exact hagain
    · rw [heq] at hrecords
      cases hrecords

/-- The binder sees no difference. -/
theorem recordsToBind_normalizeIr : recordsToBind (normalizeIr ir) = recordsToBind ir := by
  rcases normalizeIr_cases ir with heq | ⟨hoperation, hrecords, hassignments, heq⟩
  · rw [heq]
  · simp [heq, recordsToBind, hoperation, hrecords, hassignments]

theorem bindAltrql_normalizeIr (schema : SourceSchema) :
    bindAltrql (normalizeIr ir) schema = bindAltrql ir schema := by
  have hrecords := recordsToBind_normalizeIr ir
  rcases normalizeIr_cases ir with heq | ⟨-, -, -, heq⟩
  · rw [heq]
  · rw [bindAltrql, hrecords, heq]
    rfl

end

/-- The record that the assignments become is checked as the assignments were. -/
theorem validateIr_normalizeIr {ir : AltrQueryIR} (h : validateIr ir = .ok ()) :
    validateIr (normalizeIr ir) = .ok () := by
  rcases normalizeIr_cases ir with heq | ⟨hoperation, hrecords, hassignments, heq⟩
  · rwa [heq]
  · obtain ⟨operation, entity, projection, where_, assignments, records, sort, ranking, limit, offset⟩ := ir
    dsimp only at hoperation hrecords hassignments heq
    subst hoperation hrecords
    rw [heq]
    simp only [validateIr, validateCreate, validateCreatePayload, bind_eq_ok, raiseIf_eq_ok] at h ⊢
    obtain ⟨-, -, _, hpayload, hclauses⟩ := h
    rw [if_neg (not_not.2 rfl)] at hpayload
    refine ⟨(), by simp, (), ?_, hclauses⟩
    rw [if_pos (List.cons_ne_nil _ _), checkAll_eq_ok]
    rintro record (_ | ⟨_, ⟨⟩⟩)
    simp only [validateRecord, bind_eq_ok, raiseIf_eq_ok]
    exact ⟨(), hassignments, hpayload⟩

/-- Normalising twice is normalising once, and a normalised query is accepted, filters and is bound
like the accepted query that it was made of. -/
theorem normalizeIr_faithful {ir : AltrQueryIR} (h : validateIr ir = .ok ()) :
    normalizeIr (normalizeIr ir) = normalizeIr ir ∧ validateIr (normalizeIr ir) = .ok () ∧
      (normalizeIr ir).where_ = ir.where_ ∧
      ∀ schema, bindAltrql (normalizeIr ir) schema = bindAltrql ir schema :=
  ⟨normalizeIr_normalizeIr ir, validateIr_normalizeIr h, normalizeIr_where ir,
    bindAltrql_normalizeIr ir⟩

/-- A CREATE that is built with assignments alone. -/
def TestSchema.createBob : AltrQueryIR :=
  { operation := .create, entity := "users",
    assignments := [⟨⟨"username", []⟩, .string "bob"⟩, ⟨⟨"age", []⟩, .integer 41⟩] }

/-- Its assignments become a record, and the same record is bound. -/
theorem normalizeIr_faithful_createBob : validateIr TestSchema.createBob = .ok () ∧
    normalizeIr TestSchema.createBob ≠ TestSchema.createBob ∧
    bindAltrql (normalizeIr TestSchema.createBob) TestSchema.schema =
      bindAltrql TestSchema.createBob TestSchema.schema := by
  have hvalid : validateIr TestSchema.createBob = .ok () := by decide
  exact ⟨hvalid, by decide, (normalizeIr_faithful hvalid).2.2.2 TestSchema.schema⟩

end AltrStream.QueryEngine
