import AltrStream.QueryEngine.Faithful
import AltrStream.QueryEngine.LogicalResolver
import AltrStream.QueryEngine.TypeSound
import AltrStream.Foundations.Checks
import AltrStream.QueryEngine.Binder

/-! # Which queries are bound

An accepted query is bound exactly if its entity and its fields are in the schema and
its leaves and assignments are typed. The bound query is the same query.
-/
namespace AltrStream.QueryEngine
open Foundations Python

/-! ### Bound queries without their columns -/

def BoundFieldSelection.unbound (sel : BoundFieldSelection) : FieldSelection :=
  ⟨sel.field.path, sel.alias_⟩

def BoundMutationAssignment.unbound (assign : BoundMutationAssignment) : MutationAssignment :=
  ⟨assign.field.path, assign.value⟩

def BoundCreateRecord.unbound (record : BoundCreateRecord) : CreateRecord :=
  ⟨record.assignments.map (·.unbound)⟩

def BoundSortClause.unbound (clause : BoundSortClause) : SortClause :=
  ⟨clause.field.path, clause.direction⟩

def BoundRankingClause.unbound (ranking : BoundRankingClause) : RankingClause :=
  ⟨ranking.direction, ranking.count, ranking.field.path⟩

/-- The query that a bound query is, clause by clause. -/
def BoundAltrQueryIR.unbound (q : BoundAltrQueryIR) : AltrQueryIR where
  operation := q.operation
  entity := q.entity.name
  projection := q.projection.map (·.unbound)
  where_ := q.where_.map (·.map BoundFieldExpression.unbound)
  assignments := q.assignments.map (·.unbound)
  records := q.records.map (·.unbound)
  sort := q.sort.map (·.unbound)
  ranking := q.ranking.map (·.unbound)
  limit := q.limit
  offset := q.offset

def BoundAltrQueryIR.leaves (q : BoundAltrQueryIR) : List BoundFieldExpression :=
  q.where_.elim [] Formula.atoms

/-- The assignments of the query and of its records. -/
def BoundAltrQueryIR.writes (q : BoundAltrQueryIR) : List BoundMutationAssignment :=
  q.assignments ++ q.records.flatMap (·.assignments)

def BoundAltrQueryIR.fields (q : BoundAltrQueryIR) : List BoundFieldPath :=
  q.projection.map (·.field) ++ q.leaves.map (·.field) ++ q.writes.map (·.field) ++
    q.sort.map (·.field) ++ q.ranking.toList.map (·.field)

structure BoundAltrQueryIR.Typed (q : BoundAltrQueryIR) : Prop where
  leaves : ∀ e ∈ q.leaves, LeafTyped e.field e.operator e.operand
  writes : ∀ a ∈ q.writes, Assignable a.field a.value

/-- The bound path is the column that its path has in the entity. -/
def IsColumn (entity : EntitySchema) (field : BoundFieldPath) : Prop :=
  bindFieldPath field.path entity = .ok field

def BoundAltrQueryIR.Over (q : BoundAltrQueryIR) (entity : EntitySchema) : Prop :=
  q.entity = boundEntity entity ∧ ∀ field ∈ q.fields, IsColumn entity field

/-! ### What binding asks of a query -/

def AltrQueryIR.leaves (ir : AltrQueryIR) : List FieldExpression := ir.where_.elim [] Formula.atoms

def AltrQueryIR.writes (ir : AltrQueryIR) : List MutationAssignment :=
  ir.assignments ++ ir.records.flatMap (·.assignments)

section
variable (entity : EntitySchema)

def Resolvable (path : FieldPath) : Prop := ∃ field, bindFieldPath path entity = .ok field

/-- Every field of the query is one of the entity's. -/
def Resolves (ir : AltrQueryIR) : Prop := ∀ path ∈ ir.references, Resolvable entity path

def LeafTypedIn (e : FieldExpression) : Prop :=
  ∀ field, bindFieldPath e.field entity = .ok field → LeafTyped field e.operator e.operand

def AssignableIn (a : MutationAssignment) : Prop :=
  ∀ field, bindFieldPath a.field entity = .ok field → Assignable field a.value

/-- The columns of the entity have the types that the leaves and assignments ask for. -/
structure TypedIn (ir : AltrQueryIR) : Prop where
  leaves : ∀ e ∈ ir.leaves, LeafTypedIn entity e
  writes : ∀ a ∈ ir.writes, AssignableIn entity a

end

variable {entity : EntitySchema}

theorem settles_path (path : FieldPath) : Settles (bindFieldPath path entity)
    (Resolvable entity path) fun field => field.path = path ∧ IsColumn entity field := by
  refine (Settles.refl _).mono fun field h => ?_
  have hpath := bindFieldPath_path h
  exact ⟨hpath, show bindFieldPath field.path entity = .ok field from hpath ▸ h⟩

/-- A path whose column is checked. -/
theorem settles_checked {α : Type} {path : FieldPath} {check : BoundFieldPath → Except PyError Unit}
    {p : BoundFieldPath → Prop} {make : BoundFieldPath → α}
    (hcheck : ∀ field, check field = .ok () ↔ p field) :
    Settles (bindFieldPath path entity >>= fun field => check field >>= fun _ => .ok (make field))
      (Resolvable entity path ∧ ∀ field, bindFieldPath path entity = .ok field → p field)
      fun a => ∃ field, a = make field ∧ field.path = path ∧ IsColumn entity field ∧ p field := by
  cases hbind : bindFieldPath path entity with
  | error e => exact (Settles.error e).congr (by simp [Resolvable, hbind])
  | ok field =>
    have hcolumn := (settles_path path).of_eq_ok hbind
    have hrest : Settles (check field >>= fun _ => (.ok (make field) : Except PyError α)) (p field)
        fun a => ∃ field, a = make field ∧ field.path = path ∧ IsColumn entity field ∧ p field := by
      refine ((Settles.refl (check field)).bind_ok fun _ hok => Settles.ok ?_).congr ?_
      · exact ⟨field, rfl, hcolumn.2.1, hcolumn.2.2, (hcheck field).1 hok⟩
      · exact ⟨fun ⟨_, hok⟩ => (hcheck field).1 hok, fun h => ⟨(), (hcheck field).2 h⟩⟩
    exact hrest.congr (by simp [Resolvable, hbind])

/-- A leaf is bound to itself, over a column that it is typed for. -/
theorem settles_leaf {e : FieldExpression} (hvalid : validateFieldExpression e = .ok ())
    (hparsed : e.operand.Parsed e.operator) :
    Settles (bindFieldExpression entity e) (Resolvable entity e.field ∧ LeafTypedIn entity e)
      fun b => b.unbound = e ∧ IsColumn entity b.field ∧ LeafTyped b.field b.operator b.operand := by
  have hcheck : ∀ field, validateFieldOperatorAndOperand field e.operator e.operand = .ok () ↔
      LeafTyped field e.operator e.operand :=
    fun _ => validateFieldOperatorAndOperand_iff hparsed hvalid
  refine (settles_checked hcheck).mono fun b hb => ?_
  obtain ⟨field, rfl, hpath, hcolumn, htyped⟩ := hb
  exact ⟨by rw [BoundFieldExpression.unbound, hpath], hcolumn, htyped⟩

theorem settles_assignment (a : MutationAssignment) :
    Settles (bindAssignment entity a) (Resolvable entity a.field ∧ AssignableIn entity a)
      fun b => b.unbound = a ∧ IsColumn entity b.field ∧ Assignable b.field b.value := by
  refine (settles_checked fun field => validateAssignmentValue_iff).mono fun b hb => ?_
  obtain ⟨field, rfl, hpath, hcolumn, hassignable⟩ := hb
  exact ⟨by rw [BoundMutationAssignment.unbound, hpath], hcolumn, hassignable⟩

theorem settles_expression {expr : Expression} (h : ∀ e ∈ expr.atoms,
    validateFieldExpression e = .ok () ∧ e.operand.Parsed e.operator) :
    Settles (bindExpression entity expr)
      (∀ e ∈ expr.atoms, Resolvable entity e.field ∧ LeafTypedIn entity e)
      fun b => b.map BoundFieldExpression.unbound = expr ∧
        ∀ e ∈ b.atoms, IsColumn entity e.field ∧ LeafTyped e.field e.operator e.operand := by
  induction expr with
  | atom e =>
    obtain ⟨hvalid, hparsed⟩ := h e (List.mem_singleton_self e)
    refine ((settles_leaf hvalid hparsed).bind_ok fun b hb => Settles.ok ?_).congr
      (by simp [Formula.atoms])
    exact ⟨congrArg Formula.atom hb.1, by simpa [Formula.atoms] using hb.2⟩
  | not e ih =>
    exact (ih h).bind_ok fun b hb => Settles.ok ⟨congrArg Formula.not hb.1, hb.2⟩
  | and l r hl hr | or l r hl hr =>
    obtain ⟨hleft, hright⟩ := List.forall_mem_append.1 h
    refine (Settles.bind (hl hleft) fun l' hl' => (hr hright).bind_ok fun r' hr' =>
      Settles.ok ?_).congr List.forall_mem_append.symm
    exact ⟨by rw [Formula.map, hl'.1, hr'.1], List.forall_mem_append.2 ⟨hl'.2, hr'.2⟩⟩

/-- What binding makes of each member of a list is the list, over columns. -/
theorem unbound_of_forall₂ {α β : Type} {unbound : β → α} {good : β → Prop} {l : List α} {bs : List β}
    (h : List.Forall₂ (fun a b => unbound b = a ∧ good b) l bs) :
    bs.map unbound = l ∧ ∀ b ∈ bs, good b := by
  induction h with
  | nil => exact ⟨rfl, by simp⟩
  | cons h _ ih => exact ⟨congrArg₂ List.cons h.1 ih.1, List.forall_mem_cons.2 ⟨h.2, ih.2⟩⟩

theorem settles_all {α β : Type} {f : α → Except PyError β} {p : α → Prop} {unbound : β → α}
    {good : β → Prop} (hf : ∀ a, Settles (f a) (p a) fun b => unbound b = a ∧ good b) (l : List α) :
    Settles (l.mapM f) (∀ a ∈ l, p a) fun bs => bs.map unbound = l ∧ ∀ b ∈ bs, good b :=
  (Settles.mapM fun a _ => hf a).mono fun _ => unbound_of_forall₂

theorem settles_where {w : Option Expression} (h : ∀ expr, w = some expr → ∀ e ∈ expr.atoms,
    validateFieldExpression e = .ok () ∧ e.operand.Parsed e.operator) :
    Settles (bindWhere entity w)
      (∀ e ∈ w.elim [] Formula.atoms, Resolvable entity e.field ∧ LeafTypedIn entity e)
      fun b => b.map (·.map BoundFieldExpression.unbound) = w ∧
        ∀ e ∈ b.elim [] Formula.atoms,
          IsColumn entity e.field ∧ LeafTyped e.field e.operator e.operand := by
  cases w with
  | none => exact (Settles.ok ⟨rfl, by simp⟩).congr (by simp)
  | some expr =>
    exact (settles_expression (h expr rfl)).map fun b hb => ⟨congrArg some hb.1, hb.2⟩

theorem settles_selection (sel : FieldSelection) :
    Settles (bindSelection entity sel) (Resolvable entity sel.path)
      fun b => b.unbound = sel ∧ IsColumn entity b.field :=
  (settles_path sel.path).bind_ok fun field h =>
    Settles.ok ⟨by rw [BoundFieldSelection.unbound, h.1], h.2⟩

theorem settles_sortClause (clause : SortClause) :
    Settles (bindSortClause entity clause) (Resolvable entity clause.field)
      fun b => b.unbound = clause ∧ IsColumn entity b.field :=
  (settles_path clause.field).bind_ok fun field h =>
    Settles.ok ⟨by rw [BoundSortClause.unbound, h.1], h.2⟩

theorem settles_ranking (ranking : Option RankingClause) :
    Settles (bindRanking entity ranking) (∀ r ∈ ranking, Resolvable entity r.field)
      fun b => b.map (·.unbound) = ranking ∧ ∀ r ∈ b, IsColumn entity r.field := by
  cases ranking with
  | none => exact (Settles.ok ⟨rfl, by simp⟩).congr (by simp)
  | some r =>
    refine ((settles_path r.field).bind_ok fun field h => Settles.ok ⟨?_, ?_⟩).congr (by simp)
    · rw [Option.map_some, BoundRankingClause.unbound, h.1]
    · simpa using h.2

theorem settles_record (record : CreateRecord) :
    Settles (bindRecord entity record)
      (∀ a ∈ record.assignments, Resolvable entity a.field ∧ AssignableIn entity a)
      fun b => b.unbound = record ∧
        ∀ a ∈ b.assignments, IsColumn entity a.field ∧ Assignable a.field a.value :=
  (settles_all settles_assignment record.assignments).bind_ok fun _ h =>
    Settles.ok ⟨congrArg CreateRecord.mk h.1, h.2⟩

/-! ### The query -/

theorem assignmentsToBind_eq {ir : AltrQueryIR} (h : ir.OfStatement) :
    assignmentsToBind ir = ir.assignments := by
  unfold assignmentsToBind
  unfold AltrQueryIR.OfStatement at h
  cases hop : ir.operation <;> simp_all

theorem recordsToBind_eq {ir : AltrQueryIR} (h : ir.OfStatement) : recordsToBind ir = ir.records := by
  unfold recordsToBind
  unfold AltrQueryIR.OfStatement at h
  cases hop : ir.operation <;> simp_all

/-- An accepted query is that of a statement, its leaves validated. -/
theorem parseAltrql_statement {u : Unicode} {text : String} {ir : AltrQueryIR}
    (h : parseAltrql u text = .ok ir) : ir.OfStatement := by
  have h' := h
  simp only [parseAltrql, bind_eq_ok] at h'
  obtain ⟨tokens, htokens, -⟩ := h'
  exact (parseAltrql_reads u htokens h).2.statement

/-- A query of a statement's clauses, its leaves validated, is bound to itself. -/
theorem settles_statement {ir : AltrQueryIR} {schema : SourceSchema} (hstatement : ir.OfStatement)
    (hvalid : ∀ expr, ir.where_ = some expr → ∀ e ∈ expr.atoms,
      validateFieldExpression e = .ok () ∧ e.operand.Parsed e.operator)
    (hentity : resolveEntity ir.entity schema = .ok entity) :
    Settles (bindAltrql ir schema) (Resolves entity ir ∧ TypedIn entity ir)
      fun q => q.unbound = ir ∧ q.Over entity ∧ q.Typed := by
  have hname : entity.name = ir.entity := by simpa using List.find?_some (resolveEntity_eq_ok.1 hentity)
  have hwhere : Settles (bindWhere entity ir.where_) _ _ :=
    settles_where hvalid
  unfold bindAltrql
  rw [hentity, assignmentsToBind_eq hstatement, recordsToBind_eq hstatement]
  refine (Settles.bind (settles_all settles_selection ir.projection) fun projection hprojection =>
    Settles.bind (settles_all settles_record ir.records) fun records hrecords =>
    Settles.bind (settles_all settles_assignment ir.assignments) fun assignments hassignments =>
    Settles.bind hwhere fun where_ hw =>
    Settles.bind (settles_all settles_sortClause ir.sort) fun sort hsort =>
    (settles_ranking ir.ranking).bind_ok fun ranking hranking => Settles.ok ?_).congr ?_
  · refine ⟨?_, ⟨rfl, ?_⟩, ?_, ?_⟩
    · simp only [BoundAltrQueryIR.unbound, boundEntity, hprojection.1, hrecords.1, hassignments.1, hw.1,
        hsort.1, hranking.1, hname]
    · simp only [BoundAltrQueryIR.fields, BoundAltrQueryIR.leaves, BoundAltrQueryIR.writes,
        List.forall_mem_append, List.forall_mem_map, List.forall_mem_flatMap, List.map_append,
        List.map_flatMap, Option.mem_toList]
      exact ⟨⟨⟨⟨hprojection.2, fun e he => (hw.2 e he).1⟩, fun a ha => (hassignments.2 a ha).1,
        fun r hr a ha => (hrecords.2 r hr a ha).1⟩, hsort.2⟩, hranking.2⟩
    · exact fun e he => (hw.2 e he).2
    · refine List.forall_mem_append.2 ⟨fun a ha => (hassignments.2 a ha).2, ?_⟩
      exact List.forall_mem_flatMap.2 fun r hr a ha => (hrecords.2 r hr a ha).2
  · simp only [Resolves, AltrQueryIR.references, List.forall_mem_append, List.forall_mem_map,
      List.forall_mem_flatMap, Option.mem_toList]
    constructor
    · rintro ⟨hprojection, hrecords, hassignments, hwhere, hsort, hranking⟩
      refine ⟨⟨⟨⟨⟨⟨hprojection, fun e he => (hwhere e he).1⟩, fun a ha => (hassignments a ha).1⟩,
        fun r hr a ha => (hrecords r hr a ha).1⟩, hsort⟩, hranking⟩, fun e he => (hwhere e he).2, ?_⟩
      refine List.forall_mem_append.2 ⟨fun a ha => (hassignments a ha).2, ?_⟩
      exact List.forall_mem_flatMap.2 fun r hr a ha => (hrecords r hr a ha).2
    · rintro ⟨⟨⟨⟨⟨⟨hprojection, hwhere⟩, hassignments⟩, hrecords⟩, hsort⟩, hranking⟩, hleaves, hwrites⟩
      obtain ⟨hassigned, hrecorded⟩ := List.forall_mem_append.1 hwrites
      rw [List.forall_mem_flatMap] at hrecorded
      exact ⟨hprojection, fun r hr a ha => ⟨hrecords r hr a ha, hrecorded r hr a ha⟩,
        fun a ha => ⟨hassignments a ha, hassigned a ha⟩, fun e he => ⟨hwhere e he, hleaves e he⟩,
        hsort, hranking⟩

theorem settles_query {u : Unicode} {text : String} {ir : AltrQueryIR} {schema : SourceSchema}
    (hparse : parseAltrql u text = .ok ir) (hentity : resolveEntity ir.entity schema = .ok entity) :
    Settles (bindAltrql ir schema) (Resolves entity ir ∧ TypedIn entity ir)
      fun q => q.unbound = ir ∧ q.Over entity ∧ q.Typed :=
  settles_statement (parseAltrql_statement hparse) (fun _ => parseAltrql_validated hparse) hentity

/-- An accepted query is bound to itself, over the columns of its entity, and typed; and it is bound
whenever its entity and its fields are there and its leaves and assignments are typed. -/
theorem bindAltrql_typeSound {u : Unicode} {text : String} {ir : AltrQueryIR}
    (hparse : parseAltrql u text = .ok ir) (schema : SourceSchema) :
    (∀ q, bindAltrql ir schema = .ok q → q.unbound = ir ∧ q.Typed ∧
      ∃ entity, resolveEntity ir.entity schema = .ok entity ∧ q.Over entity) ∧
    ∀ entity, resolveEntity ir.entity schema = .ok entity → Resolves entity ir → TypedIn entity ir →
      ∃ q, bindAltrql ir schema = .ok q := by
  constructor
  · intro q hbind
    have hentity := hbind
    simp only [bindAltrql, bind_eq_ok] at hentity
    obtain ⟨entity, hentity, -⟩ := hentity
    obtain ⟨-, hunbound, hover, htyped⟩ := (settles_query hparse hentity).of_eq_ok hbind
    exact ⟨hunbound, htyped, entity, hentity, hover⟩
  · exact fun entity hentity hresolves htyped =>
      (settles_query hparse hentity).returns_iff.2 ⟨hresolves, htyped⟩

/-- A GET of the users under one condition. -/
def usersWhere (e : FieldExpression) : AltrQueryIR where
  entity := "users"
  where_ := some (.atom e)

theorem mem_references_usersWhere {e : FieldExpression} {path : FieldPath} :
    path ∈ (usersWhere e).references ↔ path = e.field := by
  simp [AltrQueryIR.references, usersWhere, Formula.atoms]

theorem mem_leaves_usersWhere {e e' : FieldExpression} : e' ∈ (usersWhere e).leaves ↔ e' = e := by
  simp [AltrQueryIR.leaves, usersWhere, Formula.atoms]

/-- `age > 18` -/
def overAge : FieldExpression := ⟨⟨"age", []⟩, .comparison .gt, .literal (.integer 18)⟩

theorem bindAltrql_typeSound_age :
    ∃ q, bindAltrql (usersWhere overAge) TestSchema.schema = .ok q ∧ q.Typed := by
  have hparse : parseAltrql .ascii "GET users WHERE \x7b age > 18 \x7d;" = .ok (usersWhere overAge) := by
    decide +kernel
  have hage : bindFieldPath overAge.field TestSchema.users = .ok TestSchema.age := rfl
  have htyped : LeafTypedIn TestSchema.users overAge := by
    intro field hfield
    obtain rfl : TestSchema.age = field := Except.ok.inj (hage.symm.trans hfield)
    refine ⟨fun _ => ?_, by rintro ⟨⟩, fun _ _ => by decide⟩
    constructor <;> simp [overAge, Operand.literals, Operand.ranges, Operand.constraints,
      Operand.hasCompound, LiteralValue.category?] <;> decide
  obtain ⟨hsound, hcomplete⟩ := bindAltrql_typeSound hparse TestSchema.schema
  obtain ⟨q, hq⟩ := hcomplete TestSchema.users rfl
    (fun path hpath => ⟨_, mem_references_usersWhere.1 hpath ▸ hage⟩)
    ⟨fun e he => mem_leaves_usersWhere.1 he ▸ htyped, fun a ha => absurd ha List.not_mem_nil⟩
  exact ⟨q, hq, (hsound q hq).2.1⟩

/-- The columns have the types of the literals, whatever is asked of nested paths and of columns
whose type is none of AltrQL's. -/
structure LiteralsTypedIn (entity : EntitySchema) (ir : AltrQueryIR) : Prop where
  leaves : ∀ e ∈ ir.leaves, ∀ field, bindFieldPath e.field entity = .ok field →
    field.path.isNested = false → WellTyped field.logicalCategory e.operator e.operand
  writes : ∀ a ∈ ir.writes, AssignableIn entity a

/-- `metadata = { NULL }` -/
def nullMetadata : FieldExpression :=
  ⟨⟨"metadata", []⟩, .comparison .eq, .valueSet [.literal .null]⟩

/-- A JSON column may be compared to NULL, but not to a set with NULL in it. -/
theorem not_bindAltrql_complete_metadata : ¬ ∀ ir entity,
    parseAltrql .ascii "GET users WHERE \x7b metadata = \x7b NULL \x7d \x7d;" = .ok ir →
    resolveEntity ir.entity TestSchema.schema = .ok entity → Resolves entity ir →
    LiteralsTypedIn entity ir → ∃ q, bindAltrql ir TestSchema.schema = .ok q := by
  intro hclaim
  have htyped : ∀ category, WellTyped category nullMetadata.operator nullMetadata.operand := by
    intro category
    constructor <;> simp [nullMetadata, Operand.literals, Operand.ranges, Operand.constraints,
      Operand.hasCompound, ValueSetElement.literals, ValueSetElement.ranges,
      ValueSetElement.constraints, ValueSetElement.isCompound, ComparisonOperator.isOrdering]
  have hcolumn : Resolvable TestSchema.users nullMetadata.field := ⟨_, rfl⟩
  obtain ⟨q, hq⟩ := hclaim (usersWhere nullMetadata) TestSchema.users (by decide +kernel) rfl
    (fun path hpath => mem_references_usersWhere.1 hpath ▸ hcolumn)
    ⟨fun e he _ _ _ => mem_leaves_usersWhere.1 he ▸ htyped _, fun a ha => absurd ha List.not_mem_nil⟩
  have hraises : (bindAltrql (usersWhere nullMetadata) TestSchema.schema).toOption.isSome = false := by
    decide +kernel
  rw [hq] at hraises
  cases hraises

end AltrStream.QueryEngine

/-! ## What binding fails with

An entity that the schema does not have, a field that the entity does not have, or
an operator or a literal that does not go with its field: the binder raises nothing
else.
-/
namespace AltrStream.QueryEngine
open Foundations Python

/-! ### The type validator -/

/-- A rejection of the type validator. -/
def PyError.isTypeError (e : PyError) : Prop := e.kind = .typeCompatibilityError

theorem requireCategory_failsOnly (field : BoundFieldPath) (literal : LiteralValue)
    (message : String) : FailsOnly (requireCategory field literal message) PyError.isTypeError := by
  unfold requireCategory
  split
  · exact .raiseIf rfl
  · exact .ok ()

theorem validateComparisonConstraint_failsOnly (field : BoundFieldPath)
    (constraint : ComparisonConstraint) :
    FailsOnly (validateComparisonConstraint field constraint) PyError.isTypeError :=
  .bind (.raiseIf rfl) fun _ _ => .bind (.raiseIf rfl) fun _ _ => requireCategory_failsOnly _ _ _

theorem validateFieldRange_failsOnly (field : BoundFieldPath) (range : Range) :
    FailsOnly (validateFieldRange field range) PyError.isTypeError := by
  unfold validateFieldRange
  split
  · exact .error rfl
  · exact .raiseIf rfl
  · exact .raiseIf rfl
  · exact .raiseIf rfl
  · exact .ok ()

theorem validateFieldValueSet_failsOnly (field : BoundFieldPath) (elements : List ValueSetElement) :
    FailsOnly (validateFieldValueSet field elements) PyError.isTypeError := by
  refine .checkAll fun element _ => ?_
  cases element with
  | literal l => exact requireCategory_failsOnly _ _ _
  | range r => exact validateFieldRange_failsOnly field r
  | constraint c => exact validateComparisonConstraint_failsOnly field c
  | compound cs =>
    exact .bind (.raiseIf rfl) fun _ _ =>
      .checkAll fun c _ => validateComparisonConstraint_failsOnly field c

theorem validateFieldStringOperand_failsOnly (field : BoundFieldPath) (op : StringOperator)
    (operand : Operand) :
    FailsOnly (validateFieldStringOperand field op operand) PyError.isTypeError := by
  refine .bind (.raiseIf rfl) fun _ _ => ?_
  split
  · exact validateFieldValueSet_failsOnly field _
  · exact .ok ()
  · exact .error rfl

theorem validateComparisonOperand_failsOnly (field : BoundFieldPath) (operand : Operand) :
    FailsOnly (validateComparisonOperand field operand) PyError.isTypeError := by
  unfold validateComparisonOperand
  split
  · exact validateFieldRange_failsOnly field _
  · exact validateFieldValueSet_failsOnly field _
  · exact requireCategory_failsOnly _ _ _
  · exact .ok ()
  · exact .ok ()

theorem validateFieldOperatorAndOperand_failsOnly (field : BoundFieldPath) (operator : Operator)
    (operand : Operand) :
    FailsOnly (validateFieldOperatorAndOperand field operator operand) PyError.isTypeError := by
  unfold validateFieldOperatorAndOperand
  split_ifs
  · cases operator with
    | string op => exact .error rfl
    | comparison op => exact .raiseIf rfl
  · exact .ok ()
  · refine .bind (.raiseIf rfl) fun _ _ => ?_
    cases operator with
    | string op => exact validateFieldStringOperand_failsOnly field op operand
    | comparison op =>
      exact .bind (.raiseIf rfl) fun _ _ => validateComparisonOperand_failsOnly field operand

theorem validateAssignmentValue_failsOnly (field : BoundFieldPath) (value : LiteralValue) :
    FailsOnly (validateAssignmentValue field value) PyError.isTypeError := by
  unfold validateAssignmentValue
  dsimp only
  by_cases hnull : value = .null
  · rw [if_pos hnull]
    exact .raiseIf rfl
  · rw [if_neg hnull]
    by_cases hunknown : field.logicalCategory = .unknown
    · rw [if_pos hunknown]
      exact .error rfl
    · rw [if_neg hunknown]
      exact .raiseIf rfl

/-! ### The binder -/

/-- The error is a rejection by type, or that of a field path that is not found. -/
def BindingError (entity : EntitySchema) (paths : List FieldPath) (e : PyError) : Prop :=
  e.isTypeError ∨ ∃ path ∈ paths, resolveFieldPath path entity = .error e

variable {entity : EntitySchema} {paths : List FieldPath}

theorem BindingError.mono {paths' : List FieldPath} (h : ∀ path ∈ paths, path ∈ paths') {e : PyError}
    (he : BindingError entity paths e) : BindingError entity paths' e :=
  he.imp id fun ⟨path, hpath, he⟩ => ⟨path, h path hpath, he⟩

theorem bindFieldPath_failsOnly {path : FieldPath} (h : path ∈ paths) :
    FailsOnly (bindFieldPath path entity) (BindingError entity paths) := by
  refine .bind (fun e he => .inr ⟨path, h, he⟩) fun _ _ => .ok _

theorem bindSelection_failsOnly {sel : FieldSelection} (h : sel.path ∈ paths) :
    FailsOnly (bindSelection entity sel) (BindingError entity paths) :=
  .bind (bindFieldPath_failsOnly h) fun _ _ => .ok _

theorem bindAssignment_failsOnly {assign : MutationAssignment} (h : assign.field ∈ paths) :
    FailsOnly (bindAssignment entity assign) (BindingError entity paths) :=
  .bind (bindFieldPath_failsOnly h) fun field _ =>
    .bind ((validateAssignmentValue_failsOnly field assign.value).mono fun _ => .inl) fun _ _ => .ok _

theorem bindRecord_failsOnly {record : CreateRecord}
    (h : ∀ assign ∈ record.assignments, assign.field ∈ paths) :
    FailsOnly (bindRecord entity record) (BindingError entity paths) :=
  .bind (.mapM fun assign hassign => bindAssignment_failsOnly (h assign hassign)) fun _ _ => .ok _

theorem bindFieldExpression_failsOnly {expr : FieldExpression} (h : expr.field ∈ paths) :
    FailsOnly (bindFieldExpression entity expr) (BindingError entity paths) :=
  .bind (bindFieldPath_failsOnly h) fun field _ =>
    .bind ((validateFieldOperatorAndOperand_failsOnly field _ _).mono fun _ => .inl)
      fun _ _ => .ok _

theorem bindExpression_failsOnly {expr : Expression} (h : ∀ leaf ∈ expr.atoms, leaf.field ∈ paths) :
    FailsOnly (bindExpression entity expr) (BindingError entity paths) := by
  induction expr with
  | atom a => exact .bind (bindFieldExpression_failsOnly (h a (by simp [Formula.atoms]))) fun _ _ => .ok _
  | not e ih => exact .bind (ih h) fun _ _ => .ok _
  | and l r hl hr | or l r hl hr =>
    exact .bind (hl fun leaf hleaf => h leaf (List.mem_append_left _ hleaf)) fun _ _ =>
      .bind (hr fun leaf hleaf => h leaf (List.mem_append_right _ hleaf)) fun _ _ => .ok _

theorem mem_references_projection {ir : AltrQueryIR} {sel : FieldSelection}
    (h : sel ∈ ir.projection) : sel.path ∈ ir.references := by
  simp only [AltrQueryIR.references, List.mem_append]
  exact .inl <| .inl <| .inl <| .inl <| .inl <| List.mem_map_of_mem h

theorem mem_references_where {ir : AltrQueryIR} {expr : Expression} (hexpr : ir.where_ = some expr)
    {leaf : FieldExpression} (h : leaf ∈ expr.atoms) : leaf.field ∈ ir.references := by
  simp only [AltrQueryIR.references, List.mem_append, hexpr]
  exact .inl <| .inl <| .inl <| .inl <| .inr <| List.mem_map_of_mem h

theorem mem_references_assignments {ir : AltrQueryIR} {assign : MutationAssignment}
    (h : assign ∈ ir.assignments) : assign.field ∈ ir.references := by
  simp only [AltrQueryIR.references, List.mem_append]
  exact .inl <| .inl <| .inl <| .inr <| List.mem_map_of_mem h

theorem mem_references_records {ir : AltrQueryIR} {record : CreateRecord} (hrecord : record ∈ ir.records)
    {assign : MutationAssignment} (h : assign ∈ record.assignments) :
    assign.field ∈ ir.references := by
  simp only [AltrQueryIR.references, List.mem_append]
  exact .inl <| .inl <| .inr <| List.mem_flatMap.2 ⟨record, hrecord, List.mem_map_of_mem h⟩

theorem mem_references_sort {ir : AltrQueryIR} {clause : SortClause} (h : clause ∈ ir.sort) :
    clause.field ∈ ir.references := by
  simp only [AltrQueryIR.references, List.mem_append]
  exact .inl <| .inr <| List.mem_map_of_mem h

theorem mem_references_ranking {ir : AltrQueryIR} {ranking : RankingClause}
    (h : ir.ranking = some ranking) : ranking.field ∈ ir.references := by
  simp only [AltrQueryIR.references, List.mem_append, h]
  exact .inr <| List.mem_map_of_mem <| by simp

/-- The records that are bound assign fields that the query refers to. -/
theorem recordsToBind_references {ir : AltrQueryIR} {record : CreateRecord}
    (hrecord : record ∈ recordsToBind ir) {assign : MutationAssignment}
    (h : assign ∈ record.assignments) : assign.field ∈ ir.references := by
  unfold recordsToBind at hrecord
  split_ifs at hrecord
  · cases hrecord
  · exact mem_references_records hrecord h
  · obtain rfl := List.mem_singleton.1 hrecord
    exact mem_references_assignments h
  · cases hrecord

/-- The binder fails for the entity, for a field path that the query refers to, or by type. -/
theorem bindAltrql_failsOnly (ir : AltrQueryIR) (schema : SourceSchema) :
    FailsOnly (bindAltrql ir schema) fun e => resolveEntity ir.entity schema = .error e ∨
      ∃ entity, resolveEntity ir.entity schema = .ok entity ∧ BindingError entity ir.references e := by
  refine .bind (fun e he => .inl he) fun entity hentity => ?_
  refine FailsOnly.mono (p := BindingError entity ir.references) ?_ fun e he => .inr ⟨entity, hentity, he⟩
  refine .bind (.mapM fun sel hsel => bindSelection_failsOnly (mem_references_projection hsel))
    fun _ _ => ?_
  refine .bind (.mapM fun record hrecord => bindRecord_failsOnly fun assign hassign =>
    recordsToBind_references hrecord hassign) fun _ _ => ?_
  refine .bind (.mapM fun assign hassign => bindAssignment_failsOnly ?_) fun _ _ => ?_
  · unfold assignmentsToBind at hassign
    split_ifs at hassign
    · exact mem_references_assignments hassign
    · cases hassign
  refine .bind ?_ fun _ _ => ?_
  · cases hwhere : ir.where_ with
    | none => exact .ok none
    | some expr =>
      exact .map (bindExpression_failsOnly fun leaf hleaf => mem_references_where hwhere hleaf) _
  refine .bind (.mapM fun clause hclause => .bind
    (bindFieldPath_failsOnly (mem_references_sort hclause)) fun _ _ => .ok _) fun _ _ => ?_
  refine .bind ?_ fun _ _ => .ok _
  cases hranking : ir.ranking with
  | none => exact .ok none
  | some ranking =>
    exact .bind (bindFieldPath_failsOnly (mem_references_ranking hranking)) fun _ _ => .ok _

end AltrStream.QueryEngine
