import AltrStream.QueryEngine.Binder
import AltrStream.QueryEngine.LogicalResolver

/-! # Validity of resolved queries

A query is validated by the names that it is written with, and resolved to columns
afterwards. The mapping of names is many-to-one, and a renamed column is labelled
with its logical name, so what was unique before need not be so afterwards.
-/
namespace AltrStream.QueryEngine
open Foundations Python Domain

/-- The assignment lists of a mutation: that of an UPDATE, and one for each record of a CREATE. -/
def AltrQueryIR.payloads (ir : AltrQueryIR) : List (List MutationAssignment) :=
  match ir.operation with
  | .create => (recordsToBind ir).map CreateRecord.assignments
  | .update => [ir.assignments]
  | .read | .delete => []

/-- The operators and operands of the WHERE tree, the directions of the sort list and the values of
the assignments are those of `ir`, in their places. -/
structure AltrQueryIR.SameShape (ir resolved : AltrQueryIR) : Prop where
  where_ : resolved.where_.map (·.map fun e => (e.operator, e.operand)) =
    ir.where_.map (·.map fun e => (e.operator, e.operand))
  sort : resolved.sort.map (·.direction) = ir.sort.map (·.direction)
  assignments : resolved.assignments.map (·.value) = ir.assignments.map (·.value)
  records : resolved.records.map (·.assignments.map (·.value)) =
    ir.records.map (·.assignments.map (·.value))

section
variable (py : Casing)

/-- What is asked of the resolved query, if there is one. -/
def StaysValid (mapping : SourceMapping) (ir : AltrQueryIR) : Prop :=
  ∀ resolved, resolveLogicalIr py ir mapping = .ok resolved →
    validateIr resolved = .ok () ∧ ir.SameShape resolved ∧
      ∀ payload ∈ resolved.payloads, (payload.map (·.field.root)).Nodup

variable (d : Dict String String)

/-- The column that a name stands for; an unknown name stands for itself. -/
def columnOf (name : String) : String := (d.get? (lookupKey py d name)).getD name

/-- The path into the column that a path of names stands for. -/
def columnPath (path : FieldPath) : String := ".".intercalate (columnOf py d path.root :: path.keys)

/-- The label of a selection: its alias, or the name of a column that is called otherwise. -/
def labelOf (sel : FieldSelection) : Option String :=
  sel.alias_.or <|
    if sel.path.keys = [] ∧ columnOf py d sel.path.root ≠ sel.path.root then some sel.path.root
    else none

/-- The names of one payload stand for different columns, and the labels of a READ differ. -/
structure KeptApart (ir : AltrQueryIR) : Prop where
  columns : ∀ payload ∈ ir.payloads, (payload.map fun a => columnOf py d a.field.root).Nodup
  paths : ∀ payload ∈ ir.payloads, (payload.map fun a => columnPath py d a.field).Nodup
  labels : ir.operation = .read → (ir.projection.filterMap (labelOf py d)).Nodup

end

/-! ### What the resolver makes of each part -/

section
variable {py : Casing} {d : Dict String String}

theorem resolveName_eq (path : FieldPath) :
    resolveName py d path = { path with root := columnOf py d path.root } := by
  unfold resolveName columnOf
  cases d.get? (lookupKey py d path.root) <;> rfl

theorem resolveName_fullPath (path : FieldPath) :
    (resolveName py d path).fullPath = columnPath py d path := by
  rw [resolveName_eq]
  rfl

theorem resolveSelection_alias (sel : FieldSelection) :
    (resolveSelection py d sel).alias_ = labelOf py d sel := by
  obtain ⟨⟨root, keys⟩, alias_⟩ := sel
  simp only [resolveSelection, labelOf, resolveName_eq, FieldPath.leaf]
  cases keys with
  | nil => simp
  | cons key keys => simp [List.getLast?_cons]

theorem payloads_resolveClauses (entity : String) (ir : AltrQueryIR) :
    (resolveClauses py d entity ir).payloads = ir.payloads.map (·.map (resolveAssignment py d)) := by
  obtain ⟨operation, entity, projection, where_, assignments, records, sort, ranking, limit, offset⟩ := ir
  cases operation with
  | read | update | delete => rfl
  | create =>
    simp only [AltrQueryIR.payloads, resolveClauses, recordsToBind, ne_eq, List.map_eq_nil_iff]
    by_cases hrecords : records = []
    · by_cases hassignments : assignments = [] <;> simp [hrecords, hassignments]
    · simp [hrecords, Function.comp_def]

theorem validateExpression_map {g : FieldExpression → FieldExpression}
    (h : ∀ e, validateFieldExpression (g e) = validateFieldExpression e) (expr : Expression) :
    validateExpression (expr.map g) = validateExpression expr := by
  induction expr with
  | atom e => exact h e
  | not e ih => exact ih
  | and l r hl hr | or l r hl hr => rw [Formula.map, validateExpression, validateExpression, hl, hr]

theorem validateWhere_resolveClauses (entity : String) (ir : AltrQueryIR) :
    validateWhere (resolveClauses py d entity ir) = validateWhere ir := by
  unfold validateWhere resolveClauses
  cases ir.where_ with
  | none => rfl
  | some expr =>
    exact @validateExpression_map (fun e => { e with field := resolveName py d e.field })
      (fun _ => rfl) expr

theorem sameShape_resolveClauses (entity : String) (ir : AltrQueryIR) :
    ir.SameShape (resolveClauses py d entity ir) where
  where_ := by
    unfold resolveClauses
    cases ir.where_ with
    | none => rfl
    | some expr =>
      refine congrArg some ?_
      dsimp only
      induction expr with
      | atom e => rfl
      | not e ih => exact congrArg Formula.not ih
      | and l r hl hr | or l r hl hr => simp only [Formula.map, hl, hr]
  sort := by simp [resolveClauses]
  assignments := by simp [resolveClauses, resolveAssignment]
  records := by simp [resolveClauses, resolveAssignment]

theorem validateMutationAssignments_resolve {assignments : List MutationAssignment} {x : Unit} :
    validateMutationAssignments (assignments.map (resolveAssignment py d)) = .ok x ↔
      (assignments.map fun a => columnPath py d a.field).Nodup := by
  rw [validateMutationAssignments_eq_ok, List.map_map]
  refine Eq.to_iff (congrArg List.Nodup (List.map_congr_left fun a _ => ?_))
  exact resolveName_fullPath a.field

theorem validateProjections_resolveClauses {ir : AltrQueryIR} {entity : String} {x : Unit} :
    validateProjections (resolveClauses py d entity ir) = .ok x ↔
      (ir.projection.filterMap (labelOf py d)).Nodup := by
  rw [validateProjections_eq_ok]
  simp only [resolveClauses, List.filterMap_map, Function.comp_def, resolveSelection_alias]

theorem disallowReadClauses_resolveClauses {ir : AltrQueryIR} (entity : String)
    (h : disallowReadClauses ir = .ok ()) :
    disallowReadClauses (resolveClauses py d entity ir) = .ok () := by
  obtain ⟨hprojection, hwhere, hsort, hranking, hlimit, hoffset⟩ := disallowReadClauses_eq_ok.1 h
  refine disallowReadClauses_eq_ok.2 ⟨?_, ?_, ?_, ?_, hlimit, hoffset⟩
  · exact List.map_eq_nil_iff.2 hprojection
  · simpa [resolveClauses] using hwhere
  · exact List.map_eq_nil_iff.2 hsort
  · exact Option.map_eq_none_iff.2 hranking

theorem validateCreatePayload_resolveClauses {ir : AltrQueryIR} (entity : String)
    (hoperation : ir.operation = .create) (h : validateCreatePayload ir = .ok ())
    (hsome : ¬(ir.records = [] ∧ ir.assignments = [])) :
    validateCreatePayload (resolveClauses py d entity ir) = .ok () ↔
      ∀ payload ∈ ir.payloads, (payload.map fun a => columnPath py d a.field).Nodup := by
  simp only [AltrQueryIR.payloads, hoperation, validateCreatePayload, resolveClauses,
    recordsToBind] at h ⊢
  by_cases hrecords : ir.records = []
  · have hassignments : ir.assignments ≠ [] := fun hnil => hsome ⟨hrecords, hnil⟩
    simp [hrecords, hassignments, validateMutationAssignments_resolve]
  · rw [if_pos hrecords, checkAll_eq_ok] at h
    have hkept : ∀ record ∈ ir.records, record.assignments ≠ [] := fun record hrecord => by
      have hvalid := h record hrecord
      simp only [validateRecord, bind_eq_ok, raiseIf_eq_ok] at hvalid
      exact hvalid.choose_spec.1
    simp only [ne_eq, List.map_eq_nil_iff, hrecords, not_false_eq_true, not_true_eq_false, if_true,
      if_false, checkAll_eq_ok, List.forall_mem_map, validateRecord, bind_eq_ok, raiseIf_eq_ok,
      validateMutationAssignments_resolve]
    refine forall₂_congr fun record hrecord => ?_
    simp [hkept record hrecord]

/-- What was accepted is accepted again, if its paths and its labels still differ. -/
theorem validateIr_resolveClauses {ir : AltrQueryIR} (entity : String) (h : validateIr ir = .ok ()) :
    validateIr (resolveClauses py d entity ir) = .ok () ↔
      (∀ payload ∈ ir.payloads, (payload.map fun a => columnPath py d a.field).Nodup) ∧
        (ir.operation = .read → (ir.projection.filterMap (labelOf py d)).Nodup) := by
  have hwhere := @validateWhere_resolveClauses py d entity ir
  have hclauses := @disallowReadClauses_resolveClauses py d ir entity
  have hoperation' : (resolveClauses py d entity ir).operation = ir.operation := rfl
  have hassignments' : (resolveClauses py d entity ir).assignments = [] ↔ ir.assignments = [] :=
    List.map_eq_nil_iff
  have hrecords' : (resolveClauses py d entity ir).records = [] ↔ ir.records = [] :=
    List.map_eq_nil_iff
  cases hoperation : ir.operation with
  | read =>
    have hranking : validateRanking (resolveClauses py d entity ir) = validateRanking ir := by
      unfold validateRanking resolveClauses
      cases ir.ranking <;> rfl
    have hlimit : validateLimit (resolveClauses py d entity ir) = validateLimit ir := by
      unfold validateLimit resolveClauses
      cases ir.ranking <;> rfl
    have hsort : validateSortAndRankingMutualExclusion (resolveClauses py d entity ir) =
        validateSortAndRankingMutualExclusion ir := by
      unfold validateSortAndRankingMutualExclusion resolveClauses
      cases ir.ranking <;> cases ir.sort <;> rfl
    have hoffset : validateOffset (resolveClauses py d entity ir) = validateOffset ir := rfl
    simp only [validateIr, hoperation, check_bind_eq_ok, raiseIf_eq_ok] at h
    obtain ⟨hassignments, -, hrest⟩ := h
    simp only [validateIr, hoperation', hoperation, check_bind_eq_ok, raiseIf_eq_ok, hranking, hlimit,
      hsort, hoffset, hwhere, validateProjections_resolveClauses, hrest, ne_eq, hassignments']
    simpa [AltrQueryIR.payloads, hoperation] using fun _ => hassignments
  | create =>
    simp only [validateIr, hoperation, validateCreate, check_bind_eq_ok, raiseIf_eq_ok] at h
    obtain ⟨hsome, hpayload, hdisallowed⟩ := h
    simp only [validateIr, hoperation', hoperation, validateCreate, check_bind_eq_ok, raiseIf_eq_ok,
      hrecords', hassignments', hsome, hclauses hdisallowed,
      validateCreatePayload_resolveClauses entity hoperation hpayload hsome]
    simp
  | update =>
    simp only [validateIr, hoperation, check_bind_eq_ok, raiseIf_eq_ok] at h
    obtain ⟨hassignments, hrecords, -, hsome, hdisallowed, hexpr⟩ := h
    have hsome' : (resolveClauses py d entity ir).where_.isSome = ir.where_.isSome := Option.isSome_map
    simp only [validateIr, hoperation', hoperation, check_bind_eq_ok, raiseIf_eq_ok, ne_eq,
      hassignments', hrecords', hassignments, hrecords, hsome', hsome, hclauses hdisallowed,
      hwhere, hexpr]
    simp [AltrQueryIR.payloads, hoperation, resolveClauses, validateMutationAssignments_resolve]
  | delete =>
    simp only [validateIr, hoperation, check_bind_eq_ok, raiseIf_eq_ok] at h
    obtain ⟨hassignments, hdisallowed, hexpr⟩ := h
    simp only [validateIr, hoperation', hoperation, check_bind_eq_ok, raiseIf_eq_ok, ne_eq,
      hassignments', hassignments, hclauses hdisallowed, hwhere, hexpr]
    simp [AltrQueryIR.payloads, hoperation]

theorem keptApart_iff {ir : AltrQueryIR} (entity : String) (h : validateIr ir = .ok ()) :
    (validateIr (resolveClauses py d entity ir) = .ok () ∧
      ir.SameShape (resolveClauses py d entity ir) ∧
      ∀ payload ∈ (resolveClauses py d entity ir).payloads, (payload.map (·.field.root)).Nodup) ↔
    KeptApart py d ir := by
  have hroots : (∀ payload ∈ (resolveClauses py d entity ir).payloads,
      (payload.map (·.field.root)).Nodup) ↔
      ∀ payload ∈ ir.payloads, (payload.map fun a => columnOf py d a.field.root).Nodup := by
    simp only [payloads_resolveClauses, List.forall_mem_map, List.map_map, Function.comp_def,
      resolveAssignment, resolveName_eq]
  rw [validateIr_resolveClauses entity h, hroots]
  constructor
  · rintro ⟨⟨hpaths, hlabels⟩, -, hcolumns⟩
    exact ⟨hcolumns, hpaths, hlabels⟩
  · rintro ⟨hcolumns, hpaths, hlabels⟩
    exact ⟨⟨hpaths, hlabels⟩, sameShape_resolveClauses entity ir, hcolumns⟩

end

/-- A valid query stays valid just when the names of each payload are mapped to different columns,
by different paths, and no two labels of a READ are the same. -/
theorem staysValid_iff {py : Casing} {mapping : SourceMapping} {ir : AltrQueryIR}
    (h : validateIr ir = .ok ()) : StaysValid py mapping ir ↔
      ∀ em, matchedEntity py mapping ir.entity = some em →
        KeptApart py (fieldMap py em.fieldMappings ir.projection) ir := by
  constructor
  · intro hstays em hem
    exact (keptApart_iff em.physicalEntityName h).1
      (hstays _ (resolveLogicalIr_eq_ok.2 ⟨em, hem, rfl⟩))
  · intro hapart resolved hresolved
    obtain ⟨em, hem, rfl⟩ := resolveLogicalIr_eq_ok.1 hresolved
    exact (keptApart_iff em.physicalEntityName h).2 (hapart em hem)

namespace TestSchema

/-- The logical name of the users' column `full_name` is `name`. -/
def people : SourceMapping where
  id := "m1"
  logicalModelId := "crm"
  sourceId := "src_pg"
  entityMappings :=
    [{ id := "em1", sourceMappingId := "m1", logicalEntityId := "e1", logicalEntityName := "person",
       physicalEntityName := "users",
       fieldMappings :=
         [{ id := "fm1", entityMappingId := "em1", logicalFieldId := "f1", logicalFieldName := "name",
            physicalFieldName := "full_name" },
          { id := "fm2", entityMappingId := "em1", logicalFieldId := "f2", logicalFieldName := "id",
            physicalFieldName := "id" }] }]

/-- An UPDATE of the person with the id 1. -/
def updatePerson (assignments : List MutationAssignment) : AltrQueryIR :=
  { operation := .update, entity := "person", assignments,
    where_ := some (.atom ⟨⟨"id", []⟩, .comparison .eq, .literal (.integer 1)⟩) }

def spelledTwice : AltrQueryIR :=
  updatePerson [⟨⟨"name", []⟩, .string "Ann"⟩, ⟨⟨"full_name", []⟩, .string "Bob"⟩]

end TestSchema

open TestSchema in
/-- The logical and the physical name of one column are assigned, and nothing refuses the query. -/
theorem not_staysValid_spelledTwice : validateIr spelledTwice = .ok () ∧
    ¬ StaysValid .ascii people spelledTwice := by
  have hentity : matchedEntity .ascii people spelledTwice.entity = people.entityMappings.head? := by
    decide
  refine ⟨by decide, fun h => ?_⟩
  have hvalid := (h _ (resolveLogicalIr_eq_ok.2 ⟨_, hentity, rfl⟩)).1
  have hpaths := ((validateIr_resolveClauses "users" (by decide)).1 hvalid).1
  exact absurd hpaths (by decide)

open TestSchema in
/-- One name for each column: the query stays valid. -/
theorem staysValid_updatePerson :
    StaysValid .ascii people (updatePerson [⟨⟨"name", []⟩, .string "Ann"⟩]) := by
  refine (staysValid_iff (by decide)).2 fun em hem => ?_
  have hentity : matchedEntity .ascii people "person" = people.entityMappings.head? := by
    decide
  obtain rfl := Option.some.inj (hentity.symm.trans hem)
  exact ⟨by decide, by decide, by rintro ⟨⟩⟩

end AltrStream.QueryEngine
