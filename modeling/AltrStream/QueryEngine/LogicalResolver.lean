import AltrStream.Domain.Errors
import AltrStream.Domain.Models
import AltrStream.Foundations.Dict
import AltrStream.Python.Str

/-! # From logical names to physical ones

`binding/logical_resolver.py`: an IR over a logical entity becomes an IR over the
physical entity of a source mapping. One dictionary holds every name a field goes
by, and the aliases of the projection.
-/
namespace AltrStream.QueryEngine
open Foundations Python Domain

section
variable (py : Casing)

/-- `name and name.rstrip("s") == target_clean` -/
def isPlural (name targetClean : String) : Bool := name ≠ "" && rstrip 's' name = targetClean

/-- The test of an entity mapping: by its names and its logical id, or by a plural of its names. -/
def goesBy (target targetClean : String) (em : EntityMapping) : Bool :=
  let logName := py.lower em.logicalEntityName
  let physName := py.lower em.physicalEntityName
  logName = target || py.lower em.logicalEntityId = target || physName = target ||
    isPlural logName targetClean || isPlural physName targetClean

/-- The first entity mapping that goes by the name. -/
def matchedEntity (mapping : SourceMapping) (entity : String) : Option EntityMapping :=
  mapping.entityMappings.find? (goesBy py (py.lower entity) (py.clean (strip entity)))

/-! ### Fields -/

/-- The names under which a field mapping is entered. -/
def namesOf (fm : FieldMapping) : List String :=
  [py.lower fm.logicalFieldName, fm.logicalFieldId, py.lower fm.physicalFieldName,
    fm.physicalFieldName]

/-- Every name of every field mapping, with its column. -/
def columnEntries (fms : List FieldMapping) : List (String × String) :=
  fms.flatMap fun fm => (namesOf py fm).map (·, fm.physicalFieldName)

/-- An alias is entered under what its field has by now. -/
def addAlias (d : Dict String String) (sel : FieldSelection) : Dict String String :=
  match sel.alias_.filter (· ≠ ""), d.get? (py.lower sel.path.root) with
  | some alias_, some column => d.set (py.lower alias_) column
  | _, _ => d

/-- `field_map` -/
def fieldMap (fms : List FieldMapping) (projection : List FieldSelection) : Dict String String :=
  projection.foldl (addAlias py) (.ofEntries (columnEntries py fms))

/-- The key under which a name is looked up: in lower case, or else as it is. -/
def lookupKey (d : Dict String String) (name : String) : String :=
  if d.contains (py.lower name) then py.lower name else name

/-- `_resolve_field_path` -/
def resolveName (d : Dict String String) (path : FieldPath) : FieldPath :=
  match d.get? (lookupKey py d path.root) with
  | some column => { path with root := column }
  | none => path

/-- A column of another name is labelled with the logical one. -/
def resolveSelection (d : Dict String String) (sel : FieldSelection) : FieldSelection :=
  let path := resolveName py d sel.path
  { path, alias_ := sel.alias_.or (if path.leaf ≠ sel.path.leaf then some sel.path.leaf else none) }

def resolveAssignment (d : Dict String String) (assign : MutationAssignment) : MutationAssignment :=
  { assign with field := resolveName py d assign.field }

/-- The clauses of an IR over another entity, its names resolved. -/
def resolveClauses (d : Dict String String) (entity : String) (ir : AltrQueryIR) : AltrQueryIR :=
  { operation := ir.operation
    entity
    projection := ir.projection.map (resolveSelection py d)
    where_ := ir.where_.map (·.map fun e => { e with field := resolveName py d e.field })
    assignments := ir.assignments.map (resolveAssignment py d)
    records := ir.records.map fun rec => ⟨rec.assignments.map (resolveAssignment py d)⟩
    sort := ir.sort.map fun s => { s with field := resolveName py d s.field }
    ranking := ir.ranking.map fun r => { r with field := resolveName py d r.field }
    limit := ir.limit
    offset := ir.offset }

/-- What `resolve_logical_ir` makes of an IR once the entity mapping is found. -/
def physicalIr (em : EntityMapping) (ir : AltrQueryIR) : AltrQueryIR :=
  resolveClauses py (fieldMap py em.fieldMappings ir.projection) em.physicalEntityName ir

def resolveLogicalIr (ir : AltrQueryIR) (mapping : SourceMapping) :
    Except AltrStreamError AltrQueryIR :=
  match matchedEntity py mapping ir.entity with
  | some em => .ok (physicalIr py em ir)
  | none => .error (.logicalEntityNotFound ir.entity (some mapping.logicalModelId))

end

/-- The field paths of a query, clause by clause. -/
def AltrQueryIR.references (ir : AltrQueryIR) : List FieldPath :=
  ir.projection.map (·.path) ++ (ir.where_.elim [] Formula.atoms).map (·.field) ++
    ir.assignments.map (·.field) ++ ir.records.flatMap (fun rec => rec.assignments.map (·.field)) ++
    ir.sort.map (·.field) ++ ir.ranking.toList.map (·.field)

variable {py : Casing}

theorem resolveLogicalIr_window {ir physical : AltrQueryIR} {mapping : SourceMapping}
    (h : resolveLogicalIr py ir mapping = .ok physical) : physical.operation = ir.operation ∧
      physical.limit = ir.limit ∧ physical.offset = ir.offset ∧
      physical.ranking.map (·.count) = ir.ranking.map (·.count) := by
  unfold resolveLogicalIr at h
  split at h
  · cases h
    refine ⟨rfl, rfl, rfl, ?_⟩
    simp only [physicalIr, resolveClauses, Option.map_map]
    rfl
  · cases h

/-- Every field path is resolved in the same way. -/
theorem references_resolveClauses (d : Dict String String) (entity : String) (ir : AltrQueryIR) :
    (resolveClauses py d entity ir).references = ir.references.map (resolveName py d) := by
  have hwhere : ∀ (w : Option Expression) (f : FieldPath → FieldPath),
      ((w.map (·.map fun e : FieldExpression => { e with field := f e.field })).elim []
        Formula.atoms).map (·.field) = ((w.elim [] Formula.atoms).map (·.field)).map f := by
    intro w f
    cases w with
    | none => rfl
    | some e => simp [Formula.atoms_map, Function.comp_def]
  simp only [AltrQueryIR.references, resolveClauses, List.map_append, hwhere, List.map_map,
    List.map_flatMap, List.flatMap_map]
  cases ir.ranking <;> rfl

/-- Nothing else of the dictionary matters than how it resolves the field paths. -/
theorem resolveClauses_congr {d d' : Dict String String} {entity : String} {ir : AltrQueryIR}
    (h : ∀ path ∈ ir.references, resolveName py d path = resolveName py d' path) :
    resolveClauses py d entity ir = resolveClauses py d' entity ir := by
  simp only [AltrQueryIR.references, List.mem_append, or_imp, forall_and, List.forall_mem_map,
    List.forall_mem_flatMap] at h
  obtain ⟨⟨⟨⟨⟨hprojection, hwhere⟩, hassignments⟩, hrecords⟩, hsort⟩, hranking⟩ := h
  have hassign : ∀ l : List MutationAssignment, (∀ a ∈ l, resolveName py d a.field =
      resolveName py d' a.field) → l.map (resolveAssignment py d) = l.map (resolveAssignment py d') := by
    intro l hl
    refine List.map_congr_left fun a ha => ?_
    rw [resolveAssignment, resolveAssignment, hl a ha]
  unfold resolveClauses
  congr 1
  · refine List.map_congr_left fun sel hsel => ?_
    simp only [resolveSelection, hprojection sel hsel]
  · cases hw : ir.where_ with
    | none => rfl
    | some e =>
      rw [hw] at hwhere
      refine congrArg some (Formula.map_congr fun a ha => ?_)
      rw [hwhere a ha]
  · exact hassign _ hassignments
  · refine List.map_congr_left fun rec hrec => ?_
    rw [hassign _ (hrecords rec hrec)]
  · refine List.map_congr_left fun s hs => ?_
    rw [hsort s hs]
  · cases hr : ir.ranking with
    | none => rfl
    | some ranking =>
      have h := hranking ranking (by simp [hr])
      simp only [Option.map_some, h]

theorem resolveLogicalIr_eq_ok {ir resolved : AltrQueryIR} {mapping : SourceMapping} :
    resolveLogicalIr py ir mapping = .ok resolved ↔
      ∃ em, matchedEntity py mapping ir.entity = some em ∧ physicalIr py em ir = resolved := by
  unfold resolveLogicalIr
  cases matchedEntity py mapping ir.entity <;> simp

end AltrStream.QueryEngine
