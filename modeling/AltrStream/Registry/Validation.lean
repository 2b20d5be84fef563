import AltrStream.Domain.Errors
import AltrStream.Domain.Models
import AltrStream.Foundations.Checks

/-! # What a source mapping is checked for

The checks of `RegistryService.validate_source_mapping`: every entity mapping
names an entity of the model and a physical entity of the source, and each of
its field mappings a field and a column of compatible types.
-/
namespace AltrStream.Registry
open Foundations Python QueryEngine Domain

/-- What the registry finds outside its tables. -/
structure Environment where
  py : Casing
  /-- `source_repo.get_by_id` -/
  source? : String → Option Source
  /-- The latest snapshot of a source's schema, or else what discovery finds or why it fails. -/
  physicalSchema : String → Except String SourceSchema

/-- `a or b` on texts. -/
def orText (a b : String) : String := if a = "" then b else a

/-! ### Lookups -/

section
variable (py : Casing)

/-- The logical entity of an entity mapping: by id, or else by name. -/
def entityFor (model : LogicalModel) (em : EntityMapping) : Option LogicalEntity :=
  (model.getEntityById em.logicalEntityId).or (model.getEntityByName py em.logicalEntityName)

/-- The logical field of a field mapping: by id, or else by name. -/
def fieldFor (entity : LogicalEntity) (fm : FieldMapping) : Option LogicalField :=
  (entity.getFieldById fm.logicalFieldId).or (entity.getFieldByName py fm.logicalFieldName)

/-- Names in the mapping's namespace; the default ones stand for any. -/
def inNamespace (namespace_ : String) (e : EntitySchema) : Bool :=
  namespace_ = "" || py.lower e.namespace_ = py.lower namespace_ ||
    namespace_ ∈ ["public", "main", "default"]

/-- The first physical entity of the name in the namespace, or else in any. -/
def physicalEntityFor (schema : SourceSchema) (em : EntityMapping) : Option EntitySchema :=
  let named e := decide (py.lower e.name = py.lower em.physicalEntityName)
  (schema.entities.find? fun e => named e && inNamespace py em.physicalNamespace e).or
    (schema.entities.find? named)

/-- The column of the name, or else of the name in another case. -/
def columnFor (entity : EntitySchema) (name : String) : Option FieldSchema :=
  (entity.getField name).or (entity.fields.find? fun f => py.lower f.name = py.lower name)

end

/-! ### Checks -/

def checkFieldMapping (py : Casing) (entity : LogicalEntity) (physical : EntitySchema)
    (fm : FieldMapping) : Except String Unit :=
  match fieldFor py entity fm with
  | none =>
    let name := orText fm.logicalFieldName fm.logicalFieldId
    .error s!"Logical field '{name}' not found in entity '{entity.name}'."
  | some field =>
    match columnFor py physical fm.physicalFieldName with
    | none =>
      .error s!"Physical field '{fm.physicalFieldName}' not found in table '{physical.name}'."
    | some column =>
      raiseIf (¬ areDatatypesCompatible field.dataType column.dataType)
        (s!"Logical field '{field.name}' ({field.dataType.value}) cannot map to " ++
          s!"physical field '{column.name}' ({column.dataType.value}).")

def checkEntityMapping (py : Casing) (model : LogicalModel) (source : Source)
    (schema : SourceSchema) (em : EntityMapping) : Except String Unit :=
  match entityFor py model em with
  | none =>
    let name := orText em.logicalEntityName em.logicalEntityId
    .error s!"Logical entity '{name}' not found in model '{model.name}'."
  | some entity =>
    match physicalEntityFor py schema em with
    | none =>
      .error <| s!"Physical entity '{em.physicalNamespace}.{em.physicalEntityName}' does not " ++
        s!"exist in discovered schema of source '{source.name}'."
    | some physical => do
      let name := orText em.logicalEntityName em.physicalEntityName
      raiseIf (em.fieldMappings = []) s!"Entity '{name}' has no mapped fields."
      checkAll (checkFieldMapping py entity physical) em.fieldMappings

/-- What validation finds: nothing, or the status and the message to record. -/
def verdict (env : Environment) (model : LogicalModel) (mapping : SourceMapping) :
    Except (MappingStatus × String) Unit :=
  match env.source? mapping.sourceId with
  | none => .error (.error, s!"Physical source '{mapping.sourceId}' was not found.")
  | some source =>
    match env.physicalSchema source.id with
    | .error e =>
      .error (.error, s!"Physical schema discovery failed for source '{source.name}': {e}")
    | .ok schema =>
      if mapping.entityMappings = [] then .error (.draft, "No entity mappings defined yet.")
      else (checkAll (checkEntityMapping env.py model source schema) mapping.entityMappings).mapError
        (MappingStatus.error, ·)

/-- A mapping that fails is recorded as DRAFT or as in ERROR. -/
theorem status_of_verdict {env : Environment} {model : LogicalModel} {mapping : SourceMapping}
    {status : MappingStatus} {message : String}
    (h : verdict env model mapping = .error (status, message)) :
    status ≠ .active ∧ status ≠ .validated := by
  have hstatus : status = .error ∨ status = .draft := by
    unfold verdict at h
    split at h
    · cases h
      exact .inl rfl
    · split at h
      · cases h
        exact .inl rfl
      · split_ifs at h
        · cases h
          exact .inr rfl
        · simp only [Except.mapError] at h
          split at h
          · exact .inl (Prod.mk.inj (Except.error.inj h)).1.symm
          · cases h
  rcases hstatus with rfl | rfl <;> exact ⟨by decide, by decide⟩

/-! ### What passes -/

/-- A field mapping that passes, given the type of the field it is about. -/
def FieldPasses (py : Casing) (physical : EntitySchema) (fm : FieldMapping)
    (dataType : StandardDataType) : Prop :=
  ∃ column, columnFor py physical fm.physicalFieldName = some column ∧
    areDatatypesCompatible dataType column.dataType = true

theorem checkFieldMapping_eq_ok {py : Casing} {entity : LogicalEntity} {physical : EntitySchema}
    {fm : FieldMapping} : checkFieldMapping py entity physical fm = .ok () ↔
      ∃ field, fieldFor py entity fm = some field ∧ FieldPasses py physical fm field.dataType := by
  unfold checkFieldMapping FieldPasses
  cases fieldFor py entity fm with
  | none => simp
  | some field => cases columnFor py physical fm.physicalFieldName <;> simp

theorem checkEntityMapping_eq_ok {py : Casing} {model : LogicalModel} {source : Source}
    {schema : SourceSchema} {em : EntityMapping} :
    checkEntityMapping py model source schema em = .ok () ↔
      ∃ entity, entityFor py model em = some entity ∧ ∃ physical,
        physicalEntityFor py schema em = some physical ∧ em.fieldMappings ≠ [] ∧
        ∀ fm ∈ em.fieldMappings, checkFieldMapping py entity physical fm = .ok () := by
  unfold checkEntityMapping
  cases entityFor py model em with
  | none => simp
  | some entity =>
    cases physicalEntityFor py schema em with
    | none => simp
    | some physical => simp [bind_eq_ok, checkAll_eq_ok]

theorem verdict_eq_ok {env : Environment} {model : LogicalModel} {mapping : SourceMapping} :
    verdict env model mapping = .ok () ↔
      ∃ source, env.source? mapping.sourceId = some source ∧ ∃ schema,
        env.physicalSchema source.id = .ok schema ∧ mapping.entityMappings ≠ [] ∧
        ∀ em ∈ mapping.entityMappings, checkEntityMapping env.py model source schema em = .ok () := by
  unfold verdict
  cases env.source? mapping.sourceId with
  | none => simp
  | some source =>
    cases hschema : env.physicalSchema source.id with
    | error e => simp [hschema]
    | ok schema =>
      by_cases hempty : mapping.entityMappings = []
      · simp [hempty, hschema]
      · have hchecked : ∀ x : Except String Unit,
            x.mapError (MappingStatus.error, ·) = .ok () ↔ x = .ok () := by
          intro x
          cases x <;> simp [Except.mapError]
        simp [hempty, hschema, hchecked, checkAll_eq_ok]

end AltrStream.Registry
