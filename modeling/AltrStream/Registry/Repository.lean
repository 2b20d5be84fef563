import AltrStream.Domain.Errors
import AltrStream.Domain.Models
import AltrStream.Foundations.OrderedWindow

/-! # The registry's tables

`SqliteRegistryRepository`: six tables, read back as nested models and mappings.
The store does not enforce foreign keys: a bulk delete removes the rows it names
and leaves their children, only the deletion of an entity goes through the mapper
and takes its fields along. What the methods that write return is read back from
the state they leave, so here they return that state.
-/
namespace AltrStream.Registry
open Foundations Domain

structure Repository where
  models : Table LogicalModelRow
  entities : Table LogicalEntityRow
  fields : Table LogicalField
  mappings : Table SourceMappingRow
  entityMappings : Table EntityMappingRow
  fieldMappings : Table FieldMapping

namespace Repository

def empty : Repository := ⟨.empty, .empty, .empty, .empty, .empty, .empty⟩

/-- A flush that meets a taken key raises. -/
def flush {α : Type} (inserted : Option α) : Except AltrStreamError α :=
  inserted.elim (.error .integrity) .ok

theorem flush_eq_ok {α : Type} {inserted : Option α} {a : α} :
    flush inserted = .ok a ↔ inserted = some a := by
  cases inserted <;> simp [flush]

variable (r : Repository)

/-! ### Reading -/

/-- The fields of an entity, by name. -/
def fieldsOf (entityId : String) : List LogicalField :=
  sortedBy (·.name) (r.fields.rows.filter (·.logicalEntityId = entityId))

/-- `_entity_to_domain` -/
def entityToDomain (row : LogicalEntityRow) : LogicalEntity := { row with fields := r.fieldsOf row.id }

def entityRowsOf (modelId : String) : List LogicalEntityRow :=
  sortedBy (·.name) (r.entities.rows.filter (·.logicalModelId = modelId))

/-- `_model_to_domain`, its entities by name. -/
def modelToDomain (row : LogicalModelRow) : LogicalModel :=
  { row with entities := (r.entityRowsOf row.id).map r.entityToDomain }

def fieldMappingsOf (entityMappingId : String) : List FieldMapping :=
  r.fieldMappings.rows.filter (·.entityMappingId = entityMappingId)

/-- `_entity_mapping_to_domain` -/
def entityMappingToDomain (row : EntityMappingRow) : EntityMapping :=
  { row with fieldMappings := r.fieldMappingsOf row.id }

def entityMappingsOf (mappingId : String) : List EntityMapping :=
  (r.entityMappings.rows.filter (·.sourceMappingId = mappingId)).map r.entityMappingToDomain

/-- `_source_mapping_to_domain` -/
def sourceMappingToDomain (row : SourceMappingRow) : SourceMapping :=
  { row with entityMappings := r.entityMappingsOf row.id }

def getModelById (modelId : String) : Option LogicalModel :=
  (r.models.find? modelId).map r.modelToDomain

def getModelByName (name : String) : Option LogicalModel :=
  (r.models.rows.find? (·.name = name)).map r.modelToDomain

/-- The models, last updated first. -/
def listModels : List LogicalModel :=
  (sortedBy (fun m => OrderDual.toDual m.updatedAt) r.models.rows).map r.modelToDomain

def getEntityById (entityId : String) : Option LogicalEntity :=
  (r.entities.find? entityId).map r.entityToDomain

def getFieldById (fieldId : String) : Option LogicalField := r.fields.find? fieldId

def getSourceMappingById (mappingId : String) : Option SourceMapping :=
  (r.mappings.find? mappingId).map r.sourceMappingToDomain

/-- The mappings, last updated first; an empty filter is no filter. -/
def listSourceMappings (logicalModelId sourceId : Option String) : List SourceMapping :=
  ((sortedBy (fun m => OrderDual.toDual m.updatedAt) r.mappings.rows).filter fun m =>
    logicalModelId.all (fun id => id = "" || m.logicalModelId = id) &&
      sourceId.all fun id => id = "" || m.sourceId = id).map r.sourceMappingToDomain

/-! ### Models, entities and fields -/

def touchModel (now : ℕ) (modelId : String) : Repository :=
  { r with models := r.models.modify modelId ({ · with updatedAt := now }) fun _ => rfl }

/-- The rows of nested entities and of their fields. -/
def insertEntities (modelId : String) (es : List LogicalEntity) : Except AltrStreamError Repository := do
  let entities ← flush <| r.entities.insertAll? <|
    es.map fun e => { e.toLogicalEntityRow with logicalModelId := modelId }
  let fields ← flush <| r.fields.insertAll? <|
    es.flatMap fun e => e.fields.map ({ · with logicalEntityId := e.id })
  return { r with entities := entities, fields := fields }

def createModel (model : LogicalModel) : Except AltrStreamError Repository := do
  let models ← flush <| r.models.insert? model.toLogicalModelRow
  { r with models := models }.insertEntities model.id model.entities

/-- What an update writes into a model's row. -/
def updatedModel (now : ℕ) (model row : LogicalModelRow) : LogicalModelRow :=
  { row with name := model.name, version := model.version, description := model.description,
             updatedAt := now }

def writeModel (now : ℕ) (model : LogicalModelRow) : Repository :=
  { r with models := r.models.modify model.id (updatedModel now model) fun _ => rfl }

def updateModel (now : ℕ) (model : LogicalModel) : Except AltrStreamError Repository :=
  match r.models.find? model.id with
  | none => .error (.logicalModelNotFound model.id)
  | some _ => .ok (r.writeModel now model.toLogicalModelRow)

def deleteModel (modelId : String) : Bool × Repository :=
  ((r.models.find? modelId).isSome, { r with models := r.models.filter (·.id ≠ modelId) })

def addEntity (now : ℕ) (entity : LogicalEntity) : Except AltrStreamError Repository := do
  let r' ← r.insertEntities entity.logicalModelId [entity]
  return r'.touchModel now entity.logicalModelId

/-- What an update writes into an entity's row. -/
def updatedEntity (entity row : LogicalEntityRow) : LogicalEntityRow :=
  { row with name := entity.name, description := entity.description }

def writeEntity (entity : LogicalEntityRow) : Repository :=
  { r with entities := r.entities.modify entity.id (updatedEntity entity) fun _ => rfl }

def updateEntity (now : ℕ) (entity : LogicalEntity) : Except AltrStreamError Repository :=
  match r.entities.find? entity.id with
  | none => .error (.logicalEntityNotFound entity.id none)
  | some row =>
    .ok <| (r.writeEntity entity.toLogicalEntityRow).touchModel now row.logicalModelId

def deleteEntity (now : ℕ) (entityId : String) : Bool × Repository :=
  match r.entities.find? entityId with
  | none => (false, r)
  | some row =>
    let entities := r.entities.filter (·.id ≠ entityId)
    let fields := r.fields.filter (·.logicalEntityId ≠ entityId)
    (true, { r with entities := entities, fields := fields }.touchModel now row.logicalModelId)

def addField (now : ℕ) (field : LogicalField) : Except AltrStreamError Repository := do
  let fields ← flush <| r.fields.insert? field
  let r' := { r with fields := fields }
  return match r.entities.find? field.logicalEntityId with
  | none => r'
  | some row => r'.touchModel now row.logicalModelId

/-- What an update writes into a field's row. -/
def updatedField (field row : LogicalField) : LogicalField :=
  { row with name := field.name, dataType := field.dataType, isPrimaryKey := field.isPrimaryKey,
             nullable := field.nullable }

def writeField (field : LogicalField) : Repository :=
  { r with fields := r.fields.modify field.id (updatedField field) fun _ => rfl }

def updateField (field : LogicalField) : Except AltrStreamError Repository :=
  match r.fields.find? field.id with
  | none => .error (.logicalFieldNotFound field.id)
  | some _ => .ok (r.writeField field)

def deleteField (fieldId : String) : Bool × Repository :=
  ((r.fields.find? fieldId).isSome, { r with fields := r.fields.filter (·.id ≠ fieldId) })

/-! ### Mappings -/

def touchMapping (now : ℕ) (mappingId : String) : Repository :=
  { r with mappings := r.mappings.modify mappingId ({ · with updatedAt := now }) fun _ => rfl }

def insertEntityMappings (mappingId : String) (ems : List EntityMapping) :
    Except AltrStreamError Repository := do
  let entityMappings ← flush <| r.entityMappings.insertAll? <|
    ems.map fun em => { em.toEntityMappingRow with sourceMappingId := mappingId }
  let fieldMappings ← flush <| r.fieldMappings.insertAll? <|
    ems.flatMap fun em => em.fieldMappings.map ({ · with entityMappingId := em.id })
  return { r with entityMappings := entityMappings, fieldMappings := fieldMappings }

def createSourceMapping (mapping : SourceMapping) : Except AltrStreamError Repository := do
  let mappings ← flush <| r.mappings.insert? mapping.toSourceMappingRow
  { r with mappings := mappings }.insertEntityMappings mapping.id mapping.entityMappings

/-- What an update writes into a mapping's row; its model and its source stay. -/
def written (now : ℕ) (mapping : SourceMapping) (row : SourceMappingRow) : SourceMappingRow :=
  { row with version := mapping.version, status := mapping.status,
             provenance := mapping.provenance, errorMessage := mapping.errorMessage,
             updatedAt := now }

def writeMapping (now : ℕ) (mapping : SourceMapping) : Repository :=
  { r with mappings := r.mappings.modify mapping.id (written now mapping) fun _ => rfl }

def updateSourceMapping (now : ℕ) (mapping : SourceMapping) (replaceEntities : Bool) :
    Except AltrStreamError Repository :=
  match r.mappings.find? mapping.id with
  | none => .error (.sourceMappingNotFound mapping.id)
  | some _ =>
    let written := r.writeMapping now mapping
    let kept := written.entityMappings.filter (·.sourceMappingId ≠ mapping.id)
    if replaceEntities then
      { written with entityMappings := kept }.insertEntityMappings mapping.id mapping.entityMappings
    else .ok written

def deleteSourceMapping (mappingId : String) : Bool × Repository :=
  ((r.mappings.find? mappingId).isSome, { r with mappings := r.mappings.filter (·.id ≠ mappingId) })

def addEntityMapping (now : ℕ) (em : EntityMapping) : Except AltrStreamError Repository := do
  let r' ← r.insertEntityMappings em.sourceMappingId [em]
  return r'.touchMapping now em.sourceMappingId

def deleteEntityMapping (entityMappingId : String) : Bool × Repository :=
  ((r.entityMappings.find? entityMappingId).isSome,
    { r with entityMappings := r.entityMappings.filter (·.id ≠ entityMappingId) })

def addFieldMapping (fm : FieldMapping) : Except AltrStreamError Repository := do
  let fieldMappings ← flush <| r.fieldMappings.insert? fm
  return { r with fieldMappings := fieldMappings }

def deleteFieldMapping (fieldMappingId : String) : Bool × Repository :=
  ((r.fieldMappings.find? fieldMappingId).isSome,
    { r with fieldMappings := r.fieldMappings.filter (·.id ≠ fieldMappingId) })

end Repository

end AltrStream.Registry
