import AltrStream.Registry.Repository
import AltrStream.Registry.Validation

/-! # The registry service

`application/registry_service.py`: the operations on logical models and source
mappings. An operation that raises is rolled back by its session. The clock and
the identifiers that an operation draws are arguments.
-/
namespace AltrStream.Registry
open Foundations Python QueryEngine Domain

section
variable (py : Casing) (r : Repository)

/-- By id, by name, or by name in another case. -/
def getModel (modelId : String) : Except AltrStreamError LogicalModel :=
  match ((r.getModelById modelId).or (r.getModelByName modelId)).or
      (r.listModels.find? fun m => py.lower m.name = py.lower modelId) with
  | some model => .ok model
  | none => .error (.logicalModelNotFound modelId)

def getEntity (entityId : String) : Except AltrStreamError LogicalEntity :=
  match r.getEntityById entityId with
  | some entity => .ok entity
  | none => .error (.logicalEntityNotFound entityId none)

def getField (fieldId : String) : Except AltrStreamError LogicalField :=
  match r.getFieldById fieldId with
  | some field => .ok field
  | none => .error (.logicalFieldNotFound fieldId)

def getSourceMapping (mappingId : String) : Except AltrStreamError SourceMapping :=
  match r.getSourceMappingById mappingId with
  | some mapping => .ok mapping
  | none => .error (.sourceMappingNotFound mappingId)

/-! ### Logical models -/

def createModel (id : String) (now : ℕ) (name version : String) (description : Option String)
    (entities : List LogicalEntity) : Except AltrStreamError Repository := do
  raiseIf (r.getModelByName name).isSome (.logicalModelAlreadyExists name)
  r.createModel { id, name, version, description, updatedAt := now, entities }

/-- The new name of a model, unless another model has it. -/
def renameModel (modelId : String) (model : LogicalModel) (name : Option String) :
    Except AltrStreamError String :=
  match name with
  | none => .ok model.name
  | some name =>
    if name = "" ∨ name = model.name then .ok model.name
    else if (r.getModelByName name).any (·.id ≠ modelId) then
      .error (.logicalModelAlreadyExists name)
    else .ok name

def updateModel (now : ℕ) (modelId : String) (name version description : Option String) :
    Except AltrStreamError Repository := do
  let model ← getModel py r modelId
  let name ← renameModel r modelId model name
  r.updateModel now { model with name := name, version := version.getD model.version,
                                 description := description.or model.description }

def addEntity (id : String) (now : ℕ) (modelId name : String) (description : Option String)
    (fields : List LogicalField) : Except AltrStreamError Repository := do
  let model ← getModel py r modelId
  raiseIf (model.getEntityByName py name).isSome
    (.mappingValidation s!"Logical entity '{name}' already exists in model '{model.name}'.")
  r.addEntity now { id, logicalModelId := modelId, name, description, fields }

def updateEntity (now : ℕ) (entityId : String) (name description : Option String) :
    Except AltrStreamError Repository := do
  let entity ← getEntity r entityId
  r.updateEntity now { entity with name := name.getD entity.name,
                                   description := description.or entity.description }

def addField (id : String) (now : ℕ) (entityId name : String) (dataType : StandardDataType)
    (isPrimaryKey nullable : Bool) : Except AltrStreamError Repository := do
  let entity ← getEntity r entityId
  raiseIf (entity.getFieldByName py name).isSome
    (.mappingValidation s!"Logical field '{name}' already exists in entity '{entity.name}'.")
  r.addField now { id, logicalEntityId := entityId, name, dataType, isPrimaryKey, nullable }

def updateField (fieldId : String) (name : Option String) (dataType : Option StandardDataType)
    (isPrimaryKey nullable : Option Bool) : Except AltrStreamError Repository := do
  let field ← getField r fieldId
  r.updateField { field with name := name.getD field.name,
                             dataType := dataType.getD field.dataType,
                             isPrimaryKey := isPrimaryKey.getD field.isPrimaryKey,
                             nullable := nullable.getD field.nullable }

/-! ### Source mappings -/

/-- The mapping names its entity and its fields as the model does, where it finds them. -/
def nameLikeModel (model : LogicalModel) (em : EntityMapping) : EntityMapping :=
  match entityFor py model em with
  | none => em
  | some entity =>
    { em with
      logicalEntityName := entity.name
      fieldMappings := em.fieldMappings.map fun fm =>
        { fm with logicalFieldName := (fieldFor py entity fm).elim fm.logicalFieldName (·.name) } }

end

section
variable (env : Environment) (r : Repository)

def duplicateVersionMessage (version : String) : String :=
  s!"A mapping with version '{version}' already exists for this logical model and physical " ++
    "source. Create a new version or edit the existing mapping."

def createSourceMapping (id : String) (now : ℕ) (logicalModelId sourceId version : String)
    (status : MappingStatus) (provenance : MappingProvenance) (ems : List EntityMapping) :
    Except AltrStreamError Repository := do
  let model ← getModel env.py r logicalModelId
  raiseIf (env.source? sourceId).isNone (.sourceNotFound sourceId)
  let existing := r.listSourceMappings (some logicalModelId) (some sourceId)
  raiseIf (existing.any (·.version = version)) (.duplicateMapping (duplicateVersionMessage version))
  r.createSourceMapping
    { id, logicalModelId, sourceId, version, provenance, updatedAt := now
      status := if status = .active then .draft else status
      entityMappings := ems.map (nameLikeModel env.py model) }

def updateSourceMapping (now : ℕ) (mappingId : String) (version : Option String)
    (status : Option MappingStatus) (provenance : Option MappingProvenance)
    (errorMessage : Option String) (ems : Option (List EntityMapping)) :
    Except AltrStreamError Repository := do
  let mapping ← getSourceMapping r mappingId
  let mapping := { mapping with version := version.getD mapping.version,
                                provenance := provenance.getD mapping.provenance,
                                errorMessage := errorMessage.or mapping.errorMessage }
  match ems with
  | some ems =>
    let model ← getModel env.py r mapping.logicalModelId
    r.updateSourceMapping now
      { mapping with entityMappings := ems.map (nameLikeModel env.py model), status := .draft,
                     errorMessage := none } true
  | none =>
    raiseIf (status = some .active ∧ mapping.status ≠ .validated)
      (.mappingValidation "Cannot directly transition to ACTIVE without validation.")
    r.updateSourceMapping now { mapping with status := status.getD mapping.status } false

def addEntityMapping (id : String) (now : ℕ) (sourceMappingId logicalEntityId physicalEntityName
    physicalNamespace : String) (fms : List FieldMapping) : Except AltrStreamError Repository := do
  let mapping ← getSourceMapping r sourceMappingId
  let model ← getModel env.py r mapping.logicalModelId
  match model.getEntityById logicalEntityId with
  | none => .error (.logicalEntityNotFound logicalEntityId (some model.id))
  | some entity =>
    let fms := fms.map fun fm =>
      { fm with logicalFieldName := (fieldFor env.py entity fm).elim fm.logicalFieldName (·.name) }
    let r' ← r.addEntityMapping now
      { id, sourceMappingId, logicalEntityId := entity.id, logicalEntityName := entity.name,
        physicalEntityName, physicalNamespace, fieldMappings := fms }
    r'.updateSourceMapping now { mapping with status := .draft, errorMessage := none } false

def addFieldMapping (id entityMappingId logicalFieldId physicalFieldName : String)
    (transformationRule : Option String) : Except AltrStreamError Repository := do
  let field ← getField r logicalFieldId
  r.addFieldMapping { id, entityMappingId, logicalFieldId, logicalFieldName := field.name,
                      physicalFieldName, transformationRule }

/-! ### Validation and activation -/

/-- Whether the mapping is valid and, if not, why; the verdict is recorded as its status. -/
def validateSourceMapping (now : ℕ) (mappingId : String) :
    Except AltrStreamError ((Bool × Option String) × Repository) := do
  let mapping ← getSourceMapping r mappingId
  let model ← getModel env.py r mapping.logicalModelId
  match verdict env model mapping with
  | .ok () =>
    let r' ← r.updateSourceMapping now { mapping with status := .validated, errorMessage := none } false
    return ((true, none), r')
  | .error (status, message) =>
    let r' ← r.updateSourceMapping now
      { mapping with status := status, errorMessage := some message } false
    return ((false, some message), r')

/-- Another ACTIVE mapping of the same source is demoted. -/
def demoteOther (now : ℕ) (mapping other : SourceMapping) (r : Repository) :
    Except AltrStreamError Repository :=
  if other.id ≠ mapping.id ∧ other.sourceId = mapping.sourceId ∧ other.status = .active then
    r.updateSourceMapping now { other with status := .validated } false
  else .ok r

/-- The loop over the mappings of the model. -/
def demoteOthers (now : ℕ) (mapping : SourceMapping) :
    List SourceMapping → Repository → Except AltrStreamError Repository
  | [], r => .ok r
  | other :: others, r => do
    let r' ← demoteOther now mapping other r
    demoteOthers now mapping others r'

def activateSourceMapping (now : ℕ) (mappingId : String) : Except AltrStreamError Repository := do
  let mapping ← getSourceMapping r mappingId
  raiseIf (mapping.status ≠ .validated) (.mappingValidation
    (s!"Cannot activate mapping with status '{mapping.status.value}'. Only VALIDATED mappings " ++
      "can be activated."))
  let r' ← demoteOthers now mapping (r.listSourceMappings (some mapping.logicalModelId) none) r
  r'.updateSourceMapping now { mapping with status := .active, errorMessage := none } false

/-! ### Alignment proposals -/

/-- An entry of `field_mappings` in an alignment proposal, with the id drawn for it. -/
structure AlignedField where
  id : String
  logicalFieldId : Option String
  logicalFieldName : Option String
  physicalFieldName : String := ""
  transformationRule : Option String := none

/-- An entry of `entity_mappings_data`, with the id drawn for it. -/
structure AlignedEntity where
  id : String
  logicalEntityId : Option String
  logicalEntityName : Option String
  physicalEntityName : String := ""
  physicalNamespace : String := "public"
  fieldMappings : List AlignedField := []

/-- A text that is given and not empty. -/
def given (text : Option String) : Option String := text.filter (· ≠ "")

def alignField (py : Casing) (entity : Option LogicalEntity) (fm : AlignedField) : FieldMapping :=
  let field := entity.bind fun e =>
    ((given fm.logicalFieldId).bind e.getFieldById).or
      ((given fm.logicalFieldName).bind (e.getFieldByName py))
  { id := fm.id
    entityMappingId := ""
    logicalFieldId := field.elim (fm.logicalFieldId.getD "") (·.id)
    logicalFieldName := field.elim (fm.logicalFieldName.getD "") (·.name)
    physicalFieldName := fm.physicalFieldName
    transformationRule := fm.transformationRule }

def alignEntity (py : Casing) (model : LogicalModel) (em : AlignedEntity) : EntityMapping :=
  let entity := ((given em.logicalEntityId).bind model.getEntityById).or
    ((given em.logicalEntityName).bind (model.getEntityByName py))
  { id := em.id
    sourceMappingId := ""
    logicalEntityId := entity.elim (em.logicalEntityId.getD "") (·.id)
    logicalEntityName := entity.elim (em.logicalEntityName.getD "") (·.name)
    physicalEntityName := em.physicalEntityName
    physicalNamespace := em.physicalNamespace
    fieldMappings := em.fieldMappings.map (alignField py entity) }

def ingestAlignSuggestions (id : String) (now : ℕ) (modelId sourceId version : String)
    (ems : List AlignedEntity) : Except AltrStreamError Repository := do
  let model ← getModel env.py r modelId
  raiseIf (env.source? sourceId).isNone (.sourceNotFound sourceId)
  r.createSourceMapping
    { id, logicalModelId := modelId, sourceId, version, status := .draft, provenance := .altrAlign
      updatedAt := now, entityMappings := ems.map (alignEntity env.py model) }

end

/-! ### Operations -/

/-- A call of the service that may write. -/
inductive Operation where
  | createModel (id : String) (now : ℕ) (name version : String) (description : Option String)
      (entities : List LogicalEntity)
  | updateModel (now : ℕ) (modelId : String) (name version description : Option String)
  | deleteModel (modelId : String)
  | addEntity (id : String) (now : ℕ) (modelId name : String) (description : Option String)
      (fields : List LogicalField)
  | updateEntity (now : ℕ) (entityId : String) (name description : Option String)
  | deleteEntity (now : ℕ) (entityId : String)
  | addField (id : String) (now : ℕ) (entityId name : String) (dataType : StandardDataType)
      (isPrimaryKey nullable : Bool)
  | updateField (fieldId : String) (name : Option String) (dataType : Option StandardDataType)
      (isPrimaryKey nullable : Option Bool)
  | deleteField (fieldId : String)
  | createSourceMapping (id : String) (now : ℕ) (logicalModelId sourceId version : String)
      (status : MappingStatus) (provenance : MappingProvenance) (ems : List EntityMapping)
  | updateSourceMapping (now : ℕ) (mappingId : String) (version : Option String)
      (status : Option MappingStatus) (provenance : Option MappingProvenance)
      (errorMessage : Option String) (ems : Option (List EntityMapping))
  | deleteSourceMapping (mappingId : String)
  | addEntityMapping (id : String) (now : ℕ) (sourceMappingId logicalEntityId physicalEntityName
      physicalNamespace : String) (fms : List FieldMapping)
  | deleteEntityMapping (entityMappingId : String)
  | addFieldMapping (id entityMappingId logicalFieldId physicalFieldName : String)
      (transformationRule : Option String)
  | deleteFieldMapping (fieldMappingId : String)
  | validateSourceMapping (now : ℕ) (mappingId : String)
  | activateSourceMapping (now : ℕ) (mappingId : String)
  | ingestAlignSuggestions (id : String) (now : ℕ) (modelId sourceId version : String)
      (ems : List AlignedEntity)

/-- The state that a call leaves, unless it raises. -/
def Operation.apply (env : Environment) (r : Repository) :
    Operation → Except AltrStreamError Repository
  | .createModel id now name version description entities =>
    Registry.createModel r id now name version description entities
  | .updateModel now modelId name version description =>
    Registry.updateModel env.py r now modelId name version description
  | .deleteModel modelId => .ok (r.deleteModel modelId).2
  | .addEntity id now modelId name description fields =>
    Registry.addEntity env.py r id now modelId name description fields
  | .updateEntity now entityId name description =>
    Registry.updateEntity r now entityId name description
  | .deleteEntity now entityId => .ok (r.deleteEntity now entityId).2
  | .addField id now entityId name dataType isPrimaryKey nullable =>
    Registry.addField env.py r id now entityId name dataType isPrimaryKey nullable
  | .updateField fieldId name dataType isPrimaryKey nullable =>
    Registry.updateField r fieldId name dataType isPrimaryKey nullable
  | .deleteField fieldId => .ok (r.deleteField fieldId).2
  | .createSourceMapping id now logicalModelId sourceId version status provenance ems =>
    Registry.createSourceMapping env r id now logicalModelId sourceId version status provenance ems
  | .updateSourceMapping now mappingId version status provenance errorMessage ems =>
    Registry.updateSourceMapping env r now mappingId version status provenance errorMessage ems
  | .deleteSourceMapping mappingId => .ok (r.deleteSourceMapping mappingId).2
  | .addEntityMapping id now sourceMappingId logicalEntityId physicalEntityName physicalNamespace
      fms =>
    Registry.addEntityMapping env r id now sourceMappingId logicalEntityId physicalEntityName
      physicalNamespace fms
  | .deleteEntityMapping entityMappingId => .ok (r.deleteEntityMapping entityMappingId).2
  | .addFieldMapping id entityMappingId logicalFieldId physicalFieldName transformationRule =>
    Registry.addFieldMapping r id entityMappingId logicalFieldId physicalFieldName
      transformationRule
  | .deleteFieldMapping fieldMappingId => .ok (r.deleteFieldMapping fieldMappingId).2
  | .validateSourceMapping now mappingId =>
    Prod.snd <$> Registry.validateSourceMapping env r now mappingId
  | .activateSourceMapping now mappingId => Registry.activateSourceMapping r now mappingId
  | .ingestAlignSuggestions id now modelId sourceId version ems =>
    Registry.ingestAlignSuggestions env r id now modelId sourceId version ems

end AltrStream.Registry
