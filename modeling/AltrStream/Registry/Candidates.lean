import AltrStream.QueryEngine.LogicalResolver
import AltrStream.Registry.Service

/-! # Which sources can answer for an entity

`RegistryService.resolve_logical_entity`: every ACTIVE mapping of a model that
maps the entity a name denotes is a candidate, with the fields it maps.
-/
namespace AltrStream.Registry
open Foundations Python QueryEngine Domain

/-- `ResolvedFieldInfo` -/
structure ResolvedFieldInfo where
  logicalFieldId : String
  logicalFieldName : String
  physicalFieldName : String
  transformationRule : Option String := none
  logicalDataType : Option StandardDataType := none
  physicalDataType : Option StandardDataType := none
  deriving DecidableEq, Repr

/-- `ResolvedSourceCandidate` -/
structure ResolvedSourceCandidate where
  mappingId : String
  mappingStatus : MappingStatus
  mappingProvenance : MappingProvenance
  sourceId : String
  sourceName : String
  sourceType : SourceType
  entityMappingId : String
  physicalEntityName : String
  physicalNamespace : String
  fieldMappings : List ResolvedFieldInfo := []
  deriving DecidableEq, Repr

/-- `EntityResolutionResult` -/
structure EntityResolutionResult where
  logicalModelId : String
  logicalModelName : String
  logicalEntityId : String
  logicalEntityName : String
  candidates : List ResolvedSourceCandidate := []
  deriving DecidableEq, Repr

section
variable (py : Casing)

/-- An entity mapping that knows the name, for an entity that the model does not have under it. -/
def knowsName (target targetClean : String) (em : EntityMapping) : Bool :=
  let physLower := py.lower em.physicalEntityName
  let logLower := py.lower em.logicalEntityName
  physLower = target || isPlural physLower targetClean || logLower = target ||
    isPlural logLower targetClean ||
    (em.logicalEntityId ≠ "" && py.lower em.logicalEntityId = target)

/-- The entity of the model that a name denotes, directly or through an active mapping. -/
def targetEntity (model : LogicalModel) (active : List SourceMapping) (entityName : String) :
    Option LogicalEntity :=
  ((model.getEntityByName py entityName).or (model.getEntityById entityName)).or <|
    let target := py.lower (strip entityName)
    ((active.flatMap (·.entityMappings)).filter (knowsName py target (rstrip 's' target))).findSome?
      (entityFor py model)

/-- The test of an entity mapping for a candidate. -/
def mapsEntity (target : LogicalEntity) (em : EntityMapping) : Bool :=
  let targetLower := py.lower (strip target.name)
  let targetClean := rstrip 's' targetLower
  let logLower := py.lower em.logicalEntityName
  let physLower := py.lower em.physicalEntityName
  em.logicalEntityId = target.id || logLower = targetLower || isPlural logLower targetClean ||
    physLower = targetLower || isPlural physLower targetClean

def resolvedField (target : LogicalEntity) (physEntity : Option EntitySchema) (fm : FieldMapping) :
    ResolvedFieldInfo :=
  let lf := fieldFor py target fm
  { logicalFieldId := lf.elim fm.logicalFieldId (·.id)
    logicalFieldName := lf.elim fm.logicalFieldName (·.name)
    physicalFieldName := fm.physicalFieldName
    transformationRule := fm.transformationRule
    logicalDataType := lf.map (·.dataType)
    physicalDataType := physEntity.bind fun e => (columnFor py e fm.physicalFieldName).map (·.dataType) }

def candidateFor (target : LogicalEntity) (mapping : SourceMapping) (source : Source)
    (snapshot : Option SourceSchema) (em : EntityMapping) : ResolvedSourceCandidate :=
  let physEntity := snapshot.bind fun schema =>
    schema.entities.find? fun e => py.lower e.name = py.lower em.physicalEntityName
  { mappingId := mapping.id
    mappingStatus := mapping.status
    mappingProvenance := mapping.provenance
    sourceId := source.id
    sourceName := source.name
    sourceType := source.type
    entityMappingId := em.id
    physicalEntityName := em.physicalEntityName
    physicalNamespace := em.physicalNamespace
    fieldMappings := em.fieldMappings.map (resolvedField py target physEntity) }

end

variable (env : Environment) (snapshots : String → Option SourceSchema) (r : Repository)

def activeMappings (modelId : String) : List SourceMapping :=
  (r.listSourceMappings (some modelId) none).filter (·.status = .active)

/-- The candidate of a mapping; a mapping without the entity or without its source is skipped. -/
def candidateOf? (target : LogicalEntity) (mapping : SourceMapping) : Option ResolvedSourceCandidate :=
  (mapping.entityMappings.find? (mapsEntity env.py target)).bind fun em =>
    (env.source? mapping.sourceId).map fun source =>
      candidateFor env.py target mapping source (snapshots source.id) em

def resolution (model : LogicalModel) (target : LogicalEntity) : EntityResolutionResult where
  logicalModelId := model.id
  logicalModelName := model.name
  logicalEntityId := target.id
  logicalEntityName := target.name
  candidates := (activeMappings r model.id).filterMap (candidateOf? env snapshots target)

def resolveLogicalEntity (modelId entityName : String) :
    Except AltrStreamError EntityResolutionResult := do
  let model ← getModel env.py r modelId
  match targetEntity env.py model (activeMappings r model.id) entityName with
  | some target => return resolution env snapshots r model target
  | none =>
    .error <| .logicalEntityNotFound
      s!"Logical entity '{entityName}' was not found in model '{model.name}'." none

variable {env snapshots r}

theorem resolveLogicalEntity_eq_ok {modelId entityName : String} {result : EntityResolutionResult} :
    resolveLogicalEntity env snapshots r modelId entityName = .ok result ↔
      ∃ model target, getModel env.py r modelId = .ok model ∧
        targetEntity env.py model (activeMappings r model.id) entityName = some target ∧
        resolution env snapshots r model target = result := by
  simp only [resolveLogicalEntity, bind_eq_ok]
  refine exists_congr fun model => ?_
  cases targetEntity env.py model (activeMappings r model.id) entityName <;> simp

/-- A candidate records the first entity mapping of an active mapping that maps the entity. -/
theorem candidateOf?_eq_some {target : LogicalEntity} {mapping : SourceMapping}
    {c : ResolvedSourceCandidate} : candidateOf? env snapshots target mapping = some c ↔
      ∃ em, mapping.entityMappings.find? (mapsEntity env.py target) = some em ∧
        ∃ source, env.source? mapping.sourceId = some source ∧
          candidateFor env.py target mapping source (snapshots source.id) em = c := by
  simp [candidateOf?, Option.bind_eq_some_iff]

/-- A listed mapping is the one that is read by its id. -/
theorem getSourceMapping_of_active {modelId : String} {mapping : SourceMapping}
    (h : mapping ∈ activeMappings r modelId) : getSourceMapping r mapping.id = .ok mapping := by
  obtain ⟨row, hrow, rfl⟩ := List.mem_map.1 (List.mem_filter.1 h).1
  have hmem : row ∈ r.mappings := mem_sortedBy.1 (List.mem_filter.1 hrow).1
  have hfound : r.mappings.find? row.id = some row := Table.find?_eq_some.2 ⟨hmem, rfl⟩
  have hget : r.getSourceMappingById (r.sourceMappingToDomain row).id =
      some (r.sourceMappingToDomain row) := congrArg (Option.map r.sourceMappingToDomain) hfound
  rw [getSourceMapping, hget]

/-- The entity mappings of a listed mapping are told apart by their ids. -/
theorem entityMapping_eq_of_id {modelId : String} {mapping : SourceMapping}
    (h : mapping ∈ activeMappings r modelId) {em em' : EntityMapping}
    (hem : em ∈ mapping.entityMappings) (hem' : em' ∈ mapping.entityMappings) (hid : em.id = em'.id) :
    em = em' := by
  obtain ⟨row, -, rfl⟩ := List.mem_map.1 (List.mem_filter.1 h).1
  obtain ⟨e, he, rfl⟩ := List.mem_map.1 hem
  obtain ⟨e', he', rfl⟩ := List.mem_map.1 hem'
  obtain rfl : e = e' :=
    Table.eq_of_key_eq (List.mem_of_mem_filter he) (List.mem_of_mem_filter he') hid
  rfl

end AltrStream.Registry
