import AltrStream.Registry.Service

/-! # What an operation changes

The operations on logical models leave the tables of mappings alone and the
other way round; a mapping keeps its model and its source.
-/
namespace AltrStream.Registry
open Foundations Python QueryEngine Domain

namespace Repository

variable {r r' : Repository}

theorem insertEntities_ok {modelId : String} {es : List LogicalEntity}
    (h : r.insertEntities modelId es = .ok r') : ∃ entities fields,
      r.entities.insertAll? (es.map fun e => { e.toLogicalEntityRow with logicalModelId := modelId })
        = some entities ∧
      r.fields.insertAll? (es.flatMap fun e => e.fields.map ({ · with logicalEntityId := e.id }))
        = some fields ∧
      r' = { r with entities := entities, fields := fields } := by
  simp only [insertEntities, bind_eq_ok, flush_eq_ok, pure_eq_ok] at h
  obtain ⟨entities, hentities, fields, hfields, rfl⟩ := h
  exact ⟨entities, fields, hentities, hfields, rfl⟩

theorem insertEntityMappings_ok {mappingId : String} {ems : List EntityMapping}
    (h : r.insertEntityMappings mappingId ems = .ok r') : ∃ entityMappings fieldMappings,
      r.entityMappings.insertAll?
        (ems.map fun em => { em.toEntityMappingRow with sourceMappingId := mappingId })
        = some entityMappings ∧
      r.fieldMappings.insertAll?
        (ems.flatMap fun em => em.fieldMappings.map ({ · with entityMappingId := em.id }))
        = some fieldMappings ∧
      r' = { r with entityMappings := entityMappings, fieldMappings := fieldMappings } := by
  simp only [insertEntityMappings, bind_eq_ok, flush_eq_ok, pure_eq_ok] at h
  obtain ⟨entityMappings, hems, fieldMappings, hfms, rfl⟩ := h
  exact ⟨entityMappings, fieldMappings, hems, hfms, rfl⟩

theorem createSourceMapping_ok {mapping : SourceMapping} (h : r.createSourceMapping mapping = .ok r') :
    ∃ mappings, r.mappings.insert? mapping.toSourceMappingRow = some mappings ∧
      { r with mappings := mappings }.insertEntityMappings mapping.id mapping.entityMappings =
        .ok r' := by
  simpa only [createSourceMapping, bind_eq_ok, flush_eq_ok] using h

theorem updateSourceMapping_ok {now : ℕ} {mapping : SourceMapping}
    (h : r.updateSourceMapping now mapping false = .ok r') : r' = r.writeMapping now mapping := by
  unfold updateSourceMapping at h
  cases hrow : r.mappings.find? mapping.id with
  | none => simp [hrow] at h
  | some row =>
    simp only [hrow, Bool.false_eq_true, if_false, Except.ok.injEq] at h
    exact h.symm

theorem replaceEntityMappings_ok {now : ℕ} {mapping : SourceMapping}
    (h : r.updateSourceMapping now mapping true = .ok r') :
    { r.writeMapping now mapping with
      entityMappings := r.entityMappings.filter (·.sourceMappingId ≠ mapping.id)
    }.insertEntityMappings mapping.id mapping.entityMappings = .ok r' := by
  unfold updateSourceMapping at h
  cases hrow : r.mappings.find? mapping.id with
  | none => simp [hrow] at h
  | some row =>
    simp only [hrow, if_true] at h
    exact h

theorem mem_writeMapping {now : ℕ} {mapping : SourceMapping} {m' : SourceMappingRow} :
    m' ∈ (r.writeMapping now mapping).mappings ↔ (m' ∈ r.mappings ∧ m'.id ≠ mapping.id) ∨
      ∃ m ∈ r.mappings, m.id = mapping.id ∧ written now mapping m = m' :=
  Table.mem_modify (f := written now mapping) fun _ => rfl

theorem writeMapping_touchMapping (r : Repository) (now : ℕ) (mapping : SourceMapping) :
    (r.touchMapping now mapping.id).writeMapping now mapping = r.writeMapping now mapping := by
  have hrows := Table.modify_modify r.mappings mapping.id
    (f := ({ · with updatedAt := now })) (g := written now mapping) (fun _ => rfl) fun _ => rfl
  simp only [writeMapping, touchMapping, Repository.mk.injEq, true_and, and_true]
  exact hrows

theorem mem_of_getSourceMappingById {mappingId : String} {mapping : SourceMapping}
    (h : r.getSourceMappingById mappingId = some mapping) :
    mapping.toSourceMappingRow ∈ r.mappings ∧ mapping.id = mappingId ∧
      mapping = r.sourceMappingToDomain mapping.toSourceMappingRow := by
  obtain ⟨row, hrow, rfl⟩ := Option.map_eq_some_iff.1 h
  obtain ⟨hmem, hkey⟩ := Table.find?_eq_some.1 hrow
  exact ⟨hmem, hkey, rfl⟩

end Repository

open Repository

variable {env : Environment} {r r' : Repository}

theorem mem_of_getSourceMapping {mappingId : String} {mapping : SourceMapping}
    (h : getSourceMapping r mappingId = .ok mapping) :
    mapping.toSourceMappingRow ∈ r.mappings ∧ mapping.id = mappingId ∧
      mapping = r.sourceMappingToDomain mapping.toSourceMappingRow := by
  unfold getSourceMapping at h
  cases hfound : r.getSourceMappingById mappingId with
  | none => simp [hfound] at h
  | some found =>
    rw [hfound] at h
    exact Except.ok.inj h ▸ mem_of_getSourceMappingById hfound

/-! ### What the operations on models return -/

variable {py : Casing}

theorem getModel_ok {modelId : String} {model : LogicalModel}
    (h : getModel py r modelId = .ok model) : ∃ row ∈ r.models, model = r.modelToDomain row := by
  unfold getModel at h
  split at h
  · next found hfound =>
    obtain rfl := Except.ok.inj h
    rcases Option.or_eq_some_iff.1 hfound with hfound | ⟨-, hfound⟩
    · rcases Option.or_eq_some_iff.1 hfound with hfound | ⟨-, hfound⟩
      · obtain ⟨row, hrow, rfl⟩ := Option.map_eq_some_iff.1 hfound
        exact ⟨row, (Table.find?_eq_some.1 hrow).1, rfl⟩
      · obtain ⟨row, hrow, rfl⟩ := Option.map_eq_some_iff.1 hfound
        exact ⟨row, List.mem_of_find?_eq_some hrow, rfl⟩
    · obtain ⟨row, hrow, rfl⟩ := List.mem_map.1 (List.mem_of_find?_eq_some hfound)
      exact ⟨row, mem_sortedBy.1 hrow, rfl⟩
  · cases h

theorem getModel_of_mem {row : LogicalModelRow} (h : row ∈ r.models) :
    getModel py r row.id = .ok (r.modelToDomain row) := by
  have hfound : r.models.find? row.id = some row := Table.find?_eq_some.2 ⟨h, rfl⟩
  simp [getModel, getModelById, hfound]

theorem getEntity_ok {entityId : String} {entity : LogicalEntity}
    (h : getEntity r entityId = .ok entity) : ∃ row ∈ r.entities, row.id = entityId ∧
      entity = r.entityToDomain row := by
  unfold getEntity at h
  split at h
  · next found hfound =>
    obtain rfl := Except.ok.inj h
    obtain ⟨row, hrow, rfl⟩ := Option.map_eq_some_iff.1 hfound
    exact ⟨row, (Table.find?_eq_some.1 hrow).1, (Table.find?_eq_some.1 hrow).2, rfl⟩
  · cases h

theorem getField_ok {fieldId : String} {field : LogicalField}
    (h : getField r fieldId = .ok field) : field ∈ r.fields ∧ field.id = fieldId := by
  unfold getField at h
  split at h
  · next found hfound =>
    obtain rfl := Except.ok.inj h
    exact Table.find?_eq_some.1 hfound
  · cases h

theorem createModel_ok {id : String} {now : ℕ} {name version : String}
    {description : Option String} {es : List LogicalEntity}
    (h : createModel r id now name version description es = .ok r') :
    r.getModelByName name = none ∧ ∃ models,
      r.models.insert? { id, name, version, description, updatedAt := now } = some models ∧
      { r with models := models }.insertEntities id es = .ok r' := by
  simp only [createModel, Repository.createModel, bind_eq_ok, raiseIf_eq_ok, flush_eq_ok] at h
  obtain ⟨_, hname, models, hmodels, h⟩ := h
  exact ⟨by simpa using hname, models, hmodels, h⟩

theorem updateModel_ok {now : ℕ} {modelId : String} {name version description : Option String}
    (h : updateModel py r now modelId name version description = .ok r') : ∃ model newName,
      getModel py r modelId = .ok model ∧ renameModel r modelId model name = .ok newName ∧
      r' = r.writeModel now
        { model.toLogicalModelRow with name := newName, version := version.getD model.version,
                                       description := description.or model.description } := by
  simp only [updateModel, bind_eq_ok] at h
  obtain ⟨model, hmodel, newName, hname, h⟩ := h
  refine ⟨model, newName, hmodel, hname, ?_⟩
  simp only [Repository.updateModel] at h
  split at h
  · cases h
  · exact (Except.ok.inj h).symm

theorem addEntity_ok {id : String} {now : ℕ} {modelId name : String} {description : Option String}
    {fields : List LogicalField}
    (h : addEntity py r id now modelId name description fields = .ok r') : ∃ model inserted,
      getModel py r modelId = .ok model ∧ model.getEntityByName py name = none ∧
      r.insertEntities modelId [{ id, logicalModelId := modelId, name, description, fields }] =
        .ok inserted ∧
      r' = inserted.touchModel now modelId := by
  simp only [addEntity, Repository.addEntity, bind_eq_ok, raiseIf_eq_ok, pure_eq_ok] at h
  obtain ⟨model, hmodel, _, hname, inserted, hinserted, rfl⟩ := h
  exact ⟨model, inserted, hmodel, by simpa using hname, hinserted, rfl⟩

theorem updateEntity_ok {now : ℕ} {entityId : String} {name description : Option String}
    (h : updateEntity r now entityId name description = .ok r') : ∃ row ∈ r.entities,
      row.id = entityId ∧ r' = (r.writeEntity
        { row with name := name.getD row.name, description := description.or row.description }
      ).touchModel now row.logicalModelId := by
  simp only [updateEntity, bind_eq_ok] at h
  obtain ⟨entity, hentity, h⟩ := h
  obtain ⟨row, hrow, rfl, rfl⟩ := getEntity_ok hentity
  refine ⟨row, hrow, rfl, ?_⟩
  have hfound : r.entities.find? row.id = some row := Table.find?_eq_some.2 ⟨hrow, rfl⟩
  simp only [Repository.updateEntity, entityToDomain, hfound] at h
  exact (Except.ok.inj h).symm

theorem addField_ok {id : String} {now : ℕ} {entityId name : String} {dataType : StandardDataType}
    {isPrimaryKey nullable : Bool}
    (h : addField py r id now entityId name dataType isPrimaryKey nullable = .ok r') :
    ∃ row ∈ r.entities, row.id = entityId ∧
      (r.entityToDomain row).getFieldByName py name = none ∧ ∃ fields,
      r.fields.insert? { id, logicalEntityId := entityId, name, dataType, isPrimaryKey, nullable } =
        some fields ∧
      r' = { r with fields := fields }.touchModel now row.logicalModelId := by
  simp only [addField, Repository.addField, bind_eq_ok, raiseIf_eq_ok, flush_eq_ok, pure_eq_ok] at h
  obtain ⟨entity, hentity, _, hname, fields, hfields, h⟩ := h
  obtain ⟨row, hrow, rfl, rfl⟩ := getEntity_ok hentity
  have hfound : r.entities.find? row.id = some row := Table.find?_eq_some.2 ⟨hrow, rfl⟩
  simp only [hfound] at h
  exact ⟨row, hrow, rfl, by simpa using hname, fields, hfields, h.symm⟩

theorem updateField_ok {fieldId : String} {name : Option String}
    {dataType : Option StandardDataType} {isPrimaryKey nullable : Option Bool}
    (h : updateField r fieldId name dataType isPrimaryKey nullable = .ok r') : ∃ field ∈ r.fields,
      field.id = fieldId ∧ r' = r.writeField
        { field with name := name.getD field.name, dataType := dataType.getD field.dataType,
                     isPrimaryKey := isPrimaryKey.getD field.isPrimaryKey,
                     nullable := nullable.getD field.nullable } := by
  simp only [updateField, bind_eq_ok] at h
  obtain ⟨field, hfield, h⟩ := h
  obtain ⟨hmem, rfl⟩ := getField_ok hfield
  refine ⟨field, hmem, rfl, ?_⟩
  simp only [Repository.updateField] at h
  split at h
  · cases h
  · exact (Except.ok.inj h).symm

theorem deleteEntity_ok {now : ℕ} {entityId : String} (h : r' = (r.deleteEntity now entityId).2) :
    r' = r ∨ ∃ row ∈ r.entities, row.id = entityId ∧
      r' = { r with entities := r.entities.filter (·.id ≠ entityId),
                    fields := r.fields.filter (·.logicalEntityId ≠ entityId)
           }.touchModel now row.logicalModelId := by
  unfold deleteEntity at h
  split at h
  · exact .inl h
  · next row hrow =>
    obtain ⟨hmem, hid⟩ := Table.find?_eq_some.1 hrow
    exact .inr ⟨row, hmem, hid, h⟩

/-! ### What the operations on mappings return -/

theorem createSourceMapping_ok {id : String} {now : ℕ} {logicalModelId sourceId version : String}
    {status : MappingStatus} {provenance : MappingProvenance} {ems : List EntityMapping}
    (h : createSourceMapping env r id now logicalModelId sourceId version status provenance ems =
      .ok r') : ∃ model, getModel env.py r logicalModelId = .ok model ∧
      (∀ m ∈ r.listSourceMappings (some logicalModelId) (some sourceId), m.version ≠ version) ∧
      r.createSourceMapping
        { id, logicalModelId, sourceId, version, provenance, updatedAt := now
          status := if status = .active then .draft else status
          entityMappings := ems.map (nameLikeModel env.py model) } = .ok r' := by
  simp only [createSourceMapping, bind_eq_ok, raiseIf_eq_ok] at h
  obtain ⟨model, hmodel, _, -, _, hversion, h⟩ := h
  exact ⟨model, hmodel, by simpa using hversion, h⟩

theorem ingestAlignSuggestions_ok {id : String} {now : ℕ} {modelId sourceId version : String}
    {ems : List AlignedEntity}
    (h : ingestAlignSuggestions env r id now modelId sourceId version ems = .ok r') : ∃ model,
      getModel env.py r modelId = .ok model ∧ r.createSourceMapping
        { id, logicalModelId := modelId, sourceId, version, status := .draft
          provenance := .altrAlign, updatedAt := now
          entityMappings := ems.map (alignEntity env.py model) } = .ok r' := by
  simp only [ingestAlignSuggestions, bind_eq_ok] at h
  obtain ⟨model, hmodel, _, -, h⟩ := h
  exact ⟨model, hmodel, h⟩

/-- The mapping as `update_source_mapping` writes it. -/
def revised (mapping : SourceMapping) (version : Option String)
    (provenance : Option MappingProvenance) (errorMessage : Option String)
    (status : MappingStatus) : SourceMapping :=
  { mapping with version := version.getD mapping.version,
                 provenance := provenance.getD mapping.provenance,
                 errorMessage := errorMessage, status := status }

theorem updateSourceMapping_ok {now : ℕ} {mappingId : String} {version : Option String}
    {status : Option MappingStatus} {provenance : Option MappingProvenance}
    {errorMessage : Option String} (h : updateSourceMapping env r now mappingId version status
      provenance errorMessage none = .ok r') : ∃ mapping,
      getSourceMapping r mappingId = .ok mapping ∧
      (status = some .active → mapping.status = .validated) ∧
      r' = r.writeMapping now (revised mapping version provenance
        (errorMessage.or mapping.errorMessage) (status.getD mapping.status)) := by
  simp only [updateSourceMapping, bind_eq_ok, raiseIf_eq_ok, not_and, not_not] at h
  obtain ⟨mapping, hmapping, _, hactive, h⟩ := h
  exact ⟨mapping, hmapping, hactive, Repository.updateSourceMapping_ok h⟩

theorem replaceEntityMappings_ok {now : ℕ} {mappingId : String} {version : Option String}
    {status : Option MappingStatus} {provenance : Option MappingProvenance}
    {errorMessage : Option String} {ems : List EntityMapping}
    (h : updateSourceMapping env r now mappingId version status provenance errorMessage (some ems)
      = .ok r') : ∃ mapping written, getSourceMapping r mappingId = .ok mapping ∧
      written = r.writeMapping now (revised mapping version provenance none .draft) ∧
      ∃ model, getModel env.py r mapping.logicalModelId = .ok model ∧ { written with
        entityMappings := r.entityMappings.filter (·.sourceMappingId ≠ mappingId)
      }.insertEntityMappings mappingId (ems.map (nameLikeModel env.py model)) = .ok r' := by
  simp only [updateSourceMapping, bind_eq_ok] at h
  obtain ⟨mapping, hmapping, model, hmodel, h⟩ := h
  obtain ⟨-, rfl, -⟩ := mem_of_getSourceMapping hmapping
  exact ⟨mapping, _, hmapping, rfl, model, hmodel, Repository.replaceEntityMappings_ok h⟩

/-- The field mapping is named as the entity's field, if it is found. -/
def nameLikeEntity (py : Casing) (entity : LogicalEntity) (fm : FieldMapping) : FieldMapping :=
  { fm with logicalFieldName := (fieldFor py entity fm).elim fm.logicalFieldName (·.name) }

theorem addEntityMapping_ok {id : String} {now : ℕ} {sourceMappingId logicalEntityId
    physicalEntityName physicalNamespace : String} {fms : List FieldMapping}
    (h : addEntityMapping env r id now sourceMappingId logicalEntityId physicalEntityName
      physicalNamespace fms = .ok r') : ∃ mapping, getSourceMapping r sourceMappingId = .ok mapping ∧
      ∃ model entity em, getModel env.py r mapping.logicalModelId = .ok model ∧
      model.getEntityById logicalEntityId = some entity ∧
      em = { id, sourceMappingId, logicalEntityId := entity.id, logicalEntityName := entity.name,
             physicalEntityName, physicalNamespace,
             fieldMappings := fms.map (nameLikeEntity env.py entity) } ∧
      ∃ inserted, r.insertEntityMappings sourceMappingId [em] = .ok inserted ∧
        r' = inserted.writeMapping now { mapping with status := .draft, errorMessage := none } := by
  simp only [addEntityMapping, bind_eq_ok] at h
  obtain ⟨mapping, hmapping, model, hmodel, h⟩ := h
  split at h
  · cases h
  · next entity hentity =>
    simp only [bind_eq_ok, Repository.addEntityMapping, pure_eq_ok] at h
    obtain ⟨_, ⟨inserted, hinserted, rfl⟩, h⟩ := h
    obtain ⟨-, rfl, -⟩ := mem_of_getSourceMapping hmapping
    refine ⟨mapping, hmapping, model, entity, _, hmodel, hentity, rfl, inserted, hinserted, ?_⟩
    rw [Repository.updateSourceMapping_ok h]
    exact writeMapping_touchMapping inserted now
      { mapping with status := .draft, errorMessage := none }

theorem validateSourceMapping_ok {now : ℕ} {mappingId : String} {result : Bool × Option String}
    (h : validateSourceMapping env r now mappingId = .ok (result, r')) : ∃ mapping model,
      getSourceMapping r mappingId = .ok mapping ∧
      getModel env.py r mapping.logicalModelId = .ok model ∧
      ((verdict env model mapping = .ok () ∧ result = (true, none) ∧
          r' = r.writeMapping now { mapping with status := .validated, errorMessage := none }) ∨
        ∃ status message, verdict env model mapping = .error (status, message) ∧
          result = (false, some message) ∧
          r' = r.writeMapping now { mapping with status := status, errorMessage := some message }) := by
  simp only [validateSourceMapping, bind_eq_ok] at h
  obtain ⟨mapping, hmapping, model, hmodel, h⟩ := h
  refine ⟨mapping, model, hmapping, hmodel, ?_⟩
  split at h
  · next hverdict =>
    simp only [bind_eq_ok, pure_eq_ok, Prod.mk.injEq] at h
    obtain ⟨_, h, rfl, rfl⟩ := h
    exact .inl ⟨hverdict, rfl, Repository.updateSourceMapping_ok h⟩
  · next status message hverdict =>
    simp only [bind_eq_ok, pure_eq_ok, Prod.mk.injEq] at h
    obtain ⟨_, h, rfl, rfl⟩ := h
    exact .inr ⟨status, message, hverdict, rfl, Repository.updateSourceMapping_ok h⟩

/-! ### The two halves of the registry -/

structure SameModels (r r' : Repository) : Prop where
  models : r'.models = r.models
  entities : r'.entities = r.entities
  fields : r'.fields = r.fields

structure SameMappings (r r' : Repository) : Prop where
  mappings : r'.mappings = r.mappings
  entityMappings : r'.entityMappings = r.entityMappings
  fieldMappings : r'.fieldMappings = r.fieldMappings

theorem SameModels.trans {r'' : Repository} (h : SameModels r r') (h' : SameModels r' r'') :
    SameModels r r'' :=
  ⟨h'.models.trans h.models, h'.entities.trans h.entities, h'.fields.trans h.fields⟩

theorem sameMappings_insertEntities {modelId : String} {es : List LogicalEntity}
    (h : r.insertEntities modelId es = .ok r') : SameMappings r r' := by
  obtain ⟨_, _, _, _, rfl⟩ := insertEntities_ok h
  exact ⟨rfl, rfl, rfl⟩

theorem sameModels_insertEntityMappings {mappingId : String} {ems : List EntityMapping}
    (h : r.insertEntityMappings mappingId ems = .ok r') : SameModels r r' := by
  obtain ⟨_, _, _, _, rfl⟩ := insertEntityMappings_ok h
  exact ⟨rfl, rfl, rfl⟩

theorem sameModels_updateSourceMapping {now : ℕ} {mapping : SourceMapping}
    (h : r.updateSourceMapping now mapping false = .ok r') : SameModels r r' := by
  rw [Repository.updateSourceMapping_ok h]
  exact ⟨rfl, rfl, rfl⟩

/-- The operations on logical models. -/
def Operation.onModels : Operation → Bool
  | .createModel .. | .updateModel .. | .deleteModel .. | .addEntity .. | .updateEntity ..
  | .deleteEntity .. | .addField .. | .updateField .. | .deleteField .. => true
  | _ => false

theorem sameMappings_of_onModels {o : Operation} (ho : o.onModels = true)
    (h : o.apply env r = .ok r') : SameMappings r r' := by
  cases o with
  | createModel id now name version description es =>
    obtain ⟨-, _, -, h⟩ := createModel_ok h
    obtain ⟨hm, hem, hfm⟩ := sameMappings_insertEntities h
    exact ⟨hm, hem, hfm⟩
  | updateModel now modelId name version description =>
    obtain ⟨_, _, -, -, rfl⟩ := updateModel_ok h
    exact ⟨rfl, rfl, rfl⟩
  | deleteModel modelId =>
    cases h
    exact ⟨rfl, rfl, rfl⟩
  | addEntity id now modelId name description fields =>
    obtain ⟨_, _, -, -, hinserted, rfl⟩ := addEntity_ok h
    obtain ⟨hm, hem, hfm⟩ := sameMappings_insertEntities hinserted
    exact ⟨hm, hem, hfm⟩
  | updateEntity now entityId name description =>
    obtain ⟨_, -, -, rfl⟩ := updateEntity_ok h
    exact ⟨rfl, rfl, rfl⟩
  | deleteEntity now entityId =>
    obtain rfl | ⟨_, -, -, rfl⟩ := deleteEntity_ok (Except.ok.inj h).symm
    · exact ⟨rfl, rfl, rfl⟩
    · exact ⟨rfl, rfl, rfl⟩
  | addField id now entityId name dataType isPrimaryKey nullable =>
    obtain ⟨_, -, -, -, _, -, rfl⟩ := addField_ok h
    exact ⟨rfl, rfl, rfl⟩
  | updateField fieldId name dataType isPrimaryKey nullable =>
    obtain ⟨_, -, -, rfl⟩ := updateField_ok h
    exact ⟨rfl, rfl, rfl⟩
  | deleteField fieldId =>
    cases h
    exact ⟨rfl, rfl, rfl⟩
  | _ => cases ho

theorem sameModels_demoteOthers {now : ℕ} {mapping : SourceMapping} {others : List SourceMapping}
    (h : demoteOthers now mapping others r = .ok r') : SameModels r r' := by
  induction others generalizing r with
  | nil =>
    cases h
    exact ⟨rfl, rfl, rfl⟩
  | cons other others ih =>
    simp only [demoteOthers, bind_eq_ok] at h
    obtain ⟨r₁, h₁, h⟩ := h
    unfold demoteOther at h₁
    split at h₁
    · exact (sameModels_updateSourceMapping h₁).trans (ih h)
    · cases h₁
      exact ih h

theorem sameModels_createSourceMapping {mapping : SourceMapping}
    (h : r.createSourceMapping mapping = .ok r') : SameModels r r' := by
  obtain ⟨_, -, h⟩ := Repository.createSourceMapping_ok h
  obtain ⟨hm, he, hf⟩ := sameModels_insertEntityMappings h
  exact ⟨hm, he, hf⟩

theorem sameModels_of_onMappings {o : Operation} (ho : o.onModels = false)
    (h : o.apply env r = .ok r') : SameModels r r' := by
  cases o with
  | createSourceMapping id now logicalModelId sourceId version status provenance ems =>
    obtain ⟨_, -, -, h⟩ := createSourceMapping_ok h
    exact sameModels_createSourceMapping h
  | ingestAlignSuggestions id now modelId sourceId version ems =>
    obtain ⟨_, -, h⟩ := ingestAlignSuggestions_ok h
    exact sameModels_createSourceMapping h
  | updateSourceMapping now mappingId version status provenance errorMessage ems =>
    rw [Operation.apply] at h
    cases ems with
    | none =>
      obtain ⟨_, -, -, rfl⟩ := updateSourceMapping_ok h
      exact ⟨rfl, rfl, rfl⟩
    | some ems =>
      obtain ⟨_, _, -, rfl, _, -, h⟩ := replaceEntityMappings_ok h
      obtain ⟨hm, he, hf⟩ := sameModels_insertEntityMappings h
      exact ⟨hm, he, hf⟩
  | addEntityMapping id now sourceMappingId logicalEntityId physicalEntityName physicalNamespace
      fms =>
    obtain ⟨_, -, _, _, _, -, -, -, _, hinserted, rfl⟩ := addEntityMapping_ok h
    obtain ⟨hm, he, hf⟩ := sameModels_insertEntityMappings hinserted
    exact ⟨hm, he, hf⟩
  | addFieldMapping id entityMappingId logicalFieldId physicalFieldName transformationRule =>
    simp only [Operation.apply, addFieldMapping, Repository.addFieldMapping, bind_eq_ok,
      pure_eq_ok] at h
    obtain ⟨_, -, _, -, rfl⟩ := h
    exact ⟨rfl, rfl, rfl⟩
  | validateSourceMapping now mappingId =>
    obtain ⟨⟨_, _⟩, hvalidated, rfl⟩ := map_eq_ok.1 h
    obtain ⟨_, _, -, -, ⟨-, -, rfl⟩ | ⟨_, _, -, -, rfl⟩⟩ := validateSourceMapping_ok hvalidated
    · exact ⟨rfl, rfl, rfl⟩
    · exact ⟨rfl, rfl, rfl⟩
  | activateSourceMapping now mappingId =>
    simp only [Operation.apply, activateSourceMapping, bind_eq_ok] at h
    obtain ⟨_, -, _, -, _, hdemoted, h⟩ := h
    exact (sameModels_demoteOthers hdemoted).trans (sameModels_updateSourceMapping h)
  | deleteSourceMapping mappingId =>
    cases h
    exact ⟨rfl, rfl, rfl⟩
  | deleteEntityMapping entityMappingId =>
    cases h
    exact ⟨rfl, rfl, rfl⟩
  | deleteFieldMapping fieldMappingId =>
    cases h
    exact ⟨rfl, rfl, rfl⟩
  | _ => cases ho

end AltrStream.Registry
