import AltrStream.Registry.Lookups
import AltrStream.Registry.SingleActive

/-! # Earned statuses

A mapping that is VALIDATED or ACTIVE is one that validation would accept as it
stands. Here: what that means, when an edit of the mappings keeps it, and what an
edit of the models has to leave alone.
-/
namespace AltrStream.Registry
open Foundations Python QueryEngine Domain Repository

/-- VALIDATED or ACTIVE. -/
def Vetted (status : MappingStatus) : Prop := status = .validated ∨ status = .active

/-- `validate_source_mapping` would succeed on the mapping. -/
def Valid (env : Environment) (r : Repository) (mapping : SourceMapping) : Prop :=
  ∃ model, getModel env.py r mapping.logicalModelId = .ok model ∧ verdict env model mapping = .ok ()

/-- Every VALIDATED or ACTIVE mapping is valid as it stands. -/
def Earned (env : Environment) (r : Repository) : Prop :=
  ∀ m ∈ r.mappings, Vetted m.status → Valid env r (r.sourceMappingToDomain m)

/-- The physical entity that an entity mapping of a source is checked against. -/
def Stands (env : Environment) (sourceId : String) (em : EntityMapping)
    (physical : EntitySchema) : Prop :=
  ∃ source, env.source? sourceId = some source ∧ ∃ schema,
    env.physicalSchema source.id = .ok schema ∧ physicalEntityFor env.py schema em = some physical

/-- An entity mapping of a source passes all checks. -/
def EntityPasses (env : Environment) (sourceId : String) (model : LogicalModel)
    (em : EntityMapping) : Prop :=
  ∃ entity, entityFor env.py model em = some entity ∧ ∃ physical, Stands env sourceId em physical ∧
    em.fieldMappings ≠ [] ∧ ∀ fm ∈ em.fieldMappings, ∃ field, fieldFor env.py entity fm = some field ∧
      FieldPasses env.py physical fm field.dataType

variable {env : Environment} {r r' : Repository}

theorem valid_iff {mapping : SourceMapping} : Valid env r mapping ↔
    ∃ model, getModel env.py r mapping.logicalModelId = .ok model ∧ mapping.entityMappings ≠ [] ∧
      ∀ em ∈ mapping.entityMappings, EntityPasses env mapping.sourceId model em := by
  unfold Valid EntityPasses Stands
  refine exists_congr fun model => and_congr_right fun _ => ?_
  simp only [verdict_eq_ok, checkEntityMapping_eq_ok, checkFieldMapping_eq_ok]
  constructor
  · rintro ⟨source, hsource, schema, hschema, hne, hems⟩
    refine ⟨hne, fun em hem => ?_⟩
    obtain ⟨entity, hentity, physical, hphysical, hrest⟩ := hems em hem
    exact ⟨entity, hentity, physical, ⟨source, hsource, schema, hschema, hphysical⟩, hrest⟩
  · rintro ⟨hne, hems⟩
    obtain ⟨em, hem⟩ := List.exists_mem_of_ne_nil _ hne
    obtain ⟨-, -, -, ⟨source, hsource, schema, hschema, -⟩, -⟩ := hems em hem
    refine ⟨source, hsource, schema, hschema, hne, fun em hem => ?_⟩
    obtain ⟨entity, hentity, physical, ⟨source', hsource', schema', hschema', hphysical⟩, hrest⟩ :=
      hems em hem
    obtain rfl := Option.some.inj (hsource.symm.trans hsource')
    obtain rfl := Except.ok.inj (hschema.symm.trans hschema')
    exact ⟨entity, hentity, physical, hphysical, hrest⟩

/-! ### Edits of mappings -/

theorem getModel_of_sameModels {py : Casing} (h : SameModels r r') (modelId : String) :
    getModel py r' modelId = getModel py r modelId := by
  have hdomain : r'.modelToDomain = r.modelToDomain := by
    funext row
    simp only [modelToDomain, entityRowsOf, h.entities]
    congr 2
    funext e
    simp only [entityToDomain, fieldsOf, h.fields]
  simp only [getModel, getModelById, getModelByName, listModels, h.models, hdomain]

/-- A mapping is as valid as another of its pair if its entity mappings pass wherever those of
the other do. -/
theorem Valid.of_content {mapping mapping' : SourceMapping} (h : Valid env r mapping)
    (hsame : SameModels r r') (hmodel : mapping'.logicalModelId = mapping.logicalModelId)
    (hne : mapping'.entityMappings ≠ []) (hems : ∀ model,
      getModel env.py r mapping.logicalModelId = .ok model →
      (∀ em ∈ mapping.entityMappings, EntityPasses env mapping.sourceId model em) →
      ∀ em ∈ mapping'.entityMappings, EntityPasses env mapping'.sourceId model em) :
    Valid env r' mapping' := by
  obtain ⟨model, hfound, -, hpass⟩ := valid_iff.1 h
  refine valid_iff.2 ⟨model, ?_, hne, hems model hfound hpass⟩
  rw [getModel_of_sameModels hsame, hmodel, hfound]

/-- The same content under the same pair. -/
theorem Valid.of_same {mapping mapping' : SourceMapping} (h : Valid env r mapping)
    (hsame : SameModels r r') (hmodel : mapping'.logicalModelId = mapping.logicalModelId)
    (hsource : mapping'.sourceId = mapping.sourceId)
    (hems : mapping'.entityMappings = mapping.entityMappings) : Valid env r' mapping' := by
  obtain ⟨-, -, hne, -⟩ := valid_iff.1 h
  refine h.of_content hsame hmodel (hems ▸ hne) fun model _ hpass => ?_
  rwa [hems, hsource]

/-- Whoever is vetted now was so before, with the same content. -/
theorem Earned.of_kept (h : Earned env r) (hsame : SameModels r r')
    (hkept : ∀ m' ∈ r'.mappings, Vetted m'.status → ∃ m ∈ r.mappings, Vetted m.status ∧
      SamePair m' m ∧ r'.entityMappingsOf m'.id = r.entityMappingsOf m.id) : Earned env r' := by
  intro m' hm' hvetted
  obtain ⟨m, hm, hv, hpair, hems⟩ := hkept m' hm' hvetted
  exact (h m hm hv).of_same hsame hpair.1 hpair.2 hems

theorem entityMappingsOf_insert {mappingId other : String} {ems : List EntityMapping}
    (h : r.insertEntityMappings mappingId ems = .ok r') (hne : other ≠ mappingId) :
    r'.entityMappingsOf other = r.entityMappingsOf other := by
  obtain ⟨entityMappings, fieldMappings, hems, hfms, rfl⟩ := insertEntityMappings_ok h
  have hnone : (ems.map fun em => { em.toEntityMappingRow with sourceMappingId := mappingId }).filter
      (·.sourceMappingId = other) = [] := by
    refine List.filter_eq_nil_iff.2 fun row hrow => ?_
    obtain ⟨em, -, rfl⟩ := List.mem_map.1 hrow
    simpa using hne.symm
  simp only [entityMappingsOf, Table.rows_of_insertAll? hems, List.filter_append, hnone,
    List.append_nil]
  refine List.map_congr_left fun row hrow => ?_
  have hfields : (ems.flatMap fun em => em.fieldMappings.map
      ({ · with entityMappingId := em.id })).filter (·.entityMappingId = row.id) = [] := by
    refine List.filter_eq_nil_iff.2 fun fm hfm => ?_
    obtain ⟨em, hem, hfm⟩ := List.mem_flatMap.1 hfm
    obtain ⟨_, -, rfl⟩ := List.mem_map.1 hfm
    have hrows := (Table.nodup_of_insertAll? hems).2 _ (List.mem_map_of_mem hem) row
      (List.mem_of_mem_filter hrow)
    rw [decide_eq_true_iff]
    exact hrows.symm
  simp only [entityMappingToDomain, fieldMappingsOf, Table.rows_of_insertAll? hfms,
    List.filter_append, hfields, List.append_nil]

/-- Other mappings keep their content when that of one is removed. -/
theorem entityMappingsOf_filter (r : Repository) {mappingId other : String} (hne : other ≠ mappingId) :
    entityMappingsOf { r with
      entityMappings := r.entityMappings.filter (·.sourceMappingId ≠ mappingId) } other =
      r.entityMappingsOf other := by
  simp only [entityMappingsOf, Table.filter]
  rw [List.filter_filter]
  congr 1
  refine List.filter_congr fun row _ => ?_
  by_cases hrow : row.sourceMappingId = other
  · simp [hrow, hne]
  · simp [hrow]

theorem entityMappingsOf_demoteOthers {now : ℕ} {mapping : SourceMapping}
    {others : List SourceMapping} (h : demoteOthers now mapping others r = .ok r') (id : String) :
    r'.entityMappingsOf id = r.entityMappingsOf id := by
  induction others generalizing r with
  | nil =>
    cases h
    rfl
  | cons other others ih =>
    simp only [demoteOthers, bind_eq_ok] at h
    obtain ⟨r₁, h₁, h⟩ := h
    rw [ih h]
    unfold demoteOther at h₁
    split at h₁
    · rw [Repository.updateSourceMapping_ok h₁]
      rfl
    · cases h₁
      rfl

/-- A mapping is written, under a status that needs no vetting or that it had. -/
theorem Earned.write {now : ℕ} {written : SourceMapping} (h : Earned env r)
    (hstatus : Vetted written.status → ∀ m ∈ r.mappings, m.id = written.id →
      Valid env r (r.sourceMappingToDomain m)) : Earned env (r.writeMapping now written) := by
  have hsame : SameModels r (r.writeMapping now written) := ⟨rfl, rfl, rfl⟩
  intro m' hm' hvetted
  rcases mem_writeMapping.1 hm' with ⟨hmem, -⟩ | ⟨m, hm, hid, rfl⟩
  · exact (h m' hmem hvetted).of_same hsame rfl rfl rfl
  · exact (hstatus hvetted m hm hid).of_same hsame rfl rfl rfl

theorem Earned.create {mapping : SourceMapping} (h : Earned env r)
    (hstatus : ¬ Vetted mapping.status) (hcreate : r.createSourceMapping mapping = .ok r') :
    Earned env r' := by
  refine h.of_kept (sameModels_createSourceMapping hcreate) fun m' hm' hvetted => ?_
  obtain ⟨mappings, hmappings, hinserted⟩ := Repository.createSourceMapping_ok hcreate
  have hrows : r'.mappings = mappings := by
    obtain ⟨_, _, -, -, rfl⟩ := insertEntityMappings_ok hinserted
    rfl
  rw [hrows] at hm'
  have hnodup := hm'
  rcases (Table.mem_of_insert? hmappings).1 hm' with hmem | rfl
  · refine ⟨m', hmem, hvetted, ⟨rfl, rfl⟩, (entityMappingsOf_insert hinserted ?_).trans rfl⟩
    intro hid
    have hnew : mapping.toSourceMappingRow ∈ mappings :=
      (Table.mem_of_insert? hmappings).2 (.inr rfl)
    rw [Table.eq_of_key_eq hnodup hnew hid] at hvetted
    exact hstatus hvetted
  · exact absurd hvetted hstatus

/-- The content of one mapping is edited, which is not vetted afterwards. -/
theorem Earned.replace {mappingId : String} (h : Earned env r) (hsame : SameModels r r')
    (hrows : ∀ m' ∈ r'.mappings, Vetted m'.status → m' ∈ r.mappings ∧ m'.id ≠ mappingId)
    (hems : ∀ other, other ≠ mappingId → r'.entityMappingsOf other = r.entityMappingsOf other) :
    Earned env r' := by
  refine h.of_kept hsame fun m' hm' hvetted => ?_
  obtain ⟨hmem, hid⟩ := hrows m' hm' hvetted
  exact ⟨m', hmem, hvetted, ⟨rfl, rfl⟩, hems _ hid⟩

/-- A row that is written under a status without vetting is not among the vetted ones. -/
theorem vetted_of_written {now : ℕ} {written : SourceMapping} (hstatus : ¬ Vetted written.status)
    {m' : SourceMappingRow} (hm' : m' ∈ (r.writeMapping now written).mappings)
    (hvetted : Vetted m'.status) : m' ∈ r.mappings ∧ m'.id ≠ written.id := by
  rcases mem_writeMapping.1 hm' with hkept | ⟨m, -, -, rfl⟩
  · exact hkept
  · exact absurd hvetted hstatus

/-- The content of every vetted mapping passes after the edit if it did before. -/
theorem Earned.edit (h : Earned env r) (hsame : SameModels r r') (hrows : r'.mappings = r.mappings)
    (hne : ∀ m ∈ r.mappings, Vetted m.status → r.entityMappingsOf m.id ≠ [] →
      r'.entityMappingsOf m.id ≠ [])
    (hems : ∀ m ∈ r.mappings, Vetted m.status → ∀ model,
      getModel env.py r m.logicalModelId = .ok model →
      (∀ em ∈ r.entityMappingsOf m.id, EntityPasses env m.sourceId model em) →
      ∀ em ∈ r'.entityMappingsOf m.id, EntityPasses env m.sourceId model em) : Earned env r' := by
  intro m hm hvetted
  rw [hrows] at hm
  have hvalid := h m hm hvetted
  obtain ⟨-, -, hcontent, -⟩ := valid_iff.1 hvalid
  exact hvalid.of_content hsame rfl (hne m hm hvetted hcontent) fun model hmodel hpass =>
    hems m hm hvetted model hmodel hpass

/-- An entity mapping with some of its field mappings left. -/
theorem EntityPasses.sublist {sourceId : String} {model : LogicalModel} {em : EntityMapping}
    {fms : List FieldMapping} (h : EntityPasses env sourceId model em) (hne : fms ≠ [])
    (hsub : ∀ fm ∈ fms, fm ∈ em.fieldMappings) :
    EntityPasses env sourceId model { em with fieldMappings := fms } := by
  obtain ⟨entity, hentity, physical, hphysical, -, hfms⟩ := h
  exact ⟨entity, hentity, physical, hphysical, hne, fun fm hfm => hfms fm (hsub fm hfm)⟩

theorem entityMappingsOf_deleteEntityMapping (r : Repository) (id mappingId : String) :
    (r.deleteEntityMapping id).2.entityMappingsOf mappingId =
      (r.entityMappingsOf mappingId).filter (·.id ≠ id) := by
  simp only [deleteEntityMapping, entityMappingsOf, Table.filter, List.filter_map]
  rw [List.filter_comm]
  rfl

theorem entityMappingsOf_deleteFieldMapping (r : Repository) (id mappingId : String) :
    (r.deleteFieldMapping id).2.entityMappingsOf mappingId =
      (r.entityMappingsOf mappingId).map fun em =>
        { em with fieldMappings := em.fieldMappings.filter (·.id ≠ id) } := by
  simp only [deleteFieldMapping, entityMappingsOf, List.map_map]
  refine List.map_congr_left fun row _ => ?_
  simp only [entityMappingToDomain, fieldMappingsOf, Table.filter, Function.comp_apply]
  rw [List.filter_comm]

theorem Earned.deleteEntityMapping {id : String} (h : Earned env r)
    (hother : ∀ m ∈ r.mappings, Vetted m.status → ∃ em ∈ r.entityMappingsOf m.id, em.id ≠ id) :
    Earned env (r.deleteEntityMapping id).2 := by
  refine h.edit ⟨rfl, rfl, rfl⟩ rfl (fun m hm hvetted _ => ?_) fun m _ _ model _ hpass em hem => ?_
  · obtain ⟨em, hem, hid⟩ := hother m hm hvetted
    rw [entityMappingsOf_deleteEntityMapping]
    exact List.ne_nil_of_mem (List.mem_filter.2 ⟨hem, by simpa using hid⟩)
  · rw [entityMappingsOf_deleteEntityMapping] at hem
    exact hpass em (List.mem_of_mem_filter hem)

theorem Earned.deleteFieldMapping {id : String} (h : Earned env r)
    (hother : ∀ m ∈ r.mappings, Vetted m.status → ∀ em ∈ r.entityMappingsOf m.id,
      ∃ fm ∈ em.fieldMappings, fm.id ≠ id) : Earned env (r.deleteFieldMapping id).2 := by
  refine h.edit ⟨rfl, rfl, rfl⟩ rfl (fun m _ _ hne => ?_) fun m hm hvetted model _ hpass em' hem' => ?_
  · rw [entityMappingsOf_deleteFieldMapping]
    simpa using hne
  · rw [entityMappingsOf_deleteFieldMapping] at hem'
    obtain ⟨em, hem, rfl⟩ := List.mem_map.1 hem'
    obtain ⟨fm, hfm, hid⟩ := hother m hm hvetted em hem
    refine (hpass em hem).sublist ?_ fun fm hfm => List.mem_of_mem_filter hfm
    exact List.ne_nil_of_mem (List.mem_filter.2 ⟨hfm, by simpa using hid⟩)

/-- The field mapping that is added passes the check that validation would make. -/
theorem Earned.addFieldMapping {fm : FieldMapping} (h : Earned env r)
    (hpasses : ∀ m ∈ r.mappings, Vetted m.status → ∀ em ∈ r.entityMappingsOf m.id,
      em.id = fm.entityMappingId → ∀ model entity physical,
      getModel env.py r m.logicalModelId = .ok model → entityFor env.py model em = some entity →
      Stands env m.sourceId em physical → checkFieldMapping env.py entity physical fm = .ok ())
    (hadd : r.addFieldMapping fm = .ok r') : Earned env r' := by
  simp only [Repository.addFieldMapping, bind_eq_ok, flush_eq_ok, pure_eq_ok] at hadd
  obtain ⟨fieldMappings, hinsert, rfl⟩ := hadd
  have hems : ∀ mappingId, entityMappingsOf { r with fieldMappings := fieldMappings } mappingId =
      (r.entityMappingsOf mappingId).map fun em => { em with fieldMappings := em.fieldMappings ++
        if em.id = fm.entityMappingId then [fm] else [] } := by
    intro mappingId
    simp only [entityMappingsOf, List.map_map]
    refine List.map_congr_left fun row _ => ?_
    simp only [entityMappingToDomain, fieldMappingsOf, Table.rows_of_insert? hinsert,
      List.filter_append, Function.comp_apply]
    by_cases hid : row.id = fm.entityMappingId
    · simp [hid]
    · simp [hid, Ne.symm hid]
  refine h.edit ⟨rfl, rfl, rfl⟩ rfl (fun m _ _ hne => ?_)
    fun m hm hvetted model hmodel hpass em' hem' => ?_
  · rw [hems]
    simpa using hne
  · rw [hems] at hem'
    obtain ⟨em, hem, rfl⟩ := List.mem_map.1 hem'
    obtain ⟨entity, hentity, physical, hphysical, hne, hfms⟩ := hpass em hem
    refine ⟨entity, hentity, physical, hphysical, by simp [hne], fun fm' hfm' => ?_⟩
    rcases List.mem_append.1 hfm' with hfm' | hfm'
    · exact hfms fm' hfm'
    · split_ifs at hfm' with hid
      · obtain rfl := List.mem_singleton.1 hfm'
        exact checkFieldMapping_eq_ok.1
          (hpasses m hm hvetted em hem hid model entity physical hmodel hentity hphysical)
      · exact absurd hfm' List.not_mem_nil

/-! ### What an operation has to respect -/

/-- What a VALIDATED or ACTIVE mapping rests on: the model it names and, for one of its entity
mappings, the entity and the physical entity. -/
structure Rests (env : Environment) (r : Repository) (m : SourceMappingRow) (model : LogicalModel)
    (em : EntityMapping) (entity : LogicalEntity) (physical : EntitySchema) : Prop where
  stored : m ∈ r.mappings
  vetted : Vetted m.status
  found : getModel env.py r m.logicalModelId = .ok model
  content : em ∈ r.entityMappingsOf m.id
  named : entityFor env.py model em = some entity
  stands : Stands env m.sourceId em physical

/-- A mapping names its model by the id or by the very name. -/
def NamesModel (r : Repository) (m : SourceMappingRow) : Prop :=
  ∃ model ∈ r.models, model.id = m.logicalModelId ∨ model.name = m.logicalModelId

/-- A mapping names its model by the id. -/
def NamesModelById (r : Repository) (m : SourceMappingRow) : Prop :=
  ∃ model ∈ r.models, model.id = m.logicalModelId

/-- Neither the old nor the new name of an item is the name looked for, but for case and number. -/
def Unlike (py : Casing) (old new sought : String) : Prop :=
  py.clean old ≠ py.clean sought ∧ py.clean new ≠ py.clean sought

/-- The call leaves alone what VALIDATED and ACTIVE mappings consist of and rest on, and writes
VALIDATED only where validation does. Identifiers that are drawn are new. -/
def Operation.KeepsEarned (env : Environment) (r : Repository) : Operation → Prop
  | .createSourceMapping _ _ _ _ _ status _ _ => status ≠ .validated
  | .updateSourceMapping _ mappingId _ (some .validated) _ _ none =>
    ∀ m ∈ r.mappings, m.id = mappingId → Vetted m.status ∨ Valid env r (r.sourceMappingToDomain m)
  | .deleteEntityMapping entityMappingId =>
    ∀ m ∈ r.mappings, Vetted m.status → ∃ em ∈ r.entityMappingsOf m.id, em.id ≠ entityMappingId
  | .deleteFieldMapping fieldMappingId =>
    ∀ m ∈ r.mappings, Vetted m.status → ∀ em ∈ r.entityMappingsOf m.id,
      ∃ fm ∈ em.fieldMappings, fm.id ≠ fieldMappingId
  | .addFieldMapping id entityMappingId logicalFieldId physicalFieldName transformationRule =>
    ∀ m model em entity physical, Rests env r m model em entity physical →
      em.id = entityMappingId → ∀ field, getField r logicalFieldId = .ok field →
      checkFieldMapping env.py entity physical
        { id, entityMappingId, logicalFieldId, logicalFieldName := field.name, physicalFieldName,
          transformationRule } = .ok ()
  | .createModel id _ _ _ _ _ =>
    ∀ m ∈ r.mappings, Vetted m.status → NamesModel r m ∧ id ≠ m.logicalModelId
  | .updateModel _ _ name _ _ =>
    ∀ m ∈ r.mappings, Vetted m.status → NamesModelById r m ∨ name = none ∧ NamesModel r m
  | .deleteModel modelId =>
    ∀ m ∈ r.mappings, Vetted m.status → ∀ model,
      getModel env.py r m.logicalModelId = .ok model → model.id ≠ modelId
  | .addEntity id _ modelId name _ _ =>
    ∀ m model em entity physical, Rests env r m model em entity physical → NamesModel r m ∧
      (model.id = modelId → name ≠ "" ∧ id ≠ em.logicalEntityId)
  | .updateEntity _ entityId name _ =>
    ∀ m model em entity physical, Rests env r m model em entity physical → NamesModel r m ∧
      ∀ new, name = some new → em.logicalEntityId = entity.id ∨
        ∀ e ∈ r.entities, e.id = entityId → Unlike env.py e.name new em.logicalEntityName
  | .deleteEntity _ entityId =>
    ∀ m model em entity physical, Rests env r m model em entity physical → NamesModel r m ∧
      entity.id ≠ entityId
  | .addField id _ entityId name _ _ _ =>
    ∀ m model em entity physical, Rests env r m model em entity physical → NamesModel r m ∧
      (entity.id = entityId → name ≠ "" ∧ ∀ fm ∈ em.fieldMappings, id ≠ fm.logicalFieldId)
  | .updateField fieldId name dataType _ _ =>
    ∀ m model em entity physical, Rests env r m model em entity physical →
      ∀ fm ∈ em.fieldMappings, ∀ field, fieldFor env.py entity fm = some field →
      (field.id = fieldId →
        FieldPasses env.py physical fm (dataType.getD field.dataType)) ∧
      ∀ new, name = some new → fm.logicalFieldId = field.id ∨
        ∀ f ∈ r.fields, f.id = fieldId → Unlike env.py f.name new fm.logicalFieldName
  | .deleteField fieldId =>
    ∀ m model em entity physical, Rests env r m model em entity physical →
      ∀ fm ∈ em.fieldMappings, ∀ field, fieldFor env.py entity fm = some field → field.id ≠ fieldId
  | _ => True

theorem earned_of_onMappings {o : Operation} (ho : o.onModels = false) (h : Earned env r)
    (hkeeps : o.KeepsEarned env r) (happly : o.apply env r = .ok r') : Earned env r' := by
  -- a mapping that had to be vetted before is valid
  have hvalid : ∀ mapping : SourceMapping, mapping.toSourceMappingRow ∈ r.mappings →
      Vetted mapping.status → ∀ m ∈ r.mappings, m.id = mapping.id →
      Valid env r (r.sourceMappingToDomain m) := by
    intro mapping hmem hvetted m hm hid
    obtain rfl : m = mapping.toSourceMappingRow := Table.eq_of_key_eq hm hmem hid
    exact h _ hm hvetted
  have hdraft : ¬ Vetted .draft := by simp [Vetted]
  cases o with
  | createSourceMapping id now logicalModelId sourceId version status provenance ems =>
    obtain ⟨_, -, -, hcreate⟩ := createSourceMapping_ok happly
    refine h.create ?_ hcreate
    show ¬ Vetted (if status = .active then .draft else status)
    split_ifs with hactive
    · exact hdraft
    · exact fun hvetted => hvetted.elim hkeeps hactive
  | ingestAlignSuggestions id now modelId sourceId version ems =>
    obtain ⟨_, -, hcreate⟩ := ingestAlignSuggestions_ok happly
    exact h.create hdraft hcreate
  | updateSourceMapping now mappingId version status provenance errorMessage ems =>
    rw [Operation.apply] at happly
    cases ems with
    | some ems =>
      obtain ⟨mapping, _, hmapping, rfl, _, -, hinserted⟩ := replaceEntityMappings_ok happly
      obtain ⟨-, rfl, -⟩ := mem_of_getSourceMapping hmapping
      obtain ⟨hmodels, hentities, hfields⟩ := sameModels_insertEntityMappings hinserted
      have hrows : ∀ m' ∈ r'.mappings, Vetted m'.status →
          m' ∈ r.mappings ∧ m'.id ≠ mapping.id := by
        obtain ⟨_, _, -, -, rfl⟩ := insertEntityMappings_ok hinserted
        intro m' hm' hvetted
        exact @vetted_of_written r now (revised mapping version provenance none .draft) hdraft m'
          hm' hvetted
      refine h.replace ⟨hmodels, hentities, hfields⟩ hrows fun other hne => ?_
      rw [entityMappingsOf_insert hinserted hne]
      exact entityMappingsOf_filter r hne
    | none =>
      obtain ⟨mapping, hmapping, hactive, rfl⟩ := updateSourceMapping_ok happly
      obtain ⟨hmem, rfl, -⟩ := mem_of_getSourceMapping hmapping
      apply h.write
      intro hvetted m hm hid
      by_cases hbefore : Vetted mapping.status
      · exact hvalid mapping hmem hbefore m hm hid
      · cases status with
        | none => exact absurd hvetted hbefore
        | some status =>
          cases status with
          | active => exact absurd (.inl (hactive rfl)) hbefore
          | validated =>
            rcases hkeeps m hm hid with hvetted | hvalid
            · exact h m hm hvetted
            · exact hvalid
          | draft => exact absurd hvetted hdraft
          | error => simp [Vetted, revised] at hvetted
  | deleteSourceMapping mappingId =>
    cases happly
    refine h.of_kept ⟨rfl, rfl, rfl⟩ fun m' hm' hvetted => ?_
    exact ⟨m', (Table.mem_filter.1 hm').1, hvetted, ⟨rfl, rfl⟩, rfl⟩
  | addEntityMapping id now sourceMappingId logicalEntityId physicalEntityName physicalNamespace
      fms =>
    obtain ⟨mapping, hmapping, _, _, _, -, -, -, _, hinserted, rfl⟩ := addEntityMapping_ok happly
    obtain ⟨-, rfl, -⟩ := mem_of_getSourceMapping hmapping
    have hsame := sameModels_insertEntityMappings hinserted
    have hcontent := fun other => @entityMappingsOf_insert _ _ _ other _ hinserted
    obtain ⟨_, _, -, -, rfl⟩ := insertEntityMappings_ok hinserted
    refine h.replace ⟨hsame.models, hsame.entities, hsame.fields⟩ (fun m' hm' hvetted => ?_) hcontent
    exact @vetted_of_written r now { mapping with status := .draft, errorMessage := none } hdraft
      m' hm' hvetted
  | deleteEntityMapping entityMappingId =>
    cases happly
    exact h.deleteEntityMapping hkeeps
  | addFieldMapping id entityMappingId logicalFieldId physicalFieldName transformationRule =>
    simp only [Operation.apply, Registry.addFieldMapping, bind_eq_ok] at happly
    obtain ⟨field, hfield, hadd⟩ := happly
    refine h.addFieldMapping ?_ hadd
    intro m hm hvetted em hem hid model entity physical hmodel hentity hphysical
    exact hkeeps m model em entity physical ⟨hm, hvetted, hmodel, hem, hentity, hphysical⟩ hid
      field hfield
  | deleteFieldMapping fieldMappingId =>
    cases happly
    exact h.deleteFieldMapping hkeeps
  | validateSourceMapping now mappingId =>
    obtain ⟨⟨_, _⟩, hvalidated, rfl⟩ := map_eq_ok.1 happly
    obtain ⟨mapping, model, hmapping, hmodel, hresult⟩ := validateSourceMapping_ok hvalidated
    obtain ⟨hmem, -, heq⟩ := mem_of_getSourceMapping hmapping
    obtain ⟨hverdict, -, rfl⟩ | ⟨status, _, hverdict, -, rfl⟩ := hresult
    · refine h.write fun _ m hm hid => ?_
      obtain rfl : m = mapping.toSourceMappingRow := Table.eq_of_key_eq hm hmem hid
      rw [← heq]
      exact ⟨model, hmodel, hverdict⟩
    · obtain ⟨hactive, hvalidated⟩ := status_of_verdict hverdict
      exact h.write fun hvetted => absurd hvetted fun h => h.elim hvalidated hactive
  | activateSourceMapping now mappingId =>
    obtain ⟨mapping, demoted, hmapping, hstatus, hdemoted, rfl⟩ := activateSourceMapping_ok happly
    obtain ⟨hmem, -, -⟩ := mem_of_getSourceMapping hmapping
    have hsame := sameModels_demoteOthers hdemoted
    have hearned : Earned env demoted := by
      refine h.of_kept hsame fun m' hm' hvetted => ?_
      obtain ⟨m, hm, ⟨rfl, -⟩ | ⟨other, hother, hrival, hid, rfl⟩⟩ := mem_demoteOthers hdemoted hm'
      · exact ⟨_, hm, hvetted, ⟨rfl, rfl⟩, entityMappingsOf_demoteOthers hdemoted _⟩
      · have heq : other.toSourceMappingRow = m := Table.eq_of_key_eq (listed_mem hother) hm hid
        refine ⟨m, hm, .inr ?_, ⟨rfl, rfl⟩, entityMappingsOf_demoteOthers hdemoted _⟩
        rw [← heq]
        exact hrival.2.2
    refine hearned.write fun _ m hm hid => ?_
    obtain rfl := eq_of_demoted hmem hdemoted hm hid
    exact (h _ hmem (.inl hstatus)).of_same hsame rfl rfl (entityMappingsOf_demoteOthers hdemoted _)
  | _ => cases ho

end AltrStream.Registry
