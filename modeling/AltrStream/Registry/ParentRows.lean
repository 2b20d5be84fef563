import AltrStream.Foundations.Table
import AltrStream.Registry.UniqueNames

/-! # Rows and the rows above them

Nothing in the database keeps a row from naming a parent that is gone. The rows of
every run name existing parents as long as deletions go from the bottom upwards and
models are called by their ids; a call that does not keep to this leaves a row whose
parent does not exist. The fields of entities always have their entity.
-/
namespace AltrStream.Registry
open Foundations Python QueryEngine Domain Repository

/-- Every row names a parent that exists. -/
@[mk_iff]
structure Referenced (r : Repository) : Prop where
  entities : Refers r.entities (fun e => e.logicalModelId) r.models
  fields : Refers r.fields (fun f => f.logicalEntityId) r.entities
  mappings : Refers r.mappings (fun m => m.logicalModelId) r.models
  entityMappings : Refers r.entityMappings (fun em => em.sourceMappingId) r.mappings
  fieldMappings : Refers r.fieldMappings (fun fm => fm.entityMappingId) r.entityMappings

/-- The text is the id of a model, and not merely its name. -/
def IsModelId (r : Repository) (modelId : String) : Prop := ∃ m ∈ r.models, m.id = modelId

/-- The call deletes nothing that has rows below it, and puts rows below what exists. -/
def Operation.KeepsParents (r : Repository) : Operation → Prop
  | .deleteModel modelId => (∀ e ∈ r.entities, e.logicalModelId ≠ modelId) ∧
      ∀ m ∈ r.mappings, m.logicalModelId ≠ modelId
  | .addEntity _ _ modelId _ _ _ => IsModelId r modelId
  | .createSourceMapping _ _ modelId _ _ _ _ _ => IsModelId r modelId
  | .ingestAlignSuggestions _ _ modelId _ _ _ => IsModelId r modelId
  | .updateSourceMapping _ mappingId _ _ _ _ (some ems) =>
    ∀ fm ∈ r.fieldMappings, ∀ em ∈ r.entityMappings, em.id = fm.entityMappingId →
      em.sourceMappingId = mappingId → ∃ em' ∈ ems, em'.id = em.id
  | .deleteSourceMapping mappingId => ∀ em ∈ r.entityMappings, em.sourceMappingId ≠ mappingId
  | .deleteEntityMapping entityMappingId =>
    ∀ fm ∈ r.fieldMappings, fm.entityMappingId ≠ entityMappingId
  | .addFieldMapping _ entityMappingId _ _ _ => ∃ em ∈ r.entityMappings, em.id = entityMappingId
  | _ => True

/-- When rows keep their parents. -/
structure ParentsKept (env : Environment) : Prop where
  /-- A successful call leaves every row with its parent exactly if it keeps to the order. -/
  step : ∀ r r' : Repository, ∀ o : Operation, Referenced r → o.apply env r = .ok r' → (Referenced r' ↔ o.KeepsParents r)
  run : ∀ r, Reached (Operation.apply env) (fun r o => o.KeepsParents r) Repository.empty r →
    Referenced r
  /-- Whatever is called, no field is left without its entity. -/
  fields : ∀ r, Reached (Operation.apply env) (fun _ _ => True) Repository.empty r → FieldsOwned r

variable {env : Environment} {py : Casing} {r r' : Repository}

/-! ### Rewritten rows -/

theorem referenced_touchModel_iff {now : ℕ} {modelId : String} :
    Referenced (r.touchModel now modelId) ↔ Referenced r := by
  simp only [referenced_iff, touchModel]
  exact and_congr (Refers.modify_parents_iff _) <| and_congr_right' <|
    and_congr_left' (Refers.modify_parents_iff _)

theorem referenced_writeModel_iff {now : ℕ} {model : LogicalModelRow} :
    Referenced (r.writeModel now model) ↔ Referenced r := by
  simp only [referenced_iff, writeModel]
  exact and_congr (Refers.modify_parents_iff _) <| and_congr_right' <|
    and_congr_left' (Refers.modify_parents_iff _)

theorem referenced_writeEntity_iff {entity : LogicalEntityRow} :
    Referenced (r.writeEntity entity) ↔ Referenced r := by
  simp only [referenced_iff, writeEntity]
  exact and_congr (Refers.modify_children_iff _ fun _ => rfl) <|
    and_congr_left' (Refers.modify_parents_iff _)

theorem referenced_writeField_iff {field : LogicalField} :
    Referenced (r.writeField field) ↔ Referenced r := by
  simp only [referenced_iff, writeField]
  exact and_congr_right' <| and_congr_left' (Refers.modify_children_iff _ fun _ => rfl)

theorem referenced_writeMapping_iff {now : ℕ} {mapping : SourceMapping} :
    Referenced (r.writeMapping now mapping) ↔ Referenced r := by
  simp only [referenced_iff, writeMapping]
  exact and_congr_right' <| and_congr_right' <| and_congr
    (Refers.modify_children_iff _ fun _ => rfl) <| and_congr_left' (Refers.modify_parents_iff _)

/-! ### Inserted rows -/

/-- Nested fields name the entity that they come with. -/
theorem refers_insertEntities {modelId : String} {es : List LogicalEntity}
    (hinsert : r.insertEntities modelId es = .ok r')
    (h : Refers r.fields (fun f => f.logicalEntityId) r.entities) :
    Refers r'.fields (fun f => f.logicalEntityId) r'.entities ∧
      (Refers r'.entities (fun e => e.logicalModelId) r'.models ↔
        Refers r.entities (fun e => e.logicalModelId) r.models ∧ (es ≠ [] → IsModelId r modelId)) := by
  obtain ⟨entities, fields, hentities, hfields, rfl⟩ := insertEntities_ok hinsert
  constructor
  · refine (Refers.insertAll?_iff hfields).2 ⟨h.insert_parents hentities, fun f hf => ?_⟩
    obtain ⟨e, he, -, -, -, -, hof⟩ := mem_fieldRows hf
    exact ⟨_, (Table.mem_of_insertAll? hentities).2 (.inr (List.mem_map_of_mem he)), hof.symm⟩
  · rw [Refers.insertAll?_iff hentities, List.forall_mem_map]
    refine and_congr_right' ⟨fun hnew hne => ?_, fun hmodel e he => hmodel (List.ne_nil_of_mem he)⟩
    obtain ⟨e, he⟩ := List.exists_mem_of_ne_nil es hne
    exact hnew e he

theorem referenced_insertEntities_iff {modelId : String} {es : List LogicalEntity}
    (hinsert : r.insertEntities modelId es = .ok r') (h : Referenced r) :
    Referenced r' ↔ (es ≠ [] → IsModelId r modelId) := by
  obtain ⟨hfields, hentities⟩ := refers_insertEntities hinsert h.fields
  obtain ⟨_, _, -, -, rfl⟩ := insertEntities_ok hinsert
  constructor
  · exact fun h' => (hentities.1 h'.entities).2
  · exact fun hmodel => ⟨hentities.2 ⟨h.entities, hmodel⟩, hfields, h.mappings, h.entityMappings,
      h.fieldMappings⟩

/-- Nested field mappings name the entity mapping that they come with. -/
theorem refers_insertEntityMappings {mappingId : String} {ems : List EntityMapping}
    (hinsert : r.insertEntityMappings mappingId ems = .ok r') :
    (Refers r'.fieldMappings (fun fm => fm.entityMappingId) r'.entityMappings ↔
      Refers r.fieldMappings (fun fm => fm.entityMappingId) r'.entityMappings) ∧
    (Refers r'.entityMappings (fun em => em.sourceMappingId) r'.mappings ↔
      Refers r.entityMappings (fun em => em.sourceMappingId) r.mappings ∧
        (ems ≠ [] → ∃ m ∈ r.mappings, m.id = mappingId)) := by
  obtain ⟨entityMappings, fieldMappings, hems, hfms, rfl⟩ := insertEntityMappings_ok hinsert
  constructor
  · rw [Refers.insertAll?_iff hfms]
    refine and_iff_left fun fm hfm => ?_
    obtain ⟨em, hem, hfm⟩ := List.mem_flatMap.1 hfm
    obtain ⟨_, -, rfl⟩ := List.mem_map.1 hfm
    exact ⟨_, (Table.mem_of_insertAll? hems).2 (.inr (List.mem_map_of_mem hem)), rfl⟩
  · rw [Refers.insertAll?_iff hems, List.forall_mem_map]
    refine and_congr_right' ⟨fun hnew hne => ?_, fun hmapping em hem => hmapping (List.ne_nil_of_mem hem)⟩
    obtain ⟨em, hem⟩ := List.exists_mem_of_ne_nil ems hne
    exact hnew em hem

theorem mem_insertEntityMappings {mappingId : String} {ems : List EntityMapping}
    (hinsert : r.insertEntityMappings mappingId ems = .ok r') {em' : EntityMappingRow} :
    em' ∈ r'.entityMappings ↔ em' ∈ r.entityMappings ∨
      ∃ em ∈ ems, { em.toEntityMappingRow with sourceMappingId := mappingId } = em' := by
  obtain ⟨_, _, hems, -, rfl⟩ := insertEntityMappings_ok hinsert
  rw [Table.mem_of_insertAll? hems, List.mem_map]

theorem referenced_insertEntityMappings_iff {mappingId : String} {ems : List EntityMapping}
    (hinsert : r.insertEntityMappings mappingId ems = .ok r') (h : Referenced r) :
    Referenced r' ↔ (ems ≠ [] → ∃ m ∈ r.mappings, m.id = mappingId) := by
  obtain ⟨hfieldMappings, hentityMappings⟩ := refers_insertEntityMappings hinsert
  have hkept : Refers r.fieldMappings (fun fm => fm.entityMappingId) r'.entityMappings :=
    h.fieldMappings.of_kept (fun fm hfm => ⟨fm, hfm, rfl⟩)
      fun em hem => ⟨em, (mem_insertEntityMappings hinsert).2 (.inl hem), rfl⟩
  obtain ⟨_, _, -, -, rfl⟩ := insertEntityMappings_ok hinsert
  constructor
  · exact fun h' => (hentityMappings.1 h'.entityMappings).2
  · exact fun hmapping => ⟨h.entities, h.fields, h.mappings,
      hentityMappings.2 ⟨h.entityMappings, hmapping⟩, hfieldMappings.2 hkept⟩

theorem Referenced.insertModel {model : LogicalModelRow} {models : Table LogicalModelRow}
    (h : Referenced r) (hinsert : r.models.insert? model = some models) :
    Referenced { r with models := models } := by
  rw [← Table.insertAll?_singleton] at hinsert
  exact ⟨h.entities.insert_parents hinsert, h.fields, h.mappings.insert_parents hinsert,
    h.entityMappings, h.fieldMappings⟩

/-- A mapping with its content is created below a model exactly if the model is given by its id. -/
theorem referenced_createSourceMapping_iff {mapping : SourceMapping}
    (hcreate : r.createSourceMapping mapping = .ok r') (h : Referenced r) :
    Referenced r' ↔ IsModelId r mapping.logicalModelId := by
  obtain ⟨mappings, hmappings, hinsert⟩ := Repository.createSourceMapping_ok hcreate
  have hmem : mapping.toSourceMappingRow ∈ mappings := (Table.mem_of_insert? hmappings).2 (.inr rfl)
  have hrefers : Refers mappings (fun m => m.logicalModelId) r.models ↔
      Refers r.mappings (fun m => m.logicalModelId) r.models ∧ IsModelId r mapping.logicalModelId :=
    Refers.insert?_iff hmappings
  constructor
  · intro h'
    obtain ⟨_, _, -, -, rfl⟩ := insertEntityMappings_ok hinsert
    exact (hrefers.1 h'.mappings).2
  · intro hmodel
    have hparents : r.mappings.insertAll? [mapping.toSourceMappingRow] = some mappings :=
      (Table.insertAll?_singleton _ _).trans hmappings
    have hinserted : Referenced { r with mappings := mappings } := ⟨h.entities, h.fields,
      hrefers.2 ⟨h.mappings, hmodel⟩, h.entityMappings.insert_parents hparents, h.fieldMappings⟩
    exact (referenced_insertEntityMappings_iff hinsert hinserted).2 fun _ => ⟨_, hmem, rfl⟩

/-- Entity mappings are replaced exactly if no field mapping of a removed one stays behind. -/
theorem referenced_replaced_iff {now : ℕ} {mapping : SourceMapping} {mappingId : String}
    {ems : List EntityMapping} (h : Referenced r) (hmapping : ∃ m ∈ r.mappings, m.id = mappingId)
    (hinsert : { r.writeMapping now mapping with
      entityMappings := r.entityMappings.filter (·.sourceMappingId ≠ mappingId)
    }.insertEntityMappings mappingId ems = .ok r') :
    Referenced r' ↔ ∀ fm ∈ r.fieldMappings, ∀ em ∈ r.entityMappings, em.id = fm.entityMappingId →
      em.sourceMappingId = mappingId → ∃ em' ∈ ems, em'.id = em.id := by
  obtain ⟨hfieldMappings, hentityMappings⟩ := refers_insertEntityMappings hinsert
  have hmem := @mem_insertEntityMappings _ _ _ _ hinsert
  have hwritten : Referenced (r.writeMapping now mapping) := referenced_writeMapping_iff.2 h
  have hold : Refers (r.entityMappings.filter (·.sourceMappingId ≠ mappingId))
      (fun em => em.sourceMappingId) (r.writeMapping now mapping).mappings :=
    hwritten.entityMappings.filter _
  have hparent : ∃ m ∈ (r.writeMapping now mapping).mappings, m.id = mappingId := by
    obtain ⟨m, hm, rfl⟩ := hmapping
    by_cases hid : m.id = mapping.id
    · exact ⟨_, mem_writeMapping.2 (.inr ⟨m, hm, hid, rfl⟩), rfl⟩
    · exact ⟨m, mem_writeMapping.2 (.inl ⟨hm, hid⟩), rfl⟩
  have hparts : Referenced r' ↔
      Refers r.fieldMappings (fun fm => fm.entityMappingId) r'.entityMappings := by
    obtain ⟨_, _, -, -, rfl⟩ := insertEntityMappings_ok hinsert
    constructor
    · exact fun h' => hfieldMappings.1 h'.fieldMappings
    · exact fun hrefers => ⟨hwritten.entities, hwritten.fields, hwritten.mappings,
        hentityMappings.2 ⟨hold, fun _ => hparent⟩, hfieldMappings.2 hrefers⟩
  rw [hparts]
  constructor
  · intro hrefers fm hfm em hem hof hmine
    obtain ⟨em', hem', hkey⟩ := hrefers fm hfm
    rcases hmem.1 hem' with hem' | ⟨new, hnew, rfl⟩
    · obtain ⟨hem', hother⟩ := Table.mem_filter.1 hem'
      have heq : em' = em := Table.eq_of_key_eq hem' hem (hkey.trans hof.symm)
      rw [heq] at hother
      simp [hmine] at hother
    · exact ⟨new, hnew, hkey.trans hof.symm⟩
  · intro hkept fm hfm
    obtain ⟨em, hem, hof⟩ := h.fieldMappings fm hfm
    by_cases hmine : em.sourceMappingId = mappingId
    · obtain ⟨em', hem', hid⟩ := hkept fm hfm em hem hof hmine
      exact ⟨_, hmem.2 (.inr ⟨em', hem', rfl⟩), hid.trans hof⟩
    · exact ⟨em, hmem.2 (.inl (Table.mem_filter.2 ⟨hem, by simpa using hmine⟩)), hof⟩

theorem referenced_demoteOthers_iff {now : ℕ} {mapping : SourceMapping}
    {others : List SourceMapping} (hdemoted : demoteOthers now mapping others r = .ok r') :
    Referenced r' ↔ Referenced r := by
  induction others generalizing r with
  | nil =>
    cases hdemoted
    rfl
  | cons other others ih =>
    simp only [demoteOthers, bind_eq_ok] at hdemoted
    obtain ⟨r₁, h₁, hdemoted⟩ := hdemoted
    rw [ih hdemoted]
    unfold demoteOther at h₁
    split at h₁
    · rw [Repository.updateSourceMapping_ok h₁, referenced_writeMapping_iff]
    · cases h₁
      rfl

/-! ### Calls -/

theorem referenced_apply_models {o : Operation} (ho : o.onModels = true) (h : Referenced r)
    (happly : o.apply env r = .ok r') : Referenced r' ↔ o.KeepsParents r := by
  cases o with
  | createModel id now name version description es =>
    obtain ⟨-, models, hmodels, hinsert⟩ := createModel_ok happly
    have hnew : IsModelId { r with models := models } id :=
      ⟨_, (Table.mem_of_insert? hmodels).2 (.inr rfl), rfl⟩
    exact iff_of_true ((referenced_insertEntities_iff hinsert (h.insertModel hmodels)).2
      fun _ => hnew) trivial
  | updateModel now modelId name version description =>
    obtain ⟨_, _, -, -, rfl⟩ := updateModel_ok happly
    exact iff_of_true (referenced_writeModel_iff.2 h) trivial
  | deleteModel modelId =>
    cases happly
    constructor
    · exact fun h' => ⟨(h.entities.remove_iff modelId).1 h'.entities,
        (h.mappings.remove_iff modelId).1 h'.mappings⟩
    · exact fun hkept => ⟨(h.entities.remove_iff modelId).2 hkept.1, h.fields,
        (h.mappings.remove_iff modelId).2 hkept.2, h.entityMappings, h.fieldMappings⟩
  | addEntity id now modelId name description fields =>
    obtain ⟨_, _, -, -, hinsert, rfl⟩ := addEntity_ok happly
    rw [referenced_touchModel_iff, referenced_insertEntities_iff hinsert h]
    exact forall_prop_of_true (List.cons_ne_nil _ _)
  | updateEntity now entityId name description =>
    obtain ⟨_, -, -, rfl⟩ := updateEntity_ok happly
    exact iff_of_true (referenced_touchModel_iff.2 (referenced_writeEntity_iff.2 h)) trivial
  | deleteEntity now entityId =>
    obtain rfl | ⟨_, -, -, rfl⟩ := deleteEntity_ok (Except.ok.inj happly).symm
    · exact iff_of_true h trivial
    · refine iff_of_true (referenced_touchModel_iff.2 ⟨h.entities.filter _, ?_, h.mappings,
        h.entityMappings, h.fieldMappings⟩) trivial
      refine ((h.fields.filter _).remove_iff entityId).2 fun f hf => ?_
      simpa using (Table.mem_filter.1 hf).2
  | addField id now entityId name dataType isPrimaryKey nullable =>
    obtain ⟨row, hrow, rfl, -, fields, hfields, rfl⟩ := addField_ok happly
    refine iff_of_true (referenced_touchModel_iff.2 ⟨h.entities, ?_, h.mappings, h.entityMappings,
      h.fieldMappings⟩) trivial
    exact (Refers.insert?_iff hfields).2 ⟨h.fields, row, hrow, rfl⟩
  | updateField fieldId name dataType isPrimaryKey nullable =>
    obtain ⟨_, -, -, rfl⟩ := updateField_ok happly
    exact iff_of_true (referenced_writeField_iff.2 h) trivial
  | deleteField fieldId =>
    cases happly
    exact iff_of_true ⟨h.entities, h.fields.filter _, h.mappings, h.entityMappings, h.fieldMappings⟩
      trivial
  | _ => cases ho

theorem referenced_apply_mappings {o : Operation} (ho : o.onModels = false) (h : Referenced r)
    (happly : o.apply env r = .ok r') : Referenced r' ↔ o.KeepsParents r := by
  cases o with
  | createSourceMapping id now logicalModelId sourceId version status provenance ems =>
    obtain ⟨_, -, -, hcreate⟩ := createSourceMapping_ok happly
    exact referenced_createSourceMapping_iff hcreate h
  | ingestAlignSuggestions id now modelId sourceId version ems =>
    obtain ⟨_, -, hcreate⟩ := ingestAlignSuggestions_ok happly
    exact referenced_createSourceMapping_iff hcreate h
  | updateSourceMapping now mappingId version status provenance errorMessage ems =>
    rw [Operation.apply] at happly
    cases ems with
    | none =>
      obtain ⟨_, -, -, rfl⟩ := updateSourceMapping_ok happly
      exact iff_of_true (referenced_writeMapping_iff.2 h) trivial
    | some ems =>
      obtain ⟨mapping, _, hmapping, rfl, model, -, hinsert⟩ := replaceEntityMappings_ok happly
      obtain ⟨hmem, hid, -⟩ := mem_of_getSourceMapping hmapping
      rw [referenced_replaced_iff h ⟨_, hmem, hid⟩ hinsert]
      refine forall₂_congr fun fm _ => forall₂_congr fun em _ => forall₂_congr fun _ _ => ?_
      have hname : ∀ em' : EntityMapping, (nameLikeModel env.py model em').id = em'.id := fun em' => by
        unfold nameLikeModel
        split <;> rfl
      simp [hname]
  | deleteSourceMapping mappingId =>
    cases happly
    constructor
    · exact fun h' => (h.entityMappings.remove_iff mappingId).1 h'.entityMappings
    · exact fun hkept => ⟨h.entities, h.fields, h.mappings.filter _,
        (h.entityMappings.remove_iff mappingId).2 hkept, h.fieldMappings⟩
  | addEntityMapping id now sourceMappingId logicalEntityId physicalEntityName physicalNamespace
      fms =>
    obtain ⟨mapping, hmapping, _, _, _, -, -, -, _, hinsert, rfl⟩ := addEntityMapping_ok happly
    obtain ⟨hmem, hid, -⟩ := mem_of_getSourceMapping hmapping
    exact iff_of_true (referenced_writeMapping_iff.2
      ((referenced_insertEntityMappings_iff hinsert h).2 fun _ => ⟨_, hmem, hid⟩)) trivial
  | deleteEntityMapping entityMappingId =>
    cases happly
    constructor
    · exact fun h' => (h.fieldMappings.remove_iff entityMappingId).1 h'.fieldMappings
    · exact fun hkept => ⟨h.entities, h.fields, h.mappings, h.entityMappings.filter _,
        (h.fieldMappings.remove_iff entityMappingId).2 hkept⟩
  | addFieldMapping id entityMappingId logicalFieldId physicalFieldName transformationRule =>
    simp only [Operation.apply, addFieldMapping, Repository.addFieldMapping, bind_eq_ok, flush_eq_ok,
      pure_eq_ok] at happly
    obtain ⟨field, -, fieldMappings, hinsert, rfl⟩ := happly
    have hrefers : Refers fieldMappings (fun fm => fm.entityMappingId) r.entityMappings ↔
        Refers r.fieldMappings (fun fm => fm.entityMappingId) r.entityMappings ∧
          ∃ em ∈ r.entityMappings, em.id = entityMappingId := Refers.insert?_iff hinsert
    constructor
    · exact fun h' => (hrefers.1 h'.fieldMappings).2
    · exact fun hparent => ⟨h.entities, h.fields, h.mappings, h.entityMappings,
        hrefers.2 ⟨h.fieldMappings, hparent⟩⟩
  | deleteFieldMapping fieldMappingId =>
    cases happly
    exact iff_of_true ⟨h.entities, h.fields, h.mappings, h.entityMappings, h.fieldMappings.filter _⟩
      trivial
  | validateSourceMapping now mappingId =>
    obtain ⟨⟨_, _⟩, hvalidated, rfl⟩ := map_eq_ok.1 happly
    obtain ⟨_, _, -, -, ⟨-, -, rfl⟩ | ⟨_, _, -, -, rfl⟩⟩ := validateSourceMapping_ok hvalidated
    · exact iff_of_true (referenced_writeMapping_iff.2 h) trivial
    · exact iff_of_true (referenced_writeMapping_iff.2 h) trivial
  | activateSourceMapping now mappingId =>
    simp only [Operation.apply, activateSourceMapping, bind_eq_ok] at happly
    obtain ⟨_, -, _, -, _, hdemoted, happly⟩ := happly
    rw [Repository.updateSourceMapping_ok happly]
    exact iff_of_true (referenced_writeMapping_iff.2 ((referenced_demoteOthers_iff hdemoted).2 h))
      trivial
  | _ => cases ho

theorem referenced_apply_iff {o : Operation} (h : Referenced r) (happly : o.apply env r = .ok r') :
    Referenced r' ↔ o.KeepsParents r := by
  cases ho : o.onModels with
  | true => exact referenced_apply_models ho h happly
  | false => exact referenced_apply_mappings ho h happly

/-- Entities lose their fields with them, and no other call takes an entity away. -/
theorem fieldsOwned_apply {o : Operation} (h : FieldsOwned r) (happly : o.apply env r = .ok r') :
    FieldsOwned r' := by
  cases ho : o.onModels with
  | false =>
    have hsame := sameModels_of_onMappings ho happly
    exact fun f hf => hsame.entities ▸ h f (hsame.fields ▸ hf)
  | true =>
    cases o with
    | createModel id now name version description es =>
      obtain ⟨-, models, hmodels, hinsert⟩ := createModel_ok happly
      exact FieldsOwned.insert (r := { r with models := models }) h hinsert
    | updateModel now modelId name version description =>
      obtain ⟨_, _, -, -, rfl⟩ := updateModel_ok happly
      exact h
    | deleteModel modelId =>
      cases happly
      exact h
    | addEntity id now modelId name description fields =>
      obtain ⟨_, inserted, -, -, hinsert, rfl⟩ := addEntity_ok happly
      have hinserted : FieldsOwned inserted := h.insert hinsert
      exact hinserted
    | updateEntity now entityId name description =>
      obtain ⟨row, -, -, rfl⟩ := updateEntity_ok happly
      have hrefers : Refers r.fields (fun f => f.logicalEntityId) r.entities := h
      exact (Refers.modify_parents_iff (f := updatedEntity _) fun _ => rfl).2 hrefers
    | deleteEntity now entityId =>
      obtain rfl | ⟨_, -, -, rfl⟩ := deleteEntity_ok (Except.ok.inj happly).symm
      · exact h
      · have hrefers : Refers r.fields (fun f => f.logicalEntityId) r.entities := h
        refine ((hrefers.filter _).remove_iff entityId).2 fun f hf => ?_
        simpa using (Table.mem_filter.1 hf).2
    | addField id now entityId name dataType isPrimaryKey nullable =>
      obtain ⟨row, hrow, rfl, -, fields, hfields, rfl⟩ := addField_ok happly
      exact (Refers.insert?_iff hfields).2 ⟨h, row, hrow, rfl⟩
    | updateField fieldId name dataType isPrimaryKey nullable =>
      obtain ⟨field, -, -, rfl⟩ := updateField_ok happly
      have hrefers : Refers r.fields (fun f => f.logicalEntityId) r.entities := h
      exact (Refers.modify_children_iff (g := updatedField _) (fun _ => rfl) fun _ => rfl).2 hrefers
    | deleteField fieldId =>
      cases happly
      exact fun f hf => h f (Table.mem_filter.1 hf).1
    | _ => cases ho

/-- Rows keep their parents exactly as long as the calls keep to the order of the tables. -/
theorem parentsKept (env : Environment) : ParentsKept env where
  step _ _ _ h happly := referenced_apply_iff h happly
  run _ hrun := hrun.invariant ⟨.empty, .empty, .empty, .empty, .empty⟩
    fun _ _ _ h hkeeps happly => (referenced_apply_iff h happly).2 hkeeps
  fields _ hrun := hrun.invariant (fun _ hf => absurd hf Table.not_mem_empty)
    fun _ _ _ h _ happly => fieldsOwned_apply h happly

end AltrStream.Registry
