import AltrStream.Registry.SingleActive

/-! # Unique versions and names

The mappings of a pair have different versions, the entities of a model and the
fields of an entity different names, where names that the lookups identify count
as one. The operations that check for duplicates keep this; those that write the
same columns by another route keep it only if nothing else has the new value.
-/
namespace AltrStream.Registry
open Foundations Python QueryEngine Domain Repository

def UniqueVersions (r : Repository) : Prop :=
  ∀ m ∈ r.mappings, ∀ m' ∈ r.mappings, m.logicalModelId = m'.logicalModelId →
    m.sourceId = m'.sourceId → m.version = m'.version → m = m'

instance (r : Repository) : Decidable (UniqueVersions r) :=
  inferInstanceAs (Decidable (∀ m ∈ r.mappings, ∀ m' ∈ r.mappings,
    m.logicalModelId = m'.logicalModelId → m.sourceId = m'.sourceId → m.version = m'.version →
      m = m'))

/-- No name finds two entities of a model. -/
def UniqueEntities (py : Casing) (r : Repository) : Prop :=
  ∀ model ∈ r.models, ∀ e ∈ r.entities, ∀ e' ∈ r.entities, e.logicalModelId = model.id →
    e'.logicalModelId = model.id → py.clean e.name = py.clean e'.name → e = e'

/-- No name finds two fields of an entity. -/
def UniqueFields (py : Casing) (r : Repository) : Prop :=
  ∀ f ∈ r.fields, ∀ f' ∈ r.fields, f.logicalEntityId = f'.logicalEntityId →
    py.clean f.name = py.clean f'.name → f = f'

/-- A field belongs to a stored entity. -/
def FieldsOwned (r : Repository) : Prop := ∀ f ∈ r.fields, ∃ e ∈ r.entities, e.id = f.logicalEntityId

structure UniqueNames (py : Casing) (r : Repository) : Prop where
  versions : UniqueVersions r
  entities : UniqueEntities py r
  fields : UniqueFields py r

/-! ### What a call has to respect -/

/-- The names given together are different but for case and number. -/
def DistinctFields (py : Casing) (fields : List LogicalField) : Prop :=
  (fields.map fun f => py.clean f.name).Nodup

/-- No mapping of the pair has the version, but for the one with the id. -/
def VersionFree (r : Repository) (logicalModelId sourceId version : String)
    (mappingId : Option String) : Prop :=
  ∀ m ∈ r.mappings, m.logicalModelId = logicalModelId → m.sourceId = sourceId →
    m.version = version → mappingId = some m.id

instance (r : Repository) (logicalModelId sourceId version : String)
    (mappingId : Option String) : Decidable (VersionFree r logicalModelId sourceId version mappingId) :=
  inferInstanceAs (Decidable (∀ m ∈ r.mappings, m.logicalModelId = logicalModelId →
    m.sourceId = sourceId → m.version = version → mappingId = some m.id))

/-- No entity of the model has the name but for case and number, other than the one with the id. -/
def EntityNameFree (py : Casing) (r : Repository) (modelId name : String)
    (entityId : Option String) : Prop :=
  ∀ e ∈ r.entities, e.logicalModelId = modelId → py.clean e.name = py.clean name →
    entityId = some e.id

/-- No field of the entity has the name but for case and number, other than the one with the id. -/
def FieldNameFree (py : Casing) (r : Repository) (entityId name : String)
    (fieldId : Option String) : Prop :=
  ∀ f ∈ r.fields, f.logicalEntityId = entityId → py.clean f.name = py.clean name →
    fieldId = some f.id

/-- The new value of a call that does not look for duplicates is free, and what is given together
is different. The id drawn for a model is nobody's model yet. -/
def Operation.RespectsNames (py : Casing) (r : Repository) : Operation → Prop
  | .createModel id _ _ _ _ es =>
    (∀ e ∈ r.entities, e.logicalModelId ≠ id) ∧ (es.map fun e => py.clean e.name).Nodup ∧
      ∀ e ∈ es, DistinctFields py e.fields
  | .addEntity _ _ modelId name _ fields =>
    (name = "" → EntityNameFree py r modelId name none) ∧ DistinctFields py fields
  | .updateEntity _ entityId (some name) _ =>
    ∀ e ∈ r.entities, e.id = entityId → EntityNameFree py r e.logicalModelId name (some entityId)
  | .addField _ _ entityId name _ _ _ => name = "" → FieldNameFree py r entityId name none
  | .updateField fieldId (some name) _ _ _ =>
    ∀ f ∈ r.fields, f.id = fieldId → FieldNameFree py r f.logicalEntityId name (some fieldId)
  | .updateSourceMapping _ mappingId (some version) _ _ _ _ =>
    ∀ m ∈ r.mappings, m.id = mappingId →
      VersionFree r m.logicalModelId m.sourceId version (some mappingId)
  | .ingestAlignSuggestions _ _ modelId sourceId version _ =>
    VersionFree r modelId sourceId version none
  | _ => True

variable {env : Environment} {py : Casing} {r r' : Repository}

/-! ### Versions -/

/-- Every mapping has the version it had. -/
theorem UniqueVersions.of_kept (h : UniqueVersions r)
    (hkept : ∀ m' ∈ r'.mappings, ∃ m ∈ r.mappings, m.id = m'.id ∧
      m.logicalModelId = m'.logicalModelId ∧ m.sourceId = m'.sourceId ∧ m.version = m'.version) :
    UniqueVersions r' := by
  intro m₁ h₁ m₂ h₂ hmodel hsource hversion
  obtain ⟨n₁, hn₁, hid₁, hm₁, hs₁, hv₁⟩ := hkept m₁ h₁
  obtain ⟨n₂, hn₂, hid₂, hm₂, hs₂, hv₂⟩ := hkept m₂ h₂
  have heq : n₁ = n₂ := h n₁ hn₁ n₂ hn₂ (hm₁.trans (hmodel.trans hm₂.symm))
    (hs₁.trans (hsource.trans hs₂.symm)) (hv₁.trans (hversion.trans hv₂.symm))
  have hid : n₁.id = n₂.id := congrArg _ heq
  exact Table.eq_of_key_eq h₁ h₂ (hid₁.symm.trans (hid.trans hid₂))

theorem UniqueVersions.of_sameMappings (h : UniqueVersions r) (hsame : r'.mappings = r.mappings) :
    UniqueVersions r' := by
  unfold UniqueVersions
  rwa [hsame]

/-- A mapping is written with its own version. -/
theorem UniqueVersions.rewrite {now : ℕ} {written : SourceMapping} (h : UniqueVersions r)
    (hversion : ∀ m ∈ r.mappings, m.id = written.id → m.version = written.version) :
    UniqueVersions (r.writeMapping now written) := by
  apply h.of_kept
  intro m' hm'
  rcases mem_writeMapping.1 hm' with ⟨hmem, -⟩ | ⟨m, hm, hid, rfl⟩
  · exact ⟨m', hmem, rfl, rfl, rfl, rfl⟩
  · exact ⟨m, hm, rfl, rfl, rfl, hversion m hm hid⟩

theorem version_of_id {mapping : SourceMapping} (hmapping : mapping.toSourceMappingRow ∈ r.mappings)
    {m : SourceMappingRow} (hm : m ∈ r.mappings) (hid : m.id = mapping.id) :
    m.version = mapping.version :=
  congrArg SourceMappingRow.version (Table.eq_of_key_eq hm hmapping hid)

/-- A mapping is written with a version that no other of its pair has. -/
theorem UniqueVersions.write {now : ℕ} {written : SourceMapping} (h : UniqueVersions r)
    (hfree : ∀ m ∈ r.mappings, m.id = written.id →
      VersionFree r m.logicalModelId m.sourceId written.version (some written.id)) :
    UniqueVersions (r.writeMapping now written) := by
  intro m₁ h₁ m₂ h₂ hmodel hsource hversion
  have hmem₁ := h₁
  have hmem₂ := h₂
  rcases mem_writeMapping.1 h₁ with ⟨h₁, hid₁⟩ | ⟨n₁, hn₁, hid₁, rfl⟩
  · rcases mem_writeMapping.1 h₂ with ⟨h₂, -⟩ | ⟨n₂, hn₂, hid₂, rfl⟩
    · exact h m₁ h₁ m₂ h₂ hmodel hsource hversion
    · have hid := hfree n₂ hn₂ hid₂ m₁ h₁ hmodel hsource hversion
      exact absurd (Option.some.inj hid).symm hid₁
  · rcases mem_writeMapping.1 h₂ with ⟨h₂, hid₂⟩ | ⟨n₂, -, hid₂, rfl⟩
    · have hid := hfree n₁ hn₁ hid₁ m₂ h₂ hmodel.symm hsource.symm hversion.symm
      exact absurd (Option.some.inj hid).symm hid₂
    · exact Table.eq_of_key_eq hmem₁ hmem₂ (hid₁.trans hid₂.symm)

theorem UniqueVersions.create {mapping : SourceMapping} (h : UniqueVersions r)
    (hfree : VersionFree r mapping.logicalModelId mapping.sourceId mapping.version none)
    (hcreate : r.createSourceMapping mapping = .ok r') : UniqueVersions r' := by
  obtain ⟨mappings, hmappings, hinserted⟩ := Repository.createSourceMapping_ok hcreate
  obtain ⟨_, _, -, -, rfl⟩ := insertEntityMappings_ok hinserted
  intro m₁ h₁ m₂ h₂ hmodel hsource hversion
  rcases (Table.mem_of_insert? hmappings).1 h₁ with h₁ | rfl
  · rcases (Table.mem_of_insert? hmappings).1 h₂ with h₂ | rfl
    · exact h m₁ h₁ m₂ h₂ hmodel hsource hversion
    · cases hfree m₁ h₁ hmodel hsource hversion
  · rcases (Table.mem_of_insert? hmappings).1 h₂ with h₂ | rfl
    · cases hfree m₂ h₂ hmodel.symm hsource.symm hversion.symm
    · rfl

/-- The demotion writes every mapping with its own version. -/
theorem UniqueVersions.demote {now : ℕ} {mapping : SourceMapping} {others : List SourceMapping}
    (h : UniqueVersions r) (hothers : ∀ other ∈ others, other.toSourceMappingRow ∈ r.mappings)
    (hdemoted : demoteOthers now mapping others r = .ok r') : UniqueVersions r' := by
  apply h.of_kept
  intro m' hm'
  obtain ⟨m, hm, ⟨rfl, -⟩ | ⟨other, hother, -, hid, rfl⟩⟩ := mem_demoteOthers hdemoted hm'
  · exact ⟨_, hm, rfl, rfl, rfl, rfl⟩
  · have heq : other.toSourceMappingRow = m := Table.eq_of_key_eq (hothers other hother) hm hid
    exact ⟨m, hm, rfl, rfl, rfl, (congrArg SourceMappingRow.version heq).symm⟩

/-- The duplicate check of a new mapping, at its own pair. -/
theorem versionFree_of_listed {modelId sourceId version : String}
    (h : ∀ m ∈ r.listSourceMappings (some modelId) (some sourceId), m.version ≠ version) :
    VersionFree r modelId sourceId version none := by
  intro m hm hmodel hsource hversion
  have hlisted : r.sourceMappingToDomain m ∈
      r.listSourceMappings (some modelId) (some sourceId) := by
    refine List.mem_map_of_mem (List.mem_filter.2 ⟨mem_sortedBy.2 hm, ?_⟩)
    simp [hmodel, hsource]
  exact absurd hversion (h _ hlisted)

theorem uniqueVersions_apply {o : Operation} (h : UniqueVersions r)
    (hrespects : o.RespectsNames py r) (happly : o.apply env r = .ok r') : UniqueVersions r' := by
  cases ho : o.onModels with
  | true => exact h.of_sameMappings (sameMappings_of_onModels ho happly).mappings
  | false =>
    cases o with
    | createSourceMapping id now logicalModelId sourceId version status provenance ems =>
      obtain ⟨_, -, hversion, hcreate⟩ := createSourceMapping_ok happly
      exact h.create (versionFree_of_listed hversion) hcreate
    | ingestAlignSuggestions id now modelId sourceId version ems =>
      obtain ⟨_, -, hcreate⟩ := ingestAlignSuggestions_ok happly
      refine UniqueVersions.create h ?_ hcreate
      exact hrespects
    | updateSourceMapping now mappingId version status provenance errorMessage ems =>
      rw [Operation.apply] at happly
      -- the rewritten mapping keeps its version, or gets a free one
      have hwrite : ∀ mapping written : SourceMapping, getSourceMapping r mappingId = .ok mapping →
          written.id = mapping.id → written.version = version.getD mapping.version →
          UniqueVersions (r.writeMapping now written) := by
        intro mapping written hmapping hid hversion
        obtain ⟨hmem, rfl, -⟩ := mem_of_getSourceMapping hmapping
        cases version with
        | none =>
          apply h.rewrite
          rw [hid, hversion]
          exact fun m hm => version_of_id hmem hm
        | some version =>
          apply h.write
          rw [hid, hversion]
          exact hrespects
      cases ems with
      | some ems =>
        obtain ⟨mapping, _, hmapping, rfl, _, -, hinserted⟩ := replaceEntityMappings_ok happly
        obtain ⟨_, _, -, -, rfl⟩ := insertEntityMappings_ok hinserted
        exact hwrite mapping _ hmapping rfl rfl
      | none =>
        obtain ⟨mapping, hmapping, -, rfl⟩ := updateSourceMapping_ok happly
        exact hwrite mapping _ hmapping rfl rfl
    | deleteSourceMapping mappingId =>
      cases happly
      apply h.of_kept
      intro m' hm'
      exact ⟨m', (Table.mem_filter.1 hm').1, rfl, rfl, rfl, rfl⟩
    | addEntityMapping id now sourceMappingId logicalEntityId physicalEntityName
        physicalNamespace fms =>
      obtain ⟨_, hmapping, _, _, _, -, -, -, _, hinserted, rfl⟩ := addEntityMapping_ok happly
      obtain ⟨_, _, -, -, rfl⟩ := insertEntityMappings_ok hinserted
      obtain ⟨hmem, -, -⟩ := mem_of_getSourceMapping hmapping
      exact UniqueVersions.rewrite (h.of_sameMappings rfl) fun m hm => version_of_id hmem hm
    | deleteEntityMapping entityMappingId =>
      cases happly
      exact h.of_sameMappings rfl
    | addFieldMapping id entityMappingId logicalFieldId physicalFieldName transformationRule =>
      simp only [Operation.apply, addFieldMapping, Repository.addFieldMapping, bind_eq_ok,
        pure_eq_ok] at happly
      obtain ⟨_, -, _, -, rfl⟩ := happly
      exact h.of_sameMappings rfl
    | deleteFieldMapping fieldMappingId =>
      cases happly
      exact h.of_sameMappings rfl
    | validateSourceMapping now mappingId =>
      obtain ⟨⟨_, _⟩, hvalidated, rfl⟩ := map_eq_ok.1 happly
      obtain ⟨mapping, _, hmapping, -, hresult⟩ := validateSourceMapping_ok hvalidated
      obtain ⟨hmem, -, -⟩ := mem_of_getSourceMapping hmapping
      obtain ⟨-, -, rfl⟩ | ⟨_, _, -, -, rfl⟩ := hresult
      · exact h.rewrite fun m hm => version_of_id hmem hm
      · exact h.rewrite fun m hm => version_of_id hmem hm
    | activateSourceMapping now mappingId =>
      obtain ⟨mapping, demoted, hmapping, -, hdemoted, rfl⟩ := activateSourceMapping_ok happly
      obtain ⟨hmem, -, -⟩ := mem_of_getSourceMapping hmapping
      have hkept : UniqueVersions demoted := h.demote (fun _ => listed_mem) hdemoted
      apply hkept.rewrite
      intro m hm hid
      rw [eq_of_demoted hmem hdemoted hm hid]
    | _ => cases ho

/-! ### Names -/

/-- Entities that stay, of models that stay, keep their names. -/
theorem UniqueEntities.of_kept (h : UniqueEntities py r)
    (hmodels : ∀ m' ∈ r'.models, ∃ m ∈ r.models, m.id = m'.id)
    (hkept : ∀ e' ∈ r'.entities, ∃ e ∈ r.entities, e.id = e'.id ∧
      e.logicalModelId = e'.logicalModelId ∧ e.name = e'.name) : UniqueEntities py r' := by
  intro model hmodel e₁ h₁ e₂ h₂ hm₁ hm₂ hname
  obtain ⟨m, hm, hmid⟩ := hmodels model hmodel
  obtain ⟨d₁, hd₁, hid₁, hof₁, hn₁⟩ := hkept e₁ h₁
  obtain ⟨d₂, hd₂, hid₂, hof₂, hn₂⟩ := hkept e₂ h₂
  have heq : d₁ = d₂ := h m hm d₁ hd₁ d₂ hd₂ (hof₁.trans (hm₁.trans hmid.symm))
    (hof₂.trans (hm₂.trans hmid.symm)) (by rw [hn₁, hn₂, hname])
  have hid : d₁.id = d₂.id := congrArg _ heq
  exact Table.eq_of_key_eq h₁ h₂ (hid₁.symm.trans (hid.trans hid₂))

theorem UniqueFields.of_kept (h : UniqueFields py r)
    (hkept : ∀ f' ∈ r'.fields, ∃ f ∈ r.fields, f.id = f'.id ∧
      f.logicalEntityId = f'.logicalEntityId ∧ f.name = f'.name) : UniqueFields py r' := by
  intro f₁ h₁ f₂ h₂ hentity hname
  obtain ⟨g₁, hg₁, hid₁, hof₁, hn₁⟩ := hkept f₁ h₁
  obtain ⟨g₂, hg₂, hid₂, hof₂, hn₂⟩ := hkept f₂ h₂
  have heq : g₁ = g₂ := h g₁ hg₁ g₂ hg₂ (hof₁.trans (hentity.trans hof₂.symm))
    (by rw [hn₁, hn₂, hname])
  have hid : g₁.id = g₂.id := congrArg _ heq
  exact Table.eq_of_key_eq h₁ h₂ (hid₁.symm.trans (hid.trans hid₂))

theorem mem_touchModel {now : ℕ} {modelId : String} {m' : LogicalModelRow}
    (h : m' ∈ (r.touchModel now modelId).models) : ∃ m ∈ r.models, m.id = m'.id := by
  rcases (Table.mem_modify (f := fun m : LogicalModelRow => { m with updatedAt := now })
    fun _ => rfl).1 h with ⟨hm, -⟩ | ⟨m, hm, -, rfl⟩
  · exact ⟨m', hm, rfl⟩
  · exact ⟨m, hm, rfl⟩

theorem mem_writeModel {now : ℕ} {model m' : LogicalModelRow}
    (h : m' ∈ (r.writeModel now model).models) : ∃ m ∈ r.models, m.id = m'.id := by
  rcases (Table.mem_modify (f := updatedModel now model) fun _ => rfl).1 h with
    ⟨hm, -⟩ | ⟨m, hm, -, rfl⟩
  · exact ⟨m', hm, rfl⟩
  · exact ⟨m, hm, rfl⟩

theorem mem_writeEntity {entity e' : LogicalEntityRow} : e' ∈ (r.writeEntity entity).entities ↔
    (e' ∈ r.entities ∧ e'.id ≠ entity.id) ∨
      ∃ e ∈ r.entities, e.id = entity.id ∧ updatedEntity entity e = e' :=
  Table.mem_modify (f := updatedEntity entity) fun _ => rfl

theorem mem_writeField {field f' : LogicalField} : f' ∈ (r.writeField field).fields ↔
    (f' ∈ r.fields ∧ f'.id ≠ field.id) ∨
      ∃ f ∈ r.fields, f.id = field.id ∧ updatedField field f = f' :=
  Table.mem_modify (f := updatedField field) fun _ => rfl

/-- An entity is written with a name that no other of its model has. -/
theorem UniqueEntities.write {entity : LogicalEntityRow} (h : UniqueEntities py r)
    (hfree : ∀ e ∈ r.entities, e.id = entity.id →
      EntityNameFree py r e.logicalModelId entity.name (some entity.id)) :
    UniqueEntities py (r.writeEntity entity) := by
  intro model hmodel e₁ h₁ e₂ h₂ hm₁ hm₂ hname
  have hmem₁ := h₁
  have hmem₂ := h₂
  rcases mem_writeEntity.1 h₁ with ⟨h₁, hid₁⟩ | ⟨d₁, hd₁, hid₁, rfl⟩
  · rcases mem_writeEntity.1 h₂ with ⟨h₂, -⟩ | ⟨d₂, hd₂, hid₂, rfl⟩
    · exact h model hmodel e₁ h₁ e₂ h₂ hm₁ hm₂ hname
    · have hid := hfree d₂ hd₂ hid₂ e₁ h₁ (hm₁.trans hm₂.symm) hname
      exact absurd (Option.some.inj hid).symm hid₁
  · rcases mem_writeEntity.1 h₂ with ⟨h₂, hid₂⟩ | ⟨d₂, -, hid₂, rfl⟩
    · have hid := hfree d₁ hd₁ hid₁ e₂ h₂ (hm₂.trans hm₁.symm) hname.symm
      exact absurd (Option.some.inj hid).symm hid₂
    · exact Table.eq_of_key_eq hmem₁ hmem₂ (hid₁.trans hid₂.symm)

/-- A field is written with a name that no other of its entity has. -/
theorem UniqueFields.write {field : LogicalField} (h : UniqueFields py r)
    (hfree : ∀ f ∈ r.fields, f.id = field.id →
      FieldNameFree py r f.logicalEntityId field.name (some field.id)) :
    UniqueFields py (r.writeField field) := by
  intro f₁ h₁ f₂ h₂ hentity hname
  have hmem₁ := h₁
  have hmem₂ := h₂
  rcases mem_writeField.1 h₁ with ⟨h₁, hid₁⟩ | ⟨g₁, hg₁, hid₁, rfl⟩
  · rcases mem_writeField.1 h₂ with ⟨h₂, -⟩ | ⟨g₂, hg₂, hid₂, rfl⟩
    · exact h f₁ h₁ f₂ h₂ hentity hname
    · have hid := hfree g₂ hg₂ hid₂ f₁ h₁ hentity hname
      exact absurd (Option.some.inj hid).symm hid₁
  · rcases mem_writeField.1 h₂ with ⟨h₂, hid₂⟩ | ⟨g₂, -, hid₂, rfl⟩
    · have hid := hfree g₁ hg₁ hid₁ f₂ h₂ hentity.symm hname.symm
      exact absurd (Option.some.inj hid).symm hid₂
    · exact Table.eq_of_key_eq hmem₁ hmem₂ (hid₁.trans hid₂.symm)

/-- The inserted rows are those of the given entities. -/
theorem mem_entityRows {modelId : String} {es : List LogicalEntity} {e : LogicalEntityRow}
    (h : e ∈ es.map fun e => { e.toLogicalEntityRow with logicalModelId := modelId }) :
    ∃ d ∈ es, d.id = e.id ∧ d.name = e.name ∧ e.logicalModelId = modelId := by
  obtain ⟨d, hd, rfl⟩ := List.mem_map.1 h
  exact ⟨d, hd, rfl, rfl, rfl⟩

theorem mem_fieldRows {es : List LogicalEntity} {f : LogicalField}
    (h : f ∈ es.flatMap fun e => e.fields.map ({ · with logicalEntityId := e.id })) :
    ∃ e ∈ es, ∃ g ∈ e.fields, g.id = f.id ∧ g.name = f.name ∧ f.logicalEntityId = e.id := by
  obtain ⟨e, he, h⟩ := List.mem_flatMap.1 h
  obtain ⟨g, hg, rfl⟩ := List.mem_map.1 h
  exact ⟨e, he, g, hg, rfl, rfl, rfl⟩

/-- Entities are inserted whose names are different and free in their model. -/
theorem UniqueEntities.insert {modelId : String} {es : List LogicalEntity}
    (h : UniqueEntities py r) (hnames : (es.map fun e => py.clean e.name).Nodup)
    (hfree : (∃ m ∈ r.models, m.id = modelId) →
      ∀ e ∈ es, EntityNameFree py r modelId e.name none)
    (hinsert : r.insertEntities modelId es = .ok r') : UniqueEntities py r' := by
  obtain ⟨entities, fields, hentities, -, rfl⟩ := insertEntities_ok hinsert
  intro model hmodel e₁ h₁ e₂ h₂ hm₁ hm₂ hname
  have hmem₁ := h₁
  have hmem₂ := h₂
  have hnew : ∀ e ∈ r.entities, ∀ d ∈ es, e.logicalModelId = model.id → modelId = model.id →
      py.clean e.name = py.clean d.name → False := by
    intro e he d hd hof hid hname
    cases hfree ⟨model, hmodel, hid.symm⟩ d hd e he (hof.trans hid.symm) hname
  rcases (Table.mem_of_insertAll? hentities).1 h₁ with h₁ | h₁
  · rcases (Table.mem_of_insertAll? hentities).1 h₂ with h₂ | h₂
    · exact h model hmodel e₁ h₁ e₂ h₂ hm₁ hm₂ hname
    · obtain ⟨d, hd, -, hdname, hof⟩ := mem_entityRows h₂
      exact (hnew e₁ h₁ d hd hm₁ (hof.symm.trans hm₂) (hdname ▸ hname)).elim
  · obtain ⟨d₁, hd₁, hid₁, hn₁, hof₁⟩ := mem_entityRows h₁
    rcases (Table.mem_of_insertAll? hentities).1 h₂ with h₂ | h₂
    · exact (hnew e₂ h₂ d₁ hd₁ hm₂ (hof₁.symm.trans hm₁) (hn₁ ▸ hname.symm)).elim
    · obtain ⟨d₂, hd₂, hid₂, hn₂, -⟩ := mem_entityRows h₂
      have heq : d₁ = d₂ := List.inj_on_of_nodup_map hnames hd₁ hd₂ (by rw [hn₁, hn₂, hname])
      exact Table.eq_of_key_eq hmem₁ hmem₂ (hid₁.symm.trans (heq ▸ hid₂))

/-- An owned field does not belong to an entity that is inserted. -/
theorem FieldsOwned.not_inserted {modelId : String} {es : List LogicalEntity} (h : FieldsOwned r)
    (hinsert : r.insertEntities modelId es = .ok r') {f : LogicalField} (hf : f ∈ r.fields)
    {e : LogicalEntity} (he : e ∈ es) : f.logicalEntityId ≠ e.id := by
  obtain ⟨entities, fields, hentities, -, rfl⟩ := insertEntities_ok hinsert
  obtain ⟨d, hd, hid⟩ := h f hf
  have hrow : { e.toLogicalEntityRow with logicalModelId := modelId } ∈
      es.map fun e => { e.toLogicalEntityRow with logicalModelId := modelId } :=
    List.mem_map_of_mem (f := fun e : LogicalEntity =>
      { e.toLogicalEntityRow with logicalModelId := modelId }) he
  exact hid ▸ (Table.nodup_of_insertAll? hentities).2 _ hrow d hd

theorem UniqueFields.insert {modelId : String} {es : List LogicalEntity} (h : UniqueFields py r)
    (howned : FieldsOwned r) (hnames : ∀ e ∈ es, DistinctFields py e.fields)
    (hinsert : r.insertEntities modelId es = .ok r') : UniqueFields py r' := by
  have hnew := fun f hf e he => howned.not_inserted hinsert (f := f) hf (e := e) he
  obtain ⟨entities, fields, hentities, hfields, rfl⟩ := insertEntities_ok hinsert
  have hids : (es.map fun e => e.id).Nodup := by
    have hkeys := (Table.nodup_of_insertAll? hentities).1
    rwa [List.map_map] at hkeys
  intro f₁ h₁ f₂ h₂ hentity hname
  have hmem₁ := h₁
  have hmem₂ := h₂
  rcases (Table.mem_of_insertAll? hfields).1 h₁ with h₁ | h₁
  · rcases (Table.mem_of_insertAll? hfields).1 h₂ with h₂ | h₂
    · exact h f₁ h₁ f₂ h₂ hentity hname
    · obtain ⟨e, he, -, -, -, -, hof⟩ := mem_fieldRows h₂
      exact absurd (hentity.trans hof) (hnew f₁ h₁ e he)
  · obtain ⟨d₁, hd₁, g₁, hg₁, hid₁, hn₁, hof₁⟩ := mem_fieldRows h₁
    rcases (Table.mem_of_insertAll? hfields).1 h₂ with h₂ | h₂
    · exact absurd (hentity.symm.trans hof₁) (hnew f₂ h₂ d₁ hd₁)
    · obtain ⟨d₂, hd₂, g₂, hg₂, hid₂, hn₂, hof₂⟩ := mem_fieldRows h₂
      have hd : d₁ = d₂ := List.inj_on_of_nodup_map hids hd₁ hd₂
        (hof₁.symm.trans (hentity.trans hof₂))
      subst hd
      have hg : g₁ = g₂ := List.inj_on_of_nodup_map (hnames d₁ hd₁) hg₁ hg₂
        (by rw [hn₁, hn₂, hname])
      exact Table.eq_of_key_eq hmem₁ hmem₂ (hid₁.symm.trans (hg ▸ hid₂))

theorem FieldsOwned.insert {modelId : String} {es : List LogicalEntity} (h : FieldsOwned r)
    (hinsert : r.insertEntities modelId es = .ok r') : FieldsOwned r' := by
  obtain ⟨entities, fields, hentities, hfields, rfl⟩ := insertEntities_ok hinsert
  intro f hf
  rcases (Table.mem_of_insertAll? hfields).1 hf with hf | hf
  · obtain ⟨e, he, hid⟩ := h f hf
    exact ⟨e, (Table.mem_of_insertAll? hentities).2 (.inl he), hid⟩
  · obtain ⟨e, he, -, -, -, -, hof⟩ := mem_fieldRows hf
    exact ⟨_, (Table.mem_of_insertAll? hentities).2 (.inr (List.mem_map_of_mem he)), hof.symm⟩

/-- A name that the lookup does not find is free, if it is not empty. -/
theorem entityNameFree_of_lookup {row : LogicalModelRow} {name : String} (hname : name ≠ "")
    (h : (r.modelToDomain row).getEntityByName py name = none) :
    EntityNameFree py r row.id name none := by
  intro e he hof hclean
  have hmem : r.entityToDomain e ∈ (r.modelToDomain row).entities :=
    List.mem_map_of_mem (mem_sortedBy.2 (List.mem_filter.2 ⟨he, by simpa using hof⟩))
  have hsome : ((r.modelToDomain row).getEntityByName py name).isSome :=
    findByName_isSome hname hmem hclean
  simp [h] at hsome

theorem fieldNameFree_of_lookup {row : LogicalEntityRow} {name : String} (hname : name ≠ "")
    (h : (r.entityToDomain row).getFieldByName py name = none) :
    FieldNameFree py r row.id name none := by
  intro f hf hof hclean
  have hmem : f ∈ (r.entityToDomain row).fields :=
    mem_sortedBy.2 (List.mem_filter.2 ⟨hf, by simpa using hof⟩)
  have hsome : ((r.entityToDomain row).getFieldByName py name).isSome :=
    findByName_isSome hname hmem hclean
  simp [h] at hsome

/-- What a run keeps of the names. -/
structure NamesKept (py : Casing) (r : Repository) : Prop where
  entities : UniqueEntities py r
  fields : UniqueFields py r
  owned : FieldsOwned r

theorem NamesKept.of_sameModels (h : NamesKept py r) (hsame : SameModels r r') :
    NamesKept py r' where
  entities := h.entities.of_kept (fun m hm => ⟨m, hsame.models ▸ hm, rfl⟩)
    fun e he => ⟨e, hsame.entities ▸ he, rfl, rfl, rfl⟩
  fields := h.fields.of_kept fun f hf => ⟨f, hsame.fields ▸ hf, rfl, rfl, rfl⟩
  owned := fun f hf => hsame.entities ▸ h.owned f (hsame.fields ▸ hf)

theorem NamesKept.touchModel {now : ℕ} {modelId : String} (h : NamesKept py r) :
    NamesKept py (r.touchModel now modelId) where
  entities := h.entities.of_kept (fun _ => mem_touchModel) fun e he => ⟨e, he, rfl, rfl, rfl⟩
  fields := h.fields.of_kept fun f hf => ⟨f, hf, rfl, rfl, rfl⟩
  owned := h.owned

theorem NamesKept.insert {modelId : String} {es : List LogicalEntity} (h : NamesKept py r)
    (hnames : (es.map fun e => py.clean e.name).Nodup)
    (hfree : (∃ m ∈ r.models, m.id = modelId) → ∀ e ∈ es, EntityNameFree py r modelId e.name none)
    (hfields : ∀ e ∈ es, DistinctFields py e.fields)
    (hinsert : r.insertEntities modelId es = .ok r') : NamesKept py r' where
  entities := h.entities.insert hnames hfree hinsert
  fields := h.fields.insert h.owned hfields hinsert
  owned := h.owned.insert hinsert

/-- The field is new in its entity. -/
theorem NamesKept.insertField {field : LogicalField} {fields : Table LogicalField}
    (h : NamesKept py r) (hentity : ∃ e ∈ r.entities, e.id = field.logicalEntityId)
    (hfree : FieldNameFree py r field.logicalEntityId field.name none)
    (hinsert : r.fields.insert? field = some fields) :
    NamesKept py { r with fields := fields } where
  entities := h.entities
  fields := by
    intro f₁ h₁ f₂ h₂ hof hname
    rcases (Table.mem_of_insert? hinsert).1 h₁ with h₁ | rfl
    · rcases (Table.mem_of_insert? hinsert).1 h₂ with h₂ | rfl
      · exact h.fields f₁ h₁ f₂ h₂ hof hname
      · cases hfree f₁ h₁ hof hname
    · rcases (Table.mem_of_insert? hinsert).1 h₂ with h₂ | rfl
      · cases hfree f₂ h₂ hof.symm hname.symm
      · rfl
  owned := by
    intro f hf
    rcases (Table.mem_of_insert? hinsert).1 hf with hf | rfl
    · exact h.owned f hf
    · exact hentity

theorem NamesKept.writeEntity {entity : LogicalEntityRow} (h : NamesKept py r)
    (hentities : UniqueEntities py (r.writeEntity entity)) :
    NamesKept py (r.writeEntity entity) where
  entities := hentities
  fields := h.fields
  owned := by
    intro f hf
    obtain ⟨e, he, hid⟩ := h.owned f hf
    by_cases heq : e.id = entity.id
    · exact ⟨_, mem_writeEntity.2 (.inr ⟨e, he, heq, rfl⟩), hid⟩
    · exact ⟨e, mem_writeEntity.2 (.inl ⟨he, heq⟩), hid⟩

theorem NamesKept.writeField {field : LogicalField} (h : NamesKept py r)
    (hfields : UniqueFields py (r.writeField field)) : NamesKept py (r.writeField field) where
  entities := h.entities
  fields := hfields
  owned := by
    intro f hf
    rcases mem_writeField.1 hf with ⟨hf, -⟩ | ⟨g, hg, -, rfl⟩
    · exact h.owned f hf
    · exact h.owned g hg

theorem namesKept_apply {o : Operation} (h : NamesKept env.py r)
    (hrespects : o.RespectsNames env.py r) (happly : o.apply env r = .ok r') :
    NamesKept env.py r' := by
  cases ho : o.onModels with
  | false => exact h.of_sameModels (sameModels_of_onMappings ho happly)
  | true =>
    cases o with
    | createModel id now name version description es =>
      obtain ⟨-, models, hmodels, hinsert⟩ := createModel_ok happly
      obtain ⟨hnew, hnames, hfields⟩ := hrespects
      have hkept : NamesKept env.py { r with models := models } :=
        { entities := by
            intro model hmodel e he e' he' hof hof' hname
            rcases (Table.mem_of_insert? hmodels).1 hmodel with hmodel | rfl
            · exact h.entities model hmodel e he e' he' hof hof' hname
            · exact absurd hof (hnew e he)
          fields := h.fields
          owned := h.owned }
      exact hkept.insert hnames (fun _ d _ e he hof _ => absurd hof (hnew e he)) hfields hinsert
    | updateModel now modelId name version description =>
      obtain ⟨_, _, -, -, rfl⟩ := updateModel_ok happly
      exact ⟨h.entities.of_kept (fun _ => mem_writeModel) fun e he => ⟨e, he, rfl, rfl, rfl⟩,
        h.fields, h.owned⟩
    | deleteModel modelId =>
      cases happly
      exact ⟨h.entities.of_kept (fun m hm => ⟨m, (Table.mem_filter.1 hm).1, rfl⟩)
        fun e he => ⟨e, he, rfl, rfl, rfl⟩, h.fields, h.owned⟩
    | addEntity id now modelId name description fields =>
      obtain ⟨model, _, hmodel, hname, hinsert, rfl⟩ := addEntity_ok happly
      obtain ⟨hempty, hfields⟩ := hrespects
      refine NamesKept.touchModel (h.insert (by simp) ?_ (by simpa using hfields)
        hinsert)
      rintro ⟨row, hrow, rfl⟩ e he
      obtain rfl := List.mem_singleton.1 he
      by_cases hne : name = ""
      · exact hempty hne
      · rw [getModel_of_mem hrow] at hmodel
        exact entityNameFree_of_lookup hne (Except.ok.inj hmodel ▸ hname)
    | updateEntity now entityId name description =>
      obtain ⟨row, hrow, rfl, rfl⟩ := updateEntity_ok happly
      refine NamesKept.touchModel (h.writeEntity ?_)
      cases name with
      | some name => exact h.entities.write hrespects
      | none =>
        refine h.entities.of_kept (fun m hm => ⟨m, hm, rfl⟩) fun e' he' => ?_
        rcases mem_writeEntity.1 he' with ⟨he, -⟩ | ⟨e, he, hid, rfl⟩
        · exact ⟨e', he, rfl, rfl, rfl⟩
        · obtain rfl : e = row := Table.eq_of_key_eq he hrow hid
          exact ⟨e, he, rfl, rfl, rfl⟩
    | deleteEntity now entityId =>
      obtain rfl | ⟨row, hrow, rfl, rfl⟩ := deleteEntity_ok (Except.ok.inj happly).symm
      · exact h
      · refine NamesKept.touchModel ⟨?_, ?_, ?_⟩
        · exact h.entities.of_kept (fun m hm => ⟨m, hm, rfl⟩)
            fun e he => ⟨e, (Table.mem_filter.1 he).1, rfl, rfl, rfl⟩
        · exact h.fields.of_kept fun f hf => ⟨f, (Table.mem_filter.1 hf).1, rfl, rfl, rfl⟩
        · intro f hf
          obtain ⟨hf, hne⟩ := Table.mem_filter.1 hf
          obtain ⟨e, he, hid⟩ := h.owned f hf
          exact ⟨e, Table.mem_filter.2 ⟨he, hid ▸ hne⟩, hid⟩
    | addField id now entityId name dataType isPrimaryKey nullable =>
      obtain ⟨row, hrow, rfl, hname, fields, hfields, rfl⟩ := addField_ok happly
      refine NamesKept.touchModel (h.insertField ⟨row, hrow, rfl⟩ ?_ hfields)
      by_cases hne : name = ""
      · exact hrespects hne
      · exact fieldNameFree_of_lookup hne hname
    | updateField fieldId name dataType isPrimaryKey nullable =>
      obtain ⟨field, hfield, rfl, rfl⟩ := updateField_ok happly
      apply h.writeField
      cases name with
      | some name => exact h.fields.write hrespects
      | none =>
        refine h.fields.of_kept fun f' hf' => ?_
        rcases mem_writeField.1 hf' with ⟨hf, -⟩ | ⟨f, hf, hid, rfl⟩
        · exact ⟨f', hf, rfl, rfl, rfl⟩
        · obtain rfl : f = field := Table.eq_of_key_eq hf hfield hid
          exact ⟨f, hf, rfl, rfl, rfl⟩
    | deleteField fieldId =>
      cases happly
      exact ⟨h.entities, h.fields.of_kept fun f hf => ⟨f, (Table.mem_filter.1 hf).1, rfl, rfl, rfl⟩,
        fun f hf => h.owned f (Table.mem_filter.1 hf).1⟩
    | _ => cases ho

/-! ### Runs -/

theorem uniqueNames_of_reached (hrun : Reached (Operation.apply env)
    (fun r o => o.RespectsNames env.py r) Repository.empty r) : UniqueNames env.py r := by
  have hversions : UniqueVersions r := by
    refine hrun.invariant ?_ fun _ _ _ h hrespects happly => uniqueVersions_apply h hrespects happly
    exact fun m hm => absurd hm Table.not_mem_empty
  have hnames : NamesKept env.py r := by
    refine hrun.invariant ?_ fun _ _ _ h hrespects happly => namesKept_apply h hrespects happly
    exact ⟨fun m hm => absurd hm Table.not_mem_empty, fun f hf => absurd hf Table.not_mem_empty,
      fun f hf => absurd hf Table.not_mem_empty⟩
  exact ⟨hversions, hnames.entities, hnames.fields⟩

/-- Two versions of a mapping and the edit of one of them. -/
def versionEdits (version : String) : List Operation :=
  twoVersions ++ [.updateSourceMapping 3 "m2" (some version) none none none none]

theorem uniqueNames_edited : UniqueNames .ascii
    ((versionEdits "3.0.0").foldl (attempt (Operation.apply oneSource)) Repository.empty) := by
  apply @uniqueNames_of_reached oneSource
  simp only [versionEdits, twoVersions, List.cons_append, List.nil_append, List.foldl_cons,
    List.foldl_nil]
  refine .step _ (.step _ (.step _ (.step _ .start ?_) ?_) ?_) ?_
  · simp [Operation.RespectsNames, Repository.empty]
  · trivial
  · trivial
  · show ∀ m ∈ Repository.mappings _, m.id = "m2" → VersionFree _ _ _ "3.0.0" (some "m2")
    decide

/-- The second version is given the number of the first. -/
theorem not_uniqueVersions_of_edit : ¬ ∀ env r,
    Reached (Operation.apply env) (fun _ _ => True) Repository.empty r →
      UniqueNames env.py r := by
  intro h
  have hrun : Reached (Operation.apply oneSource) (fun _ _ => True) Repository.empty
      ((versionEdits "1.0.0").foldl (attempt (Operation.apply oneSource)) Repository.empty) :=
    Reached.start.foldl fun _ _ _ => trivial
  exact absurd (h oneSource _ hrun).versions (by decide)

end AltrStream.Registry
