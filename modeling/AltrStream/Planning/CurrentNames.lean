import AltrStream.Foundations.FirstMatch
import AltrStream.Foundations.Reached
import AltrStream.Planning.Selector
import AltrStream.QueryEngine.FieldResolution
import AltrStream.Registry.EarnedModels

/-! # Mappings that speak the current names

An entity mapping holds copies of the names of the entity and of the fields that
it maps by id. Queries are resolved by the copies. They are current as long as
nothing is renamed that a mapping names, and as long as a field mapping is added
to the mapping of its own entity.
-/
namespace AltrStream.Planning
open Foundations Python QueryEngine Domain Registry Repository

/-! ### What current names are for -/

/-- A query for an entity by its name, over fields that `em` maps by id, by their names. -/
structure AsksFor (e : LogicalEntity) (em : EntityMapping) (ir : AltrQueryIR) : Prop where
  entity : ir.entity = e.name
  fields : ∀ path ∈ ir.references, path.root ≠ "" ∧ ∃ f ∈ e.fields, f.name = path.root ∧
    ∃ fm ∈ em.fieldMappings, f.id = fm.logicalFieldId

/-- `path'` is the same path into a column of the entity mapping. -/
def ReachesColumn (em : EntityMapping) (path path' : FieldPath) : Prop :=
  ∃ fm ∈ em.fieldMappings, path' = { path with root := fm.physicalFieldName }

section
variable (env : Environment) (snapshots : String → Option SourceSchema) (r : Repository)

/-- An ACTIVE mapping maps the entity of its model by id. -/
structure MapsById (m : SourceMappingRow) (model : LogicalModel) (em : EntityMapping)
    (e : LogicalEntity) : Prop where
  mapping : m ∈ r.mappings
  active : m.status = .active
  found : getModel env.py r m.logicalModelId = .ok model
  entityMapping : em ∈ r.entityMappingsOf m.id
  entity : e ∈ model.entities
  id : e.id = em.logicalEntityId

/-- The query is resolved through the entity mapping, and the candidate that records it is
eligible. -/
structure Resolves (m : SourceMappingRow) (model : LogicalModel) (em : EntityMapping)
    (e : LogicalEntity) (ir : AltrQueryIR) : Prop where
  resolver : ∃ resolved, resolveLogicalIr env.py ir (r.sourceMappingToDomain m) = .ok resolved ∧
    resolved.entity = em.physicalEntityName ∧
    List.Forall₂ (ReachesColumn em) ir.references resolved.references
  candidate : ∀ source, env.source? m.sourceId = some source →
    ∃ c, candidateOf? env snapshots e (r.sourceMappingToDomain m) = some c ∧
      c.entityMappingId = em.id ∧
      c ∈ (evaluateCandidates env.py (extractLogicalContext env.py ir (some model.id)) [c]).1

/-- The ACTIVE mappings speak the current names of what they map by id, and so queries by these
names are resolved through them. -/
structure SpeaksCurrentNames : Prop where
  entities : ∀ m model em e, MapsById env r m model em e → em.logicalEntityName = e.name
  fields : ∀ m model em e, MapsById env r m model em e → ∀ fm ∈ em.fieldMappings,
    ∀ f ∈ r.fields, f.id = fm.logicalFieldId → f.logicalEntityId = e.id ∧
      fm.logicalFieldName = f.name
  resolves : ∀ m model em e, MapsById env r m model em e → ∀ ir, AsksFor e em ir →
    Resolves env snapshots r m model em e ir

end

/-! ### What a call has to respect -/

section
variable (py : Casing) (r : Repository)

def EntityMapped (entityId : String) : Prop :=
  ∃ em ∈ r.entityMappings, em.logicalEntityId = entityId

def FieldMapped (fieldId : String) : Prop :=
  ∃ em ∈ r.entityMappings, ∃ fm ∈ r.fieldMappings, fm.entityMappingId = em.id ∧
    fm.logicalFieldId = fieldId

/-- The entity mapping goes by the entity's name, or is taken to map it. -/
def KnownAs (e : LogicalEntityRow) (em : EntityMappingRow) : Bool :=
  goesBy py (py.lower e.name) (py.clean (strip e.name)) { toEntityMappingRow := em } ||
    mapsEntity py { toLogicalEntityRow := e } { toEntityMappingRow := em }

/-- Nothing stored is mapped by a new id. -/
def NewEntities (es : List LogicalEntity) : Prop :=
  ∀ e ∈ es, ¬ EntityMapped r e.id ∧ ∀ f ∈ e.fields, ¬ FieldMapped r f.id

/-- What the entity mappings name by id belongs to the model and to the entity; the mapping of an
entity comes before any other that goes by its name; and their ids are new. -/
structure Aimed (model : LogicalModel) (ems : List EntityMapping) : Prop where
  entities : ∀ em ∈ ems, ∀ e ∈ r.entities, e.id = em.logicalEntityId →
    e.logicalModelId = model.id ∧
      ∀ fm ∈ em.fieldMappings, ∀ f ∈ r.fields, f.id = fm.logicalFieldId → f.logicalEntityId = e.id
  apart : ems.Pairwise fun em' em => ∀ e ∈ r.entities, e.id = em.logicalEntityId →
    KnownAs py e em'.toEntityMappingRow = false
  new : ∀ em ∈ ems, ∀ fm ∈ r.fieldMappings, fm.entityMappingId ≠ em.id

end

/-- A call renames nothing that is mapped by id, maps nothing by the id of what belongs elsewhere,
and draws new ids. -/
def KeepsNames (env : Environment) (r : Repository) : Operation → Prop
  | .createModel _ _ _ _ _ es => NewEntities r es
  | .addEntity id _ _ _ _ fields =>
    ¬ EntityMapped r id ∧ ∀ f ∈ fields, ¬ FieldMapped r f.id
  | .addField id .. => ¬ FieldMapped r id
  | .updateEntity _ entityId (some name) _ =>
    EntityMapped r entityId → ∀ e ∈ r.entities, e.id = entityId → e.name = name
  | .updateField fieldId (some name) _ _ _ =>
    FieldMapped r fieldId → ∀ f ∈ r.fields, f.id = fieldId → f.name = name
  | .createSourceMapping id _ modelId _ _ _ _ ems =>
    (∀ em ∈ r.entityMappings, em.sourceMappingId ≠ id) ∧
      ∀ model, getModel env.py r modelId = .ok model →
        Aimed env.py r model (ems.map (nameLikeModel env.py model))
  | .updateSourceMapping _ mappingId _ _ _ _ (some ems) =>
    ∀ m ∈ r.mappings, m.id = mappingId → ∀ model, getModel env.py r m.logicalModelId = .ok model →
      Aimed env.py r model (ems.map (nameLikeModel env.py model))
  | .addEntityMapping id _ mappingId entityId _ _ fms =>
    (∀ fm ∈ r.fieldMappings, fm.entityMappingId ≠ id) ∧
      ∀ e ∈ r.entities, e.id = entityId →
        (∀ fm ∈ fms, ∀ f ∈ r.fields, f.id = fm.logicalFieldId → f.logicalEntityId = e.id) ∧
        ∀ em ∈ r.entityMappings, em.sourceMappingId = mappingId → KnownAs env.py e em = false
  | .addFieldMapping _ entityMappingId fieldId _ _ =>
    ∀ em ∈ r.entityMappings, em.id = entityMappingId → ∀ e ∈ r.entities,
      e.id = em.logicalEntityId → ∀ f ∈ r.fields, f.id = fieldId → f.logicalEntityId = e.id
  | .ingestAlignSuggestions id _ modelId _ _ ems =>
    (∀ em ∈ r.entityMappings, em.sourceMappingId ≠ id) ∧ (∀ e ∈ r.entities, e.id ≠ "") ∧
      (∀ f ∈ r.fields, f.id ≠ "") ∧ ∀ model, getModel env.py r modelId = .ok model →
        Aimed env.py r model (ems.map (alignEntity env.py model))
  | _ => True

/-! ### Copies -/

/-- The copies are current, in mappings of any status, and the entity mapping of an entity comes
first among those that go by its name. -/
structure CopiesNames (py : Casing) (r : Repository) : Prop where
  entities : ∀ em ∈ r.entityMappings, ∀ e ∈ r.entities, e.id = em.logicalEntityId →
    em.logicalEntityName = e.name
  fields : ∀ em ∈ r.entityMappings, ∀ e ∈ r.entities, e.id = em.logicalEntityId →
    ∀ fm ∈ r.fieldMappings, fm.entityMappingId = em.id → ∀ f ∈ r.fields,
      f.id = fm.logicalFieldId → f.logicalEntityId = e.id ∧ fm.logicalFieldName = f.name
  first : r.entityMappings.rows.Pairwise fun em' em => em'.sourceMappingId = em.sourceMappingId →
    ∀ e ∈ r.entities, e.id = em.logicalEntityId → KnownAs py e em' = false

section
variable {env : Environment} {py : Casing} {r r' : Repository}

theorem entity_of_getModel {modelId : String} {model : LogicalModel}
    (h : getModel py r modelId = .ok model) {e : LogicalEntity} (he : e ∈ model.entities) :
    e.toLogicalEntityRow ∈ r.entities ∧ e.logicalModelId = model.id ∧
      e = r.entityToDomain e.toLogicalEntityRow := by
  obtain ⟨row, -, rfl⟩ := getModel_ok h
  obtain ⟨entity, hentity, rfl⟩ := List.mem_map.1 he
  obtain ⟨hmem, hmodel⟩ := List.mem_filter.1 (mem_sortedBy.1 hentity)
  exact ⟨hmem, of_decide_eq_true hmodel, rfl⟩

theorem getEntityById_of_mem {modelId : String} {model : LogicalModel}
    (h : getModel py r modelId = .ok model) {e : LogicalEntityRow} (he : e ∈ r.entities)
    (hmodel : e.logicalModelId = model.id) :
    model.getEntityById e.id = some (r.entityToDomain e) := by
  have hmem : r.entityToDomain e ∈ model.entities := by
    obtain ⟨row, -, rfl⟩ := getModel_ok h
    exact List.mem_map_of_mem (mem_sortedBy.2 (List.mem_filter.2 ⟨he, decide_eq_true hmodel⟩))
  cases hfound : model.getEntityById e.id with
  | none => simpa [entityToDomain] using List.find?_eq_none.1 hfound _ hmem
  | some e' =>
    obtain ⟨hrow, -, heq⟩ := entity_of_getModel h (List.mem_of_find?_eq_some hfound)
    have hid : e'.id = e.id := by simpa using List.find?_some hfound
    rw [heq, Table.eq_of_key_eq hrow he hid]

theorem mem_fieldsOf {entityId : String} {f : LogicalField} :
    f ∈ r.fieldsOf entityId ↔ f ∈ r.fields ∧ f.logicalEntityId = entityId := by
  rw [fieldsOf, mem_sortedBy, List.mem_filter, decide_eq_true_iff, Table.mem_rows]

theorem getFieldById_of_mem {e : LogicalEntityRow} {f : LogicalField} (hf : f ∈ r.fields)
    (he : f.logicalEntityId = e.id) : (r.entityToDomain e).getFieldById f.id = some f := by
  cases hfound : (r.entityToDomain e).getFieldById f.id with
  | none => simpa using List.find?_eq_none.1 hfound f (mem_fieldsOf.2 ⟨hf, he⟩)
  | some f' =>
    have hid : f'.id = f.id := by simpa using List.find?_some hfound
    have hmem : f' ∈ r.fields := (mem_fieldsOf.1 (List.mem_of_find?_eq_some hfound)).1
    rw [Table.eq_of_key_eq hmem hf hid]

/-! ### Current copies serve queries -/

theorem knownAs_of_name {e : LogicalEntityRow} {em : EntityMappingRow}
    (h : em.logicalEntityName = e.name) :
    goesBy py (py.lower e.name) (py.clean (strip e.name)) { toEntityMappingRow := em } = true := by
  simp [goesBy, h]

theorem mem_entityMappingsOf {mappingId : String} {em : EntityMapping} :
    em ∈ r.entityMappingsOf mappingId ↔ em.toEntityMappingRow ∈ r.entityMappings ∧
      em.sourceMappingId = mappingId ∧ em = r.entityMappingToDomain em.toEntityMappingRow := by
  constructor
  · intro h
    obtain ⟨row, hrow, rfl⟩ := List.mem_map.1 h
    obtain ⟨hmem, hid⟩ := List.mem_filter.1 hrow
    exact ⟨hmem, of_decide_eq_true hid, rfl⟩
  · rintro ⟨hmem, hid, heq⟩
    rw [heq]
    exact List.mem_map_of_mem (List.mem_filter.2 ⟨hmem, decide_eq_true hid⟩)

theorem mem_fieldMappings_of_domain {em : EntityMapping}
    (h : em = r.entityMappingToDomain em.toEntityMappingRow) {fm : FieldMapping} :
    fm ∈ em.fieldMappings ↔ fm ∈ r.fieldMappings ∧ fm.entityMappingId = em.id := by
  rw [h]
  show fm ∈ r.fieldMappingsOf em.id ↔ _
  rw [fieldMappingsOf, List.mem_filter, decide_eq_true_iff, Table.mem_rows]
  rfl

/-- Of the entity mappings of a mapping the one that maps an entity by id is the first that the
test takes, if the test takes it and none that is not known as the entity. -/
theorem CopiesNames.find? (h : CopiesNames py r) {mappingId : String} {em : EntityMapping}
    (hem : em ∈ r.entityMappingsOf mappingId) {e : LogicalEntityRow} (he : e ∈ r.entities)
    (hid : e.id = em.logicalEntityId) {p : EntityMapping → Bool} (hp : p em = true)
    (hknown : ∀ em' : EntityMapping, KnownAs py e em'.toEntityMappingRow = false → p em' = false) :
    (r.entityMappingsOf mappingId).find? p = some em := by
  refine @find?_of_pairwise _ p _ (fun em => e.id = em.logicalEntityId) ?_ em hem hid hp
  rw [entityMappingsOf, List.pairwise_map]
  refine List.Pairwise.imp_of_mem ?_ (h.first.sublist List.filter_sublist)
  intro em' em hem' hem hfirst hid
  have hmapping (em : EntityMappingRow)
      (hem : em ∈ r.entityMappings.rows.filter (·.sourceMappingId = mappingId)) :
      em.sourceMappingId = mappingId := of_decide_eq_true (List.mem_filter.1 hem).2
  exact hknown _ (hfirst ((hmapping em' hem').trans (hmapping em hem).symm) e he hid)

/-- A field's current name is found among the names of its field mapping. -/
theorem reachesColumn_of_name {em : EntityMapping} {fm : FieldMapping} (hfm : fm ∈ em.fieldMappings)
    {path : FieldPath} (hname : fm.logicalFieldName = path.root) (projection : List FieldSelection) :
    ReachesColumn em path (resolveName py (fieldMap py em.fieldMappings projection) path) := by
  obtain ⟨n, hn⟩ := @unfolded_isSome_of_name py _ fm hfm path.root (congrArg py.lower hname.symm) projection
  rcases @resolveName_cases py em.fieldMappings projection path with
    ⟨hnone, -⟩ | ⟨n', column, -, hcolumn, hresolved⟩
  · cases hnone.symm.trans hn
  · obtain ⟨fm', hfm', -, rfl⟩ := column_of_get? hcolumn
    exact ⟨fm', hfm', hresolved⟩

/-- Whatever is taken to map the entity by its names goes by them. -/
theorem speaksCurrentNames_of_copies (snapshots : String → Option SourceSchema)
    (h : CopiesNames env.py r) : SpeaksCurrentNames env snapshots r := by
  have hentities : ∀ m model em e, MapsById env r m model em e → em.logicalEntityName = e.name := by
    intro m model em e hmaps
    obtain ⟨he, -, -⟩ := entity_of_getModel hmaps.found hmaps.entity
    obtain ⟨hem, -, -⟩ := mem_entityMappingsOf.1 hmaps.entityMapping
    exact h.entities _ hem _ he hmaps.id
  have hfields : ∀ m model em e, MapsById env r m model em e → ∀ fm ∈ em.fieldMappings,
      ∀ f ∈ r.fields, f.id = fm.logicalFieldId → f.logicalEntityId = e.id ∧
        fm.logicalFieldName = f.name := by
    intro m model em e hmaps fm hfm
    obtain ⟨he, -, -⟩ := entity_of_getModel hmaps.found hmaps.entity
    obtain ⟨hem, -, hdomain⟩ := mem_entityMappingsOf.1 hmaps.entityMapping
    obtain ⟨hmem, hid⟩ := (mem_fieldMappings_of_domain hdomain).1 hfm
    exact h.fields _ hem _ he hmaps.id fm hmem hid
  refine ⟨hentities, hfields, fun m model em e hmaps ir hasks => ?_⟩
  obtain ⟨he, -, hdomain⟩ := entity_of_getModel hmaps.found hmaps.entity
  have hgoes := @knownAs_of_name env.py _ _ (hentities m model em e hmaps)
  -- every path is the current name of a field and of its mapping
  have hcopy : ∀ path ∈ ir.references, path.root ≠ "" ∧ ∃ f ∈ e.fields, f.name = path.root ∧
      ∃ fm ∈ em.fieldMappings, f.id = fm.logicalFieldId ∧ fm.logicalFieldName = path.root := by
    intro path hpath
    obtain ⟨hne, f, hf, hname, fm, hfm, hid⟩ := hasks.fields path hpath
    have hmem : f ∈ r.fields := by
      rw [hdomain] at hf
      exact (mem_fieldsOf.1 hf).1
    exact ⟨hne, f, hf, hname, fm, hfm, hid,
      (hfields m model em e hmaps fm hfm f hmem hid).2.trans hname⟩
  constructor
  · have hmatched : matchedEntity env.py (r.sourceMappingToDomain m) ir.entity = some em := by
      rw [hasks.entity]
      refine h.find? hmaps.entityMapping he hmaps.id hgoes fun em' hem' => ?_
      exact (Bool.or_eq_false_iff.1 hem').1
    refine ⟨_, resolveLogicalIr_eq_ok.2 ⟨em, hmatched, rfl⟩, rfl, ?_⟩
    rw [references_physicalIr, List.forall₂_map_right_iff, List.forall₂_same]
    intro path hpath
    obtain ⟨-, f, -, -, fm, hfm, -, hname⟩ := hcopy path hpath
    exact reachesColumn_of_name hfm hname ir.projection
  · intro source hsource
    have hfound : (r.sourceMappingToDomain m).entityMappings.find? (mapsEntity env.py e) =
        some em := by
      refine h.find? hmaps.entityMapping he hmaps.id (by simp [mapsEntity, hmaps.id]) ?_
      intro em' hem'
      exact (Bool.or_eq_false_iff.1 hem').2
    refine ⟨_, candidateOf?_eq_some.2 ⟨em, hfound, source, hsource, rfl⟩, rfl, ?_⟩
    refine mem_evaluateCandidates (List.mem_singleton_self _) fun root hroot => ?_
    obtain ⟨path, hpath, rfl⟩ := mem_allReferencedFields hroot
    obtain ⟨hne, f, hf, hname, fm, hfm, hid, -⟩ := hcopy path hpath
    refine ⟨hne, _, List.mem_map_of_mem hfm, ?_⟩
    have hfield : fieldFor env.py e fm = some f := by
      rw [hdomain] at hf ⊢
      obtain ⟨hmem, howner⟩ := mem_fieldsOf.1 hf
      rw [fieldFor, ← hid, getFieldById_of_mem hmem howner, Option.some_or]
    simp [resolvedField, hfield, hname]

/-! ### What keeps the copies current -/

theorem knownAs_congr {e e' : LogicalEntityRow} (hid : e.id = e'.id) (hname : e.name = e'.name)
    (em : EntityMappingRow) : KnownAs py e em = KnownAs py e' em := by
  simp only [KnownAs, mapsEntity, hid, hname]

/-- What is mapped by id keeps its name, and a field its entity. -/
theorem CopiesNames.of_models (h : CopiesNames py r) (hsame : SameMappings r r')
    (he : ∀ e' ∈ r'.entities, EntityMapped r e'.id →
      ∃ e ∈ r.entities, e.id = e'.id ∧ e.name = e'.name)
    (hf : ∀ f' ∈ r'.fields, FieldMapped r f'.id →
      ∃ f ∈ r.fields, f.id = f'.id ∧ f.name = f'.name ∧ f.logicalEntityId = f'.logicalEntityId) :
    CopiesNames py r' := by
  obtain ⟨-, hems, hfms⟩ := hsame
  constructor
  · intro em hem e' he' hid
    rw [hems] at hem
    obtain ⟨e, hmem, heid, hname⟩ := he e' he' ⟨em, hem, hid.symm⟩
    rw [h.entities em hem e hmem (heid.trans hid), hname]
  · intro em hem e' he' hid fm hfm hentity f' hf' hfid
    rw [hems] at hem
    rw [hfms] at hfm
    obtain ⟨e, hmem, heid, -⟩ := he e' he' ⟨em, hem, hid.symm⟩
    obtain ⟨f, hfmem, hffid, hfname, howner⟩ := hf f' hf' ⟨em, hem, fm, hfm, hentity, hfid.symm⟩
    obtain ⟨hentityId, hcopy⟩ := h.fields em hem e hmem (heid.trans hid) fm hfm hentity f hfmem
      (hffid.trans hfid)
    exact ⟨howner.symm.trans (hentityId.trans heid), hcopy.trans hfname⟩
  · rw [hems]
    refine h.first.imp_of_mem fun {em' em} _ hem hfirst hmapping e' he' hid => ?_
    obtain ⟨e, hmem, heid, hname⟩ := he e' he' ⟨em, hem, hid.symm⟩
    rw [← knownAs_congr heid hname]
    exact hfirst hmapping e hmem (heid.trans hid)

/-- Mappings may be deleted or written in another status. -/
theorem CopiesNames.of_sublist (h : CopiesNames py r) (hsame : SameModels r r')
    (hems : r'.entityMappings.rows.Sublist r.entityMappings.rows)
    (hfms : ∀ fm ∈ r'.fieldMappings, fm ∈ r.fieldMappings) : CopiesNames py r' := by
  obtain ⟨-, hentities, hfields⟩ := hsame
  constructor
  · rw [hentities]
    exact fun em hem => h.entities em (hems.subset hem)
  · rw [hentities, hfields]
    exact fun em hem e he hid fm hfm => h.fields em (hems.subset hem) e he hid fm (hfms fm hfm)
  · rw [hentities]
    exact h.first.sublist hems

/-- New entity mappings that are named as the model, in a mapping where none of them is hidden. -/
theorem CopiesNames.insert (h : CopiesNames py r) {mappingId : String} {ems : List EntityMapping}
    (hinsert : r.insertEntityMappings mappingId ems = .ok r')
    (hnamed : ∀ em ∈ ems, ∀ e ∈ r.entities, e.id = em.logicalEntityId →
      em.logicalEntityName = e.name ∧ ∀ fm ∈ em.fieldMappings, ∀ f ∈ r.fields,
        f.id = fm.logicalFieldId → f.logicalEntityId = e.id ∧ fm.logicalFieldName = f.name)
    (hnew : ∀ em ∈ ems, ∀ fm ∈ r.fieldMappings, fm.entityMappingId ≠ em.id)
    (hapart : ems.Pairwise fun em' em => ∀ e ∈ r.entities, e.id = em.logicalEntityId →
      KnownAs py e em'.toEntityMappingRow = false)
    (hhidden : ∀ em' ∈ r.entityMappings, em'.sourceMappingId = mappingId → ∀ em ∈ ems,
      ∀ e ∈ r.entities, e.id = em.logicalEntityId → KnownAs py e em' = false) :
    CopiesNames py r' := by
  obtain ⟨entityMappings, fieldMappings, hems, hfms, rfl⟩ := insertEntityMappings_ok hinsert
  obtain ⟨hids, holds⟩ := Table.nodup_of_insertAll? hems
  have hinj : ∀ em ∈ ems, ∀ em' ∈ ems, em.id = em'.id → em = em' := by
    rw [List.map_map] at hids
    exact fun em hem em' hem' => List.inj_on_of_nodup_map hids hem hem'
  constructor
  · intro row hrow e he hid
    rcases (Table.mem_of_insertAll? hems).1 hrow with hold | hnew
    · exact h.entities row hold e he hid
    · obtain ⟨em, hem, rfl⟩ := List.mem_map.1 hnew
      exact (hnamed em hem e he hid).1
  · intro row hrow e he hid fm hfm hentity
    rcases (Table.mem_of_insertAll? hems).1 hrow with hold | hinserted
    · rcases (Table.mem_of_insertAll? hfms).1 hfm with hfm | hfm
      · exact h.fields row hold e he hid fm hfm hentity
      · obtain ⟨em, hem, hfm⟩ := List.mem_flatMap.1 hfm
        obtain ⟨fm, -, rfl⟩ := List.mem_map.1 hfm
        exact absurd hentity.symm (holds _ (List.mem_map_of_mem hem) row hold)
    · obtain ⟨em, hem, rfl⟩ := List.mem_map.1 hinserted
      rcases (Table.mem_of_insertAll? hfms).1 hfm with hfm | hfm
      · exact absurd hentity (hnew em hem fm hfm)
      · obtain ⟨em', hem', hfm⟩ := List.mem_flatMap.1 hfm
        obtain ⟨fm', hfm', rfl⟩ := List.mem_map.1 hfm
        obtain rfl := hinj em' hem' em hem hentity
        exact (hnamed em' hem' e he hid).2 fm' hfm'
  · rw [Table.rows_of_insertAll? hems, List.pairwise_append, List.pairwise_map]
    refine ⟨h.first, hapart.imp fun hknown _ e he hid => hknown e he hid, ?_⟩
    intro row hrow row' hrow' hmapping
    obtain ⟨em, hem, rfl⟩ := List.mem_map.1 hrow'
    exact hhidden row hrow hmapping em hem

/-! ### How new mappings are named -/

/-- Names of what the entity mappings name by id are current. -/
def Named (r : Repository) (ems : List EntityMapping) : Prop :=
  ∀ em ∈ ems, ∀ e ∈ r.entities, e.id = em.logicalEntityId → em.logicalEntityName = e.name ∧
    ∀ fm ∈ em.fieldMappings, ∀ f ∈ r.fields, f.id = fm.logicalFieldId →
      f.logicalEntityId = e.id ∧ fm.logicalFieldName = f.name

theorem nameLikeEntity_named {e : LogicalEntityRow} {fm : FieldMapping} {f : LogicalField}
    (hf : f ∈ r.fields) (hid : f.id = fm.logicalFieldId) (howner : f.logicalEntityId = e.id) :
    (nameLikeEntity py (r.entityToDomain e) fm).logicalFieldName = f.name := by
  have hfield : fieldFor py (r.entityToDomain e) fm = some f := by
    rw [fieldFor, ← hid, getFieldById_of_mem hf howner, Option.some_or]
  simp [nameLikeEntity, hfield]

theorem nameLikeModel_entityId (model : LogicalModel) (em : EntityMapping) :
    (nameLikeModel py model em).logicalEntityId = em.logicalEntityId := by
  unfold nameLikeModel
  split <;> rfl

theorem named_nameLikeModel {modelId : String} {model : LogicalModel}
    (hmodel : getModel py r modelId = .ok model) {ems : List EntityMapping}
    (haimed : Aimed py r model (ems.map (nameLikeModel py model))) :
    Named r (ems.map (nameLikeModel py model)) := by
  intro em' hem' e he hid
  obtain ⟨howned, hfields⟩ := haimed.entities em' hem' e he hid
  obtain ⟨em, -, rfl⟩ := List.mem_map.1 hem'
  rw [nameLikeModel_entityId] at hid
  have hentity : entityFor py model em = some (r.entityToDomain e) := by
    rw [entityFor, ← hid, getEntityById_of_mem hmodel he howned, Option.some_or]
  have hnamed : nameLikeModel py model em = { em with
      logicalEntityName := e.name
      fieldMappings := em.fieldMappings.map (nameLikeEntity py (r.entityToDomain e)) } := by
    simp only [nameLikeModel, hentity]
    rfl
  rw [hnamed] at hfields ⊢
  refine ⟨rfl, fun fm' hfm' f hf hfid => ⟨hfields fm' hfm' f hf hfid, ?_⟩⟩
  obtain ⟨fm, -, rfl⟩ := List.mem_map.1 hfm'
  exact nameLikeEntity_named hf hfid (hfields _ hfm' f hf hfid)

theorem given_of_ne {text : Option String} (h : text.getD "" ≠ "") :
    given text = some (text.getD "") := by
  cases text with
  | none => exact absurd rfl h
  | some s => simpa [given] using h

/-- What is found by a given id, or else by a given name, is one of the items. -/
theorem mem_of_given {α : Type} {items : List α} {idOf nameOf : α → String}
    {id name : Option String} {x : α}
    (h : ((given id).bind fun id => items.find? (idOf · = id)).or
      ((given name).bind (findByName py nameOf items)) = some x) : x ∈ items := by
  rcases Option.or_eq_some_iff.1 h with h | ⟨-, h⟩
  · obtain ⟨id, -, h⟩ := Option.bind_eq_some_iff.1 h
    exact List.mem_of_find?_eq_some h
  · obtain ⟨name, -, h⟩ := Option.bind_eq_some_iff.1 h
    exact (clean_of_findByName h).1

theorem named_alignEntity {modelId : String} {model : LogicalModel}
    (hmodel : getModel py r modelId = .ok model) {ems : List AlignedEntity}
    (haimed : Aimed py r model (ems.map (alignEntity py model)))
    (hentities : ∀ e ∈ r.entities, e.id ≠ "") (hfields : ∀ f ∈ r.fields, f.id ≠ "") :
    Named r (ems.map (alignEntity py model)) := by
  intro em' hem' e he hid
  obtain ⟨howned, howners⟩ := haimed.entities em' hem' e he hid
  obtain ⟨em, -, rfl⟩ := List.mem_map.1 hem'
  have hbyId := getEntityById_of_mem hmodel he howned
  unfold alignEntity at hid howners ⊢
  generalize hfound : ((given em.logicalEntityId).bind model.getEntityById).or
    ((given em.logicalEntityName).bind (model.getEntityByName py)) = found at hid howners ⊢
  cases found with
  | none =>
    -- an id that is given is looked up
    have hgiven : given em.logicalEntityId = some e.id := by
      have hgetD : em.logicalEntityId.getD "" = e.id := hid.symm
      rw [given_of_ne (hgetD ▸ hentities e he), hgetD]
    rw [hgiven, Option.bind_some, hbyId, Option.some_or] at hfound
    cases hfound
  | some entity =>
    have hmem : entity ∈ model.entities := mem_of_given hfound
    obtain ⟨hrow, -, hdomain⟩ := entity_of_getModel hmodel hmem
    obtain rfl : e = entity.toLogicalEntityRow := Table.eq_of_key_eq he hrow hid
    refine ⟨rfl, fun fm' hfm' f hf hfid => ⟨howners fm' hfm' f hf hfid, ?_⟩⟩
    have howner := howners fm' hfm' f hf hfid
    obtain ⟨fm, -, rfl⟩ := List.mem_map.1 hfm'
    have hfieldById : entity.getFieldById f.id = some f := by
      rw [hdomain]
      exact getFieldById_of_mem hf howner
    unfold alignField at hfid ⊢
    simp only [Option.bind_some] at hfid ⊢
    generalize hfound : ((given fm.logicalFieldId).bind entity.getFieldById).or
      ((given fm.logicalFieldName).bind (entity.getFieldByName py)) = found at hfid ⊢
    cases found with
    | none =>
      have hgiven : given fm.logicalFieldId = some f.id := by
        have hgetD : fm.logicalFieldId.getD "" = f.id := hfid.symm
        rw [given_of_ne (hgetD ▸ hfields f hf), hgetD]
      rw [hgiven, Option.bind_some, hfieldById, Option.some_or] at hfound
      cases hfound
    | some field =>
      have hfield : field ∈ entity.fields := mem_of_given hfound
      have hstored : field ∈ r.fields := by
        rw [hdomain] at hfield
        exact (mem_fieldsOf.1 hfield).1
      obtain rfl : f = field := Table.eq_of_key_eq hf hstored hfid
      rfl

/-! ### Calls -/

/-- What new rows of entities and fields leave of those that are mapped. -/
theorem CopiesNames.insertEntities {modelId : String} {es : List LogicalEntity}
    (h : CopiesNames py r) (hnew : NewEntities r es)
    (hinsert : r.insertEntities modelId es = .ok r') : CopiesNames py r' := by
  refine h.of_models (sameMappings_insertEntities hinsert) ?_ ?_
  all_goals obtain ⟨entities, fields, hentities, hfields, rfl⟩ := insertEntities_ok hinsert
  · intro e' he' hmapped
    rcases (Table.mem_of_insertAll? hentities).1 he' with hold | hrow
    · exact ⟨e', hold, rfl, rfl⟩
    · obtain ⟨e, he, rfl⟩ := List.mem_map.1 hrow
      exact absurd hmapped (hnew e he).1
  · intro f' hf' hmapped
    rcases (Table.mem_of_insertAll? hfields).1 hf' with hold | hrow
    · exact ⟨f', hold, rfl, rfl, rfl⟩
    · obtain ⟨e, he, hf⟩ := List.mem_flatMap.1 hrow
      obtain ⟨f, hmem, rfl⟩ := List.mem_map.1 hf
      exact absurd hmapped ((hnew e he).2 f hmem)

/-- The copies speak of entities, fields and mappings' contents only. -/
theorem CopiesNames.congr (h : CopiesNames py r) (hentities : r'.entities = r.entities)
    (hfields : r'.fields = r.fields) (hems : r'.entityMappings = r.entityMappings)
    (hfms : r'.fieldMappings = r.fieldMappings) : CopiesNames py r' := by
  obtain ⟨hcopies, hcopied, hfirst⟩ := h
  constructor
  · rwa [hentities, hems]
  · rwa [hentities, hfields, hems, hfms]
  · rwa [hentities, hems]

theorem copiesNames_of_onModels {o : Operation} (ho : o.onModels = true)
    (h : CopiesNames env.py r) (hkeeps : KeepsNames env r o) (happly : o.apply env r = .ok r') :
    CopiesNames env.py r' := by
  have hsame := sameMappings_of_onModels ho happly
  cases o with
  | createModel id now name version description es =>
    obtain ⟨-, models, -, hinsert⟩ := createModel_ok happly
    have hcopies : CopiesNames env.py { r with models := models } := h.congr rfl rfl rfl rfl
    exact hcopies.insertEntities hkeeps hinsert
  | updateModel now modelId name version description =>
    obtain ⟨_, _, -, -, rfl⟩ := updateModel_ok happly
    exact h.congr rfl rfl rfl rfl
  | deleteModel modelId =>
    cases happly
    exact h.congr rfl rfl rfl rfl
  | addEntity id now modelId name description fields =>
    obtain ⟨_, inserted, -, -, hinsert, rfl⟩ := addEntity_ok happly
    have hcopies : CopiesNames env.py inserted := h.insertEntities (by simpa [NewEntities]) hinsert
    exact hcopies.congr rfl rfl rfl rfl
  | updateEntity now entityId name description =>
    obtain ⟨row, hrow, rfl, rfl⟩ := updateEntity_ok happly
    refine h.of_models hsame (fun e' he' hmapped => ?_) fun f hf _ => ⟨f, hf, rfl, rfl, rfl⟩
    rcases mem_writeEntity.1 he' with ⟨hold, -⟩ | ⟨e, he, hid, rfl⟩
    · exact ⟨e', hold, rfl, rfl⟩
    · obtain rfl : e = row := Table.eq_of_key_eq he hrow hid
      refine ⟨e, he, rfl, ?_⟩
      cases name with
      | none => rfl
      | some name => exact hkeeps hmapped e he rfl
  | deleteEntity now entityId =>
    obtain rfl | ⟨_, -, -, rfl⟩ := deleteEntity_ok (Except.ok.inj happly).symm
    · exact h
    · refine h.of_models hsame (fun e he _ => ?_) fun f hf _ => ?_
      · exact ⟨e, (Table.mem_filter.1 he).1, rfl, rfl⟩
      · exact ⟨f, (Table.mem_filter.1 hf).1, rfl, rfl, rfl⟩
  | addField id now entityId name dataType isPrimaryKey nullable =>
    obtain ⟨_, -, -, -, fields, hfields, rfl⟩ := addField_ok happly
    refine h.of_models hsame (fun e he _ => ⟨e, he, rfl, rfl⟩) fun f hf hmapped => ?_
    rcases (Table.mem_of_insert? hfields).1 hf with hold | rfl
    · exact ⟨f, hold, rfl, rfl, rfl⟩
    · exact absurd hmapped hkeeps
  | updateField fieldId name dataType isPrimaryKey nullable =>
    obtain ⟨field, hfield, rfl, rfl⟩ := updateField_ok happly
    refine h.of_models hsame (fun e he _ => ⟨e, he, rfl, rfl⟩) fun f' hf' hmapped => ?_
    rcases mem_writeField.1 hf' with ⟨hold, -⟩ | ⟨f, hf, hid, rfl⟩
    · exact ⟨f', hold, rfl, rfl, rfl⟩
    · obtain rfl : f = field := Table.eq_of_key_eq hf hfield hid
      refine ⟨f, hf, rfl, ?_, rfl⟩
      cases name with
      | none => rfl
      | some name => exact hkeeps hmapped f hf rfl
  | deleteField fieldId =>
    cases happly
    refine h.of_models hsame (fun e he _ => ⟨e, he, rfl, rfl⟩) fun f hf _ => ?_
    exact ⟨f, (Table.mem_filter.1 hf).1, rfl, rfl, rfl⟩
  | _ => cases ho

/-- A new mapping, whose content is named as its model. -/
theorem CopiesNames.create {mapping : SourceMapping} {model : LogicalModel}
    (h : CopiesNames py r) (hid : ∀ em ∈ r.entityMappings, em.sourceMappingId ≠ mapping.id)
    (hnamed : Named r mapping.entityMappings) (haimed : Aimed py r model mapping.entityMappings)
    (hcreate : r.createSourceMapping mapping = .ok r') : CopiesNames py r' := by
  obtain ⟨mappings, -, hinsert⟩ := Repository.createSourceMapping_ok hcreate
  have hcopies : CopiesNames py { r with mappings := mappings } := h.congr rfl rfl rfl rfl
  refine hcopies.insert hinsert hnamed haimed.new haimed.apart fun em hem heq => ?_
  exact absurd heq (hid em hem)

theorem sameContent_demoteOthers {now : ℕ} {mapping : SourceMapping} {others : List SourceMapping}
    (h : demoteOthers now mapping others r = .ok r') :
    r'.entityMappings = r.entityMappings ∧ r'.fieldMappings = r.fieldMappings := by
  induction others generalizing r with
  | nil =>
    cases h
    exact ⟨rfl, rfl⟩
  | cons other others ih =>
    simp only [demoteOthers, bind_eq_ok] at h
    obtain ⟨r₁, h₁, h⟩ := h
    obtain ⟨hems, hfms⟩ := ih h
    unfold demoteOther at h₁
    split at h₁
    · rw [hems, hfms, Repository.updateSourceMapping_ok h₁]
      exact ⟨rfl, rfl⟩
    · cases h₁
      exact ⟨hems, hfms⟩

theorem copiesNames_of_onMappings {o : Operation} (ho : o.onModels = false)
    (h : CopiesNames env.py r) (hkeeps : KeepsNames env r o) (happly : o.apply env r = .ok r') :
    CopiesNames env.py r' := by
  cases o with
  | createSourceMapping id now logicalModelId sourceId version status provenance ems =>
    obtain ⟨model, hmodel, -, hcreate⟩ := createSourceMapping_ok happly
    obtain ⟨hid, haimed⟩ := hkeeps
    have haimed := haimed model hmodel
    exact h.create hid (named_nameLikeModel hmodel haimed) haimed hcreate
  | updateSourceMapping now mappingId version status provenance errorMessage ems =>
    rw [Operation.apply] at happly
    cases ems with
    | none =>
      obtain ⟨_, -, -, rfl⟩ := updateSourceMapping_ok happly
      exact h.congr rfl rfl rfl rfl
    | some ems =>
      obtain ⟨mapping, _, hmapping, rfl, model, hmodel, hinsert⟩ := replaceEntityMappings_ok happly
      obtain ⟨hmem, rfl, -⟩ := mem_of_getSourceMapping hmapping
      have haimed := hkeeps _ hmem rfl model hmodel
      have hemptied : CopiesNames env.py { r.writeMapping now
            (revised mapping version provenance none .draft) with
          entityMappings := r.entityMappings.filter (·.sourceMappingId ≠ mapping.id) } :=
        h.of_sublist ⟨rfl, rfl, rfl⟩ List.filter_sublist fun _ hfm => hfm
      refine hemptied.insert hinsert (named_nameLikeModel hmodel haimed) haimed.new haimed.apart ?_
      intro em hem heq
      exact absurd heq (by simpa using (Table.mem_filter.1 hem).2)
  | deleteSourceMapping mappingId =>
    cases happly
    exact h.congr rfl rfl rfl rfl
  | addEntityMapping id now sourceMappingId logicalEntityId physicalEntityName physicalNamespace
      fms =>
    obtain ⟨mapping, -, model, entity, _, hmodel, hentity, rfl, inserted, hinsert, rfl⟩ :=
      addEntityMapping_ok happly
    obtain ⟨hnew, hkeeps⟩ := hkeeps
    obtain ⟨hrow, -, hdomain⟩ := entity_of_getModel hmodel (List.mem_of_find?_eq_some hentity)
    have hid : entity.id = logicalEntityId := by simpa using List.find?_some hentity
    obtain ⟨howners, hunknown⟩ := hkeeps _ hrow hid
    have hcopies : CopiesNames env.py inserted := by
      refine h.insert hinsert ?_ (by simpa using hnew) (List.pairwise_singleton _ _) ?_
      · rintro _ hem e he heq
        obtain rfl := List.mem_singleton.1 hem
        obtain rfl : e = entity.toLogicalEntityRow := Table.eq_of_key_eq he hrow heq
        refine ⟨rfl, fun fm' hfm' f hf hfid => ?_⟩
        obtain ⟨fm, hfm, rfl⟩ := List.mem_map.1 hfm'
        have howner := howners fm hfm f hf hfid
        rw [hdomain]
        exact ⟨howner, nameLikeEntity_named hf hfid howner⟩
      · intro em' hem' hmapping em hem e he heq
        obtain rfl := List.mem_singleton.1 hem
        obtain rfl : e = entity.toLogicalEntityRow := Table.eq_of_key_eq he hrow heq
        exact hunknown em' hem' hmapping
    exact hcopies.congr rfl rfl rfl rfl
  | deleteEntityMapping entityMappingId =>
    cases happly
    exact h.of_sublist ⟨rfl, rfl, rfl⟩ List.filter_sublist fun _ hfm => hfm
  | addFieldMapping id entityMappingId logicalFieldId physicalFieldName transformationRule =>
    simp only [Operation.apply, Registry.addFieldMapping, Repository.addFieldMapping, bind_eq_ok,
      flush_eq_ok, pure_eq_ok] at happly
    obtain ⟨field, hfield, fieldMappings, hinsert, rfl⟩ := happly
    obtain ⟨hmem, rfl⟩ := getField_ok hfield
    refine ⟨h.entities, fun em hem e he hid fm hfm hentity f hf hfid => ?_, h.first⟩
    rcases (Table.mem_of_insert? hinsert).1 hfm with hold | rfl
    · exact h.fields em hem e he hid fm hold hentity f hf hfid
    · obtain rfl : f = field := Table.eq_of_key_eq hf hmem hfid
      exact ⟨hkeeps em hem hentity.symm e he hid f hf rfl, rfl⟩
  | deleteFieldMapping fieldMappingId =>
    cases happly
    refine h.of_sublist ⟨rfl, rfl, rfl⟩ (List.Sublist.refl _) fun _ hfm => ?_
    exact (Table.mem_filter.1 hfm).1
  | validateSourceMapping now mappingId =>
    obtain ⟨⟨_, _⟩, hvalidated, rfl⟩ := map_eq_ok.1 happly
    obtain ⟨_, _, -, -, ⟨-, -, rfl⟩ | ⟨_, _, -, -, rfl⟩⟩ := validateSourceMapping_ok hvalidated
    · exact h.congr rfl rfl rfl rfl
    · exact h.congr rfl rfl rfl rfl
  | activateSourceMapping now mappingId =>
    obtain ⟨_, demoted, -, -, hdemoted, rfl⟩ := activateSourceMapping_ok happly
    obtain ⟨-, hentities, hfields⟩ := sameModels_demoteOthers hdemoted
    obtain ⟨hems, hfms⟩ := sameContent_demoteOthers hdemoted
    exact h.congr hentities hfields hems hfms
  | ingestAlignSuggestions id now modelId sourceId version ems =>
    obtain ⟨model, hmodel, hcreate⟩ := ingestAlignSuggestions_ok happly
    obtain ⟨hid, hentities, hfields, haimed⟩ := hkeeps
    have haimed := haimed model hmodel
    exact h.create hid (named_alignEntity hmodel haimed hentities hfields) haimed hcreate
  | _ => cases ho

theorem copiesNames_apply {o : Operation} (h : CopiesNames env.py r) (hkeeps : KeepsNames env r o)
    (happly : o.apply env r = .ok r') : CopiesNames env.py r' := by
  cases ho : o.onModels with
  | true => exact copiesNames_of_onModels ho h hkeeps happly
  | false => exact copiesNames_of_onMappings ho h hkeeps happly

/-- The mappings speak the current names in every run that keeps the names of what they map. -/
theorem speaksCurrentNames_of_reached (snapshots : String → Option SourceSchema)
    (hrun : Reached (Operation.apply env) (KeepsNames env) Repository.empty r) :
    SpeaksCurrentNames env snapshots r := by
  refine speaksCurrentNames_of_copies snapshots (hrun.invariant ?_ fun _ _ _ => copiesNames_apply)
  exact ⟨fun em hem => absurd hem Table.not_mem_empty, fun em hem => absurd hem Table.not_mem_empty,
    List.Pairwise.nil⟩

end

/-- The registry with the model, before it is mapped. -/
def modelledShop : Repository := attempt (Operation.apply shopSource) Repository.empty shopModel

theorem keepsNames_mapped : KeepsNames shopSource modelledShop
    (.createSourceMapping "m" 1 "shop" "db" "1.0.0" .draft .user [customerMapping]) := by
  refine ⟨by decide, fun model hmodel => ?_⟩
  obtain ⟨row, hrow, rfl⟩ := getModel_ok hmodel
  obtain rfl : row = { id := "shop", name := "Shop" } := List.mem_singleton.1 hrow
  constructor
  · decide
  · exact List.pairwise_singleton _ _
  · decide

theorem speaksCurrentNames_earnedShop : SpeaksCurrentNames shopSource (fun _ => none) earnedShop ∧
    earnedShop.mappings.rows.map (·.status) = [.active] := by
  refine ⟨speaksCurrentNames_of_reached (fun _ => none) ?_, by decide⟩
  have hmodelled : Reached (Operation.apply shopSource) (KeepsNames shopSource) Repository.empty
      modelledShop := .step shopModel .start (by
    simp [shopModel, KeepsNames, NewEntities, EntityMapped, FieldMapped, Repository.empty])
  have hmapped := Reached.step _ hmodelled keepsNames_mapped
  have hvalidated := Reached.step (Operation.validateSourceMapping 2 "m") hmapped trivial
  exact .step (Operation.activateSourceMapping 3 "m") hvalidated trivial

/-- The entity that the active mapping maps gets another name. -/
def renamedShop : Repository :=
  attempt (Operation.apply shopSource) earnedShop (.updateEntity 4 "customer" (some "Client") none)

theorem not_speaksCurrentNames_of_rename : ¬ ∀ env snapshots r,
    Reached (Operation.apply env) (fun _ _ => True) Repository.empty r →
      SpeaksCurrentNames env snapshots r := by
  intro h
  have hearned : Reached (Operation.apply shopSource) (fun _ _ => True) Repository.empty earnedShop :=
    Reached.foldl (.step shopModel .start trivial) fun _ _ _ => trivial
  have hcurrent := h shopSource (fun _ => none) renamedShop (.step _ hearned trivial)
  obtain ⟨m, hm, hactive, model, hmodel, em, hem, e, he, hid, hname⟩ :
      ∃ m ∈ renamedShop.mappings.rows, m.status = .active ∧
        ∃ model, modelRow? shopSource.py renamedShop m.logicalModelId = some model ∧
        ∃ em ∈ renamedShop.entityMappingsOf m.id,
        ∃ e ∈ (renamedShop.modelToDomain model).entities,
          e.id = em.logicalEntityId ∧ em.logicalEntityName ≠ e.name := by
    refine ⟨_, List.mem_cons_self, rfl, _, rfl, _, List.mem_cons_self, _, List.mem_cons_self, rfl, ?_⟩
    decide
  exact hname (hcurrent.entities m _ em e
    ⟨hm, hactive, getModel_eq_ok.2 ⟨model, hmodel, rfl⟩, hem, he, hid⟩)

end AltrStream.Planning
