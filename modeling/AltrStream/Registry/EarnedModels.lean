import AltrStream.Registry.Earned
import AltrStream.Registry.UniqueNames

/-! # Earned statuses under edits of the models

A mapping stays valid while the model, the entities and the fields it names are
still found under the same names, with types that still fit.
-/
namespace AltrStream.Registry
open Foundations Python QueryEngine Domain Repository

variable {env : Environment} {py : Casing} {r r' : Repository}

/-! ### Rows behind the lookups -/

/-- The row that `get_model` finds. -/
def modelRow? (py : Casing) (r : Repository) (modelId : String) : Option LogicalModelRow :=
  ((r.models.find? modelId).or (r.models.rows.find? (·.name = modelId))).or
    ((sortedBy (fun m => OrderDual.toDual m.updatedAt) r.models.rows).find? fun m =>
      py.lower m.name = py.lower modelId)

theorem getModel_eq_ok {modelId : String} {model : LogicalModel} :
    getModel py r modelId = .ok model ↔
      ∃ row, modelRow? py r modelId = some row ∧ r.modelToDomain row = model := by
  have hrows : ((r.getModelById modelId).or (r.getModelByName modelId)).or
      (r.listModels.find? fun m => py.lower m.name = py.lower modelId) =
      (modelRow? py r modelId).map r.modelToDomain := by
    rw [getModelById, getModelByName, listModels, List.find?_map, modelRow?, Option.map_or,
      Option.map_or]
    rfl
  rw [getModel, hrows]
  cases modelRow? py r modelId <;> simp

/-- The row that an entity mapping names in a model. -/
def entityRow? (py : Casing) (r : Repository) (modelId : String) (em : EntityMapping) :
    Option LogicalEntityRow :=
  lookup py Keyed.key (·.name) (r.entityRowsOf modelId) em.logicalEntityId em.logicalEntityName

/-- The field that a field mapping names in an entity. -/
def fieldRow? (py : Casing) (r : Repository) (entityId : String) (fm : FieldMapping) :
    Option LogicalField :=
  lookup py Keyed.key (·.name) (r.fieldsOf entityId) fm.logicalFieldId fm.logicalFieldName

theorem entityFor_modelToDomain (row : LogicalModelRow) (em : EntityMapping) :
    entityFor py (r.modelToDomain row) em = (entityRow? py r row.id em).map r.entityToDomain :=
  lookup_map (fun _ _ => rfl) fun _ _ => rfl

theorem fieldFor_entityToDomain (row : LogicalEntityRow) (fm : FieldMapping) :
    fieldFor py (r.entityToDomain row) fm = fieldRow? py r row.id fm := rfl

/-- What a mapping rests on, in rows. -/
theorem Rests.rows {m : SourceMappingRow} {model : LogicalModel} {em : EntityMapping}
    {entity : LogicalEntity} {physical : EntitySchema}
    (h : Rests env r m model em entity physical) :
    ∃ e, entityRow? env.py r model.id em = some e ∧ r.entityToDomain e = entity := by
  obtain ⟨row, -, rfl⟩ := getModel_eq_ok.1 h.found
  have hnamed := h.named
  rw [entityFor_modelToDomain] at hnamed
  exact Option.map_eq_some_iff.1 hnamed

/-- An earned mapping rests on something. -/
theorem Earned.rests (h : Earned env r) {m : SourceMappingRow} (hm : m ∈ r.mappings)
    (hvetted : Vetted m.status) : ∃ model em entity physical, Rests env r m model em entity physical := by
  obtain ⟨model, hfound, hne, hems⟩ := valid_iff.1 (h m hm hvetted)
  obtain ⟨em, hem⟩ := List.exists_mem_of_ne_nil _ hne
  obtain ⟨entity, hnamed, physical, hstands, -⟩ := hems em hem
  exact ⟨model, em, entity, physical, hm, hvetted, hfound, hem, hnamed, hstands⟩

/-- The model that a name finds is still found. -/
def ModelStays (py : Casing) (r r' : Repository) (modelId : String) : Prop :=
  ∀ row, modelRow? py r modelId = some row →
    ∃ row', modelRow? py r' modelId = some row' ∧ row'.id = row.id

theorem Earned.of_models (h : Earned env r) (hsame : SameMappings r r')
    (hmodel : ∀ m ∈ r.mappings, Vetted m.status → ModelStays env.py r r' m.logicalModelId)
    (hentity : ∀ m model em entity physical, Rests env r m model em entity physical →
      ∃ e, entityRow? env.py r' model.id em = some e ∧ e.id = entity.id)
    (hfield : ∀ m model em entity physical, Rests env r m model em entity physical →
      ∀ fm ∈ em.fieldMappings, ∀ field, fieldRow? env.py r entity.id fm = some field →
      FieldPasses env.py physical fm field.dataType → ∃ field',
        fieldRow? env.py r' entity.id fm = some field' ∧
        FieldPasses env.py physical fm field'.dataType) : Earned env r' := by
  intro m hm hvetted
  rw [hsame.mappings] at hm
  obtain ⟨model, hfound, hne, hems⟩ := valid_iff.1 (h m hm hvetted)
  have hcontent : r'.entityMappingsOf m.id = r.entityMappingsOf m.id := by
    unfold entityMappingsOf entityMappingToDomain fieldMappingsOf
    rw [hsame.entityMappings, hsame.fieldMappings]
  obtain ⟨row, hrow, hdomain⟩ := getModel_eq_ok.1 hfound
  obtain ⟨row', hrow', hid⟩ := hmodel m hm hvetted row hrow
  refine valid_iff.2 ⟨r'.modelToDomain row', getModel_eq_ok.2 ⟨row', hrow', rfl⟩, ?_, ?_⟩
  · show r'.entityMappingsOf m.id ≠ []
    rwa [hcontent]
  · intro em hem
    have hem : em ∈ r.entityMappingsOf m.id := hcontent ▸ hem
    obtain ⟨entity, hnamed, physical, hstands, hfms, hpass⟩ := hems em hem
    have hrests : Rests env r m model em entity physical :=
      ⟨hm, hvetted, hfound, hem, hnamed, hstands⟩
    obtain ⟨e, he, heid⟩ := hentity m model em entity physical hrests
    obtain ⟨d, -, rfl⟩ := hrests.rows
    have hmodelId : row'.id = model.id := hid.trans (congrArg (·.id) hdomain)
    refine ⟨r'.entityToDomain e, ?_, physical, hstands, hfms, fun fm hfm => ?_⟩
    · rw [entityFor_modelToDomain, hmodelId, he, Option.map_some]
    · obtain ⟨field, hfield', htype⟩ := hpass fm hfm
      obtain ⟨field', hfound', htype'⟩ := hfield m model em _ physical hrests fm hfm field hfield' htype
      refine ⟨field', ?_, htype'⟩
      rw [fieldFor_entityToDomain, heid]
      exact hfound'

/-! ### Models that stay -/

theorem modelStays_of_same {modelId : String} (h : r'.models = r.models) :
    ModelStays py r r' modelId := by
  intro row hrow
  refine ⟨row, ?_, rfl⟩
  rwa [modelRow?, h]

theorem modelRow?_of_id {row : LogicalModelRow} (h : row ∈ r.models) :
    modelRow? py r row.id = some row := by
  have hfound : r.models.find? row.id = some row := Table.find?_eq_some.2 ⟨h, rfl⟩
  rw [modelRow?, hfound, Option.some_or, Option.some_or]

theorem modelStays_of_id {m : SourceMappingRow} (hid : NamesModelById r m)
    (hkept : ∀ row ∈ r.models, ∃ row' ∈ r'.models, row'.id = row.id) :
    ModelStays py r r' m.logicalModelId := by
  obtain ⟨model, hmodel, hid⟩ := hid
  intro row hrow
  rw [← hid, modelRow?_of_id hmodel] at hrow
  obtain rfl := Option.some.inj hrow
  obtain ⟨row', hrow', hid'⟩ := hkept model hmodel
  refine ⟨row', ?_, hid'⟩
  rw [← hid, ← hid', modelRow?_of_id hrow']

theorem writeModel_keeps {now : ℕ} {model row : LogicalModelRow} (h : row ∈ r.models) :
    ∃ row' ∈ (r.writeModel now model).models, row'.id = row.id := by
  by_cases hid : row.id = model.id
  · exact ⟨_, (Table.mem_modify (f := updatedModel now model) fun _ => rfl).2
      (.inr ⟨row, h, hid, rfl⟩), rfl⟩
  · exact ⟨row, (Table.mem_modify (f := updatedModel now model) fun _ => rfl).2
      (.inl ⟨h, hid⟩), rfl⟩

/-- The row that an exact name finds. -/
theorem modelRow?_of_names {m : SourceMappingRow} (h : NamesModel r m) :
    modelRow? py r m.logicalModelId =
      (r.models.find? m.logicalModelId).or (r.models.rows.find? (·.name = m.logicalModelId)) := by
  obtain ⟨model, hmodel, hid | hname⟩ := h
  · have hfound : r.models.find? m.logicalModelId = some model :=
      Table.find?_eq_some.2 ⟨hmodel, hid⟩
    rw [modelRow?, hfound, Option.some_or, Option.some_or]
  · have hsome : (r.models.rows.find? (·.name = m.logicalModelId)).isSome :=
      List.find?_isSome.2 ⟨model, hmodel, by simpa using hname⟩
    obtain ⟨row, hrow⟩ := Option.isSome_iff_exists.1 hsome
    rw [modelRow?, hrow]
    cases r.models.find? m.logicalModelId <;> rfl

theorem modelStays_of_map {m : SourceMappingRow} {f : LogicalModelRow → LogicalModelRow}
    (h : NamesModel r m) (hrows : r'.models.rows = r.models.rows.map f)
    (hid : ∀ row ∈ r.models, (f row).id = row.id) (hname : ∀ row ∈ r.models, (f row).name = row.name) :
    ModelStays py r r' m.logicalModelId := by
  have h' : NamesModel r' m := by
    obtain ⟨model, hmodel, hnames⟩ := h
    refine ⟨f model, ?_, ?_⟩
    · rw [← Table.mem_rows, hrows]
      exact List.mem_map_of_mem hmodel
    · rwa [hid model hmodel, hname model hmodel]
  intro row hrow
  rw [modelRow?_of_names h] at hrow
  refine ⟨f row, ?_, hid row ?_⟩
  · have hfind : ∀ p' p : LogicalModelRow → Bool, (∀ a ∈ r.models.rows, p' (f a) = p a) →
        r'.models.rows.find? p' = (r.models.rows.find? p).map f := by
      intro p' p hp
      rw [hrows, find?_map_of_forall hp]
    rw [modelRow?_of_names h', Table.find?, hfind _ _ fun a ha => congrArg (fun id =>
      decide (id = m.logicalModelId)) (hid a ha), hfind _ _ fun a ha => congrArg (fun name =>
      decide (name = m.logicalModelId)) (hname a ha), ← Option.map_or]
    exact congrArg (Option.map f) hrow
  · rcases Option.or_eq_some_iff.1 hrow with hrow | ⟨-, hrow⟩
    · exact (Table.find?_eq_some.1 hrow).1
    · exact List.mem_of_find?_eq_some hrow

theorem modelStays_touchModel {m : SourceMappingRow} {now : ℕ} {modelId : String}
    (h : NamesModel r m) (hmodels : r'.models = (r.touchModel now modelId).models) :
    ModelStays py r r' m.logicalModelId := by
  refine modelStays_of_map h (congrArg Table.rows hmodels) ?_ ?_
  · intro row _
    split_ifs <;> rfl
  · intro row _
    split_ifs <;> rfl

theorem modelStays_insert {m : SourceMappingRow} {model : LogicalModelRow}
    (h : NamesModel r m) (hinsert : r.models.insert? model = some r'.models)
    (hid : model.id ≠ m.logicalModelId) : ModelStays py r r' m.logicalModelId := by
  have hrows := Table.rows_of_insert? hinsert
  have h' : NamesModel r' m := by
    obtain ⟨row, hrow, hnames⟩ := h
    exact ⟨row, (Table.mem_of_insert? hinsert).2 (.inl hrow), hnames⟩
  intro row hrow
  refine ⟨row, ?_, rfl⟩
  have hnew : [model].find? (fun row => decide (Keyed.key row = m.logicalModelId)) = none :=
    List.find?_eq_none.2 fun row hrow => by
      obtain rfl := List.mem_singleton.1 hrow
      rw [decide_eq_true_iff]
      exact hid
  rw [modelRow?_of_names h] at hrow
  rw [modelRow?_of_names h', Table.find?, hrows, List.find?_append, hnew, Option.or_none,
    List.find?_append, ← Option.or_assoc]
  rw [Table.find?] at hrow
  rw [hrow, Option.some_or]

theorem modelStays_filter {modelId deleted : String}
    (hother : ∀ row, modelRow? py r modelId = some row → row.id ≠ deleted) :
    ModelStays py r (r.deleteModel deleted).2 modelId := by
  intro row hrow
  refine ⟨row, ?_, rfl⟩
  have hq : decide (row.id ≠ deleted) = true := decide_eq_true (hother row hrow)
  unfold modelRow? at hrow ⊢
  simp only [deleteModel, Table.filter, Table.find?, ← filter_sortedBy] at hrow ⊢
  rcases Option.or_eq_some_iff.1 hrow with hrow | ⟨hnone, hrow⟩
  · rcases Option.or_eq_some_iff.1 hrow with hrow | ⟨hnone, hrow⟩
    · rw [find?_filter_of_pos hrow hq, Option.some_or, Option.some_or]
    · rw [find?_filter_of_neg hnone, Option.none_or, find?_filter_of_pos hrow hq, Option.some_or]
  · obtain ⟨hid, hname⟩ := Option.or_eq_none_iff.1 hnone
    rw [find?_filter_of_neg hid, find?_filter_of_neg hname, Option.none_or, Option.none_or,
      find?_filter_of_pos hrow hq]

/-! ### Entities and fields that stay -/

theorem entityRow?_mem {modelId : String} {em : EntityMapping} {e : LogicalEntityRow}
    (h : entityRow? py r modelId em = some e) : e ∈ r.entities ∧ e.logicalModelId = modelId :=
  mem_grouped.1 (lookup_mem h)

theorem fieldRow?_mem {entityId : String} {fm : FieldMapping} {f : LogicalField}
    (h : fieldRow? py r entityId fm = some f) : f ∈ r.fields ∧ f.logicalEntityId = entityId :=
  mem_grouped.1 (lookup_mem h)

theorem entityRow?_insert {modelId inserted : String} {es : List LogicalEntity}
    {em : EntityMapping} {e : LogicalEntityRow} (hinsert : r.insertEntities inserted es = .ok r')
    (h : entityRow? py r modelId em = some e)
    (hnew : inserted = modelId → ∀ d ∈ es, d.id ≠ em.logicalEntityId ∧
      (e.id = em.logicalEntityId ∨ py.clean d.name ≠ py.clean em.logicalEntityName)) :
    entityRow? py r' modelId em = some e := by
  obtain ⟨entities, fields, hentities, -, rfl⟩ := insertEntities_ok hinsert
  refine lookup_insertAll hentities h fun row hrow hgroup => ?_
  obtain ⟨d, hd, rfl⟩ := List.mem_map.1 hrow
  exact hnew hgroup d hd

theorem fieldRow?_insert {inserted : String} {es : List LogicalEntity} {fm : FieldMapping}
    {e : LogicalEntityRow} {f : LogicalField} (hinsert : r.insertEntities inserted es = .ok r')
    (he : e ∈ r.entities) (h : fieldRow? py r e.id fm = some f) :
    fieldRow? py r' e.id fm = some f := by
  obtain ⟨entities, fields, hentities, hfields, rfl⟩ := insertEntities_ok hinsert
  refine lookup_insertAll hfields h fun row hrow hgroup => ?_
  obtain ⟨d, hd, hrow⟩ := List.mem_flatMap.1 hrow
  obtain ⟨_, -, rfl⟩ := List.mem_map.1 hrow
  exact absurd hgroup.symm
    ((Table.nodup_of_insertAll? hentities).2 _ (List.mem_map_of_mem hd) e he)

theorem entityRow?_writeEntity {modelId : String} {em : EntityMapping}
    {e written : LogicalEntityRow} (he : entityRow? py r modelId em = some e)
    (hcase : em.logicalEntityId = e.id ∨ (∀ a ∈ r.entities, a.id = written.id → written.name = a.name) ∨
      ∀ a ∈ r.entities, a.id = written.id → Unlike py a.name written.name em.logicalEntityName) :
    entityRow? py (r.writeEntity written) modelId em =
      some (if e.id = written.id then updatedEntity written e else e) :=
  @lookup_modify _ _ _ _ _ _ _ _ _ _ written.id (updatedEntity written) (fun _ => rfl) (fun _ => rfl)
    he hcase

theorem fieldRow?_writeField {entityId : String} {fm : FieldMapping} {field written : LogicalField}
    (hfield : fieldRow? py r entityId fm = some field)
    (hcase : fm.logicalFieldId = field.id ∨ (∀ a ∈ r.fields, a.id = written.id → written.name = a.name) ∨
      ∀ a ∈ r.fields, a.id = written.id → Unlike py a.name written.name fm.logicalFieldName) :
    fieldRow? py (r.writeField written) entityId fm =
      some (if field.id = written.id then updatedField written field else field) :=
  @lookup_modify _ _ _ _ _ _ _ _ _ _ written.id (updatedField written) (fun _ => rfl) (fun _ => rfl)
    hfield hcase

theorem earned_of_onModels {o : Operation} (ho : o.onModels = true) (h : Earned env r)
    (hkeeps : o.KeepsEarned env r) (happly : o.apply env r = .ok r') : Earned env r' := by
  have hsame := sameMappings_of_onModels ho happly
  cases o with
  | createModel id now name version description es =>
    obtain ⟨-, models, hmodels, hinsert⟩ := createModel_ok happly
    have hrmodels : r'.models = models := by
      obtain ⟨_, _, -, -, rfl⟩ := insertEntities_ok hinsert
      rfl
    refine h.of_models hsame ?_ ?_ ?_
    · intro m hm hvetted
      obtain ⟨hnames, hid⟩ := hkeeps m hm hvetted
      exact modelStays_insert hnames (hrmodels ▸ hmodels) hid
    · intro m model em entity physical hrests
      obtain ⟨e, he, rfl⟩ := hrests.rows
      refine ⟨e, entityRow?_insert hinsert he fun hid => ?_, rfl⟩
      obtain ⟨row, hrow, rfl⟩ := getModel_ok hrests.found
      exact absurd hid.symm (Table.key_ne_of_insert? hmodels hrow)
    · intro m model em entity physical hrests fm _ field hfield htype
      obtain ⟨e, he, rfl⟩ := hrests.rows
      exact ⟨field, fieldRow?_insert hinsert (entityRow?_mem he).1 hfield, htype⟩
  | updateModel now modelId name version description =>
    obtain ⟨model, newName, hmodel, hname, rfl⟩ := updateModel_ok happly
    refine h.of_models hsame ?_ ?_ ?_
    · intro m hm hvetted
      rcases hkeeps m hm hvetted with hid | ⟨rfl, hnames⟩
      · exact modelStays_of_id hid fun row hrow => writeModel_keeps hrow
      · obtain ⟨row, hrow, rfl⟩ := getModel_ok hmodel
        obtain rfl : row.name = newName := Except.ok.inj hname
        refine modelStays_of_map hnames rfl ?_ ?_
        · intro a _
          split_ifs <;> rfl
        · intro a ha
          split_ifs with hid
          · obtain rfl : a = row := Table.eq_of_key_eq ha hrow hid
            rfl
          · rfl
    · intro m model em entity physical hrests
      obtain ⟨e, he, rfl⟩ := hrests.rows
      exact ⟨e, he, rfl⟩
    · exact fun m model em entity physical _ fm _ field hfield htype => ⟨field, hfield, htype⟩
  | deleteModel modelId =>
    cases happly
    refine h.of_models hsame ?_ ?_ ?_
    · intro m hm hvetted
      refine modelStays_filter fun row hrow => ?_
      exact hkeeps m hm hvetted _ (getModel_eq_ok.2 ⟨row, hrow, rfl⟩)
    · intro m model em entity physical hrests
      obtain ⟨e, he, rfl⟩ := hrests.rows
      exact ⟨e, he, rfl⟩
    · exact fun m model em entity physical _ fm _ field hfield htype => ⟨field, hfield, htype⟩
  | addEntity id now modelId name description fields =>
    obtain ⟨found, inserted, hfound, hname, hinsert, rfl⟩ := addEntity_ok happly
    have hmodels : inserted.models = r.models := by
      obtain ⟨_, _, -, -, rfl⟩ := insertEntities_ok hinsert
      rfl
    refine h.of_models hsame ?_ ?_ ?_
    · intro m hm hvetted
      obtain ⟨model, em, entity, physical, hrests⟩ := h.rests hm hvetted
      obtain ⟨hnames, -⟩ := hkeeps m model em entity physical hrests
      have htouched : (inserted.touchModel now modelId).models = (r.touchModel now modelId).models := by
        simp only [touchModel, hmodels]
      exact modelStays_touchModel hnames htouched
    · intro m model em entity physical hrests
      obtain ⟨-, hnew⟩ := hkeeps m model em entity physical hrests
      obtain ⟨e, he, rfl⟩ := hrests.rows
      have hstays : entityRow? env.py inserted model.id em = some e := by
        refine entityRow?_insert hinsert he fun hid d hd => ?_
        obtain rfl := List.mem_singleton.1 hd
        obtain ⟨hne, hid'⟩ := hnew hid.symm
        refine ⟨hid', (lookup_named he).imp_right fun hclean hclean' => ?_⟩
        -- the guard found no entity of the name in this very model
        obtain ⟨row, hrow, rfl⟩ := getModel_ok hrests.found
        rw [hid, show (r.modelToDomain row).id = row.id from rfl, getModel_of_mem hrow] at hfound
        have hfree := entityNameFree_of_lookup hne (Except.ok.inj hfound ▸ hname)
        obtain ⟨hmem, hof⟩ := entityRow?_mem he
        cases hfree e hmem hof (hclean.trans hclean'.symm)
      exact ⟨e, hstays, rfl⟩
    · intro m model em entity physical hrests fm _ field hfield htype
      obtain ⟨e, he, rfl⟩ := hrests.rows
      have hstays : fieldRow? env.py inserted e.id fm = some field :=
        fieldRow?_insert hinsert (entityRow?_mem he).1 hfield
      exact ⟨field, hstays, htype⟩
  | updateEntity now entityId name description =>
    obtain ⟨row, hrow, rfl, rfl⟩ := updateEntity_ok happly
    refine h.of_models hsame ?_ ?_ ?_
    · intro m hm hvetted
      obtain ⟨model, em, entity, physical, hrests⟩ := h.rests hm hvetted
      exact modelStays_touchModel (hkeeps m model em entity physical hrests).1 rfl
    · intro m model em entity physical hrests
      obtain ⟨-, hrename⟩ := hkeeps m model em entity physical hrests
      obtain ⟨e, he, rfl⟩ := hrests.rows
      refine ⟨_, entityRow?_writeEntity he ?_, ?_⟩
      · cases name with
        | none =>
          refine .inr (.inl fun a ha hid => ?_)
          obtain rfl : a = row := Table.eq_of_key_eq ha hrow hid
          rfl
        | some new =>
          rcases hrename new rfl with hid | hunlike
          · exact .inl hid
          · exact .inr (.inr hunlike)
      · split_ifs <;> rfl
    · exact fun m model em entity physical _ fm _ field hfield htype => ⟨field, hfield, htype⟩
  | deleteEntity now entityId =>
    obtain rfl | ⟨row, hrow, rfl, rfl⟩ := deleteEntity_ok (Except.ok.inj happly).symm
    · exact h
    · refine h.of_models hsame ?_ ?_ ?_
      · intro m hm hvetted
        obtain ⟨model, em, entity, physical, hrests⟩ := h.rests hm hvetted
        exact modelStays_touchModel (hkeeps m model em entity physical hrests).1 rfl
      · intro m model em entity physical hrests
        obtain ⟨-, hother⟩ := hkeeps m model em entity physical hrests
        obtain ⟨e, he, rfl⟩ := hrests.rows
        exact ⟨e, lookup_filter he (decide_eq_true hother), rfl⟩
      · intro m model em entity physical hrests fm _ field hfield htype
        obtain ⟨-, hother⟩ := hkeeps m model em entity physical hrests
        refine ⟨field, lookup_filter hfield (decide_eq_true ?_), htype⟩
        rw [(fieldRow?_mem hfield).2]
        exact hother
  | addField id now entityId name dataType isPrimaryKey nullable =>
    obtain ⟨row, hrow, rfl, hname, fields, hfields, rfl⟩ := addField_ok happly
    rw [← Table.insertAll?_singleton] at hfields
    refine h.of_models hsame ?_ ?_ ?_
    · intro m hm hvetted
      obtain ⟨model, em, entity, physical, hrests⟩ := h.rests hm hvetted
      exact modelStays_touchModel (hkeeps m model em entity physical hrests).1 rfl
    · intro m model em entity physical hrests
      obtain ⟨e, he, rfl⟩ := hrests.rows
      exact ⟨e, he, rfl⟩
    · intro m model em entity physical hrests fm hfm field hfield htype
      obtain ⟨-, hnew⟩ := hkeeps m model em entity physical hrests
      refine ⟨field, lookup_insertAll hfields hfield fun a ha hgroup => ?_, htype⟩
      obtain rfl := List.mem_singleton.1 ha
      obtain ⟨hne, hids⟩ := hnew hgroup.symm
      refine ⟨hids fm hfm, (lookup_named hfield).imp_right fun hclean hclean' => ?_⟩
      obtain ⟨hmem, hof⟩ := fieldRow?_mem hfield
      have hfree := fieldNameFree_of_lookup hne hname
      cases hfree field hmem (hof.trans hgroup.symm) (hclean.trans hclean'.symm)
  | updateField fieldId name dataType isPrimaryKey nullable =>
    obtain ⟨updated, hupdated, rfl, rfl⟩ := updateField_ok happly
    refine h.of_models hsame ?_ ?_ ?_
    · exact fun m _ _ => modelStays_of_same rfl
    · intro m model em entity physical hrests
      obtain ⟨e, he, rfl⟩ := hrests.rows
      exact ⟨e, he, rfl⟩
    · intro m model em entity physical hrests fm hfm field hfield htype
      have hfield' : fieldFor env.py entity fm = some field := by
        obtain ⟨e, -, rfl⟩ := hrests.rows
        exact hfield
      obtain ⟨hretype, hrename⟩ := hkeeps m model em entity physical hrests fm hfm field hfield'
      refine ⟨_, fieldRow?_writeField hfield ?_, ?_⟩
      · cases name with
        | none =>
          refine .inr (.inl fun a ha hid => ?_)
          obtain rfl : a = updated := Table.eq_of_key_eq ha hupdated hid
          rfl
        | some new =>
          rcases hrename new rfl with hid | hunlike
          · exact .inl hid
          · exact .inr (.inr hunlike)
      · split_ifs with hid
        · obtain rfl : field = updated :=
            Table.eq_of_key_eq (fieldRow?_mem hfield).1 hupdated hid
          exact hretype rfl
        · exact htype
  | deleteField fieldId =>
    cases happly
    refine h.of_models hsame ?_ ?_ ?_
    · exact fun m _ _ => modelStays_of_same rfl
    · intro m model em entity physical hrests
      obtain ⟨e, he, rfl⟩ := hrests.rows
      exact ⟨e, he, rfl⟩
    · intro m model em entity physical hrests fm hfm field hfield htype
      have hfield' : fieldFor env.py entity fm = some field := by
        obtain ⟨e, -, rfl⟩ := hrests.rows
        exact hfield
      have hother := hkeeps m model em entity physical hrests fm hfm field hfield'
      exact ⟨field, lookup_filter hfield (decide_eq_true hother), htype⟩
  | _ => cases ho

/-! ### Runs -/

theorem earned_apply {o : Operation} (h : Earned env r) (hkeeps : o.KeepsEarned env r)
    (happly : o.apply env r = .ok r') : Earned env r' := by
  cases ho : o.onModels with
  | true => exact earned_of_onModels ho h hkeeps happly
  | false => exact earned_of_onMappings ho h hkeeps happly

/-- VALIDATED and ACTIVE are earned in every run that leaves alone what they rest on. -/
theorem earned_of_reached (hrun : Reached (Operation.apply env)
    (fun r o => o.KeepsEarned env r) Repository.empty r) : Earned env r := by
  refine hrun.invariant ?_ fun _ _ _ h hkeeps happly => earned_apply h hkeeps happly
  exact fun m hm => absurd hm Table.not_mem_empty

/-- A registry with one source, which has one table of one column. -/
def shopSource : Environment where
  py := .ascii
  source? id := if id = "db" then some { id := "db", name := "db", type := .sqlite } else none
  physicalSchema _ := .ok
    { sourceId := "db", sourceName := "db"
      entities := [{ name := "customers", fields := [{ name := "email", nativeDataType := "TEXT" }] }] }

def shopModel : Operation :=
  .createModel "shop" 0 "Shop" "1.0.0" none
    [{ id := "customer", logicalModelId := "shop", name := "Customer"
       fields := [{ id := "mail", logicalEntityId := "customer", name := "mail" }] }]

/-- The model is mapped under a status, and what follows. -/
def mappedShop (status : MappingStatus) (ems : List EntityMapping) (next : List Operation) :
    List Operation :=
  .createSourceMapping "m" 1 "shop" "db" "1.0.0" status .user ems :: next

def customerMapping : EntityMapping where
  id := "em"
  sourceMappingId := "m"
  logicalEntityId := "customer"
  logicalEntityName := "Customer"
  physicalEntityName := "customers"
  fieldMappings :=
    [{ id := "fm", entityMappingId := "em", logicalFieldId := "mail", logicalFieldName := "mail"
       physicalFieldName := "email" }]

/-- The mapping is validated and then activated. -/
def earnedShop : Repository :=
  (mappedShop .draft [customerMapping]
    [.validateSourceMapping 2 "m", .activateSourceMapping 3 "m"]).foldl
    (attempt (Operation.apply shopSource))
    (attempt (Operation.apply shopSource) Repository.empty shopModel)

theorem earned_shop : Earned shopSource earnedShop ∧
    earnedShop.mappings.rows.map (·.status) = [.active] := by
  refine ⟨earned_of_reached (Reached.foldl (.step shopModel .start ?_) ?_), by decide⟩
  · exact fun m hm => absurd hm Table.not_mem_empty
  · simp [mappedShop, Operation.KeepsEarned]

/-- The mapping has no content and is created as VALIDATED. -/
def unearnedShop : Repository :=
  (mappedShop .validated [] []).foldl (attempt (Operation.apply shopSource))
    (attempt (Operation.apply shopSource) Repository.empty shopModel)

theorem not_earned_of_direct_write : ¬ ∀ env r,
    Reached (Operation.apply env) (fun _ _ => True) Repository.empty r → Earned env r := by
  intro h
  have hrun : Reached (Operation.apply shopSource) (fun _ _ => True) Repository.empty unearnedShop :=
    Reached.foldl (.step shopModel .start trivial) fun _ _ _ => trivial
  have hrows : unearnedShop.mappings.rows.map (fun m => (m.status, unearnedShop.entityMappingsOf m.id)) =
      [(.validated, [])] := by decide
  obtain ⟨m, hm, hstatus⟩ := List.mem_map.1 (hrows ▸ List.mem_singleton_self _)
  obtain ⟨hstatus, hems⟩ := Prod.mk.injEq .. ▸ hstatus
  obtain ⟨-, -, hne, -⟩ := valid_iff.1 (h shopSource _ hrun m hm (.inl hstatus))
  exact hne hems

end AltrStream.Registry
