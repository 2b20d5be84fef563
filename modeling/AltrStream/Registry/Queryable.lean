import AltrStream.QueryEngine.Binder
import AltrStream.QueryEngine.FieldResolution
import AltrStream.Registry.Validation

/-! # Whether a validated mapping can be queried

Validation looks for tables and columns ignoring case and, for some namespaces,
in any namespace; a query is resolved to the mapping's own spelling and bound to
the first table and column of exactly that spelling.
-/
namespace AltrStream.Registry
open Foundations Python QueryEngine Domain

section
variable (py : Casing)

/-- The path is the name of the logical field that the field mapping is about. -/
def NamesField (entity : LogicalEntity) (fm : FieldMapping) (path : FieldPath) : Prop :=
  ∃ field, fieldFor py entity fm = some field ∧ py.lower path.root = py.lower field.name

/-- A READ of mapped fields of the entity that the entity mapping is about, without conditions. -/
structure ReadsMapped (model : LogicalModel) (em : EntityMapping) (entity : LogicalEntity)
    (ir : AltrQueryIR) : Prop where
  modelled : entityFor py model em = some entity
  read : ir.operation = .read
  named : py.lower ir.entity = py.lower entity.name
  unconditional : ir.where_ = none
  assigns_nothing : ir.assignments = [] ∧ ir.records = []
  mapped : ∀ path ∈ ir.references, path.keys = [] ∧
    ∃ fm ∈ em.fieldMappings, NamesField py entity fm path

/-- What a path to a column is bound to. -/
def FieldSchema.bound (column : FieldSchema) : BoundFieldPath :=
  { path := ⟨column.name, []⟩, dataType := column.dataType, nativeType := column.nativeDataType,
    nullable := column.nullable, isPrimaryKey := column.isPrimaryKey }

/-- The field paths that a bound READ without conditions refers to. -/
def readFields (q : BoundAltrQueryIR) : List BoundFieldPath :=
  q.projection.map (·.field) ++ q.sort.map (·.field) ++ q.ranking.toList.map (·.field)

/-- The query is resolved and bound to the table that validation checked, and each of its fields to
the column that validation checked for it. -/
def BindsChecked (mapping : SourceMapping) (schema : SourceSchema) (em : EntityMapping)
    (entity : LogicalEntity) (physical : EntitySchema) (ir : AltrQueryIR) : Prop :=
  ∃ resolved q, resolveLogicalIr py ir mapping = .ok resolved ∧
    resolveEntity resolved.entity schema = .ok physical ∧ bindAltrql resolved schema = .ok q ∧
    List.Forall₂ (fun path b => ∀ fm ∈ em.fieldMappings, NamesField py entity fm path →
      ∀ column, columnFor py physical fm.physicalFieldName = some column →
        b = FieldSchema.bound column) ir.references (readFields q)

/-- The last of the field mappings with the name. -/
def lastNamed (fms : List FieldMapping) (name : String) : Option FieldMapping :=
  fms.reverse.find? fun fm => name ∈ namesOf py fm

/-- The column that a name is spelled as: that of the last field mapping with the name, or with the
name that an alias unfolds to. -/
def spelling (fms : List FieldMapping) (projection : List FieldSelection) (name : String) : String :=
  (((unfolded py fms projection name).bind (lastNamed py fms)).map (·.physicalFieldName)).getD name

/-- The first entity mapping that goes by the query's entity spells the checked table, the first of
that spelling, and each field of the query is spelled as the column checked for it. -/
def SpelledAsChecked (mapping : SourceMapping) (schema : SourceSchema) (em : EntityMapping)
    (entity : LogicalEntity) (physical : EntitySchema) (ir : AltrQueryIR) : Prop :=
  ∃ first, matchedEntity py mapping ir.entity = some first ∧
    (schema.entities.find? fun e => e.name = first.physicalEntityName) = some physical ∧
    ∀ path ∈ ir.references, ∀ fm ∈ em.fieldMappings, NamesField py entity fm path →
      ∀ column, columnFor py physical fm.physicalFieldName = some column →
        spelling py first.fieldMappings ir.projection path.root = column.name

end

variable {py : Casing}

/-! ### The dictionary by its last entries -/

theorem get?_columnEntries (fms : List FieldMapping) (n : String) :
    (Dict.ofEntries (columnEntries py fms)).get? n =
      (lastNamed py fms n).map (·.physicalFieldName) := by
  induction fms using List.reverseRecOn with
  | nil => rfl
  | append_singleton fms fm ih =>
    rw [lastNamed, List.reverse_concat, List.find?_cons]
    by_cases hn : n ∈ namesOf py fm
    · simp only [hn, decide_true, Option.map_some]
      exact get?_last hn
    · have hlater : columnEntries py (fms ++ [fm]) =
          columnEntries py fms ++ (namesOf py fm).map (·, fm.physicalFieldName) := by
        simp [columnEntries]
      simp only [hn, decide_false]
      rw [hlater, Dict.ofEntries, Dict.update_append]
      refine (Dict.get?_update_of_not_mem fun hmem => hn ?_).trans ih
      simpa using hmem

theorem resolveName_eq_spelling (fms : List FieldMapping) (projection : List FieldSelection)
    (path : FieldPath) : resolveName py (fieldMap py fms projection) path =
      { path with root := spelling py fms projection path.root } := by
  unfold spelling
  rcases @resolveName_cases py fms projection path with ⟨hnone, h⟩ | ⟨n, column, hn, hcolumn, h⟩
  · rw [h, hnone]
    rfl
  · rw [get?_columnEntries] at hcolumn
    rw [h, hn, Option.bind_some, hcolumn]
    rfl

/-! ### Binding a READ without conditions -/

/-- The checked column is the first one of its own spelling. -/
theorem getField_of_columnFor {physical : EntitySchema} {name : String} {column : FieldSchema}
    (h : columnFor py physical name = some column) : physical.getField column.name = some column := by
  rcases Option.or_eq_some_iff.1 h with h | ⟨-, h⟩
  · have hname : column.name = name := by simpa using List.find?_some h
    rwa [hname]
  · obtain ⟨hlower, earlier, later, hfields, hearlier⟩ := List.find?_eq_some_iff_append.1 h
    refine List.find?_eq_some_iff_append.2 ⟨by simp, earlier, later, hfields, fun f hf => ?_⟩
    have hother := hearlier f hf
    simp only [Bool.not_eq_true', decide_eq_false_iff_not, decide_eq_true_eq] at hlower hother ⊢
    exact fun hname => hother (hname ▸ hlower)

/-- The path is bound to the table's column of its name. -/
def BoundTo (physical : EntitySchema) (path : FieldPath) (b : BoundFieldPath) : Prop :=
  ∃ column, physical.getField path.root = some column ∧ b = FieldSchema.bound column

theorem settles_bindFieldPath {path : FieldPath} (hflat : path.keys = []) (physical : EntitySchema) :
    Settles (bindFieldPath path physical) ((physical.getField path.root).isSome = true)
      (BoundTo physical path) := by
  obtain ⟨root, keys⟩ := path
  obtain rfl : keys = [] := hflat
  unfold bindFieldPath resolveFieldPath
  cases hfield : physical.getField root with
  | none => exact (Settles.error _).congr (by simp)
  | some column =>
    refine (Settles.ok ⟨column, hfield, ?_⟩).congr (by simp)
    have hname : column.name = root := by simpa using List.find?_some hfield
    rw [FieldSchema.bound, hname]

/-- A clause is bound if its path is. -/
theorem settles_clauses {α β : Type} {path : α → FieldPath} (field : β → BoundFieldPath)
    {make : α → BoundFieldPath → β} (hmake : ∀ a b, field (make a b) = b) {physical : EntitySchema}
    {clauses : List α} (hflat : ∀ a ∈ clauses, (path a).keys = []) :
    Settles (clauses.mapM fun a => do return make a (← bindFieldPath (path a) physical))
      (∀ a ∈ clauses, (physical.getField (path a).root).isSome = true)
      (List.Forall₂ (fun a b => BoundTo physical (path a) (field b)) clauses) :=
  Settles.mapM fun a ha => Settles.bind_ok (settles_bindFieldPath (hflat a ha) physical)
    fun b hb => Settles.ok (by rwa [hmake])

theorem settles_bindRanking {physical : EntitySchema} {ranking : Option RankingClause}
    (hflat : ∀ r ∈ ranking, r.field.keys = []) :
    Settles (bindRanking physical ranking)
      (∀ r ∈ ranking, (physical.getField r.field.root).isSome = true)
      fun b => List.Forall₂ (BoundTo physical) (ranking.toList.map (·.field))
        (b.toList.map (·.field)) := by
  cases ranking with
  | none => exact (Settles.ok .nil).congr (by simp)
  | some r =>
    refine (Settles.bind_ok (settles_bindFieldPath (hflat r rfl) physical) fun b hb =>
      Settles.ok ?_).congr (by simp)
    exact .cons hb .nil

/-- A READ without conditions is bound if its table is found and its fields are. -/
theorem settles_bindAltrql {ir : AltrQueryIR} {schema : SourceSchema} {physical : EntitySchema}
    (hread : ir.operation = .read) (hwhere : ir.where_ = none)
    (hassigns : ir.assignments = [] ∧ ir.records = []) (hflat : ∀ path ∈ ir.references, path.keys = [])
    (hentity : resolveEntity ir.entity schema = .ok physical) :
    Settles (bindAltrql ir schema)
      (∀ path ∈ ir.references, (physical.getField path.root).isSome = true)
      fun q => List.Forall₂ (BoundTo physical) ir.references (readFields q) := by
  have hrefs : ir.references =
      ir.projection.map (·.path) ++ ir.sort.map (·.field) ++ ir.ranking.toList.map (·.field) := by
    simp [AltrQueryIR.references, hwhere, hassigns]
  rw [hrefs] at hflat ⊢
  simp only [List.mem_append, or_imp, forall_and, List.forall_mem_map, Option.mem_toList] at hflat ⊢
  obtain ⟨⟨hprojection, hsort⟩, hranking⟩ := hflat
  have hrecords : recordsToBind ir = [] := by simp [recordsToBind, hread]
  have hassignments : assignmentsToBind ir = [] := by simp [assignmentsToBind, hread]
  have hselections : Settles (ir.projection.mapM (bindSelection physical)) _ _ :=
    settles_clauses BoundFieldSelection.field (fun _ _ => rfl) hprojection
  have hsorts : Settles (ir.sort.mapM (bindSortClause physical)) _ _ :=
    settles_clauses BoundSortClause.field (fun _ _ => rfl) hsort
  unfold bindAltrql
  rw [hentity, hrecords, hassignments, hwhere]
  change Settles (ir.projection.mapM (bindSelection physical) >>= fun _ =>
    ir.sort.mapM (bindSortClause physical) >>= fun _ => bindRanking physical ir.ranking >>= fun _ =>
      .ok _) _ _
  refine (Settles.bind hselections fun projection hp => ?_).congr and_assoc.symm
  refine Settles.bind hsorts fun sort hs => ?_
  refine Settles.bind_ok (settles_bindRanking hranking) fun ranking hr => Settles.ok ?_
  refine List.rel_append (List.rel_append ?_ ?_) hr
  · exact List.forall₂_map_left_iff.2 (List.forall₂_map_right_iff.2 hp)
  · exact List.forall₂_map_left_iff.2 (List.forall₂_map_right_iff.2 hs)

/-! ### Validation and resolution compared -/

theorem references_flat {model : LogicalModel} {em first : EntityMapping} {entity : LogicalEntity}
    {ir : AltrQueryIR} (h : ReadsMapped py model em entity ir) :
    ∀ path ∈ (physicalIr py first ir).references, path.keys = [] := by
  rw [references_physicalIr, List.forall_mem_map]
  intro path hpath
  rw [resolveName_eq_spelling]
  exact (h.mapped path hpath).1

/-- Binding the resolved query. -/
theorem settles_resolved {model : LogicalModel} {em first : EntityMapping} {entity : LogicalEntity}
    {ir : AltrQueryIR} (h : ReadsMapped py model em entity ir) {schema : SourceSchema}
    {physical : EntitySchema}
    (htable : resolveEntity first.physicalEntityName schema = .ok physical) :
    Settles (bindAltrql (physicalIr py first ir) schema)
      (∀ path ∈ ir.references, (physical.getField
        (spelling py first.fieldMappings ir.projection path.root)).isSome = true)
      fun q => List.Forall₂ (fun path b => ∃ column, physical.getField
        (spelling py first.fieldMappings ir.projection path.root) = some column ∧
          b = FieldSchema.bound column) ir.references (readFields q) := by
  have hwhere : (physicalIr py first ir).where_ = none := by
    simp [physicalIr, resolveClauses, h.unconditional]
  have hassigns : (physicalIr py first ir).assignments = [] ∧ (physicalIr py first ir).records = [] := by
    simp [physicalIr, resolveClauses, h.assigns_nothing]
  have hbind := @settles_bindAltrql (physicalIr py first ir) _ _ h.read hwhere hassigns
    (references_flat h) htable
  rw [references_physicalIr] at hbind
  refine (hbind.mono fun q hq => ?_).congr (by simp [resolveName_eq_spelling])
  refine (List.forall₂_map_left_iff.1 hq).imp fun path b hb => ?_
  rw [resolveName_eq_spelling] at hb
  exact hb

/-- A validated mapping can be queried exactly if the query is spelled as validation checked it. -/
theorem bindsChecked_iff {env : Environment} {model : LogicalModel} {mapping : SourceMapping}
    (hvalid : verdict env model mapping = .ok ()) {source : Source}
    (hsource : env.source? mapping.sourceId = some source) {schema : SourceSchema}
    (hschema : env.physicalSchema source.id = .ok schema) {em : EntityMapping}
    (hem : em ∈ mapping.entityMappings) {physical : EntitySchema}
    (hphysical : physicalEntityFor env.py schema em = some physical) {entity : LogicalEntity}
    {ir : AltrQueryIR} (hread : ReadsMapped env.py model em entity ir) :
    BindsChecked env.py mapping schema em entity physical ir ↔
      SpelledAsChecked env.py mapping schema em entity physical ir := by
  have hcolumn : ∀ fm ∈ em.fieldMappings, ∃ column,
      columnFor env.py physical fm.physicalFieldName = some column := by
    intro fm hfm
    obtain ⟨_, hsource', _, hschema', -, hchecked⟩ := verdict_eq_ok.1 hvalid
    obtain rfl := Option.some.inj (hsource.symm.trans hsource')
    obtain rfl := Except.ok.inj (hschema.symm.trans hschema')
    obtain ⟨_, -, _, hphysical', -, hfields⟩ := checkEntityMapping_eq_ok.1 (hchecked em hem)
    obtain rfl := Option.some.inj (hphysical.symm.trans hphysical')
    obtain ⟨_, -, column, hcolumn, -⟩ := checkFieldMapping_eq_ok.1 (hfields fm hfm)
    exact ⟨column, hcolumn⟩
  constructor
  · rintro ⟨_, q, hresolved, htable, hq, hchecked⟩
    obtain ⟨first, hfirst, rfl⟩ := resolveLogicalIr_eq_ok.1 hresolved
    refine ⟨first, hfirst, resolveEntity_eq_ok.1 htable, ?_⟩
    obtain ⟨-, hbound⟩ := (settles_resolved hread htable).of_eq_ok hq
    have hspelled := hchecked.mp (S := fun path b => (∀ fm ∈ em.fieldMappings,
      NamesField env.py entity fm path → ∀ column,
        columnFor env.py physical fm.physicalFieldName = some column →
          spelling env.py first.fieldMappings ir.projection path.root = column.name) ∧ True) ?_ hbound
    · exact ((List.forall₂_and_left _ _).1 hspelled).1
    · rintro path b hb ⟨column', hcolumn', rfl⟩
      refine ⟨fun fm hfm hnames column hcolumn => ?_, trivial⟩
      have hname : column'.name = spelling env.py first.fieldMappings ir.projection path.root := by
        simpa using List.find?_some hcolumn'
      have hsame := congrArg (·.path.root) (hb fm hfm hnames column hcolumn)
      exact hname.symm.trans hsame
  · rintro ⟨first, hfirst, htable, hspelled⟩
    have htable := resolveEntity_eq_ok.2 htable
    have hbind := settles_resolved hread htable
    obtain ⟨q, hq⟩ := hbind.returns_iff.2 fun path hpath => by
      obtain ⟨-, fm, hfm, hnames⟩ := hread.mapped path hpath
      obtain ⟨column, hcolumn⟩ := hcolumn fm hfm
      rw [hspelled path hpath fm hfm hnames column hcolumn, getField_of_columnFor hcolumn]
      rfl
    refine ⟨physicalIr env.py first ir, q, resolveLogicalIr_eq_ok.2 ⟨first, hfirst, rfl⟩, htable,
      hq, ?_⟩
    obtain ⟨-, hbound⟩ := hbind.of_eq_ok hq
    refine ((List.forall₂_and_left _ _).2 ⟨hspelled, hbound⟩).imp ?_
    rintro path b ⟨hspelled, column', hcolumn', rfl⟩ fm hfm hnames column hcolumn
    rw [hspelled fm hfm hnames column hcolumn, getField_of_columnFor hcolumn] at hcolumn'
    rw [Option.some.inj hcolumn']

/-! ### A mapping of one field -/

namespace OneField

def source : Source := { id := "db", name := "db", type := .sqlite }

def table : EntitySchema where
  name := "customers"
  fields := [{ name := "email", nativeDataType := "TEXT" }]

def schema : SourceSchema := { sourceId := "db", sourceName := "db", entities := [table] }

def env : Environment where
  py := .ascii
  source? id := if id = "db" then some source else none
  physicalSchema _ := .ok schema

def mail : LogicalField := { id := "mail", logicalEntityId := "customer", name := "mail" }

def customer : LogicalEntity :=
  { id := "customer", logicalModelId := "shop", name := "Customer", fields := [mail] }

def model : LogicalModel := { id := "shop", name := "Shop", entities := [customer] }

/-- The customer's mail is mapped to the column. -/
def entityMapping (column : String) : EntityMapping where
  id := "em"
  sourceMappingId := "m"
  logicalEntityId := "customer"
  logicalEntityName := "Customer"
  physicalEntityName := "customers"
  fieldMappings :=
    [{ id := "fm", entityMappingId := "em", logicalFieldId := "mail", logicalFieldName := "mail"
       physicalFieldName := column }]

def mapping (column : String) : SourceMapping :=
  { id := "m", logicalModelId := "shop", sourceId := "db", entityMappings := [entityMapping column] }

/-- `GET customer { mail } SORT { mail }` -/
def query : AltrQueryIR where
  entity := "customer"
  projection := [⟨⟨"mail", []⟩, none⟩]
  sort := [⟨⟨"mail", []⟩, .asc⟩]

theorem readsMapped (column : String) :
    ReadsMapped .ascii model (entityMapping column) customer query where
  modelled := rfl
  read := rfl
  named := by decide
  unconditional := rfl
  assigns_nothing := ⟨rfl, rfl⟩
  mapped := by
    have hmail : ∃ fm ∈ (entityMapping column).fieldMappings,
        NamesField .ascii customer fm ⟨"mail", []⟩ :=
      ⟨_, List.mem_singleton_self _, mail, rfl, by decide⟩
    simpa [query, AltrQueryIR.references] using hmail

end OneField

theorem bindsChecked_email : BindsChecked .ascii (OneField.mapping "email") OneField.schema
    (OneField.entityMapping "email") OneField.customer OneField.table OneField.query := by
  refine (@bindsChecked_iff OneField.env OneField.model _ (by decide) OneField.source (by decide) _
    rfl _ (List.mem_singleton_self _) _ (by decide) _ _ (OneField.readsMapped "email")).2 ?_
  refine ⟨OneField.entityMapping "email", by decide, by decide, ?_⟩
  intro path hpath fm hfm _ column hcolumn
  obtain rfl : path = ⟨"mail", []⟩ := by simpa [OneField.query, AltrQueryIR.references] using hpath
  obtain rfl := List.mem_singleton.1 hfm
  obtain rfl := Option.some.inj (hcolumn.symm.trans (by decide :
    _ = some { name := "email", nativeDataType := "TEXT" }))
  decide

/-- Validation finds the column `email` for `Email`, and the binder does not. -/
theorem not_bindsChecked_email : ¬ ∀ env model mapping source schema em physical entity ir,
    verdict env model mapping = .ok () → env.source? mapping.sourceId = some source →
    env.physicalSchema source.id = .ok schema → em ∈ mapping.entityMappings →
    physicalEntityFor env.py schema em = some physical → ReadsMapped env.py model em entity ir →
    BindsChecked env.py mapping schema em entity physical ir := by
  intro h
  obtain ⟨resolved, q, hresolved, -, hq, -⟩ := h OneField.env OneField.model (OneField.mapping "Email")
    OneField.source OneField.schema (OneField.entityMapping "Email") OneField.table OneField.customer
    OneField.query (by decide) (by decide) rfl (List.mem_singleton_self _) (by decide)
    (OneField.readsMapped "Email")
  obtain ⟨first, hfirst, rfl⟩ := resolveLogicalIr_eq_ok.1 hresolved
  obtain rfl := Option.some.inj (hfirst.symm.trans (by decide :
    _ = some (OneField.entityMapping "Email")))
  have hfails : (bindAltrql (physicalIr .ascii (OneField.entityMapping "Email") OneField.query)
      OneField.schema).isOk = false := by decide
  have hok := congrArg Except.isOk hq
  exact Bool.false_ne_true (hfails.symm.trans hok)

end AltrStream.Registry
