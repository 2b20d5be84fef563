import AltrStream.Planning.Discovered
import AltrStream.QueryEngine.BindSound
import AltrStream.QueryEngine.FieldResolution

/-! # Names in a discovered plan

The mapping that path B makes for a source resolves the entity of the query always,
and a field path exactly if its root is a field of the projection, an alias, or a
column of the source as it is spelled. A filter or a sort by any other field makes
the whole plan fail on a source that lacks the column.
-/
namespace AltrStream.Planning
open Foundations Python QueryEngine Domain Registry Application Semantics

/-! ### The dictionary of a mapping -/

section
variable {py : Casing}

/-- The keys of a dictionary of names are the names and the aliases of what it knows. -/
theorem get?_foldl_addAlias_isSome {projection : List FieldSelection} {d : Dict String String}
    (h : ∀ sel ∈ projection, (d.get? (py.lower sel.path.root)).isSome) (k : String) :
    ((projection.foldl (addAlias py) d).get? k).isSome ↔ (d.get? k).isSome ∨
      ∃ sel ∈ projection, ∃ a, sel.alias_.filter (· ≠ "") = some a ∧ py.lower a = k := by
  induction projection generalizing d with
  | nil => simp
  | cons sel projection ih =>
    obtain ⟨column, hcolumn⟩ := Option.isSome_iff_exists.1 (h sel List.mem_cons_self)
    have hget : ∀ k, ((addAlias py d sel).get? k).isSome ↔ (d.get? k).isSome ∨
        ∃ a, sel.alias_.filter (· ≠ "") = some a ∧ py.lower a = k := by
      intro k
      cases halias : sel.alias_.filter (· ≠ "") with
      | none =>
        simp only [addAlias, halias]
        simp
      | some a =>
        simp only [addAlias, halias, hcolumn, Dict.get?_set, Option.some.injEq, exists_eq_left']
        by_cases hk : py.lower a = k <;> simp [hk]
    rw [List.foldl_cons, ih fun sel' hsel' => (hget _).2 (.inl (h sel' (List.mem_cons_of_mem _ hsel'))),
      hget, List.exists_mem_cons_iff, or_assoc]

/-- A path whose root is a column is found. -/
theorem resolveFieldPath_of_root {path : FieldPath} {entity : EntitySchema}
    (h : (entity.getField path.root).isSome) : ∃ column, resolveFieldPath path entity = .ok column := by
  obtain ⟨column, hcolumn⟩ := Option.isSome_iff_exists.1 h
  unfold resolveFieldPath
  dsimp only
  split_ifs
  · rw [hcolumn]
    cases entity.getField path.fullPath <;> exact ⟨_, rfl⟩
  · rw [hcolumn]
    exact ⟨column, rfl⟩

end

namespace QueryPlanner

section
variable (planner : QueryPlanner) (ir : AltrQueryIR) (logicalModelId : Option String)

/-- The root of the path is a field of the projection or its id, or an alias, or else the path is
one into a column of the source itself. -/
def KnownTo (m : MatchingSource) (path : FieldPath) : Prop :=
  (∃ efp ∈ (planner.projectionOf ir logicalModelId).canonicalFields,
    planner.env.py.lower path.root = planner.env.py.lower efp.name ∨
      planner.env.py.lower path.root = s!"ephemeral_lf_{efp.name}" ∨
      path.root = s!"ephemeral_lf_{efp.name}") ∨
  (∃ sel ∈ ir.projection, ∃ a, sel.alias_.filter (· ≠ "") = some a ∧
    planner.env.py.lower a = planner.env.py.lower path.root) ∨
  ∃ column, resolveFieldPath path m.entity = .ok column

/-- In every source that takes part the entity is found, the fields are found exactly if they are
known to it, and if they are nothing but a type can keep the query from being bound. -/
def SettlesNames : Prop :=
  ∀ m ∈ planner.taking ir logicalModelId, ∃ resolved,
    resolveLogicalIr planner.env.py (federatedPlanIr ir) (ephemeralMapping ir logicalModelId
      (planner.projectionOf ir logicalModelId) m) = .ok resolved ∧
    resolveEntity resolved.entity m.schema = .ok m.entity ∧
    ((∀ path ∈ resolved.references, ∃ column, resolveFieldPath path m.entity = .ok column) ↔
      ∀ path ∈ (federatedPlanIr ir).references, planner.KnownTo ir logicalModelId m path) ∧
    ((∀ path ∈ (federatedPlanIr ir).references, planner.KnownTo ir logicalModelId m path) →
      ∀ e, bindAltrql resolved m.schema = .error e → e.kind = .typeCompatibilityError)

/-- The field mappings that a source is given. -/
def ephemeralFields (m : MatchingSource) : List FieldMapping :=
  (ephemeralNames (planner.projectionOf ir logicalModelId) m.source.id).map fun (name, column) =>
    { id := "", entityMappingId := s!"ephemeral_em_{m.source.id}_{m.entity.name}"
      logicalFieldId := s!"ephemeral_lf_{name}", logicalFieldName := name
      physicalFieldName := column }

end

variable {planner : QueryPlanner} {ir : AltrQueryIR} {logicalModelId : Option String}
  {m : MatchingSource}

/-- The source has a field mapping for each field of the projection, to its own column. -/
theorem mem_ephemeralFields (hm : m ∈ planner.taking ir logicalModelId) {fm : FieldMapping}
    (hfm : fm ∈ planner.ephemeralFields ir logicalModelId m) :
    ∃ efp ∈ (planner.projectionOf ir logicalModelId).canonicalFields,
      fm.logicalFieldName = efp.name ∧ fm.logicalFieldId = s!"ephemeral_lf_{efp.name}" ∧
      planner.env.py.lower fm.physicalFieldName = planner.env.py.lower efp.name ∧
      (m.entity.getField fm.physicalFieldName).isSome := by
  obtain ⟨⟨name, column⟩, hnames, rfl⟩ := List.mem_map.1 hfm
  obtain ⟨efp, hefp, hcolumn⟩ := List.mem_filterMap.1 hnames
  obtain ⟨f, hf, -, hget, hlower⟩ := canonical_column hefp hm
  rw [hget] at hcolumn
  cases hcolumn
  refine ⟨efp, hefp, rfl, rfl, hlower, ?_⟩
  exact List.find?_isSome.2 ⟨f, hf, by simp⟩

theorem exists_ephemeralField (hm : m ∈ planner.taking ir logicalModelId)
    {efp : EphemeralFieldProjection}
    (hefp : efp ∈ (planner.projectionOf ir logicalModelId).canonicalFields) :
    ∃ fm ∈ planner.ephemeralFields ir logicalModelId m, fm.logicalFieldName = efp.name ∧
      fm.logicalFieldId = s!"ephemeral_lf_{efp.name}" := by
  obtain ⟨f, -, -, hget, -⟩ := canonical_column hefp hm
  refine ⟨_, List.mem_map_of_mem (List.mem_filterMap.2 ⟨efp, hefp, by rw [hget]; rfl⟩), rfl, rfl⟩

/-- The keys of the source's dictionary. -/
theorem isKey_iff (hm : m ∈ planner.taking ir logicalModelId) (k : String) :
    ((fieldMap planner.env.py (planner.ephemeralFields ir logicalModelId m) ir.projection).get?
        k).isSome ↔
      (∃ fm ∈ planner.ephemeralFields ir logicalModelId m, k ∈ namesOf planner.env.py fm) ∨
      ∃ sel ∈ ir.projection, ∃ a, sel.alias_.filter (· ≠ "") = some a ∧
        planner.env.py.lower a = k := by
  have hkeys : ∀ k, ((Dict.ofEntries (columnEntries planner.env.py
      (planner.ephemeralFields ir logicalModelId m))).get? k).isSome ↔
        ∃ fm ∈ planner.ephemeralFields ir logicalModelId m, k ∈ namesOf planner.env.py fm := by
    intro k
    constructor
    · intro h
      obtain ⟨column, hcolumn⟩ := Option.isSome_iff_exists.1 h
      obtain ⟨fm, hfm, hk, -⟩ := column_of_get? hcolumn
      exact ⟨fm, hfm, hk⟩
    · rintro ⟨fm, hfm, hk⟩
      exact get?_isSome_of_name hfm hk
  rw [fieldMap, get?_foldl_addAlias_isSome, hkeys]
  intro sel hsel
  -- a projected field is a field of the projection
  have hne : ir.projection ≠ [] := List.ne_nil_of_mem hsel
  have hroot : sel.path.root ∈ (planner.projectionOf ir logicalModelId).canonicalFields.map
      (·.name) := by
    rw [canonicalFields_explicit hne (List.ne_nil_of_mem hm)]
    exact List.mem_map_of_mem hsel
  obtain ⟨efp, hefp, hname⟩ := List.mem_map.1 hroot
  obtain ⟨fm, hfm, hfmName, -⟩ := exists_ephemeralField hm hefp
  refine (hkeys _).2 ⟨fm, hfm, ?_⟩
  simp [namesOf, hfmName, hname]

/-- What the dictionary holds are columns of the source. -/
theorem getField_of_get? (hm : m ∈ planner.taking ir logicalModelId) {k column : String}
    (h : (fieldMap planner.env.py (planner.ephemeralFields ir logicalModelId m) ir.projection).get?
      k = some column) : (m.entity.getField column).isSome := by
  rcases follows_fieldMap (planner.ephemeralFields ir logicalModelId m) ir.projection k with
    ⟨-, hnone⟩ | ⟨n, column', -, hcolumn, hsome⟩
  · cases hnone.symm.trans h
  · obtain rfl := Option.some.inj (hsome.symm.trans h)
    obtain ⟨fm, hfm, -, rfl⟩ := column_of_get? hcolumn
    obtain ⟨-, -, -, -, -, hfield⟩ := mem_ephemeralFields hm hfm
    exact hfield

/-- A root is found in the dictionary exactly if it is a field of the projection or an alias. -/
theorem lookup_isSome_iff (hm : m ∈ planner.taking ir logicalModelId) (root : String) :
    let d := fieldMap planner.env.py (planner.ephemeralFields ir logicalModelId m) ir.projection
    (d.get? (lookupKey planner.env.py d root)).isSome ↔
      (∃ efp ∈ (planner.projectionOf ir logicalModelId).canonicalFields,
        planner.env.py.lower root = planner.env.py.lower efp.name ∨
          planner.env.py.lower root = s!"ephemeral_lf_{efp.name}" ∨
          root = s!"ephemeral_lf_{efp.name}") ∨
      ∃ sel ∈ ir.projection, ∃ a, sel.alias_.filter (· ≠ "") = some a ∧
        planner.env.py.lower a = planner.env.py.lower root := by
  intro d
  set py := planner.env.py with hpy
  have hlookup : (d.get? (lookupKey py d root)).isSome ↔
      (d.get? (py.lower root)).isSome ∨ (d.get? root).isSome := by
    unfold lookupKey Dict.contains
    split_ifs with h
    · simp [h]
    · simp [h]
  have hnamed : ∀ fm ∈ planner.ephemeralFields ir logicalModelId m, ∀ k, k = root ∨ k = py.lower root →
      k ∈ namesOf py fm → ∃ efp ∈ (planner.projectionOf ir logicalModelId).canonicalFields,
        py.lower root = py.lower efp.name ∨ py.lower root = s!"ephemeral_lf_{efp.name}" ∨
          root = s!"ephemeral_lf_{efp.name}" := by
    intro fm hfm k hk hmem
    obtain ⟨efp, hefp, hname, hid, hcolumn, -⟩ := mem_ephemeralFields hm hfm
    have hlower : py.lower k = py.lower root := by
      rcases hk with rfl | rfl
      · rfl
      · exact py.lower_lower root
    refine ⟨efp, hefp, ?_⟩
    simp only [namesOf, List.mem_cons, List.not_mem_nil, or_false] at hmem
    rcases hmem with h | h | h | h
    · exact .inl (by rw [← hlower, h, py.lower_lower, hname])
    · rcases hk with rfl | rfl
      · exact .inr (.inr (h.trans hid))
      · exact .inr (.inl (h.trans hid))
    · exact .inl (by rw [← hlower, h, py.lower_lower, hcolumn])
    · exact .inl (by rw [← hlower, h, hcolumn])
  rw [hlookup, isKey_iff hm, isKey_iff hm]
  constructor
  · rintro ((⟨fm, hfm, hk⟩ | ⟨sel, hsel, a, ha, hk⟩) | (⟨fm, hfm, hk⟩ | ⟨sel, hsel, a, ha, hk⟩))
    · exact .inl (hnamed fm hfm _ (.inr rfl) hk)
    · exact .inr ⟨sel, hsel, a, ha, hk⟩
    · exact .inl (hnamed fm hfm _ (.inl rfl) hk)
    · exact .inr ⟨sel, hsel, a, ha, by rw [← hk, py.lower_lower]⟩
  · rintro (⟨efp, hefp, hroot⟩ | ⟨sel, hsel, a, ha, hk⟩)
    · obtain ⟨fm, hfm, hname, hid⟩ := exists_ephemeralField hm hefp
      rcases hroot with h | h | h
      · exact .inl (.inl ⟨fm, hfm, by simp [namesOf, hname, h, ← hpy]⟩)
      · exact .inl (.inl ⟨fm, hfm, by simp [namesOf, hid, h]⟩)
      · exact .inr (.inl ⟨fm, hfm, by simp [namesOf, hid, h]⟩)
    · exact .inl (.inr ⟨sel, hsel, a, ha, hk⟩)

/-- A path is found in the source exactly if it is known to it. -/
theorem resolves_iff (hm : m ∈ planner.taking ir logicalModelId) (path : FieldPath) :
    (∃ column, resolveFieldPath (resolveName planner.env.py (fieldMap planner.env.py
        (planner.ephemeralFields ir logicalModelId m) ir.projection) path) m.entity = .ok column) ↔
      planner.KnownTo ir logicalModelId m path := by
  have hlookup := lookup_isSome_iff hm path.root
  dsimp only at hlookup
  unfold KnownTo
  rw [← or_assoc, ← hlookup]
  unfold resolveName
  cases hget : (fieldMap planner.env.py (planner.ephemeralFields ir logicalModelId m)
      ir.projection).get? (lookupKey planner.env.py (fieldMap planner.env.py
        (planner.ephemeralFields ir logicalModelId m) ir.projection) path.root) with
  | none => simp
  | some column =>
    simp only [Option.isSome_some, true_or, iff_true]
    exact resolveFieldPath_of_root (getField_of_get? hm hget)

/-- The entity that was found is the one that the query is bound to. -/
theorem resolveEntity_of_matching (hm : m ∈ planner.matching ir) :
    resolveEntity m.entity.name m.schema = .ok m.entity := by
  obtain ⟨-, -, hfind⟩ := mem_matching.1 hm
  obtain ⟨hnamed, before, after, heq, hbefore⟩ := List.find?_eq_some_iff_append.1 hfind
  refine resolveEntity_eq_ok.2 (List.find?_eq_some_iff_append.2
    ⟨by simp, before, after, heq, fun entity hentity => ?_⟩)
  -- an entity of the same name would have been found before
  have hearlier := hbefore entity hentity
  simp only [Bool.not_eq_eq_eq_not, Bool.not_true, decide_eq_false_iff_not]
  intro hname
  unfold namesEntity at hearlier hnamed
  rw [hname, hnamed] at hearlier
  cases hearlier

theorem matchedEntity_ephemeralMapping (m : MatchingSource) : ∃ em,
    matchedEntity planner.env.py (ephemeralMapping ir logicalModelId
      (planner.projectionOf ir logicalModelId) m) ir.entity = some em ∧
    em.physicalEntityName = m.entity.name ∧
    em.fieldMappings = planner.ephemeralFields ir logicalModelId m := by
  refine ⟨_, List.find?_cons_of_pos ?_, rfl, rfl⟩
  simp [goesBy]

end QueryPlanner

end AltrStream.Planning
