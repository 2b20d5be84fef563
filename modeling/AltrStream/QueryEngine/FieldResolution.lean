import AltrStream.Foundations.FirstMatch
import AltrStream.QueryEngine.LogicalResolver
import Mathlib.Data.List.Perm.Basic

/-! # What a name in a query is resolved to

Every name that a query refers to is looked up in one dictionary, where a later
entry replaces an earlier one. Here: when the order of the field mappings and the
aliases of the projection make no difference.
-/
namespace AltrStream.QueryEngine
open Foundations Python Domain

section
variable (py : Casing)

/-- The same mapping with the field mappings of its entities in any order. -/
def Reorders (mapping mapping' : SourceMapping) : Prop :=
  mapping'.toSourceMappingRow = mapping.toSourceMappingRow ∧
    List.Forall₂ (fun em em' : EntityMapping => em'.toEntityMappingRow = em.toEntityMappingRow ∧
      em'.fieldMappings.Perm em.fieldMappings) mapping.entityMappings mapping'.entityMappings

/-- The query without the aliases of its projection. -/
def AltrQueryIR.withoutAliases (ir : AltrQueryIR) : AltrQueryIR :=
  { ir with projection := ir.projection.map fun sel => { sel with alias_ := none } }

/-- A path whose root names a logical field has become the same path into the field's column. -/
def Replaced (fms : List FieldMapping) (path path' : FieldPath) : Prop :=
  ∀ fm ∈ fms, py.lower path.root = py.lower fm.logicalFieldName →
    path' = { path with root := fm.physicalFieldName }

/-- Every reference to a logical field of `em` becomes its column, whatever the order of the field
mappings and with or without aliases, and the resolved query does not depend on that order. -/
def ResolvesFaithfully (mapping : SourceMapping) (em : EntityMapping) (ir : AltrQueryIR) : Prop :=
  ∀ mapping', Reorders mapping mapping' →
    (∃ resolved, resolveLogicalIr py ir mapping = .ok resolved ∧
      resolveLogicalIr py ir mapping' = .ok resolved ∧
      List.Forall₂ (Replaced py em.fieldMappings) ir.references resolved.references) ∧
    ∃ plain, resolveLogicalIr py ir.withoutAliases mapping' = .ok plain ∧
      List.Forall₂ (Replaced py em.fieldMappings) ir.references plain.references

/-- The names of the field mappings, and the aliases with the names they unfold to. -/
def unfoldings (fms : List FieldMapping) (projection : List FieldSelection) : Dict String String :=
  projection.foldl (addAlias py)
    (.ofEntries (fms.flatMap fun fm => (namesOf py fm).map fun n => (n, n)))

/-- The name of a field mapping that a name is, or unfolds to. -/
def unfolded (fms : List FieldMapping) (projection : List FieldSelection) (name : String) :
    Option String :=
  let d := unfoldings py fms projection
  d.get? (lookupKey py d name)

/-- No name of the query is a name of two field mappings, and a logical field's name is a name of
that field's mapping only, as it stands and with the aliases unfolded. -/
def OneMeaning (fms : List FieldMapping) (ir : AltrQueryIR) : Prop :=
  ∀ path ∈ ir.references,
    (∀ n, unfolded py fms ir.projection path.root = some n → ∀ fm ∈ fms, ∀ fm' ∈ fms,
      n ∈ namesOf py fm → n ∈ namesOf py fm' → fm' = fm) ∧
    ∀ fm ∈ fms, py.lower path.root = py.lower fm.logicalFieldName →
      (∀ fm' ∈ fms, py.lower path.root ∈ namesOf py fm' → fm' = fm) ∧
      ∃ n, unfolded py fms ir.projection path.root = some n ∧ n ∈ namesOf py fm

end

variable {py : Casing} {fms fms' : List FieldMapping}

/-! ### One dictionary -/

/-- What is looked up is a column of the name. -/
theorem column_of_get? {n column : String}
    (h : (Dict.ofEntries (columnEntries py fms)).get? n = some column) :
    ∃ fm ∈ fms, n ∈ namesOf py fm ∧ fm.physicalFieldName = column := by
  rcases Dict.get?_update_cases h with h | h
  · cases h
  · obtain ⟨fm, hfm, h⟩ := List.mem_flatMap.1 h
    obtain ⟨n', hn, heq⟩ := List.mem_map.1 h
    obtain ⟨rfl, rfl⟩ := Prod.mk.inj heq
    exact ⟨fm, hfm, hn, rfl⟩

theorem get?_isSome_of_name {fm : FieldMapping} (hfm : fm ∈ fms) {n : String}
    (hn : n ∈ namesOf py fm) : ((Dict.ofEntries (columnEntries py fms)).get? n).isSome :=
  Dict.get?_update_isSome <| .inr ⟨fm.physicalFieldName,
    List.mem_flatMap.2 ⟨fm, hfm, List.mem_map_of_mem hn⟩⟩

/-- The last field mapping of a name is the one that is found. -/
theorem get?_last {fm : FieldMapping} {n : String} (hn : n ∈ namesOf py fm) :
    (Dict.ofEntries (columnEntries py (fms ++ [fm]))).get? n = some fm.physicalFieldName := by
  have hlast : columnEntries py (fms ++ [fm]) =
      columnEntries py fms ++ (namesOf py fm).map (·, fm.physicalFieldName) := by
    simp [columnEntries]
  rw [Dict.ofEntries, hlast, Dict.update_append]
  refine Dict.get?_update_of_mem (List.mem_map_of_mem hn) fun w hw => ?_
  obtain ⟨_, -, heq⟩ := List.mem_map.1 hw
  exact (Prod.mk.inj heq).2.symm

/-- A name of one field mapping only is found under its column. -/
theorem get?_of_one {fm : FieldMapping} (hfm : fm ∈ fms) {n : String} (hn : n ∈ namesOf py fm)
    (hone : ∀ fm' ∈ fms, n ∈ namesOf py fm' → fm' = fm) :
    (Dict.ofEntries (columnEntries py fms)).get? n = some fm.physicalFieldName := by
  obtain ⟨column, hcolumn⟩ := Option.isSome_iff_exists.1 (get?_isSome_of_name hfm hn)
  obtain ⟨fm', hfm', hn', rfl⟩ := column_of_get? hcolumn
  rw [hcolumn, hone fm' hfm' hn']

/-! ### Unfolding -/

/-- The dictionary `d'` of columns is the dictionary `d` of names followed by `columns`. -/
def Follows (columns d d' : Dict String String) : Prop :=
  ∀ k, (d.get? k = none ∧ d'.get? k = none) ∨
    ∃ n column, d.get? k = some n ∧ columns.get? n = some column ∧ d'.get? k = some column

theorem Follows.addAlias {columns d d' : Dict String String} (h : Follows columns d d')
    (sel : FieldSelection) : Follows columns (addAlias py d sel) (addAlias py d' sel) := by
  cases halias : sel.alias_.filter (· ≠ "") with
  | none => simpa only [QueryEngine.addAlias, halias] using h
  | some alias_ =>
    rcases h (py.lower sel.path.root) with ⟨hnone, hnone'⟩ | ⟨n, column, hn, hcolumn, hsome⟩
    · simpa only [QueryEngine.addAlias, halias, hnone, hnone'] using h
    · simp only [QueryEngine.addAlias, halias, hn, hsome]
      intro k
      simp only [Dict.get?_set]
      split_ifs
      · exact .inr ⟨n, column, rfl, hcolumn, rfl⟩
      · exact h k

theorem Follows.foldl {columns d d' : Dict String String} (h : Follows columns d d')
    (projection : List FieldSelection) :
    Follows columns (projection.foldl (QueryEngine.addAlias py) d)
      (projection.foldl (QueryEngine.addAlias py) d') := by
  induction projection generalizing d d' with
  | nil => exact h
  | cons sel projection ih => exact ih (h.addAlias sel)

/-- The names of the field mappings unfold to themselves. -/
theorem get?_names (fms : List FieldMapping) (k : String) :
    (Dict.ofEntries (fms.flatMap fun fm => (namesOf py fm).map fun n => (n, n))).get? k =
      if ∃ fm ∈ fms, k ∈ namesOf py fm then some k else none := by
  have hmem : ∀ n, (k, n) ∈ fms.flatMap (fun fm => (namesOf py fm).map fun n => (n, n)) ↔
      n = k ∧ ∃ fm ∈ fms, k ∈ namesOf py fm := by
    intro n
    simp only [List.mem_flatMap, List.mem_map, Prod.mk.injEq]
    constructor
    · rintro ⟨fm, hfm, _, hk, rfl, rfl⟩
      exact ⟨rfl, fm, hfm, hk⟩
    · rintro ⟨rfl, fm, hfm, hk⟩
      exact ⟨fm, hfm, n, hk, rfl, rfl⟩
  split_ifs with hk
  · exact Dict.get?_update_of_mem ((hmem k).2 ⟨rfl, hk⟩) fun n hn => ((hmem n).1 hn).1
  · by_contra hsome
    obtain ⟨n, hn⟩ := Option.ne_none_iff_exists'.1 hsome
    rcases Dict.get?_update_cases hn with hn | hn
    · cases hn
    · exact hk ((hmem n).1 hn).2

/-- The columns are found through the names that the aliases unfold to. -/
theorem follows_fieldMap (fms : List FieldMapping) (projection : List FieldSelection) :
    Follows (.ofEntries (columnEntries py fms)) (unfoldings py fms projection)
      (fieldMap py fms projection) := by
  apply Follows.foldl
  intro k
  rw [get?_names]
  split_ifs with hk
  · obtain ⟨fm, hfm, hk⟩ := hk
    obtain ⟨column, hcolumn⟩ := Option.isSome_iff_exists.1 (get?_isSome_of_name hfm hk)
    exact .inr ⟨k, column, rfl, hcolumn, hcolumn⟩
  · refine .inl ⟨rfl, ?_⟩
    by_contra hsome
    obtain ⟨column, hcolumn⟩ := Option.ne_none_iff_exists'.1 hsome
    obtain ⟨fm, hfm, hn, -⟩ := column_of_get? hcolumn
    exact hk ⟨fm, hfm, hn⟩

theorem resolveName_cases (fms : List FieldMapping) (projection : List FieldSelection)
    (path : FieldPath) :
    unfolded py fms projection path.root = none ∧
      resolveName py (fieldMap py fms projection) path = path ∨
    ∃ n column, unfolded py fms projection path.root = some n ∧
      (Dict.ofEntries (columnEntries py fms)).get? n = some column ∧
      resolveName py (fieldMap py fms projection) path = { path with root := column } := by
  have hfollows := @follows_fieldMap py fms projection
  have hkey : lookupKey py (fieldMap py fms projection) path.root =
      lookupKey py (unfoldings py fms projection) path.root := by
    unfold lookupKey Dict.contains
    rcases hfollows (py.lower path.root) with ⟨hd, hd'⟩ | ⟨_, _, hd, -, hd'⟩ <;> simp [hd, hd']
  unfold unfolded resolveName
  rw [hkey]
  rcases hfollows (lookupKey py (unfoldings py fms projection) path.root) with
    ⟨hd, hd'⟩ | ⟨n, column, hd, hcolumn, hd'⟩
  · exact .inl ⟨hd, by rw [hd']⟩
  · exact .inr ⟨n, column, hd, hcolumn, by rw [hd']⟩

theorem get?_addAlias_congr {d d' : Dict String String} (h : ∀ k, d.get? k = d'.get? k)
    (sel : FieldSelection) (k : String) : (addAlias py d sel).get? k = (addAlias py d' sel).get? k := by
  unfold addAlias
  rw [h (py.lower sel.path.root)]
  split
  · simp only [Dict.get?_set, h k]
  · exact h k

theorem get?_foldl_congr {d d' : Dict String String} (h : ∀ k, d.get? k = d'.get? k)
    (projection : List FieldSelection) (k : String) :
    (projection.foldl (addAlias py) d).get? k = (projection.foldl (addAlias py) d').get? k := by
  induction projection generalizing d d' with
  | nil => exact h k
  | cons sel projection ih => exact ih (get?_addAlias_congr h sel)

/-- What a name unfolds to does not depend on the order of the field mappings. -/
theorem unfolded_perm (h : fms'.Perm fms) (projection : List FieldSelection) (name : String) :
    unfolded py fms' projection name = unfolded py fms projection name := by
  have hget : ∀ k, (unfoldings py fms' projection).get? k = (unfoldings py fms projection).get? k := by
    refine get?_foldl_congr (fun k => ?_) projection
    simp only [get?_names, h.mem_iff]
  unfold unfolded lookupKey Dict.contains
  simp only [hget]

theorem unfolded_named {projection : List FieldSelection} {name n : String}
    (h : unfolded py fms projection name = some n) : ∃ fm ∈ fms, n ∈ namesOf py fm := by
  rcases @follows_fieldMap py fms projection
    (lookupKey py (unfoldings py fms projection) name) with ⟨hd, -⟩ | ⟨n', column, hd, hcolumn, -⟩
  · cases hd.symm.trans h
  · obtain rfl := Option.some.inj (hd.symm.trans h)
    obtain ⟨fm, hfm, hn, -⟩ := column_of_get? hcolumn
    exact ⟨fm, hfm, hn⟩

/-- Without aliases a name of a field mapping stands for itself. -/
theorem foldl_withoutAliases (d : Dict String String) (projection : List FieldSelection) :
    (projection.map fun sel => { sel with alias_ := none }).foldl (addAlias py) d = d := by
  induction projection with
  | nil => rfl
  | cons sel projection ih => exact ih

/-! ### Orders of the field mappings -/

theorem matchedEntity_reorders {mapping mapping' : SourceMapping} (h : Reorders mapping mapping')
    {entity : String} {em : EntityMapping} (hem : matchedEntity py mapping entity = some em) :
    ∃ em', matchedEntity py mapping' entity = some em' ∧
      em'.toEntityMappingRow = em.toEntityMappingRow ∧ em'.fieldMappings.Perm em.fieldMappings := by
  obtain ⟨-, hems⟩ := h
  unfold matchedEntity at hem ⊢
  generalize mapping.entityMappings = ems, mapping'.entityMappings = ems' at hems hem ⊢
  induction hems with
  | nil => cases hem
  | @cons e e' ems ems' he _ ih =>
    have hgoes : goesBy py (py.lower entity) (py.clean (strip entity)) e' =
        goesBy py (py.lower entity) (py.clean (strip entity)) e := by
      simp only [goesBy, he.1]
    rw [List.find?_cons] at hem ⊢
    rw [hgoes]
    cases hmatch : goesBy py (py.lower entity) (py.clean (strip entity)) e with
    | true =>
      simp only [hmatch, Option.some.injEq] at hem ⊢
      subst hem
      exact ⟨e', rfl, he⟩
    | false =>
      simp only [hmatch] at hem ⊢
      exact ih hem

/-- The mapping with other field mappings for one of its entities. -/
def withFields (mapping : SourceMapping) (em : EntityMapping) (fms : List FieldMapping) :
    SourceMapping :=
  { mapping with entityMappings := mapping.entityMappings.map fun e =>
      if e = em then { em with fieldMappings := fms } else e }

theorem reorders_withFields (mapping : SourceMapping) {em : EntityMapping}
    (h : fms.Perm em.fieldMappings) : Reorders mapping (withFields mapping em fms) := by
  refine ⟨rfl, List.forall₂_map_right_iff.2 (List.forall₂_same.2 fun e _ => ?_)⟩
  split_ifs with he
  · subst he
    exact ⟨rfl, h⟩
  · exact ⟨rfl, List.Perm.refl _⟩

theorem matchedEntity_withFields {mapping : SourceMapping} {entity : String} {em : EntityMapping}
    (hem : matchedEntity py mapping entity = some em) (fms : List FieldMapping) :
    matchedEntity py (withFields mapping em fms) entity = some { em with fieldMappings := fms } := by
  have hgoes : (goesBy py (py.lower entity) (py.clean (strip entity)) ∘ fun e : EntityMapping =>
      if e = em then { em with fieldMappings := fms } else e) =
      goesBy py (py.lower entity) (py.clean (strip entity)) := by
    funext e
    simp only [Function.comp_apply]
    split_ifs with he
    · rw [he]
      rfl
    · rfl
  unfold matchedEntity at hem ⊢
  rw [withFields, List.find?_map, hgoes, hem, Option.map_some, if_pos rfl]

/-- What faithful resolution says of each field path. -/
def NamesFaithful (py : Casing) (fms : List FieldMapping) (ir : AltrQueryIR) : Prop :=
  ∀ fms', fms'.Perm fms → ∀ path ∈ ir.references,
    resolveName py (fieldMap py fms' ir.projection) path =
      resolveName py (fieldMap py fms ir.projection) path ∧
    Replaced py fms path (resolveName py (fieldMap py fms ir.projection) path) ∧
    Replaced py fms path (resolveName py (.ofEntries (columnEntries py fms')) path)

theorem references_withoutAliases (ir : AltrQueryIR) :
    ir.withoutAliases.references = ir.references := by
  simp only [AltrQueryIR.references, AltrQueryIR.withoutAliases, List.map_map, Function.comp_def]

theorem references_physicalIr (em : EntityMapping) (ir : AltrQueryIR) :
    (physicalIr py em ir).references =
      ir.references.map (resolveName py (fieldMap py em.fieldMappings ir.projection)) :=
  references_resolveClauses _ _ _

theorem resolvesFaithfully_iff_names {mapping : SourceMapping} {em : EntityMapping} {ir : AltrQueryIR}
    (hem : matchedEntity py mapping ir.entity = some em) :
    ResolvesFaithfully py mapping em ir ↔ NamesFaithful py em.fieldMappings ir := by
  have hplain : ∀ em' : EntityMapping, (physicalIr py em' ir.withoutAliases).references =
      ir.references.map (resolveName py (.ofEntries (columnEntries py em'.fieldMappings))) := by
    intro em'
    rw [references_physicalIr, references_withoutAliases]
    congr 2
    exact foldl_withoutAliases _ _
  constructor
  · intro h fms' hperm path hpath
    obtain ⟨⟨resolved, hresolved, hresolved', hreplaced⟩, plain, hplained, hreplaced'⟩ :=
      h _ (reorders_withFields mapping hperm)
    have hem' := matchedEntity_withFields hem fms'
    obtain ⟨_, hfound, rfl⟩ := resolveLogicalIr_eq_ok.1 hresolved
    obtain rfl := Option.some.inj (hem.symm.trans hfound)
    obtain ⟨_, hfound', heq⟩ := resolveLogicalIr_eq_ok.1 hresolved'
    obtain rfl := Option.some.inj (hem'.symm.trans hfound')
    obtain ⟨_, hfound', rfl⟩ := resolveLogicalIr_eq_ok.1 hplained
    obtain rfl := Option.some.inj (hem'.symm.trans hfound')
    have hrefs := congrArg AltrQueryIR.references heq
    rw [references_physicalIr, references_physicalIr] at hrefs
    rw [references_physicalIr, List.forall₂_map_right_iff, List.forall₂_same] at hreplaced
    rw [hplain, List.forall₂_map_right_iff, List.forall₂_same] at hreplaced'
    exact ⟨List.map_inj_left.1 hrefs path hpath, hreplaced path hpath, hreplaced' path hpath⟩
  · intro h mapping' hreorders
    obtain ⟨em', hem', hrow, hperm⟩ := matchedEntity_reorders hreorders hem
    refine ⟨⟨physicalIr py em ir, resolveLogicalIr_eq_ok.2 ⟨em, hem, rfl⟩,
      resolveLogicalIr_eq_ok.2 ⟨em', hem', ?_⟩, ?_⟩, physicalIr py em' ir.withoutAliases,
      resolveLogicalIr_eq_ok.2 ⟨em', hem', rfl⟩, ?_⟩
    · rw [physicalIr, hrow]
      exact resolveClauses_congr fun path hpath => (h _ hperm path hpath).1
    · rw [references_physicalIr, List.forall₂_map_right_iff, List.forall₂_same]
      exact fun path hpath => (h _ hperm path hpath).2.1
    · rw [hplain, List.forall₂_map_right_iff, List.forall₂_same]
      exact fun path hpath => (h _ hperm path hpath).2.2

/-! ### One meaning for every name -/

/-- Any field mapping can be the last one. -/
theorem perm_last {fm : FieldMapping} (hfm : fm ∈ fms) : (fms.erase fm ++ [fm]).Perm fms :=
  (List.perm_append_singleton fm _).trans (List.perm_cons_erase hfm).symm

/-- A logical field's name is looked up as it is, in lower case. -/
theorem lookupKey_of_name {fm : FieldMapping} (hfm : fm ∈ fms) {name : String}
    (hname : py.lower name = py.lower fm.logicalFieldName) :
    lookupKey py (.ofEntries (columnEntries py fms)) name = py.lower name := by
  refine if_pos (get?_isSome_of_name hfm ?_)
  simp [namesOf, hname]

/-- Aliases take no key away. -/
theorem get?_foldl_isSome {d : Dict String String} {k : String} (h : (d.get? k).isSome)
    (projection : List FieldSelection) : ((projection.foldl (addAlias py) d).get? k).isSome := by
  induction projection generalizing d with
  | nil => exact h
  | cons sel projection ih =>
    apply ih
    unfold addAlias
    split
    · rw [Dict.get?_set]
      split_ifs
      · rfl
      · exact h
    · exact h

/-- A logical field's name unfolds to some name. -/
theorem unfolded_isSome_of_name {fm : FieldMapping} (hfm : fm ∈ fms) {name : String}
    (hname : py.lower name = py.lower fm.logicalFieldName) (projection : List FieldSelection) :
    ∃ n, unfolded py fms projection name = some n := by
  have hnamed : py.lower name ∈ namesOf py fm := by simp [namesOf, hname]
  have hsome : ((unfoldings py fms projection).get? (py.lower name)).isSome := by
    apply get?_foldl_isSome
    rw [get?_names, if_pos ⟨fm, hfm, hnamed⟩]
    rfl
  rw [unfolded, lookupKey, Dict.contains, if_pos hsome]
  exact Option.isSome_iff_exists.1 hsome

theorem namesFaithful_iff {ir : AltrQueryIR} (hcolumns : (fms.map (·.physicalFieldName)).Nodup) :
    NamesFaithful py fms ir ↔ OneMeaning py fms ir := by
  have hinj : ∀ fm ∈ fms, ∀ fm' ∈ fms, fm'.physicalFieldName = fm.physicalFieldName → fm' = fm :=
    fun fm hfm fm' hfm' => List.inj_on_of_nodup_map hcolumns hfm' hfm
  constructor
  · intro h path hpath
    -- a name is looked up under its last field mapping, which may be any
    have hvalue : ∀ n, unfolded py fms ir.projection path.root = some n → ∀ fm ∈ fms,
        n ∈ namesOf py fm → resolveName py (fieldMap py fms ir.projection) path =
          { path with root := fm.physicalFieldName } := by
      intro n hn fm hfm hnamed
      obtain ⟨hsame, -⟩ := h _ (perm_last hfm) path hpath
      rw [← hsame]
      rcases resolveName_cases (fms.erase fm ++ [fm]) ir.projection path with
        ⟨hnone, -⟩ | ⟨n', column, hn', hcolumn, hresolved⟩
      · rw [unfolded_perm (perm_last hfm), hn] at hnone
        cases hnone
      · rw [unfolded_perm (perm_last hfm), hn] at hn'
        obtain rfl := Option.some.inj hn'
        rw [get?_last hnamed] at hcolumn
        rw [hresolved, ← Option.some.inj hcolumn]
    refine ⟨fun n hn fm hfm fm' hfm' hnamed hnamed' => ?_, fun fm hfm hname => ⟨?_, ?_⟩⟩
    · have heq := (hvalue n hn fm hfm hnamed).symm.trans (hvalue n hn fm' hfm' hnamed')
      exact hinj fm hfm fm' hfm' (congrArg FieldPath.root heq).symm
    · intro fm' hfm' hnamed
      obtain ⟨-, -, hplain⟩ := h _ (perm_last hfm') path hpath
      have hresolved := hplain fm hfm hname
      have hmem : fm ∈ fms.erase fm' ++ [fm'] := (perm_last hfm').mem_iff.2 hfm
      rw [resolveName, lookupKey_of_name hmem hname, get?_last hnamed] at hresolved
      exact hinj fm hfm fm' hfm' (congrArg FieldPath.root hresolved)
    · obtain ⟨n, hn⟩ := unfolded_isSome_of_name hfm hname ir.projection
      obtain ⟨fm', hfm', hnamed⟩ := unfolded_named hn
      obtain ⟨-, hreplaced, -⟩ := h fms (List.Perm.refl _) path hpath
      have heq := (hvalue n hn fm' hfm' hnamed).symm.trans (hreplaced fm hfm hname)
      obtain rfl := hinj fm hfm fm' hfm' (congrArg FieldPath.root heq)
      exact ⟨n, hn, hnamed⟩
  · intro h fms' hperm path hpath
    obtain ⟨hone, hlogical⟩ := h path hpath
    have hvalue : ∀ fms', fms'.Perm fms → ∀ n, unfolded py fms ir.projection path.root = some n →
        ∀ fm ∈ fms, n ∈ namesOf py fm → resolveName py (fieldMap py fms' ir.projection) path =
          { path with root := fm.physicalFieldName } := by
      intro fms' hperm n hn fm hfm hnamed
      have hcolumn := get?_of_one (hperm.mem_iff.2 hfm) hnamed fun fm' hfm' hnamed' =>
        hone n hn fm hfm fm' (hperm.mem_iff.1 hfm') hnamed hnamed'
      rcases resolveName_cases fms' ir.projection path with ⟨hnone, -⟩ | ⟨n', column, hn', hc, hresolved⟩
      · rw [unfolded_perm hperm, hn] at hnone
        cases hnone
      · rw [unfolded_perm hperm, hn] at hn'
        obtain rfl := Option.some.inj hn'
        rw [hresolved, Option.some.inj (hcolumn.symm.trans hc)]
    refine ⟨?_, fun fm hfm hname => ?_, fun fm hfm hname => ?_⟩
    · cases hn : unfolded py fms ir.projection path.root with
      | none =>
        have hself : ∀ fms', fms'.Perm fms →
            resolveName py (fieldMap py fms' ir.projection) path = path := by
          intro fms' hperm
          rcases resolveName_cases fms' ir.projection path with ⟨-, h⟩ | ⟨n, _, hn', -, -⟩
          · exact h
          · rw [unfolded_perm hperm, hn] at hn'
            cases hn'
        rw [hself fms' hperm, hself fms (List.Perm.refl _)]
      | some n =>
        obtain ⟨fm, hfm, hnamed⟩ := unfolded_named hn
        rw [hvalue fms' hperm n hn fm hfm hnamed, hvalue fms (List.Perm.refl _) n hn fm hfm hnamed]
    · obtain ⟨-, n, hn, hnamed⟩ := hlogical fm hfm hname
      exact hvalue fms (List.Perm.refl _) n hn fm hfm hnamed
    · obtain ⟨hself, -⟩ := hlogical fm hfm hname
      have hfm' := hperm.mem_iff.2 hfm
      have hnamed : py.lower path.root ∈ namesOf py fm := by simp [namesOf, hname]
      have hcolumn := get?_of_one hfm' hnamed fun fm' hfm' hnamed' =>
        hself fm' (hperm.mem_iff.1 hfm') hnamed'
      rw [resolveName, lookupKey_of_name hfm' hname, hcolumn]

/-- References to logical fields reach their columns, under every order of the field mappings and
with or without the aliases, exactly when every name has one meaning. -/
theorem resolvesFaithfully_iff {mapping : SourceMapping} {em : EntityMapping} {ir : AltrQueryIR}
    (hem : matchedEntity py mapping ir.entity = some em)
    (hcolumns : (em.fieldMappings.map (·.physicalFieldName)).Nodup) :
    ResolvesFaithfully py mapping em ir ↔ OneMeaning py em.fieldMappings ir :=
  (resolvesFaithfully_iff_names hem).trans (namesFaithful_iff hcolumns)

instance (fms : List FieldMapping) (ir : AltrQueryIR) : Decidable (OneMeaning py fms ir) := by
  unfold OneMeaning
  infer_instance

/-- A mapping of one entity whose logical fields and columns are given. -/
def mapped (columns : List (String × String)) : SourceMapping where
  id := "m"
  logicalModelId := "shop"
  sourceId := "db"
  status := .active
  entityMappings :=
    [{ id := "em", sourceMappingId := "m", logicalEntityId := "e1", logicalEntityName := "Order"
       physicalEntityName := "orders"
       fieldMappings := columns.map fun (logical, physical) =>
         { id := "fm_" ++ logical, entityMappingId := "em", logicalFieldId := "f_" ++ logical
           logicalFieldName := logical, physicalFieldName := physical } }]

/-- `GET Order { total AS sum, placed } SORT placed` -/
def orderQuery : AltrQueryIR where
  entity := "Order"
  projection := [⟨⟨"total", []⟩, some "sum"⟩, ⟨⟨"placed", []⟩, none⟩]
  sort := [⟨⟨"placed", []⟩, .asc⟩]

theorem resolvesFaithfully_order : ∃ em,
    matchedEntity .ascii (mapped [("total", "amount"), ("placed", "created_at")]) "Order" = some em ∧
    ResolvesFaithfully .ascii (mapped [("total", "amount"), ("placed", "created_at")]) em orderQuery :=
  ⟨_, rfl, (resolvesFaithfully_iff rfl (by decide)).2 (by decide)⟩

/-- Two fields are mapped to columns that have each other's name. -/
theorem not_resolvesFaithfully_swapped : ¬ ∀ (py : Casing) (mapping : SourceMapping)
    (em : EntityMapping) (ir : AltrQueryIR), matchedEntity py mapping ir.entity = some em →
    (em.fieldMappings.map fun fm => py.lower fm.logicalFieldName).Nodup →
    (em.fieldMappings.map (·.physicalFieldName)).Nodup → ResolvesFaithfully py mapping em ir := by
  intro h
  have hfaithful := h .ascii (mapped [("total", "placed"), ("placed", "total")]) _ orderQuery rfl
    (by decide) (by decide)
  obtain ⟨⟨resolved, hresolved, -, hreplaced⟩, -⟩ :=
    hfaithful _ ⟨rfl, List.forall₂_same.2 fun _ _ => ⟨rfl, List.Perm.refl _⟩⟩
  obtain rfl := Except.ok.inj hresolved
  have htotal := (List.forall₂_cons.1 hreplaced).1 _ (List.mem_cons_self ..) rfl
  exact absurd htotal (by decide)

end AltrStream.QueryEngine
