import AltrStream.Foundations.FirstMatch
import AltrStream.Registry.Candidates

/-! # Which entity mapping a query reaches

Three searches for the entity mapping of a query: by the logical resolver, by the
explicit path of the API, and by the registry for its candidates. Each takes the
first that passes one of its tests.
-/
namespace AltrStream.Planning
open Foundations Python QueryEngine Domain Registry

section
variable (py : Casing)

/-- `_find_matching_entity_mapping` of `routes/altrql.py`. -/
def findMatchingEntityMapping (mapping : SourceMapping) (entityName : String) :
    Option EntityMapping :=
  let target := py.lower (strip entityName)
  mapping.entityMappings.find? (goesBy py target (rstrip 's' target))

/-- The logical name of the entity is the one asked for, but for case. -/
def isNamed (entity : String) (em : EntityMapping) : Bool :=
  py.lower em.logicalEntityName = py.lower entity

/-- The search of the logical resolver. -/
def resolverTest (entity : String) : EntityMapping → Bool :=
  goesBy py (py.lower entity) (py.clean (strip entity))

/-- The search of the explicit path. -/
def explicitTest (entity : String) : EntityMapping → Bool :=
  goesBy py (py.lower (strip entity)) (py.clean (strip entity))

/-- Both searches find an entity mapping of the very logical name, if there is one, and the same
one in any case. -/
structure ChoosesNamed (mapping : SourceMapping) (entity : String) : Prop where
  resolver : (∃ em ∈ mapping.entityMappings, isNamed py entity em = true) →
    ∃ em, matchedEntity py mapping entity = some em ∧ isNamed py entity em = true
  explicit : (∃ em ∈ mapping.entityMappings, isNamed py entity em = true) →
    ∃ em, findMatchingEntityMapping py mapping entity = some em ∧ isNamed py entity em = true
  same : matchedEntity py mapping entity = findMatchingEntityMapping py mapping entity

end

/-- The entity mapping that a candidate records is the one that the query is compiled against. -/
def CandidatesCompile (env : Environment) (snapshots : String → Option SourceSchema)
    (r : Repository) (modelId entityName : String) : Prop :=
  ∀ result, resolveLogicalEntity env snapshots r modelId entityName = .ok result →
    ∀ c ∈ result.candidates, ∃ mapping em, getSourceMapping r c.mappingId = .ok mapping ∧
      matchedEntity env.py mapping entityName = some em ∧ c.entityMappingId = em.id

/-- No entity mapping that goes by the name otherwise comes before the first that has it as its
logical name, and the space around the name makes no difference to the first that goes by it. -/
def NamedFirst (py : Casing) (mapping : SourceMapping) (entity : String) : Prop :=
  ((∃ em ∈ mapping.entityMappings, isNamed py entity em = true) →
    AgreeAtFirst (resolverTest py entity) (isNamed py entity) mapping.entityMappings) ∧
  AgreeAtFirst (resolverTest py entity) (explicitTest py entity) mapping.entityMappings

/-- In every active mapping that yields a candidate, the first entity mapping that passes the test
for candidates or for the query passes both. -/
def CandidatesAgree (env : Environment) (r : Repository) (modelId entityName : String) : Prop :=
  ∀ model target, getModel env.py r modelId = .ok model →
    targetEntity env.py model (activeMappings r model.id) entityName = some target →
    ∀ mapping ∈ activeMappings r model.id, (env.source? mapping.sourceId).isSome →
      (∃ em ∈ mapping.entityMappings, mapsEntity env.py target em = true) →
      AgreeAtFirst (mapsEntity env.py target) (resolverTest env.py entityName) mapping.entityMappings

variable {py : Casing} {mapping : SourceMapping} {entity : String}

theorem resolverTest_of_isNamed {em : EntityMapping} (h : isNamed py entity em = true) :
    resolverTest py entity em = true := by
  simp [resolverTest, goesBy, decide_eq_true_iff.1 h]

theorem choosesNamed_iff : ChoosesNamed py mapping entity ↔ NamedFirst py mapping entity := by
  have hstricter : ∀ em ∈ mapping.entityMappings, isNamed py entity em = true →
      resolverTest py entity em = true := fun _ _ => resolverTest_of_isNamed
  have hsame : matchedEntity py mapping entity = findMatchingEntityMapping py mapping entity ↔
      AgreeAtFirst (resolverTest py entity) (explicitTest py entity) mapping.entityMappings :=
    find?_eq_find?_iff
  constructor
  · intro h
    exact ⟨fun hex => (find?_stricter_iff hstricter hex).1 (h.resolver hex), hsame.1 h.same⟩
  · rintro ⟨hfirst, hspace⟩
    have hresolver := fun hex => (find?_stricter_iff hstricter hex).2 (hfirst hex)
    refine ⟨hresolver, fun hex => ?_, hsame.2 hspace⟩
    rw [← hsame.2 hspace]
    exact hresolver hex

variable {env : Environment} {snapshots : String → Option SourceSchema} {r : Repository}

/-- The candidate of an active mapping and the query reach the same entity mapping. -/
theorem candidate_compiles_iff {model : LogicalModel} {target : LogicalEntity} {entityName : String}
    (hmapping : mapping ∈ activeMappings r model.id) {c : ResolvedSourceCandidate}
    (hc : candidateOf? env snapshots target mapping = some c) :
    (∃ mapping' em, getSourceMapping r c.mappingId = .ok mapping' ∧
      matchedEntity env.py mapping' entityName = some em ∧ c.entityMappingId = em.id) ↔
    AgreeAtFirst (mapsEntity env.py target) (resolverTest env.py entityName) mapping.entityMappings := by
  obtain ⟨em, hem, source, -, rfl⟩ := candidateOf?_eq_some.1 hc
  have hread := getSourceMapping_of_active hmapping
  rw [← find?_eq_find?_iff, hem]
  constructor
  · rintro ⟨mapping', em', hread', hmatched, hid⟩
    obtain rfl := Except.ok.inj (hread.symm.trans hread')
    have heq : em = em' := entityMapping_eq_of_id hmapping (List.mem_of_find?_eq_some hem)
      (List.mem_of_find?_eq_some hmatched) hid
    rw [heq]
    exact hmatched.symm
  · exact fun hsame => ⟨mapping, em, hread, hsame.symm, rfl⟩

theorem candidatesCompile_iff {modelId entityName : String} :
    CandidatesCompile env snapshots r modelId entityName ↔
      CandidatesAgree env r modelId entityName := by
  constructor
  · intro h model target hmodel htarget mapping hmapping hsource hex
    obtain ⟨em, hem⟩ := Option.isSome_iff_exists.1 (List.find?_isSome.2 hex)
    obtain ⟨source, hsource⟩ := Option.isSome_iff_exists.1 hsource
    have hc : candidateOf? env snapshots target mapping =
        some (candidateFor env.py target mapping source (snapshots source.id) em) :=
      candidateOf?_eq_some.2 ⟨em, hem, source, hsource, rfl⟩
    have hresult : resolveLogicalEntity env snapshots r modelId entityName =
        .ok (resolution env snapshots r model target) :=
      resolveLogicalEntity_eq_ok.2 ⟨model, target, hmodel, htarget, rfl⟩
    exact (candidate_compiles_iff hmapping hc).1
      (h _ hresult _ (List.mem_filterMap.2 ⟨mapping, hmapping, hc⟩))
  · intro h result hresult c hc
    obtain ⟨model, target, hmodel, htarget, rfl⟩ := resolveLogicalEntity_eq_ok.1 hresult
    obtain ⟨mapping, hmapping, hc⟩ := List.mem_filterMap.1 hc
    obtain ⟨em, hem, source, hsource, -⟩ := candidateOf?_eq_some.1 hc
    refine (candidate_compiles_iff hmapping hc).2 (h model target hmodel htarget mapping hmapping ?_ ?_)
    · rw [hsource]
      rfl
    · exact List.find?_isSome.1 (by rw [hem]; rfl)

/-- `orders` is the table of the invoices and, after that, a logical entity of its own. -/
def invoicesFirst : SourceMapping where
  id := "m"
  logicalModelId := "shop"
  sourceId := "db"
  status := .active
  entityMappings :=
    [{ id := "em1", sourceMappingId := "m", logicalEntityId := "e1", logicalEntityName := "Invoice"
       physicalEntityName := "orders" },
     { id := "em2", sourceMappingId := "m", logicalEntityId := "e2", logicalEntityName := "Orders"
       physicalEntityName := "t_orders" }]

end AltrStream.Planning
