import AltrStream.Application.ExplicitSource
import AltrStream.Foundations.Checks
import AltrStream.Planning.Pushdown
import AltrStream.Planning.Selector
import Mathlib.Data.List.ReduceOption
import Mathlib.Data.Prod.Lex

/-! # Federated plans

`QueryPlanner` of `planning/planner.py` and the selection of sources it rests on. A
query whose entity the registry maps is compiled for every eligible candidate (path
A), any other query for the sources that have the entity themselves (path B).
-/
namespace AltrStream.Planning
open Foundations Python QueryEngine Domain

/-! ## Sources of an entity that no model maps

`find_sources_with_physical_entity` of `application/schema_service.py` and
`synthesize_ephemeral_projection` of `planning/selector.py`: the active sources
whose latest snapshot has the entity, and the fields that are asked of all of them.
-/

inductive SourceExecutionStatus where
  | success
  | failed
  | excluded
  deriving DecidableEq, Repr

inductive SourceExclusionReason where
  | physicalEntityNotFound
  | noActiveMapping
  | incompleteFieldMapping
  | sourceCapabilityMismatch
  | sourceUnreachable
  | executionFailed
  | executionTimeout
  | normalizationFailed
  deriving DecidableEq, Repr

/-- Why a source is left out, or why it failed. -/
structure SourceExclusionInfo where
  sourceId : String
  sourceName : String
  sourceType : String
  physicalEntity : String
  status : SourceExecutionStatus := .excluded
  reasonCode : SourceExclusionReason := .physicalEntityNotFound
  message : String
  deriving DecidableEq, Repr

/-- A source with its latest snapshot and the entity of it that goes by the name. -/
structure MatchingSource where
  source : Source
  schema : SourceSchema
  entity : EntitySchema
  deriving DecidableEq, Repr

/-- A field that several sources have, with its name in each. -/
structure EphemeralFieldProjection where
  name : String
  dataType : String
  isPrimaryKey : Bool
  sourceFieldNames : Dict String String
  deriving DecidableEq, Repr

structure EphemeralLogicalProjection where
  entityName : String
  canonicalFields : List EphemeralFieldProjection
  participatingSources : List String
  excludedSources : List SourceExclusionInfo
  deriving DecidableEq, Repr

section
variable (py : Casing)

/-! ### The search for the entity -/

/-- The physical entity goes by the name, or by its plural. -/
def namesEntity (entityName : String) (entity : EntitySchema) : Bool :=
  let target := py.lower (strip entityName)
  let name := py.lower (strip entity.name)
  name = target || isPlural name (rstrip 's' target)

/-- The body of the loop over the active sources. -/
def searchSource (latestSchema : String → Option SourceSchema) (entityName : String) (src : Source) :
    Except SourceExclusionInfo MatchingSource :=
  let excluded (message : String) : SourceExclusionInfo :=
    { sourceId := src.id, sourceName := src.name, sourceType := src.type.value,
      physicalEntity := entityName, message }
  match (latestSchema src.id).filter (·.entities ≠ []) with
  | none => .error (excluded s!"No schema snapshot discovered yet for source '{src.name}'.")
  | some schema =>
    match schema.entities.find? (namesEntity py entityName) with
    | some entity => .ok ⟨src, schema, entity⟩
    | none => .error (excluded s!"Physical entity '{entityName}' not found in source '{src.name}'.")

def activeSources (sources : List Source) : List Source := sources.filter (·.status = .active)

/-- `find_sources_with_physical_entity` -/
def findSourcesWithPhysicalEntity (sources : List Source)
    (latestSchema : String → Option SourceSchema) (entityName : String) :
    List MatchingSource × List SourceExclusionInfo :=
  (successes (searchSource py latestSchema entityName) (activeSources sources),
    failures (searchSource py latestSchema entityName) (activeSources sources))

/-! ### The fields -/

/-- The fields of the entity without MongoDB's own key. -/
def MatchingSource.ownFields (m : MatchingSource) : List FieldSchema :=
  m.entity.fields.filter fun f => !(f.name = "_id" && m.source.type = .mongodb)

/-- The entry of a source in `source_field_maps`; no two sources share their id. -/
def MatchingSource.fieldMap (m : MatchingSource) : Dict String FieldSchema :=
  .ofEntries (m.ownFields.map fun f => (py.lower f.name, f))

/-- The field of the source that goes by the name, whatever its case. -/
def MatchingSource.fieldNamed (m : MatchingSource) (name : String) : Option FieldSchema :=
  (m.fieldMap py).get? (py.lower name)

/-- All sources have the field, with types that its type is compatible with. -/
def isShared (matching : List MatchingSource) (f : FieldSchema) : Bool :=
  matching.all fun m => (m.fieldNamed py f.name).any fun f' =>
    areDatatypesCompatible f.dataType f'.dataType

/-- A field of the first source, if all sources share it. -/
def sharedField (matching : List MatchingSource) (f : FieldSchema) :
    Option EphemeralFieldProjection :=
  if isShared py matching f then
    some { name := f.name, dataType := f.dataType.value, isPrimaryKey := f.isPrimaryKey,
           sourceFieldNames := .ofEntries <| matching.filterMap fun m =>
             (m.fieldNamed py f.name).map fun f' => (m.source.id, f'.name) }
  else none

/-- The check of a source for the requested fields. -/
def checkFields (referenced : List String) (m : MatchingSource) :
    Except SourceExclusionInfo MatchingSource :=
  let missing := referenced.filter fun name => (m.fieldNamed py name).isNone
  if missing ≠ [] then
    let fields := String.intercalate ", " missing
    .error
      { sourceId := m.source.id, sourceName := m.source.name, sourceType := m.source.type.value,
        physicalEntity := m.entity.name, reasonCode := .incompleteFieldMapping,
        message := s!"Physical entity '{m.entity.name}' in source '{m.source.name}' does not " ++
          s!"contain requested field(s): {fields}." }
  else .ok m

/-- A requested field; its type and its key are those of the first source. -/
def requestedField (participating : List MatchingSource) (name : String) :
    EphemeralFieldProjection :=
  let first := participating.head?.bind fun m => m.fieldNamed py name
  { name, dataType := first.elim "STRING" (·.dataType.value), isPrimaryKey := first.any (·.isPrimaryKey),
    sourceFieldNames := .ofEntries <| participating.filterMap fun m =>
      (m.fieldNamed py name).map fun f => (m.source.id, f.name) }

/-- The fields that an explicit projection asks for. -/
def LogicalPlanContext.requested (context : LogicalPlanContext) : List String :=
  if context.projectedFields ≠ [] then context.projectedFields else context.allReferencedFields

/-- The sources that take part in the projection. -/
def participants (context : LogicalPlanContext) (matching : List MatchingSource) :
    List MatchingSource :=
  if context.isWildcard then matching else successes (checkFields py context.requested) matching

/-- `synthesize_ephemeral_projection` -/
def synthesizeEphemeralProjection (context : LogicalPlanContext) (matching : List MatchingSource)
    (excluded : List SourceExclusionInfo) : EphemeralLogicalProjection :=
  let participating := participants py context matching
  { entityName := context.targetEntity
    canonicalFields :=
      if context.isWildcard then
        matching.head?.elim [] fun first => first.ownFields.filterMap (sharedField py matching)
      else if participating = [] then []
      else context.requested.map (requestedField py participating)
    participatingSources := participating.map (·.source.id)
    excludedSources :=
      if context.isWildcard then excluded
      else excluded ++ failures (checkFields py context.requested) matching }

end

variable {py : Casing} {latestSchema : String → Option SourceSchema} {entityName : String}

theorem searchSource_eq_ok {src : Source} {m : MatchingSource} :
    searchSource py latestSchema entityName src = .ok m ↔
      m.source = src ∧ latestSchema src.id = some m.schema ∧
        m.schema.entities.find? (namesEntity py entityName) = some m.entity := by
  obtain ⟨source, schema, entity⟩ := m
  unfold searchSource
  cases hschema : latestSchema src.id with
  | none => simp
  | some snapshot =>
    by_cases hempty : snapshot.entities = []
    · simp only [Option.filter, hempty, ne_eq, not_true_eq_false, decide_false]
      constructor
      · rintro ⟨⟩
      · rintro ⟨-, ⟨⟩, hfind⟩
        simp [hempty] at hfind
    · simp only [Option.filter, ne_eq, hempty, not_false_eq_true, decide_true, if_true]
      cases hfind : snapshot.entities.find? (namesEntity py entityName) with
      | none =>
        simp only [reduceCtorEq, false_iff, not_and]
        rintro - ⟨⟩
        simp [hfind]
      | some e =>
        simp only [Except.ok.injEq, MatchingSource.mk.injEq, Option.some.injEq]
        constructor
        · rintro ⟨rfl, rfl, rfl⟩
          exact ⟨rfl, rfl, hfind⟩
        · rintro ⟨rfl, rfl, h⟩
          exact ⟨rfl, rfl, Option.some.inj (hfind.symm.trans h)⟩

theorem searchSource_error_id {src : Source} {info : SourceExclusionInfo}
    (h : searchSource py latestSchema entityName src = .error info) : info.sourceId = src.id := by
  unfold searchSource at h
  split at h
  · cases h
    rfl
  · split at h
    · cases h
    · cases h
      rfl

theorem checkFields_eq_ok {referenced : List String} {m m' : MatchingSource} :
    checkFields py referenced m = .ok m' ↔
      m' = m ∧ ∀ name ∈ referenced, (m.fieldNamed py name).isSome := by
  unfold checkFields
  dsimp only
  split_ifs with h
  · simp only [false_iff, not_and]
    rintro rfl hall
    exact h (List.filter_eq_nil_iff.2 fun name hname =>
      by simpa [Option.isSome_iff_ne_none] using hall name hname)
  · have hnil := not_not.1 h
    have hall : ∀ name ∈ referenced, (m.fieldNamed py name).isSome := fun name hname =>
      by simpa [Option.isSome_iff_ne_none] using List.filter_eq_nil_iff.1 hnil name hname
    simp only [Except.ok.injEq]
    constructor
    · rintro rfl
      exact ⟨rfl, hall⟩
    · rintro ⟨rfl, -⟩
      rfl

theorem checkFields_error_id {referenced : List String} {m : MatchingSource}
    {info : SourceExclusionInfo} (h : checkFields py referenced m = .error info) :
    info.sourceId = m.source.id := by
  unfold checkFields at h
  dsimp only at h
  split_ifs at h
  cases h
  rfl

/-- A field that goes by the name is one of the source's, and has the name in some case. -/
theorem fieldNamed_eq_some {m : MatchingSource} {name : String} {f : FieldSchema}
    (h : m.fieldNamed py name = some f) :
    f ∈ m.entity.fields ∧ py.lower f.name = py.lower name := by
  rcases Dict.get?_update_cases h with h | h
  · cases h
  · obtain ⟨f', hf', heq⟩ := List.mem_map.1 h
    obtain ⟨hname, rfl⟩ := Prod.mk.inj heq
    exact ⟨List.mem_of_mem_filter hf', hname⟩

theorem fieldNamed_isSome {m : MatchingSource} {name : String} :
    (m.fieldNamed py name).isSome ↔ ∃ f ∈ m.entity.fields,
      (f.name = "_id" → m.source.type ≠ .mongodb) ∧ py.lower f.name = py.lower name := by
  constructor
  · intro h
    obtain ⟨f, hf⟩ := Option.isSome_iff_exists.1 h
    rcases Dict.get?_update_cases hf with hf | hf
    · cases hf
    · obtain ⟨f', hf', heq⟩ := List.mem_map.1 hf
      obtain ⟨hname, rfl⟩ := Prod.mk.inj heq
      obtain ⟨hmem, hown⟩ := List.mem_filter.1 hf'
      exact ⟨f', hmem, by simpa [not_or, imp_iff_not_or] using hown, hname⟩
  · rintro ⟨f, hf, hown, hname⟩
    refine Dict.get?_update_isSome (.inr ⟨f, List.mem_map.2 ⟨f, List.mem_filter.2 ⟨hf, ?_⟩, ?_⟩⟩)
    · simpa [imp_iff_not_or] using hown
    · rw [hname]

end AltrStream.Planning

/-! ## The planner -/
namespace AltrStream.Planning
open Foundations Python QueryEngine Domain Registry Application Semantics

instance : Keyed Source String := ⟨(·.id)⟩

/-- What planning fails with. -/
inductive PlanningError where
  | stream (e : AltrStreamError)
  | engine (e : PyError)
  | noActiveSourceMapping (entityName modelId : String)
  | incompleteFieldMapping (entityName : String) (unmappedFields : List String)
  | sourceCapabilityMismatch (entityName capability : String)
  | physicalEntityNotFound (entityName : String)
  | missingPlanningContext (message : String)
  deriving DecidableEq, Repr

def PlanningError.message : PlanningError → String
  | stream e => e.message
  | engine e => e.message
  | noActiveSourceMapping entity model =>
    s!"No ACTIVE source mapping found for entity '{entity}' in logical model '{model}'."
  | incompleteFieldMapping entity fields =>
    let quoted := String.intercalate ", " (fields.map fun f => s!"'{f}'")
    s!"No candidate source mapping covers all required logical field(s): {quoted} on entity " ++
      s!"'{entity}'."
  | sourceCapabilityMismatch entity capability =>
    s!"No active source mapping for entity '{entity}' supports required capability '{capability}'."
  | physicalEntityNotFound entity =>
    s!"Entity '{entity}' was not found in any active logical model or registered physical source " ++
      "schema."
  | missingPlanningContext message => message

/-- A query compiled for one source. -/
structure PhysicalQueryPlan where
  logicalModelId : String
  targetEntity : String
  selectedSourceId : String
  selectedSourceName : String
  selectedSourceType : SourceType
  selectedMappingId : String
  physicalEntityName : String
  resolvedIr : AltrQueryIR
  boundIr : BoundAltrQueryIR
  classification : MutationClassification
  physicalQuery : Lowered
  maps : FieldMaps
  candidatesEvaluated : List CandidateEvaluation

structure FederatedQueryPlan where
  logicalModelId : String
  targetEntity : String
  logicalIr : AltrQueryIR
  physicalPlans : List PhysicalQueryPlan
  candidatesEvaluated : List CandidateEvaluation
  excludedSources : List SourceExclusionInfo
  isEphemeral : Bool
  ephemeralProjection : Option EphemeralLogicalProjection := none

/-- The services that a planner asks; sources are listed newest first. -/
structure QueryPlanner where
  env : Environment
  registry : Repository
  sources : Table Source
  source?_eq : env.source? = sources.find?
  latestSchema : String → Option SourceSchema
  clock : Clock

/-! ### Selection -/

section
variable (py : Casing)

/-- By the source, then by the mapping. -/
def candidateKey (c : ResolvedSourceCandidate) : Lex (String × String) :=
  toLex (c.sourceId, c.mappingId)

/-- `select_all_eligible_sources` -/
def selectAllEligibleSources (context : LogicalPlanContext)
    (candidates : List ResolvedSourceCandidate) :
    Except PlanningError (List ResolvedSourceCandidate × List CandidateEvaluation) :=
  let model := context.logicalModelId.getD "None"
  let (eligible, evaluations) := evaluateCandidates py context candidates
  let unmapped := (evaluations.flatMap (·.unmappedFields)).dedup
  let missing := (evaluations.flatMap (·.missingCapabilities)).dedup
  if candidates = [] then .error (.noActiveSourceMapping context.targetEntity model)
  else if eligible ≠ [] then .ok (sortedBy candidateKey eligible, evaluations)
  else if unmapped ≠ [] then
    .error (.incompleteFieldMapping context.targetEntity (sortedBy id unmapped))
  else if missing ≠ [] then
    .error (.sourceCapabilityMismatch context.targetEntity
      (String.intercalate ", " (sortedBy id missing)))
  else .error (.noActiveSourceMapping context.targetEntity model)

/-- `select_source` -/
def selectSource (context : LogicalPlanContext) (candidates : List ResolvedSourceCandidate) :
    Except PlanningError (Option ResolvedSourceCandidate × List CandidateEvaluation) :=
  (selectAllEligibleSources py context candidates).map fun (sorted, evaluations) =>
    (sorted.head?, evaluations)

end

/-- The diagnostics of a candidate that is not eligible. -/
def exclusionOf (ev : CandidateEvaluation) : SourceExclusionInfo where
  sourceId := ev.sourceId
  sourceName := ev.sourceName
  sourceType := ev.sourceType.value
  physicalEntity := ev.physicalEntityName
  reasonCode :=
    if ev.unmappedFields ≠ [] then .incompleteFieldMapping
    else if ev.missingCapabilities ≠ [] then .sourceCapabilityMismatch
    else .noActiveMapping
  message := (given ev.rejectionReason).getD "Source candidate is not eligible."

/-- The dictionaries of a plan whose fields have these logical and physical names. -/
def fieldMapsBetween (names : List (String × String)) : FieldMaps where
  logicalToPhysical := .ofEntries names
  physicalToLogical := .ofEntries (names.map Prod.swap)

namespace QueryPlanner

variable (planner : QueryPlanner)

/-- `get_latest_schema` -/
def getLatestSchema (sourceId : String) : Except PlanningError (Option SourceSchema) :=
  match planner.env.source? sourceId with
  | some _ => .ok (planner.latestSchema sourceId)
  | none => .error (.stream (.sourceNotFound sourceId))

/-- An IR over logical names, compiled through a mapping for a source of a type. -/
def compile (ir : AltrQueryIR) (mapping : SourceMapping) (schema : SourceSchema) (type : SourceType) :
    Except PlanningError (AltrQueryIR × BoundAltrQueryIR × Lowered) := do
  let resolved ← (resolveLogicalIr planner.env.py ir mapping).mapError .stream
  let bound ← (bindAltrql resolved schema).mapError .engine
  let lowered ← (lowerFor planner.clock type bound).mapError .engine
  return (resolved, bound, lowered)

/-! ### Path A -/

/-- The candidates of the registry; there are none where it does not know the model or the entity. -/
def registeredCandidates (logicalModelId : Option String) (entity : String) :
    List ResolvedSourceCandidate :=
  match given logicalModelId with
  | none => []
  | some modelId =>
    match resolveLogicalEntity planner.env planner.latestSchema planner.registry modelId entity with
    | .ok result => result.candidates
    | .error _ => []

/-- The plan of a candidate, from the query compiled for it. -/
def planOfCandidate (ir : AltrQueryIR) (logicalModelId : String)
    (evaluations : List CandidateEvaluation) (c : ResolvedSourceCandidate)
    (compiled : AltrQueryIR × BoundAltrQueryIR × Lowered) : PhysicalQueryPlan where
  logicalModelId := logicalModelId
  targetEntity := ir.entity
  selectedSourceId := c.sourceId
  selectedSourceName := c.sourceName
  selectedSourceType := c.sourceType
  selectedMappingId := c.mappingId
  physicalEntityName := c.physicalEntityName
  resolvedIr := compiled.1
  boundIr := compiled.2.1
  classification := classifyQuery compiled.2.1
  physicalQuery := compiled.2.2
  maps := fieldMapsBetween (c.fieldMappings.map fun fm => (fm.logicalFieldName, fm.physicalFieldName))
  candidatesEvaluated := evaluations

/-- The body of the loop over the eligible candidates. -/
def planCandidate (ir : AltrQueryIR) (logicalModelId : String)
    (evaluations : List CandidateEvaluation) (c : ResolvedSourceCandidate) :
    Except PlanningError (Option PhysicalQueryPlan) := do
  let mapping ← (getSourceMapping planner.registry c.mappingId).mapError .stream
  if mapping.status ≠ .active then return none
  match ← planner.getLatestSchema c.sourceId with
  | none => return none
  | some schema =>
    let compiled ← planner.compile (federatedPlanIr ir) mapping schema c.sourceType
    return some (planOfCandidate ir logicalModelId evaluations c compiled)

/-- The plan over the candidates of the registry. -/
def planRegistered (ir : AltrQueryIR) (logicalModelId : Option String)
    (candidates : List ResolvedSourceCandidate) : Except PlanningError FederatedQueryPlan := do
  let context := extractLogicalContext planner.env.py ir logicalModelId
  let modelId := logicalModelId.getD "None"
  let (eligible, evaluations) ← selectAllEligibleSources planner.env.py context candidates
  let plans ← eligible.mapM (planner.planCandidate ir modelId evaluations)
  raiseIf (plans.reduceOption.isEmpty) (.noActiveSourceMapping ir.entity modelId)
  return { logicalModelId := modelId, targetEntity := ir.entity, logicalIr := ir
           physicalPlans := plans.reduceOption, candidatesEvaluated := evaluations
           excludedSources := (evaluations.filter fun ev => !ev.isEligible).map exclusionOf
           isEphemeral := false }

/-! ### Path B -/

/-- The fields of the projection that a source has, with their names there. -/
def ephemeralNames (projection : EphemeralLogicalProjection) (sourceId : String) :
    List (String × String) :=
  projection.canonicalFields.filterMap fun efp =>
    (efp.sourceFieldNames.get? sourceId).map (efp.name, ·)

/-- The mapping that a source is given for one query. -/
def ephemeralMapping (ir : AltrQueryIR) (logicalModelId : Option String)
    (projection : EphemeralLogicalProjection) (m : MatchingSource) : SourceMapping :=
  let modelId := (given logicalModelId).getD "ephemeral"
  let emId := s!"ephemeral_em_{m.source.id}_{m.entity.name}"
  let smId := s!"ephemeral_sm_{m.source.id}_{modelId}"
  { id := smId, logicalModelId := modelId, sourceId := m.source.id, status := .active
    provenance := .system
    entityMappings :=
      [{ id := emId, sourceMappingId := smId, logicalEntityId := ir.entity
         logicalEntityName := ir.entity, physicalEntityName := m.entity.name
         fieldMappings := (ephemeralNames projection m.source.id).map fun (name, column) =>
           { id := "", entityMappingId := emId, logicalFieldId := s!"ephemeral_lf_{name}"
             logicalFieldName := name, physicalFieldName := column } }] }

def ephemeralEvaluation (mapping : SourceMapping) (m : MatchingSource) : CandidateEvaluation where
  sourceId := m.source.id
  sourceName := m.source.name
  sourceType := m.source.type
  mappingId := mapping.id
  physicalEntityName := m.entity.name
  isEligible := true

/-- The plan of a source, from the query compiled for it. -/
def planOfMatching (ir : AltrQueryIR) (logicalModelId : Option String)
    (projection : EphemeralLogicalProjection) (m : MatchingSource)
    (compiled : AltrQueryIR × BoundAltrQueryIR × Lowered) : PhysicalQueryPlan :=
  let mapping := ephemeralMapping ir logicalModelId projection m
  { logicalModelId := (given logicalModelId).getD "ephemeral"
    targetEntity := ir.entity
    selectedSourceId := m.source.id
    selectedSourceName := m.source.name
    selectedSourceType := m.source.type
    selectedMappingId := mapping.id
    physicalEntityName := m.entity.name
    resolvedIr := compiled.1
    boundIr := compiled.2.1
    classification := classifyQuery compiled.2.1
    physicalQuery := compiled.2.2
    maps := fieldMapsBetween (ephemeralNames projection m.source.id)
    candidatesEvaluated := [ephemeralEvaluation mapping m] }

/-- The body of the loop over the sources that take part. -/
def planMatching (ir : AltrQueryIR) (logicalModelId : Option String)
    (projection : EphemeralLogicalProjection) (m : MatchingSource) :
    Except PlanningError PhysicalQueryPlan := do
  let mapping := ephemeralMapping ir logicalModelId projection m
  let compiled ← planner.compile (federatedPlanIr ir) mapping m.schema m.source.type
  return planOfMatching ir logicalModelId projection m compiled

/-- The plan over the sources that have the entity themselves. -/
def planDiscovered (ir : AltrQueryIR) (logicalModelId : Option String) :
    Except PlanningError FederatedQueryPlan := do
  let py := planner.env.py
  let context := extractLogicalContext py ir logicalModelId
  let (matching, excluded) :=
    findSourcesWithPhysicalEntity py planner.sources.rows planner.latestSchema ir.entity
  raiseIf (matching = [] ∧ excluded ≠ []) <| .physicalEntityNotFound
    s!"Physical entity '{ir.entity}' was not found in any active physical data source."
  raiseIf (matching = []) (.noActiveSourceMapping ir.entity (logicalModelId.getD ""))
  let projection := synthesizeEphemeralProjection py context matching excluded
  let noFields := projection.participatingSources = [] ∨ projection.canonicalFields = []
  raiseIf (noFields ∧ context.projectedFields ≠ [])
    (.incompleteFieldMapping ir.entity context.projectedFields)
  raiseIf noFields <| .physicalEntityNotFound <|
    "No common fields could be synthesized across candidate sources for physical entity " ++
      s!"'{ir.entity}'."
  let sorted := sortedBy (·.source.id)
    (matching.filter fun m => m.source.id ∈ projection.participatingSources)
  let plans ← sorted.mapM (planner.planMatching ir logicalModelId projection)
  raiseIf plans.isEmpty <| .physicalEntityNotFound
    s!"No physical plans could be compiled for discovered physical entity '{ir.entity}'."
  return { logicalModelId := (given logicalModelId).getD "ephemeral", targetEntity := ir.entity
           logicalIr := ir, physicalPlans := plans
           candidatesEvaluated := plans.flatMap (·.candidatesEvaluated)
           excludedSources := projection.excludedSources, isEphemeral := true
           ephemeralProjection := some projection }

/-- `create_federated_plan` -/
def createFederatedPlan (ir : AltrQueryIR) (logicalModelId : Option String) :
    Except PlanningError FederatedQueryPlan :=
  let candidates := planner.registeredCandidates logicalModelId ir.entity
  if candidates ≠ [] then planner.planRegistered ir logicalModelId candidates
  else planner.planDiscovered ir logicalModelId

/-- `create_physical_plan` -/
def createPhysicalPlan (ir : AltrQueryIR) (logicalModelId : String) :
    Except PlanningError (Option PhysicalQueryPlan) :=
  (planner.createFederatedPlan ir (some logicalModelId)).map (·.physicalPlans.head?)

end QueryPlanner

end AltrStream.Planning
