import AltrStream.Foundations.Traced
import AltrStream.Lowering.Selects
import AltrStream.Planning.Discovered
import AltrStream.QueryEngine.Identifiers
import AltrStream.Connectors.Find
import AltrStream.QueryEngine.BindSound

/-! # AltrQL requests that name no source

The federated path of `execute_altrql_query` in `routes/altrql.py`. The query of a
request is planned for several sources and sent to each of them within an error
boundary of its own, and the rows of the sources that answer are merged. Only reads
are sent, and the answer tells of every source that was considered.
-/
namespace AltrStream.Application
open Foundations Python Domain QueryEngine Lowering Registry Planning Security

/-- What the route works with, all in one process. -/
structure FederatedSite (V : Type) where
  u : Unicode
  rt : Runtime V
  planner : QueryPlanner
  casing : planner.env.py = rt.py
  /-- The rows that `QueryService` answers to a query that is sent to a source. -/
  answers : String → Lowered → Except QueryError (List (Row V))

/-- `AltrQLExecuteRequestDTO` without a source. -/
structure FederatedRequest where
  query : String
  logicalModelId : Option String := none

/-- What a request is answered with when it fails. -/
inductive FederatedError where
  | engine (e : PyError)
  | forbidden (operation : QueryOperation)
  | mutation (operation : QueryOperation)
  | planning (e : PlanningError)
  | allFailed (message : String)
  | unexpected (message : String)

/-- A source that answered. -/
structure SourceExecutionInfo where
  sourceId : String
  sourceName : String
  sourceType : String
  physicalEntity : String
  status : SourceExecutionStatus
  rows : ℕ

structure FederatedAnswer (V : Type) where
  boundIr : BoundAltrQueryIR
  classification : MutationClassification
  physicalQueries : List Lowered
  columns : List String
  rows : List (Row V)
  sourcesExecuted : List String
  sourceNamesExecuted : List String
  message : String
  isEphemeral : Bool
  included : List SourceExecutionInfo
  excluded : List SourceExclusionInfo

abbrev FederatedRoute := Traced RouteAction FederatedError

/-! ### The model of a request -/

section
variable (py : Casing) (r : Repository)

/-- The model has the entity, or one of its active mappings goes by the name. -/
def definesEntity (entityName : String) (m : LogicalModel) : Bool :=
  let target := py.lower (strip entityName)
  ((m.getEntityByName py entityName).or (m.getEntityById entityName)).isSome ||
    ((r.listSourceMappings (some m.id) none).filter (·.status = .active)).any fun sm =>
      sm.entityMappings.any (goesBy py target (rstrip 's' target))

/-- `_resolve_logical_model_id` -/
def resolveLogicalModelId (entityName : String) (explicitModelId : Option String) :
    Except PlanningError String :=
  match given explicitModelId with
  | some modelId =>
    match getModel py r modelId with
    | .ok model => .ok model.id
    | .error _ => .ok modelId
  | none =>
    match r.listModels.filter (definesEntity py r entityName), r.listModels with
    | [model], _ => .ok model.id
    | [], [model] => .ok model.id
    | [], _ => .ok ""
    | matching, _ =>
      let names := String.intercalate ", " (matching.map (·.name))
      .error <| .missingPlanningContext <|
        s!"Entity '{entityName}' is defined in multiple logical models ({names}). " ++
          "Please specify 'logical_model_id'."

end

/-! ### The sources -/

/-- Why a source failed, by the text of its exception. -/
def failureReason (py : Casing) (message : String) : SourceExclusionReason :=
  let lower := py.lower message
  if isIn "timeout" lower then .executionTimeout
  else if ["connect", "unreachable", "refused", "server closed", "cannot connect", "socket"].any
      (isIn · lower) then .sourceUnreachable
  else if isIn "normalize" lower then .normalizationFailed
  else .executionFailed

section
variable {V : Type}

def executionInfo (plan : PhysicalQueryPlan) (rows : List (Row V)) : SourceExecutionInfo where
  sourceId := plan.selectedSourceId
  sourceName := plan.selectedSourceName
  sourceType := plan.selectedSourceType.value
  physicalEntity := plan.physicalEntityName
  status := .success
  rows := rows.length

def failureInfo (py : Casing) (plan : PhysicalQueryPlan) (message : String) : SourceExclusionInfo where
  sourceId := plan.selectedSourceId
  sourceName := plan.selectedSourceName
  sourceType := plan.selectedSourceType.value
  physicalEntity := plan.physicalEntityName
  status := .failed
  reasonCode := failureReason py message
  message := s!"Execution failed on source '{plan.selectedSourceName}': {message}"

namespace FederatedSite

variable (site : FederatedSite V)

/-- What becomes of a plan that is executed. -/
def outcome (plan : PhysicalQueryPlan) :
    Except SourceExclusionInfo (PhysicalQueryPlan × List (Row V)) :=
  match site.answers plan.selectedSourceId plan.physicalQuery with
  | .ok rows => .ok (plan, rows)
  | .error e => .error (failureInfo site.rt.py plan e.message)

/-- `_execute_single_source_isolated` -/
def executeIsolated (plan : PhysicalQueryPlan) :
    FederatedRoute (Except SourceExclusionInfo (PhysicalQueryPlan × List (Row V))) := do
  Traced.act (.execute plan.selectedSourceId plan.physicalQuery)
  return site.outcome plan

/-- `asyncio.gather` over the plans. -/
def executeAll : List PhysicalQueryPlan →
    FederatedRoute (List (Except SourceExclusionInfo (PhysicalQueryPlan × List (Row V))))
  | [] => pure []
  | plan :: plans => do
    let result ← site.executeIsolated plan
    let results ← executeAll plans
    return result :: results

/-- The answer that is made of the results of the plans. -/
def answerOf (ir : AltrQueryIR) (plan : FederatedQueryPlan) (first : PhysicalQueryPlan)
    (answered : List (PhysicalQueryPlan × List (Row V))) (failed : List SourceExclusionInfo) :
    FederatedAnswer V :=
  let merged := mergeFederatedResults site.rt ir (plan.physicalPlans.map (·.maps))
    (answered.map fun (p, rows) => (p.maps, rows))
  { boundIr := first.boundIr
    classification := first.classification
    physicalQueries := plan.physicalPlans.map (·.physicalQuery)
    columns := merged.1
    rows := merged.2
    sourcesExecuted := answered.map (·.1.selectedSourceId)
    sourceNamesExecuted := answered.map fun (p, _) => orText p.selectedSourceName p.selectedSourceId
    message := s!"Federated query executed successfully across {answered.length} sources " ++
      s!"({failed.length} failed, {plan.excludedSources.length} excluded)."
    isEphemeral := plan.isEphemeral
    included := answered.map fun (p, rows) => executionInfo p rows
    excluded := plan.excludedSources ++ failed }

/-- What is answered when every source has answered or failed. -/
def conclude (ir : AltrQueryIR) (plan : FederatedQueryPlan)
    (results : List (Except SourceExclusionInfo (PhysicalQueryPlan × List (Row V)))) :
    Except FederatedError (FederatedAnswer V) := do
  let answered := successes id results
  let failed := failures id results
  raiseIf (answered = [] ∧ plan.physicalPlans ≠ []) <| .allFailed <|
    s!"All {plan.physicalPlans.length} candidate sources failed during query execution: " ++
      String.intercalate "; " (failed.map (·.message))
  match plan.physicalPlans with
  | [] => .error (.unexpected "list index out of range")
  | first :: _ => return site.answerOf ir plan first answered failed

/-- `execute_altrql_query` without a source. -/
def executeAltrqlQuery (request : FederatedRequest) (authKey : Option ApiKeyModel) :
    FederatedRoute (FederatedAnswer V) := do
  let ir ← Traced.answer <| (parseAltrql site.u request.query).mapError .engine
  Traced.ensure (scopeGate ir.operation authKey) (.forbidden ir.operation)
  Traced.ensure (ir.operation = .read) (.mutation ir.operation)
  let modelId ← Traced.answer <| Except.mapError .planning <|
    resolveLogicalModelId site.planner.env.py site.planner.registry ir.entity request.logicalModelId
  let plan ← Traced.answer <| Except.mapError .planning <|
    site.planner.createFederatedPlan ir (some modelId)
  let results ← site.executeAll plan.physicalPlans
  Traced.answer (site.conclude ir plan results)

end FederatedSite

end

/-! ### What is promised -/

/-- The lowered query only reads. -/
def Lowered.reads : Lowered → Bool
  | .sql (.single q) =>
    match q.statement with
    | .select .. => true
    | _ => false
  | .sql (.batch ..) => false
  | .mongodb q =>
    match q.command with
    | .find .. => true
    | _ => false

namespace FederatedSite

variable {V : Type} (site : FederatedSite V) (request : FederatedRequest)

/-- The plan that the request is executed by. -/
def Planned (ir : AltrQueryIR) (modelId : String) (plan : FederatedQueryPlan) : Prop :=
  parseAltrql site.u request.query = .ok ir ∧ ir.operation = .read ∧
    resolveLogicalModelId site.planner.env.py site.planner.registry ir.entity
      request.logicalModelId = .ok modelId ∧
    site.planner.createFederatedPlan ir (some modelId) = .ok plan

/-- What the answer tells of the sources, and where its rows are from. -/
structure Reports (ir : AltrQueryIR) (modelId : String) (plan : FederatedQueryPlan)
    (answer : FederatedAnswer V) : Prop where
  /-- The sources of the plan that answered are included, in their order and with their rows. -/
  included : answer.included.map (fun info => (info.sourceId, info.rows)) =
    plan.physicalPlans.filterMap fun p =>
      (site.answers p.selectedSourceId p.physicalQuery).toOption.map
        fun rows => (p.selectedSourceId, rows.length)
  /-- Every source of the plan that did not answer is told of, beside those excluded before. -/
  nothingLost : (answer.included.map (·.sourceId) ++ answer.excluded.map (·.sourceId)).Perm
    (plan.physicalPlans.map (·.selectedSourceId) ++ plan.excludedSources.map (·.sourceId))
  /-- Of the candidates of the registry only those of sources without a snapshot are not told of. -/
  registered : site.planner.registeredCandidates (some modelId) ir.entity ≠ [] →
    ((answer.included.map (·.sourceId) ++ answer.excluded.map (·.sourceId)) ++
      ((site.planner.registeredCandidates (some modelId) ir.entity).filter fun c =>
        site.planner.Eligible ir (some modelId) c ∧ ¬ site.planner.HasSnapshot c).map
          (·.sourceId)).Perm
      ((site.planner.registeredCandidates (some modelId) ir.entity).map (·.sourceId))
  /-- Without candidates in the registry every active source is told of. -/
  discovered : site.planner.registeredCandidates (some modelId) ir.entity = [] →
    (answer.included.map (·.sourceId) ++ answer.excluded.map (·.sourceId)).Perm
      ((activeSources site.planner.sources.rows).map (·.id))
  /-- The rows are the window of the rows of the sources that answered, in some order. -/
  rows : ∃ all : List (Row V), answer.rows = globalWindow ir all ∧
    all.Perm (plan.physicalPlans.flatMap fun p =>
      (site.answers p.selectedSourceId p.physicalQuery).toOption.elim []
        fun rows => rows.map (mergedRow site.rt ir p.maps))

/-- A request without a source reads from the sources of its plan and reports on all of them. -/
structure Federates (authKey : Option ApiKeyModel) : Prop where
  /-- Whatever comes of the request, only reads are sent. -/
  reads : ∀ event ∈ (site.executeAltrqlQuery request authKey).events,
    ∃ sourceId query, event = .execute sourceId query ∧ query.reads = true
  /-- Nothing is sent before there is a plan. -/
  silent : (∀ ir modelId plan, ¬ site.Planned request ir modelId plan) →
    (site.executeAltrqlQuery request authKey).events = []
  /-- Each plan is executed once, whatever the other sources answer. -/
  sent : ∀ ir modelId plan, site.Planned request ir modelId plan →
    (site.executeAltrqlQuery request authKey).events =
      plan.physicalPlans.map fun p => .execute p.selectedSourceId p.physicalQuery
  /-- There is an answer exactly if there is a plan and one of its sources answers. -/
  answers : (∃ answer, (site.executeAltrqlQuery request authKey).result = .ok answer) ↔
    ∃ ir modelId plan, site.Planned request ir modelId plan ∧
      ∃ p ∈ plan.physicalPlans, ∃ rows, site.answers p.selectedSourceId p.physicalQuery = .ok rows
  reports : ∀ answer, (site.executeAltrqlQuery request authKey).result = .ok answer →
    ∀ ir modelId plan, site.Planned request ir modelId plan → site.Reports ir modelId plan answer

/-! ### The plans of a query -/

section
variable {planner : QueryPlanner} {ir : AltrQueryIR} {logicalModelId : Option String}
  {plan : FederatedQueryPlan}

/-- Candidates are planned where there are any. -/
theorem accountsFor_of_created (h : planner.registeredCandidates logicalModelId ir.entity ≠ [])
    (hplan : planner.createFederatedPlan ir logicalModelId = .ok plan) :
    planner.AccountsFor ir logicalModelId
      (planner.registeredCandidates logicalModelId ir.entity) plan :=
  (QueryPlanner.planRegistered_settles.of_eq_ok ((if_pos h).symm.trans hplan)).2

theorem plansTaking_of_created (h : planner.registeredCandidates logicalModelId ir.entity = [])
    (hplan : planner.createFederatedPlan ir logicalModelId = .ok plan) :
    planner.PlansTaking ir logicalModelId plan :=
  (QueryPlanner.planDiscovered_settles.of_eq_ok ((if_neg (not_not.2 h)).symm.trans hplan)).2

/-- Every plan is compiled through its mapping from the query that sources are given. -/
theorem compiled_of_created (hplan : planner.createFederatedPlan ir logicalModelId = .ok plan)
    {p : PhysicalQueryPlan} (hp : p ∈ plan.physicalPlans) : ∃ mapping schema,
      mapping.id = p.selectedMappingId ∧
      planner.compile (federatedPlanIr ir) mapping schema p.selectedSourceType =
        .ok (p.resolvedIr, p.boundIr, p.physicalQuery) := by
  by_cases h : planner.registeredCandidates logicalModelId ir.entity = []
  · obtain ⟨m, -, hplanFor⟩ := (plansTaking_of_created h hplan).compiled p hp
    exact ⟨_, _, hplanFor.mapping.symm, by rw [hplanFor.type]; exact hplanFor.compiled⟩
  · obtain ⟨c, -, -, hplanOf⟩ := (accountsFor_of_created h hplan).sound p hp
    obtain ⟨mapping, schema, hmapping, -, hcompiled⟩ := hplanOf.compiled
    refine ⟨mapping, schema, ?_, by rw [hplanOf.type]; exact hcompiled⟩
    rw [hplanOf.mapping]
    exact (mem_of_getSourceMapping hmapping).2.1

theorem compile_eq_ok {mapping : SourceMapping} {schema : SourceSchema} {type : SourceType}
    {resolved : AltrQueryIR} {bound : BoundAltrQueryIR} {lowered : Lowered} :
    planner.compile ir mapping schema type = .ok (resolved, bound, lowered) ↔
      resolveLogicalIr planner.env.py ir mapping = .ok resolved ∧
        bindAltrql resolved schema = .ok bound ∧ lowerFor planner.clock type bound = .ok lowered := by
  simp only [QueryPlanner.compile, bind_eq_ok, mapError_eq_ok, pure_eq_ok, Prod.mk.injEq]
  constructor
  · rintro ⟨_, hresolve, _, hbind, _, hlower, rfl, rfl, rfl⟩
    exact ⟨hresolve, hbind, hlower⟩
  · rintro ⟨hresolve, hbind, hlower⟩
    exact ⟨_, hresolve, _, hbind, _, hlower, rfl, rfl, rfl⟩

/-- A READ is lowered to a SELECT or to a find. -/
theorem reads_of_lowerFor {clock : Semantics.Clock} {type : SourceType} {bound : BoundAltrQueryIR}
    {lowered : Lowered} (hread : bound.operation = .read)
    (h : lowerFor clock type bound = .ok lowered) : lowered.reads = true := by
  have hsql : ∀ src : SqlSource, .sql <$> src.lowerer.lower bound = .ok lowered →
      lowered.reads = true := by
    intro src h
    obtain ⟨r, hr, rfl⟩ := map_eq_ok.1 h
    obtain ⟨q, rfl, -⟩ := src.lowerer.single_of_lower (by simp [hread]) hr
    obtain ⟨w, parameters, -, rfl⟩ := (src.lowerer.lower_read_iff hread q).1 hr
    rfl
  cases type with
  | postgresql => exact hsql .postgresql h
  | mysql => exact hsql .mysql h
  | sqlite => exact hsql .sqlite h
  | mongodb =>
    obtain ⟨q, hq, rfl⟩ := map_eq_ok.1 h
    simp only [MongoDB.lower, MongoDB.lowerCommand, hread, bind_eq_ok, pure_eq_ok] at hq
    obtain ⟨_, ⟨filter, -, rfl⟩, rfl⟩ := hq
    rfl

theorem reads_of_created (hread : ir.operation = .read)
    (hplan : planner.createFederatedPlan ir logicalModelId = .ok plan) {p : PhysicalQueryPlan}
    (hp : p ∈ plan.physicalPlans) : p.physicalQuery.reads = true := by
  obtain ⟨mapping, schema, -, hcompiled⟩ := compiled_of_created hplan hp
  obtain ⟨hresolve, hbind, hlower⟩ := compile_eq_ok.1 hcompiled
  refine reads_of_lowerFor ?_ hlower
  rw [(bindAltrql_window hbind).1, (resolveLogicalIr_window hresolve).1]
  exact hread

end

/-! ### The route -/

variable {site : FederatedSite V} {request : FederatedRequest} {authKey : Option ApiKeyModel}

theorem executeAll_eq (plans : List PhysicalQueryPlan) : site.executeAll plans =
    ⟨plans.map fun p => .execute p.selectedSourceId p.physicalQuery,
      .ok (plans.map site.outcome)⟩ := by
  induction plans with
  | nil => rfl
  | cons p plans ih =>
    rw [executeAll, ih, executeIsolated, Traced.act_bind]
    simp

section
variable {ir : AltrQueryIR} {modelId : String} {plan : FederatedQueryPlan}

theorem Planned.unique (h : site.Planned request ir modelId plan) {ir' : AltrQueryIR}
    {modelId' : String} {plan' : FederatedQueryPlan} (h' : site.Planned request ir' modelId' plan') :
    ir = ir' ∧ modelId = modelId' ∧ plan = plan' := by
  obtain ⟨hparse, -, hmodel, hplan⟩ := h
  obtain ⟨hparse', -, hmodel', hplan'⟩ := h'
  obtain rfl := Except.ok.inj (hparse.symm.trans hparse')
  obtain rfl := Except.ok.inj (hmodel.symm.trans hmodel')
  exact ⟨rfl, rfl, Except.ok.inj (hplan.symm.trans hplan')⟩

theorem run_of_planned (h : site.Planned request ir modelId plan) :
    site.executeAltrqlQuery request authKey =
      ⟨plan.physicalPlans.map fun p => .execute p.selectedSourceId p.physicalQuery,
        site.conclude ir plan (plan.physicalPlans.map site.outcome)⟩ := by
  obtain ⟨hparse, hread, hmodel, hplan⟩ := h
  have hgate : scopeGate .read authKey = true := rfl
  unfold executeAltrqlQuery
  rw [hparse]
  simp only [Except.mapError, Traced.answer, Traced.ensure, hgate, hread, if_true, hmodel, hplan,
    Traced.mk_ok_bind, executeAll_eq, List.nil_append, List.append_nil]

end

theorem planned_of_event {event : RouteAction}
    (h : event ∈ (site.executeAltrqlQuery request authKey).events) :
    ∃ ir modelId plan, site.Planned request ir modelId plan := by
  simp only [executeAltrqlQuery, Traced.mem_events_bind, Traced.events_answer, Traced.events_ensure,
    Traced.result_answer, Traced.result_ensure_eq_ok, List.not_mem_nil, false_or, mapError_eq_ok] at h
  obtain ⟨ir, hparse, _, -, _, hread, modelId, hmodel, plan, hplan, -⟩ := h
  exact ⟨ir, modelId, plan, hparse, hread, hmodel, hplan⟩

theorem planned_of_result {answer : FederatedAnswer V}
    (h : (site.executeAltrqlQuery request authKey).result = .ok answer) :
    ∃ ir modelId plan, site.Planned request ir modelId plan := by
  simp only [executeAltrqlQuery, Traced.result_bind_eq_ok, Traced.result_answer,
    Traced.result_ensure_eq_ok, mapError_eq_ok] at h
  obtain ⟨ir, hparse, _, -, _, hread, modelId, hmodel, plan, hplan, -⟩ := h
  exact ⟨ir, modelId, plan, hparse, hread, hmodel, hplan⟩

/-! ### The report -/

theorem outcome_eq_ok {p : PhysicalQueryPlan} {result : PhysicalQueryPlan × List (Row V)} :
    site.outcome p = .ok result ↔
      result.1 = p ∧ site.answers p.selectedSourceId p.physicalQuery = .ok result.2 := by
  unfold outcome
  cases site.answers p.selectedSourceId p.physicalQuery with
  | ok rows =>
    rw [Except.ok.injEq, Except.ok.injEq, Prod.ext_iff]
    exact and_congr_left' eq_comm
  | error e => simp

theorem outcome_error_id {p : PhysicalQueryPlan} {info : SourceExclusionInfo}
    (h : site.outcome p = .error info) : info.sourceId = p.selectedSourceId := by
  unfold outcome at h
  cases hanswer : site.answers p.selectedSourceId p.physicalQuery with
  | ok rows =>
    rw [hanswer] at h
    cases h
  | error e =>
    rw [hanswer] at h
    cases h
    rfl

theorem successes_outcome (plans : List PhysicalQueryPlan) : successes id (plans.map site.outcome) =
    plans.filterMap fun p => (site.answers p.selectedSourceId p.physicalQuery).toOption.map (p, ·) := by
  rw [successes, List.filterMap_map]
  refine List.filterMap_congr fun p _ => ?_
  simp only [Function.comp_apply, id_eq, outcome]
  cases site.answers p.selectedSourceId p.physicalQuery <;> rfl

theorem failures_outcome (plans : List PhysicalQueryPlan) :
    failures id (plans.map site.outcome) = failures site.outcome plans := by
  rw [failures, List.filterMap_map]
  rfl

section
variable {ir : AltrQueryIR} {modelId : String} {plan : FederatedQueryPlan} {answer : FederatedAnswer V}

theorem conclude_eq_ok : site.conclude ir plan (plan.physicalPlans.map site.outcome) = .ok answer ↔
    successes id (plan.physicalPlans.map site.outcome) ≠ [] ∧
      ∃ first rest, plan.physicalPlans = first :: rest ∧
        site.answerOf ir plan first (successes id (plan.physicalPlans.map site.outcome))
          (failures id (plan.physicalPlans.map site.outcome)) = answer := by
  unfold conclude
  simp only [bind_eq_ok, raiseIf_eq_ok]
  cases plan.physicalPlans with
  | nil => simp
  | cons first rest => simp [pure_eq_ok]

theorem included_of_concluded
    (h : site.conclude ir plan (plan.physicalPlans.map site.outcome) = .ok answer) :
    answer.included.map (fun info => (info.sourceId, info.rows)) =
      plan.physicalPlans.filterMap fun p =>
        (site.answers p.selectedSourceId p.physicalQuery).toOption.map
          fun rows => (p.selectedSourceId, rows.length) := by
  obtain ⟨-, first, rest, -, rfl⟩ := conclude_eq_ok.1 h
  rw [answerOf, successes_outcome, List.map_map, List.map_filterMap]
  refine List.filterMap_congr fun p _ => ?_
  rw [Option.map_map]
  rfl

/-- A source of the plan answers or fails. -/
theorem perm_of_concluded
    (h : site.conclude ir plan (plan.physicalPlans.map site.outcome) = .ok answer) :
    (answer.included.map (·.sourceId) ++ answer.excluded.map (·.sourceId)).Perm
      (plan.physicalPlans.map (·.selectedSourceId) ++ plan.excludedSources.map (·.sourceId)) := by
  obtain ⟨-, first, rest, -, rfl⟩ := conclude_eq_ok.1 h
  have hplans : ((successes site.outcome plan.physicalPlans).map (·.1.selectedSourceId) ++
      (failures site.outcome plan.physicalPlans).map (·.sourceId)).Perm
        (plan.physicalPlans.map (·.selectedSourceId)) :=
    labels_perm (fun p _ result h => by rw [(outcome_eq_ok.1 h).1])
      fun p _ info h => outcome_error_id h
  have hsuccesses : successes id (plan.physicalPlans.map site.outcome) =
      successes site.outcome plan.physicalPlans := List.filterMap_map
  simp only [answerOf, hsuccesses, failures_outcome, List.map_map, List.map_append]
  refine List.Perm.trans ?_ (hplans.append_right _)
  rw [List.append_assoc]
  exact List.perm_append_comm.append_left _

theorem rows_of_concluded
    (h : site.conclude ir plan (plan.physicalPlans.map site.outcome) = .ok answer) :
    ∃ all : List (Row V), answer.rows = globalWindow ir all ∧
      all.Perm (plan.physicalPlans.flatMap fun p =>
        (site.answers p.selectedSourceId p.physicalQuery).toOption.elim []
          fun rows => rows.map (mergedRow site.rt ir p.maps)) := by
  obtain ⟨-, first, rest, -, rfl⟩ := conclude_eq_ok.1 h
  refine ⟨_, rfl, (perm_globalSort _ _ _).trans (List.Perm.of_eq ?_)⟩
  rw [successes_outcome]
  induction plan.physicalPlans with
  | nil => rfl
  | cons p plans ih =>
    rw [List.filterMap_cons, List.flatMap_cons, ← ih]
    cases (site.answers p.selectedSourceId p.physicalQuery).toOption <;> rfl

theorem reports_of_concluded (hplanned : site.Planned request ir modelId plan)
    (h : site.conclude ir plan (plan.physicalPlans.map site.outcome) = .ok answer) :
    site.Reports ir modelId plan answer where
  included := included_of_concluded h
  nothingLost := perm_of_concluded h
  registered hcandidates :=
    ((perm_of_concluded h).append_right _).trans
      (accountsFor_of_created hcandidates hplanned.2.2.2).nothingLost
  discovered hcandidates :=
    (perm_of_concluded h).trans (plansTaking_of_created hcandidates hplanned.2.2.2).nothingLost
  rows := rows_of_concluded h

theorem answers_of_planned (h : site.Planned request ir modelId plan) :
    (∃ answer, (site.executeAltrqlQuery request authKey).result = .ok answer) ↔
      ∃ p ∈ plan.physicalPlans, ∃ rows,
        site.answers p.selectedSourceId p.physicalQuery = .ok rows := by
  rw [run_of_planned h]
  have hsome : successes id (plan.physicalPlans.map site.outcome) ≠ [] ↔ ∃ p ∈ plan.physicalPlans,
      ∃ rows, site.answers p.selectedSourceId p.physicalQuery = .ok rows := by
    rw [successes_outcome, Ne, List.filterMap_eq_nil_iff]
    push Not
    refine exists_congr fun p => and_congr_right fun _ => ?_
    cases site.answers p.selectedSourceId p.physicalQuery <;> simp [Except.toOption]
  rw [← hsome]
  constructor
  · rintro ⟨answer, hanswer⟩
    exact (conclude_eq_ok.1 hanswer).1
  · intro hne
    obtain ⟨first, rest, hplans⟩ := List.exists_cons_of_ne_nil (l := plan.physicalPlans) fun hnil =>
      hne (by rw [hnil]; rfl)
    exact ⟨_, conclude_eq_ok.2 ⟨hne, first, rest, hplans, rfl⟩⟩

end

/-- Every request without a source is federated: its reads go to the sources of its plan, one each,
and the answer tells of every source and merges what those that answered returned. -/
theorem executeAltrqlQuery_federates (site : FederatedSite V) (request : FederatedRequest)
    (authKey : Option ApiKeyModel) : site.Federates request authKey where
  reads event hevent := by
    obtain ⟨ir, modelId, plan, hplanned⟩ := planned_of_event hevent
    rw [run_of_planned hplanned] at hevent
    obtain ⟨p, hp, rfl⟩ := List.mem_map.1 hevent
    exact ⟨_, _, rfl, reads_of_created hplanned.2.1 hplanned.2.2.2 hp⟩
  silent hnone := by
    refine List.eq_nil_iff_forall_not_mem.2 fun event hevent => ?_
    obtain ⟨ir, modelId, plan, hplanned⟩ := planned_of_event hevent
    exact hnone ir modelId plan hplanned
  sent ir modelId plan hplanned := by rw [run_of_planned hplanned]
  answers := by
    constructor
    · rintro ⟨answer, hanswer⟩
      obtain ⟨ir, modelId, plan, hplanned⟩ := planned_of_result hanswer
      exact ⟨ir, modelId, plan, hplanned, (answers_of_planned hplanned).1 ⟨answer, hanswer⟩⟩
    · rintro ⟨ir, modelId, plan, hplanned, hanswers⟩
      exact (answers_of_planned hplanned).2 hanswers
  reports answer hanswer ir modelId plan hplanned := by
    rw [run_of_planned hplanned] at hanswer
    exact reports_of_concluded hplanned hanswer

end FederatedSite

/-! ## What the sources of a plan are asked

The query of a source in a federated plan is that of the request, over the names of
the source's entity mapping and with the limit that is pushed down. A SQL source is
given a SELECT of its dialect that expresses it: an OFFSET, which MySQL and SQLite
do not take alone, is never pushed down.
-/

def typeOf : SqlSource → SourceType
  | .postgresql => .postgresql
  | .mysql => .mysql
  | .sqlite => .sqlite

/-- What the source of a plan is asked. -/
structure AsksFor (py : Casing) (ir : AltrQueryIR) (p : PhysicalQueryPlan) : Prop where
  /-- The query of the request, its names those of the entity mapping that the plan's mapping has for
  the entity. -/
  query : ∃ mapping em, mapping.id = p.selectedMappingId ∧
    matchedEntity py mapping ir.entity = some em ∧
      p.boundIr.unbound = physicalIr py em (federatedPlanIr ir)
  typed : p.boundIr.Typed
  /-- No rows are skipped, and no more asked for than the merged window can reach. -/
  window : p.boundIr.offset = none ∧ rowLimit p.boundIr = pushedLimit ir
  /-- A SQL source is given one statement, a SELECT that expresses the query if its names can be
  quoted. -/
  select : ∀ src : SqlSource, typeOf src = p.selectedSourceType →
    ∃ q, p.physicalQuery = .sql (.single q) ∧
      (src.IsSelect p.boundIr q ↔ ∀ name ∈ identifiers p.boundIr, src.Quotable name)

/-- Every source of the plan of a request is asked for what the request asks. -/
def FederatedSite.AsksAll {V : Type} (site : FederatedSite V) (request : FederatedRequest) : Prop :=
  ∀ ir modelId plan, site.Planned request ir modelId plan →
    ∀ p ∈ plan.physicalPlans, AsksFor site.rt.py ir p

section
variable {u : Unicode} {text : String} {py : Casing} {ir physical : AltrQueryIR}
  {mapping : SourceMapping} {schema : SourceSchema} {q : BoundAltrQueryIR}

/-- A READ that sources are given has the leaves and the clauses of the request. -/
theorem validated_of_resolved (hparse : parseAltrql u text = .ok ir)
    (hresolve : resolveLogicalIr py (federatedPlanIr ir) mapping = .ok physical) :
    ∀ expr, physical.where_ = some expr → ∀ e ∈ expr.atoms,
      validateFieldExpression e = .ok () ∧ e.operand.Parsed e.operator := by
  obtain ⟨em, -, rfl⟩ := resolveLogicalIr_eq_ok.1 hresolve
  intro expr hexpr e he
  obtain ⟨expr', hexpr', rfl⟩ := Option.map_eq_some_iff.1 hexpr
  rw [Formula.atoms_map] at he
  obtain ⟨e', he', rfl⟩ := List.mem_map.1 he
  exact parseAltrql_validated hparse hexpr' e' he'

theorem ofStatement_of_resolved (hparse : parseAltrql u text = .ok ir) (hread : ir.operation = .read)
    (hresolve : resolveLogicalIr py (federatedPlanIr ir) mapping = .ok physical) :
    physical.OfStatement := by
  obtain ⟨em, -, rfl⟩ := resolveLogicalIr_eq_ok.1 hresolve
  have hstatement := parseAltrql_statement hparse
  simp only [AltrQueryIR.OfStatement, hread] at hstatement
  simp [AltrQueryIR.OfStatement, physicalIr, resolveClauses, federatedPlanIr, hread, hstatement]

/-- The query of a source is bound to itself. -/
theorem bound_of_resolved (hparse : parseAltrql u text = .ok ir) (hread : ir.operation = .read)
    (hresolve : resolveLogicalIr py (federatedPlanIr ir) mapping = .ok physical)
    (hbind : bindAltrql physical schema = .ok q) : q.unbound = physical ∧ q.Typed := by
  have hentity := hbind
  simp only [bindAltrql, bind_eq_ok] at hentity
  obtain ⟨entity, hentity, -⟩ := hentity
  obtain ⟨-, hunbound, -, htyped⟩ := (settles_statement
    (ofStatement_of_resolved hparse hread hresolve) (validated_of_resolved hparse hresolve)
    hentity).of_eq_ok hbind
  exact ⟨hunbound, htyped⟩

theorem wellFormed_of_resolved (hparse : parseAltrql u text = .ok ir)
    (hresolve : resolveLogicalIr py (federatedPlanIr ir) mapping = .ok physical)
    (hunbound : q.unbound = physical) :
    ∀ e ∈ q.where_, ∀ leaf ∈ e.atoms, leaf.operand.WellFormed := by
  obtain ⟨em, -, rfl⟩ := resolveLogicalIr_eq_ok.1 hresolve
  intro e he leaf hleaf
  have hwhere : (physicalIr py em (federatedPlanIr ir)).where_ =
      some (e.map BoundFieldExpression.unbound) := by
    rw [← hunbound, BoundAltrQueryIR.unbound, Option.mem_def.1 he]
    rfl
  obtain ⟨expr, hexpr, heq⟩ := Option.map_eq_some_iff.1 hwhere
  have hmem : leaf.unbound ∈ (e.map BoundFieldExpression.unbound).atoms := by
    rw [Formula.atoms_map]
    exact List.mem_map_of_mem hleaf
  rw [← heq, Formula.atoms_map] at hmem
  obtain ⟨leaf', hleaf', hsame⟩ := List.mem_map.1 hmem
  have hoperand : leaf'.operand = leaf.operand := congrArg FieldExpression.operand hsame
  rw [← hoperand]
  exact (parseAltrql_leaves hparse hexpr _ hleaf').1

theorem physicalQuery_of_lowerFor {clock : Semantics.Clock} {src : SqlSource} {lowered : Lowered}
    (hread : q.operation = .read) (h : lowerFor clock (typeOf src) q = .ok lowered) :
    ∃ p, lowered = .sql (.single p) ∧ src.lowerer.lower q = .ok (.single p) := by
  have hsql : .sql <$> src.lowerer.lower q = .ok lowered := by
    cases src <;> exact h
  obtain ⟨r, hr, rfl⟩ := map_eq_ok.1 hsql
  obtain ⟨p, rfl, -⟩ := src.lowerer.single_of_lower (by simp [hread]) hr
  exact ⟨p, rfl, hr⟩

end

/-- The sources of a plan are asked for what the request asks, in their own names and dialects. -/
theorem FederatedSite.asksAll {V : Type} (site : FederatedSite V) (request : FederatedRequest) :
    site.AsksAll request := by
  intro ir modelId plan hplanned p hp
  obtain ⟨hparse, hread, -, hplan⟩ := hplanned
  obtain ⟨mapping, schema, hmapping, hcompiled⟩ := compiled_of_created hplan hp
  obtain ⟨hresolve, hbind, hlower⟩ := compile_eq_ok.1 hcompiled
  rw [site.casing] at hresolve
  obtain ⟨em, hem, hphysical⟩ := resolveLogicalIr_eq_ok.1 hresolve
  obtain ⟨hunbound, htyped⟩ := bound_of_resolved hparse hread hresolve hbind
  have hfederated : Connectors.FederatedFrom ir p.boundIr :=
    ⟨site.u, request.query, site.rt.py, mapping, p.resolvedIr, schema, hparse, hresolve, hbind⟩
  obtain ⟨hoperation, hoffset, hlimit⟩ := hfederated.window
  have hreads : p.boundIr.operation = .read := hoperation.trans hread
  refine ⟨⟨mapping, em, hmapping, hem, hunbound.trans hphysical.symm⟩, htyped, ⟨hoffset, hlimit⟩,
    fun src hsrc => ?_⟩
  rw [← hsrc] at hlower
  obtain ⟨q, hq, hsingle⟩ := physicalQuery_of_lowerFor hreads hlower
  refine ⟨q, hq, ?_⟩
  have hwindow := Connectors.Planned.window (.inr ⟨ir, hfederated⟩) hreads
  rw [isSelect_iff_of_leaves (wellFormed_of_resolved hparse hresolve hunbound)
    ⟨fun n hn => (hwindow.1 n hn).le, hwindow.2⟩ hreads hsingle]
  exact and_iff_left (.inr (.inl hoffset))

end AltrStream.Application
