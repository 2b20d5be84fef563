import AltrStream.Application.FederatedExecution
import AltrStream.Application.OwnMapping

/-! # Dry runs

`plan_altrql_query` and `bind_altrql_query` in `routes/altrql.py` tell what a request
would be compiled to and send nothing. What `execute_altrql_query` sends is what they
tell of the same request, as far as its scope and its confirmation allow.
-/
namespace AltrStream.Application
open Foundations Python Domain QueryEngine Lowering Registry Planning Security

def RouteAction.sends : RouteAction → Bool
  | .execute .. => true
  | .resolve _ | .normalize _ => false

/-! ### Requests that name their source -/

/-- `AltrQLPlanResponseDTO` for a source. -/
structure SourcePreview where
  selectedSourceName : String
  selectedSourceType : SourceType
  physicalEntity : String
  boundIr : BoundAltrQueryIR
  classification : MutationClassification
  physicalQuery : Lowered

section
variable {V : Type} (site : Site V) (request : ExplicitRequest)

/-- The snapshot of the source, as the plan asks for it. -/
def plannedSchema (sourceId : String) : Except RouteError SourceSchema :=
  (site.latestSchema sourceId).elim
    (.error <| .stream <| .mappingValidation
      s!"No schema snapshot discovered yet for source '{sourceId}'.") .ok

/-- `plan_altrql_query` with a source. -/
def planAltrqlQuery : Route SourcePreview := do
  let ir ← Traced.answer <| (parseAltrql site.u request.query).mapError .engine
  let source ← Traced.answer <| getSource site request.sourceId
  let schema ← Traced.answer <| plannedSchema site request.sourceId
  let (compiled, _) ← resolveRequest site request ir
  let bound ← Traced.answer <| (bindAltrql compiled schema).mapError .engine
  let lowered ← Traced.answer <| (lowerFor site.clock source.type bound).mapError .engine
  return { selectedSourceName := source.name
           selectedSourceType := source.type
           physicalEntity := bound.entity.name
           boundIr := bound
           classification := classifyQuery bound
           physicalQuery := lowered }

/-- What is sent for a request is what its dry runs tell. -/
structure DryRuns (authKey : Option ApiKeyModel) : Prop where
  silent : ∀ event ∈ (planAltrqlQuery site request).events ++ (bindAltrqlQuery site request).events,
    event.sends = false
  /-- A plan shows the query that the request is bound to. -/
  bound : ∀ preview, (planAltrqlQuery site request).result = .ok preview →
    (bindAltrqlQuery site request).result = .ok (preview.boundIr, preview.classification)
  /-- What is bound is planned, unless it cannot be lowered for the source. -/
  planned : ∀ bound classification source,
    (bindAltrqlQuery site request).result = .ok (bound, classification) →
    site.source? request.sourceId = some source → ∀ lowered,
      lowerFor site.clock source.type bound = .ok lowered ↔
        ∃ preview, (planAltrqlQuery site request).result = .ok preview ∧
          preview.physicalQuery = lowered
  /-- A confirmation is needed for what changes all rows of its entity. -/
  confirms : ∀ ir preview, parseAltrql site.u request.query = .ok ir →
    (planAltrqlQuery site request).result = .ok preview →
    (preview.classification.requiresConfirmation = true ↔
      (ir.operation = .update ∨ ir.operation = .delete) ∧ ir.where_ = none)
  /-- What is sent is the planned query, if the key and the confirmation allow it. -/
  sent : ∀ sourceId query,
    RouteAction.execute sourceId query ∈ (executeAltrqlQuery site request authKey).events ↔
      sourceId = request.sourceId ∧ ∃ preview,
        (planAltrqlQuery site request).result = .ok preview ∧ preview.physicalQuery = query ∧
        scopeGate preview.classification.operation authKey = true ∧
        (preview.classification.requiresConfirmation = true → request.confirmMassMutation = true)
  once : (executeAltrqlQuery site request authKey).events.countP (·.sends) ≤ 1

end

/-! ### Compilation -/

section
variable {V : Type} {site : Site V} {request : ExplicitRequest} {ir : AltrQueryIR}

/-- What the routes compile the request to. -/
def CompilesTo (site : Site V) (request : ExplicitRequest) (ir : AltrQueryIR) (source : Source)
    (bound : BoundAltrQueryIR) : Prop :=
  parseAltrql site.u request.query = .ok ir ∧ site.source? request.sourceId = some source ∧
    ∃ schema, site.latestSchema request.sourceId = some schema ∧ ∃ resolved,
      (resolveRequest site request ir).result = .ok resolved ∧
        bindAltrql resolved.1 schema = .ok bound

theorem CompilesTo.unique {source : Source} {bound : BoundAltrQueryIR}
    (h : CompilesTo site request ir source bound) {ir' : AltrQueryIR} {source' : Source}
    {bound' : BoundAltrQueryIR} (h' : CompilesTo site request ir' source' bound') :
    ir = ir' ∧ source = source' ∧ bound = bound' := by
  obtain ⟨hparse, hsource, schema, hschema, resolved, hresolved, hbind⟩ := h
  obtain ⟨hparse', hsource', schema', hschema', resolved', hresolved', hbind'⟩ := h'
  obtain rfl := Except.ok.inj (hparse.symm.trans hparse')
  obtain rfl := Option.some.inj (hschema.symm.trans hschema')
  obtain rfl := Except.ok.inj (hresolved.symm.trans hresolved')
  exact ⟨rfl, Option.some.inj (hsource.symm.trans hsource'), Except.ok.inj (hbind.symm.trans hbind')⟩

theorem getSource_eq_ok {sourceId : String} {source : Source} :
    getSource site sourceId = .ok source ↔ site.source? sourceId = some source := by
  unfold getSource
  cases site.source? sourceId <;> simp

theorem plannedSchema_eq_ok {sourceId : String} {schema : SourceSchema} :
    plannedSchema site sourceId = .ok schema ↔ site.latestSchema sourceId = some schema := by
  unfold plannedSchema
  cases site.latestSchema sourceId <;> simp

theorem getLatestSchema_eq_ok {sourceId : String} {schema : SourceSchema} :
    getLatestSchema site sourceId = .ok schema ↔
      (∃ source, site.source? sourceId = some source) ∧ site.latestSchema sourceId = some schema := by
  simp only [getLatestSchema, bind_eq_ok, getSource_eq_ok, exists_and_right]
  refine and_congr_right fun _ => ?_
  cases site.latestSchema sourceId <;> simp

/-- Resolving names asks nothing of the sources. -/
theorem sends_resolveRequest : Traced.Only (·.sends = false) (resolveRequest site request ir) := by
  unfold resolveRequest
  split_ifs
  · refine .bind (.answer _) fun found _ => ?_
    obtain ⟨mapping, em⟩ := found
    cases mapping with
    | none => exact .pure _
    | some mapping => exact .bind (.act rfl) fun _ _ => .bind (.answer _) fun _ _ => .pure _
  · exact .pure _

/-- Resolving names keeps the operation and the presence of a WHERE tree. -/
theorem resolveRequest_kept {resolved : AltrQueryIR × Option EntityMapping}
    (h : (resolveRequest site request ir).result = .ok resolved) :
    resolved.1.operation = ir.operation ∧ (resolved.1.where_ = none ↔ ir.where_ = none) := by
  unfold resolveRequest at h
  split_ifs at h
  · obtain ⟨⟨mapping, em⟩, -, h⟩ := Traced.result_bind_eq_ok.1 h
    cases mapping with
    | none =>
      cases h
      exact ⟨rfl, .rfl⟩
    | some mapping =>
      obtain ⟨_, -, h⟩ := Traced.result_bind_eq_ok.1 h
      obtain ⟨compiled, hcompiled, h⟩ := Traced.result_bind_eq_ok.1 h
      cases h
      obtain ⟨em, -, rfl⟩ := resolveLogicalIr_eq_ok.1 (mapError_eq_ok.1 hcompiled)
      exact ⟨rfl, Option.map_eq_none_iff⟩
  · cases h
    exact ⟨rfl, .rfl⟩

theorem bindWhere_eq_none_iff {entity : EntitySchema} {w : Option Expression}
    {w' : Option BoundExpression} (h : bindWhere entity w = .ok w') : w' = none ↔ w = none := by
  cases w with
  | none =>
    cases h
    simp
  | some e =>
    obtain ⟨e', -, rfl⟩ := map_eq_ok.1 h
    simp

/-- What a query is classified as is read off what it was bound from. -/
theorem classifyQuery_of_bound {resolved : AltrQueryIR} {schema : SourceSchema}
    {bound : BoundAltrQueryIR} (h : bindAltrql resolved schema = .ok bound) :
    (classifyQuery bound).operation = resolved.operation ∧
      ((classifyQuery bound).requiresConfirmation = true ↔
        (resolved.operation = .update ∨ resolved.operation = .delete) ∧ resolved.where_ = none) := by
  obtain ⟨hop, entity, hwhere⟩ := bindAltrql_where h
  rw [← bindWhere_eq_none_iff hwhere, ← hop]
  unfold classifyQuery classifyMutation
  cases bound.operation <;> cases bound.where_ <;> simp

theorem classifyQuery_of_compiles {source : Source} {bound : BoundAltrQueryIR}
    (h : CompilesTo site request ir source bound) :
    (classifyQuery bound).operation = ir.operation ∧
      ((classifyQuery bound).requiresConfirmation = true ↔
        (ir.operation = .update ∨ ir.operation = .delete) ∧ ir.where_ = none) := by
  obtain ⟨-, -, schema, -, resolved, hresolved, hbind⟩ := h
  obtain ⟨hop, hwhere⟩ := resolveRequest_kept hresolved
  rw [← hop, ← hwhere]
  exact classifyQuery_of_bound hbind

/-! ### The routes -/

theorem planAltrqlQuery_eq_ok {preview : SourcePreview} :
    (planAltrqlQuery site request).result = .ok preview ↔
      ∃ ir source bound, CompilesTo site request ir source bound ∧
        ∃ lowered, lowerFor site.clock source.type bound = .ok lowered ∧
          preview = ⟨source.name, source.type, bound.entity.name, bound, classifyQuery bound,
            lowered⟩ := by
  simp only [planAltrqlQuery, Traced.result_bind_eq_ok, Traced.result_answer, mapError_eq_ok,
    getSource_eq_ok, plannedSchema_eq_ok, CompilesTo]
  constructor
  · rintro ⟨ir, hparse, source, hsource, schema, hschema, ⟨compiled, em⟩, hresolved, bound, hbind,
      lowered, hlower, hpreview⟩
    cases hpreview
    exact ⟨ir, source, bound, ⟨hparse, hsource, schema, hschema, _, hresolved, hbind⟩, lowered,
      hlower, rfl⟩
  · rintro ⟨ir, source, bound, ⟨hparse, hsource, schema, hschema, ⟨compiled, em⟩, hresolved, hbind⟩,
      lowered, hlower, rfl⟩
    exact ⟨ir, hparse, source, hsource, schema, hschema, _, hresolved, bound, hbind, lowered, hlower,
      rfl⟩

theorem bindAltrqlQuery_eq_ok {bound : BoundAltrQueryIR} {classification : MutationClassification} :
    (bindAltrqlQuery site request).result = .ok (bound, classification) ↔
      (∃ ir source, CompilesTo site request ir source bound) ∧
        classification = classifyQuery bound := by
  simp only [bindAltrqlQuery, Traced.result_bind_eq_ok, Traced.result_answer, mapError_eq_ok,
    getLatestSchema_eq_ok, CompilesTo]
  constructor
  · rintro ⟨ir, hparse, ⟨compiled, em⟩, hresolved, schema, ⟨⟨source, hsource⟩, hschema⟩, bound', hbind,
      hpreview⟩
    cases hpreview
    exact ⟨⟨ir, source, hparse, hsource, schema, hschema, _, hresolved, hbind⟩, rfl⟩
  · rintro ⟨⟨ir, source, hparse, hsource, schema, hschema, ⟨compiled, em⟩, hresolved, hbind⟩, rfl⟩
    exact ⟨ir, hparse, _, hresolved, schema, ⟨⟨source, hsource⟩, hschema⟩, bound, hbind, rfl⟩

/-- The request may be sent, compiled to a query. -/
def MaySend (site : Site V) (request : ExplicitRequest) (authKey : Option ApiKeyModel)
    (query : Lowered) : Prop :=
  ∃ ir source bound, CompilesTo site request ir source bound ∧
    lowerFor site.clock source.type bound = .ok query ∧ scopeGate ir.operation authKey = true ∧
      ((classifyQuery bound).requiresConfirmation = true → request.confirmMassMutation = true)

/-- The first query that is sent, and nothing that is not sent. -/
def Permitted (site : Site V) (request : ExplicitRequest) (authKey : Option ApiKeyModel)
    (before : List RouteAction) (event : RouteAction) : Prop :=
  event.sends = true → (∀ e ∈ before, e.sends = false) ∧
    ∃ query, event = .execute request.sourceId query ∧ MaySend site request authKey query

variable {authKey : Option ApiKeyModel}

theorem permitted_of_silent (before : List RouteAction) (event : RouteAction)
    (h : event.sends = false) : Permitted site request authKey before event := fun hsends => by
  rw [h] at hsends
  cases hsends

/-- A request is sent once, after it was compiled and permitted. -/
theorem guarded_executeAltrqlQuery :
    Traced.Guarded (Permitted site request authKey) []
      (executeAltrqlQuery site request authKey) := by
  refine .bind (.answer _) fun ir hparse => .bind (.ensure _ _) fun _ hgate => ?_
  refine .bind (.of_only sends_resolveRequest permitted_of_silent) fun resolved hresolved => ?_
  refine .bind (.answer _) fun source hsource => .bind (.answer _) fun schema hschema => ?_
  refine .bind (.answer _) fun bound hbind => .bind (.answer _) fun lowered hlower => ?_
  refine .bind (.ensure _ _) fun _ hconfirm => ?_
  refine .bind (.act fun _ => ⟨?_, lowered, rfl, ?_⟩) fun _ _ => ?_
  · exact fun e he => sends_resolveRequest e (by simpa using he)
  · simp only [Traced.result_answer, Traced.result_ensure_eq_ok, mapError_eq_ok, getSource_eq_ok,
      getLatestSchema_eq_ok] at hparse hgate hsource hschema hbind hlower hconfirm
    exact ⟨ir, source, bound, ⟨hparse, hsource, schema, hschema.2, resolved, hresolved, hbind⟩,
      hlower, hgate, hconfirm⟩
  · refine .bind (.answer _) fun rows _ => .of_only ?_ permitted_of_silent
    cases resolved.2 with
    | none => exact .pure _
    | some em =>
      dsimp only
      split_ifs
      · exact .bind (.act rfl) fun _ _ => .pure _
      · exact .pure _

theorem execute_mem_iff {sourceId : String} {query : Lowered} :
    RouteAction.execute sourceId query ∈ (executeAltrqlQuery site request authKey).events ↔
      sourceId = request.sourceId ∧ MaySend site request authKey query := by
  constructor
  · intro hmem
    obtain ⟨before, after, heq⟩ := List.append_of_mem hmem
    obtain ⟨-, query', hevent, hmay⟩ := guarded_executeAltrqlQuery _ _ _ heq rfl
    obtain ⟨rfl, rfl⟩ := RouteAction.execute.inj hevent
    exact ⟨rfl, hmay⟩
  · rintro ⟨rfl, ir, source, bound, ⟨hparse, hsource, schema, hschema, resolved, hresolved, hbind⟩,
      hlower, hgate, hconfirm⟩
    unfold executeAltrqlQuery
    simp only [Traced.mem_events_bind, Traced.events_answer, Traced.events_ensure,
      Traced.result_answer, Traced.result_ensure_eq_ok, mapError_eq_ok, getSource_eq_ok,
      getLatestSchema_eq_ok, List.not_mem_nil, false_or]
    exact ⟨ir, hparse, (), hgate, .inr ⟨resolved, hresolved, source, hsource, schema,
      ⟨⟨source, hsource⟩, hschema⟩, bound, hbind, query, hlower, (), hconfirm, .inl (by simp)⟩⟩

/-- Whatever is sent for a request, its dry runs tell. -/
theorem dryRuns (site : Site V) (request : ExplicitRequest) (authKey : Option ApiKeyModel) :
    DryRuns site request authKey where
  silent event hevent := by
    rcases List.mem_append.1 hevent with hevent | hevent
    · simp only [planAltrqlQuery, Traced.mem_events_bind, Traced.events_answer, List.not_mem_nil,
        false_or, Traced.events_pure, and_false, exists_false, or_false] at hevent
      obtain ⟨ir, -, source, -, schema, -, hevent⟩ := hevent
      exact sends_resolveRequest _ hevent
    · obtain ⟨ir, -, hevent⟩ := mem_bindAltrqlQuery.1 hevent
      exact sends_resolveRequest _ hevent
  bound preview hpreview := by
    obtain ⟨ir, source, bound, hcompiles, lowered, -, rfl⟩ := planAltrqlQuery_eq_ok.1 hpreview
    exact bindAltrqlQuery_eq_ok.2 ⟨⟨ir, source, hcompiles⟩, rfl⟩
  planned bound classification source hbound hsource lowered := by
    obtain ⟨⟨ir, source', hcompiles⟩, -⟩ := bindAltrqlQuery_eq_ok.1 hbound
    obtain rfl := Option.some.inj (hsource.symm.trans hcompiles.2.1)
    constructor
    · exact fun hlower => ⟨_, planAltrqlQuery_eq_ok.2 ⟨ir, source, bound, hcompiles, lowered, hlower,
        rfl⟩, rfl⟩
    · rintro ⟨preview, hpreview, rfl⟩
      obtain ⟨ir', source', bound', hcompiles', lowered, hlower, rfl⟩ :=
        planAltrqlQuery_eq_ok.1 hpreview
      obtain ⟨-, rfl, rfl⟩ := hcompiles.unique hcompiles'
      exact hlower
  confirms ir preview hparse hpreview := by
    obtain ⟨ir', source, bound, hcompiles, lowered, -, rfl⟩ := planAltrqlQuery_eq_ok.1 hpreview
    obtain rfl := Except.ok.inj (hparse.symm.trans hcompiles.1)
    exact (classifyQuery_of_compiles hcompiles).2
  sent sourceId query := by
    rw [execute_mem_iff]
    refine and_congr_right fun _ => ?_
    constructor
    · rintro ⟨ir, source, bound, hcompiles, hlower, hgate, hconfirm⟩
      refine ⟨_, planAltrqlQuery_eq_ok.2 ⟨ir, source, bound, hcompiles, query, hlower, rfl⟩, rfl, ?_,
        hconfirm⟩
      rw [(classifyQuery_of_compiles hcompiles).1]
      exact hgate
    · rintro ⟨preview, hpreview, rfl, hgate, hconfirm⟩
      obtain ⟨ir, source, bound, hcompiles, lowered, hlower, rfl⟩ := planAltrqlQuery_eq_ok.1 hpreview
      rw [(classifyQuery_of_compiles hcompiles).1] at hgate
      exact ⟨ir, source, bound, hcompiles, hlower, hgate, hconfirm⟩
  once := by
    refine Traced.countP_le_one fun pre e post heq hsends => ?_
    simpa using (guarded_executeAltrqlQuery pre e post heq hsends).1

end

/-! ### Requests that name no source -/

/-- `AltrQLPlanResponseDTO` without a source; the first plan is shown in fields of its own. -/
structure FederatedPreview where
  logicalModelId : String
  targetEntity : String
  isEphemeral : Bool
  first : PhysicalQueryPlan
  physicalPlans : List PhysicalQueryPlan
  totalSourcesPlanned : ℕ
  candidatesEvaluated : List CandidateEvaluation
  excludedSources : List SourceExclusionInfo

namespace FederatedSite

variable {V : Type} (site : FederatedSite V) (request : FederatedRequest)

/-- The query of the request, its model and the plan over its sources. -/
def plannedQuery : Except FederatedError (AltrQueryIR × String × FederatedQueryPlan) := do
  let ir ← (parseAltrql site.u request.query).mapError .engine
  let modelId ← (resolveLogicalModelId site.planner.env.py site.planner.registry ir.entity
    request.logicalModelId).mapError .planning
  let plan ← (site.planner.createFederatedPlan ir (some modelId)).mapError .planning
  return (ir, modelId, plan)

/-- `plan_altrql_query` without a source. -/
def planAltrqlQuery : Except FederatedError FederatedPreview := do
  let (ir, modelId, plan) ← site.plannedQuery request
  match plan.physicalPlans with
  | [] => .error (.unexpected "list index out of range")
  | first :: _ =>
    return { logicalModelId := modelId
             targetEntity := ir.entity
             isEphemeral := plan.isEphemeral
             first
             physicalPlans := plan.physicalPlans
             totalSourcesPlanned := plan.physicalPlans.length
             candidatesEvaluated := plan.candidatesEvaluated
             excludedSources := plan.excludedSources }

/-- `bind_altrql_query` without a source. -/
def bindAltrqlQuery : Except FederatedError (BoundAltrQueryIR × MutationClassification) := do
  let (_, _, plan) ← site.plannedQuery request
  match plan.physicalPlans with
  | [] => .error (.unexpected "list index out of range")
  | first :: _ => return (first.boundIr, first.classification)

/-- What is sent for a request without a source is what its dry runs tell, if it is a read. -/
structure DryRuns (authKey : Option ApiKeyModel) : Prop where
  /-- The query that the request is bound to is that of its first source. -/
  bound : ∀ bound classification,
    site.bindAltrqlQuery request = .ok (bound, classification) ↔
      ∃ preview, site.planAltrqlQuery request = .ok preview ∧ preview.first.boundIr = bound ∧
        preview.first.classification = classification
  /-- Every source is asked for what the text of the request asks for. -/
  classified : ∀ ir preview, parseAltrql site.u request.query = .ok ir →
    site.planAltrqlQuery request = .ok preview → ∀ p ∈ preview.physicalPlans,
      p.classification.operation = ir.operation ∧
        (p.classification.requiresConfirmation = true ↔
          (ir.operation = .update ∨ ir.operation = .delete) ∧ ir.where_ = none)
  /-- A read is sent as it is planned, whatever the key; a mutation is planned and never sent. -/
  sent : ∀ preview, site.planAltrqlQuery request = .ok preview →
    (site.executeAltrqlQuery request authKey).events =
      if preview.first.classification.operation = .read then
        preview.physicalPlans.map fun p => .execute p.selectedSourceId p.physicalQuery
      else []
  /-- Without a plan nothing is sent. -/
  unplanned : (∀ preview, site.planAltrqlQuery request ≠ .ok preview) →
    (site.executeAltrqlQuery request authKey).events = []

variable {site : FederatedSite V} {request : FederatedRequest} {authKey : Option ApiKeyModel}

theorem plannedQuery_eq_ok {ir : AltrQueryIR} {modelId : String} {plan : FederatedQueryPlan} :
    site.plannedQuery request = .ok (ir, modelId, plan) ↔
      parseAltrql site.u request.query = .ok ir ∧
        resolveLogicalModelId site.planner.env.py site.planner.registry ir.entity
          request.logicalModelId = .ok modelId ∧
        site.planner.createFederatedPlan ir (some modelId) = .ok plan := by
  simp only [plannedQuery, bind_eq_ok, mapError_eq_ok, pure_eq_ok, Prod.mk.injEq]
  constructor
  · rintro ⟨_, hparse, _, hmodel, _, hplan, rfl, rfl, rfl⟩
    exact ⟨hparse, hmodel, hplan⟩
  · rintro ⟨hparse, hmodel, hplan⟩
    exact ⟨_, hparse, _, hmodel, _, hplan, rfl, rfl, rfl⟩

theorem planAltrqlQuery_eq_ok {preview : FederatedPreview} :
    site.planAltrqlQuery request = .ok preview ↔ ∃ ir modelId plan first rest,
      site.plannedQuery request = .ok (ir, modelId, plan) ∧ plan.physicalPlans = first :: rest ∧
        preview = ⟨modelId, ir.entity, plan.isEphemeral, first, plan.physicalPlans,
          plan.physicalPlans.length, plan.candidatesEvaluated, plan.excludedSources⟩ := by
  simp only [planAltrqlQuery, bind_eq_ok, Prod.exists]
  refine exists₃_congr fun ir modelId plan => ?_
  cases plan.physicalPlans with
  | nil => simp
  | cons first rest =>
    constructor
    · rintro ⟨hplan, ⟨⟩⟩
      exact ⟨first, rest, hplan, rfl, rfl⟩
    · rintro ⟨first', rest', hplan, ⟨⟩, rfl⟩
      exact ⟨hplan, rfl⟩

theorem bindAltrqlQuery_eq_ok {bound : BoundAltrQueryIR} {classification : MutationClassification} :
    site.bindAltrqlQuery request = .ok (bound, classification) ↔ ∃ ir modelId plan first rest,
      site.plannedQuery request = .ok (ir, modelId, plan) ∧ plan.physicalPlans = first :: rest ∧
        first.boundIr = bound ∧ first.classification = classification := by
  simp only [bindAltrqlQuery, bind_eq_ok, Prod.exists]
  refine exists₃_congr fun ir modelId plan => ?_
  cases plan.physicalPlans with
  | nil => simp
  | cons first rest => simp [pure_eq_ok]

theorem classification_of_created {planner : QueryPlanner} {ir : AltrQueryIR}
    {logicalModelId : Option String} {plan : FederatedQueryPlan}
    (hplan : planner.createFederatedPlan ir logicalModelId = .ok plan) {p : PhysicalQueryPlan}
    (hp : p ∈ plan.physicalPlans) : p.classification = classifyQuery p.boundIr := by
  by_cases h : planner.registeredCandidates logicalModelId ir.entity = []
  · obtain ⟨m, -, hplanFor⟩ := (plansTaking_of_created h hplan).compiled p hp
    exact hplanFor.classification
  · obtain ⟨c, -, -, hplanOf⟩ := (accountsFor_of_created h hplan).sound p hp
    exact hplanOf.classification

/-- Every plan is classified by the text of the query. -/
theorem classified_of_created {planner : QueryPlanner} {ir : AltrQueryIR}
    {logicalModelId : Option String} {plan : FederatedQueryPlan}
    (hplan : planner.createFederatedPlan ir logicalModelId = .ok plan) {p : PhysicalQueryPlan}
    (hp : p ∈ plan.physicalPlans) : p.classification.operation = ir.operation ∧
      (p.classification.requiresConfirmation = true ↔
        (ir.operation = .update ∨ ir.operation = .delete) ∧ ir.where_ = none) := by
  obtain ⟨mapping, schema, -, hcompiled⟩ := compiled_of_created hplan hp
  obtain ⟨hresolve, hbind, -⟩ := compile_eq_ok.1 hcompiled
  obtain ⟨em, -, hphysical⟩ := resolveLogicalIr_eq_ok.1 hresolve
  have hop : p.resolvedIr.operation = ir.operation := by
    rw [← hphysical]
    rfl
  have hwhere : p.resolvedIr.where_ = none ↔ ir.where_ = none := by
    rw [← hphysical]
    exact Option.map_eq_none_iff
  rw [classification_of_created hplan hp, ← hop, ← hwhere]
  exact classifyQuery_of_bound hbind

/-- Whatever is sent for a request without a source, its dry runs tell. -/
theorem federatedDryRuns (site : FederatedSite V) (request : FederatedRequest)
    (authKey : Option ApiKeyModel) : site.DryRuns request authKey where
  bound bound classification := by
    rw [bindAltrqlQuery_eq_ok]
    constructor
    · rintro ⟨ir, modelId, plan, first, rest, hplan, hplans, hbound, hclass⟩
      exact ⟨_, planAltrqlQuery_eq_ok.2 ⟨ir, modelId, plan, first, rest, hplan, hplans, rfl⟩, hbound,
        hclass⟩
    · rintro ⟨preview, hpreview, hbound, hclass⟩
      obtain ⟨ir, modelId, plan, first, rest, hplan, hplans, rfl⟩ := planAltrqlQuery_eq_ok.1 hpreview
      exact ⟨ir, modelId, plan, first, rest, hplan, hplans, hbound, hclass⟩
  classified ir preview hparse hpreview p hp := by
    obtain ⟨ir', modelId, plan, first, rest, hplan, -, rfl⟩ := planAltrqlQuery_eq_ok.1 hpreview
    obtain ⟨hparse', -, hcreated⟩ := plannedQuery_eq_ok.1 hplan
    obtain rfl := Except.ok.inj (hparse.symm.trans hparse')
    exact classified_of_created hcreated hp
  sent preview hpreview := by
    obtain ⟨ir, modelId, plan, first, rest, hplan, hplans, rfl⟩ := planAltrqlQuery_eq_ok.1 hpreview
    obtain ⟨hparse, hmodel, hcreated⟩ := plannedQuery_eq_ok.1 hplan
    have hfirst := (classified_of_created hcreated (p := first) (hplans ▸ .head _)).1
    dsimp only
    rw [hfirst]
    split_ifs with hread
    · rw [run_of_planned ⟨hparse, hread, hmodel, hcreated⟩]
    · refine List.eq_nil_iff_forall_not_mem.2 fun event hevent => ?_
      obtain ⟨ir', modelId', plan', hplanned⟩ := planned_of_event hevent
      obtain rfl := Except.ok.inj (hparse.symm.trans hplanned.1)
      exact hread hplanned.2.1
  unplanned hnone := by
    refine List.eq_nil_iff_forall_not_mem.2 fun event hevent => ?_
    obtain ⟨ir, modelId, plan, hplanned⟩ := planned_of_event hevent
    have hquery := plannedQuery_eq_ok.2 ⟨hplanned.1, hplanned.2.2⟩
    rw [run_of_planned hplanned] at hevent
    obtain ⟨p, hp, -⟩ := List.mem_map.1 hevent
    obtain ⟨first, rest, hplans⟩ := List.exists_cons_of_ne_nil (List.ne_nil_of_mem hp)
    exact hnone _ (planAltrqlQuery_eq_ok.2 ⟨ir, modelId, plan, first, rest, hquery, hplans, rfl⟩)

end FederatedSite

end AltrStream.Application
