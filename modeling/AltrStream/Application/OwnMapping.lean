import AltrStream.Application.ExplicitSource

/-! # Whose mapping a request is compiled through

Of the ways to a mapping, those by the model and by the source look among the
mappings of the request's source; the way by the mapping's id looks at nothing but
its status. The rows are named by the entity mapping that the query was compiled
with in any case.
-/
namespace AltrStream.Application
open Foundations Python Domain QueryEngine Lowering Registry Planning Security Semantics

/-- The mapping is in use, for the source of the request and for its model. -/
structure ExplicitRequest.Own (request : ExplicitRequest) (mapping : SourceMapping) : Prop where
  active : mapping.status = .active
  source : mapping.sourceId = request.sourceId
  model : ∀ id, given request.logicalModelId = some id → mapping.logicalModelId = id

/-- What a route does with mappings: the query is compiled through the request's own only, the rows
are named by the entity mapping it is compiled with, and nothing is executed where a mapping is asked
for by its id or its model and none is used. -/
structure AppliesOwnMapping {V : Type} (site : Site V) (request : ExplicitRequest)
    (events : List RouteAction) : Prop where
  resolved : ∀ mapping, .resolve mapping ∈ events → request.Own mapping
  named : ∀ em, .normalize em ∈ events → ∃ ir mapping, parseAltrql site.u request.query = .ok ir ∧
    .resolve mapping ∈ events ∧ matchedEntity site.rt.py mapping ir.entity = some em
  rejected : (given request.mappingId).isSome ∨ (given request.logicalModelId).isSome →
    ∀ id query, .execute id query ∈ events → ∃ mapping, .resolve mapping ∈ events

/-- An ACTIVE mapping that the request names is its own. -/
def ExplicitRequest.NamesOwn (request : ExplicitRequest) (r : Repository) : Prop :=
  ∀ id mapping, given request.mappingId = some id → getSourceMapping r id = .ok mapping →
    mapping.status = .active → request.Own mapping

/-! ### The choice of a mapping -/

section
variable {py : Casing} {r : Repository} {request : ExplicitRequest} {entityName : String}

theorem chooseMapping_mem {active : List SourceMapping} {mapping : SourceMapping}
    {em : Option EntityMapping} (h : chooseMapping py entityName active = (some mapping, em)) :
    mapping ∈ active := by
  unfold chooseMapping at h
  split at h
  · next m em' hfound =>
    obtain ⟨m', hm', hmap⟩ := List.exists_of_findSome?_eq_some hfound
    obtain ⟨em'', -, heq⟩ := Option.map_eq_some_iff.1 hmap
    cases heq
    cases h
    exact hm'
  · next => exact List.mem_of_mem_head? (Prod.mk.inj h).1

/-- Where the chosen mapping has an entity mapping for the entity, it is the one chosen. -/
theorem chooseMapping_matching {active : List SourceMapping} {mapping : SourceMapping}
    {em : Option EntityMapping} {em' : EntityMapping}
    (h : chooseMapping py entityName active = (some mapping, em))
    (hmatching : findMatchingEntityMapping py mapping entityName = some em') : em = some em' := by
  unfold chooseMapping at h
  split at h
  · next m em'' hfound =>
    obtain ⟨m', -, hmap⟩ := List.exists_of_findSome?_eq_some hfound
    obtain ⟨em'', hem'', heq⟩ := Option.map_eq_some_iff.1 hmap
    cases heq
    cases h
    rw [← hmatching, ← hem'']
  · next hnone =>
    have hmem := List.mem_of_mem_head? (Prod.mk.inj h).1
    have := List.findSome?_eq_none_iff.1 hnone mapping hmem
    rw [hmatching] at this
    cases this

/-- Where no mapping is chosen there is no entity mapping. -/
theorem chooseMapping_none {active : List SourceMapping} {em : Option EntityMapping}
    (h : chooseMapping py entityName active = (none, em)) : em = none := by
  unfold chooseMapping at h
  split at h
  · cases h
  · obtain ⟨hnone, rfl⟩ := Prod.mk.inj h
    rw [hnone]
    rfl

/-- The filters of a list of mappings; an empty one is none. -/
theorem listed_own {modelId : Option String} {sourceId : String} (hsource : sourceId ≠ "")
    {m : SourceMapping} (h : m ∈ (r.listSourceMappings modelId (some sourceId)).filter (·.status = .active)) :
    m.status = .active ∧ m.sourceId = sourceId ∧ ∀ id, modelId = some id → id ≠ "" → m.logicalModelId = id := by
  obtain ⟨h, hactive⟩ := List.mem_filter.1 h
  obtain ⟨row, hrow, rfl⟩ := List.mem_map.1 h
  have hfilter := (List.mem_filter.1 hrow).2
  simp only [Bool.and_eq_true, Option.all_some, Bool.or_eq_true, decide_eq_true_eq] at hfilter
  refine ⟨of_decide_eq_true hactive, hfilter.2.resolve_left hsource, ?_⟩
  rintro id rfl hid
  have hmodel := hfilter.1
  simp only [Option.all_some, Bool.or_eq_true, decide_eq_true_eq] at hmodel
  exact hmodel.resolve_left hid

theorem ne_empty_of_given {text : Option String} {s : String} (h : given text = some s) :
    text = some s ∧ s ≠ "" := by
  obtain ⟨htext, hne⟩ := Option.filter_eq_some_iff.1 h
  exact ⟨htext, of_decide_eq_true hne⟩

variable (py r request entityName) in
/-- The mapping and the entity mapping of the request. -/
def foundFor : Except AltrStreamError (Option SourceMapping × Option EntityMapping) :=
  findActiveSourceAndEntityMapping py r request.sourceId entityName request.mappingId
    request.logicalModelId

/-- A mapping that is found by its id is an ACTIVE one of that id. -/
theorem foundFor_by_id {id : String} (hid : given request.mappingId = some id)
    {found : Option SourceMapping × Option EntityMapping} :
    foundFor py r request entityName = .ok found ↔ ∃ mapping, getSourceMapping r id = .ok mapping ∧
      mapping.status = .active ∧ found = (some mapping, findMatchingEntityMapping py mapping entityName) := by
  unfold foundFor findActiveSourceAndEntityMapping
  simp only [hid, bind_eq_ok, raiseIf_eq_ok, pure_eq_ok, not_not]
  constructor
  · rintro ⟨mapping, hmapping, -, hactive, rfl⟩
    exact ⟨mapping, hmapping, hactive, rfl⟩
  · rintro ⟨mapping, hmapping, hactive, rfl⟩
    exact ⟨mapping, hmapping, (), hactive, rfl⟩

/-- Otherwise it is the request's own. -/
theorem foundFor_own (hid : given request.mappingId = none) {mapping : SourceMapping}
    {em : Option EntityMapping} (h : foundFor py r request entityName = .ok (some mapping, em)) :
    request.Own mapping := by
  unfold foundFor findActiveSourceAndEntityMapping at h
  cases hmodel : given request.logicalModelId with
  | some modelId =>
    simp only [hid, hmodel, bind_eq_ok, pure_eq_ok] at h
    obtain ⟨-, -, -, -, h⟩ := h
    obtain ⟨hactive, hsource, hlisted⟩ := listed_own request.named (chooseMapping_mem h)
    refine ⟨hactive, hsource, fun id hgiven => ?_⟩
    cases hmodel.symm.trans hgiven
    exact hlisted _ rfl (ne_empty_of_given hmodel).2
  | none =>
    simp only [hid, hmodel] at h
    obtain ⟨hactive, hsource, -⟩ := listed_own request.named (chooseMapping_mem (Except.ok.inj h))
    exact ⟨hactive, hsource, fun id hgiven => nomatch hmodel.symm.trans hgiven⟩

/-- The entity mapping that is found is the one for the entity, where the mapping has one. -/
theorem foundFor_matching {mapping : SourceMapping} {em : Option EntityMapping} {em' : EntityMapping}
    (h : foundFor py r request entityName = .ok (some mapping, em))
    (hmatching : findMatchingEntityMapping py mapping entityName = some em') : em = some em' := by
  cases hid : given request.mappingId with
  | some id =>
    obtain ⟨mapping', -, -, heq⟩ := (foundFor_by_id hid).1 h
    cases heq
    exact hmatching
  | none =>
    unfold foundFor findActiveSourceAndEntityMapping at h
    cases hmodel : given request.logicalModelId with
    | some modelId =>
      simp only [hid, hmodel, bind_eq_ok, pure_eq_ok] at h
      obtain ⟨-, -, -, -, h⟩ := h
      exact chooseMapping_matching h hmatching
    | none =>
      simp only [hid, hmodel] at h
      exact chooseMapping_matching (Except.ok.inj h) hmatching

theorem foundFor_none_ne (em : EntityMapping) :
    foundFor py r request entityName ≠ .ok (none, some em) := by
  intro h
  unfold foundFor findActiveSourceAndEntityMapping at h
  cases hid : given request.mappingId with
  | some id =>
    simp only [hid, bind_eq_ok, pure_eq_ok] at h
    obtain ⟨_, -, _, -, h⟩ := h
    cases h
  | none =>
    cases hmodel : given request.logicalModelId with
    | some modelId =>
      simp only [hid, hmodel, bind_eq_ok, pure_eq_ok] at h
      obtain ⟨-, -, -, -, h⟩ := h
      cases chooseMapping_none h
    | none =>
      simp only [hid, hmodel] at h
      cases chooseMapping_none (Except.ok.inj h)

/-- A request that names a mapping or a model has one, or is refused. -/
theorem foundFor_isSome (h : (given request.mappingId).isSome ∨ (given request.logicalModelId).isSome)
    {found : Option SourceMapping × Option EntityMapping}
    (hfound : foundFor py r request entityName = .ok found) : found.1.isSome = true := by
  cases hid : given request.mappingId with
  | some id =>
    obtain ⟨mapping, -, -, rfl⟩ := (foundFor_by_id hid).1 hfound
    rfl
  | none =>
    obtain ⟨modelId, hmodel⟩ := Option.isSome_iff_exists.1 (h.resolve_left (by simp [hid]))
    unfold foundFor findActiveSourceAndEntityMapping at hfound
    simp only [hid, hmodel, bind_eq_ok, raiseIf_eq_ok, pure_eq_ok] at hfound
    obtain ⟨-, hne, -, -, rfl⟩ := hfound
    obtain ⟨m, ms, hactive⟩ := List.exists_cons_of_ne_nil hne
    rw [hactive]
    unfold chooseMapping
    split <;> rfl

end

/-! ### The routes -/

section
variable {V : Type} {site : Site V} {request : ExplicitRequest} {ir : AltrQueryIR}

/-- The mapping of the request, where it asks for one. -/
def Uses (site : Site V) (request : ExplicitRequest) (ir : AltrQueryIR) (mapping : SourceMapping) : Prop :=
  request.asksForMapping = true ∧
    ∃ em, foundFor site.rt.py site.registry request ir.entity = .ok (some mapping, em)

theorem mem_resolveRequest {action : RouteAction} :
    action ∈ (resolveRequest site request ir).events ↔
      ∃ mapping, action = .resolve mapping ∧ Uses site request ir mapping := by
  unfold resolveRequest Uses
  cases hasks : request.asksForMapping with
  | false => simp
  | true =>
    rw [if_pos rfl]
    simp only [true_and, foundFor, Traced.mem_events_bind, Traced.events_answer, List.not_mem_nil,
      false_or, Traced.result_answer, mapError_eq_ok]
    constructor
    · rintro ⟨⟨_ | mapping, em⟩, hfound, haction⟩
      · exact absurd haction List.not_mem_nil
      · refine ⟨mapping, ?_, em, hfound⟩
        simpa [Traced.mem_events_bind] using haction
    · rintro ⟨mapping, rfl, em, hfound⟩
      exact ⟨(some mapping, em), hfound, by simp [Traced.mem_events_bind]⟩

/-- A run that returns an entity mapping was compiled with it. -/
theorem resolveRequest_matched (hspace : strip ir.entity = ir.entity) {compiled : AltrQueryIR}
    {em : EntityMapping} (h : (resolveRequest site request ir).result = .ok (compiled, some em)) :
    ∃ mapping, Uses site request ir mapping ∧ matchedEntity site.rt.py mapping ir.entity = some em := by
  have hsame : ∀ mapping, findMatchingEntityMapping site.rt.py mapping ir.entity =
      matchedEntity site.rt.py mapping ir.entity := by
    intro mapping
    rw [findMatchingEntityMapping, matchedEntity, hspace]
    rfl
  unfold resolveRequest at h
  cases hasks : request.asksForMapping with
  | false =>
    rw [hasks] at h
    cases h
  | true =>
    rw [hasks, if_pos rfl, Traced.result_bind_eq_ok] at h
    obtain ⟨⟨_ | mapping, em'⟩, hfound, h⟩ := h
    · rw [Traced.result_answer, mapError_eq_ok] at hfound
      obtain ⟨-, rfl⟩ := Prod.mk.inj (Except.ok.inj h)
      exact absurd hfound (foundFor_none_ne em)
    · rw [Traced.result_answer, mapError_eq_ok] at hfound
      simp only [Traced.result_bind_eq_ok, Traced.result_answer, mapError_eq_ok, Traced.result_pure,
        Except.ok.injEq, Prod.mk.injEq] at h
      obtain ⟨-, -, compiled', hresolve, -, hem⟩ := h
      obtain ⟨em'', hmatched, -⟩ := resolveLogicalIr_eq_ok.1 hresolve
      have hmatching := foundFor_matching hfound ((hsame mapping).trans hmatched)
      rw [hem] at hmatching
      cases hmatching
      exact ⟨mapping, ⟨hasks, _, hfound⟩, hmatched⟩

/-- A request that names a mapping or a model is compiled through one. -/
theorem resolveRequest_used (h : (given request.mappingId).isSome ∨ (given request.logicalModelId).isSome)
    {r : AltrQueryIR × Option EntityMapping} (hr : (resolveRequest site request ir).result = .ok r) :
    ∃ mapping, Uses site request ir mapping := by
  have hasks : request.asksForMapping = true := by
    unfold ExplicitRequest.asksForMapping
    rcases h with h | h <;> simp [h]
  unfold resolveRequest at hr
  rw [hasks, if_pos rfl, Traced.result_bind_eq_ok] at hr
  obtain ⟨⟨mapping, em⟩, hfound, -⟩ := hr
  rw [Traced.result_answer, mapError_eq_ok] at hfound
  obtain ⟨mapping, rfl⟩ := Option.isSome_iff_exists.1 (foundFor_isSome h hfound)
  exact ⟨mapping, hasks, em, hfound⟩

/-- The mapping of every accepted query is the request's own exactly if those it names are. -/
theorem uses_own_iff (ir : AltrQueryIR) : (∀ mapping, Uses site request ir mapping → request.Own mapping) ↔
    request.NamesOwn site.registry := by
  constructor
  · intro h id mapping hid hmapping hactive
    exact h mapping ⟨by simp [ExplicitRequest.asksForMapping, hid], _,
      (foundFor_by_id hid).2 ⟨mapping, hmapping, hactive, rfl⟩⟩
  · rintro h mapping ⟨-, em, hfound⟩
    cases hid : given request.mappingId with
    | none => exact foundFor_own hid hfound
    | some id =>
      obtain ⟨mapping', hmapping, hactive, heq⟩ := (foundFor_by_id hid).1 hfound
      cases heq
      exact h id mapping hid hmapping hactive

theorem mem_bindAltrqlQuery {action : RouteAction} : action ∈ (bindAltrqlQuery site request).events ↔
    ∃ ir, parseAltrql site.u request.query = .ok ir ∧ action ∈ (resolveRequest site request ir).events := by
  unfold bindAltrqlQuery
  simp [Traced.mem_events_bind, mapError_eq_ok]

/-- The rest of an execution, once the query is compiled. -/
structure Continues (site : Site V) (request : ExplicitRequest) (ir : AltrQueryIR)
    (action : RouteAction) : Prop where
  compiled : ∃ r, (resolveRequest site request ir).result = .ok r
  normalized : ∀ em, action = .normalize em →
    ∃ compiled, (resolveRequest site request ir).result = .ok (compiled, some em)
  unresolved : ∀ mapping, action ≠ .resolve mapping

theorem mem_executeAltrqlQuery {authKey : Option ApiKeyModel} {action : RouteAction} :
    action ∈ (executeAltrqlQuery site request authKey).events → ∃ ir,
      parseAltrql site.u request.query = .ok ir ∧ scopeGate ir.operation authKey = true ∧
      (action ∈ (resolveRequest site request ir).events ∨ Continues site request ir action) := by
  intro h
  unfold executeAltrqlQuery at h
  simp only [Traced.mem_events_bind, Traced.events_answer, Traced.events_ensure, Traced.result_answer,
    Traced.result_ensure_eq_ok, mapError_eq_ok, List.not_mem_nil, false_or] at h
  obtain ⟨ir, hparse, -, hgate, h⟩ := h
  refine ⟨ir, hparse, hgate, h.imp_right ?_⟩
  rintro ⟨⟨compiled, em⟩, hcompiled, source, -, schema, -, bound, -, lowered, -, -, -, h⟩
  refine ⟨⟨_, hcompiled⟩, ?_, ?_⟩
  · rintro em' rfl
    rcases h with h | ⟨-, -, r, -, h⟩
    · simp at h
    · cases em with
      | none => simp at h
      | some em =>
        refine ⟨compiled, ?_⟩
        by_cases hnormalize : request.normalize = true
        · simp only [hnormalize, if_true, Traced.mem_events_bind, Traced.events_act, List.mem_singleton,
            Traced.events_pure, List.not_mem_nil, and_false, exists_false, or_false,
            RouteAction.normalize.injEq] at h
          rw [hcompiled, h]
        · simp [hnormalize] at h
  · rintro mapping rfl
    rcases h with h | ⟨-, -, r, -, h⟩
    · simp at h
    · cases em with
      | none => simp at h
      | some em => by_cases hnormalize : request.normalize = true <;>
          simp [hnormalize, Traced.mem_events_bind] at h

/-- What is done to compile an accepted and permitted query is done. -/
theorem mem_executeAltrqlQuery_of_resolve {authKey : Option ApiKeyModel} {action : RouteAction}
    (hparse : parseAltrql site.u request.query = .ok ir) (hgate : scopeGate ir.operation authKey = true)
    (h : action ∈ (resolveRequest site request ir).events) :
    action ∈ (executeAltrqlQuery site request authKey).events := by
  unfold executeAltrqlQuery
  simp only [Traced.mem_events_bind, Traced.events_answer, Traced.events_ensure, Traced.result_answer,
    Traced.result_ensure_eq_ok, mapError_eq_ok, List.not_mem_nil, false_or]
  exact ⟨ir, hparse, (), hgate, .inl h⟩

/-- An accepted query has no white space around its entity, so its rows are named by the entity
mapping it was compiled with. -/
theorem executeAltrqlQuery_named (hu : SpaceApart site.u) {authKey : Option ApiKeyModel} {em : EntityMapping}
    (h : .normalize em ∈ (executeAltrqlQuery site request authKey).events) :
    ∃ ir mapping, parseAltrql site.u request.query = .ok ir ∧
      .resolve mapping ∈ (executeAltrqlQuery site request authKey).events ∧
      matchedEntity site.rt.py mapping ir.entity = some em := by
  obtain ⟨ir, hparse, hgate, hresolve | hcontinues⟩ := mem_executeAltrqlQuery h
  · obtain ⟨mapping, heq, -⟩ := mem_resolveRequest.1 hresolve
    cases heq
  · obtain ⟨compiled, hcompiled⟩ := hcontinues.normalized em rfl
    have hspace := strip_of_isName hu (parseAltrql_entity site.u hparse)
    obtain ⟨mapping, huses, hmatched⟩ := resolveRequest_matched hspace hcompiled
    exact ⟨ir, mapping, hparse, mem_executeAltrqlQuery_of_resolve hparse hgate
      (mem_resolveRequest.2 ⟨mapping, rfl, huses⟩), hmatched⟩

/-- A route compiles an accepted and permitted query through the request's own mapping only, exactly
if the mapping that the request names by its id, where it is ACTIVE, is the request's own. -/
theorem appliesOwnMapping_iff (site : Site V) (request : ExplicitRequest) (authKey : Option ApiKeyModel)
    (hu : SpaceApart site.u) :
    (AppliesOwnMapping site request (bindAltrqlQuery site request).events ↔
      ((∃ ir, parseAltrql site.u request.query = .ok ir) → request.NamesOwn site.registry)) ∧
    (AppliesOwnMapping site request (executeAltrqlQuery site request authKey).events ↔
      ((∃ ir, parseAltrql site.u request.query = .ok ir ∧ scopeGate ir.operation authKey = true) →
        request.NamesOwn site.registry)) := by
  refine ⟨⟨?bindOwn, ?ownBind⟩, ⟨?executeOwn, ?ownExecute⟩⟩
  case bindOwn =>
    rintro h ⟨ir, hparse⟩
    refine (uses_own_iff ir).1 fun mapping huses => h.resolved mapping ?_
    exact mem_bindAltrqlQuery.2 ⟨ir, hparse, mem_resolveRequest.2 ⟨mapping, rfl, huses⟩⟩
  case ownBind =>
    have honly : ∀ action ∈ (bindAltrqlQuery site request).events, ∃ ir mapping,
        parseAltrql site.u request.query = .ok ir ∧ action = .resolve mapping ∧
          Uses site request ir mapping := by
      intro action haction
      obtain ⟨ir, hparse, hresolve⟩ := mem_bindAltrqlQuery.1 haction
      obtain ⟨mapping, heq, huses⟩ := mem_resolveRequest.1 hresolve
      exact ⟨ir, mapping, hparse, heq, huses⟩
    intro hown
    refine ⟨fun mapping hmem => ?_, fun em hmem => ?_, fun _ id query hmem => ?_⟩
    · obtain ⟨ir, mapping', hparse, heq, huses⟩ := honly _ hmem
      cases heq
      exact (uses_own_iff ir).2 (hown ⟨ir, hparse⟩) mapping huses
    · obtain ⟨ir, mapping, -, heq, -⟩ := honly _ hmem
      cases heq
    · obtain ⟨ir, mapping, -, heq, -⟩ := honly _ hmem
      cases heq
  case executeOwn =>
    rintro h ⟨ir, hparse, hgate⟩
    refine (uses_own_iff ir).1 fun mapping huses => h.resolved mapping ?_
    exact mem_executeAltrqlQuery_of_resolve hparse hgate (mem_resolveRequest.2 ⟨mapping, rfl, huses⟩)
  case ownExecute =>
    intro hown
    refine ⟨fun mapping hmem => ?_, fun em hmem => executeAltrqlQuery_named hu hmem,
      fun hnames id query hmem => ?_⟩
    · obtain ⟨ir, hparse, hgate, hresolve | hcontinues⟩ := mem_executeAltrqlQuery hmem
      · obtain ⟨mapping', heq, huses⟩ := mem_resolveRequest.1 hresolve
        cases heq
        exact (uses_own_iff ir).2 (hown ⟨ir, hparse, hgate⟩) mapping huses
      · exact absurd rfl (hcontinues.unresolved mapping)
    · obtain ⟨ir, hparse, hgate, hresolve | hcontinues⟩ := mem_executeAltrqlQuery hmem
      · obtain ⟨mapping, heq, -⟩ := mem_resolveRequest.1 hresolve
        cases heq
      · obtain ⟨r, hr⟩ := hcontinues.compiled
        obtain ⟨mapping, huses⟩ := resolveRequest_used hnames hr
        exact ⟨mapping, mem_executeAltrqlQuery_of_resolve hparse hgate
          (mem_resolveRequest.2 ⟨mapping, rfl, huses⟩)⟩

end

/-- The users of `crm` are the employees of `hr` for an ACTIVE mapping of the latter. -/
def payrollSite : Site ℤ where
  u := .ascii
  rt := .ints
  clock := .newYear
  registry :=
    { Repository.empty with
      mappings := ⟨[{ id := "m1", logicalModelId := "people", sourceId := "hr", status := .active }],
        by decide⟩
      entityMappings := ⟨[{ id := "em1", sourceMappingId := "m1", logicalEntityId := "e1",
                            logicalEntityName := "User", physicalEntityName := "employees" }],
        by decide⟩ }
  source? id := if id ∈ ["crm", "hr"] then some { id, name := id, type := .postgresql } else none
  latestSchema _ := none
  answers _ _ := .ok ([], [])

/-- A deletion from `crm` that names the mapping of `hr`. -/
def payrollRequest : ExplicitRequest where
  query := "DELETE User WHERE \x7b id = 1 \x7d;"
  sourceId := "crm"
  named := by decide
  mappingId := some "m1"

theorem spaceApart_ascii : SpaceApart .ascii := by
  intro c hc
  have hrange : 48 ≤ c.toNat ∧ c.toNat ≤ 122 := by
    change (decide (c.val ≥ 'A'.val ∧ c.val ≤ 'Z'.val) ||
      (decide (c.val ≥ 'a'.val) && decide (c.val ≤ 'z'.val)) ||
      (decide (c.val ≥ '0'.val) && decide (c.val ≤ '9'.val))) = true at hc
    simp only [Bool.or_eq_true, Bool.and_eq_true, decide_eq_true_eq] at hc
    simp only [Char.toNat, ge_iff_le, UInt32.le_iff_toNat_le] at hc ⊢
    have hval : c.toNat = c.val.toNat := rfl
    simp at hc
    omega
  simp only [isspace]
  simp
  omega

theorem appliesOwnMapping_payroll :
    (AppliesOwnMapping payrollSite payrollRequest (bindAltrqlQuery payrollSite payrollRequest).events ↔
      ((∃ ir, parseAltrql payrollSite.u payrollRequest.query = .ok ir) →
        payrollRequest.NamesOwn payrollSite.registry)) ∧
    (AppliesOwnMapping payrollSite payrollRequest
        (executeAltrqlQuery payrollSite payrollRequest none).events ↔
      ((∃ ir, parseAltrql payrollSite.u payrollRequest.query = .ok ir ∧
          scopeGate ir.operation none = true) →
        payrollRequest.NamesOwn payrollSite.registry)) :=
  appliesOwnMapping_iff payrollSite payrollRequest none spaceApart_ascii

theorem not_appliesOwnMapping_payroll : ¬ AppliesOwnMapping payrollSite payrollRequest
    (executeAltrqlQuery payrollSite payrollRequest none).events := by
  intro h
  have haccepted : (parseAltrql .ascii payrollRequest.query).toOption.isSome = true := by
    decide +kernel
  cases hparse : parseAltrql .ascii payrollRequest.query with
  | error e =>
    rw [hparse] at haccepted
    cases haccepted
  | ok ir =>
    have hgate : scopeGate ir.operation none = true := by cases ir.operation <;> rfl
    obtain ⟨mapping, hmapping, hactive, hsource⟩ : ∃ mapping,
        getSourceMapping payrollSite.registry "m1" = .ok mapping ∧ mapping.status = .active ∧
          mapping.sourceId = "hr" := ⟨_, rfl, rfl, rfl⟩
    have huses : Uses payrollSite payrollRequest ir mapping :=
      ⟨rfl, _, (foundFor_by_id rfl).2 ⟨mapping, hmapping, hactive, rfl⟩⟩
    have hown := h.resolved mapping (mem_executeAltrqlQuery_of_resolve hparse hgate
      (mem_resolveRequest.2 ⟨mapping, rfl, huses⟩))
    exact absurd (hsource.symm.trans hown.source) (by decide)

end AltrStream.Application
