import AltrStream.Foundations.Traced
import AltrStream.Lowering.Mongo
import AltrStream.Lowering.Registry
import AltrStream.Planning.EntityResolution
import AltrStream.Planning.RowNames
import AltrStream.QueryEngine.Binder
import AltrStream.QueryEngine.BoundAst
import AltrStream.QueryEngine.Identifiers
import AltrStream.Security.ScopeGate

/-! # AltrQL requests that name their source

The explicit path of `execute_altrql_query` and `bind_altrql_query` in
`routes/altrql.py`. The source, the mapping and the model of a request are given
independently of each other; here is which mapping the query is compiled through,
what is sent to the source and by which field map the rows are named.
-/
namespace AltrStream.Application
open Foundations Python Domain QueryEngine Lowering Registry Planning Security Semantics

/-- A lowered query, for a SQL source or for MongoDB. -/
inductive Lowered where
  | sql (query : PhysicalQueryResult)
  | mongodb (query : MongoDB.PhysicalQuery)

/-- `get_lowerer(source.type).lower(bound_ir)` -/
def lowerFor (clock : Clock) (type : SourceType) (query : BoundAltrQueryIR) : Except PyError Lowered :=
  match type with
  | .postgresql => .sql <$> SqlSource.postgresql.lowerer.lower query
  | .mysql => .sql <$> SqlSource.mysql.lowerer.lower query
  | .sqlite => .sql <$> SqlSource.sqlite.lowerer.lower query
  | .mongodb => .mongodb <$> MongoDB.lower clock query

/-- `AltrQLExecuteRequestDTO` with a source, the bind request being the part without the
confirmation. -/
structure ExplicitRequest where
  query : String
  sourceId : String
  named : sourceId ≠ ""
  mappingId : Option String := none
  logicalModelId : Option String := none
  normalize : Bool := false
  confirmMassMutation : Bool := false

/-- What the routes work with. -/
structure Site (V : Type) where
  u : Unicode
  rt : Runtime V
  clock : Clock
  registry : Repository
  source? : String → Option Source
  latestSchema : String → Option SourceSchema
  /-- What `QueryService` answers to a query that is sent to a source: columns and rows. -/
  answers : String → Lowered → Except QueryError (List String × List (Row V))

/-- What a route does: it calls `resolve_logical_ir` with a mapping, sends a query to a source and
names rows by an entity mapping. -/
inductive RouteAction where
  | resolve (mapping : SourceMapping)
  | execute (sourceId : String) (query : Lowered)
  | normalize (em : EntityMapping)

/-- What a request is answered with when it fails. -/
inductive RouteError where
  | engine (e : PyError)
  | forbidden (operation : QueryOperation)
  | stream (e : AltrStreamError)
  | schemaNotFound (sourceId : String)
  | confirmationRequired (classification : MutationClassification)
  | service (e : QueryError)

abbrev Route := Traced RouteAction RouteError

/-! ### The mapping of a request -/

section
variable (py : Casing) (r : Repository)

/-- The first active mapping with an entity mapping for the entity, or else the first one with its
first entity mapping. -/
def chooseMapping (entityName : String) (active : List SourceMapping) :
    Option SourceMapping × Option EntityMapping :=
  match active.findSome? fun m => (findMatchingEntityMapping py m entityName).map (m, ·) with
  | some (m, em) => (some m, some em)
  | none => (active.head?, active.head?.bind (·.entityMappings.head?))

/-- `_find_active_source_and_entity_mapping` -/
def findActiveSourceAndEntityMapping (sourceId entityName : String)
    (mappingId logicalModelId : Option String) :
    Except AltrStreamError (Option SourceMapping × Option EntityMapping) :=
  match given mappingId, given logicalModelId with
  | some mappingId, _ => do
    let mapping ← getSourceMapping r mappingId
    raiseIf (mapping.status ≠ .active) <| .mappingValidation <|
      s!"Cannot resolve query with mapping '{mappingId}' in '{mapping.status.value}' status. " ++
        "Only ACTIVE mappings can be used for execution."
    return (some mapping, findMatchingEntityMapping py mapping entityName)
  | none, some modelId => do
    let active := (r.listSourceMappings (some modelId) (some sourceId)).filter (·.status = .active)
    raiseIf (active = []) <| .mappingValidation
      s!"No ACTIVE mapping found for logical model '{modelId}' and source '{sourceId}'."
    raiseIf (1 < active.length) <| .mappingValidation
      s!"Ambiguous active mappings for logical model '{modelId}' and source '{sourceId}'."
    return chooseMapping py entityName active
  | none, none =>
    .ok (chooseMapping py entityName
      ((r.listSourceMappings none (some sourceId)).filter (·.status = .active)))

end

/-! ### The rows of the answer -/

section
variable {V : Type} (rt : Runtime V)

/-- `_normalize_result_rows` for the field mappings of an entity mapping: `ir` is the query of the
request, `compiled` the one compiled from it. -/
def normalizeResultRows (fms : List FieldMapping) (ir compiled : AltrQueryIR) (columns : List String)
    (rows : List (Row V)) : List String × List (Row V) :=
  let physicalToLogical := (fieldMapsOf fms).physicalToLogical
  let logicalOrder := fms.map (·.logicalFieldName)
  let aliases := if ir.isWildcardProjection then [] else rt.traversal (aliasesOf compiled).dedup
  let named := rows.map (normalizeRow rt.py physicalToLogical false aliases)
  if physicalToLogical = [] then (columns, rows)
  else if ir.isWildcardProjection then
    (logicalOrder.filter fun f =>
      f ∈ physicalToLogical.map Prod.snd || named.any fun row => row.contains f, named)
  else
    let projected := ir.projection.map outColumn
    (projected, named.map fun row =>
      .ofEntries (projected.filterMap fun col => (row.get? col).map (col, ·)))

end

/-! ### The routes -/

section
variable {V : Type} (site : Site V) (request : ExplicitRequest)

/-- The request asks for logical names. -/
def ExplicitRequest.asksForMapping : Bool :=
  (given request.mappingId).isSome || (given request.logicalModelId).isSome || request.normalize

/-- The query over physical names and the entity mapping that was found, if a mapping is used. -/
def resolveRequest (ir : AltrQueryIR) : Route (AltrQueryIR × Option EntityMapping) :=
  if request.asksForMapping then do
    let (mapping, em) ← Traced.answer <| Except.mapError .stream <|
      findActiveSourceAndEntityMapping site.rt.py site.registry request.sourceId ir.entity
        request.mappingId request.logicalModelId
    match mapping with
    | some mapping =>
      Traced.act (.resolve mapping)
      let compiled ← Traced.answer <| (resolveLogicalIr site.rt.py ir mapping).mapError .stream
      return (compiled, em)
    | none => return (ir, em)
  else return (ir, none)

def getSource (sourceId : String) : Except RouteError Source :=
  (site.source? sourceId).elim (.error (.stream (.sourceNotFound sourceId))) .ok

/-- `get_latest_schema`, of a source that has one. -/
def getLatestSchema (sourceId : String) : Except RouteError SourceSchema := do
  let _ ← getSource site sourceId
  (site.latestSchema sourceId).elim (.error (.schemaNotFound sourceId)) .ok

/-- `bind_altrql_query` with a source. -/
def bindAltrqlQuery : Route (BoundAltrQueryIR × MutationClassification) := do
  let ir ← Traced.answer <| (parseAltrql site.u request.query).mapError .engine
  let (compiled, _) ← resolveRequest site request ir
  let schema ← Traced.answer <| getLatestSchema site request.sourceId
  let bound ← Traced.answer <| (bindAltrql compiled schema).mapError .engine
  return (bound, classifyQuery bound)

/-- `execute_altrql_query` with a source. -/
def executeAltrqlQuery (authKey : Option ApiKeyModel) : Route (List String × List (Row V)) := do
  let ir ← Traced.answer <| (parseAltrql site.u request.query).mapError .engine
  Traced.ensure (scopeGate ir.operation authKey) (.forbidden ir.operation)
  let (compiled, em) ← resolveRequest site request ir
  let source ← Traced.answer <| getSource site request.sourceId
  let schema ← Traced.answer <| getLatestSchema site request.sourceId
  let bound ← Traced.answer <| (bindAltrql compiled schema).mapError .engine
  let lowered ← Traced.answer <| (lowerFor site.clock source.type bound).mapError .engine
  let classification := classifyQuery bound
  Traced.ensure (classification.requiresConfirmation → request.confirmMassMutation)
    (.confirmationRequired classification)
  Traced.act (.execute request.sourceId lowered)
  let (columns, rows) ← Traced.answer <| (site.answers request.sourceId lowered).mapError .service
  match em with
  | some em =>
    if request.normalize then do
      Traced.act (.normalize em)
      return normalizeResultRows site.rt em.fieldMappings ir compiled columns rows
    else return (columns, rows)
  | none => return (columns, rows)

end

end AltrStream.Application
