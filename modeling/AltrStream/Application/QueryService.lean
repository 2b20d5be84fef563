import AltrStream.Connectors.MongoDB
import AltrStream.QueryEngine.Binder

/-! # Executing what a lowerer returns

`QueryService` on lowered queries: a SQL text is validated and a MongoDB command,
which comes with its specification, passes as it is. A batch goes to `execute_batch`
and a single query to `execute_query`, so whether a CREATE is stored as a whole is
decided by the connector, and by the number of its groups only in SQL.
-/
namespace AltrStream.Application
open Foundations Foundations.Transact Python Domain QueryEngine Lowering Connectors Semantics

/-- A registered source, as the database behind its connector. -/
inductive Database (ρ : Type) where
  | sql (src : SqlSource) (server : SqlServer ρ)
  | mongodb (server : MongoServer ρ)

inductive RunError where
  | engine (e : PyError)
  | service (e : QueryError)

section
variable {ρ : Type}

/-- `validate_query`, beside the statement that the text spells. -/
def prepare (q : PhysicalQuery) : Except QueryError NativeQuery := do
  return ⟨← validateQuery q.query, q.statement, q.parameters⟩

/-- `QueryService.execute_query` on a SQL source. -/
def executeQuery (src : SqlSource) (server : SqlServer ρ) (q : PhysicalQuery) :
    Transact Store QueryError ρ := do
  let query ← answer (prepare q)
  Connectors.executeQuery server src query

/-- `QueryService.execute_batch` on a SQL source. -/
def executeBatch (src : SqlSource) (server : SqlServer ρ) (qs : List PhysicalQuery) :
    Transact Store QueryError (List ρ) := do
  let queries ← answer (qs.mapM prepare)
  Connectors.executeBatch server src queries

def executeLowered (src : SqlSource) (server : SqlServer ρ) :
    PhysicalQueryResult → Transact Store QueryError (List ρ)
  | .single q => do return [← executeQuery src server q]
  | .batch _ queries _ _ => executeBatch src server queries

/-- Lower a bound query for a source and execute the result. -/
def Database.execute (clock : Clock) (query : BoundAltrQueryIR) :
    Database ρ → Transact Store RunError (List ρ)
  | .sql src server => do
    let lowered ← answer ((src.lowerer.lower query).mapError .engine)
    (executeLowered src server lowered).mapError .service
  | .mongodb server => do
    let lowered ← answer ((MongoDB.lower clock query).mapError .engine)
    (do return [← executeCommand server lowered.command]).mapError .service

/-- The source of a query is looked up before anything else. -/
def executeBound (sources : String → Option (Database ρ)) (clock : Clock)
    (query : BoundAltrQueryIR) : Transact Store RunError (List ρ) :=
  match sources query.sourceId with
  | none => answer (.error (.service (.sourceNotFound query.sourceId)))
  | some database => database.execute clock query

/-! ### What a CREATE stores -/

/-- The documents of a CREATE. -/
def documents (clock : Clock) (query : BoundAltrQueryIR) : List (Dict String Scalar) :=
  (recordsToCreate query).map fun rec => MongoDB.lowerAssignments clock rec.assignments

/-- The rows or documents of a CREATE, one for each of its records. -/
def Database.entries (clock : Clock) (query : BoundAltrQueryIR) : Database ρ → Store
  | .sql src server => (recordsToCreate query).map fun rec =>
    (src.lowerer.targetTable query.entity, src.lowerer.recordRow server.clock rec)
  | .mongodb _ => (documents clock query).map fun d => (query.entity.name, d)

/-- A MongoDB server takes the first document of the CREATE and refuses a later one. -/
def Database.RefusesMidway (clock : Clock) (query : BoundAltrQueryIR) (stored : Store) :
    Database ρ → Prop
  | .sql _ _ => False
  | .mongodb server => strip query.entity.name ≠ "" ∧
    ∃ k, server.firstRefused query.entity.name stored (documents clock query) = some (k + 1)

end

/-! ### SQL -/

section
variable {ρ : Type} (src : SqlSource) (server : SqlServer ρ)

/-- A statement that inserts the rows of some records of the query. -/
structure InsertsRecords (query : BoundAltrQueryIR) (group : List BoundCreateRecord)
    (q : PhysicalQuery) : Prop where
  insert : ∃ table columns rows, q.statement = .insert table columns rows
  effect : ∀ text store, server.effect ⟨text, q.statement, q.parameters⟩ store = store ++
    group.map fun rec => (src.lowerer.targetTable query.entity, src.lowerer.recordRow server.clock rec)

theorem insertsRecords_of_group {query : BoundAltrQueryIR} {group : List BoundCreateRecord}
    (hfills : FillsColumns group) {q : PhysicalQuery}
    (hq : src.lowerer.physicalQuery query
      (src.lowerer.lowerGroup (src.lowerer.targetTable query.entity) group) = .ok q) :
    InsertsRecords src server query group q := by
  simp only [SqlLowerer.physicalQuery, bind_eq_ok, pure_eq_ok] at hq
  obtain ⟨⟨statement, parameters⟩, hrun, rfl⟩ := hq
  obtain ⟨-, hpost⟩ := SqlLowerer.emits_lowerGroup src.lowerer server.clock _ hfills [] _ _ hrun
  obtain ⟨columns, rows, rfl, hrows⟩ := hpost parameters List.prefix_rfl
  refine ⟨⟨_, _, _, rfl⟩, fun text store => congrArg (store ++ ·) ?_⟩
  have htagged := congrArg (List.map fun row => (src.lowerer.targetTable query.entity, row)) hrows
  simpa only [SqlServer.insertedRows, List.map_map, Function.comp_def] using htagged

/-- The statements that `prepare` lets through have the effect of the groups, one after another. -/
theorem effect_of_groups {query : BoundAltrQueryIR} {groups : List (List BoundCreateRecord)}
    {qs : List PhysicalQuery} {natives : List NativeQuery}
    (hqs : List.Forall₂ (InsertsRecords src server query) groups qs)
    (hnatives : List.Forall₂ (fun q native => prepare q = .ok native) qs natives) (store : Store) :
    (∀ native ∈ natives, native.writes = true) ∧
      natives.foldl (fun store native => server.effect native store) store = store ++
        groups.flatten.map fun rec =>
          (src.lowerer.targetTable query.entity, src.lowerer.recordRow server.clock rec) := by
  induction hqs generalizing natives store with
  | nil => cases hnatives; simp
  | @cons group q groups qs hq _ ih =>
    cases hnatives with
    | @cons _ native _ natives hnative hrest =>
      obtain ⟨text, -, rfl⟩ := map_eq_ok.1 hnative
      obtain ⟨hwrites, heffect⟩ := ih hrest
        (server.effect ⟨text, q.statement, q.parameters⟩ store)
      obtain ⟨table, columns, rows, hinsert⟩ := hq.insert
      refine ⟨List.forall_mem_cons.2 ⟨?_, hwrites⟩, ?_⟩
      · rw [NativeQuery.writes]
        simp only [hinsert]
      · rw [List.foldl_cons, heffect, hq.effect, List.flatten_cons, List.map_append,
          List.append_assoc]

/-- A CREATE is stored as a whole through every SQL connector. -/
theorem allOrNothing_executeLowered {query : BoundAltrQueryIR} (hop : query.operation = .create)
    {lowered : PhysicalQueryResult} (hlowered : src.lowerer.lower query = .ok lowered)
    (clock : Clock) (stored : Store) :
    AllOrNothing (executeLowered src server lowered) stored
      (stored ++ (Database.sql src server).entries clock query) := by
  unfold SqlLowerer.lower at hlowered
  rw [if_pos hop] at hlowered
  obtain ⟨queries, hqueries, hlowered⟩ := bind_eq_ok.1 hlowered
  have hinserts : List.Forall₂ (InsertsRecords src server query)
      (groupRecords (recordsToCreate query)) queries :=
    ((List.forall₂_and_left _ _).2 ⟨fillsColumns_groupRecords _, mapM_eq_ok.1 hqueries⟩).imp
      fun _ _ ⟨hfills, hq⟩ => insertsRecords_of_group src server hfills hq
  have hbatch : ∀ natives, queries.mapM prepare = .ok natives →
      (∀ native ∈ natives, native.writes = true) ∧
        natives.foldl (fun store native => server.effect native store) stored =
          stored ++ (Database.sql src server).entries clock query := by
    intro natives hnatives
    obtain ⟨hwrites, heffect⟩ :=
      effect_of_groups src server hinserts (mapM_eq_ok.1 hnatives) stored
    rw [flatten_groupRecords] at heffect
    exact ⟨hwrites, heffect⟩
  split at hlowered
  · rename_i q
    cases hlowered
    refine AllOrNothing.bind_look_iff.2 (AllOrNothing.answer_bind fun native hnative => ?_)
    obtain ⟨hwrites, heffect⟩ := hbatch [native] (by simp [hnative])
    exact heffect ▸ allOrNothing_executeQuery server src (hwrites native (by simp)) stored
  · cases hlowered
    refine AllOrNothing.answer_bind fun natives hnatives => ?_
    obtain ⟨hwrites, heffect⟩ := hbatch natives hnatives
    exact heffect ▸ allOrNothing_executeBatch server src hwrites stored

end

/-! ## Which CREATE is stored as a whole

Every SQL connector stores a CREATE as a whole, whatever its database refuses.
MongoDB has no transaction around the documents of a CREATE, so it keeps those
before the first that is refused.
-/

section
variable {ρ : Type}

/-- MongoDB stores the documents as a whole unless the server refuses one in their midst. -/
theorem allOrNothing_insertMany_iff (server : MongoServer ρ) (collection : String)
    (documents : List (Dict String Scalar)) (stored : Store) :
    AllOrNothing (executeCommand server (.insertMany collection documents)) stored
        (stored ++ documents.map fun d => (collection, d)) ↔
      ¬ (strip collection ≠ "" ∧ ∃ k, server.firstRefused collection stored documents = some (k + 1)) := by
  by_cases hname : strip collection = ""
  · refine iff_of_true ?_ fun h => h.1 hname
    rw [executeCommand, commandCollection, if_pos hname]
    exact AllOrNothing.answer_bind fun _ h => nomatch h
  rcases documents with _ | ⟨document, rest⟩
  · refine iff_of_true ?_ fun ⟨_, _, h⟩ => nomatch h
    rw [executeCommand]
    refine AllOrNothing.answer_bind fun _ _ => ?_
    exact AllOrNothing.answer_bind fun _ h => nomatch h
  have hrun := server.insertMany_run collection (document :: rest) stored
  have hinsert : AllOrNothing (executeCommand server (.insertMany collection (document :: rest)))
      stored (stored ++ (document :: rest).map fun d => (collection, d)) ↔
      AllOrNothing (server.insertMany collection (document :: rest)) stored
        (stored ++ (document :: rest).map fun d => (collection, d)) := by
    rw [executeCommand, commandCollection, if_neg hname]
    exact AllOrNothing.bind_look_iff.trans AllOrNothing.mapError_iff
  rw [hinsert, AllOrNothing]
  cases hfirst : server.firstRefused collection stored (document :: rest) with
  | none =>
    rw [hfirst] at hrun
    exact iff_of_true (by rw [hrun]) fun ⟨_, _, h⟩ => nomatch h
  | some k =>
    rw [hfirst] at hrun
    obtain ⟨f, hrun⟩ := hrun
    rw [hrun]
    cases k with
    | zero => exact iff_of_true (by simp) fun ⟨_, _, h⟩ => nomatch h
    | succ k =>
      refine iff_of_false (fun h => ?_) fun h => h ⟨hname, k, rfl⟩
      have hlength := congrArg (fun s => s.stored.length) h
      simp only [List.length_append, List.length_map, List.length_take] at hlength
      have hlt := server.firstRefused_lt hfirst
      omega

/-- A CREATE is stored as a whole, or not at all if anything is raised, exactly unless the
source is a MongoDB server that takes its first document and refuses a later one. -/
theorem allOrNothing_create_iff (sources : String → Option (Database ρ)) (clock : Clock)
    {query : BoundAltrQueryIR} (hop : query.operation = .create) {database : Database ρ}
    (hsource : sources query.sourceId = some database) (stored : Store) :
    AllOrNothing (executeBound sources clock query) stored
        (stored ++ database.entries clock query) ↔
      ¬ database.RefusesMidway clock query stored := by
  rw [executeBound, hsource]
  cases database with
  | sql src server =>
    refine iff_of_true (AllOrNothing.answer_bind fun lowered hlowered => ?_) id
    exact AllOrNothing.mapError_iff.2
      (allOrNothing_executeLowered src server hop (mapError_eq_ok.1 hlowered) clock stored)
  | mongodb server =>
    have hlower : MongoDB.lower clock query =
        .ok ⟨.insertMany query.entity.name (documents clock query), query.sourceId, query.sourceName⟩ := by
      simp only [MongoDB.lower, MongoDB.lowerCommand, hop]
      rfl
    unfold Database.execute
    rw [hlower]
    exact AllOrNothing.mapError_iff.trans
      (AllOrNothing.bind_look_iff.trans (allOrNothing_insertMany_iff server _ _ stored))

end

/-! ### A CREATE with two equal records -/

namespace TestCreate
open TestSchema

def record : BoundCreateRecord := ⟨[⟨field "username" .string "varchar", .string "alice"⟩]⟩

/-- `CREATE users ((username: "alice"), (username: "alice"));` -/
def query : BoundAltrQueryIR where
  operation := .create
  entity := boundEntity users
  records := [record, record]
  sourceId := schema.sourceId
  sourceName := schema.sourceName

/-- The document of each record. -/
def document : Dict String Scalar := [("username", .str "alice")]

/-- A server with a unique index on the names. -/
def server : MongoServer Unit where
  refuses store collection d :=
    if (collection, d) ∈ store then some ⟨true, "E11000 duplicate key error"⟩ else none
  reply _ _ := ()
  others _ store := .ok ((), store)

def sources : String → Option (Database Unit) := fun _ => some (.mongodb server)

/-- A SQL database that takes every statement. -/
def database : SqlServer Unit where
  clock := .newYear
  connection := .ok ()
  refuses _ _ := none
  refusesCommit _ := none
  reply _ _ := ()
  others _ store := store

def mysqlSources : String → Option (Database Unit) := fun _ => some (.sql .mysql database)

end TestCreate

open TestCreate in
/-- The first record is stored although the CREATE is answered with an error. -/
theorem not_allOrNothing_create :
    AcceptedFrom .ascii "CREATE users ((username: \"alice\"), (username: \"alice\"));"
        TestSchema.schema query ∧
      (executeBound sources .newYear query ⟨[], none⟩).1.isOk = false ∧
      (executeBound sources .newYear query ⟨[], none⟩).2.stored = [("users", document)] ∧
      ¬ AllOrNothing (executeBound sources .newYear query) []
        ([] ++ (Database.mongodb server).entries .newYear query) := by
  have hstored : (executeBound sources .newYear query ⟨[], none⟩).2.stored =
      [("users", document)] := by decide +kernel
  have hfailed : (executeBound sources .newYear query ⟨[], none⟩).1.isOk = false := by
    decide +kernel
  refine ⟨acceptedFrom_of_run (by decide +kernel), hfailed, hstored, fun h => ?_⟩
  unfold AllOrNothing at h
  rcases hrun : executeBound sources .newYear query ⟨[], none⟩ with ⟨e | a, s⟩
  · rw [hrun] at h hstored
    rw [show s = ⟨[], none⟩ from h] at hstored
    cases hstored
  · rw [hrun] at hfailed
    cases hfailed

open TestCreate in
/-- A MySQL database that takes every statement stores both records. -/
theorem allOrNothing_create_mysql :
    AllOrNothing (executeBound mysqlSources .newYear query) []
      ([] ++ (Database.sql .mysql database).entries .newYear query) :=
  (@allOrNothing_create_iff _ mysqlSources .newYear query rfl (.sql .mysql database) rfl []).2 id

end AltrStream.Application
