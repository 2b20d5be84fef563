import AltrStream.Domain.QueryValidation
import AltrStream.Foundations.Dict
import AltrStream.Foundations.Transaction
import AltrStream.Lowering.CreateGroups
import AltrStream.Lowering.Registry

/-! # The SQL connectors

`execute_query` and `execute_batch` of the connectors for PostgreSQL, MySQL and
SQLite, over the sessions of a database. What a database refuses and answers is a
parameter; it carries a statement out as a whole, and an INSERT appends its rows.
The drivers' answers are returned as they are.
-/
namespace AltrStream.Connectors
open Foundations Foundations.Transact Python Domain Lowering Semantics

/-- An exception of a driver, with its text after `_sanitize_error`. -/
structure Failure where
  /-- It is of one of the classes that the connector expects. -/
  expected : Bool
  text : String
  deriving DecidableEq

/-- `QueryExecutionError(f"{...}: {text}", details=text)` -/
def Failure.toError (onExpected onOther : String) (f : Failure) : QueryError :=
  .queryExecution s!"{if f.expected then onExpected else onOther}: {f.text}" (some f.text)

/-- A row of a table or a document of a collection, with the values that were given for it. -/
abbrev Entry := String × Dict String Scalar

/-- All rows and documents, in the order of their insertion. -/
abbrev Store := List Entry

/-- A statement as it reaches a connector: its validated text, what the text says, and the
parameters. -/
structure NativeQuery where
  text : String
  statement : SqlStatement
  parameters : List Scalar

/-- The statement is one that changes rows. -/
def NativeQuery.writes (q : NativeQuery) : Bool :=
  match q.statement with
  | .insert .. | .update .. | .delete .. => true
  | .select .. => false

/-- A database behind a connector, which answers a statement with `ρ`. -/
structure SqlServer (ρ : Type) where
  clock : Clock
  connection : Except Failure Unit
  refuses : Store → NativeQuery → Option Failure
  refusesCommit : Store → Option Failure
  reply : Store → NativeQuery → ρ
  /-- The effect of UPDATE, DELETE and SELECT. -/
  others : NativeQuery → Store → Store

namespace SqlServer

variable {ρ : Type} (server : SqlServer ρ)

/-- The rows that an INSERT writes. -/
def insertedRows (table : String) (columns : List String) (rows : List (List SqlOperand))
    (parameters : List Scalar) : Store :=
  rows.map fun row => (table, SqlLowerer.spelledRow server.clock parameters columns row)

def effect (q : NativeQuery) (store : Store) : Store :=
  match q.statement with
  | .insert table columns rows => store ++ server.insertedRows table columns rows q.parameters
  | _ => server.others q store

/-- One statement on the store that it sees. -/
def carryOut (q : NativeQuery) (store : Store) : Except Failure (ρ × Store) :=
  match server.refuses store q with
  | some f => .error f
  | none => .ok (server.reply store q, server.effect q store)

/-- `cursor.execute`, `stmt.fetch` -/
def run (q : NativeQuery) : Transact Store Failure ρ := Transact.statement (server.carryOut q)

end SqlServer

section
variable {ρ : Type} (server : SqlServer ρ)

namespace PostgreSQL

/-- `PostgreSQLConnector.execute_query`: a statement of its own. -/
def executeQuery (q : NativeQuery) : Transact Store QueryError ρ :=
  (answer server.connection >>= fun _ => server.run q).mapError
    (·.toError "PostgreSQL query execution failed" "Unexpected error executing query")

/-- `PostgreSQLConnector.execute_batch`: `async with conn.transaction()`. -/
def executeBatch (queries : List NativeQuery) : Transact Store QueryError (List ρ) :=
  (answer server.connection >>= fun _ => begin >>= fun _ =>
    (committing server.refusesCommit (queries.mapM server.run)).onError rollback).mapError
    (·.toError "PostgreSQL batch execution failed" "Unexpected error executing query batch")

end PostgreSQL

namespace MySQL

/-- `MySQLConnector.execute_query`; the connections have `autocommit=True`. -/
def executeQuery (q : NativeQuery) : Transact Store QueryError ρ :=
  (answer server.connection >>= fun _ => server.run q).mapError
    (·.toError "MySQL query execution failed" "Unexpected error executing query")

/-- `MySQLConnector.execute_batch`: `begin`, `commit`, and a roll-back on any exception. -/
def executeBatch (queries : List NativeQuery) : Transact Store QueryError (List ρ) :=
  (answer server.connection >>= fun _ =>
    (begin >>= fun _ => committing server.refusesCommit (queries.mapM server.run)).onError
      rollback).mapError
    (·.toError "MySQL batch execution failed" "Unexpected error executing query batch")

end MySQL

namespace SQLite

/-- `sqlite3` opens a transaction before a statement that writes. -/
def execute (q : NativeQuery) : Transact Store Failure ρ :=
  if q.writes then implicitly (server.run q) else server.run q

def failed (message : String) : Failure → QueryError := Failure.toError message message

/-- `SQLiteConnector.execute_query`; closing the connection drops what is not committed. -/
def executeQuery (q : NativeQuery) : Transact Store QueryError ρ :=
  (answer server.connection >>= fun _ =>
    (committing server.refusesCommit (execute server q)).afterwards rollback).mapError
    (failed "SQLite query execution failed")

/-- `SQLiteConnector.execute_batch` -/
def executeBatch (queries : List NativeQuery) : Transact Store QueryError (List ρ) :=
  (answer server.connection >>= fun _ =>
    ((committing server.refusesCommit (queries.mapM (execute server))).onError rollback).afterwards
      rollback).mapError
    (failed "SQLite batch execution failed")

end SQLite

/-- The connector that is registered for a source type. -/
def executeQuery : SqlSource → NativeQuery → Transact Store QueryError ρ
  | .postgresql => PostgreSQL.executeQuery server
  | .mysql => MySQL.executeQuery server
  | .sqlite => SQLite.executeQuery server

def executeBatch : SqlSource → List NativeQuery → Transact Store QueryError (List ρ)
  | .postgresql => PostgreSQL.executeBatch server
  | .mysql => MySQL.executeBatch server
  | .sqlite => SQLite.executeBatch server

/-! ### Atomicity -/

theorem within_run (q : NativeQuery) : Within IsOpen (server.run q) (server.effect q) := by
  refine Within.statement fun t a t' h => ?_
  unfold SqlServer.carryOut at h
  split at h
  · cases h
  · cases h
    rfl

theorem within_execute {q : NativeQuery} (hwrites : q.writes = true) :
    Within (fun _ => True) (SQLite.execute server q) (server.effect q) := by
  rw [SQLite.execute, if_pos hwrites]
  exact (within_run server q).implicitly

theorem allOrNothing_run (q : NativeQuery) (stored : Store) :
    AllOrNothing (server.run q) stored (server.effect q stored) := by
  refine AllOrNothing.statement fun a t h => ?_
  unfold SqlServer.carryOut at h
  split at h
  · cases h
  · cases h
    rfl

/-- Every SQL connector carries out a single statement as a whole. -/
theorem allOrNothing_executeQuery (src : SqlSource) {q : NativeQuery} (hwrites : q.writes = true)
    (stored : Store) :
    AllOrNothing (executeQuery server src q) stored (server.effect q stored) := by
  cases src with
  | postgresql | mysql =>
    exact AllOrNothing.mapError_iff.2
      (AllOrNothing.answer_bind fun _ _ => allOrNothing_run server q stored)
  | sqlite =>
    exact AllOrNothing.mapError_iff.2 (AllOrNothing.answer_bind fun _ _ =>
      AllOrNothing.implicit_closed (within_execute server hwrites))

/-- Every SQL connector carries out a batch of statements as a whole. -/
theorem allOrNothing_executeBatch (src : SqlSource) {queries : List NativeQuery}
    (hwrites : ∀ q ∈ queries, q.writes = true) (stored : Store) :
    AllOrNothing (executeBatch server src queries) stored
      (queries.foldl (fun store q => server.effect q store) stored) := by
  have hrun : Within IsOpen (queries.mapM server.run)
      fun store => queries.foldl (fun store q => server.effect q store) store :=
    Within.mapM fun q _ => within_run server q
  cases src with
  | postgresql =>
    exact AllOrNothing.mapError_iff.2 (AllOrNothing.answer_bind fun _ _ => AllOrNothing.explicit hrun)
  | mysql =>
    exact AllOrNothing.mapError_iff.2
      (AllOrNothing.answer_bind fun _ _ => AllOrNothing.explicit_guarded hrun)
  | sqlite =>
    have hexecute : Within (fun _ => True) (queries.mapM (SQLite.execute server))
        fun store => queries.foldl (fun store q => server.effect q store) store :=
      Within.mapM fun q hq => within_execute server (hwrites q hq)
    exact AllOrNothing.mapError_iff.2
      (AllOrNothing.answer_bind fun _ _ => (AllOrNothing.implicit hexecute).afterwards)

end

end AltrStream.Connectors
