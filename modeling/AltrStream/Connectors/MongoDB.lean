import AltrStream.Connectors.Sql
import AltrStream.Lowering.Mongo

/-! # The MongoDB connector

`_execute_insert_many` hands all documents to one ordered `insert_many` outside any
transaction: they are inserted one by one up to the first that the server refuses.
-/
namespace AltrStream.Connectors
open Foundations Foundations.Transact Python Domain
open Lowering.MongoDB (Command)

/-- A MongoDB server, which answers a command with `ρ`. -/
structure MongoServer (ρ : Type) where
  refuses : Store → String → Dict String Scalar → Option Failure
  reply : Store → Command → ρ
  /-- `update_many`, `delete_many` and `find`. -/
  others : Command → Store → Except Failure (ρ × Store)

namespace MongoServer

variable {ρ : Type} (server : MongoServer ρ)

/-- The insertion of one document. -/
def insertOne (collection : String) (document : Dict String Scalar) :
    Transact Store Failure Unit :=
  statement fun store =>
    match server.refuses store collection document with
    | some f => .error f
    | none => .ok ((), store ++ [(collection, document)])

/-- `insert_many(documents, ordered=True)` -/
def insertMany (collection : String) : List (Dict String Scalar) → Transact Store Failure Unit
  | [] => pure ()
  | document :: rest => do
    server.insertOne collection document
    insertMany collection rest

/-- The place of the first document that an ordered insertion is refused at. -/
def firstRefused (collection : String) : Store → List (Dict String Scalar) → Option ℕ
  | _, [] => none
  | store, document :: rest =>
    match server.refuses store collection document with
    | some _ => some 0
    | none => (firstRefused collection (store ++ [(collection, document)]) rest).map (· + 1)

theorem firstRefused_lt {collection : String} {documents : List (Dict String Scalar)}
    {store : Store} {k : ℕ} (h : server.firstRefused collection store documents = some k) :
    k < documents.length := by
  induction documents generalizing store k with
  | nil => cases h
  | cons document rest ih =>
    rw [firstRefused] at h
    split at h
    · cases h
      exact Nat.succ_pos _
    · obtain ⟨j, hj, rfl⟩ := Option.map_eq_some_iff.1 h
      exact Nat.succ_lt_succ (ih hj)

/-- An ordered insertion keeps the documents before the one it is refused at. -/
theorem insertMany_run (collection : String) (documents : List (Dict String Scalar))
    (store : Store) :
    match server.firstRefused collection store documents with
    | none => server.insertMany collection documents ⟨store, none⟩ =
        (.ok (), ⟨store ++ documents.map fun d => (collection, d), none⟩)
    | some k => ∃ f, server.insertMany collection documents ⟨store, none⟩ =
        (.error f, ⟨store ++ (documents.take k).map fun d => (collection, d), none⟩) := by
  induction documents generalizing store with
  | nil => simp [firstRefused, insertMany, pure]
  | cons document rest ih =>
    cases hrefused : server.refuses store collection document with
    | some f =>
      have hone : server.insertOne collection document ⟨store, none⟩ = (.error f, ⟨store, none⟩) :=
        statement_of_error (show (match server.refuses store collection document with
          | some f => _
          | none => _) = _ by rw [hrefused])
      simp only [firstRefused, hrefused, insertMany]
      exact ⟨f, by rw [bind_of_error hone]; simp⟩
    | none =>
      have hone : server.insertOne collection document ⟨store, none⟩ =
          (.ok (), ⟨store ++ [(collection, document)], none⟩) :=
        statement_of_ok (show (match server.refuses store collection document with
          | some f => _
          | none => _) = _ by rw [hrefused])
      have hrest := ih (store ++ [(collection, document)])
      simp only [firstRefused, hrefused, insertMany]
      rw [bind_of_ok hone]
      cases hfirst : server.firstRefused collection (store ++ [(collection, document)]) rest with
      | none => simpa [hfirst] using hrest
      | some k => simpa [hfirst] using hrest

end MongoServer

def missingCollection : QueryError := .queryExecution
  "MongoDB command specification missing required string field 'collection'." none

def noDocuments : QueryError := .queryExecution
  ("MongoDB 'insert_many' requires a non-empty list of document dictionaries in 'documents'.") none

/-- How `execute_query` wraps an exception of the driver. -/
def mongoFailed : Failure → QueryError :=
  Failure.toError "MongoDB query execution failed" "Unexpected error executing MongoDB query"

/-- The collection that a command names. -/
def commandCollection : Command → String
  | .insertMany collection _ | .updateMany collection _ _ | .deleteMany collection _ => collection
  | .find collection .. => collection

/-- `MongoDBConnector.execute_query` on a command with its specification. -/
def executeCommand {ρ : Type} (server : MongoServer ρ) (command : Command) :
    Transact Store QueryError ρ := do
  answer (if Python.strip (commandCollection command) = "" then .error missingCollection else .ok ())
  match command with
  | .insertMany collection documents =>
    answer (if documents = [] then .error noDocuments else .ok ())
    (server.insertMany collection documents).mapError mongoFailed
    look fun session => server.reply session.view command
  | _ => (Transact.statement (server.others command)).mapError mongoFailed

end AltrStream.Connectors
