import Mathlib.Data.String.Basic

/-! # Exceptions of the domain layer

The subclasses of `AltrStreamError` in `domain/errors.py` that the registry and
the planner raise, and the store's own error for a key that is taken.
-/
namespace AltrStream.Domain

inductive AltrStreamError where
  | sourceNotFound (sourceId : String)
  | logicalModelNotFound (modelId : String)
  | logicalModelAlreadyExists (name : String)
  | logicalEntityNotFound (entityIdOrName : String) (modelId : Option String)
  | logicalFieldNotFound (fieldIdOrName : String)
  | sourceMappingNotFound (mappingId : String)
  | mappingValidation (message : String)
  | duplicateMapping (message : String)
  /-- `sqlalchemy.exc.IntegrityError` -/
  | integrity
  deriving DecidableEq, Repr

def AltrStreamError.message : AltrStreamError → String
  | sourceNotFound id => s!"Source with id '{id}' was not found."
  | logicalModelNotFound id => s!"Logical model with id '{id}' was not found."
  | logicalModelAlreadyExists name => s!"Logical model with name '{name}' already exists."
  | logicalEntityNotFound entity model =>
    s!"Logical entity '{entity}' was not found" ++
      ((model.filter (· ≠ "")).elim "" fun m => s!" in model '{m}'") ++ "."
  | logicalFieldNotFound field => s!"Logical field '{field}' was not found."
  | sourceMappingNotFound id => s!"Source mapping with id '{id}' was not found."
  | mappingValidation message | duplicateMapping message => message
  | integrity => "UNIQUE constraint failed"

/-- The subclasses that executing a native query raises. -/
inductive QueryError where
  | sourceNotFound (sourceId : String)
  | readOnlyQueryRequired (message : String)
  | queryExecution (message : String) (details : Option String)
  | queryExecutionNotSupported (message : String)
  deriving DecidableEq, Repr

def QueryError.message : QueryError → String
  | sourceNotFound id => (AltrStreamError.sourceNotFound id).message
  | readOnlyQueryRequired message | queryExecution message _ | queryExecutionNotSupported message =>
    message

end AltrStream.Domain
