import Mathlib.Data.Nat.Notation

/-! # Exceptions

The engine's exception classes of `domain/errors.py`, and Python's own ones that
its code can raise. Only the engine's classes are answered as client errors.
-/
namespace AltrStream.QueryEngine

inductive ErrorKind where
  | lexError
  | parseError
  | semanticError
  | unknownEntityError
  | unknownFieldError
  | typeCompatibilityError
  | valueError
  | overflowError
  | unboundLocalError
  | notImplementedError
  deriving DecidableEq, Repr

structure PyError where
  kind : ErrorKind
  message : String
  line : Option ℕ := none
  column : Option ℕ := none
  unexpectedToken : Option String := none
  expectedTokens : Option (List String) := none
  deriving DecidableEq, Repr

/-- `isinstance(e, AltrQueryError)` -/
def PyError.isAltrQueryError (e : PyError) : Bool :=
  match e.kind with
  | .lexError | .parseError | .semanticError | .unknownEntityError | .unknownFieldError
  | .typeCompatibilityError => true
  | .valueError | .overflowError | .unboundLocalError | .notImplementedError => false

end AltrStream.QueryEngine
