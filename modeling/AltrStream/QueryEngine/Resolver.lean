import AltrStream.QueryEngine.BoundAst
import AltrStream.QueryEngine.Errors

/-! # Schemas and their names

The parts of `domain/schema.py` that a query is bound to, and
`binding/resolver.py`, which looks its names up.
-/
namespace AltrStream.QueryEngine

structure FieldSchema where
  name : String
  dataType : StandardDataType := .string
  nativeDataType : String
  nullable : Bool := true
  isPrimaryKey : Bool := false
  deriving DecidableEq, Repr

/-- A table, view or collection. -/
structure EntitySchema where
  name : String
  namespace_ : String := "default"
  entityType : String := "TABLE"
  fields : List FieldSchema := []
  primaryKey : List String := []
  comment : Option String := none
  deriving DecidableEq, Repr

structure SourceSchema where
  sourceId : String
  sourceName : String
  entities : List EntitySchema := []
  deriving DecidableEq, Repr

def EntitySchema.getField (entity : EntitySchema) (fieldName : String) : Option FieldSchema :=
  entity.fields.find? fun f => f.name = fieldName

def resolveEntity (entityName : String) (schema : SourceSchema) : Except PyError EntitySchema :=
  match schema.entities.find? fun e => e.name = entityName with
  | some entity => .ok entity
  | none =>
    .error { kind := .unknownEntityError,
             message := s!"Unknown entity '{entityName}' in source schema '{schema.sourceName}'." }

/-- A nested path is a column of that name, or else a path into its root's column. -/
def resolveFieldPath (path : FieldPath) (entity : EntitySchema) : Except PyError FieldSchema :=
  let unknown := Except.error
    { kind := .unknownFieldError,
      message := s!"Unknown field '{path.fullPath}' on entity '{entity.name}'." }
  if path.isNested then
    match entity.getField path.fullPath, entity.getField path.root with
    | some field, _ => .ok field
    | none, some field => .ok field
    | none, none => unknown
  else
    match entity.getField path.root with
    | some field => .ok field
    | none => unknown

theorem resolveEntity_eq_ok {name : String} {schema : SourceSchema} {physical : EntitySchema} :
    resolveEntity name schema = .ok physical ↔
      (schema.entities.find? fun e => e.name = name) = some physical := by
  unfold resolveEntity
  cases schema.entities.find? fun e => e.name = name <;> simp

end AltrStream.QueryEngine
