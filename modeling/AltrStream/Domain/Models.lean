import AltrStream.QueryEngine.Resolver
import AltrStream.Foundations.Table
import AltrStream.Python.Str
import AltrStream.QueryEngine.BoundAst

/-! # Sources

`domain/source.py`: the registered data sources.
-/
namespace AltrStream.Domain

inductive SourceType where
  | postgresql
  | sqlite
  | mysql
  | mongodb
  deriving DecidableEq, Repr

def SourceType.value : SourceType → String
  | postgresql => "POSTGRESQL"
  | sqlite => "SQLITE"
  | mysql => "MYSQL"
  | mongodb => "MONGODB"

inductive SourceStatus where
  | active
  | inactive
  | error
  | unreachable
  | unknown
  deriving DecidableEq, Repr

structure Source where
  id : String
  name : String
  type : SourceType
  status : SourceStatus := .unknown
  deriving DecidableEq, Repr

/-! ## Source mappings

`domain/mapping.py`: how a logical model is mapped to a physical source, and the
type compatibility of `domain/schema.py` that a mapping is checked with.
-/
open Foundations QueryEngine

inductive MappingStatus where
  | draft
  | active
  | validated
  | error
  deriving DecidableEq, Repr

def MappingStatus.value : MappingStatus → String
  | draft => "DRAFT"
  | active => "ACTIVE"
  | validated => "VALIDATED"
  | error => "ERROR"

inductive MappingProvenance where
  | user
  | altrAlign
  | system
  deriving DecidableEq, Repr

structure FieldMapping where
  id : String
  entityMappingId : String
  logicalFieldId : String
  logicalFieldName : String
  physicalFieldName : String
  transformationRule : Option String := none
  deriving DecidableEq, Repr

/-- The columns of a stored entity mapping. -/
structure EntityMappingRow where
  id : String
  sourceMappingId : String
  logicalEntityId : String
  logicalEntityName : String
  physicalEntityName : String
  physicalNamespace : String := "public"
  deriving DecidableEq, Repr

structure EntityMapping extends EntityMappingRow where
  fieldMappings : List FieldMapping := []
  deriving DecidableEq, Repr

/-- The columns of a stored source mapping; `updatedAt` is a point of the clock. -/
structure SourceMappingRow where
  id : String
  logicalModelId : String
  sourceId : String
  version : String := "1.0.0"
  status : MappingStatus := .draft
  provenance : MappingProvenance := .user
  errorMessage : Option String := none
  updatedAt : ℕ := 0
  deriving DecidableEq, Repr

structure SourceMapping extends SourceMappingRow where
  entityMappings : List EntityMapping := []
  deriving DecidableEq, Repr

instance : Keyed FieldMapping String := ⟨(·.id)⟩

instance : Keyed EntityMappingRow String := ⟨(·.id)⟩

instance : Keyed SourceMappingRow String := ⟨(·.id)⟩

/-! ### Data types -/

def integerTypes : List StandardDataType := [.integer, .bigint, .smallint]

def floatTypes : List StandardDataType := [.float, .decimal]

def stringTypes : List StandardDataType := [.string, .uuid]

def temporalTypes : List StandardDataType := [.date, .time, .timestamp, .timestamptz]

/-- `are_datatypes_compatible`; the types that stand alone are compatible with themselves only. -/
def areDatatypesCompatible (logicalType physicalType : StandardDataType) : Bool :=
  logicalType = physicalType ||
    if logicalType ∈ integerTypes then physicalType ∈ integerTypes
    else if logicalType ∈ floatTypes then physicalType ∈ floatTypes ++ integerTypes
    else if logicalType ∈ stringTypes then physicalType ∈ stringTypes
    else if logicalType ∈ temporalTypes then physicalType ∈ temporalTypes
    else false

/-! ## Logical models

`domain/logical.py`: models, entities and fields, and how they are looked up.
A name is looked up exactly, then ignoring case, then ignoring a plural `s`.
-/
open Python

structure LogicalField where
  id : String
  logicalEntityId : String
  name : String
  dataType : StandardDataType := .string
  isPrimaryKey : Bool := false
  nullable : Bool := true
  deriving DecidableEq, Repr

/-- The columns of a stored entity. -/
structure LogicalEntityRow where
  id : String
  logicalModelId : String
  name : String
  description : Option String := none
  deriving DecidableEq, Repr

structure LogicalEntity extends LogicalEntityRow where
  fields : List LogicalField := []
  deriving DecidableEq, Repr

/-- The columns of a stored model; `updatedAt` is a point of the clock. -/
structure LogicalModelRow where
  id : String
  name : String
  version : String := "1.0.0"
  description : Option String := none
  updatedAt : ℕ := 0
  deriving DecidableEq, Repr

structure LogicalModel extends LogicalModelRow where
  entities : List LogicalEntity := []
  deriving DecidableEq, Repr

instance : Keyed LogicalField String := ⟨(·.id)⟩

instance : Keyed LogicalEntityRow String := ⟨(·.id)⟩

instance : Keyed LogicalModelRow String := ⟨(·.id)⟩

section
variable {α : Type} (py : Casing) (nameOf : α → String)

/-- `get_entity_by_name` and `get_field_by_name`: the first item with the name, with the name in
another case, or with the name in another number. -/
def findByName (items : List α) (name : String) : Option α :=
  if name = "" then none
  else (items.find? (nameOf · = name)).or <|
    (items.find? fun x => py.lower (nameOf x) = py.lower name).or <|
      items.find? fun x => py.clean (nameOf x) = py.clean name

end

def LogicalEntity.getFieldById (e : LogicalEntity) (fieldId : String) : Option LogicalField :=
  e.fields.find? (·.id = fieldId)

def LogicalEntity.getFieldByName (py : Casing) (e : LogicalEntity) (name : String) :
    Option LogicalField := findByName py (·.name) e.fields name

def LogicalModel.getEntityById (m : LogicalModel) (entityId : String) : Option LogicalEntity :=
  m.entities.find? (·.id = entityId)

def LogicalModel.getEntityByName (py : Casing) (m : LogicalModel) (name : String) :
    Option LogicalEntity := findByName py (·.name) m.entities name

section
variable {α : Type} {py : Casing} {nameOf : α → String} {items : List α} {name : String}

/-- Whatever is found has the name but for case and number. -/
theorem clean_of_findByName {x : α} (h : findByName py nameOf items name = some x) :
    x ∈ items ∧ py.clean (nameOf x) = py.clean name := by
  unfold findByName at h
  split_ifs at h
  rcases Option.or_eq_some_iff.1 h with h | ⟨-, h⟩
  · have hname : nameOf x = name := by simpa using List.find?_some h
    exact ⟨List.mem_of_find?_eq_some h, by rw [hname]⟩
  · rcases Option.or_eq_some_iff.1 h with h | ⟨-, h⟩
    · have hlower : py.lower (nameOf x) = py.lower name := by simpa using List.find?_some h
      exact ⟨List.mem_of_find?_eq_some h, by rw [Casing.clean, hlower, Casing.clean]⟩
    · exact ⟨List.mem_of_find?_eq_some h, by simpa using List.find?_some h⟩

/-- A name is found if an item has it but for case and number. -/
theorem findByName_isSome (hname : name ≠ "") {x : α} (hx : x ∈ items)
    (h : py.clean (nameOf x) = py.clean name) : (findByName py nameOf items name).isSome := by
  have hplural : (items.find? fun x => py.clean (nameOf x) = py.clean name).isSome :=
    List.find?_isSome.2 ⟨x, hx, by simpa using h⟩
  rw [findByName, if_neg hname, Option.isSome_or, Option.isSome_or, hplural, Bool.or_true,
    Bool.or_true]

end

end AltrStream.Domain
