import AltrStream.Foundations.Grouped
import AltrStream.Python.Str
import AltrStream.Python.Text
import AltrStream.QueryEngine.Resolver

/-! # Schemas from catalogs

The mappers of the SQL connectors: rows of the catalogs of PostgreSQL, MySQL and
SQLite become standardized schemas. Each catalog names the types of its columns in its
own words, and lists its keys column by column.
-/
namespace AltrStream.Connectors
open Foundations Python QueryEngine

/-! ## The types of columns -/

abbrev TypeMap := Dict String StandardDataType

def sqliteTypeMap : TypeMap :=
  [("int", .integer), ("integer", .integer), ("tinyint", .smallint), ("smallint", .smallint),
   ("mediumint", .integer), ("bigint", .bigint), ("int2", .smallint), ("int4", .integer),
   ("int8", .bigint), ("real", .float), ("double", .float), ("double precision", .float),
   ("float", .float), ("numeric", .decimal), ("decimal", .decimal), ("boolean", .boolean),
   ("bool", .boolean), ("date", .date), ("datetime", .timestamp), ("timestamp", .timestamp),
   ("time", .time), ("text", .string), ("character", .string), ("varchar", .string),
   ("nvarchar", .string), ("char", .string), ("clob", .string), ("string", .string),
   ("blob", .binary), ("json", .json), ("jsonb", .json), ("uuid", .uuid)]

def pgTypeMap : TypeMap :=
  [("varchar", .string), ("character varying", .string), ("character", .string), ("char", .string),
   ("text", .string), ("name", .string), ("citext", .string), ("smallint", .smallint),
   ("int2", .smallint), ("smallserial", .smallint), ("integer", .integer), ("int", .integer),
   ("int4", .integer), ("serial", .integer), ("bigint", .bigint), ("int8", .bigint),
   ("bigserial", .bigint), ("real", .float), ("float4", .float), ("double precision", .float),
   ("float8", .float), ("numeric", .decimal), ("decimal", .decimal), ("money", .decimal),
   ("boolean", .boolean), ("bool", .boolean), ("date", .date), ("time", .time),
   ("time without time zone", .time), ("time with time zone", .time), ("timetz", .time),
   ("timestamp", .timestamp), ("timestamp without time zone", .timestamp),
   ("timestamp with time zone", .timestamptz), ("timestamptz", .timestamptz), ("json", .json),
   ("jsonb", .json), ("uuid", .uuid), ("bytea", .binary)]

def mysqlTypeMap : TypeMap :=
  [("varchar", .string), ("char", .string), ("text", .string), ("tinytext", .string),
   ("mediumtext", .string), ("longtext", .string), ("enum", .string), ("set", .string),
   ("smallint", .smallint), ("tinyint", .integer), ("mediumint", .integer), ("int", .integer),
   ("integer", .integer), ("bigint", .bigint), ("serial", .bigint), ("float", .float),
   ("double", .float), ("double precision", .float), ("real", .float), ("decimal", .decimal),
   ("numeric", .decimal), ("dec", .decimal), ("fixed", .decimal), ("boolean", .boolean),
   ("bool", .boolean), ("date", .date), ("time", .time), ("datetime", .timestamp),
   ("timestamp", .timestamp), ("year", .integer), ("json", .json), ("binary", .binary),
   ("varbinary", .binary), ("blob", .binary), ("tinyblob", .binary), ("mediumblob", .binary),
   ("longblob", .binary), ("bit", .binary), ("uuid", .uuid)]

/-- What remains of a line after its last closing parenthesis. -/
def afterLastParen (line : List Char) : List Char := line.reverse.takeWhile (· ≠ ')') |>.reverse

theorem length_afterLastParen_le (line : List Char) :
    (afterLastParen line).length ≤ line.length := by
  unfold afterLastParen
  rw [List.length_reverse]
  exact (List.takeWhile_prefix _).length_le.trans List.length_reverse.le

/-- `re.sub(r"\(.*\)", "", s)`: each match is up to the last closing parenthesis of its line. -/
def stripParens : List Char → List Char
  | [] => []
  | c :: s =>
    if c = '(' && (s.takeWhile (· ≠ '\n')).contains ')' then
      stripParens (afterLastParen (s.takeWhile (· ≠ '\n')) ++ s.dropWhile (· ≠ '\n'))
    else c :: stripParens s
termination_by s => s.length
decreasing_by
  · have hsplit := congrArg List.length (List.takeWhile_append_dropWhile (p := (· ≠ '\n')) (l := s))
    have hle := length_afterLastParen_le (s.takeWhile (· ≠ '\n'))
    rw [List.length_append] at hsplit
    rw [List.length_append, List.length_cons]
    omega
  · exact Nat.lt_succ_self _

section
variable (u : Unicode)

/-- `(s or "").lower().strip()` -/
def normalized (s : Option String) : String := strip (u.lower (s.getD ""))

def mapSqliteTypeToStandard (dataType : Option String) : StandardDataType :=
  let normalized := strip (String.ofList (stripParens (normalized u dataType).toList))
  match sqliteTypeMap.get? normalized with
  | some t => t
  | none =>
    if isIn "int" normalized then .integer
    else if isIn "char" normalized || isIn "clob" normalized || isIn "text" normalized then .string
    else if isIn "blob" normalized || normalized = "" then .string
    else if isIn "real" normalized || isIn "floa" normalized || isIn "doub" normalized then .float
    else if isIn "numeric" normalized || isIn "dec" normalized then .decimal
    else .other

def mapPgTypeToStandard (dataType udtName : Option String) : StandardDataType :=
  let normalizedType := normalized u dataType
  let normalizedUdt := normalized u udtName
  match pgTypeMap.get? normalizedType with
  | some t => t
  | none =>
    match pgTypeMap.get? normalizedUdt with
    | some t => t
    | none =>
      if normalizedUdt.toList.head? = some '_' || isIn "[]" normalizedType ||
        normalizedType = "array" then .array
      else .other

/-- `re.match(r"^([a-z]+)", s)` -/
def baseType (s : String) : String :=
  String.ofList (s.toList.takeWhile fun c => 'a' ≤ c && c ≤ 'z')

def mapMysqlTypeToStandard (dataType columnType : Option String) : StandardDataType :=
  let normalizedType := normalized u dataType
  let normalizedColType := normalized u columnType
  if normalizedType = "tinyint" &&
    (isIn "tinyint(1)" normalizedColType || isIn "bool" normalizedColType) then .boolean
  else
    match mysqlTypeMap.get? normalizedType with
    | some t => t
    | none =>
      match mysqlTypeMap.get? (baseType normalizedColType) with
      | some t => t
      | none => .other

end

/-! ## Constraints -/

inductive ConstraintType where
  | primaryKey
  | foreignKey
  | unique
  | check
  deriving DecidableEq, Repr

structure ConstraintSchema where
  name : String
  constraintType : ConstraintType
  fields : List String := []
  referencedEntity : Option String := none
  referencedFields : List String := []
  deriving DecidableEq, Repr

/-- An `EntitySchema` with its constraints. -/
structure DiscoveredEntity extends EntitySchema where
  constraints : List ConstraintSchema
  deriving DecidableEq, Repr

def primaryKeyConstraint (table : String) (fields : List String) : List ConstraintSchema :=
  if fields = [] then [] else [{ name := "pk_" ++ table, constraintType := .primaryKey, fields }]

def entityTypeOf (u : Unicode) (tableType : String) : String :=
  if isIn "VIEW" (u.upper tableType) then "VIEW" else "TABLE"

/-- `d.setdefault(key, []).append(value)` -/
def appended {α : Type} (xs : Option (List α)) (x : α) : List α := xs.getD [] ++ [x]

/-- The foreign key of a name: its first row makes it, and another one adds the columns that are not
in it yet. -/
def foreignKeyWith {ρ : Type} (name column : ρ → String) (entity : ρ → Option String)
    (references : ρ → List String) (v : Option ConstraintSchema) (row : ρ) : ConstraintSchema :=
  match v with
  | none =>
    { name := name row
      constraintType := .foreignKey
      fields := [column row]
      referencedEntity := entity row
      referencedFields := references row }
  | some c =>
    { c with
      fields := appendNew c.fields (column row)
      referencedFields := (references row).foldl appendNew c.referencedFields }

/-! ## PostgreSQL -/

structure PgTableRow where
  tableSchema : String
  tableName : String
  tableType : String
  deriving DecidableEq, Repr

structure PgColumnRow where
  tableSchema : String
  tableName : String
  columnName : String
  isNullable : String
  dataType : String
  udtName : String
  deriving DecidableEq, Repr

/-- A row of `PRIMARY_KEYS_QUERY`. -/
structure PgKeyRow where
  tableSchema : String
  tableName : String
  columnName : String
  ordinalPosition : ℕ
  deriving DecidableEq, Repr

/-- A row of `FOREIGN_KEYS_QUERY`. -/
structure PgForeignKeyRow where
  constraintName : String
  tableSchema : String
  tableName : String
  columnName : String
  foreignTableSchema : String
  foreignTableName : String
  foreignColumnName : String
  deriving DecidableEq, Repr

namespace Pg

abbrev Key := String × String

def pksByTable (pksData : List PgKeyRow) : Dict Key (List String) :=
  group (fun row => (row.tableSchema, row.tableName)) (fun v row => appended v row.columnName) pksData

def fieldOf (u : Unicode) (pks : Dict Key (List String)) (row : PgColumnRow) : FieldSchema where
  name := row.columnName
  dataType := mapPgTypeToStandard u (some row.dataType) (some row.udtName)
  nativeDataType :=
    if row.udtName ≠ "" then row.udtName
    else if row.dataType ≠ "" then row.dataType else "unknown"
  nullable := u.upper row.isNullable = "YES"
  isPrimaryKey := row.columnName ∈ (pks.get? (row.tableSchema, row.tableName)).getD []

def colsByTable (u : Unicode) (pks : Dict Key (List String)) (columnsData : List PgColumnRow) :
    Dict Key (List FieldSchema) :=
  group (fun row => (row.tableSchema, row.tableName)) (fun v row => appended v (fieldOf u pks row))
    columnsData

def entityOfRow (row : PgForeignKeyRow) : String :=
  row.foreignTableSchema ++ "." ++ row.foreignTableName

def referencesOf (row : PgForeignKeyRow) : List String := [row.foreignColumnName]

def foreignKeyStep : Option ConstraintSchema → PgForeignKeyRow → ConstraintSchema :=
  foreignKeyWith (·.constraintName) (·.columnName) (fun row => some (entityOfRow row)) referencesOf

/-- The constraints of one table, by their names. -/
def tableFks (v : Option (Dict String ConstraintSchema)) (row : PgForeignKeyRow) :
    Dict String ConstraintSchema :=
  groupRow (·.constraintName) foreignKeyStep (v.getD []) row

def fksByTable (fksData : List PgForeignKeyRow) : Dict Key (Dict String ConstraintSchema) :=
  group (fun row => (row.tableSchema, row.tableName)) tableFks fksData

def entityOf (u : Unicode) (columnsData : List PgColumnRow) (pksData : List PgKeyRow)
    (fksData : List PgForeignKeyRow) (row : PgTableRow) : DiscoveredEntity :=
  let pks := pksByTable pksData
  let key := (row.tableSchema, row.tableName)
  let tablePks := (pks.get? key).getD []
  { name := row.tableName
    namespace_ := row.tableSchema
    entityType := entityTypeOf u row.tableType
    fields := ((colsByTable u pks columnsData).get? key).getD []
    primaryKey := tablePks
    constraints := primaryKeyConstraint row.tableName tablePks ++
      (((fksByTable fksData).get? key).getD []).map Prod.snd }

end Pg

/-- The entities of `build_source_schema_from_pg`. -/
def buildSourceSchemaFromPg (u : Unicode) (tablesData : List PgTableRow)
    (columnsData : List PgColumnRow) (pksData : List PgKeyRow) (fksData : List PgForeignKeyRow) :
    List DiscoveredEntity :=
  tablesData.map (Pg.entityOf u columnsData pksData fksData)

/-! ## MySQL -/

structure MysqlTableRow where
  tableName : String
  tableType : String
  tableComment : String
  deriving DecidableEq, Repr

structure MysqlColumnRow where
  tableName : String
  columnName : String
  dataType : String
  columnType : String
  isNullable : String
  deriving DecidableEq, Repr

/-- A row of `CONSTRAINTS_QUERY`, its keys in lower case. -/
structure MysqlConstraintRow where
  tableName : String
  columnName : String
  constraintName : String
  constraintType : String
  referencedTableName : Option String
  referencedColumnName : Option String
  ordinalPosition : ℕ
  deriving DecidableEq, Repr

namespace Mysql

/-- `[ref_col] if ref_col else []` -/
def referencesOf (row : MysqlConstraintRow) : List String :=
  (row.referencedColumnName.filter (· ≠ "")).toList

def foreignKeyStep : Option ConstraintSchema → MysqlConstraintRow → ConstraintSchema :=
  foreignKeyWith (·.constraintName) (·.columnName) (·.referencedTableName) referencesOf

section
variable (u : Unicode) (constraintsData : List MysqlConstraintRow)

/-- The rows of a kind of constraint. -/
def rowsOf (kind : String) : List MysqlConstraintRow :=
  constraintsData.filter fun row => u.upper row.constraintType = kind

def pksByTable : Dict String (List String) :=
  group (·.tableName) (fun v row => appended v row.columnName) (rowsOf u constraintsData "PRIMARY KEY")

def fksByTable : Dict String (Dict String ConstraintSchema) :=
  group (·.tableName) (fun v row => groupRow (·.constraintName) foreignKeyStep (v.getD []) row)
    (rowsOf u constraintsData "FOREIGN KEY")

def uniquesByTable : Dict String (Dict String (List String)) :=
  group (·.tableName)
    (fun v row => groupRow (·.constraintName) (fun v row => appended v row.columnName) (v.getD []) row)
    (rowsOf u constraintsData "UNIQUE")

def fieldOf (row : MysqlColumnRow) : FieldSchema where
  name := row.columnName
  dataType := mapMysqlTypeToStandard u (some row.dataType) (some row.columnType)
  nativeDataType :=
    if row.columnType ≠ "" then row.columnType
    else if row.dataType ≠ "" then row.dataType else "unknown"
  nullable := u.upper row.isNullable = "YES"
  isPrimaryKey := row.columnName ∈ ((pksByTable u constraintsData).get? row.tableName).getD []

def colsByTable (columnsData : List MysqlColumnRow) : Dict String (List FieldSchema) :=
  group (·.tableName) (fun v row => appended v (fieldOf u constraintsData row)) columnsData

def entityOf (columnsData : List MysqlColumnRow) (row : MysqlTableRow) : DiscoveredEntity :=
  let tblPks := ((pksByTable u constraintsData).get? row.tableName).getD []
  { name := row.tableName
    namespace_ := "default"
    entityType := entityTypeOf u row.tableType
    fields := ((colsByTable u constraintsData columnsData).get? row.tableName).getD []
    primaryKey := tblPks
    comment := if row.tableComment ≠ "" then some row.tableComment else none
    constraints := primaryKeyConstraint row.tableName tblPks ++
      (((fksByTable u constraintsData).get? row.tableName).getD []).map Prod.snd ++
      (((uniquesByTable u constraintsData).get? row.tableName).getD []).map fun (name, fields) =>
        { name, constraintType := .unique, fields } }

end

end Mysql

/-- The entities of `build_source_schema_from_mysql`. -/
def buildSourceSchemaFromMysql (u : Unicode) (tablesData : List MysqlTableRow)
    (columnsData : List MysqlColumnRow) (constraintsData : List MysqlConstraintRow) :
    List DiscoveredEntity :=
  tablesData.map (Mysql.entityOf u constraintsData columnsData)

/-! ## SQLite -/

structure SqliteTableRow where
  tableName : String
  tableType : String
  deriving DecidableEq, Repr

/-- A row of `PRAGMA table_info`. -/
structure SqliteColumnRow where
  name : String
  type : String
  notnull : ℤ
  pk : ℤ
  deriving DecidableEq, Repr

/-- A row of `PRAGMA foreign_key_list`. -/
structure SqliteForeignKeyRow where
  id : ℕ
  table : String
  from_ : String
  to_ : Option String
  deriving DecidableEq, Repr

namespace Sqlite

def fieldOf (u : Unicode) (col : SqliteColumnRow) : FieldSchema where
  name := col.name
  dataType := mapSqliteTypeToStandard u (some col.type)
  nativeDataType := if col.type ≠ "" then col.type else "TEXT"
  nullable := !decide (col.notnull = 1)
  isPrimaryKey := 0 < col.pk

def foreignKeyOf (tableName : String) (fk : SqliteForeignKeyRow) : Option ConstraintSchema :=
  if fk.from_ ≠ "" ∧ fk.table ≠ "" then
    some
      { name := s!"fk_{tableName}_{fk.from_}_{fk.id}"
        constraintType := .foreignKey
        fields := [fk.from_]
        referencedEntity := some fk.table
        referencedFields := (fk.to_.filter (· ≠ "")).toList }
  else none

def entityOf (u : Unicode) (tableColumns : String → List SqliteColumnRow)
    (tableFks : String → List SqliteForeignKeyRow) (row : SqliteTableRow) : DiscoveredEntity :=
  let rawCols := tableColumns row.tableName
  let pks := (rawCols.filter (0 < ·.pk)).map (·.name)
  { name := row.tableName
    namespace_ := "main"
    entityType := entityTypeOf u row.tableType
    fields := rawCols.map (fieldOf u)
    primaryKey := pks
    constraints := primaryKeyConstraint row.tableName pks ++
      (tableFks row.tableName).filterMap (foreignKeyOf row.tableName) }

end Sqlite

/-- The entities of `build_source_schema_from_sqlite`. -/
def buildSourceSchemaFromSqlite (u : Unicode) (tablesData : List SqliteTableRow)
    (tableColumns : String → List SqliteColumnRow) (tableFks : String → List SqliteForeignKeyRow) :
    List DiscoveredEntity :=
  tablesData.map (Sqlite.entityOf u tableColumns tableFks)

end AltrStream.Connectors
