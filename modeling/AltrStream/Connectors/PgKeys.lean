import AltrStream.Connectors.CatalogKeys

/-! # The keys of a PostgreSQL database

PostgreSQL answers keys as joins of its constraints with the columns of keys and with the columns
that constraints use. The joins go by the names of schemas and constraints, and names are unique in a
table only.
-/
namespace AltrStream.Connectors
open Foundations Python QueryEngine

structure PgForeignKey extends ForeignColumns where
  foreignSchema : String
  foreignTable : String

def PgForeignKey.entity (fk : PgForeignKey) : String := fk.foreignSchema ++ "." ++ fk.foreignTable

def PgForeignKey.constraint (name : String) (fk : PgForeignKey) : ConstraintSchema :=
  ForeignKey.constraint name { fk with entity := fk.entity }

inductive PgDefinition where
  | primaryKey (columns : List String)
  | unique (columns : List String)
  | foreignKey (fk : PgForeignKey)
  | check (columns : List String)

structure PgConstraint where
  tableSchema : String
  tableName : String
  name : String
  definition : PgDefinition

/-- A column of a table, as `constraint_column_usage` names it. -/
structure PgColumn where
  tableSchema : String
  tableName : String
  columnName : String

namespace PgConstraint

variable (c : PgConstraint)

def table : Pg.Key := (c.tableSchema, c.tableName)

def primaryKey? : Option (List String) :=
  match c.definition with
  | .primaryKey columns => some columns
  | _ => none

def foreignKey? : Option PgForeignKey :=
  match c.definition with
  | .foreignKey fk => some fk
  | _ => none

/-- The columns in `key_column_usage`, with their positions. -/
def keyColumns : List (String × ℕ) :=
  match c.definition with
  | .primaryKey columns | .unique columns => columns.zipIdx 1
  | .foreignKey fk => fk.columns.zipIdx 1
  | .check _ => []

/-- The columns in `constraint_column_usage`: a foreign key uses those that it refers to. -/
def uses : List PgColumn :=
  match c.definition with
  | .primaryKey columns | .unique columns | .check columns =>
    columns.map fun columnName => ⟨c.tableSchema, c.tableName, columnName⟩
  | .foreignKey fk =>
    fk.references.map fun columnName => ⟨fk.foreignSchema, fk.foreignTable, columnName⟩

end PgConstraint

/-- Tables outside of the system schemas, and their constraints; names are unique in a table only. -/
structure PgDatabase where
  tables : List PgTableRow
  constraints : List PgConstraint
  names : (constraints.map fun c => (c.table, c.name)).Nodup
  onePrimaryKey : ((constraints.filter (·.primaryKey?.isSome)).map (·.table)).Nodup

namespace PgDatabase

variable (db : PgDatabase)

/-- The rows of `key_column_usage` that join with a constraint. -/
def keyUsage (schema name : String) : List (String × ℕ) :=
  (db.constraints.filter fun c => c.tableSchema = schema ∧ c.name = name).flatMap (·.keyColumns)

/-- The rows of `constraint_column_usage` that join with a constraint: the schema is that of the
column. -/
def columnUsage (schema name : String) : List PgColumn :=
  (db.constraints.filter (·.name = name)).flatMap fun c => c.uses.filter (·.tableSchema = schema)

def primaryKeyRows (tc : PgConstraint) : List PgKeyRow :=
  (db.keyUsage tc.tableSchema tc.name).map fun (columnName, ordinalPosition) =>
    { tableSchema := tc.tableSchema, tableName := tc.tableName, columnName, ordinalPosition }

/-- `PRIMARY_KEYS_QUERY` without its order. -/
def primaryKeys : List PgKeyRow :=
  (db.constraints.filter (·.primaryKey?.isSome)).flatMap db.primaryKeyRows

def foreignKeyRow (tc : PgConstraint) (key : String × ℕ) (use : PgColumn) : PgForeignKeyRow × ℕ :=
  ({ constraintName := tc.name
     tableSchema := tc.tableSchema
     tableName := tc.tableName
     columnName := key.1
     foreignTableSchema := use.tableSchema
     foreignTableName := use.tableName
     foreignColumnName := use.columnName }, key.2)

def foreignKeyRows (tc : PgConstraint) : List (PgForeignKeyRow × ℕ) :=
  (db.keyUsage tc.tableSchema tc.name).flatMap fun key =>
    (db.columnUsage tc.tableSchema tc.name).map (foreignKeyRow tc key)

/-- `FOREIGN_KEYS_QUERY` without its order, beside the positions of the columns. -/
def foreignKeys : List (PgForeignKeyRow × ℕ) :=
  (db.constraints.filter (·.foreignKey?.isSome)).flatMap db.foreignKeyRows

def constraintsOf (t : PgTableRow) : List PgConstraint :=
  db.constraints.filter fun c => c.table = (t.tableSchema, t.tableName)

def ListedBy (t : PgTableRow) (e : DiscoveredEntity) : Prop :=
  ListsKeys ((db.constraintsOf t).filterMap (·.primaryKey?)).flatten
    ((db.constraintsOf t).filterMap fun c => c.foreignKey?.map (·.constraint c.name)) e

/-- No other key of the schema has the name of the primary key. -/
def PrimaryKeyReadable (c : PgConstraint) : Prop :=
  ∀ c' ∈ db.constraints, c'.tableSchema = c.tableSchema → c'.name = c.name → c' ≠ c →
    c'.keyColumns = []

/-- The foreign key is one column that refers to a table of its own schema, and whatever has its
name uses the same columns. -/
def ForeignKeyReadable (c : PgConstraint) (fk : PgForeignKey) : Prop :=
  ∃ column reference, fk.columns = [column] ∧ fk.references = [reference] ∧
    (∀ key ∈ db.keyUsage c.tableSchema c.name, key.1 = column) ∧
    db.columnUsage c.tableSchema c.name ≠ [] ∧
    ∀ use ∈ db.columnUsage c.tableSchema c.name,
      use.tableSchema ++ "." ++ use.tableName = fk.entity ∧ use.columnName = reference

def KeysReadable : Prop :=
  ∀ t ∈ db.tables, ∀ c ∈ db.constraintsOf t, (c.primaryKey?.isSome → db.PrimaryKeyReadable c) ∧
    ∀ fk, c.foreignKey? = some fk → db.ForeignKeyReadable c fk

end PgDatabase

variable {κ : Type} [LinearOrder κ]

/-- `ORDER BY tc.table_schema, tc.table_name, kcu.ordinal_position` -/
def pgKeyRank (collate : String → κ) (row : PgKeyRow) : κ ×ₗ κ ×ₗ ℕ :=
  toLex (collate row.tableSchema, toLex (collate row.tableName, row.ordinalPosition))

/-- `ORDER BY tc.constraint_name, kcu.ordinal_position` -/
def pgForeignRank (collate : String → κ) (row : PgForeignKeyRow × ℕ) : κ ×ₗ ℕ :=
  toLex (collate row.1.constraintName, row.2)


/-! ## Primary keys -/

namespace PgDatabase

variable {db : PgDatabase} {t : PgTableRow} {c : PgConstraint} {collate : String → κ}

theorem mem_constraintsOf : c ∈ db.constraintsOf t ↔
    c ∈ db.constraints ∧ c.table = (t.tableSchema, t.tableName) := by
  simp [constraintsOf]

theorem nodup_constraints : db.constraints.Nodup := db.names.of_map

theorem mem_filter_own (hc : c ∈ db.constraints) :
    c ∈ db.constraints.filter fun c' => c'.tableSchema = c.tableSchema ∧ c'.name = c.name :=
  List.mem_filter.2 ⟨hc, by simp⟩

theorem keyUsage_of_readable (hc : c ∈ db.constraints) (h : db.PrimaryKeyReadable c) :
    db.keyUsage c.tableSchema c.name = c.keyColumns := by
  refine flatMap_eq_of_nil (nodup_constraints.filter _) (mem_filter_own hc) fun c' hc' hne => ?_
  obtain ⟨hin, hsame⟩ := List.mem_filter.1 hc'
  obtain ⟨hschema, hname⟩ := of_decide_eq_true hsame
  exact h c' hin hschema hname hne

theorem readable_of_length (hc : c ∈ db.constraints)
    (h : (db.keyUsage c.tableSchema c.name).length ≤ c.keyColumns.length) :
    db.PrimaryKeyReadable c := by
  intro c' hc' hschema hname hne
  refine nil_of_length_flatMap_le (mem_filter_own hc) h c' ?_ hne
  exact List.mem_filter.2 ⟨hc', by simp [hschema, hname]⟩

theorem keyColumns_of_primaryKey {columns : List String} (h : c.primaryKey? = some columns) :
    c.keyColumns = columns.zipIdx 1 := by
  obtain ⟨_, _, _, _ | _ | _ | _⟩ := c
  all_goals simp_all [PgConstraint.primaryKey?, PgConstraint.keyColumns]

theorem keyColumns_of_foreignKey {fk : PgForeignKey} (h : c.foreignKey? = some fk) :
    c.keyColumns = fk.columns.zipIdx 1 := by
  obtain ⟨_, _, _, _ | _ | _ | _⟩ := c
  all_goals simp_all [PgConstraint.foreignKey?, PgConstraint.keyColumns]

theorem filter_rows_of_table {α : Type} {kind : PgConstraint → Bool} {rowsOf : PgConstraint → List α}
    (tableOf : α → Pg.Key) (h : ∀ c, ∀ row ∈ rowsOf c, tableOf row = c.table) (t : PgTableRow) :
    ((db.constraints.filter kind).flatMap rowsOf).filter
        (fun row => tableOf row = (t.tableSchema, t.tableName)) =
      ((db.constraintsOf t).filter kind).flatMap rowsOf := by
  rw [filter_flatMap_of_key fun c => decide (c.table = (t.tableSchema, t.tableName)), constraintsOf,
    List.filter_comm]
  intro c _ row hrow
  rw [h c row hrow]

/-- A table has one primary key or none. -/
theorem filter_primaryKey_eq (hc : c ∈ db.constraintsOf t) (hkey : c.primaryKey?.isSome) :
    (db.constraintsOf t).filter (·.primaryKey?.isSome) = [c] := by
  obtain ⟨hin, htable⟩ := mem_constraintsOf.1 hc
  rw [constraintsOf, List.filter_comm, ← htable]
  exact filter_eq_singleton PgConstraint.table db.onePrimaryKey (List.mem_filter.2 ⟨hin, hkey⟩)

theorem filterMap_primaryKey_eq {columns : List String} (hc : c ∈ db.constraintsOf t)
    (hkey : c.primaryKey? = some columns) :
    (db.constraintsOf t).filterMap (·.primaryKey?) = [columns] := by
  have hone := filter_primaryKey_eq hc (Option.isSome_of_eq_some hkey)
  have hkept : (db.constraintsOf t).filterMap (·.primaryKey?) =
      ((db.constraintsOf t).filter (·.primaryKey?.isSome)).filterMap (·.primaryKey?) := by
    rw [List.filterMap_filter]
    refine List.filterMap_congr fun c' _ => ?_
    cases c'.primaryKey? <;> rfl
  rw [hkept, hone]
  simp [hkey]

/-- The columns of the primary key come in their order exactly if no other key has its name. -/
theorem primaryKey_iff {pks : List PgKeyRow} (h : Ranked (pgKeyRank collate) db.primaryKeys pks) :
    (pks.filter fun row => (row.tableSchema, row.tableName) = (t.tableSchema, t.tableName)).map
        (·.columnName) = ((db.constraintsOf t).filterMap (·.primaryKey?)).flatten ↔
      ∀ c ∈ db.constraintsOf t, c.primaryKey?.isSome → db.PrimaryKeyReadable c := by
  have hrows := h.filter fun row => (row.tableSchema, row.tableName) = (t.tableSchema, t.tableName)
  rw [primaryKeys, filter_rows_of_table (fun row : PgKeyRow => (row.tableSchema, row.tableName))
    (by rintro c row hrow; obtain ⟨_, -, rfl⟩ := List.mem_map.1 hrow; rfl)] at hrows
  by_cases hnone : ∀ c ∈ db.constraintsOf t, ¬ c.primaryKey?.isSome
  · have hnil : (db.constraintsOf t).filter (·.primaryKey?.isSome) = [] :=
      List.filter_eq_nil_iff.2 hnone
    rw [hnil] at hrows
    rw [hrows.1.eq_nil, List.filterMap_eq_nil_iff.2 fun c hc => by simpa using hnone c hc]
    simp
    intro c hc hkey
    exact absurd hkey (hnone c hc)
  · push Not at hnone
    obtain ⟨c, hc, hkey⟩ := hnone
    obtain ⟨columns, hcolumns⟩ := Option.isSome_iff_exists.1 hkey
    obtain ⟨hin, htable⟩ := mem_constraintsOf.1 hc
    have hone := filter_primaryKey_eq hc hkey
    rw [hone, List.flatMap_singleton] at hrows
    rw [filterMap_primaryKey_eq hc hcolumns, List.flatten_singleton]
    have hall : (∀ c' ∈ db.constraintsOf t, c'.primaryKey?.isSome → db.PrimaryKeyReadable c') ↔
        db.PrimaryKeyReadable c := by
      refine ⟨fun h => h c hc hkey, fun h c' hc' hkey' => ?_⟩
      have hmem : c' ∈ (db.constraintsOf t).filter (·.primaryKey?.isSome) :=
        List.mem_filter.2 ⟨hc', hkey'⟩
      rw [hone, List.mem_singleton] at hmem
      rwa [hmem]
    rw [hall]
    constructor
    · intro heq
      refine readable_of_length hin ?_
      have hlength := congrArg List.length heq
      rw [List.length_map, hrows.1.length_eq, primaryKeyRows, List.length_map] at hlength
      rw [hlength, keyColumns_of_primaryKey hcolumns, List.length_zipIdx]
    · intro hreadable
      rw [primaryKeyRows, keyUsage_of_readable hin hreadable, keyColumns_of_primaryKey hcolumns]
        at hrows
      rw [hrows.eq_of_strict ?_, List.map_map]
      · exact List.zipIdx_map_fst 1 columns
      · refine List.pairwise_map.2 ((pairwise_zipIdx columns).imp fun hlt => ?_)
        exact Prod.Lex.toLex_lt_toLex.2 (.inr ⟨rfl, Prod.Lex.toLex_lt_toLex.2 (.inr ⟨rfl, hlt⟩)⟩)

end PgDatabase

/-! ## Foreign keys -/

theorem Pg.nodup_referencesOf (row : PgForeignKeyRow) : (Pg.referencesOf row).Nodup :=
  List.nodup_singleton _

namespace PgDatabase

variable {db : PgDatabase} {t : PgTableRow} {c : PgConstraint} {fk : PgForeignKey}
  {collate : String → κ} {fks : List (PgForeignKeyRow × ℕ)}

theorem of_mem_foreignKeyRows {row : PgForeignKeyRow × ℕ} (h : row ∈ db.foreignKeyRows c) :
    ∃ key ∈ db.keyUsage c.tableSchema c.name, ∃ use ∈ db.columnUsage c.tableSchema c.name,
      row = foreignKeyRow c key use := by
  obtain ⟨key, hkey, hrow⟩ := List.mem_flatMap.1 h
  obtain ⟨use, huse, rfl⟩ := List.mem_map.1 hrow
  exact ⟨key, hkey, use, huse, rfl⟩

theorem foreignKeyRow_mem {key : String × ℕ} {use : PgColumn}
    (hkey : key ∈ db.keyUsage c.tableSchema c.name)
    (huse : use ∈ db.columnUsage c.tableSchema c.name) :
    foreignKeyRow c key use ∈ db.foreignKeyRows c :=
  List.mem_flatMap.2 ⟨key, hkey, List.mem_map_of_mem huse⟩

theorem one_le_of_mem_keyUsage {schema name : String} {key : String × ℕ}
    (h : key ∈ db.keyUsage schema name) : 1 ≤ key.2 := by
  obtain ⟨⟨_, _, _, definition⟩, -, hkey⟩ := List.mem_flatMap.1 h
  cases definition with
  | primaryKey columns => exact List.le_snd_of_mem_zipIdx hkey
  | unique columns => exact List.le_snd_of_mem_zipIdx hkey
  | foreignKey fk => exact List.le_snd_of_mem_zipIdx hkey
  | check columns => cases hkey

/-- The foreign keys of a table, with their names. -/
def foreignKeysOf (db : PgDatabase) (t : PgTableRow) : List PgConstraint :=
  (db.constraintsOf t).filter (·.foreignKey?.isSome)

theorem mem_foreignKeysOf : c ∈ db.foreignKeysOf t ↔
    c ∈ db.constraintsOf t ∧ ∃ fk, c.foreignKey? = some fk := by
  rw [foreignKeysOf, List.mem_filter, Option.isSome_iff_exists]

theorem nodup_foreignKeysOf : ((db.foreignKeysOf t).map (·.name)).Nodup := by
  have hnames : ((db.foreignKeysOf t).map fun c => (c.table, c.name)).Nodup :=
    db.names.sublist ((List.filter_sublist.trans List.filter_sublist).map _)
  refine (List.nodup_map_iff_inj_on hnames.of_map).2 fun c hc c' hc' hname => ?_
  have htable := (mem_constraintsOf.1 (mem_foreignKeysOf.1 hc).1).2
  have htable' := (mem_constraintsOf.1 (mem_foreignKeysOf.1 hc').1).2
  exact List.inj_on_of_nodup_map hnames hc hc' (Prod.ext (htable.trans htable'.symm) hname)

/-- The rows of a table that the query answers. -/
def rowsOfTable (fks : List (PgForeignKeyRow × ℕ)) (t : PgTableRow) : List (PgForeignKeyRow × ℕ) :=
  fks.filter fun row => (row.1.tableSchema, row.1.tableName) = (t.tableSchema, t.tableName)

theorem rowsOfTable_perm (h : Ranked (pgForeignRank collate) db.foreignKeys fks) :
    (rowsOfTable fks t).Perm ((db.foreignKeysOf t).flatMap db.foreignKeyRows) := by
  have hrows := h.1.filter fun row =>
    (row.1.tableSchema, row.1.tableName) = (t.tableSchema, t.tableName)
  rwa [foreignKeys, filter_rows_of_table
    (fun row : PgForeignKeyRow × ℕ => (row.1.tableSchema, row.1.tableName)) fun c row hrow => by
      obtain ⟨key, -, use, -, rfl⟩ := of_mem_foreignKeyRows hrow
      rfl] at hrows

/-- The rows of a name in a table. -/
def rowsOfName (fks : List (PgForeignKeyRow × ℕ)) (t : PgTableRow) (name : String) :
    List PgForeignKeyRow :=
  ((rowsOfTable fks t).map Prod.fst).filter fun row => row.constraintName = name

/-- The rows of a foreign key are those of its name. -/
theorem rowsOfName_perm (h : Ranked (pgForeignRank collate) db.foreignKeys fks)
    (hc : c ∈ db.foreignKeysOf t) :
    (rowsOfName fks t c.name).Perm ((db.foreignKeyRows c).map Prod.fst) := by
  have hrows := (rowsOfTable_perm h (t := t)).filter fun row => row.1.constraintName = c.name
  rw [filter_flatMap_of_key fun c' : PgConstraint => decide (c'.name = c.name),
    filter_eq_singleton PgConstraint.name nodup_foreignKeysOf hc, List.flatMap_singleton] at hrows
  · rw [rowsOfName, List.filter_map]
    exact hrows.map Prod.fst
  · intro c' _ row hrow
    obtain ⟨key, -, use, -, rfl⟩ := of_mem_foreignKeyRows hrow
    rfl

/-- A foreign key that can be read is the group of its name. -/
theorem collect_of_readable (h : Ranked (pgForeignRank collate) db.foreignKeys fks)
    (hc : c ∈ db.foreignKeysOf t) (hfk : c.foreignKey? = some fk)
    (hreadable : db.ForeignKeyReadable c fk) :
    collect Pg.foreignKeyStep none (rowsOfName fks t c.name) = some (fk.constraint c.name) := by
  obtain ⟨column, reference, hcolumns, hreferences, hkeys, hused, huses⟩ := hreadable
  have hperm := rowsOfName_perm h hc
  have hrows : ∀ row ∈ rowsOfName fks t c.name, row.constraintName = c.name ∧
      row.columnName = column ∧ Pg.entityOfRow row = fk.entity ∧
        row.foreignColumnName = reference := by
    intro row hrow
    obtain ⟨joined, hjoined, rfl⟩ := List.mem_map.1 (hperm.mem_iff.1 hrow)
    obtain ⟨key, hkey, use, huse, rfl⟩ := of_mem_foreignKeyRows hjoined
    exact ⟨rfl, hkeys key hkey, (huses use huse).1, (huses use huse).2⟩
  have hne : rowsOfName fks t c.name ≠ [] := by
    obtain ⟨use, huse⟩ := List.exists_mem_of_ne_nil _ hused
    have hin := (mem_constraintsOf.1 (mem_foreignKeysOf.1 hc).1).1
    have hkey : (column, 1) ∈ db.keyUsage c.tableSchema c.name := by
      refine List.mem_flatMap.2 ⟨c, mem_filter_own hin, ?_⟩
      rw [keyColumns_of_foreignKey hfk, hcolumns]
      exact List.mem_cons_self
    exact List.ne_nil_of_mem
      (hperm.mem_iff.2 (List.mem_map_of_mem (foreignKeyRow_mem hkey huse)))
  obtain ⟨first, rest, hfirst⟩ := List.exists_cons_of_ne_nil hne
  rw [hfirst] at hrows ⊢
  obtain ⟨hname, -, hentity, -⟩ := hrows first List.mem_cons_self
  have hfields : distinct ((first :: rest).map (·.columnName)) = [column] := by
    refine distinct_eq_singleton (by simp) fun k hk => ?_
    obtain ⟨row, hrow, rfl⟩ := List.mem_map.1 hk
    exact (hrows row hrow).2.1
  have hrefs : distinct ((first :: rest).flatMap Pg.referencesOf) = [reference] := by
    refine distinct_eq_singleton (by simp [Pg.referencesOf]) fun r hr => ?_
    obtain ⟨row, hrow, hr⟩ := List.mem_flatMap.1 hr
    exact (List.mem_singleton.1 hr).trans (hrows row hrow).2.2.2
  rw [Pg.foreignKeyStep, collect_foreignKeyWith (Pg.nodup_referencesOf first), hfields, hrefs, hname,
    hentity]
  simp [PgForeignKey.constraint, ForeignKey.constraint, hcolumns, hreferences]

/-- Whatever column is used under the name of a foreign key may come first. -/
theorem exists_answer_first (collate : String → κ) (hc : c ∈ db.foreignKeysOf t) {column : String}
    {use : PgColumn} (hkey : (column, 1) ∈ db.keyUsage c.tableSchema c.name)
    (huse : use ∈ db.columnUsage c.tableSchema c.name) :
    ∃ answer, Ranked (pgForeignRank collate) db.foreignKeys answer ∧ ∃ rest,
      rowsOfName answer t c.name = (foreignKeyRow c (column, 1) use).1 :: rest := by
  obtain ⟨hof, fk, hfk⟩ := mem_foreignKeysOf.1 hc
  obtain ⟨hin, htable⟩ := mem_constraintsOf.1 hof
  have hrow : foreignKeyRow c (column, 1) use ∈ db.foreignKeys :=
    List.mem_flatMap.2 ⟨c, List.mem_filter.2 ⟨hin, Option.isSome_of_eq_some hfk⟩,
      foreignKeyRow_mem hkey huse⟩
  obtain ⟨answer, hanswer, hfirst⟩ := exists_ranked_first (pgForeignRank collate) hrow
  let own (row : PgForeignKeyRow × ℕ) : Bool := decide (row.1.constraintName = c.name) &&
    decide ((row.1.tableSchema, row.1.tableName) = (t.tableSchema, t.tableName))
  have hleast : ∀ a ∈ db.foreignKeys, own a →
      pgForeignRank collate (foreignKeyRow c (column, 1) use) ≤ pgForeignRank collate a := by
    intro a ha hown
    have hname : a.1.constraintName = c.name := of_decide_eq_true (Bool.and_eq_true_iff.1 hown).1
    obtain ⟨tc, -, ha⟩ := List.mem_flatMap.1 ha
    obtain ⟨key, hkey, other, -, rfl⟩ := of_mem_foreignKeyRows ha
    exact Prod.Lex.toLex_le_toLex.2
      (.inr ⟨congrArg collate hname.symm, one_le_of_mem_keyUsage hkey⟩)
  obtain ⟨rest, hrest⟩ :=
    hfirst own (by simp [own, foreignKeyRow, ← htable, PgConstraint.table]) hleast
  refine ⟨answer, hanswer, rest.map Prod.fst, ?_⟩
  rw [rowsOfName, List.filter_map, rowsOfTable, List.filter_filter, ← List.map_cons, ← hrest]
  rfl

/-- A foreign key that is listed in all answers can be read. -/
theorem readable_of_listed (collate : String → κ) (hc : c ∈ db.foreignKeysOf t)
    (hfk : c.foreignKey? = some fk)
    (hlisted : ∀ fks, Ranked (pgForeignRank collate) db.foreignKeys fks → ∃ row rest,
      rowsOfName fks t c.name = row :: rest ∧
        distinct ((row :: rest).map (·.columnName)) = fk.columns ∧ Pg.entityOfRow row = fk.entity ∧
          distinct ((row :: rest).flatMap Pg.referencesOf) = fk.references) :
    db.ForeignKeyReadable c fk := by
  obtain ⟨column, columns, hcolumns⟩ := List.exists_cons_of_ne_nil fk.nonempty
  have hkey : (column, 1) ∈ db.keyUsage c.tableSchema c.name := by
    refine List.mem_flatMap.2
      ⟨c, mem_filter_own (mem_constraintsOf.1 (mem_foreignKeysOf.1 hc).1).1, ?_⟩
    rw [keyColumns_of_foreignKey hfk, hcolumns]
    exact List.mem_cons_self
  have hfirst : ∀ use ∈ db.columnUsage c.tableSchema c.name,
      use.tableSchema ++ "." ++ use.tableName = fk.entity ∧
        fk.references.head? = some use.columnName := by
    intro use huse
    obtain ⟨answer, hanswer, rest, hrows⟩ := exists_answer_first collate hc hkey huse
    obtain ⟨row, others, hsame, -, hentity, hrefs⟩ := hlisted answer hanswer
    obtain ⟨rfl, rfl⟩ := List.cons.inj (hrows.symm.trans hsame)
    refine ⟨hentity, ?_⟩
    rw [← hrefs]
    exact head?_distinct use.columnName _
  obtain ⟨answer, hanswer⟩ := exists_ranked (pgForeignRank collate) db.foreignKeys
  obtain ⟨row, rest, hrows, hfields, -, hrefs⟩ := hlisted answer hanswer
  rw [← hrows] at hfields hrefs
  have hperm := rowsOfName_perm hanswer hc
  obtain ⟨joined, hjoined, -⟩ :=
    List.mem_map.1 (hperm.mem_iff.1 (hrows ▸ List.mem_cons_self : row ∈ rowsOfName answer t c.name))
  obtain ⟨-, -, use, huse, -⟩ := of_mem_foreignKeyRows hjoined
  obtain ⟨hentity, hhead⟩ := hfirst use huse
  have huses : ∀ other ∈ db.columnUsage c.tableSchema c.name, other.columnName = use.columnName :=
    fun other hother => Option.some.inj ((hfirst other hother).2.symm.trans hhead)
  have hreferences : fk.references = [use.columnName] := by
    refine hrefs.symm.trans (distinct_eq_singleton (by simp [hrows, Pg.referencesOf]) fun r hr => ?_)
    obtain ⟨row, hrow, hr⟩ := List.mem_flatMap.1 hr
    obtain ⟨joined, hjoined, rfl⟩ := List.mem_map.1 (hperm.mem_iff.1 hrow)
    obtain ⟨key, -, other, hother, rfl⟩ := of_mem_foreignKeyRows hjoined
    exact (List.mem_singleton.1 hr).trans (huses other hother)
  have hone : fk.columns = [column] := by
    have hlength := fk.paired
    rw [hreferences, hcolumns] at hlength
    have hnone : columns = [] := List.length_eq_zero_iff.1 (by simpa using hlength.symm)
    rw [hcolumns, hnone]
  refine ⟨column, use.columnName, hone, hreferences, fun key hkey' => ?_, List.ne_nil_of_mem huse,
    fun other hother => ⟨(hfirst other hother).1, huses other hother⟩⟩
  have hmem : key.1 ∈ distinct ((rowsOfName answer t c.name).map (·.columnName)) := by
    rw [mem_distinct]
    exact List.mem_map_of_mem
      (hperm.mem_iff.2 (List.mem_map_of_mem (foreignKeyRow_mem hkey' huse)))
  rwa [hfields, hone, List.mem_singleton] at hmem

theorem primaryKey_entityOf {u : Unicode} {columnsData : List PgColumnRow} {pks : List PgKeyRow}
    {fks : List PgForeignKeyRow} : (Pg.entityOf u columnsData pks fks t).primaryKey =
      (pks.filter fun row => (row.tableSchema, row.tableName) = (t.tableSchema, t.tableName)).map
        (·.columnName) := by
  rw [← getD_collect_appended, ← get?_group]
  rfl

theorem foreignKeys_entityOf {u : Unicode} {columnsData : List PgColumnRow} {pks : List PgKeyRow} :
    (Pg.entityOf u columnsData pks (fks.map Prod.fst) t).foreignKeys =
      (group (·.constraintName) Pg.foreignKeyStep ((rowsOfTable fks t).map Prod.fst)).map
        Prod.snd := by
  have hgroup : ((Pg.fksByTable (fks.map Prod.fst)).get? (t.tableSchema, t.tableName)).getD [] =
      group (·.constraintName) Pg.foreignKeyStep ((rowsOfTable fks t).map Prod.fst) := by
    rw [Pg.fksByTable, get?_group, List.filter_map]
    exact getD_collect (groupRow (·.constraintName) Pg.foreignKeyStep) [] _
  refine foreignKeys_of_constraints (by rw [← hgroup]; exact (List.append_nil _).symm) ?_ (by simp)
  intro c hc
  obtain ⟨p, hp, rfl⟩ := List.mem_map.1 hc
  obtain ⟨row, rest, -, heq⟩ := of_mem_group_foreignKeyWith Pg.nodup_referencesOf hp
  rw [heq]

theorem filterMap_foreignKey_eq : (db.constraintsOf t).filterMap (fun c =>
      c.foreignKey?.map (·.constraint c.name)) =
    (db.foreignKeysOf t).filterMap fun c => c.foreignKey?.map (·.constraint c.name) := by
  rw [foreignKeysOf, List.filterMap_filter]
  refine List.filterMap_congr fun c _ => ?_
  cases c.foreignKey? <;> rfl

/-- The groups of a table are its foreign keys if they all can be read. -/
theorem group_foreignKeysOf (h : Ranked (pgForeignRank collate) db.foreignKeys fks)
    (hreadable : ∀ c ∈ db.constraintsOf t, ∀ fk, c.foreignKey? = some fk →
      db.ForeignKeyReadable c fk) :
    ((group (·.constraintName) Pg.foreignKeyStep ((rowsOfTable fks t).map Prod.fst)).map
      Prod.snd).Perm
        ((db.constraintsOf t).filterMap fun c => c.foreignKey?.map (·.constraint c.name)) := by
  let listed (c : PgConstraint) : ConstraintSchema :=
    (c.foreignKey?.map (·.constraint c.name)).getD { name := c.name, constraintType := .foreignKey }
  have hgroup : (group (·.constraintName) Pg.foreignKeyStep ((rowsOfTable fks t).map Prod.fst)).Perm
      ((db.foreignKeysOf t).map fun c => (c.name, listed c)) := by
    refine group_perm nodup_foreignKeysOf (fun row hrow => ?_) fun c hc => ?_
    · obtain ⟨joined, hjoined, rfl⟩ := List.mem_map.1 hrow
      obtain ⟨c, hc, hjoined⟩ := List.mem_flatMap.1 ((rowsOfTable_perm h).mem_iff.1 hjoined)
      obtain ⟨key, -, use, -, rfl⟩ := of_mem_foreignKeyRows hjoined
      exact ⟨c, hc, rfl⟩
    · obtain ⟨hof, fk, hfk⟩ := mem_foreignKeysOf.1 hc
      simp only [listed, hfk]
      exact collect_of_readable h hc hfk (hreadable c hof fk hfk)
  refine (hgroup.map Prod.snd).trans (.of_eq ?_)
  rw [filterMap_foreignKey_eq, List.map_map, ← List.filterMap_eq_map]
  refine List.filterMap_congr fun c hc => ?_
  obtain ⟨-, fk, hfk⟩ := mem_foreignKeysOf.1 hc
  simp [listed, hfk]

end PgDatabase

/-- The schema of a PostgreSQL database lists the keys of its tables, in whatever order the rows come
that the queries leave open, exactly if no other key of the schema has the name of a primary key,
every foreign key is one column that refers to a table of its own schema, and what else has its name
uses the same columns. -/
theorem listsKeys_pg (u : Unicode) (collate : String → κ) (db : PgDatabase)
    (columnsData : List PgColumnRow) :
    (∀ pks fks, Ranked (pgKeyRank collate) db.primaryKeys pks →
      Ranked (pgForeignRank collate) db.foreignKeys fks → List.Forall₂ db.ListedBy db.tables
        (buildSourceSchemaFromPg u db.tables columnsData pks (fks.map Prod.fst))) ↔
      db.KeysReadable := by
  have hforall : ∀ pks fks, List.Forall₂ db.ListedBy db.tables
      (buildSourceSchemaFromPg u db.tables columnsData pks fks) ↔
        ∀ t ∈ db.tables, db.ListedBy t (Pg.entityOf u columnsData pks fks t) := by
    intro pks fks
    rw [buildSourceSchemaFromPg, List.forall₂_map_right_iff, List.forall₂_same]
  constructor
  · intro h t ht c hc
    obtain ⟨pks, hpks⟩ := exists_ranked (pgKeyRank collate) db.primaryKeys
    obtain ⟨fks, hfks⟩ := exists_ranked (pgForeignRank collate) db.foreignKeys
    have hkeys := (hforall pks _).1 (h pks fks hpks hfks) t ht
    refine ⟨(PgDatabase.primaryKey_iff hpks).1
      (PgDatabase.primaryKey_entityOf.symm.trans hkeys.primaryKey) c hc, fun fk hfk => ?_⟩
    refine PgDatabase.readable_of_listed collate (PgDatabase.mem_foreignKeysOf.2 ⟨hc, fk, hfk⟩) hfk
      fun fks hfks => ?_
    have hkeys := (hforall pks _).1 (h pks fks hpks hfks) t ht
    have hmem : fk.constraint c.name ∈
        (Pg.entityOf u columnsData pks (fks.map Prod.fst) t).foreignKeys := by
      refine hkeys.foreignKeys.mem_iff.2 (List.mem_filterMap.2 ⟨c, hc, ?_⟩)
      rw [hfk]
      rfl
    rw [PgDatabase.foreignKeys_entityOf] at hmem
    obtain ⟨⟨name, _⟩, hp, rfl⟩ := List.mem_map.1 hmem
    obtain ⟨row, rest, hrows, heq⟩ := of_mem_group_foreignKeyWith Pg.nodup_referencesOf hp
    obtain ⟨hname, hfields, hentity, hrefs⟩ : c.name = name ∧ _ ∧ _ ∧ _ := by
      simpa [PgForeignKey.constraint, ForeignKey.constraint] using heq
    subst hname
    exact ⟨row, rest, hrows, hfields.symm, hentity.symm, hrefs.symm⟩
  · intro h pks fks hpks hfks
    refine (hforall pks _).2 fun t ht => ⟨?_, ?_⟩
    · exact PgDatabase.primaryKey_entityOf.trans
        ((PgDatabase.primaryKey_iff hpks).2 fun c hc => (h t ht c hc).1)
    · rw [PgDatabase.foreignKeys_entityOf]
      exact PgDatabase.group_foreignKeysOf hfks fun c hc => (h t ht c hc).2

end AltrStream.Connectors
