import AltrStream.Connectors.Introspection
import Mathlib.Data.List.Perm.Subperm

/-! # The keys of a catalog

Catalogs of PostgreSQL, MySQL and SQLite with their primary and foreign keys, the rows
that their introspection queries answer in any order that the queries leave open, and
when the schema that is built from these rows lists the keys as they were declared.
-/
namespace AltrStream.Connectors
open Foundations Python QueryEngine

/-! ## Keys of a schema -/

/-- Columns that refer to columns of another table, each to its own. -/
structure ForeignColumns where
  columns : List String
  references : List String
  nonempty : columns ≠ []
  paired : references.length = columns.length
  nodup : columns.Nodup
  nodupReferences : references.Nodup

structure ForeignKey extends ForeignColumns where
  entity : String

/-- How a schema lists a foreign key. -/
def ForeignKey.constraint (name : String) (fk : ForeignKey) : ConstraintSchema where
  name
  constraintType := .foreignKey
  fields := fk.columns
  referencedEntity := some fk.entity
  referencedFields := fk.references

def DiscoveredEntity.foreignKeys (e : DiscoveredEntity) : List ConstraintSchema :=
  e.constraints.filter (·.constraintType = .foreignKey)

/-- The entity lists the primary key in its order, and each foreign key once with its columns beside
those that they refer to. -/
structure ListsKeys (primaryKey : List String) (fks : List ConstraintSchema) (e : DiscoveredEntity) :
    Prop where
  primaryKey : e.primaryKey = primaryKey
  foreignKeys : e.foreignKeys.Perm fks

theorem foreignKeys_of_constraints {table : String} {pks : List String} {e : DiscoveredEntity}
    {fks others : List ConstraintSchema}
    (he : e.constraints = primaryKeyConstraint table pks ++ fks ++ others)
    (hfks : ∀ c ∈ fks, c.constraintType = .foreignKey)
    (hothers : ∀ c ∈ others, c.constraintType ≠ .foreignKey) : e.foreignKeys = fks := by
  have hpks : (primaryKeyConstraint table pks).filter (·.constraintType = .foreignKey) = [] := by
    unfold primaryKeyConstraint
    split_ifs <;> rfl
  rw [DiscoveredEntity.foreignKeys, he, List.filter_append, List.filter_append, hpks, List.nil_append,
    List.filter_eq_self.2 (by simpa using hfks), List.filter_eq_nil_iff.2 (by simpa using hothers),
    List.append_nil]

/-! ## Foreign keys from rows -/

section
variable {ρ : Type} {name column : ρ → String} {entity : ρ → Option String}
  {references : ρ → List String}

theorem collect_foreignKeyWith_some (c : ConstraintSchema) (rows : List ρ) :
    collect (foreignKeyWith name column entity references) (some c) rows =
      some { c with fields := (rows.map column).foldl appendNew c.fields
                    referencedFields := (rows.flatMap references).foldl appendNew
                      c.referencedFields } := by
  induction rows generalizing c with
  | nil => rfl
  | cons row rows ih =>
    change collect _ (some (foreignKeyWith name column entity references (some c) row)) rows = _
    rw [ih, List.flatMap_cons, List.foldl_append]
    rfl

/-- The first row names the entity; columns and references are taken once, as they come. -/
theorem collect_foreignKeyWith {row : ρ} (hrow : (references row).Nodup) (rows : List ρ) :
    collect (foreignKeyWith name column entity references) none (row :: rows) =
      some
        { name := name row
          constraintType := .foreignKey
          fields := distinct ((row :: rows).map column)
          referencedEntity := entity row
          referencedFields := distinct ((row :: rows).flatMap references) } := by
  have hfirst : (references row).foldl appendNew [] = references row := distinct_of_nodup hrow
  change collect _ (some (foreignKeyWith name column entity references none row)) rows = _
  rw [collect_foreignKeyWith_some, List.flatMap_cons, distinct, distinct, List.foldl_append, hfirst]
  rfl

/-- A foreign key of a group is made of the rows of its name. -/
theorem of_mem_group_foreignKeyWith (hreferences : ∀ row, (references row).Nodup) {rows : List ρ}
    {p : String × ConstraintSchema}
    (h : p ∈ group name (foreignKeyWith name column entity references) rows) :
    ∃ row rest, rows.filter (fun row => name row = p.1) = row :: rest ∧
      p.2 =
        { name := p.1
          constraintType := .foreignKey
          fields := distinct ((row :: rest).map column)
          referencedEntity := entity row
          referencedFields := distinct ((row :: rest).flatMap references) } := by
  rw [mem_group_iff] at h
  cases hrows : rows.filter fun row => name row = p.1 with
  | nil =>
    rw [hrows] at h
    cases h
  | cons row rest =>
    have hname : name row = p.1 := by
      have hmem : row ∈ rows.filter fun row => name row = p.1 := hrows ▸ List.mem_cons_self
      simpa using (List.mem_filter.1 hmem).2
    refine ⟨row, rest, rfl, ?_⟩
    rw [hrows, collect_foreignKeyWith (hreferences row), hname] at h
    exact (Option.some.inj h).symm

end

theorem getD_collect_appended {ρ α : Type} (f : ρ → α) (rows : List ρ) :
    (collect (fun v row => appended v (f row)) none rows).getD [] = rows.map f := by
  have hfold : ∀ acc : List α, rows.foldl (fun xs row => xs ++ [f row]) acc = acc ++ rows.map f := by
    induction rows with
    | nil => exact fun acc => (List.append_nil acc).symm
    | cons row rows ih => exact fun acc => (ih _).trans (List.append_assoc ..)
  exact (getD_collect (fun xs row => xs ++ [f row]) [] rows).trans (hfold [])

/-! ## SQLite -/

structure SqliteColumn where
  name : String
  type : String
  notnull : Bool

structure SqliteForeignKey extends ForeignKey where
  id : ℕ
  /-- The declaration does not name the columns that it refers to. -/
  implicit : Bool

namespace SqliteForeignKey

variable (fk : SqliteForeignKey)

/-- The rows of `PRAGMA foreign_key_list`: one for each column. -/
def rows : List SqliteForeignKeyRow :=
  (fk.columns.zip fk.references).map fun (column, reference) =>
    { id := fk.id
      table := fk.entity
      from_ := column
      to_ := if fk.implicit then none else some reference }

/-- Keys have no names here; the schema makes one of the first column. -/
def listed (table : String) : ConstraintSchema :=
  let column := fk.columns.head fk.nonempty
  let id := fk.id
  fk.constraint s!"fk_{table}_{column}_{id}"

end SqliteForeignKey

structure SqliteTable where
  row : SqliteTableRow
  columns : List SqliteColumn
  names : (columns.map (·.name)).Nodup
  primaryKey : List String
  nodupKey : primaryKey.Nodup
  keyColumns : ∀ c ∈ primaryKey, c ∈ columns.map (·.name)
  foreignKeys : List SqliteForeignKey

namespace SqliteTable

variable (t : SqliteTable)

/-- `PRAGMA table_info`: `pk` is the place in the primary key. -/
def tableInfo : List SqliteColumnRow :=
  t.columns.map fun c =>
    { name := c.name
      type := c.type
      notnull := if c.notnull then 1 else 0
      pk := if c.name ∈ t.primaryKey then t.primaryKey.idxOf c.name + 1 else 0 }

def foreignKeyList : List SqliteForeignKeyRow := t.foreignKeys.flatMap (·.rows)

def ListedBy (e : DiscoveredEntity) : Prop :=
  ListsKeys t.primaryKey (t.foreignKeys.map (·.listed t.row.tableName)) e

/-- The primary key is declared in the order of the columns, and a foreign key is one column that
names what it refers to. -/
def KeysReadable : Prop :=
  t.primaryKey.Sublist (t.columns.map (·.name)) ∧ ∀ fk ∈ t.foreignKeys, ∃ column reference,
    fk.columns = [column] ∧ fk.references = [reference] ∧ column ≠ "" ∧ fk.entity ≠ "" ∧
      reference ≠ "" ∧ fk.implicit = false

variable {t}

theorem primaryKey_tableInfo :
    (t.tableInfo.filter (0 < ·.pk)).map (·.name) =
      (t.columns.map (·.name)).filter (· ∈ t.primaryKey) := by
  have hpk : ∀ c : SqliteColumn, decide ((0 : ℤ) < if c.name ∈ t.primaryKey then
      (t.primaryKey.idxOf c.name : ℤ) + 1 else 0) = decide (c.name ∈ t.primaryKey) := by
    intro c
    split_ifs with hc
    · simp [hc]
    · simp [hc]
  rw [tableInfo, List.filter_map, List.map_map, List.filter_map]
  simp only [Function.comp_def, hpk]

/-- The columns of the key come in their own order, which is that of the key if one is part of the
other. -/
theorem filter_primaryKey_eq_iff :
    (t.columns.map (·.name)).filter (· ∈ t.primaryKey) = t.primaryKey ↔
      t.primaryKey.Sublist (t.columns.map (·.name)) := by
  constructor
  · intro h
    rw [← h]
    exact List.filter_sublist
  · intro h
    have hsub : t.primaryKey.Sublist ((t.columns.map (·.name)).filter (· ∈ t.primaryKey)) := by
      have hkept := h.filter (· ∈ t.primaryKey)
      rwa [List.filter_eq_self.2 (by simp)] at hkept
    refine (hsub.eq_of_length_le ?_).symm
    refine (List.subperm_of_subset (t.names.filter _) fun c hc => ?_).length_le
    simpa using (List.mem_filter.1 hc).2

theorem foreignKeyOf_eq_some (table : String) {row : SqliteForeignKeyRow} {c : ConstraintSchema} :
    Sqlite.foreignKeyOf table row = some c ↔ (row.from_ ≠ "" ∧ row.table ≠ "") ∧
      c = { name := s!"fk_{table}_{row.from_}_{row.id}", constraintType := .foreignKey,
            fields := [row.from_], referencedEntity := some row.table,
            referencedFields := (row.to_.filter (· ≠ "")).toList } := by
  unfold Sqlite.foreignKeyOf
  split_ifs with h
  · rw [Option.some.injEq, eq_comm]
    exact (and_iff_right h).symm
  · exact ⟨fun hc => (nomatch hc), fun hc => absurd hc.1 h⟩

/-- A foreign key that can be read is one row, and becomes what is to be listed. -/
theorem filterMap_of_readable {table column reference : String} {fk : SqliteForeignKey}
    (hcolumns : fk.columns = [column]) (hreferences : fk.references = [reference])
    (hcolumn : column ≠ "") (hentity : fk.entity ≠ "") (hreference : reference ≠ "")
    (himplicit : fk.implicit = false) :
    fk.rows.filterMap (Sqlite.foreignKeyOf table) = [fk.listed table] := by
  rw [SqliteForeignKey.rows, hcolumns, hreferences, himplicit]
  simp [Sqlite.foreignKeyOf, hcolumn, hentity, hreference, SqliteForeignKey.listed,
    ForeignKey.constraint, hcolumns, hreferences]

theorem listed_perm_iff (table : String) :
    (t.foreignKeyList.filterMap (Sqlite.foreignKeyOf table)).Perm
        (t.foreignKeys.map (·.listed table)) ↔
      ∀ fk ∈ t.foreignKeys, ∃ column reference, fk.columns = [column] ∧
        fk.references = [reference] ∧ column ≠ "" ∧ fk.entity ≠ "" ∧ reference ≠ "" ∧
          fk.implicit = false := by
  constructor
  · intro hperm fk hfk
    obtain ⟨row, hrow, hsome⟩ := List.mem_filterMap.1 (hperm.mem_iff.2 (List.mem_map_of_mem hfk))
    obtain ⟨⟨hfrom, htable⟩, hlisted⟩ := (foreignKeyOf_eq_some _).1 hsome
    obtain ⟨-, hcolumns, hentity, hreferences⟩ : _ ∧ fk.columns = [row.from_] ∧
        fk.entity = row.table ∧ fk.references = (row.to_.filter (· ≠ "")).toList := by
      simpa [SqliteForeignKey.listed, ForeignKey.constraint] using hlisted
    obtain ⟨reference, hreference⟩ : ∃ reference, fk.references = [reference] :=
      List.length_eq_one_iff.1 (by rw [fk.paired, hcolumns]; rfl)
    have hnamed : reference ≠ "" := by
      rw [hreference, eq_comm, Option.toList_eq_singleton_iff, Option.filter_eq_some_iff]
        at hreferences
      simpa using hreferences.2
    refine ⟨row.from_, reference, hcolumns, hreference, hfrom, hentity ▸ htable, hnamed, ?_⟩
    -- a key that does not name its columns is listed without them, and no key is
    by_contra himplicit
    have hown : ⟨fk.id, fk.entity, row.from_, none⟩ ∈ t.foreignKeyList := by
      refine List.mem_flatMap.2 ⟨fk, hfk, ?_⟩
      rw [SqliteForeignKey.rows, hcolumns, hreference]
      simp [himplicit]
    have hmade := List.mem_filterMap.2
      ⟨_, hown, (foreignKeyOf_eq_some table).2 ⟨⟨hfrom, hentity ▸ htable⟩, rfl⟩⟩
    obtain ⟨other, -, hother⟩ := List.mem_map.1 (hperm.mem_iff.1 hmade)
    have hnone : other.references = [] := congrArg (·.referencedFields) hother
    have hlength := other.paired
    rw [hnone] at hlength
    exact other.nonempty (List.length_eq_zero_iff.1 hlength.symm)
  · intro hreadable
    refine .of_eq ?_
    rw [foreignKeyList, List.filterMap_flatMap, List.map_eq_flatMap]
    refine List.flatMap_congr fun fk hfk => ?_
    obtain ⟨column, reference, hcolumns, hreferences, hcolumn, hentity, hreference, himplicit⟩ :=
      hreadable fk hfk
    exact filterMap_of_readable hcolumns hreferences hcolumn hentity hreference himplicit

theorem listsKeys_iff {u : Unicode} {tableColumns : String → List SqliteColumnRow}
    {tableFks : String → List SqliteForeignKeyRow}
    (hcolumns : tableColumns t.row.tableName = t.tableInfo)
    (hfks : (tableFks t.row.tableName).Perm t.foreignKeyList) :
    t.ListedBy (Sqlite.entityOf u tableColumns tableFks t.row) ↔ t.KeysReadable := by
  have hforeign : (Sqlite.entityOf u tableColumns tableFks t.row).foreignKeys =
      (tableFks t.row.tableName).filterMap (Sqlite.foreignKeyOf t.row.tableName) := by
    refine foreignKeys_of_constraints (List.append_nil _).symm (fun c hc => ?_) (by simp)
    obtain ⟨row, -, hsome⟩ := List.mem_filterMap.1 hc
    rw [((foreignKeyOf_eq_some _).1 hsome).2]
  have hpks : (Sqlite.entityOf u tableColumns tableFks t.row).primaryKey =
      (t.columns.map (·.name)).filter (· ∈ t.primaryKey) := by
    rw [← primaryKey_tableInfo, ← hcolumns]
    rfl
  rw [KeysReadable, ← filter_primaryKey_eq_iff, ← listed_perm_iff t.row.tableName]
  constructor
  · rintro ⟨hprimary, hlisted⟩
    rw [hforeign] at hlisted
    exact ⟨hpks.symm.trans hprimary, (hfks.filterMap _).symm.trans hlisted⟩
  · rintro ⟨hprimary, hlisted⟩
    refine ⟨hpks.trans hprimary, ?_⟩
    rw [hforeign]
    exact (hfks.filterMap _).trans hlisted

end SqliteTable

/-- What the pragmas answer about the tables; the foreign keys come in any order. -/
structure SqliteAnswers (tables : List SqliteTable) where
  tableColumns : String → List SqliteColumnRow
  tableFks : String → List SqliteForeignKeyRow
  tableInfo : ∀ t ∈ tables, tableColumns t.row.tableName = t.tableInfo
  foreignKeyList : ∀ t ∈ tables, (tableFks t.row.tableName).Perm t.foreignKeyList

end AltrStream.Connectors
