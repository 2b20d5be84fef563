import AltrStream.Connectors.CatalogKeys
import Mathlib.Data.List.Flatten

/-! # The keys of a MySQL database

MySQL answers keys as a join of the columns of keys with the constraints that have their names.
Names are unique for each kind of constraint only, and are compared by a collation.
-/
namespace AltrStream.Connectors
open Foundations Python QueryEngine

/-- The name that SQL has for a kind of constraint. -/
def ConstraintType.text : ConstraintType → String
  | .primaryKey => "PRIMARY KEY"
  | .foreignKey => "FOREIGN KEY"
  | .unique => "UNIQUE"
  | .check => "CHECK"

theorem ConstraintType.text_injective : Function.Injective ConstraintType.text := by
  intro a b h
  cases a <;> cases b <;> first | rfl | exact absurd h (by decide)

/-- How a server compares the names of tables and of constraints. -/
structure Collation (κ : Type) where
  table : String → κ
  name : String → κ

/-- A column of a key and what it refers to. -/
structure KeyColumn where
  column : String
  reference : Option (String × String) := none

structure MysqlKey where
  name : String
  type : ConstraintType
  columns : List KeyColumn

namespace MysqlKey

def primaryKey (columns : List String) : MysqlKey :=
  ⟨"PRIMARY", .primaryKey, columns.map fun column => { column }⟩

def unique (u : String × List String) : MysqlKey :=
  ⟨u.1, .unique, u.2.map fun column => { column }⟩

def foreignKey (f : String × ForeignKey) : MysqlKey :=
  ⟨f.1, .foreignKey, (f.2.columns.zip f.2.references).map fun (column, reference) =>
    { column, reference := some (f.2.entity, reference) }⟩

/-- A row of `key_column_usage`, joined with a constraint of this type. -/
def rowAt (k : MysqlKey) (tableName : String) (type : ConstraintType) (c : KeyColumn × ℕ) :
    MysqlConstraintRow where
  tableName
  columnName := c.1.column
  constraintName := k.name
  constraintType := type.text
  referencedTableName := c.1.reference.map Prod.fst
  referencedColumnName := c.1.reference.map Prod.snd
  ordinalPosition := c.2

def rows (k : MysqlKey) (tableName : String) (type : ConstraintType) : List MysqlConstraintRow :=
  (k.columns.zipIdx 1).map (k.rowAt tableName type)

end MysqlKey

variable {κ : Type} {collation : Collation κ}

/-- Constraints of one kind have different names; a primary key has none of its own. -/
structure MysqlTable (collation : Collation κ) where
  row : MysqlTableRow
  primaryKey : List String
  uniques : List (String × List String)
  foreignKeys : List (String × ForeignKey)
  uniqueNames : (uniques.map (collation.name ·.1)).Nodup
  foreignNames : (foreignKeys.map (collation.name ·.1)).Nodup
  uniqueColumns : ∀ u ∈ uniques, u.2 ≠ []
  named : ∀ f ∈ foreignKeys, "" ∉ f.2.references

namespace MysqlTable

variable (t : MysqlTable collation)

def primaryKeys : List MysqlKey :=
  if t.primaryKey = [] then [] else [.primaryKey t.primaryKey]

def keys : List MysqlKey :=
  t.primaryKeys ++ (t.uniques.map .unique ++ t.foreignKeys.map .foreignKey)

end MysqlTable

namespace MysqlTable

variable {t : MysqlTable collation}

theorem filter_keys_primaryKey : t.keys.filter (·.type = .primaryKey) = t.primaryKeys := by
  unfold keys primaryKeys
  split_ifs <;> simp [List.filter_map, Function.comp_def, MysqlKey.primaryKey, MysqlKey.unique,
    MysqlKey.foreignKey]

theorem filter_keys_foreignKey :
    t.keys.filter (·.type = .foreignKey) = t.foreignKeys.map .foreignKey := by
  unfold keys primaryKeys
  split_ifs <;> simp [List.filter_map, Function.comp_def, MysqlKey.primaryKey, MysqlKey.unique,
    MysqlKey.foreignKey]

theorem mem_keys {k : MysqlKey} : k ∈ t.keys ↔
    k ∈ t.primaryKeys ∨ k ∈ t.uniques.map .unique ∨ k ∈ t.foreignKeys.map .foreignKey := by
  rw [keys, List.mem_append, List.mem_append]

theorem map_column_primaryKeys :
    (t.primaryKeys.flatMap fun k => k.columns.map (·.column)) = t.primaryKey := by
  unfold primaryKeys
  split_ifs with hnone
  · exact hnone.symm
  · simp [MysqlKey.primaryKey, Function.comp_def]

theorem columns_ne_nil {k : MysqlKey} (hk : k ∈ t.keys) : k.columns ≠ [] := by
  rcases mem_keys.1 hk with h | h | h
  · unfold primaryKeys at h
    split_ifs at h with hnone
    · cases h
    · rw [List.mem_singleton.1 h]
      simpa [MysqlKey.primaryKey] using hnone
  · obtain ⟨unique, hunique, rfl⟩ := List.mem_map.1 h
    simpa [MysqlKey.unique] using t.uniqueColumns unique hunique
  · obtain ⟨⟨name, fk⟩, -, rfl⟩ := List.mem_map.1 h
    have hreferences : fk.references ≠ [] := by
      intro hnil
      have hlength := fk.paired
      rw [hnil] at hlength
      exact fk.nonempty (List.length_eq_zero_iff.1 hlength.symm)
    simp [MysqlKey.foreignKey, fk.nonempty, hreferences]

end MysqlTable

variable [LinearOrder κ]

namespace MysqlTable

variable (t : MysqlTable collation)

/-- The rows of a constraint: it is joined with every key that has its name. -/
def rowsOf (tc : MysqlKey) : List MysqlConstraintRow :=
  (t.keys.filter fun kcu => collation.name kcu.name = collation.name tc.name).flatMap
    (·.rows t.row.tableName tc.type)

def rows : List MysqlConstraintRow := t.keys.flatMap t.rowsOf

/-- No two keys of the table share a name. -/
def NamesApart : Prop := (t.keys.map (collation.name ·.name)).Nodup

instance : Decidable t.NamesApart := inferInstanceAs (Decidable (List.Nodup _))

def ListedBy (e : DiscoveredEntity) : Prop :=
  ListsKeys t.primaryKey (t.foreignKeys.map fun (name, fk) => fk.constraint name) e

end MysqlTable

structure MysqlDatabase (collation : Collation κ) where
  tables : List (MysqlTable collation)
  distinct : (tables.map (collation.table ·.row.tableName)).Nodup

/-- `CONSTRAINTS_QUERY` without its order. -/
def MysqlDatabase.constraints (db : MysqlDatabase collation) : List MysqlConstraintRow :=
  db.tables.flatMap (·.rows)

/-- `ORDER BY kcu.table_name, kcu.constraint_name, kcu.ordinal_position` -/
def mysqlRank (collation : Collation κ) (row : MysqlConstraintRow) : κ ×ₗ κ ×ₗ ℕ :=
  toLex (collation.table row.tableName, toLex (collation.name row.constraintName,
    row.ordinalPosition))


/-! ## Rows of the answers -/

theorem Mysql.nodup_referencesOf (row : MysqlConstraintRow) : (Mysql.referencesOf row).Nodup :=
  Option.toList_nodup _

namespace MysqlKey

variable {k : MysqlKey} {tableName : String} {type : ConstraintType}

theorem of_mem_rows {row : MysqlConstraintRow} (h : row ∈ k.rows tableName type) :
    row.tableName = tableName ∧ row.constraintName = k.name ∧ row.constraintType = type.text ∧
      1 ≤ row.ordinalPosition := by
  obtain ⟨⟨c, i⟩, hc, rfl⟩ := List.mem_map.1 h
  exact ⟨rfl, rfl, rfl, List.le_snd_of_mem_zipIdx hc⟩

@[simp] theorem length_rows : (k.rows tableName type).length = k.columns.length := by
  simp [rows]

/-- The rows of a key have one order only. -/
theorem strict_rows (collation : Collation κ) : (k.rows tableName type).Pairwise fun a b =>
    mysqlRank collation a < mysqlRank collation b := by
  refine List.pairwise_map.2 ((pairwise_zipIdx k.columns).imp fun h => ?_)
  exact Prod.Lex.toLex_lt_toLex.2 (.inr ⟨rfl, Prod.Lex.toLex_lt_toLex.2 (.inr ⟨rfl, h⟩)⟩)

theorem map_rows {β : Type} {g : MysqlConstraintRow → β} {h : KeyColumn → β}
    (hg : ∀ c, g (k.rowAt tableName type c) = h c.1) :
    (k.rows tableName type).map g = k.columns.map h := by
  rw [rows, List.map_map]
  conv_rhs => rw [← List.zipIdx_map_fst 1 k.columns, List.map_map]
  exact List.map_congr_left fun c _ => hg c

end MysqlKey

/-- The rows of a foreign key become that key. -/
theorem collect_foreignKey {f : String × ForeignKey} (hnamed : "" ∉ f.2.references)
    (tableName : String) :
    collect Mysql.foreignKeyStep none ((MysqlKey.foreignKey f).rows tableName .foreignKey) =
      some (f.2.constraint f.1) := by
  obtain ⟨name, fk⟩ := f
  have hpaired := fk.paired
  have hcolumns : ((MysqlKey.foreignKey (name, fk)).rows tableName .foreignKey).map (·.columnName) =
      fk.columns := by
    rw [MysqlKey.map_rows (h := (·.column)) fun _ => rfl, MysqlKey.foreignKey, List.map_map]
    exact List.map_fst_zip hpaired.ge
  have hreferences : ((MysqlKey.foreignKey (name, fk)).rows tableName .foreignKey).flatMap
      Mysql.referencesOf = fk.references := by
    rw [List.flatMap_def, MysqlKey.map_rows
      (h := fun c => ((c.reference.map Prod.snd).filter (· ≠ "")).toList) fun _ => rfl,
      ← List.flatMap_def, MysqlKey.foreignKey, List.flatMap_map]
    conv_rhs => rw [← List.map_snd_zip hpaired.le, List.map_eq_flatMap]
    refine List.flatMap_congr fun ⟨column, reference⟩ hmem => ?_
    have hne : reference ≠ "" := by
      rintro rfl
      exact hnamed (List.of_mem_zip hmem).2
    simp [hne]
  have hentity : ∀ row ∈ (MysqlKey.foreignKey (name, fk)).rows tableName .foreignKey,
      row.constraintName = name ∧ row.referencedTableName = some fk.entity := by
    intro row hrow
    obtain ⟨⟨c, i⟩, hc, rfl⟩ := List.mem_map.1 hrow
    obtain ⟨_, -, rfl⟩ := List.mem_map.1 (List.fst_mem_of_mem_zipIdx hc)
    exact ⟨rfl, rfl⟩
  obtain ⟨row, rest, hrows⟩ := List.exists_cons_of_ne_nil
    (l := (MysqlKey.foreignKey (name, fk)).rows tableName .foreignKey) (by
      intro hnil
      rw [hnil] at hcolumns
      exact fk.nonempty hcolumns.symm)
  obtain ⟨hname, htable⟩ := hentity row (hrows ▸ List.mem_cons_self)
  rw [hrows] at hcolumns hreferences ⊢
  rw [Mysql.foreignKeyStep, collect_foreignKeyWith (Mysql.nodup_referencesOf _), hcolumns, hreferences,
    hname, htable, distinct_of_nodup fk.nodup, distinct_of_nodup fk.nodupReferences]
  rfl

namespace MysqlTable

variable {t : MysqlTable collation}

theorem of_mem_rowsOf {tc : MysqlKey} {row : MysqlConstraintRow} (h : row ∈ t.rowsOf tc) :
    row.tableName = t.row.tableName ∧ row.constraintType = tc.type.text ∧
      1 ≤ row.ordinalPosition := by
  obtain ⟨k, -, hrow⟩ := List.mem_flatMap.1 h
  obtain ⟨htable, -, htype, hordinal⟩ := MysqlKey.of_mem_rows hrow
  exact ⟨htable, htype, hordinal⟩

end MysqlTable

theorem MysqlDatabase.filter_constraints {db : MysqlDatabase collation} {t : MysqlTable collation}
    (ht : t ∈ db.tables) (type : ConstraintType) :
    (db.constraints.filter (·.constraintType = type.text)).filter (·.tableName = t.row.tableName) =
      (t.keys.filter (·.type = type)).flatMap t.rowsOf := by
  have htables : db.tables.filter (fun t' => t'.row.tableName = t.row.tableName) = [t] := by
    refine filter_eq_singleton (fun t : MysqlTable collation => t.row.tableName) ?_ ht
    refine List.Nodup.of_map collation.table ?_
    rw [List.map_map]
    exact db.distinct
  rw [List.filter_comm, MysqlDatabase.constraints,
    filter_flatMap_of_key fun t' => decide (t'.row.tableName = t.row.tableName), htables,
    List.flatMap_singleton, MysqlTable.rows,
    filter_flatMap_of_key fun tc : MysqlKey => decide (tc.type = type)]
  · intro tc _ row hrow
    rw [(MysqlTable.of_mem_rowsOf hrow).2.1]
    exact decide_eq_decide.2 ConstraintType.text_injective.eq_iff
  · intro t' _ row hrow
    obtain ⟨tc, -, hrow⟩ := List.mem_flatMap.1 hrow
    rw [(MysqlTable.of_mem_rowsOf hrow).1]

section
variable {db : MysqlDatabase collation} {t : MysqlTable collation} {u : Unicode}
  {answer : List MysqlConstraintRow}

/-- The rows of a kind of constraint of a table. -/
def selected (answer : List MysqlConstraintRow) (type : ConstraintType) (tableName : String) :
    List MysqlConstraintRow :=
  (answer.filter (·.constraintType = type.text)).filter (·.tableName = tableName)

theorem ranked_selected (h : Ranked (mysqlRank collation) db.constraints answer) (ht : t ∈ db.tables)
    (type : ConstraintType) : Ranked (mysqlRank collation)
      ((t.keys.filter (·.type = type)).flatMap t.rowsOf) (selected answer type t.row.tableName) := by
  rw [← MysqlDatabase.filter_constraints ht]
  exact (h.filter _).filter _

variable (hu : ∀ type : ConstraintType, u.upper type.text = type.text)
include hu

theorem filter_rowsOf (h : Ranked (mysqlRank collation) db.constraints answer) (type : ConstraintType)
    (tableName : String) : (Mysql.rowsOf u answer type.text).filter (·.tableName = tableName) =
      selected answer type tableName := by
  unfold selected Mysql.rowsOf
  congr 1
  refine List.filter_congr fun row hrow => ?_
  obtain ⟨t, -, hrow⟩ := List.mem_flatMap.1 (h.1.mem_iff.1 hrow)
  obtain ⟨tc, -, hrow⟩ := List.mem_flatMap.1 hrow
  rw [(MysqlTable.of_mem_rowsOf hrow).2.1, hu]

theorem primaryKey_entityOf (h : Ranked (mysqlRank collation) db.constraints answer)
    (columnsData : List MysqlColumnRow) (row : MysqlTableRow) :
    (Mysql.entityOf u answer columnsData row).primaryKey =
      (selected answer .primaryKey row.tableName).map (·.columnName) := by
  rw [← filter_rowsOf hu h, ← getD_collect_appended, ← get?_group]
  rfl

theorem foreignKeys_entityOf (h : Ranked (mysqlRank collation) db.constraints answer)
    (columnsData : List MysqlColumnRow) (row : MysqlTableRow) :
    (Mysql.entityOf u answer columnsData row).foreignKeys =
      (group (·.constraintName) Mysql.foreignKeyStep
        (selected answer .foreignKey row.tableName)).map Prod.snd := by
  have hgroup : ((Mysql.fksByTable u answer).get? row.tableName).getD [] =
      group (·.constraintName) Mysql.foreignKeyStep (selected answer .foreignKey row.tableName) := by
    rw [← filter_rowsOf hu h, Mysql.fksByTable, get?_group]
    exact getD_collect (groupRow (·.constraintName) Mysql.foreignKeyStep) [] _
  refine foreignKeys_of_constraints (by rw [← hgroup]; rfl) ?_ ?_
  · intro c hc
    obtain ⟨p, hp, rfl⟩ := List.mem_map.1 hc
    obtain ⟨row, rest, -, heq⟩ := of_mem_group_foreignKeyWith Mysql.nodup_referencesOf hp
    rw [heq]
  · intro c hc
    obtain ⟨_, -, rfl⟩ := List.mem_map.1 hc
    exact nofun

end

/-! ## Keys of a table -/

namespace MysqlTable

variable {t : MysqlTable collation}

/-- A key with a name of its own is joined with itself only. -/
theorem rowsOf_of_namesApart (h : t.NamesApart) {k : MysqlKey} (hk : k ∈ t.keys) :
    t.rowsOf k = k.rows t.row.tableName k.type := by
  rw [rowsOf, filter_eq_singleton (fun k : MysqlKey => collation.name k.name) h hk,
    List.flatMap_singleton]

end MysqlTable

section
variable {db : MysqlDatabase collation} {t : MysqlTable collation}
  {answer : List MysqlConstraintRow}

/-- The primary key comes in its order. -/
theorem selected_primaryKey (h : Ranked (mysqlRank collation) db.constraints answer)
    (ht : t ∈ db.tables) (hapart : t.NamesApart) :
    (selected answer .primaryKey t.row.tableName).map (·.columnName) = t.primaryKey := by
  have hselected := ranked_selected h ht .primaryKey
  rw [MysqlTable.filter_keys_primaryKey] at hselected
  have hown : t.primaryKeys.flatMap t.rowsOf =
      t.primaryKeys.flatMap fun k => k.rows t.row.tableName k.type :=
    List.flatMap_congr fun k hk =>
      MysqlTable.rowsOf_of_namesApart hapart (MysqlTable.mem_keys.2 (.inl hk))
  rw [hown] at hselected
  rw [hselected.eq_of_strict ?_, List.map_flatMap, ← MysqlTable.map_column_primaryKeys]
  · exact List.flatMap_congr fun k _ => MysqlKey.map_rows fun _ => rfl
  · unfold MysqlTable.primaryKeys
    split_ifs
    · exact .nil
    · simpa using MysqlKey.strict_rows collation

/-- Each foreign key is a group of its own rows. -/
theorem group_foreignKeys (h : Ranked (mysqlRank collation) db.constraints answer)
    (ht : t ∈ db.tables) (hapart : t.NamesApart) :
    (group (·.constraintName) Mysql.foreignKeyStep (selected answer .foreignKey t.row.tableName)).Perm
      (t.foreignKeys.map fun f => (f.1, f.2.constraint f.1)) := by
  have hselected := ranked_selected h ht .foreignKey
  have hown : (t.foreignKeys.map MysqlKey.foreignKey).flatMap t.rowsOf =
      t.foreignKeys.flatMap fun f => (MysqlKey.foreignKey f).rows t.row.tableName .foreignKey := by
    rw [List.flatMap_map]
    exact List.flatMap_congr fun f hf => MysqlTable.rowsOf_of_namesApart hapart
      (MysqlTable.mem_keys.2 (.inr (.inr (List.mem_map_of_mem hf))))
  rw [MysqlTable.filter_keys_foreignKey, hown] at hselected
  have hnames : (t.foreignKeys.map Prod.fst).Nodup :=
    .of_map collation.name (by rw [List.map_map]; exact t.foreignNames)
  refine group_perm hnames (fun row hrow => ?_) fun f hf => ?_
  · obtain ⟨f, hf, hrow⟩ := List.mem_flatMap.1 (hselected.1.mem_iff.1 hrow)
    exact ⟨f, hf, (MysqlKey.of_mem_rows hrow).2.1.symm⟩
  · have hrows := hselected.filter fun row => row.constraintName = f.1
    rw [filter_flatMap_of_key fun f' : String × ForeignKey => decide (f'.1 = f.1),
      filter_eq_singleton Prod.fst hnames hf, List.flatMap_singleton] at hrows
    · rw [hrows.eq_of_strict (MysqlKey.strict_rows collation)]
      exact collect_foreignKey (t.named f hf) _
    · intro f' _ row hrow
      rw [(MysqlKey.of_mem_rows hrow).2.1]
      rfl

/-- A primary key that comes in full shares its name with no other key. -/
theorem primaryKey_apart (h : Ranked (mysqlRank collation) db.constraints answer)
    (ht : t ∈ db.tables)
    (hlisted : (selected answer .primaryKey t.row.tableName).map (·.columnName) = t.primaryKey)
    {k k' : MysqlKey} (hk : k ∈ t.primaryKeys)
    (hk' : k' ∈ t.uniques.map .unique ++ t.foreignKeys.map .foreignKey) :
    collation.name k.name ≠ collation.name k'.name := by
  intro hsame
  have hselected := (ranked_selected h ht .primaryKey).1.length_eq
  rw [MysqlTable.filter_keys_primaryKey] at hselected
  have hlength := congrArg List.length hlisted
  rw [List.length_map, hselected] at hlength
  have hkey : t.primaryKeys = [k] := by
    unfold MysqlTable.primaryKeys at hk ⊢
    split_ifs at hk ⊢
    · cases hk
    · rw [List.mem_singleton.1 hk]
  have hcolumns : t.primaryKey.length = k.columns.length := by
    rw [← MysqlTable.map_column_primaryKeys, hkey]
    simp
  -- the rows of the other key come in addition to its own
  have hmore : k.columns.length + k'.columns.length ≤ (t.rowsOf k).length := by
    have hsub : [k, k'].Sublist
        (t.keys.filter fun kcu => collation.name kcu.name = collation.name k.name) := by
      have hkeys : [k, k'].Sublist t.keys := by
        rw [MysqlTable.keys, hkey]
        exact (List.singleton_sublist.2 hk').cons_cons k
      have hfiltered := hkeys.filter fun kcu => collation.name kcu.name = collation.name k.name
      rwa [List.filter_eq_self.2 (by simp [hsame])] at hfiltered
    have hlength := (hsub.flatMap (·.rows t.row.tableName k.type)).length_le
    simpa [MysqlTable.rowsOf] using hlength
  have hne := MysqlTable.columns_ne_nil (t := t)
    (MysqlTable.mem_keys.2 (.inr (List.mem_append.1 hk')))
  rw [hkey, List.flatMap_singleton, hcolumns] at hlength
  have hpos := List.length_pos_iff.2 hne
  omega

end

/-- A foreign key that always comes with its entity shares its name with no unique key. -/
theorem exists_answer_unlisted {db : MysqlDatabase collation} {t : MysqlTable collation}
    (ht : t ∈ db.tables) {unique : String × List String} (hunique : unique ∈ t.uniques)
    {f : String × ForeignKey} (hf : f ∈ t.foreignKeys)
    (hsame : collation.name unique.1 = collation.name f.1) :
    ∃ answer, Ranked (mysqlRank collation) db.constraints answer ∧
      ∃ p ∈ group (·.constraintName) Mysql.foreignKeyStep
        (selected answer .foreignKey t.row.tableName), p.2.referencedEntity = none := by
  obtain ⟨name, columns⟩ := unique
  obtain ⟨column, columns, rfl⟩ := List.exists_cons_of_ne_nil (t.uniqueColumns _ hunique)
  let key := MysqlKey.unique (name, column :: columns)
  let row := key.rowAt t.row.tableName .foreignKey ({ column }, 1)
  have hkey : key ∈ t.keys := MysqlTable.mem_keys.2 (.inr (.inl (List.mem_map_of_mem hunique)))
  have hforeign : MysqlKey.foreignKey f ∈ t.keys :=
    MysqlTable.mem_keys.2 (.inr (.inr (List.mem_map_of_mem hf)))
  have hrow : row ∈ db.constraints := by
    refine List.mem_flatMap.2 ⟨t, ht, List.mem_flatMap.2 ⟨_, hforeign, List.mem_flatMap.2
      ⟨key, List.mem_filter.2 ⟨hkey, decide_eq_true hsame⟩, ?_⟩⟩⟩
    exact List.mem_map_of_mem List.mem_cons_self
  obtain ⟨answer, hanswer, hfirst⟩ := exists_ranked_first (mysqlRank collation) hrow
  let own (a : MysqlConstraintRow) : Bool := decide (a.constraintName = name) &&
    decide (a.tableName = t.row.tableName) &&
      decide (a.constraintType = ConstraintType.foreignKey.text)
  have hleast : ∀ a ∈ db.constraints, own a → mysqlRank collation row ≤ mysqlRank collation a := by
    intro a ha hown
    obtain ⟨⟨hname, htable⟩, -⟩ :
        (a.constraintName = name ∧ a.tableName = t.row.tableName) ∧ _ := by
      simpa [own] using hown
    obtain ⟨t', -, ha⟩ := List.mem_flatMap.1 ha
    obtain ⟨tc, -, ha⟩ := List.mem_flatMap.1 ha
    refine Prod.Lex.toLex_le_toLex.2 (.inr ⟨congrArg collation.table htable.symm, ?_⟩)
    exact Prod.Lex.toLex_le_toLex.2 (.inr ⟨congrArg collation.name hname.symm,
      (MysqlTable.of_mem_rowsOf ha).2.2⟩)
  obtain ⟨rest, hrest⟩ :=
    hfirst own (by simp [own, row, key, MysqlKey.rowAt, MysqlKey.unique]) hleast
  have hgroup : (selected answer .foreignKey t.row.tableName).filter
      (fun a => a.constraintName = name) = row :: rest := by
    rw [← hrest, selected, List.filter_filter, List.filter_filter]
  have hvalue : collect Mysql.foreignKeyStep none (row :: rest) = some _ :=
    collect_foreignKeyWith (Mysql.nodup_referencesOf row) rest
  exact ⟨answer, hanswer, (name, _), mem_group_iff.2 (hgroup ▸ hvalue), rfl⟩

section
variable {u : Unicode} (hu : ∀ type : ConstraintType, u.upper type.text = type.text)
include hu

theorem listedBy_of_namesApart {db : MysqlDatabase collation} {t : MysqlTable collation}
    {answer : List MysqlConstraintRow} (h : Ranked (mysqlRank collation) db.constraints answer)
    (ht : t ∈ db.tables) (hapart : t.NamesApart) (columnsData : List MysqlColumnRow) :
    t.ListedBy (Mysql.entityOf u answer columnsData t.row) where
  primaryKey := (primaryKey_entityOf hu h columnsData t.row).trans (selected_primaryKey h ht hapart)
  foreignKeys := by
    rw [foreignKeys_entityOf hu h]
    simpa [Function.comp_def] using (group_foreignKeys h ht hapart).map Prod.snd

theorem namesApart_of_listedBy {db : MysqlDatabase collation} {t : MysqlTable collation}
    (ht : t ∈ db.tables) (hlisted : ∀ answer, Ranked (mysqlRank collation) db.constraints answer →
      ∃ columnsData, t.ListedBy (Mysql.entityOf u answer columnsData t.row)) : t.NamesApart := by
  have hprimary : ∀ k ∈ t.primaryKeys, 
      ∀ k' ∈ t.uniques.map MysqlKey.unique ++ t.foreignKeys.map MysqlKey.foreignKey,
      collation.name k.name ≠ collation.name k'.name := by
    intro k hk k' hk'
    obtain ⟨answer, hanswer⟩ := exists_ranked (mysqlRank collation) db.constraints
    obtain ⟨columnsData, hkeys⟩ := hlisted answer hanswer
    refine primaryKey_apart hanswer ht ?_ hk hk'
    rw [← primaryKey_entityOf hu hanswer columnsData, hkeys.primaryKey]
  have hunique : ∀ unique ∈ t.uniques, ∀ f ∈ t.foreignKeys,
      collation.name unique.1 ≠ collation.name f.1 := by
    intro unique hunique f hf hsame
    obtain ⟨answer, hanswer, p, hp, hnone⟩ := exists_answer_unlisted ht hunique hf hsame
    obtain ⟨columnsData, hkeys⟩ := hlisted answer hanswer
    have hmem := hkeys.foreignKeys.mem_iff.1
      (foreignKeys_entityOf hu hanswer columnsData t.row ▸ List.mem_map_of_mem hp)
    obtain ⟨f', -, heq⟩ := List.mem_map.1 hmem
    rw [← heq] at hnone
    cases hnone
  rw [MysqlTable.NamesApart, MysqlTable.keys, List.map_append, List.map_append]
  refine List.nodup_append.2 ⟨?_, List.nodup_append.2 ⟨?_, ?_, ?_⟩, ?_⟩
  · unfold MysqlTable.primaryKeys
    split_ifs <;> simp
  · rw [List.map_map]
    exact t.uniqueNames
  · rw [List.map_map]
    exact t.foreignNames
  · rw [List.map_map, List.map_map]
    rintro _ hu' _ hf' rfl
    obtain ⟨unique, hin, rfl⟩ := List.mem_map.1 hu'
    obtain ⟨f, hf, heq⟩ := List.mem_map.1 hf'
    exact hunique unique hin f hf heq.symm
  · rintro _ hk _ hk' rfl
    obtain ⟨k, hin, rfl⟩ := List.mem_map.1 hk
    rw [← List.map_append] at hk'
    obtain ⟨k', hin', heq⟩ := List.mem_map.1 hk'
    exact hprimary k hin k' hin' heq.symm

end

/-- The schema of a MySQL database lists the keys of its tables, in whatever order the rows come that
the query leaves open, exactly if no two keys of a table share a name. -/
theorem listsKeys_mysql (u : Unicode) (hu : ∀ type : ConstraintType, u.upper type.text = type.text)
    (db : MysqlDatabase collation) (columnsData : List MysqlColumnRow) :
    (∀ answer, Ranked (mysqlRank collation) db.constraints answer → List.Forall₂ MysqlTable.ListedBy
        db.tables (buildSourceSchemaFromMysql u (db.tables.map (·.row)) columnsData answer)) ↔
      ∀ t ∈ db.tables, t.NamesApart := by
  have hforall : ∀ answer, List.Forall₂ MysqlTable.ListedBy db.tables
      (buildSourceSchemaFromMysql u (db.tables.map (·.row)) columnsData answer) ↔
        ∀ t ∈ db.tables, t.ListedBy (Mysql.entityOf u answer columnsData t.row) := by
    intro answer
    rw [buildSourceSchemaFromMysql, List.map_map, List.forall₂_map_right_iff, List.forall₂_same]
    rfl
  constructor
  · intro h t ht
    exact namesApart_of_listedBy hu ht fun answer hanswer =>
      ⟨columnsData, (hforall answer).1 (h answer hanswer) t ht⟩
  · intro h answer hanswer
    exact (hforall answer).2 fun t ht => listedBy_of_namesApart hu hanswer ht (h t ht) columnsData

/-- Names that differ in their case only are the same. -/
def caseInsensitive : Collation String where
  table := id
  name := Unicode.ascii.lower

/-- `CONSTRAINT owner UNIQUE (user_id)`, `CONSTRAINT Owner FOREIGN KEY (user_id) REFERENCES users (id)` -/
def accounts : MysqlDatabase caseInsensitive where
  tables :=
    [{ row := ⟨"accounts", "BASE TABLE", ""⟩
       primaryKey := ["id"]
       uniques := [("owner", ["user_id"])]
       foreignKeys := [("Owner", ⟨⟨["user_id"], ["id"], by decide, rfl, by decide, by decide⟩, "users"⟩)]
       uniqueNames := List.nodup_singleton _
       foreignNames := List.nodup_singleton _
       uniqueColumns := by simp
       named := by simp }]
  distinct := List.nodup_singleton _

theorem not_listsKeys_accounts : ¬ ∀ answer,
    Ranked (mysqlRank caseInsensitive) accounts.constraints answer → List.Forall₂ MysqlTable.ListedBy
      accounts.tables
        (buildSourceSchemaFromMysql Unicode.ascii (accounts.tables.map (·.row)) [] answer) := by
  intro h
  have hapart := (listsKeys_mysql Unicode.ascii (by intro type; cases type <;> decide) accounts []).1 h
  exact absurd (hapart _ List.mem_cons_self) (by decide)

end AltrStream.Connectors
