import AltrStream.Foundations.Regex
import AltrStream.Foundations.TiedWindow
import AltrStream.Lowering.WhereTree
import AltrStream.Lowering.TextSearch
import AltrStream.Lowering.MongoMatching

/-! # Ranking and sorting

What a lowered READ returns from a table: the rows that its WHERE keeps, in the
order of its ORDER BY or sort, from OFFSET on and up to LIMIT. Ties stand in any
order, and NULLs where the statement or else the database puts them. `TOP n BY f`
is compared with `SORT { f DESC } LIMIT n`, and `BOTTOM` with `ASC`.
-/
namespace AltrStream.Lowering
open Foundations Python QueryEngine Semantics

/-! ### Ordered statements -/

/-- Whether an ORDER BY item puts NULLs first, if need be by the default of the database:
PostgreSQL takes NULL for the greatest value, MySQL and SQLite for the least. -/
def SqlSource.nullsFirst (src : SqlSource) (item : OrderItem) : Bool :=
  if item.nulls = " NULLS FIRST" then true
  else if item.nulls = " NULLS LAST" then false
  else if src = .postgresql then item.direction = .desc
  else item.direction = .asc

section
variable {α V : Type} [LinearOrder V] (cell : String → α → Option V)

/-- ORDER BY: by the first item, rows with equal values by the rest. -/
def SqlSource.RowOrder (src : SqlSource) : List OrderItem → α → α → Prop
  | [], _, _ => True
  | item :: items, a, b =>
    if cell item.column a = cell item.column b then SqlSource.RowOrder src items a b
    else NullOrder (src.nullsFirst item) (item.direction = .desc) (cell item.column a)
      (cell item.column b)

/-- A sort document, where a missing or null field is the least value. -/
def MongoDB.RowOrder : List (String × ℤ) → α → α → Prop
  | [], _, _ => True
  | item :: items, a, b =>
    if cell item.1 a = cell item.1 b then MongoDB.RowOrder items a b
    else NullOrder (item.2 = 1) (item.2 = -1) (cell item.1 a) (cell item.1 b)

/-- The rows that a SELECT can return of those that its WHERE keeps. -/
def SqlSource.Selects (src : SqlSource) (statement : SqlStatement) (kept out : List α) : Prop :=
  match statement with
  | .select _ _ _ orderBy limit offset => ∃ sorted : List α, sorted.Perm kept ∧
      sorted.Pairwise (src.RowOrder cell orderBy) ∧
      out = limit.elim id (fun n => List.take n.toNat) (sorted.drop (offset.getD 0).toNat)
  | _ => False

/-- The documents that a `find` can return of those that its filter matches; a limit of 0 is none. -/
def MongoDB.Finds (command : MongoDB.Command) (kept out : List α) : Prop :=
  match command with
  | .find _ _ _ _ sort limit skip => ∃ sorted : List α, sorted.Perm kept ∧
      sorted.Pairwise (MongoDB.RowOrder cell sort) ∧
      out = (limit.filter (· ≠ 0)).elim id (fun n => List.take n.natAbs)
        (sorted.drop (skip.getD 0).toNat)
  | _ => False

end

/-- The databases that a READ is lowered for. -/
inductive Database where
  | sql (src : SqlSource)
  | mongodb
  deriving DecidableEq

/-- One table in every database: what a row has at a path, as a row and as a document, and at the
text or path by which a statement is ordered. -/
structure SharedTable (α : Type) (field : BoundFieldPath) where
  rows : List α
  row : α → FieldPath → Option Value
  doc : α → MongoDB.Document
  orderCell : Database → String → α → Option Value
  reads_sql : ∀ src a, orderCell (.sql src) (src.lowerer.dialect.lowerFieldPath field) a =
    row a field.path
  reads_mongodb : ∀ a, orderCell .mongodb field.fullPath a = row a field.path

namespace SharedTable
variable {α : Type} {field : BoundFieldPath} (T : SharedTable α field) (clock : Clock)

def sqlKept (p : PhysicalQuery) : List α :=
  T.rows.filter fun a => p.statement.whereCondition.elim true fun c =>
    decide (c.eval ⟨clock, p.parameters, T.row a⟩ = .yes)

def mongoKept : MongoDB.Command → List α
  | .find _ filter .. => T.rows.filter fun a => filter.matches Regex.search (T.doc a)
  | _ => []

/-- The query is lowered for the database, and the condition of its WHERE keeps these rows. -/
def Keeps (db : Database) (q : BoundAltrQueryIR) (kept : List α) : Prop :=
  match db with
  | .sql src => ∃ p, src.lowerer.lower q = .ok (.single p) ∧ T.sqlKept clock p = kept
  | .mongodb => ∃ p, MongoDB.lower clock q = .ok p ∧ T.mongoKept p.command = kept

/-- The query is lowered for the database, and can return these rows. -/
def Returns (db : Database) (q : BoundAltrQueryIR) (out : List α) : Prop :=
  match db with
  | .sql src => ∃ p, src.lowerer.lower q = .ok (.single p) ∧
      src.Selects (T.orderCell (.sql src)) p.statement (T.sqlKept clock p) out
  | .mongodb => ∃ p, MongoDB.lower clock q = .ok p ∧
      MongoDB.Finds (T.orderCell .mongodb) p.command (T.mongoKept p.command) out

end SharedTable

/-! ### Rankings -/

/-- A READ that is ranked, as the validator lets it through. -/
structure RanksBy (q : BoundAltrQueryIR) (r : BoundRankingClause) : Prop where
  read : q.operation = .read
  ranking : q.ranking = some r
  sort : q.sort = []
  limit : q.limit = none
  count : 0 < r.count
  offset : ∀ o ∈ q.offset, 0 ≤ o

/-- The direction of the SORT that stands for a ranking. -/
def sortDirection : RankingDirection → SortDirection
  | .top => .desc
  | .bottom => .asc

/-- The same query with SORT and LIMIT in place of the ranking. -/
def sortedInstead (q : BoundAltrQueryIR) (r : BoundRankingClause) : BoundAltrQueryIR :=
  { q with
    ranking := none
    sort := [⟨r.field, sortDirection r.direction⟩]
    limit := some r.count }

/-- Ranking returns what sorting does in every database, and the databases return the same. -/
structure RankingAgrees {α : Type} {field : BoundFieldPath} (T : SharedTable α field) (clock : Clock)
    (q : BoundAltrQueryIR) (r : BoundRankingClause) : Prop where
  sorting : ∀ db out, T.Returns clock db q out ↔ T.Returns clock db (sortedInstead q r) out
  databases : ∀ db db' out, T.Returns clock db q out ↔ T.Returns clock db' q out

/-! ### What is returned -/

section
variable {α V : Type} [LinearOrder V] (cell : String → α → Option V)

theorem SqlSource.rowOrder_singleton (src : SqlSource) (item : OrderItem) :
    src.RowOrder cell [item] = fun a b => NullOrder (src.nullsFirst item)
      (item.direction = .desc) (cell item.column a) (cell item.column b) := by
  funext a b
  rw [SqlSource.RowOrder, SqlSource.RowOrder, eq_iff_iff]
  split_ifs with heq
  · rw [heq]
    exact iff_of_true trivial (refl_of (NullOrder _ _) _)
  · rfl

theorem MongoDB.rowOrder_singleton (item : String × ℤ) :
    MongoDB.RowOrder cell [item] = fun a b =>
      NullOrder (item.2 = 1) (item.2 = -1) (cell item.1 a) (cell item.1 b) := by
  funext a b
  rw [MongoDB.RowOrder, MongoDB.RowOrder, eq_iff_iff]
  split_ifs with heq
  · rw [heq]
    exact iff_of_true trivial (refl_of (NullOrder _ _) _)
  · rfl

end

/-- A READ is lowered to a SELECT with the lowered WHERE. -/
theorem SqlLowerer.lower_read_iff (L : SqlLowerer) {q : BoundAltrQueryIR} (h : q.operation = .read)
    (p : PhysicalQuery) : L.lower q = .ok (.single p) ↔
      ∃ w params, L.lowerWhere q.where_ [] = .ok (w, params) ∧
        p = ⟨L.dialect, .select (q.projection.map L.selectItem) (L.targetTable q.entity) w
          (L.orderItems q) ((q.ranking.map (·.count)).orElse fun _ => q.limit) q.offset, params,
          q.sourceId, q.sourceName⟩ := by
  have hop : q.operation ≠ .create := by simp [h]
  unfold SqlLowerer.lower
  rw [if_neg hop]
  simp only [SqlLowerer.physicalQuery, SqlLowerer.lowerStatement, h, bind_eq_ok, pure_eq_ok,
    PhysicalQueryResult.single.injEq, StateT.run]
  constructor
  · rintro ⟨_, ⟨⟨statement, params⟩, hrun, rfl⟩, rfl⟩
    obtain ⟨w, params', hwhere, hpure⟩ := run_bind_eq_ok.1 hrun
    obtain ⟨rfl, rfl⟩ := run_pure_eq_ok.1 hpure
    exact ⟨w, params', hwhere, rfl⟩
  · rintro ⟨w, params, hwhere, rfl⟩
    exact ⟨_, ⟨_, run_bind_eq_ok.2 ⟨w, params, hwhere, rfl⟩, rfl⟩, rfl⟩

theorem MongoDB.lower_read_iff (clock : Clock) {q : BoundAltrQueryIR} (h : q.operation = .read)
    (p : MongoDB.PhysicalQuery) : MongoDB.lower clock q = .ok p ↔
      ∃ filter, MongoDB.lowerWhere clock q.where_ = .ok filter ∧
        p = ⟨.find q.entity.name filter
          (if !q.isWildcardProjection then some (MongoDB.lowerProjection q.projection) else none)
          (if !q.isWildcardProjection then q.projection.map MongoDB.projectionField else [])
          (MongoDB.sortItems q) ((q.ranking.map (·.count)).orElse fun _ => q.limit) q.offset,
          q.sourceId, q.sourceName⟩ := by
  simp only [MongoDB.lower, MongoDB.lowerCommand, h, bind_eq_ok, pure_eq_ok]
  constructor
  · rintro ⟨_, ⟨filter, hwhere, rfl⟩, rfl⟩
    exact ⟨filter, hwhere, rfl⟩
  · rintro ⟨filter, hwhere, rfl⟩
    exact ⟨_, ⟨filter, hwhere, rfl⟩, rfl⟩

namespace SharedTable
variable {α : Type} {field : BoundFieldPath} {T : SharedTable α field} {clock : Clock}
  {q q' : BoundAltrQueryIR} {kept : List α}

/-- The rows that are kept depend on the WHERE alone. -/
theorem Keeps.congr {db : Database} (hread : q.operation = .read) (hread' : q'.operation = .read)
    (hwhere : q'.where_ = q.where_) (h : T.Keeps clock db q kept) : T.Keeps clock db q' kept := by
  cases db with
  | sql src =>
    obtain ⟨p, hp, hkept⟩ := h
    obtain ⟨w, params, hw, rfl⟩ := (src.lowerer.lower_read_iff hread p).1 hp
    exact ⟨_, (src.lowerer.lower_read_iff hread' _).2 ⟨w, params, by rw [hwhere]; exact hw, rfl⟩,
      hkept⟩
  | mongodb =>
    obtain ⟨p, hp, hkept⟩ := h
    obtain ⟨filter, hfilter, rfl⟩ := (MongoDB.lower_read_iff clock hread p).1 hp
    exact ⟨_, (MongoDB.lower_read_iff clock hread' _).2 ⟨filter, by rw [hwhere]; exact hfilter, rfl⟩,
      hkept⟩

theorem returns_sql_iff {src : SqlSource} (hread : q.operation = .read)
    (hkeeps : T.Keeps clock (.sql src) q kept) {item : OrderItem} {n : ℤ}
    (hitems : src.lowerer.orderItems q = [item])
    (hcolumn : item.column = src.lowerer.dialect.lowerFieldPath field)
    (hlimit : ((q.ranking.map (·.count)).orElse fun _ => q.limit) = some n) (out : List α) :
    T.Returns clock (.sql src) q out ↔ Window (NullOrder (src.nullsFirst item)
      (item.direction = .desc)) (fun a => T.row a field.path) (q.offset.getD 0).toNat n.toNat
      kept out := by
  obtain ⟨p, hp, hkept⟩ := hkeeps
  have hreturns : T.Returns clock (.sql src) q out ↔
      src.Selects (T.orderCell (.sql src)) p.statement (T.sqlKept clock p) out := by
    constructor
    · rintro ⟨p', hp', hselects⟩
      obtain rfl : p = p' := by simpa using hp.symm.trans hp'
      exact hselects
    · exact fun hselects => ⟨p, hp, hselects⟩
  rw [hreturns, hkept]
  obtain ⟨w, params, -, rfl⟩ := (src.lowerer.lower_read_iff hread p).1 hp
  simp only [SqlSource.Selects, hitems, hlimit, SqlSource.rowOrder_singleton, hcolumn, T.reads_sql]
  rfl

theorem returns_mongodb_iff (hread : q.operation = .read) (hkeeps : T.Keeps clock .mongodb q kept)
    {direction n : ℤ} (hitems : MongoDB.sortItems q = [(field.fullPath, direction)])
    (hlimit : ((q.ranking.map (·.count)).orElse fun _ => q.limit) = some n) (hn : 0 < n)
    (out : List α) :
    T.Returns clock .mongodb q out ↔ Window (NullOrder (direction = 1) (direction = -1))
      (fun a => T.row a field.path) (q.offset.getD 0).toNat n.toNat kept out := by
  obtain ⟨p, hp, hkept⟩ := hkeeps
  have hreturns : T.Returns clock .mongodb q out ↔
      MongoDB.Finds (T.orderCell .mongodb) p.command (T.mongoKept p.command) out := by
    constructor
    · rintro ⟨p', hp', hfinds⟩
      obtain rfl : p = p' := by simpa using hp.symm.trans hp'
      exact hfinds
    · exact fun hfinds => ⟨p, hp, hfinds⟩
  rw [hreturns, hkept]
  obtain ⟨filter, -, rfl⟩ := (MongoDB.lower_read_iff clock hread p).1 hp
  have hfilter : (some n).filter (· ≠ 0) = some n := by simp [Option.filter, hn.ne']
  have habs : n.natAbs = n.toNat := by omega
  simp only [MongoDB.Finds, hitems, hlimit, MongoDB.rowOrder_singleton, T.reads_mongodb, hfilter]
  rw [Option.elim_some, habs]
  rfl

end SharedTable

/-! ### Rankings against sorts -/

section
variable {α : Type} {r : BoundRankingClause} {T : SharedTable α r.field} {clock : Clock}
  {q : BoundAltrQueryIR} {kept : List α}

/-- Whether the ranking takes the greatest values first. -/
def ranksTop (r : BoundRankingClause) : Bool := r.direction = .top

variable (T r) in
/-- The window that a ranking asks for, with NULLs first or last. -/
abbrev RankedWindow (nullsFirst : Bool) (q : BoundAltrQueryIR) (kept out : List α) : Prop :=
  Window (NullOrder nullsFirst (ranksTop r)) (fun a => T.row a r.field.path)
    (q.offset.getD 0).toNat r.count.toNat kept out

/-- A sort puts NULLs below all values in every database. -/
theorem returns_sorted_iff (h : RanksBy q r) {db : Database} (hkeeps : T.Keeps clock db q kept)
    (out : List α) : T.Returns clock db (sortedInstead q r) out ↔
      RankedWindow r T (!ranksTop r) q kept out := by
  have hread : (sortedInstead q r).operation = .read := h.read
  have hkeeps' : T.Keeps clock db (sortedInstead q r) kept := hkeeps.congr h.read hread rfl
  cases db with
  | sql src =>
    rw [SharedTable.returns_sql_iff hread hkeeps' rfl rfl rfl]
    unfold RankedWindow ranksTop sortDirection
    cases r.direction <;> cases src <;> rfl
  | mongodb =>
    rw [SharedTable.returns_mongodb_iff hread hkeeps' rfl rfl h.count]
    unfold RankedWindow ranksTop sortDirection
    cases r.direction <;> rfl

/-- A ranking puts NULLs first for `TOP` and last for `BOTTOM` in PostgreSQL, and below all values
elsewhere. -/
theorem returns_ranked_iff (h : RanksBy q r) {db : Database} (hkeeps : T.Keeps clock db q kept)
    (out : List α) : T.Returns clock db q out ↔ RankedWindow r T
      (if db = .sql .postgresql then ranksTop r else !ranksTop r)
      q kept out := by
  have hlimit : ((q.ranking.map (·.count)).orElse fun _ => q.limit) = some r.count := by
    rw [h.ranking]
    rfl
  cases db with
  | sql src =>
    have hitems : src.lowerer.orderItems q =
        [⟨src.lowerer.dialect.lowerFieldPath r.field, sortDirection r.direction, ""⟩] := by
      simp only [SqlLowerer.orderItems, h.ranking, h.sort]
      cases hdirection : r.direction <;> simp [sortDirection, hdirection]
    rw [SharedTable.returns_sql_iff h.read hkeeps hitems rfl hlimit]
    unfold RankedWindow ranksTop sortDirection
    cases r.direction <;> cases src <;> rfl
  | mongodb =>
    have hitems : MongoDB.sortItems q =
        [(r.field.fullPath, if r.direction = .top then -1 else 1)] := by
      simp [MongoDB.sortItems, h.ranking, h.sort]
    rw [SharedTable.returns_mongodb_iff h.read hkeeps hitems hlimit h.count]
    unfold RankedWindow ranksTop
    cases r.direction <;> rfl

theorem windows_agree_iff_outOfSight (top : Bool) (key : α → Option Value) (offset limit : ℕ)
    (rows : List α) :
    (∀ out, Window (NullOrder top top) key offset limit rows out ↔
      Window (NullOrder (!top) top) key offset limit rows out) ↔
        NullsOutOfSight top offset limit (rows.map key) := by
  rw [windows_agree_iff, ← windowKeys_nullOrder_eq_iff]
  cases top
  · exact eq_comm
  · rfl

/-- PostgreSQL ranks as it sorts exactly when its NULLs are out of sight. -/
theorem postgresql_agrees_iff (h : RanksBy q r)
    (hkeeps : T.Keeps clock (.sql .postgresql) q kept) :
    (∀ out, T.Returns clock (.sql .postgresql) q out ↔
      T.Returns clock (.sql .postgresql) (sortedInstead q r) out) ↔
        NullsOutOfSight (ranksTop r) (q.offset.getD 0).toNat r.count.toNat
          (kept.map fun a => T.row a r.field.path) := by
  simp only [returns_ranked_iff h hkeeps, returns_sorted_iff h hkeeps, if_true]
  exact windows_agree_iff_outOfSight _ _ _ _ _

/-- Where every database lowers the query and keeps the same rows, ranking agrees with sorting and
between the databases exactly when the NULLs of the ranked column are out of sight. -/
theorem rankingAgrees_iff (h : RanksBy q r) (hkeeps : ∀ db, T.Keeps clock db q kept) :
    RankingAgrees T clock q r ↔
      NullsOutOfSight (ranksTop r) (q.offset.getD 0).toNat r.count.toNat
        (kept.map fun a => T.row a r.field.path) := by
  constructor
  · intro hagrees
    exact (postgresql_agrees_iff h (hkeeps _)).1 (hagrees.sorting _)
  · intro hnulls
    have hpostgresql := (windows_agree_iff_outOfSight (ranksTop r)
      (fun a => T.row a r.field.path) _ _ kept).2 hnulls
    have hlow : ∀ db out, T.Returns clock db q out ↔
        RankedWindow r T (!ranksTop r) q kept out := by
      intro db out
      rw [returns_ranked_iff h (hkeeps db)]
      split_ifs
      · exact hpostgresql out
      · rfl
    refine ⟨fun db out => ?_, fun db db' out => ?_⟩
    · rw [hlow, returns_sorted_iff h (hkeeps db)]
    · rw [hlow, hlow]

end

/-! ### Two ratings and a NULL -/

/-- Rows with one value at every path. -/
def ratings (field : BoundFieldPath) (rows : List (Option Value)) :
    SharedTable (Option Value) field where
  rows
  row v _ := v
  doc v _ := v.elim .null .value
  orderCell _ _ v := v
  reads_sql _ _ := rfl
  reads_mongodb _ := rfl

/-- `TOP 1 BY rating` -/
def topRating : BoundRankingClause where
  direction := .top
  count := 1
  field := { path := ⟨"rating", []⟩, dataType := .integer, nativeType := "integer" }

def ratingQuery : BoundAltrQueryIR where
  entity := { name := "reviews", namespace_ := "public", primaryKey := ["id"] }
  ranking := some topRating
  sourceId := "s1"
  sourceName := "shop"

theorem ranksBy_topRating : RanksBy ratingQuery topRating where
  read := rfl
  ranking := rfl
  sort := rfl
  limit := rfl
  count := by decide
  offset := by simp [ratingQuery]

theorem keeps_ratings (rows : List (Option Value)) (db : Database) :
    (ratings topRating.field rows).Keeps .newYear db ratingQuery rows := by
  have hall : rows.filter (fun _ => true) = rows := List.filter_eq_self.2 fun _ _ => rfl
  cases db with
  | sql src => cases src <;> exact ⟨_, rfl, hall⟩
  | mongodb => exact ⟨_, rfl, hall⟩

theorem rankingAgrees_ratings : RankingAgrees
    (ratings topRating.field [some (.text "good"), some (.text "poor")]) .newYear ratingQuery
      topRating :=
  (rankingAgrees_iff ranksBy_topRating (keeps_ratings _)).2
    (nullsOutOfSight_of_not_mem _ (by simp [ratings]))

/-- With a NULL in the column, PostgreSQL's `TOP 1` returns it and its sort does not. -/
theorem not_rankingAgrees_null : ¬ ∀ (α : Type) (r : BoundRankingClause) (T : SharedTable α r.field)
    (clock : Clock) (q : BoundAltrQueryIR) (kept : List α), RanksBy q r →
    (∀ db, T.Keeps clock db q kept) → RankingAgrees T clock q r := by
  intro hclaim
  have hagrees := hclaim _ topRating (ratings topRating.field [some (.text "good"), none]) .newYear
    ratingQuery _ ranksBy_topRating (keeps_ratings _)
  have hnulls := (postgresql_agrees_iff ranksBy_topRating (keeps_ratings _ _)).1
    (hagrees.sorting (.sql .postgresql))
  have hfirst := hnulls 0 (Nat.zero_le _) (by decide) (by decide)
  simp [ratings, orderedValues] at hfirst

end AltrStream.Lowering
