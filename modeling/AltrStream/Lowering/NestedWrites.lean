import AltrStream.Lowering.Inserts
import AltrStream.Lowering.Selects

/-! # Where nested paths are written

A path into a column is read as an element of the column, in WHERE, in SORT and in
projections. UPDATE and INSERT name the column of the last key instead, and MongoDB
takes the key of a new document for the name of a field.
-/
namespace AltrStream.Lowering
open Foundations Python QueryEngine Semantics

/-- A column of a table or a field of a document, or an element below one. -/
inductive Location where
  | column (name : String)
  | element (root : String) (keys : List String)
  deriving DecidableEq

/-- The text by which SQL refers to a location. -/
def SqlDialect.refer (d : SqlDialect) : Location → String
  | .column name => d.quoteIdent name
  | .element root keys => d.nestedPath (d.quoteIdent root) keys

/-- The location that a dotted name of MongoDB stands for, in filters, sorts, projections and
`$set`. -/
def MongoDB.dotted (name : String) : Location :=
  match name.toList.splitOn '.' with
  | root :: key :: keys => .element (String.ofList root) ((key :: keys).map String.ofList)
  | _ => .column name

/-- Where WHERE, SORT and projections read a path. -/
def Database.reads (db : Database) (path : FieldPath) : Location :=
  match db with
  | .sql _ => if path.isNested then .element path.root path.keys else .column path.root
  | .mongodb => MongoDB.dotted path.fullPath

/-- The references of SQL are those to the locations that are read. -/
theorem lowerFieldPath_eq_refer (src : SqlSource) (field : BoundFieldPath) :
    src.dialect.lowerFieldPath field = src.dialect.refer ((Database.sql src).reads field.path) := by
  obtain ⟨⟨root, keys⟩, _, _, _, _⟩ := field
  cases keys <;> rfl

/-- The assignments of a CREATE or an UPDATE. -/
def writtenAssignments (q : BoundAltrQueryIR) : List BoundMutationAssignment :=
  match q.operation with
  | .create => (recordsToCreate q).flatMap (·.assignments)
  | .update => q.assignments
  | _ => []

/-- Where the value of an assignment comes to stand in a table with these columns. A statement that
names another column is rejected. -/
inductive SqlSource.Puts (src : SqlSource) (columns : List String) (q : BoundAltrQueryIR)
    (a : BoundMutationAssignment) : Location → Prop
  | update {p : PhysicalQuery} {table : String} {items : List (String × SqlOperand)}
      {w : Option Condition} {item : String × SqlOperand} {name : String}
      (hop : q.operation = .update) (hrun : src.lowerer.lower q = .ok (.single p))
      (hstatement : p.statement = .update table items w) (hitem : (a, item) ∈ q.assignments.zip items)
      (htext : item.1 = src.dialect.quoteIdent name) (hname : name ∈ columns) :
      SqlSource.Puts src columns q a (.column name)
  | create {r : PhysicalQueryResult} {group : List BoundCreateRecord} {p : PhysicalQuery}
      {table : String} {texts : List String} {rows : List (List SqlOperand)}
      {rec : BoundCreateRecord} {text name : String}
      (hop : q.operation = .create) (hrun : src.lowerer.lower q = .ok r)
      (hgroup : (group, p) ∈ (groupRecords (recordsToCreate q)).zip r.queries)
      (hstatement : p.statement = .insert table texts rows) (hrec : rec ∈ group)
      (hitem : (a, text) ∈ rec.assignments.zip texts)
      (htext : text = src.dialect.quoteIdent name) (hname : name ∈ columns) :
      SqlSource.Puts src columns q a (.column name)

/-- Where the value of an assignment comes to stand in a document: `$set` takes dotted names, a new
document has its keys as they are. -/
inductive MongoDB.Puts (clock : Clock) (q : BoundAltrQueryIR) (a : BoundMutationAssignment) :
    Location → Prop
  | update {p : MongoDB.PhysicalQuery} {collection : String} {filter : MongoDB.Filter}
      {set : Dict String Scalar} (hrun : MongoDB.lower clock q = .ok p)
      (hcommand : p.command = .updateMany collection filter set)
      (hkey : set.contains a.field.fullPath = true) :
      MongoDB.Puts clock q a (MongoDB.dotted a.field.fullPath)
  | create {p : MongoDB.PhysicalQuery} {collection : String}
      {documents : List (Dict String Scalar)} {document : Dict String Scalar}
      (hrun : MongoDB.lower clock q = .ok p)
      (hcommand : p.command = .insertMany collection documents) (hdocument : document ∈ documents)
      (hkey : document.contains a.field.fullPath = true) :
      MongoDB.Puts clock q a (.column a.field.fullPath)

/-- Where a database puts the value of an assignment. -/
def Database.Puts (db : Database) (clock : Clock) (columns : List String) (q : BoundAltrQueryIR)
    (a : BoundMutationAssignment) (loc : Location) : Prop :=
  match db with
  | .sql src => src.Puts columns q a loc
  | .mongodb => MongoDB.Puts clock q a loc

/-- The value of the assignment is put where its path is read, or nowhere. -/
def WritesWhereRead (db : Database) (clock : Clock) (columns : List String) (q : BoundAltrQueryIR)
    (a : BoundMutationAssignment) : Prop :=
  ∀ loc, db.Puts clock columns q a loc → loc = db.reads a.field.path

/-! ### Columns -/

theorem quoteIdent_injective (src : SqlSource) : Function.Injective src.dialect.quoteIdent := by
  intro name name' h
  have hdoubled : ∀ (c : Char) (s s' : List Char), replaceChar c [c, c] s ++ [c] =
      replaceChar c [c, c] s' ++ [c] → s = s' := by
    intro c s s' heq
    have hs := @readQuoted_doubled c s
    rw [heq, readQuoted_doubled] at hs
    exact (congrArg Prod.fst (Option.some.inj hs)).symm
  refine String.toList_inj.1 ?_
  have htext := congrArg String.toList h
  cases src with
  | postgresql =>
    simpa [SqlSource.dialect, SqlSource.lowerer, PostgreSQL.lowerer, PostgreSQL.dialect,
      PostgreSQL.quoteIdent, toString] using htext
  | mysql =>
    refine hdoubled '\x60' _ _ ?_
    simpa [SqlSource.dialect, SqlSource.lowerer, MySQL.lowerer, MySQL.dialect, MySQL.quoteIdent,
      toString] using htext
  | sqlite =>
    refine hdoubled '"' _ _ ?_
    simpa [SqlSource.dialect, SqlSource.lowerer, SQLite.lowerer, SQLite.dialect, SQLite.quoteIdent,
      toString] using htext

theorem exists_mem_zip {α β : Type} {R : α → β → Prop} {l : List α} {l' : List β}
    (h : List.Forall₂ R l l') {a : α} (ha : a ∈ l) : ∃ b, (a, b) ∈ l.zip l' := by
  induction h with
  | nil => cases ha
  | cons _ _ ih =>
    rcases List.mem_cons.1 ha with rfl | ha
    · exact ⟨_, List.mem_cons_self⟩
    · obtain ⟨b, hb⟩ := ih ha
      exact ⟨b, List.mem_cons_of_mem _ hb⟩

section
variable {src : SqlSource} {q : BoundAltrQueryIR} {a : BoundMutationAssignment} {columns : List String}

/-- UPDATE names the column of the last key of each path. -/
theorem update_of_physicalQuery (hop : q.operation = .update) {p : PhysicalQuery}
    (h : src.lowerer.physicalQuery q (src.lowerer.lowerStatement q) = .ok p) :
    ∃ items w, p.statement = .update (src.lowerer.targetTable q.entity) items w ∧
      List.Forall₂ (fun a (item : String × SqlOperand) =>
        item.1 = src.dialect.quoteIdent a.field.path.leaf) q.assignments items := by
  simp only [SqlLowerer.physicalQuery, bind_eq_ok, pure_eq_ok] at h
  obtain ⟨⟨statement, parameters⟩, hrun, rfl⟩ := h
  have hlower : src.lowerer.lowerStatement q = (do
      let assignments ← q.assignments.mapM src.lowerer.lowerAssignment
      return .update (src.lowerer.targetTable q.entity) assignments
        (← src.lowerer.lowerWhere q.where_)) := by
    simp only [SqlLowerer.lowerStatement, hop]
  rw [hlower] at hrun
  obtain ⟨items, log, hitems, hrun⟩ := run_bind_eq_ok.1 hrun
  obtain ⟨w, log', -, hpure⟩ := run_bind_eq_ok.1 hrun
  obtain ⟨rfl, rfl⟩ := run_pure_eq_ok.1 hpure
  have hnames : Emits (q.assignments.mapM src.lowerer.lowerAssignment) fun _ items =>
      List.Forall₂ (fun a (item : String × SqlOperand) =>
        item.1 = src.dialect.quoteIdent a.field.path.leaf) q.assignments items :=
    Emits.mapM fun a _ => (emits_receives _ a.value).bind fun _ => Emits.pure fun _ _ => rfl
  exact ⟨items, w, rfl, (hnames [] items log hitems).2 log List.prefix_rfl⟩

theorem names_columnTuple (src : SqlSource) (rec : BoundCreateRecord) :
    List.Forall₂ (fun a text => text = src.dialect.quoteIdent a.field.path.leaf) rec.assignments
      ((columnTuple rec).map src.dialect.quoteIdent) := by
  rw [columnTuple, List.map_map, List.forall₂_map_right_iff]
  exact List.forall₂_same.2 fun _ _ => rfl

/-- The value of an assignment is put into the column of the last key, if there is one. -/
theorem SqlSource.puts_iff (ha : a ∈ writtenAssignments q) (loc : Location) :
    src.Puts columns q a loc ↔ (q.operation = .create ∨
        ∀ e ∈ q.where_, ∀ leaf ∈ e.atoms, src.Fits leaf) ∧
      loc = .column a.field.path.leaf ∧ a.field.path.leaf ∈ columns := by
  have hsucceeds := lower_succeeds src.leaf_succeeds q
  rw [← hsucceeds]
  constructor
  · rintro (⟨hop, hrun, hstatement, hitem, htext, hname⟩ |
      ⟨hop, hrun, hgroup, hstatement, hrec, hitem, htext, hname⟩)
    · obtain ⟨p, hp, hphysical⟩ := src.lowerer.single_of_lower (by simp [hop]) hrun
      cases hp
      obtain ⟨items, w, hupdate, hnames⟩ := update_of_physicalQuery hop hphysical
      cases hstatement.symm.trans hupdate
      have hleaf := (List.forall₂_iff_zip.1 hnames).2 hitem
      obtain rfl := quoteIdent_injective src (hleaf.symm.trans htext)
      exact ⟨⟨_, hrun⟩, rfl, hname⟩
    · obtain ⟨columns', rows, hinsert⟩ :=
        (List.forall₂_iff_zip.1 (SqlSource.insertsGroups_of_lower hop hrun)).2 hgroup
      cases hstatement.symm.trans hinsert.statement
      rw [← hinsert.filled _ hrec] at hitem
      have hleaf := (List.forall₂_iff_zip.1 (names_columnTuple src _)).2 hitem
      obtain rfl := quoteIdent_injective src (hleaf.symm.trans htext)
      exact ⟨⟨_, hrun⟩, rfl, hname⟩
  · rintro ⟨⟨r, hrun⟩, rfl, hname⟩
    unfold writtenAssignments at ha
    cases hop : q.operation with
    | create =>
      rw [hop] at ha
      obtain ⟨rec, hrec, ha⟩ := List.mem_flatMap.1 ha
      rw [← flatten_groupRecords (recordsToCreate q)] at hrec
      obtain ⟨group, hgroup, hrec⟩ := List.mem_flatten.1 hrec
      have hinserts := SqlSource.insertsGroups_of_lower hop hrun
      obtain ⟨p, hp⟩ := exists_mem_zip hinserts hgroup
      obtain ⟨columns', rows, hinsert⟩ := (List.forall₂_iff_zip.1 hinserts).2 hp
      have hnames := names_columnTuple src rec
      obtain ⟨text, hitem⟩ := exists_mem_zip hnames ha
      have htext := (List.forall₂_iff_zip.1 hnames).2 hitem
      rw [hinsert.filled rec hrec] at hitem
      exact .create hop hrun hp hinsert.statement hrec hitem htext hname
    | update =>
      rw [hop] at ha
      obtain ⟨p, rfl, hphysical⟩ := src.lowerer.single_of_lower (by simp [hop]) hrun
      obtain ⟨items, w, hupdate, hnames⟩ := update_of_physicalQuery hop hphysical
      obtain ⟨item, hitem⟩ := exists_mem_zip hnames ha
      exact .update hop hrun hupdate hitem ((List.forall₂_iff_zip.1 hnames).2 hitem) hname
    | read | delete =>
      rw [hop] at ha
      cases ha

end

/-! ### Fields -/

/-- The full path of a nested path is not the name of a field. -/
theorem MongoDB.dotted_fullPath_ne {path : FieldPath} (h : path.isNested = true) (name : String) :
    MongoDB.dotted path.fullPath ≠ .column name := by
  obtain ⟨root, keys⟩ := path
  obtain ⟨key, keys, rfl⟩ : ∃ key keys', keys = key :: keys' := by
    cases keys with
    | nil => cases h
    | cons key keys => exact ⟨key, keys, rfl⟩
  have hpath : (FieldPath.fullPath ⟨root, key :: keys⟩).toList =
      root.toList ++ '.' :: (".".intercalate (key :: keys)).toList := by
    simp [FieldPath.fullPath, FieldPath.segments, String.intercalate_cons_cons]
  have hsplit := List.splitOn_append_cons_of_beq root.toList
    (".".intercalate (key :: keys)).toList (show ('.' == '.') = true from rfl)
  obtain ⟨x, xs, hx⟩ := List.exists_cons_of_ne_nil (List.splitOn_ne_nil '.' root.toList)
  obtain ⟨y, ys, hy⟩ := List.exists_cons_of_ne_nil
    (List.splitOn_ne_nil '.' (".".intercalate (key :: keys)).toList)
  obtain ⟨z, zs, hz⟩ : ∃ z zs, xs ++ y :: ys = z :: zs :=
    List.exists_cons_of_ne_nil (by simp)
  rw [hx, hy, List.cons_append, hz] at hsplit
  rw [MongoDB.dotted, hpath, hsplit]
  exact Location.noConfusion

section
variable {clock : Clock} {q : BoundAltrQueryIR} {a : BoundMutationAssignment}

/-- The full path of an assignment is a key of its document. -/
theorem MongoDB.contains_lowerAssignments {assignments : List BoundMutationAssignment}
    (ha : a ∈ assignments) :
    (MongoDB.lowerAssignments clock assignments).contains a.field.fullPath = true :=
  Dict.get?_update_isSome (.inr ⟨_, List.mem_map_of_mem ha⟩)

/-- A CREATE puts the value into a field that is named like the path. -/
theorem MongoDB.puts_create (hop : q.operation = .create) (ha : a ∈ writtenAssignments q) :
    MongoDB.Puts clock q a (.column a.field.fullPath) := by
  rw [writtenAssignments, hop] at ha
  obtain ⟨rec, hrec, ha⟩ := List.mem_flatMap.1 ha
  have hlower : MongoDB.lower clock q = .ok ⟨.insertMany q.entity.name
      ((recordsToCreate q).map fun rec => MongoDB.lowerAssignments clock rec.assignments),
      q.sourceId, q.sourceName⟩ := by
    simp only [MongoDB.lower, MongoDB.lowerCommand, hop]
    rfl
  exact .create hlower rfl (List.mem_map_of_mem hrec) (MongoDB.contains_lowerAssignments ha)

/-- An UPDATE puts the value where the path is read. -/
theorem MongoDB.puts_of_update (hop : q.operation = .update) {loc : Location}
    (h : MongoDB.Puts clock q a loc) : loc = MongoDB.dotted a.field.fullPath := by
  cases h with
  | update => rfl
  | create hrun hcommand =>
    simp only [MongoDB.lower, MongoDB.lowerCommand, hop, bind_eq_ok, pure_eq_ok] at hrun
    obtain ⟨_, ⟨filter, -, rfl⟩, rfl⟩ := hrun
    cases hcommand

end

/-- A nested path is written where it is read exactly if an SQL table has no column of the last key's
name (or the statement cannot be lowered), and in MongoDB if it is updated. -/
theorem writesWhereRead_iff (db : Database) (clock : Clock) (columns : List String)
    {q : BoundAltrQueryIR} {a : BoundMutationAssignment} (ha : a ∈ writtenAssignments q)
    (hnested : a.field.path.isNested = true) :
    WritesWhereRead db clock columns q a ↔
      match db with
      | .sql src => a.field.path.leaf ∉ columns ∨
          q.operation = .update ∧ ∃ e ∈ q.where_, ∃ leaf ∈ e.atoms, ¬ src.Fits leaf
      | .mongodb => q.operation = .update := by
  have hop : q.operation = .create ∨ q.operation = .update := by
    unfold writtenAssignments at ha
    cases hop : q.operation <;> simp [hop] at ha ⊢
  cases db with
  | sql src =>
    have hreads : ∀ name, Location.column name ≠ (Database.sql src).reads a.field.path := by
      intro name
      rw [Database.reads, if_pos hnested]
      exact Location.noConfusion
    have hproperty : WritesWhereRead (.sql src) clock columns q a ↔
        ∀ loc, ¬ src.Puts columns q a loc := by
      refine forall_congr' fun loc => ⟨fun h hputs => ?_, fun h hputs => absurd hputs h⟩
      obtain ⟨-, rfl, -⟩ := (SqlSource.puts_iff ha loc).1 hputs
      exact hreads _ (h hputs)
    rw [hproperty]
    simp only [SqlSource.puts_iff ha]
    rcases hop with hop | hop
    · simp [hop]
    · simp only [hop, reduceCtorEq, false_or, true_and, not_and]
      constructor
      · intro h
        by_cases hcolumn : a.field.path.leaf ∈ columns
        · refine .inr (by_contra fun hfits => h _ (fun e he leaf hleaf => ?_) rfl hcolumn)
          by_contra hleaf'
          exact hfits ⟨e, he, leaf, hleaf, hleaf'⟩
        · exact .inl hcolumn
      · rintro (hcolumn | ⟨e, he, leaf, hleaf, hraises⟩) loc hfits -
        · exact hcolumn
        · exact absurd (hfits e he leaf hleaf) hraises
  | mongodb =>
    rcases hop with hop | hop
    · simp only [hop, reduceCtorEq, iff_false]
      intro h
      exact MongoDB.dotted_fullPath_ne hnested _ (h _ (MongoDB.puts_create hop ha)).symm
    · simp only [hop, iff_true]
      exact fun loc hputs => MongoDB.puts_of_update hop hputs

open TestSchema

/-- `metadata.age: NULL` -/
def clearedAge : BoundMutationAssignment :=
  ⟨{ path := ⟨"metadata", ["age"]⟩, dataType := .json, nativeType := "jsonb" }, .null⟩

/-- `UPDATE users (metadata.age: NULL) WHERE { age = 18 };` -/
def clearAge : BoundAltrQueryIR :=
  { query .update (.atom ⟨age, .comparison .eq, .literal (.integer 18)⟩) with
    assignments := [clearedAge] }

/-- `CREATE users (metadata.age: NULL);` -/
def createCleared : BoundAltrQueryIR :=
  { clearAge with
    operation := .create
    where_ := none
    assignments := []
    records := [⟨[clearedAge]⟩] }

theorem writesWhereRead_clearAge : WritesWhereRead .mongodb .newYear [] clearAge clearedAge :=
  (writesWhereRead_iff .mongodb .newYear [] (List.mem_singleton_self _) rfl).2 rfl

/-- The update of a key sets the column of that name in SQL, and a document that is created in MongoDB
gets a field with a dot in its name. -/
theorem not_writesWhereRead_age :
    (AcceptedFrom .ascii "UPDATE users (metadata.age: NULL) WHERE { age = 18 };" schema clearAge ∧
      ∀ src, ¬ WritesWhereRead (.sql src) .newYear (users.fields.map (·.name)) clearAge clearedAge) ∧
    (AcceptedFrom .ascii "CREATE users (metadata.age: NULL);" schema createCleared ∧
      ¬ WritesWhereRead .mongodb .newYear [] createCleared clearedAge) := by
  refine ⟨⟨acceptedFrom_of_run (by decide +kernel), fun src h => ?_⟩,
    acceptedFrom_of_run (by decide +kernel), fun h => ?_⟩
  · have hfits : ∀ e ∈ clearAge.where_, ∀ leaf ∈ e.atoms, src.Fits leaf := by
      intro e he leaf hleaf
      cases he
      cases List.mem_singleton.1 hleaf
      cases src <;> simp [SqlSource.Fits, LeafFits, PostgreSQL.Fits, MySQL.Fits, SQLite.Fits,
        Positional.Fits, DayFits]
    have hputs : src.Puts (users.fields.map (·.name)) clearAge clearedAge (.column "age") :=
      (SqlSource.puts_iff (List.mem_singleton_self _) _).2 ⟨.inr hfits, rfl, by decide⟩
    cases h _ hputs
  · have hnested : clearedAge.field.path.isNested = true := rfl
    exact MongoDB.dotted_fullPath_ne hnested _
      (h _ (MongoDB.puts_create rfl (List.mem_singleton_self _))).symm

end AltrStream.Lowering
