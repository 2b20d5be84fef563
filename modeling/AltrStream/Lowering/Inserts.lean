import AltrStream.Lowering.Alignment
import AltrStream.Lowering.CreateGroups
import AltrStream.Lowering.WhereTree
import Mathlib.Data.List.SplitBy

/-! # One INSERT for every run of records

The records of a CREATE are cut where the columns change. Every run of records
becomes one INSERT, whose tuples are the records of the run, value by value under
the columns that it lists.
-/
namespace AltrStream.Lowering
open Foundations Python QueryEngine Semantics

/-- The groups are the maximal runs of records that fill the same columns. -/
structure Runs (records : List BoundCreateRecord) (groups : List (List BoundCreateRecord)) : Prop where
  ordered : groups.flatten = records
  nonempty : ∀ group ∈ groups, group ≠ []
  uniform : ∀ group ∈ groups, ∀ rec ∈ group, ∀ rec' ∈ group, columnTuple rec = columnTuple rec'
  differ : groups.IsChain fun group group' =>
    ∀ rec ∈ group, ∀ rec' ∈ group', columnTuple rec ≠ columnTuple rec'
  count : groups.length =
    (records.splitBy fun rec rec' => columnTuple rec = columnTuple rec').length

/-- The statement inserts the records of a group, the values of each under its columns; the
parameters are numbered in the order of the text. -/
structure InsertsGroup (src : SqlSource) (q : BoundAltrQueryIR) (group : List BoundCreateRecord)
    (p : PhysicalQuery) (columns : List String) (rows : List (List SqlOperand)) : Prop where
  dialect : p.dialect = src.dialect
  statement : p.statement = .insert (src.lowerer.targetTable q.entity)
    (columns.map src.dialect.quoteIdent) rows
  filled : ∀ rec ∈ group, columnTuple rec = columns
  width : ∀ row ∈ rows, row.length = columns.length
  values : List.Forall₂ (fun rec row => List.Forall₂ (fun a x =>
    (Place.literal a.value).Receives src.lowerer.style p.parameters x) rec.assignments row) group rows
  numbered : indices rows.flatten = List.range' 1 p.parameters.length

/-! ### Runs -/

/-- What the loop over the records keeps. -/
structure Separated (groups : List (List BoundCreateRecord)) : Prop where
  nonempty : ∀ group ∈ groups, group ≠ []
  differ : groups.IsChain fun group group' =>
    group.head?.map columnTuple ≠ group'.head?.map columnTuple

theorem Separated.addToGroups {groups : List (List BoundCreateRecord)} (h : Separated groups)
    (rec : BoundCreateRecord) : Separated (addToGroups groups rec) := by
  unfold Lowering.addToGroups
  cases hlast : groups.getLast? with
  | none => exact ⟨by simp, List.isChain_singleton _⟩
  | some last =>
    obtain ⟨before, rfl⟩ := List.getLast?_eq_some_iff.1 hlast
    obtain ⟨hnonempty, hdiffer⟩ := h
    have hne : last ≠ [] := hnonempty last (by simp)
    dsimp only
    split
    · -- the group that grows keeps its first record
      rw [List.dropLast_concat]
      refine ⟨fun group hgroup => ?_, ?_⟩
      · rcases List.mem_append.1 hgroup with hgroup | hgroup
        · exact hnonempty group (List.mem_append_left _ hgroup)
        · rw [List.mem_singleton.1 hgroup]
          simp
      · rw [List.isChain_append] at hdiffer ⊢
        refine ⟨hdiffer.1, List.isChain_singleton _, fun group hgroup group' hgroup' => ?_⟩
        obtain rfl : last ++ [rec] = group' := by simpa using hgroup'
        rw [List.head?_append_of_ne_nil _ hne]
        exact hdiffer.2.2 group hgroup last rfl
    · rename_i hcolumns
      refine ⟨fun group hgroup => ?_, ?_⟩
      · rcases List.mem_append.1 hgroup with hgroup | hgroup
        · exact hnonempty group hgroup
        · rw [List.mem_singleton.1 hgroup]
          simp
      · rw [List.isChain_append]
        refine ⟨hdiffer, List.isChain_singleton _, fun group hgroup group' hgroup' => ?_⟩
        obtain rfl : last = group := by simpa using hgroup
        obtain rfl : [rec] = group' := by simpa using hgroup'
        exact hcolumns

theorem separated_groupRecords (records : List BoundCreateRecord) :
    Separated (groupRecords records) := by
  have hfold : ∀ groups, Separated groups → Separated (records.foldl addToGroups groups) := by
    induction records with
    | nil => exact fun _ h => h
    | cons rec rest ih => exact fun groups h => ih _ (h.addToGroups rec)
  exact hfold [] ⟨by simp, List.isChain_nil⟩

theorem FillsColumns.eq {group : List BoundCreateRecord} (h : FillsColumns group)
    {rec rec' : BoundCreateRecord} (hrec : rec ∈ group) (hrec' : rec' ∈ group) :
    columnTuple rec = columnTuple rec' :=
  Option.some.inj ((h rec hrec).symm.trans (h rec' hrec'))

theorem differ_groupRecords (records : List BoundCreateRecord) :
    (groupRecords records).IsChain fun group group' =>
      ∀ rec ∈ group, ∀ rec' ∈ group', columnTuple rec ≠ columnTuple rec' := by
  have hfills := fillsColumns_groupRecords records
  refine (separated_groupRecords records).differ.imp_of_mem_imp
    fun group group' hgroup hgroup' hdiffer rec hrec rec' hrec' heq => hdiffer ?_
  rw [hfills group hgroup rec hrec, hfills group' hgroup' rec' hrec', heq]

theorem groupRecords_eq_splitBy (records : List BoundCreateRecord) :
    records.splitBy (fun rec rec' => columnTuple rec = columnTuple rec') = groupRecords records := by
  have hfills := fillsColumns_groupRecords records
  have hseparated := separated_groupRecords records
  rw [List.splitBy_eq_iff]
  refine ⟨(flatten_groupRecords records).symm, fun hnil => hseparated.nonempty [] hnil rfl,
    fun group hgroup => ?_, ?_⟩
  · refine List.Pairwise.isChain (List.pairwise_of_forall_mem_list fun rec hrec rec' hrec' => ?_)
    exact decide_eq_true ((hfills group hgroup).eq hrec hrec')
  · refine (differ_groupRecords records).imp_of_mem_imp fun group group' hgroup hgroup' hdiffer => ?_
    refine ⟨hseparated.nonempty group hgroup, hseparated.nonempty group' hgroup', ?_⟩
    exact decide_eq_false (hdiffer _ (List.getLast_mem _) _ (List.head_mem _))

theorem runs_groupRecords (records : List BoundCreateRecord) : Runs records (groupRecords records) where
  ordered := flatten_groupRecords records
  nonempty := (separated_groupRecords records).nonempty
  uniform := fun group hgroup _ hrec _ hrec' =>
    (fillsColumns_groupRecords records group hgroup).eq hrec hrec'
  differ := differ_groupRecords records
  count := by rw [groupRecords_eq_splitBy]

/-! ### Statements -/

theorem emits_receives (style : ParameterStyle) (l : LiteralValue) :
    Emits (style.lowerLiteral l) fun full x => (Place.literal l).Receives style full x := by
  have hadd : ∀ value : Scalar, Emits (addParam value) fun full x =>
      ∃ i, x = .param i ∧ entryAt full i = some value := fun value =>
    Emits.bind (Emits.emit value) fun i => Emits.pure fun _ hi => ⟨i, rfl, hi⟩
  cases l with
  | null => exact Emits.pure fun _ => rfl
  | temporal t =>
    cases t with
    | keyword k => exact Emits.pure fun _ => rfl
    | value d => exact hadd _
  | _ => exact hadd _

/-- The tuples of a group's INSERT are its records. -/
theorem emits_rows (style : ParameterStyle) (group : List BoundCreateRecord) :
    Emits (group.mapM fun rec => rec.assignments.mapM fun a => style.lowerLiteral a.value)
      fun full rows => List.Forall₂ (fun rec row => List.Forall₂ (fun a x =>
        (Place.literal a.value).Receives style full x) rec.assignments row) group rows :=
  Emits.mapM fun _ _ => Emits.mapM fun a _ => emits_receives style a.value

theorem width_of_values {R : BoundMutationAssignment → SqlOperand → Prop}
    {group : List BoundCreateRecord} {rows : List (List SqlOperand)} {columns : List String}
    (h : List.Forall₂ (fun rec row => List.Forall₂ R rec.assignments row) group rows)
    (hfilled : ∀ rec ∈ group, columnTuple rec = columns) :
    ∀ row ∈ rows, row.length = columns.length := by
  induction h with
  | nil => exact fun _ hrow => nomatch hrow
  | cons hrow _ ih =>
    obtain ⟨hfirst, hrest⟩ := List.forall_mem_cons.1 hfilled
    refine List.forall_mem_cons.2 ⟨?_, ih hrest⟩
    rw [← hrow.length_eq, ← hfirst, columnTuple, List.length_map]

namespace SqlSource
variable {src : SqlSource} {q : BoundAltrQueryIR} {group : List BoundCreateRecord} {p : PhysicalQuery}

theorem insertsGroup (hne : group ≠ []) (hfills : FillsColumns group)
    (h : src.lowerer.physicalQuery q
      (src.lowerer.lowerGroup (src.lowerer.targetTable q.entity) group) = .ok p) :
    ∃ columns rows, InsertsGroup src q group p columns rows := by
  have hwrites := src.writes_lowerGroup (src.lowerer.targetTable q.entity) group
  simp only [SqlLowerer.physicalQuery, bind_eq_ok, pure_eq_ok] at h
  obtain ⟨⟨statement, parameters⟩, hrun, rfl⟩ := h
  have hnumbered := indices_of_run hwrites hrun
  obtain ⟨rows, log, hrows, hstatement⟩ := run_bind_eq_ok.1 hrun
  obtain ⟨rfl, rfl⟩ := run_pure_eq_ok.1 hstatement
  obtain ⟨-, hvalues⟩ := emits_rows src.lowerer.style group [] rows log hrows
  obtain ⟨first, rest, rfl⟩ := List.exists_cons_of_ne_nil hne
  have hvalues := hvalues log List.prefix_rfl
  have hfilled : ∀ rec ∈ first :: rest, columnTuple rec = columnTuple first :=
    fun rec hrec => hfills.eq hrec List.mem_cons_self
  exact ⟨columnTuple first, rows, rfl, rfl, hfilled, width_of_values hvalues hfilled, hvalues,
    hnumbered⟩

/-- Every group of a lowered CREATE has its INSERT. -/
theorem insertsGroups_of_lower (hop : q.operation = .create) {r : PhysicalQueryResult}
    (hr : src.lowerer.lower q = .ok r) : List.Forall₂ (fun group p =>
      ∃ columns rows, InsertsGroup src q group p columns rows)
      (groupRecords (recordsToCreate q)) r.queries := by
  unfold SqlLowerer.lower at hr
  rw [if_pos hop] at hr
  simp only [bind_eq_ok] at hr
  obtain ⟨queries, hqueries, hr⟩ := hr
  have hresult : r.queries = queries := by
    split at hr <;> (rw [← pure_eq_ok.1 hr]; rfl)
  rw [hresult]
  obtain ⟨hlength, hzip⟩ := List.forall₂_iff_zip.1 (mapM_eq_ok.1 hqueries)
  refine List.forall₂_iff_zip.2 ⟨hlength, fun {group p} hmem => ?_⟩
  have hgroup := (List.of_mem_zip hmem).1
  exact insertsGroup ((separated_groupRecords _).nonempty group hgroup)
    (fillsColumns_groupRecords _ group hgroup) (hzip hmem)

/-- The statements of a CREATE are one INSERT for each maximal run of its records. -/
theorem inserts_runs (src : SqlSource) {q : BoundAltrQueryIR} (hop : q.operation = .create) :
    Runs (recordsToCreate q) (groupRecords (recordsToCreate q)) ∧
      ∃ r, src.lowerer.lower q = .ok r ∧ List.Forall₂ (fun group p =>
        ∃ columns rows, InsertsGroup src q group p columns rows)
        (groupRecords (recordsToCreate q)) r.queries := by
  obtain ⟨r, hr⟩ := (lower_succeeds src.leaf_succeeds q).2 (.inl hop)
  exact ⟨runs_groupRecords _, r, hr, insertsGroups_of_lower hop hr⟩

end SqlSource

open TestSchema in
/-- Three records, the last with a column less. -/
def threeUsers : BoundAltrQueryIR :=
  let username := field "username" .string "varchar"
  { operation := .create
    entity := boundEntity users
    records :=
      [⟨[⟨username, .string "ada"⟩, ⟨createdAt, .null⟩]⟩,
       ⟨[⟨username, .string "bob"⟩, ⟨createdAt, .temporal (.keyword .now)⟩]⟩,
       ⟨[⟨username, .string "eve"⟩]⟩]
    sourceId := schema.sourceId
    sourceName := schema.sourceName }

theorem inserts_runs_users : (groupRecords threeUsers.records).length = 2 ∧
    Runs threeUsers.records (groupRecords threeUsers.records) ∧
    ∃ r, SqlSource.mysql.lowerer.lower threeUsers = .ok r ∧
      List.Forall₂ (fun group p => ∃ columns rows, InsertsGroup .mysql threeUsers group p columns rows)
        (groupRecords threeUsers.records) r.queries :=
  ⟨by decide, @SqlSource.inserts_runs .mysql threeUsers rfl⟩

end AltrStream.Lowering
