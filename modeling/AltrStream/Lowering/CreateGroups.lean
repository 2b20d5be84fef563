import AltrStream.Lowering.SqlLowerer

/-! # The statements of a CREATE

The groups of a CREATE are its records in order, cut into stretches that fill the
same columns. The rows that a group's INSERT spells are the assignments of its
records, so the statements together insert every record once.
-/
namespace AltrStream.Lowering
open Foundations Python QueryEngine Semantics

/-! ### Grouping -/

theorem flatten_addToGroups (groups : List (List BoundCreateRecord)) (rec : BoundCreateRecord) :
    (addToGroups groups rec).flatten = groups.flatten ++ [rec] := by
  unfold addToGroups
  cases hlast : groups.getLast? with
  | none => simp [List.getLast?_eq_none_iff.1 hlast]
  | some group =>
    obtain ⟨before, rfl⟩ := List.getLast?_eq_some_iff.1 hlast
    dsimp only
    split <;> simp

/-- The groups hold all records in their order. -/
theorem flatten_groupRecords (records : List BoundCreateRecord) :
    (groupRecords records).flatten = records := by
  have hfold : ∀ groups : List (List BoundCreateRecord),
      (records.foldl addToGroups groups).flatten = groups.flatten ++ records := by
    induction records with
    | nil => simp
    | cons rec rest ih =>
      intro groups
      rw [List.foldl_cons, ih, flatten_addToGroups, List.append_assoc, List.singleton_append]
  exact hfold []

/-- Every record of a group fills the columns of the first. -/
def FillsColumns (group : List BoundCreateRecord) : Prop :=
  ∀ rec ∈ group, group.head?.map columnTuple = some (columnTuple rec)

theorem fillsColumns_addToGroups {groups : List (List BoundCreateRecord)}
    (h : ∀ group ∈ groups, FillsColumns group) (rec : BoundCreateRecord) :
    ∀ group ∈ addToGroups groups rec, FillsColumns group := by
  have hsingle : FillsColumns [rec] := fun r hr => by rw [List.mem_singleton.1 hr]; rfl
  unfold addToGroups
  cases hlast : groups.getLast? with
  | none => exact fun group hgroup => List.mem_singleton.1 hgroup ▸ hsingle
  | some last =>
    obtain ⟨before, rfl⟩ := List.getLast?_eq_some_iff.1 hlast
    dsimp only
    split
    · rename_i hcolumns
      rw [List.dropLast_concat]
      refine List.forall_mem_append.2 ⟨fun group hgroup => h group (by simp [hgroup]), ?_⟩
      rintro group hgroup r hr
      rw [List.mem_singleton.1 hgroup] at hr ⊢
      obtain ⟨first, rest, rfl⟩ : ∃ first rest, last = first :: rest := by
        cases last with
        | nil => cases hcolumns
        | cons first rest => exact ⟨first, rest, rfl⟩
      rcases List.mem_append.1 hr with hr | hr
      · exact h (first :: rest) (by simp) r hr
      · rw [List.mem_singleton.1 hr]
        exact hcolumns
    · exact List.forall_mem_append.2 ⟨h, fun group hgroup => List.mem_singleton.1 hgroup ▸ hsingle⟩

theorem fillsColumns_groupRecords (records : List BoundCreateRecord) :
    ∀ group ∈ groupRecords records, FillsColumns group := by
  have hfold : ∀ groups : List (List BoundCreateRecord), (∀ group ∈ groups, FillsColumns group) →
      ∀ group ∈ records.foldl addToGroups groups, FillsColumns group := by
    induction records with
    | nil => exact fun _ h => h
    | cons rec rest ih => exact fun groups h => ih _ (fillsColumns_addToGroups h rec)
  exact hfold [] (by simp)

/-! ### Rows -/

/-- The value that a literal stands for in a row. -/
def ParameterStyle.storedValue (style : ParameterStyle) (clock : Clock) : LiteralValue → Scalar
  | .temporal (.keyword k) => clock.read k
  | .null => .none
  | l => style.convertLiteralToParameter l

theorem emits_storedValue (style : ParameterStyle) (clock : Clock) (row : FieldPath → Option Value)
    (l : LiteralValue) :
    Emits (style.lowerLiteral l) fun full x =>
      Env.scalar ⟨clock, full, row⟩ x = style.storedValue clock l := by
  have hadd : ∀ value : Scalar, Emits (addParam value) fun full x =>
      Env.scalar ⟨clock, full, row⟩ x = value := fun value =>
    Emits.bind (Emits.emit value) fun i => Emits.pure fun full hi => by
      rw [Env.scalar, hi, Option.getD_some]
  cases l with
  | null => exact Emits.pure fun _ => rfl
  | temporal t =>
    cases t with
    | keyword k => exact Emits.pure fun _ => rfl
    | value d => exact hadd _
  | _ => exact hadd _

namespace SqlLowerer

variable (L : SqlLowerer)

/-- The columns that a record fills, with their values. -/
def recordRow (clock : Clock) (rec : BoundCreateRecord) : List (String × Scalar) :=
  rec.assignments.map fun a =>
    (L.dialect.quoteIdent a.field.path.leaf, L.style.storedValue clock a.value)

/-- The row that the operands of an INSERT spell in its columns. -/
def spelledRow (clock : Clock) (parameters : List Scalar) (columns : List String)
    (row : List SqlOperand) : List (String × Scalar) :=
  columns.zip (row.map (Env.scalar ⟨clock, parameters, fun _ => none⟩))

theorem emits_row (clock : Clock) (rec : BoundCreateRecord) :
    Emits (rec.assignments.mapM fun a => L.style.lowerLiteral a.value) fun full row =>
      spelledRow clock full ((columnTuple rec).map L.dialect.quoteIdent) row =
        L.recordRow clock rec := by
  obtain ⟨assignments⟩ := rec
  refine (Emits.mapM fun a _ => emits_storedValue L.style clock (fun _ => none) a.value).mono
    fun full row hrow => ?_
  dsimp only [spelledRow, recordRow, columnTuple] at hrow ⊢
  induction hrow with
  | nil => rfl
  | cons hx _ ih =>
    simp only [List.map_cons, List.zip_cons_cons]
    rw [hx, ih]

/-- The INSERT of a group spells the rows of its records. -/
theorem emits_lowerGroup (clock : Clock) (table : String) {group : List BoundCreateRecord}
    (hfills : FillsColumns group) :
    Emits (L.lowerGroup table group) fun full statement => ∃ columns rows,
      statement = .insert table columns rows ∧
        rows.map (spelledRow clock full columns) = group.map (L.recordRow clock) := by
  refine Emits.bind (Emits.mapM fun rec _ => emits_row L clock rec) fun rows =>
    Emits.pure fun full hrows => ⟨_, rows, rfl, ?_⟩
  have hcolumns : ∀ rec ∈ group,
      (group.head?.elim [] columnTuple).map L.dialect.quoteIdent =
        (columnTuple rec).map L.dialect.quoteIdent := by
    intro rec hrec
    have hhead := hfills rec hrec
    cases hfirst : group.head? with
    | none => rw [hfirst] at hhead; cases hhead
    | some first =>
      rw [hfirst, Option.map_some, Option.some.injEq] at hhead
      rw [Option.elim_some, hhead]
  generalize (group.head?.elim [] columnTuple).map L.dialect.quoteIdent = columns at hcolumns ⊢
  clear hfills
  induction hrows with
  | nil => rfl
  | cons hrow _ ih =>
    obtain ⟨hfirst, hrest⟩ := List.forall_mem_cons.1 hcolumns
    rw [List.map_cons, List.map_cons, ih hrest, hfirst, hrow]

end SqlLowerer

end AltrStream.Lowering
