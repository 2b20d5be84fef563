import AltrStream.Lowering.Positional
import AltrStream.Lowering.Postgres

/-! # When the SQL lowerers raise

Every raise of a SQL lowerer comes from one of two places: the day of
9999-12-31 has no end, and SQLite's branch for a compound constraint in an `=`
set has no `elem`. Everything else always returns.
-/
namespace AltrStream.Lowering
open Foundations Python QueryEngine Semantics

/-- Equating the column with the literal asks for a day that has an end. -/
def DayFits (col : BoundFieldPath) (l : LiteralValue) : Prop :=
  ¬ (col.isTimestampField = true ∧ l = .temporal (.value Date.last))

instance (col : BoundFieldPath) (l : LiteralValue) : Decidable (DayFits col l) :=
  inferInstanceAs (Decidable (¬ _))

/-- The day that a bare constraint asks for has an end. -/
def constraintFits (col : BoundFieldPath) (c : ComparisonConstraint) : Prop :=
  c.operator = .eq → DayFits col c.value

section
variable (style : ParameterStyle) (col : BoundFieldPath)

theorem addParam_total (s : Scalar) : SucceedsIff (addParam s) True :=
  SucceedsIff.total_bind (SucceedsIff.emit s) fun _ => SucceedsIff.pure _

theorem lowerLiteral_total (l : LiteralValue) : SucceedsIff (style.lowerLiteral l) True := by
  cases l with
  | temporal t => cases t <;> first | exact SucceedsIff.pure _ | exact addParam_total _
  | null => exact SucceedsIff.pure _
  | _ => exact addParam_total _

theorem lowerOperand_total (o : Operand) : SucceedsIff (style.lowerOperand o) True := by
  cases o <;> first | exact lowerLiteral_total _ _ | exact addParam_total _

theorem lowerElement_total (e : ValueSetElement) : SucceedsIff (style.lowerElement e) True := by
  cases e <;> first | exact lowerLiteral_total _ _ | exact addParam_total _

theorem lowerCompare_total (op : ComparisonOperator) (l : LiteralValue) :
    SucceedsIff (style.lowerCompare col op l) True :=
  SucceedsIff.total_bind (lowerLiteral_total style l) fun _ => SucceedsIff.pure _

theorem lowerBetween_total (r : Range) : SucceedsIff (style.lowerBetween col r) True :=
  SucceedsIff.total_bind (lowerLiteral_total style _) fun _ =>
    SucceedsIff.total_bind (lowerLiteral_total style _) fun _ => SucceedsIff.pure _

theorem lowerCompound_total (cs : List ComparisonConstraint) :
    SucceedsIff (style.lowerCompound col cs) True :=
  SucceedsIff.total_bind (SucceedsIff.total_mapM fun _ _ => lowerCompare_total style col _ _)
    fun _ => SucceedsIff.pure _

/-- Only the last date of the calendar has no end. -/
theorem lowerDayBounds_succeeds (d : Date) :
    SucceedsIff (style.lowerDayBounds d) (d ≠ Date.last) := by
  have hrange : SucceedsIff (parseDateOnlyRange d) (d ≠ Date.last) := by
    unfold parseDateOnlyRange
    cases hnext : (DateTime.ofDate d).addDay? with
    | none =>
      have hlast := (DateTime.addDay?_eq_none d).mp hnext
      exact (SucceedsIff.throw _).congr (by simp [hlast])
    | some t =>
      have hlast := mt (DateTime.addDay?_eq_none d).mpr (by simp [hnext])
      exact (SucceedsIff.pure _).congr (by simp [hlast])
  exact hrange.bind_total fun _ => SucceedsIff.total_bind (addParam_total _) fun _ =>
    SucceedsIff.total_bind (addParam_total _) fun _ => SucceedsIff.pure _

theorem lowerDay_succeeds (d : Date) : SucceedsIff (style.lowerDay col d) (d ≠ Date.last) :=
  (lowerDayBounds_succeeds style d).bind_total fun _ => SucceedsIff.pure _

theorem lowerEquals_succeeds (l : LiteralValue) :
    SucceedsIff (style.lowerEquals col l) (DayFits col l) := by
  unfold ParameterStyle.lowerEquals DayFits
  have hcompare := lowerCompare_total style col .eq l
  cases l with
  | temporal t =>
    cases t with
    | keyword k => exact hcompare.congr (by simp)
    | value d =>
      simp only [dateOnly?]
      split_ifs with hts
      · exact (lowerDay_succeeds style col d).congr (by simp [hts])
      · exact hcompare.congr (by simp [hts])
  | _ => exact hcompare.congr (by simp)

theorem lowerConstraint_succeeds (c : ComparisonConstraint) :
    SucceedsIff (style.lowerConstraint col c) (constraintFits col c) := by
  obtain ⟨op, l⟩ := c
  have hequals := lowerEquals_succeeds style col l
  have hcompare := fun op => lowerCompare_total style col op l
  unfold constraintFits
  cases l with
  | null => exact (SucceedsIff.pure _).congr (by simp [DayFits])
  | _ =>
    cases op with
    | eq => exact hequals.congr (by simp)
    | neq => exact ((hcompare .neq).bind_total fun _ => SucceedsIff.pure _).congr (by simp)
    | _ => exact (hcompare _).congr (by simp)

theorem addPattern_total (p : List Char) : SucceedsIff (ParameterStyle.addPattern p) True :=
  addParam_total _

theorem lowerStringOperator_total (op : StringOperator) (operand : Operand) :
    SucceedsIff (style.lowerStringOperator col op operand) True := by
  have hlike : ∀ (p : List Char) (make : SqlOperand → Condition),
      SucceedsIff (do let x ← ParameterStyle.addPattern p; return make x) True := fun p make =>
    SucceedsIff.total_bind (addPattern_total p) fun _ => SucceedsIff.pure _
  have hhas : ∀ e, SucceedsIff (style.lowerHasElement col e) True := by
    intro e
    cases e <;> first | exact lowerBetween_total style col _ | exact hlike _ _
  have hnotHas : ∀ e, SucceedsIff (style.lowerNotHasElement col e) True := by
    intro e
    cases e with
    | range r => exact SucceedsIff.total_bind (lowerLiteral_total style _) fun _ =>
        SucceedsIff.total_bind (lowerLiteral_total style _) fun _ => SucceedsIff.pure _
    | _ => exact hlike _ _
  have hnotHasSet : ∀ elements, SucceedsIff (style.lowerNotHasSet col elements) True := by
    intro elements
    unfold ParameterStyle.lowerNotHasSet
    refine SucceedsIff.total_bind (SucceedsIff.total_mapM fun e _ => hnotHas e) fun _ => ?_
    split_ifs <;> exact SucceedsIff.pure _
  cases op with
  | starts => exact hlike _ _
  | ends => exact hlike _ _
  | has =>
    cases operand with
    | valueSet elements =>
      exact SucceedsIff.total_bind (SucceedsIff.total_mapM fun e _ => hhas e) fun _ =>
        SucceedsIff.pure _
    | _ => exact hlike _ _
  | notHas =>
    cases operand with
    | valueSet elements => exact hnotHasSet elements
    | _ => exact hlike _ _

end

/-! ### PostgreSQL -/

namespace PostgreSQL

variable (col : BoundFieldPath)

/-- An element of an `=` set is lowered without raising. -/
def ElementFits : ValueSetElement → Prop
  | .literal l => DayFits col l
  | .constraint c => constraintFits col c
  | _ => True

def Fits : ComparisonOperator → Operand → Prop
  | .eq, .literal l => DayFits col l
  | _, .constraint c => constraintFits col c
  | .eq, .valueSet elements => ∀ e ∈ elements, ElementFits col e
  | _, _ => True

private theorem lowerEqualityElement_succeeds (e : ValueSetElement) :
    SucceedsIff (lowerEqualityElement col e) (ElementFits col e) := by
  cases e with
  | literal l =>
    have hequals := lowerEquals_succeeds style col l
    cases l with
    | null => exact (SucceedsIff.pure _).congr (by simp [ElementFits, DayFits])
    | _ => exact hequals
  | range r => exact lowerBetween_total style col r
  | compound cs => exact lowerCompound_total style col cs
  | constraint c =>
    obtain ⟨op, l⟩ := c
    have hequals := lowerEquals_succeeds style col l
    have hcompare := fun op => lowerCompare_total style col op l
    cases l with
    | null => exact (SucceedsIff.pure _).congr (by simp [ElementFits, constraintFits, DayFits])
    | _ =>
      cases op with
      | eq => exact hequals.congr (by simp [ElementFits, constraintFits])
      | _ => exact (hcompare _).congr (by simp [ElementFits, constraintFits])

private theorem lowerInequalityElement_total (e : ValueSetElement) :
    SucceedsIff (lowerInequalityElement col e) True := by
  have horNull : ∀ op l, SucceedsIff (do
      let pred ← style.lowerCompare col op l
      return some (Condition.group (.or pred (.isNull col)))) True := fun op l =>
    SucceedsIff.total_bind (lowerCompare_total style col op l) fun _ => SucceedsIff.pure _
  cases e with
  | literal l => cases l <;> first | exact SucceedsIff.pure _ | exact horNull _ _
  | range r => exact SucceedsIff.total_bind (lowerLiteral_total style _) fun _ =>
      SucceedsIff.total_bind (lowerLiteral_total style _) fun _ => SucceedsIff.pure _
  | compound cs => exact SucceedsIff.pure _
  | constraint c =>
    obtain ⟨op, l⟩ := c
    cases l with
    | null => cases op <;> exact SucceedsIff.pure _
    | _ => exact horNull _ _

private theorem elementFits_of_isNull {e : ValueSetElement} (h : e.isNull = true) :
    ElementFits col e := by
  cases e with
  | literal l => cases l <;> simp_all [ValueSetElement.isNull, LiteralValue.isNull, ElementFits, DayFits]
  | _ => cases h

/-- The short forms need no day. -/
private theorem elementFits_of_allSimple {elements : List ValueSetElement}
    (h : allSimple col (elements.filter (!·.isNull)) = true) {e : ValueSetElement}
    (he : e ∈ elements) : ElementFits col e := by
  by_cases hnull : e.isNull = true
  · exact elementFits_of_isNull col hnull
  · simp only [allSimple, Bool.and_eq_true, List.all_eq_true, Bool.not_eq_true',
      Bool.and_eq_false_iff, List.any_eq_false] at h
    have hmem : e ∈ elements.filter (!·.isNull) := List.mem_filter.mpr ⟨he, by simpa using hnull⟩
    have hsimple := h.1 e hmem
    cases e with
    | literal l =>
      rintro ⟨hts, rfl⟩
      rcases h.2 with hts' | hdate
      · simp [hts] at hts'
      · exact hdate _ hmem rfl
    | _ => cases hsimple

private theorem lowerEqualitySet_succeeds (elements : List ValueSetElement) :
    SucceedsIff (lowerEqualitySet col elements) (∀ e ∈ elements, ElementFits col e) := by
  unfold lowerEqualitySet
  simp only []
  have hall := fun h => iff_true_intro
    (fun (e : ValueSetElement) (he : e ∈ elements) => elementFits_of_allSimple col h he)
  have hscalars : ∀ es : List ValueSetElement, SucceedsIff (es.mapM style.lowerElement) True :=
    fun es => SucceedsIff.total_mapM fun e _ => lowerElement_total style e
  split
  · rename_i hsimple _ _
    exact (SucceedsIff.pure _).congr (hall hsimple).symm
  · rename_i hsimple _ hone
    exact ((lowerElement_total style _).bind_total fun _ => SucceedsIff.pure _).congr
      (hall hsimple).symm
  · rename_i hsimple _ _ _
    exact ((hscalars _).bind_total fun _ => SucceedsIff.pure _).congr (hall hsimple).symm
  · rename_i hsimple _ _
    exact ((hscalars _).bind_total fun _ => SucceedsIff.pure _).congr (hall hsimple).symm
  · exact (SucceedsIff.mapM fun e _ => lowerEqualityElement_succeeds col e).bind_total fun _ =>
      SucceedsIff.pure _

private theorem lowerInequalitySet_total (elements : List ValueSetElement) :
    SucceedsIff (lowerInequalitySet col elements) True := by
  unfold lowerInequalitySet
  simp only []
  have hscalars : ∀ es : List ValueSetElement, SucceedsIff (es.mapM style.lowerElement) True :=
    fun es => SucceedsIff.total_mapM fun e _ => lowerElement_total style e
  split
  · exact SucceedsIff.pure _
  · exact (lowerElement_total style _).bind_total fun _ => SucceedsIff.pure _
  · exact (hscalars _).bind_total fun _ => SucceedsIff.pure _
  · exact (hscalars _).bind_total fun _ => SucceedsIff.pure _
  · exact (SucceedsIff.total_mapM fun e _ => lowerInequalityElement_total col e).bind_total
      fun _ => SucceedsIff.pure _

theorem lowerComparison_succeeds (op : ComparisonOperator) (operand : Operand) :
    SucceedsIff (lowerComparison col op operand) (Fits col op operand) := by
  cases operand with
  | literal l =>
    have hequals := lowerEquals_succeeds style col l
    have hcompare := fun op => lowerCompare_total style col op l
    cases l with
    | null => exact (SucceedsIff.pure _).congr (by cases op <;> simp [Fits, DayFits])
    | temporal t =>
      cases op with
      | eq => exact hequals
      | _ => exact hcompare _
    | _ =>
      cases op with
      | eq => exact hequals
      | neq => exact (hcompare .neq).bind_total fun _ => SucceedsIff.pure _
      | _ => exact hcompare _
  | range r => exact (lowerBetween_total style col r).congr (by cases op <;> simp [Fits])
  | compound cs => exact (lowerCompound_total style col cs).congr (by cases op <;> simp [Fits])
  | constraint c =>
    exact (lowerConstraint_succeeds style col c).congr (by cases op <;> simp [Fits])
  | valueSet elements =>
    cases op with
    | eq => exact lowerEqualitySet_succeeds col elements
    | neq => exact lowerInequalitySet_total col elements
    | _ => exact (lowerOperand_total style _).bind_total fun _ => SucceedsIff.pure _

end PostgreSQL

/-! ### MySQL and SQLite -/

namespace Positional

variable (style : ParameterStyle) (col : BoundFieldPath)
  (compound : BoundFieldPath → List ComparisonConstraint → LowerM Condition) (compoundFits : Prop)
  (hcompound : ∀ cs, SucceedsIff (compound col cs) compoundFits)

/-- An element of an `=` set is lowered without raising. -/
def ElementFits : ValueSetElement → Prop
  | .literal l => DayFits col l
  | .compound _ => compoundFits
  | _ => True

/-- An element of a `!=` set is lowered without raising. -/
def ExcludedFits : ValueSetElement → Prop
  | .literal l => DayFits col l
  | _ => True

def Fits : ComparisonOperator → Operand → Prop
  | .eq, .literal l => DayFits col l
  | _, .constraint c => constraintFits col c
  | .eq, .valueSet elements => ∀ e ∈ elements, ElementFits col compoundFits e
  | .neq, .valueSet elements => ∀ e ∈ elements, ExcludedFits col e
  | _, _ => True

private theorem lowerScalars_total (make : List SqlOperand → Condition)
    (nonNull : List ValueSetElement) : SucceedsIff (lowerScalars style col make nonNull) True := by
  unfold lowerScalars
  split
  · exact SucceedsIff.pure _
  · refine SucceedsIff.total_bind (SucceedsIff.total_mapM fun e _ => ?_) fun _ => SucceedsIff.pure _
    cases e <;> exact addParam_total _

include hcompound in
private theorem lowerEqualityElement_succeeds (e : ValueSetElement) :
    SucceedsIff (lowerEqualityElement style compound col e) (ElementFits col compoundFits e) := by
  cases e with
  | range r => exact (lowerBetween_total style col r).bind_total fun _ => SucceedsIff.pure _
  | constraint c => exact (lowerCompare_total style col _ _).bind_total fun _ => SucceedsIff.pure _
  | compound cs => exact (hcompound cs).bind_total fun _ => SucceedsIff.pure _
  | literal l =>
    have hother : dateOnly? l = none → SucceedsIff (lowerEqualityElement style compound col
        (.literal l)) (ElementFits col compoundFits (.literal l)) := by
      intro hd
      simp only [lowerEqualityElement, hd]
      refine (SucceedsIff.pure _).congr (iff_of_true trivial ?_)
      rintro ⟨-, rfl⟩
      cases hd
    cases l with
    | temporal t =>
      cases t with
      | keyword k => exact hother rfl
      | value d =>
        simp only [lowerEqualityElement, dateOnly?, ElementFits, DayFits]
        split_ifs with hts
        · exact ((lowerDay_succeeds style col d).bind_total fun _ => SucceedsIff.pure _).congr
            (by simp [hts])
        · exact (SucceedsIff.pure _).congr (by simp [hts])
    | _ => exact hother rfl

private theorem lowerInequalityElement_succeeds (e : ValueSetElement) :
    SucceedsIff (lowerInequalityElement style col e) (ExcludedFits col e) := by
  cases e with
  | range r => exact SucceedsIff.total_bind (lowerLiteral_total style _) fun _ =>
      SucceedsIff.total_bind (lowerLiteral_total style _) fun _ => SucceedsIff.pure _
  | constraint c => exact (lowerCompare_total style col _ _).bind_total fun _ => SucceedsIff.pure _
  | compound cs =>
    exact (SucceedsIff.total_mapM fun _ _ => lowerCompare_total style col _ _).bind_total fun _ =>
      SucceedsIff.pure _
  | literal l =>
    have hother : dateOnly? l = none → SucceedsIff (lowerInequalityElement style col
        (.literal l)) (ExcludedFits col (.literal l)) := by
      intro hd
      simp only [lowerInequalityElement, hd]
      refine (SucceedsIff.pure _).congr (iff_of_true trivial ?_)
      rintro ⟨-, rfl⟩
      cases hd
    cases l with
    | temporal t =>
      cases t with
      | keyword k => exact hother rfl
      | value d =>
        simp only [lowerInequalityElement, dateOnly?, ExcludedFits, DayFits]
        split_ifs with hts
        · exact ((lowerDayBounds_succeeds style d).bind_total fun _ => SucceedsIff.pure _).congr
            (by simp [hts])
        · exact (SucceedsIff.pure _).congr (by simp [hts])
    | _ => exact hother rfl

/-- Lowering the elements outside the `IN` list raises exactly when lowering some element does. -/
private theorem others_succeed {f : ValueSetElement → LowerM (Option Condition)}
    {p : ValueSetElement → Prop} (h : ∀ e, SucceedsIff (f e) (p e))
    (hsimple : ∀ e, e.isNull = true ∨ isSimpleScalar col e = true → p e)
    (elements : List ValueSetElement) :
    SucceedsIff (((elements.filter (!·.isNull)).filter (!isSimpleScalar col ·)).mapM f)
      (∀ e ∈ elements, p e) := by
  refine (SucceedsIff.mapM fun e _ => h e).congr ⟨fun hall e he => ?_, fun hall e he => ?_⟩
  · by_cases hnull : e.isNull = true ∨ isSimpleScalar col e = true
    · exact hsimple e hnull
    · push Not at hnull
      exact hall e (by simp_all)
  · exact hall e (List.mem_filter.mp (List.mem_filter.mp he).1).1

private theorem dayFits_of_simple {e : ValueSetElement}
    (h : e.isNull = true ∨ isSimpleScalar col e = true) : ∃ l, e = .literal l ∧ DayFits col l := by
  cases e with
  | literal l =>
    refine ⟨l, rfl, ?_⟩
    rintro ⟨hts, rfl⟩
    rcases h with h | h
    · cases h
    · simp [isSimpleScalar, isDateOnlyLiteral, dateOnly?, hts] at h
  | _ => rcases h with h | h <;> cases h

include hcompound in
theorem lowerComparison_succeeds (op : ComparisonOperator) (operand : Operand) :
    SucceedsIff (lowerComparison style compound col op operand)
      (Fits col compoundFits op operand) := by
  have hdirect : ∀ op o, SucceedsIff (lowerDirect style col op o) True := by
    intro op o
    unfold lowerDirect
    refine SucceedsIff.total_bind (lowerOperand_total style o) fun _ => ?_
    split_ifs <;> exact SucceedsIff.pure _
  cases operand with
  | literal l =>
    have hequals := lowerEquals_succeeds style col l
    cases l with
    | null => exact (SucceedsIff.pure _).congr (by cases op <;> simp [Fits, DayFits])
    | _ =>
      cases op with
      | eq => exact hequals
      | _ => exact hdirect _ _
  | range r => exact (lowerBetween_total style col r).congr (by cases op <;> simp [Fits])
  | compound cs => exact (lowerCompound_total style col cs).congr (by cases op <;> simp [Fits])
  | constraint c =>
    exact (lowerConstraint_succeeds style col c).congr (by cases op <;> simp [Fits])
  | valueSet elements =>
    cases op with
    | eq =>
      refine SucceedsIff.total_then (lowerScalars_total style col _ _) fun _ => ?_
      refine SucceedsIff.bind_total ?_ fun _ => SucceedsIff.pure _
      exact others_succeed col (lowerEqualityElement_succeeds style col compound compoundFits
        hcompound) (fun e he => by obtain ⟨l, rfl, hl⟩ := dayFits_of_simple col he; exact hl) elements
    | neq =>
      refine SucceedsIff.total_then (lowerScalars_total style col _ _) fun _ => ?_
      refine SucceedsIff.bind_total ?_ fun _ => ?_
      · exact others_succeed col (lowerInequalityElement_succeeds style col)
          (fun e he => by obtain ⟨l, rfl, hl⟩ := dayFits_of_simple col he; exact hl) elements
      · simp only []
        split_ifs <;> exact SucceedsIff.pure _
    | _ => exact hdirect _ _

end Positional

/-! ### Field expressions -/

/-- `fits` of a comparison; string operators always fit. -/
def LeafFits (fits : BoundFieldPath → ComparisonOperator → Operand → Prop)
    (expr : BoundFieldExpression) : Prop :=
  match expr.operator with
  | .comparison op => fits expr.field op expr.operand
  | .string _ => True

def MySQL.Fits (col : BoundFieldPath) : ComparisonOperator → Operand → Prop :=
  Positional.Fits col True

/-- No branch for a compound constraint in an `=` set. -/
def SQLite.Fits (col : BoundFieldPath) : ComparisonOperator → Operand → Prop :=
  Positional.Fits col False

theorem PostgreSQL.lowerFieldExpression_succeeds (expr : BoundFieldExpression) :
    SucceedsIff (PostgreSQL.lowerFieldExpression expr) (LeafFits PostgreSQL.Fits expr) := by
  obtain ⟨field, operator, operand⟩ := expr
  cases operator with
  | comparison op => exact PostgreSQL.lowerComparison_succeeds field op operand
  | string op => exact lowerStringOperator_total PostgreSQL.style field op operand

theorem MySQL.lowerFieldExpression_succeeds (expr : BoundFieldExpression) :
    SucceedsIff (MySQL.lowerFieldExpression expr) (LeafFits MySQL.Fits expr) := by
  obtain ⟨field, operator, operand⟩ := expr
  cases operator with
  | comparison op =>
    exact Positional.lowerComparison_succeeds MySQL.style field _ True
      (fun cs => lowerCompound_total MySQL.style field cs) op operand
  | string op => exact lowerStringOperator_total MySQL.style field op operand

theorem SQLite.lowerFieldExpression_succeeds (expr : BoundFieldExpression) :
    SucceedsIff (SQLite.lowerFieldExpression expr) (LeafFits SQLite.Fits expr) := by
  obtain ⟨field, operator, operand⟩ := expr
  cases operator with
  | comparison op =>
    exact Positional.lowerComparison_succeeds SQLite.style field _ False
      (fun _ => SucceedsIff.throw _) op operand
  | string op => exact lowerStringOperator_total SQLite.style field op operand

end AltrStream.Lowering
