import AltrStream.Lowering.PostgresTruth
import AltrStream.Lowering.SqlMeaning
import AltrStream.Lowering.SqlTotality
import AltrStream.QueryEngine.Binder

/-! # Which PostgreSQL predicates mean what AltrQL says

`=` with a literal, a range or a set of them, and the orderings, always come
out as meant. A `!=` with a range, a temporal literal or a compound constraint
does not, and neither do inequalities and NULL tests inside a set.
-/
namespace AltrStream.Lowering.PostgreSQL
open Foundations Python QueryEngine Semantics

section
variable (ρ : Reading) (v : Option Value)

/-- The elements of an `=` set that are decided otherwise than meant. -/
def misreadEquality : ValueSetElement → Prop
  | .constraint c => c.operator = .neq ∧ c.value ≠ .null ∧ (v = none ∨ InsideDay ρ v c.value)
  | .compound cs => ¬ CompoundSettled ρ v cs
  | _ => False

/-- The elements of a `!=` set that are decided otherwise than meant. A compound constraint
excludes nothing. -/
def misreadInequality : ValueSetElement → Prop
  | .literal l => InsideDay ρ v l
  | .constraint c =>
    match c.operator with
    | .eq => InsideDay ρ v c.value
    | .neq => c.value ≠ .null ∧ (v = none ∨ InsideDay ρ v c.value)
    | _ => False
  | .compound cs => ρ.memberOf v (.compound cs) = true
  | .range _ => False

/-- The comparison of the column's value with the operand comes out as meant. -/
def ReadsRight : ComparisonOperator → Operand → Prop
  | .eq, .valueSet elements =>
    AnySettled elements (fun e => ρ.memberOf v e = true) (misreadEquality ρ v)
  | .eq, .constraint c => ¬ misreadBareConstraint ρ v c
  | .eq, .compound cs => CompoundSettled ρ v cs
  | .neq, .literal (.temporal t) => ¬ (v = none ∨ InsideDay ρ v (.temporal t))
  | .neq, .range _ => False
  | .neq, .valueSet elements =>
    AllSettled elements (fun e => ¬ ρ.memberOf v e = true) (misreadInequality ρ v)
  | .neq, .constraint c => misreadBareConstraint ρ v c
  | .neq, .compound cs => ¬ CompoundSettled ρ v cs
  | _, _ => True

end

section
variable {ρ : Reading} {v : Option Value} (hρ : ProperReading ρ)
include hρ

theorem equalityTruth_agrees {e : ValueSetElement} :
    misreadEquality ρ v e ↔ ¬ (equalityTruth ρ v e = .yes ↔ ρ.memberOf v e = true) := by
  cases e with
  | literal l =>
    have htruth : equalityTruth ρ v (.literal l) = .yes ↔ ρ.equals v l = true := by
      by_cases hl : l = .null
      · subst hl
        exact isNullTruth_eq_yes.trans (equals_null hρ).symm
      · rw [← equalsTruth_eq_yes hρ hl]
        cases l <;> first | rfl | exact absurd rfl hl
    simp [misreadEquality, htruth, Reading.memberOf]
  | range r => simp [misreadEquality, equalityTruth, betweenTruth_eq_yes, Reading.memberOf]
  | compound cs =>
    simp only [misreadEquality, equalityTruth, Reading.memberOf, ← compoundTruth_agrees hρ]
  | constraint c =>
    obtain ⟨op, l⟩ := c
    by_cases hl : l = .null
    · subst hl
      have htruth : equalityTruth ρ v (.constraint ⟨op, .null⟩) = nullTestTruth v op := by
        cases op <;> rfl
      simp [misreadEquality, htruth, Reading.memberOf, nullTestTruth_eq_yes hρ]
    · by_cases hop : op = .neq
      · subst hop
        have htruth : equalityTruth ρ v (.constraint ⟨.neq, l⟩) = plainTruth ρ v .neq l := by
          cases l <;> first | rfl | exact absurd rfl hl
        have hcompare := constraintTruth_agrees (v := v) hρ ⟨.neq, l⟩
        have hmisread : misreadConstraint ρ v ⟨.neq, l⟩ ↔ v = none ∨ InsideDay ρ v l := by
          cases l <;> first | rfl | exact absurd rfl hl
        rw [hmisread] at hcompare
        simpa [misreadEquality, htruth, Reading.memberOf, hl, constraintTruth] using hcompare
      · have htruth : equalityTruth ρ v (.constraint ⟨op, l⟩) = bareConstraintTruth ρ v ⟨op, l⟩ := by
          cases l <;> cases op <;> first | rfl | exact absurd rfl hop
        simp [misreadEquality, htruth, Reading.memberOf, bareConstraintTruth_eq_yes hρ,
          misreadBareConstraint, hop]

private theorem neqOrNull_agrees {l : LiteralValue} (hl : l ≠ .null) :
    InsideDay ρ v l ↔
      ¬ ((plainTruth ρ v .neq l).or (isNullTruth v) = .yes ↔ ¬ ρ.equals v l = true) := by
  have hnone : InsideDay ρ v l → v ≠ none := InsideDay.ne_none
  have hinside : InsideDay ρ v l → plainTruth ρ v .eq l ≠ .yes := fun h => h.not_plain hρ
  have hsome : plainTruth ρ v .eq l = .yes → v ≠ none := ne_none_of_plain
  simp only [Truth.or_eq_yes, isNullTruth_eq_yes, plain_neq hρ hl, equals_eq_true hρ hl]
  grind

private theorem eqOrNull_agrees {l : LiteralValue} (hl : l ≠ .null) :
    (v = none ∨ InsideDay ρ v l) ↔
      ¬ ((plainTruth ρ v .eq l).or (isNullTruth v) = .yes ↔ ¬ ρ.compare v .neq l = true) := by
  have hnone : InsideDay ρ v l → v ≠ none := InsideDay.ne_none
  have hinside : InsideDay ρ v l → plainTruth ρ v .eq l ≠ .yes := fun h => h.not_plain hρ
  have hsome : plainTruth ρ v .eq l = .yes → v ≠ none := ne_none_of_plain
  simp only [Truth.or_eq_yes, isNullTruth_eq_yes, Reading.compare, Bool.not_eq_true',
    ← Bool.not_eq_true, equals_eq_true hρ hl]
  grind

theorem inequalityTruth_agrees {e : ValueSetElement} (he : e.WellFormed) :
    misreadInequality ρ v e ↔ ¬ (inequalityTruth ρ v e = .yes ↔ ¬ ρ.memberOf v e = true) := by
  cases e with
  | literal l =>
    by_cases hl : l = .null
    · subst hl
      have hfalse : ¬ InsideDay ρ v .null := fun h => h.ne_null rfl
      simp [misreadInequality, inequalityTruth, Reading.memberOf, isNotNullTruth_eq_yes, hfalse,
        equals_null hρ]
    · have htruth : inequalityTruth ρ v (.literal l) = (plainTruth ρ v .neq l).or (isNullTruth v) := by
        cases l <;> first | rfl | exact absurd rfl hl
      rw [htruth]
      exact neqOrNull_agrees hρ hl
  | range r =>
    have houtside := outsideTruth_or_null (v := v) hρ he
    simp only [misreadInequality, inequalityTruth, Reading.memberOf, houtside, not_true_eq_false]
  | compound cs => simp [misreadInequality, inequalityTruth]
  | constraint c =>
    obtain ⟨op, l⟩ := c
    by_cases hl : l = .null
    · subst hl
      have hfalse : ¬ InsideDay ρ v .null := fun h => h.ne_null rfl
      have hlit := (hρ.literal .null).2 rfl
      have hnull := equals_null (v := v) hρ
      cases op with
      | eq =>
        simp [misreadInequality, inequalityTruth, Reading.memberOf, Reading.compare, hfalse,
          isNotNullTruth_eq_yes, hnull]
      | neq =>
        simp [misreadInequality, inequalityTruth, Reading.memberOf, Reading.compare,
          isNullTruth_eq_yes, hnull]
      | _ =>
        cases v <;> simp [misreadInequality, inequalityTruth, Reading.memberOf, Reading.compare,
          Reading.order, hlit]
    · have htruth : inequalityTruth ρ v (.constraint ⟨op, l⟩) =
          (plainTruth ρ v (invertOperator op) l).or (isNullTruth v) := by
        cases l <;> cases op <;> first | rfl | exact absurd rfl hl
      rw [htruth]
      by_cases hord : op.isOrdering = true
      · have hfalse : ¬ misreadInequality ρ v (.constraint ⟨op, l⟩) := by
          cases op with
          | eq => cases hord
          | neq => cases hord
          | _ => exact id
        have hinvert := plain_invert (v := v) hρ hord hl
        rw [Truth.or_eq_yes, isNullTruth_eq_yes, hinvert]
        simp [hfalse, Reading.memberOf, compare_ordering hord]
      · cases op with
        | eq => exact neqOrNull_agrees hρ hl
        | neq => exact (and_iff_right hl).trans (eqOrNull_agrees hρ hl)
        | _ => exact absurd rfl hord

private theorem directTruth_agrees (op : ComparisonOperator) (l : LiteralValue) :
    (∀ m, ρ.comparison v op (.literal l) = some m → (directTruth ρ v op l = .yes ↔ m = true)) ↔
      ReadsRight ρ v op (.literal l) := by
  by_cases hl : l = .null
  · subst hl
    have htruth : directTruth ρ v op .null = nullTestTruth v op := by cases op <;> rfl
    have hmeans : ρ.comparison v op (.literal .null) = some (ρ.compare v op .null) := by
      cases op <;> rfl
    have hright : ReadsRight ρ v op (.literal .null) := by cases op <;> exact trivial
    simp [htruth, hmeans, hright, nullTestTruth_eq_yes hρ]
  · have hmeans : ρ.comparison v op (.literal l) = some (ρ.compare v op l) := by
      cases op <;> rfl
    simp only [hmeans, Option.some.injEq, forall_eq']
    cases op with
    | eq =>
      have htruth : directTruth ρ v .eq l = equalsTruth ρ v l := by
        cases l <;> first | rfl | exact absurd rfl hl
      have hright : ReadsRight ρ v .eq (.literal l) := trivial
      simp [htruth, equalsTruth_eq_yes hρ hl, Reading.compare, hright]
    | neq =>
      by_cases ht : ∃ t, l = .temporal t
      · obtain ⟨t, rfl⟩ := ht
        exact not_iff_not.1 ((not_not.trans (constraintTruth_agrees hρ ⟨.neq, .temporal t⟩)).symm)
      · have htruth : directTruth ρ v .neq l = (plainTruth ρ v .neq l).or (isNullTruth v) := by
          cases l <;> first | rfl | exact absurd rfl hl | exact absurd ⟨_, rfl⟩ ht
        have hright : ReadsRight ρ v .neq (.literal l) := by
          cases l <;> first | trivial | exact absurd ⟨_, rfl⟩ ht
        have hinside : ¬ InsideDay ρ v l := by
          rintro ⟨start, stop, _, hday, -⟩
          cases l <;> first | exact ht ⟨_, rfl⟩ | cases hday
        have hagrees := not_not.1 ((neqOrNull_agrees hρ hl).not.1 hinside)
        rw [htruth, hagrees]
        simp [Reading.compare, hright]
    | _ =>
      have htruth : ∀ op, op.isOrdering = true → directTruth ρ v op l = plainTruth ρ v op l := by
        intro op hop
        cases op with
        | eq => cases hop
        | neq => cases hop
        | _ => cases l <;> first | rfl | exact absurd rfl hl
      rw [htruth _ rfl, plainTruth_eq_yes]
      simp [Reading.compare, ReadsRight]

/-- The truth of the predicate is the meaning exactly where `ReadsRight` says so. -/
theorem comparisonTruth_agrees (op : ComparisonOperator) {operand : Operand}
    (h : operand.WellFormed) :
    (∀ m, ρ.comparison v op operand = some m →
      (comparisonTruth ρ v op operand = .yes ↔ m = true)) ↔ ReadsRight ρ v op operand := by
  cases operand with
  | literal l => exact directTruth_agrees hρ op l
  | range r =>
    have hbetween := betweenTruth_eq_yes (ρ := ρ) (v := v) (r := r)
    cases op with
    | eq => simp [Reading.comparison, Reading.member, comparisonTruth, hbetween, ReadsRight]
    | neq =>
      cases hb : ρ.between v r <;>
        simp [Reading.comparison, Reading.member, comparisonTruth, hbetween, ReadsRight, hb]
    | _ =>
      cases v <;> simp [Reading.comparison, comparisonTruth, hbetween, ReadsRight, Reading.between,
        Reading.order]
  | constraint c =>
    have hbare := bareConstraintTruth_eq_yes (v := v) hρ c
    have hexcl : misreadBareConstraint ρ v c → ¬ ρ.compare v c.operator c.value = true := by
      rintro ⟨hop, hinside⟩
      rw [hop, Reading.compare, (equals_eq_true hρ hinside.ne_null).2 (.inr hinside)]
      exact Bool.false_ne_true
    cases op with
    | eq =>
      simp only [Reading.comparison, Reading.member, comparisonTruth, hbare, ReadsRight,
        Option.some.injEq, forall_eq']
      grind
    | neq =>
      simp only [Reading.comparison, Reading.member, comparisonTruth, hbare, ReadsRight,
        Option.some.injEq, forall_eq', Bool.not_eq_true', ← Bool.not_eq_true]
      grind
    | _ => simp [Reading.comparison, ReadsRight]
  | compound cs =>
    have hagrees := compoundTruth_agrees (v := v) hρ cs
    cases op with
    | eq =>
      simpa only [Reading.comparison, Reading.member, comparisonTruth, ReadsRight,
        Option.some.injEq, forall_eq'] using hagrees
    | neq =>
      simp only [Reading.comparison, Reading.member, comparisonTruth, ReadsRight,
        Option.some.injEq, forall_eq', Bool.not_eq_true', ← Bool.not_eq_true, ← hagrees]
      grind
    | _ => simp [Reading.comparison, ReadsRight]
  | valueSet elements =>
    cases op with
    | eq =>
      have hany := any_agrees_iff (l := elements) (t := fun e => equalityTruth ρ v e = .yes)
        fun e _ => equalityTruth_agrees hρ
      simpa [Reading.comparison, Reading.member, comparisonTruth, ReadsRight, Truth.disj_eq_yes]
        using hany
    | neq =>
      have hall := all_agrees_iff (l := elements) (t := fun e => inequalityTruth ρ v e = .yes)
        fun e he => inequalityTruth_agrees hρ (h.2 e he)
      simpa only [Reading.comparison, Reading.member, comparisonTruth, ReadsRight,
        Option.some.injEq, forall_eq', Truth.conj_eq_yes, List.forall_mem_map, Bool.not_eq_true',
        List.any_eq_false] using hall
    | _ => cases v <;> simp [Reading.comparison, comparisonTruth, ReadsRight]

end

/-- A predicate means what its expression says exactly where the day of every equated
date has an end and `ReadsRight` holds of the row's value. -/
theorem meansOn_lowerFieldExpression_iff (clock : Clock) (row : FieldPath → Option Value)
    (field : BoundFieldPath) (op : ComparisonOperator) (operand : Operand)
    (h : operand.WellFormed) :
    MeansOn lowerFieldExpression clock row ⟨field, .comparison op, operand⟩ ↔
      Fits field op operand ∧
        ReadsRight (sqlReading clock field) (row field.path) op operand := by
  rw [meansOn_iff (emits_lowerFieldExpression ⟨field, .comparison op, operand⟩ clock row h)
    (lowerComparison_succeeds field op operand)]
  exact and_congr_right fun _ =>
    comparisonTruth_agrees (sqlReading_proper clock field) op h

open TestSchema in
/-- An accepted range means what it says. -/
theorem meansOn_range : MeansOn lowerFieldExpression .newYear (fun _ => none)
    ⟨age, .comparison .eq, .range ⟨.integer 18, .integer 30⟩⟩ :=
  (meansOn_lowerFieldExpression_iff .newYear _ _ _ _ (by decide)).2 ⟨trivial, trivial⟩

open TestSchema in
/-- `age != { >=18 & <=30 }` is accepted, becomes `1=1` and keeps a row of age 20. -/
theorem neq_compound_not_meant :
    let leaf : BoundFieldExpression :=
      ⟨age, .comparison .neq, .valueSet [.compound [⟨.gte, .integer 18⟩, ⟨.lte, .integer 30⟩]]⟩
    AcceptedFrom .ascii "GET users WHERE { age != { >=18 & <=30 } };" schema
        (query .read (.atom leaf)) ∧
      ¬ MeansOn lowerFieldExpression .newYear (fun _ => some (.number (20 : ℚ))) leaf := by
  refine ⟨acceptedFrom_of_run (by decide +kernel), fun hmeans => ?_⟩
  obtain ⟨c, log, hrun, htruth⟩ := hmeans []
  cases hrun
  have hmember : (sqlReading .newYear age).meaning (some (.number (20 : ℚ))) (.comparison .neq)
      (.valueSet [.compound [⟨.gte, .integer 18⟩, ⟨.lte, .integer 30⟩]]) = some false := by
    decide +kernel
  exact Bool.false_ne_true ((htruth [] List.prefix_rfl false hmember).1 rfl)

end AltrStream.Lowering.PostgreSQL
