import AltrStream.Lowering.PositionalTruth
import AltrStream.Lowering.PostgresTruth
import AltrStream.Lowering.SqlMeaning
import AltrStream.Lowering.SqlTotality
import AltrStream.QueryEngine.Binder

/-! # Where the three SQL lowerers select the same rows

PostgreSQL tests a set element by element, MySQL and SQLite collect plain
literals in an `IN` list and negate the other elements. The two families part on
keywords, on constraints that compare with NULL, on dates and on compounds.
-/
namespace AltrStream.Lowering
open Foundations Python QueryEngine Semantics

/-- The lowerer returns a predicate that is TRUE on the row exactly if `p`. -/
def Decides (lower : BoundFieldExpression → LowerM Condition) (clock : Clock)
    (row : FieldPath → Option Value) (expr : BoundFieldExpression) (p : Prop) : Prop :=
  ∀ log, ∃ c log', lower expr log = .ok (c, log') ∧
    ∀ full, log' <+: full → (c.eval ⟨clock, full, row⟩ = .yes ↔ p)

/-- The three predicates of an expression are returned, and agree on the row. -/
def SelectAlike (clock : Clock) (row : FieldPath → Option Value) (expr : BoundFieldExpression) :
    Prop :=
  ∃ p : Prop, Decides PostgreSQL.lowerFieldExpression clock row expr p ∧
    Decides MySQL.lowerFieldExpression clock row expr p ∧
    Decides SQLite.lowerFieldExpression clock row expr p

theorem decides_iff {lower : BoundFieldExpression → LowerM Condition} {clock : Clock}
    {row : FieldPath → Option Value} {expr : BoundFieldExpression} {t : Truth} {fits p : Prop}
    (hemits : Emits (lower expr) fun full c => c.eval ⟨clock, full, row⟩ = t)
    (hsucceeds : SucceedsIff (lower expr) fits) :
    Decides lower clock row expr p ↔ fits ∧ (t = .yes ↔ p) := by
  constructor
  · intro h
    obtain ⟨c, log', hrun, htruth⟩ := h []
    refine ⟨(hsucceeds []).1 ⟨_, hrun⟩, ?_⟩
    rw [← (hemits [] c log' hrun).2 log' List.prefix_rfl]
    exact htruth log' List.prefix_rfl
  · rintro ⟨hfits, hp⟩ log
    obtain ⟨⟨c, log'⟩, hrun⟩ := (hsucceeds log).2 hfits
    refine ⟨c, log', hrun, fun full hfull => ?_⟩
    rw [(hemits log c log' hrun).2 full hfull]
    exact hp

section
variable (ρ : Reading) (v : Option Value)

/-- Every lowerer's test of an `=` element, by comparisons of values only. -/
def SelectsPlainly : ValueSetElement → Prop
  | .literal (.temporal (.keyword _)) => False
  | .literal l => ρ.equals v l = true
  | .range r => ρ.between v r = true
  | .constraint c => Reading.order c.operator v (ρ.literal c.value) = true
  | .compound cs => ∀ c ∈ cs, Reading.order c.operator v (ρ.literal c.value) = true

/-- What only PostgreSQL selects: a keyword's value, a NULL test, the rest of a day. -/
def SelectsInPostgres : ValueSetElement → Prop
  | .literal (.temporal (.keyword k)) =>
    Reading.order .eq v (ρ.literal (.temporal (.keyword k))) = true
  | .constraint ⟨.eq, .null⟩ => v = none
  | .constraint ⟨.neq, .null⟩ => v ≠ none
  | .constraint ⟨.eq, l⟩ => InsideDay ρ v l
  | _ => False

/-- Every lowerer's exclusion of a value by an element of a `!=` set. -/
def ExcludesPlainly : ValueSetElement → Prop
  | .literal .null => False
  | .literal l => Reading.order .eq v (ρ.literal l) = true
  | .range r => ρ.between v r = true
  | .constraint ⟨.neq, .null⟩ => True
  | .constraint c => Reading.order c.operator v (ρ.literal c.value) = true
  | .compound _ => False

/-- What only MySQL and SQLite exclude: everything by a keyword or a comparison with NULL,
the rest of a day, and a compound none of whose members is known to fail. -/
def ExcludesInPositional : ValueSetElement → Prop
  | .literal (.temporal (.keyword _)) => True
  | .literal l => InsideDay ρ v l
  | .constraint c => c.value = .null ∧ c.operator ≠ .neq
  | .compound cs => ∀ c ∈ cs, c.value = .null ∨ Reading.order c.operator v (ρ.literal c.value) = true
  | .range _ => False

/-- The lowerers agree on the value. -/
def Agree : ComparisonOperator → Operand → Prop
  | .eq, .valueSet elements =>
    (∃ e ∈ elements, SelectsInPostgres ρ v e) → ∃ e ∈ elements, SelectsPlainly ρ v e
  | .neq, .literal (.temporal _) => v ≠ none
  | .neq, .valueSet elements =>
    if v = none then
      elements.any (·.isNull) = true ∨ .constraint ⟨.eq, .null⟩ ∉ elements
    else (∃ e ∈ elements, ExcludesInPositional ρ v e) → ∃ e ∈ elements, ExcludesPlainly ρ v e
  | _, _ => True

end

section
variable {ρ : Reading} {v : Option Value} (hρ : ProperReading ρ)
include hρ

omit hρ in
theorem compoundTruth_eq_yes {cs : List ComparisonConstraint} :
    compoundTruth ρ v cs = .yes ↔
      ∀ c ∈ cs, Reading.order c.operator v (ρ.literal c.value) = true := by
  simp [compoundTruth, Truth.conj_eq_yes, constraintTruth, plainTruth_eq_yes]

theorem positional_equalityTruth_eq_yes {e : ValueSetElement} :
    Positional.equalityTruth ρ v e = .yes ↔ SelectsPlainly ρ v e := by
  cases e with
  | literal l =>
    cases l with
    | null => exact isNullTruth_eq_yes.trans (equals_null hρ).symm
    | temporal t =>
      cases t with
      | keyword k => simp [Positional.equalityTruth, SelectsPlainly]
      | value d => exact equalsTruth_eq_yes hρ (by simp)
    | _ => exact equalsTruth_eq_yes hρ (by simp)
  | range r => exact betweenTruth_eq_yes
  | constraint c => exact plainTruth_eq_yes
  | compound cs => exact compoundTruth_eq_yes

theorem postgres_equalityTruth_eq_yes {e : ValueSetElement} :
    PostgreSQL.equalityTruth ρ v e = .yes ↔ SelectsPlainly ρ v e ∨ SelectsInPostgres ρ v e := by
  have hlit := (hρ.literal .null).2 rfl
  cases e with
  | literal l =>
    cases l with
    | null => exact (isNullTruth_eq_yes.trans (equals_null hρ).symm).trans (or_iff_left id).symm
    | temporal t =>
      cases t with
      | keyword k =>
        have hplain : PostgreSQL.equalityTruth ρ v (.literal (.temporal (.keyword k))) =
            plainTruth ρ v .eq (.temporal (.keyword k)) := rfl
        simp [hplain, plainTruth_eq_yes, SelectsPlainly, SelectsInPostgres]
      | value d => exact (equalsTruth_eq_yes hρ (by simp)).trans (or_iff_left id).symm
    | _ => exact (equalsTruth_eq_yes hρ (by simp)).trans (or_iff_left id).symm
  | range r => exact betweenTruth_eq_yes.trans (or_iff_left id).symm
  | compound cs => exact compoundTruth_eq_yes.trans (or_iff_left id).symm
  | constraint c =>
    obtain ⟨op, l⟩ := c
    by_cases hl : l = .null
    · subst hl
      have hplainly : ¬ SelectsPlainly ρ v (.constraint ⟨op, .null⟩) := by
        simp only [SelectsPlainly, hlit]
        cases v <;> simp [Reading.order]
      rw [or_iff_right hplainly]
      cases op with
      | eq => exact isNullTruth_eq_yes
      | neq => exact isNotNullTruth_eq_yes
      | _ => simp [SelectsInPostgres, PostgreSQL.equalityTruth, nullTestTruth]
    · by_cases hop : op = .eq
      · subst hop
        have htruth : PostgreSQL.equalityTruth ρ v (.constraint ⟨.eq, l⟩) = equalsTruth ρ v l := by
          cases l <;> first | rfl | exact absurd rfl hl
        have hpostgres : SelectsInPostgres ρ v (.constraint ⟨.eq, l⟩) ↔ InsideDay ρ v l := by
          cases l <;> first | rfl | exact absurd rfl hl
        rw [htruth, equalsTruth_eq_yes hρ hl, equals_eq_true hρ hl, hpostgres, plainTruth_eq_yes]
        rfl
      · have htruth : PostgreSQL.equalityTruth ρ v (.constraint ⟨op, l⟩) = plainTruth ρ v op l := by
          cases l <;> cases op <;> first | rfl | exact absurd rfl hop | exact absurd rfl hl
        have hpostgres : ¬ SelectsInPostgres ρ v (.constraint ⟨op, l⟩) := by
          cases l <;> cases op <;> first | exact id | exact absurd rfl hop | exact absurd rfl hl
        rw [htruth, plainTruth_eq_yes, or_iff_left hpostgres]
        rfl

/-! ### `!=` sets -/

omit hρ in
/-- On NULL, PostgreSQL's predicate only fails for NULL itself. -/
theorem postgres_inequalityTruth_none (e : ValueSetElement) :
    PostgreSQL.inequalityTruth ρ none e = .yes ↔
      ¬ (e.isNull = true ∨ e = .constraint ⟨.eq, .null⟩) := by
  have hnull : isNullTruth none = .yes := rfl
  have hnotNull : isNotNullTruth none ≠ .yes := by decide
  cases e with
  | literal l =>
    cases l <;> simp [PostgreSQL.inequalityTruth, hnull, hnotNull, ValueSetElement.isNull,
      LiteralValue.isNull]
  | constraint c =>
    obtain ⟨op, l⟩ := c
    cases l <;> cases op <;>
      simp [PostgreSQL.inequalityTruth, hnull, hnotNull, ValueSetElement.isNull]
  | _ => simp [PostgreSQL.inequalityTruth, hnull, ValueSetElement.isNull]

omit hρ in
/-- On NULL, the other predicate only fails if NULL is an element. -/
theorem positional_inequalitySetTruth_none (elements : List ValueSetElement) :
    Positional.inequalitySetTruth ρ none elements = .yes ↔ ¬ elements.any (·.isNull) = true := by
  unfold Positional.inequalitySetTruth
  split_ifs with hnull
  · refine iff_of_false ?_ (not_not.2 hnull)
    obtain ⟨e, he, hnull⟩ := List.any_eq_true.1 hnull
    rw [Truth.neg_eq_yes, Truth.disj_eq_no]
    intro hall
    have hno := hall _ (List.mem_map_of_mem he)
    cases e with
    | literal l => cases l <;> first | cases hno | cases hnull
    | _ => cases hnull
  · exact iff_of_true (Truth.or_yes _) hnull

variable {x : Value}

theorem plainTruth_eq_no {op : ComparisonOperator} {l : LiteralValue} :
    plainTruth ρ (some x) op l = .no ↔
      l ≠ .null ∧ ¬ Reading.order op (some x) (ρ.literal l) = true := by
  by_cases hl : l = .null
  · subst hl
    simp [plainTruth, (hρ.literal .null).2 rfl, sqlCompare]
  · obtain ⟨y, hy⟩ := Option.ne_none_iff_exists'.1 (mt (hρ.literal l).1 hl)
    simp [plainTruth, hy, sqlCompare, Reading.order, hl]

theorem equalsTruth_eq_no {l : LiteralValue} (hl : l ≠ .null) :
    equalsTruth ρ (some x) l = .no ↔ ¬ ρ.equals (some x) l = true := by
  rw [← equalsTruth_eq_yes hρ hl]
  have hknown : equalsTruth ρ (some x) l ≠ .unknown := by
    obtain ⟨y, hy⟩ := Option.ne_none_iff_exists'.1 (mt (hρ.literal l).1 hl)
    unfold equalsTruth
    cases hday : ρ.day? l with
    | none => simp [plainTruth, hy, sqlCompare]
    | some day =>
      simp only [Option.elim_some, dayTruth, sqlCompare]
      cases ComparisonOperator.gte.holds x day.1 <;> cases ComparisonOperator.lt.holds x day.2 <;>
        decide
  cases ht : equalsTruth ρ (some x) l <;> simp_all

theorem postgres_inequalityTruth_some {e : ValueSetElement} (he : e.WellFormed) :
    PostgreSQL.inequalityTruth ρ (some x) e = .yes ↔ ¬ ExcludesPlainly ρ (some x) e := by
  have hnull : isNullTruth (some x) = .no := rfl
  have hneq : ∀ l : LiteralValue, l ≠ .null → ((plainTruth ρ (some x) .neq l).or
      (isNullTruth (some x)) = .yes ↔ ¬ Reading.order .eq (some x) (ρ.literal l) = true) := by
    intro l hl
    rw [hnull, Truth.or_no, plain_neq hρ hl, Ne, Ne, plainTruth_eq_yes]
    exact and_iff_right (Option.some_ne_none x)
  cases e with
  | literal l =>
    cases l with
    | null => exact iff_of_true rfl id
    | _ => exact hneq _ (by simp)
  | range r => exact outsideTruth_or_null hρ he
  | compound cs => exact iff_of_true rfl id
  | constraint c =>
    obtain ⟨op, l⟩ := c
    by_cases hl : l = .null
    · subst hl
      have horder : ∀ op, ¬ Reading.order op (some x) (ρ.literal .null) = true := by
        simp [Reading.order, (hρ.literal .null).2 rfl]
      cases op with
      | neq =>
        refine iff_of_false (fun h => ?_) (not_not.2 trivial)
        cases hnull.symm.trans h
      | _ => exact iff_of_true rfl (horder _)
    · have htruth : PostgreSQL.inequalityTruth ρ (some x) (.constraint ⟨op, l⟩) =
          (plainTruth ρ (some x) (invertOperator op) l).or (isNullTruth (some x)) := by
        cases l <;> cases op <;> first | rfl | exact absurd rfl hl
      have hexcludes : ExcludesPlainly ρ (some x) (.constraint ⟨op, l⟩) ↔
          Reading.order op (some x) (ρ.literal l) = true := by
        cases l <;> cases op <;> first | rfl | exact absurd rfl hl
      rw [htruth, hexcludes, hnull, Truth.or_no, plainTruth, Positional.sqlCompare_invert,
        Truth.neg_eq_yes]
      exact (plainTruth_eq_no hρ).trans (and_iff_right hl)

theorem positional_equalityTruth_eq_no {e : ValueSetElement} (he : e.WellFormed) :
    Positional.equalityTruth ρ (some x) e = .no ↔
      ¬ (ExcludesPlainly ρ (some x) e ∨ ExcludesInPositional ρ (some x) e) := by
  have hequals : ∀ l : LiteralValue, l ≠ .null → (equalsTruth ρ (some x) l = .no ↔
      ¬ (Reading.order .eq (some x) (ρ.literal l) = true ∨ InsideDay ρ (some x) l)) := by
    intro l hl
    rw [equalsTruth_eq_no hρ hl, equals_eq_true hρ hl, plainTruth_eq_yes]
  cases e with
  | literal l =>
    cases l with
    | null =>
      refine iff_of_true rfl ?_
      rintro (h | h)
      · exact h
      · exact InsideDay.ne_null h rfl
    | temporal t =>
      cases t with
      | keyword k => exact iff_of_false (by simp [Positional.equalityTruth]) (not_not.2 (.inr trivial))
      | value d => exact hequals _ (by simp)
    | _ => exact hequals _ (by simp)
  | range r =>
    have hout := outsideTruth_or_null (v := some x) hρ he
    have hlt : plainTruth ρ (some x) .gte r.start = .no ↔ r.start ≠ .null ∧
        ¬ Reading.order .gte (some x) (ρ.literal r.start) = true := plainTruth_eq_no hρ
    have hgt : plainTruth ρ (some x) .lte r.stop = .no ↔ r.stop ≠ .null ∧
        ¬ Reading.order .lte (some x) (ρ.literal r.stop) = true := plainTruth_eq_no hρ
    simp only [Positional.equalityTruth, betweenTruth, Truth.and_eq_no, hlt, hgt, ExcludesPlainly,
      ExcludesInPositional, or_false, Reading.between, Bool.and_eq_true, not_and_or]
    simp [he.1, he.2]
  | constraint c =>
    obtain ⟨op, l⟩ := c
    rw [Positional.equalityTruth, constraintTruth, plainTruth_eq_no hρ]
    by_cases hl : l = .null
    · subst hl
      refine iff_of_false (by simp) (not_not.2 ?_)
      by_cases hop : op = .neq
      · subst hop
        exact .inl trivial
      · exact .inr ⟨rfl, hop⟩
    · have hexcludes : ExcludesPlainly ρ (some x) (.constraint ⟨op, l⟩) ↔
          Reading.order op (some x) (ρ.literal l) = true := by
        cases l <;> cases op <;> first | rfl | exact absurd rfl hl
      simp [hexcludes, ExcludesInPositional, hl]
  | compound cs =>
    simp only [Positional.equalityTruth, compoundTruth, Truth.conj_eq_no, List.mem_map,
      exists_exists_and_eq_and, constraintTruth, plainTruth_eq_no hρ, ExcludesPlainly,
      ExcludesInPositional, false_or, not_forall, not_or]
    exact exists_congr fun c => (exists_prop (a := c ∈ cs)).symm

theorem positional_inequalitySetTruth_some {elements : List ValueSetElement}
    (h : (Operand.valueSet elements).WellFormed) :
    Positional.inequalitySetTruth ρ (some x) elements = .yes ↔
      ∀ e ∈ elements, ¬ (ExcludesPlainly ρ (some x) e ∨ ExcludesInPositional ρ (some x) e) := by
  have hset : Positional.inequalitySetTruth ρ (some x) elements =
      (Truth.disj (elements.map (Positional.equalityTruth ρ (some x)))).neg := by
    unfold Positional.inequalitySetTruth
    split_ifs
    · rfl
    · exact Truth.or_no _
  rw [hset, Truth.neg_eq_yes, Truth.disj_eq_no, List.forall_mem_map]
  exact forall₂_congr fun e he => positional_equalityTruth_eq_no hρ (h.2 e he)

/-! ### Agreement -/

theorem comparisonTruth_alike_iff (op : ComparisonOperator) {operand : Operand}
    (h : operand.WellFormed) :
    (PostgreSQL.comparisonTruth ρ v op operand = .yes ↔
      Positional.comparisonTruth ρ v op operand = .yes) ↔ Agree ρ v op operand := by
  have hsame : ∀ t : Truth, (t = .yes ↔ t = .yes) ↔ True := fun t => iff_true_intro Iff.rfl
  cases operand with
  | range r => cases op <;> exact hsame _
  | constraint c => cases op <;> exact hsame _
  | compound cs => cases op <;> exact hsame _
  | literal l =>
    cases l with
    | temporal t =>
      cases op with
      | neq =>
        change (plainTruth ρ v .neq (.temporal t) = .yes ↔
          (plainTruth ρ v .neq (.temporal t)).or (isNullTruth v) = .yes) ↔ v ≠ none
        have hsome : plainTruth ρ v .neq (.temporal t) = .yes → v ≠ none := ne_none_of_plain
        rw [Truth.or_eq_yes, isNullTruth_eq_yes]
        grind
      | _ => exact hsame _
    | _ => cases op <;> exact hsame _
  | valueSet elements =>
    cases op with
    | eq =>
      simp only [PostgreSQL.comparisonTruth, Positional.comparisonTruth, Truth.disj_eq_yes,
        List.mem_map, exists_exists_and_eq_and, postgres_equalityTruth_eq_yes hρ,
        positional_equalityTruth_eq_yes hρ, Agree]
      exact any_or_iff
    | neq =>
      simp only [PostgreSQL.comparisonTruth, Positional.comparisonTruth, Agree]
      cases v with
      | none =>
        rw [positional_inequalitySetTruth_none, Truth.conj_eq_yes, List.forall_mem_map]
        simp only [postgres_inequalityTruth_none, if_true, List.any_eq_true]
        grind
      | some x =>
        rw [positional_inequalitySetTruth_some hρ h, Truth.conj_eq_yes, List.forall_mem_map,
          if_neg (Option.some_ne_none x)]
        rw [forall₂_congr fun e he => postgres_inequalityTruth_some hρ (h.2 e he)]
        exact none_or_iff
    | _ => exact hsame _

end

end AltrStream.Lowering
