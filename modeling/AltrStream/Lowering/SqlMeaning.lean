import AltrStream.Foundations.Misreading
import AltrStream.Lowering.SqlTruth

/-! # SQL truth against AltrQL meaning

Where the truth of the shared pieces and the two-valued meaning part: a date
that a comparison other than `=` does not read as a day, an inequality that is
not true on NULL, and a comparison with NULL that is no NULL test.
-/
namespace AltrStream.Lowering
open Foundations Python QueryEngine Semantics

/-- Only NULL denotes NULL, and a day starts at the value of its literal. -/
structure ProperReading (ρ : Reading) : Prop where
  literal : ∀ l, ρ.literal l = none ↔ l = .null
  day : ∀ l start stop, ρ.day? l = some (start, stop) → ρ.literal l = some start ∧ start < stop

theorem sqlReading_proper (clock : Clock) (col : BoundFieldPath) :
    ProperReading (sqlReading clock col) where
  literal := by
    intro l
    cases l with
    | temporal t =>
      cases t with
      | keyword k => cases k <;> cases h : col.isTemporal <;> simp [sqlReading, readLiteral, readScalar, Clock.read, h]
      | value d => cases h : col.isTemporal <;> simp [sqlReading, readLiteral, readScalar, h]
    | string s => cases h : col.isTemporal <;> simp [sqlReading, readLiteral, readScalar, h]
    | _ => simp [sqlReading, readLiteral, readScalar]
  day := by
    intro l start stop h
    cases l with
    | temporal t =>
      cases t with
      | keyword k => cases h
      | value d =>
        by_cases hts : col.isTimestampField = true
        · have htemporal := BoundFieldPath.isTemporal_of_isTimestampField hts
          simp only [Reading.day?, sqlReading, hts, if_true, Option.some.injEq, Prod.mk.injEq] at h
          obtain ⟨rfl, rfl⟩ := h
          refine ⟨by simp [sqlReading, readLiteral, readScalar, htemporal], ?_⟩
          have hlt : d.midnight < d.midnight + dayLength := Nat.lt_add_of_pos_right (by decide)
          exact Sum.Lex.inr_lt_inr_iff.2 (Sum.Lex.inr_lt_inr_iff.2 (Sum.Lex.inr_lt_inr_iff.2 hlt))
        · simp [Reading.day?, sqlReading, hts] at h
    | _ => cases h

section
variable (ρ : Reading) (v : Option Value)

/-- The value lies in the day of the literal, but is not the literal's own value. -/
def InsideDay (l : LiteralValue) : Prop :=
  ∃ start stop x, ρ.day? l = some (start, stop) ∧ v = some x ∧ start < x ∧ x < stop

/-- The members of a compound constraint that SQL decides otherwise. -/
def misreadConstraint (c : ComparisonConstraint) : Prop :=
  match c.operator, c.value with
  | .eq, .null => v = none
  | .neq, .null => v ≠ none
  | .eq, l => InsideDay ρ v l
  | .neq, l => v = none ∨ InsideDay ρ v l
  | _, _ => False

/-- A compound constraint comes out as meant. -/
def CompoundSettled (cs : List ComparisonConstraint) : Prop :=
  AllSettled cs (fun c => ρ.compare v c.operator c.value = true) (misreadConstraint ρ v)

/-- A bare constraint excludes less than the day it names. -/
def misreadBareConstraint (c : ComparisonConstraint) : Prop :=
  c.operator = .neq ∧ InsideDay ρ v c.value

end

section
variable {ρ : Reading} {v : Option Value}

theorem InsideDay.ne_none {l : LiteralValue} (h : InsideDay ρ v l) : v ≠ none := by
  obtain ⟨_, _, x, -, rfl, -⟩ := h
  exact Option.some_ne_none x

theorem InsideDay.ne_null {l : LiteralValue} (h : InsideDay ρ v l) : l ≠ .null := by
  rintro rfl
  obtain ⟨_, _, _, hday, -⟩ := h
  cases hday

theorem plainTruth_eq_yes {op : ComparisonOperator} {l : LiteralValue} :
    plainTruth ρ v op l = .yes ↔ Reading.order op v (ρ.literal l) = true := by
  unfold plainTruth
  cases v with
  | none => simp [sqlCompare, Reading.order]
  | some x =>
    cases ρ.literal l with
    | none => simp [sqlCompare, Reading.order]
    | some y => exact Truth.ofBool_eq_yes _

theorem isNullTruth_eq_yes : isNullTruth v = .yes ↔ v = none := by
  simp [isNullTruth]

theorem isNotNullTruth_eq_yes : isNotNullTruth v = .yes ↔ v ≠ none := by
  simp [isNotNullTruth, Option.isSome_iff_ne_none]

theorem betweenTruth_eq_yes {r : Range} :
    betweenTruth ρ v r = .yes ↔ ρ.between v r = true := by
  simp [betweenTruth, Reading.between, plainTruth_eq_yes]

theorem ne_none_of_plain {op : ComparisonOperator} {l : LiteralValue}
    (h : plainTruth ρ v op l = .yes) : v ≠ none := by
  rintro rfl
  simp [plainTruth, sqlCompare] at h

variable (hρ : ProperReading ρ)
include hρ

theorem InsideDay.not_plain {l : LiteralValue} (h : InsideDay ρ v l) :
    plainTruth ρ v .eq l ≠ .yes := by
  obtain ⟨start, stop, x, hday, rfl, hlt, -⟩ := h
  rw [Ne, plainTruth_eq_yes, (hρ.day l start stop hday).1]
  simpa [Reading.order, ComparisonOperator.holds] using hlt.ne'

/-- Equality with a literal is equality with its value or membership of its day. -/
theorem equals_eq_true {l : LiteralValue} (hl : l ≠ .null) :
    ρ.equals v l = true ↔ plainTruth ρ v .eq l = .yes ∨ InsideDay ρ v l := by
  have hsome : ρ.literal l ≠ none := mt (hρ.literal l).1 hl
  obtain ⟨y, hy⟩ := Option.ne_none_iff_exists'.1 hsome
  rw [plainTruth_eq_yes, hy]
  unfold Reading.equals InsideDay
  cases hday : ρ.day? l with
  | none => cases v <;> simp [Reading.order, ComparisonOperator.holds, hy]
  | some day =>
    obtain ⟨start, stop⟩ := day
    obtain ⟨hstart, hlt⟩ := hρ.day l start stop hday
    obtain rfl : y = start := Option.some.inj (hy.symm.trans hstart)
    cases v with
    | none => simp [Reading.order]
    | some x =>
      simp only [Reading.order, ComparisonOperator.holds, Bool.and_eq_true, decide_eq_true_eq,
        Option.some.injEq, Prod.mk.injEq]
      constructor
      · rintro ⟨hle, hxs⟩
        rcases hle.eq_or_lt with rfl | hyx
        · exact .inl rfl
        · exact .inr ⟨y, stop, x, ⟨rfl, rfl⟩, rfl, hyx, hxs⟩
      · rintro (rfl | ⟨_, _, _, ⟨rfl, rfl⟩, rfl, hyx, hxs⟩)
        · exact ⟨le_rfl, hlt⟩
        · exact ⟨hyx.le, hxs⟩

theorem equals_null : ρ.equals v .null = true ↔ v = none := by
  simp [Reading.equals, Reading.day?, (hρ.literal .null).2 rfl]

theorem equalsTruth_eq_yes {l : LiteralValue} (hl : l ≠ .null) :
    equalsTruth ρ v l = .yes ↔ ρ.equals v l = true := by
  unfold equalsTruth Reading.equals
  cases hday : ρ.day? l with
  | none =>
    obtain ⟨y, hy⟩ := Option.ne_none_iff_exists'.1 (mt (hρ.literal l).1 hl)
    rw [Option.elim_none, plainTruth_eq_yes, hy]
    cases v <;> simp [Reading.order, ComparisonOperator.holds]
  | some day =>
    have horder : ∀ op y, sqlCompare op v (some y) = .yes ↔ Reading.order op v (some y) = true := by
      intro op y
      cases v <;> simp [sqlCompare, Reading.order]
    simp [dayTruth, horder]

theorem plain_neq {l : LiteralValue} (hl : l ≠ .null) :
    plainTruth ρ v .neq l = .yes ↔ v ≠ none ∧ plainTruth ρ v .eq l ≠ .yes := by
  obtain ⟨y, hy⟩ := Option.ne_none_iff_exists'.1 (mt (hρ.literal l).1 hl)
  rw [Ne, Ne, plainTruth_eq_yes, plainTruth_eq_yes, hy]
  cases v <;> simp [Reading.order, ComparisonOperator.holds]

theorem plain_null (op : ComparisonOperator) : plainTruth ρ v op .null ≠ .yes := by
  rw [Ne, plainTruth_eq_yes, (hρ.literal .null).2 rfl]
  cases v <;> simp [Reading.order]

/-- An inverted ordering, with NULL let in, is the complement of the ordering. -/
theorem plain_invert {op : ComparisonOperator} (hop : op.isOrdering = true) {l : LiteralValue}
    (hl : l ≠ .null) :
    plainTruth ρ v (invertOperator op) l = .yes ∨ v = none ↔
      ¬ Reading.order op v (ρ.literal l) = true := by
  obtain ⟨y, hy⟩ := Option.ne_none_iff_exists'.1 (mt (hρ.literal l).1 hl)
  rw [plainTruth_eq_yes, hy]
  cases v <;> cases op <;> simp_all [Reading.order, ComparisonOperator.holds, invertOperator,
    ComparisonOperator.isOrdering]

/-- Outside a range, or NULL, is the complement of the range. -/
theorem outsideTruth_or_null {r : Range} (hr : r.WellFormed) :
    (outsideTruth ρ v r).or (isNullTruth v) = .yes ↔ ¬ ρ.between v r = true := by
  have hstart : plainTruth ρ v (invertOperator .gte) r.start = .yes ∨ v = none ↔
      ¬ Reading.order .gte v (ρ.literal r.start) = true := plain_invert hρ rfl hr.1
  have hstop : plainTruth ρ v (invertOperator .lte) r.stop = .yes ∨ v = none ↔
      ¬ Reading.order .lte v (ρ.literal r.stop) = true := plain_invert hρ rfl hr.2
  simp only [invertOperator] at hstart hstop
  rw [Truth.or_eq_yes, outsideTruth, Truth.or_eq_yes, isNullTruth_eq_yes, Reading.between,
    Bool.and_eq_true, not_and_or, ← hstart, ← hstop]
  grind

omit hρ in
theorem compare_ordering {op : ComparisonOperator} (hop : op.isOrdering = true)
    (l : LiteralValue) : ρ.compare v op l = Reading.order op v (ρ.literal l) := by
  cases op with
  | eq => exact nomatch hop
  | neq => exact nomatch hop
  | _ => rfl

theorem nullTestTruth_eq_yes (op : ComparisonOperator) :
    nullTestTruth v op = .yes ↔ ρ.compare v op .null = true := by
  have hnull := equals_null (v := v) hρ
  have hlit := (hρ.literal .null).2 rfl
  cases op with
  | eq => exact isNullTruth_eq_yes.trans hnull.symm
  | neq =>
    rw [Reading.compare, Bool.not_eq_true', ← Bool.not_eq_true, hnull]
    exact isNotNullTruth_eq_yes
  | _ => cases v <;> simp [nullTestTruth, Reading.compare, Reading.order, hlit]

/-! ### Constraints -/

theorem constraintTruth_agrees (c : ComparisonConstraint) :
    misreadConstraint ρ v c ↔
      ¬ (constraintTruth ρ v c = .yes ↔ ρ.compare v c.operator c.value = true) := by
  obtain ⟨op, l⟩ := c
  by_cases hop : op.isOrdering = true
  · have hfalse : ¬ misreadConstraint ρ v ⟨op, l⟩ := by
      cases op with
      | eq => exact nomatch hop
      | neq => exact nomatch hop
      | _ => cases l <;> exact id
    simp [hfalse, constraintTruth, compare_ordering hop, plainTruth_eq_yes]
  · by_cases hl : l = .null
    · subst hl
      have hplain := plain_null (v := v) hρ
      have hnull := equals_null (v := v) hρ
      cases op with
      | eq => simp [misreadConstraint, constraintTruth, Reading.compare, hplain, hnull]
      | neq =>
        simp [misreadConstraint, constraintTruth, Reading.compare, hplain, ← Bool.not_eq_true, hnull]
      | _ => exact absurd rfl hop
    · have hequals := equals_eq_true (v := v) hρ hl
      have hneq := plain_neq (v := v) hρ hl
      have hinside : InsideDay ρ v l → plainTruth ρ v .eq l ≠ .yes := fun h => h.not_plain hρ
      have hsome : plainTruth ρ v .eq l = .yes → v ≠ none := ne_none_of_plain
      have hnone : InsideDay ρ v l → v ≠ none := InsideDay.ne_none
      cases op with
      | eq =>
        have hdef : misreadConstraint ρ v ⟨.eq, l⟩ ↔ InsideDay ρ v l := by
          cases l <;> first | rfl | exact absurd rfl hl
        rw [hdef]
        simp only [constraintTruth, Reading.compare, hequals]
        grind
      | neq =>
        have hdef : misreadConstraint ρ v ⟨.neq, l⟩ ↔ v = none ∨ InsideDay ρ v l := by
          cases l <;> first | rfl | exact absurd rfl hl
        rw [hdef]
        simp only [constraintTruth, Reading.compare, Bool.not_eq_true', ← Bool.not_eq_true, hequals,
          hneq]
        grind
      | _ => exact absurd rfl hop

theorem compoundTruth_agrees (cs : List ComparisonConstraint) :
    (compoundTruth ρ v cs = .yes ↔ (cs.all fun c => ρ.compare v c.operator c.value) = true) ↔
      CompoundSettled ρ v cs := by
  have hall := @all_agrees_iff _ cs (fun c => constraintTruth ρ v c = .yes)
    (fun c => ρ.compare v c.operator c.value = true) (misreadConstraint ρ v)
    fun c _ => constraintTruth_agrees hρ c
  rw [CompoundSettled, ← hall, compoundTruth, Truth.conj_eq_yes, List.all_eq_true]
  simp

omit hρ in
theorem bareConstraintTruth_of_ordering {op : ComparisonOperator} (hop : op.isOrdering = true)
    {l : LiteralValue} (hl : l ≠ .null) :
    bareConstraintTruth ρ v ⟨op, l⟩ = plainTruth ρ v op l := by
  cases op with
  | eq => exact nomatch hop
  | neq => exact nomatch hop
  | _ => cases l <;> first | rfl | exact absurd rfl hl

theorem bareConstraintTruth_eq_yes (c : ComparisonConstraint) :
    bareConstraintTruth ρ v c = .yes ↔
      (ρ.compare v c.operator c.value = true ∨ misreadBareConstraint ρ v c) := by
  obtain ⟨op, l⟩ := c
  by_cases hl : l = .null
  · subst hl
    have hfalse : ¬ misreadBareConstraint ρ v ⟨op, .null⟩ := fun h => h.2.ne_null rfl
    rw [or_iff_left hfalse]
    exact nullTestTruth_eq_yes hρ op
  · have hequals := equals_eq_true (v := v) hρ hl
    have hneq := plain_neq (v := v) hρ hl
    have hnone : InsideDay ρ v l → v ≠ none := InsideDay.ne_none
    have hinside : InsideDay ρ v l → plainTruth ρ v .eq l ≠ .yes := fun h => h.not_plain hρ
    have hsome : plainTruth ρ v .eq l = .yes → v ≠ none := ne_none_of_plain
    cases op with
    | eq =>
      have hdef : bareConstraintTruth ρ v ⟨.eq, l⟩ = equalsTruth ρ v l := by
        cases l <;> first | rfl | exact absurd rfl hl
      simp [hdef, equalsTruth_eq_yes hρ hl, misreadBareConstraint, Reading.compare]
    | neq =>
      have hdef : bareConstraintTruth ρ v ⟨.neq, l⟩ =
          (plainTruth ρ v .neq l).or (isNullTruth v) := by
        cases l <;> first | rfl | exact absurd rfl hl
      simp only [hdef, Truth.or_eq_yes, isNullTruth_eq_yes, hneq, misreadBareConstraint,
        Reading.compare, Bool.not_eq_true', ← Bool.not_eq_true, hequals, true_and]
      grind
    | _ =>
      rw [bareConstraintTruth_of_ordering rfl hl, plainTruth_eq_yes]
      simp [misreadBareConstraint, Reading.compare]

end

/-! ### Field expressions -/

/-- On the row, the predicate that is emitted for the expression, with the parameters
bound, is TRUE exactly when the expression is meant to hold. -/
def MeansOn (lower : BoundFieldExpression → LowerM Condition) (clock : Clock)
    (row : FieldPath → Option Value) (expr : BoundFieldExpression) : Prop :=
  ∀ log, ∃ c log', lower expr log = .ok (c, log') ∧ ∀ full, log' <+: full →
    ∀ m, (sqlReading clock expr.field).meaning (row expr.field.path) expr.operator expr.operand =
      some m → (c.eval ⟨clock, full, row⟩ = .yes ↔ m = true)

/-- The predicate's truth in closed form, and when there is one, decide the matter. -/
theorem meansOn_iff {lower : BoundFieldExpression → LowerM Condition} {clock : Clock}
    {row : FieldPath → Option Value} {expr : BoundFieldExpression} {t : Truth} {p : Prop}
    (hemits : Emits (lower expr) fun full c => c.eval ⟨clock, full, row⟩ = t)
    (hsucceeds : SucceedsIff (lower expr) p) :
    MeansOn lower clock row expr ↔ p ∧
      ∀ m, (sqlReading clock expr.field).meaning (row expr.field.path) expr.operator
        expr.operand = some m → (t = .yes ↔ m = true) := by
  constructor
  · intro h
    obtain ⟨c, log', hrun, hmeans⟩ := h []
    refine ⟨(hsucceeds []).1 ⟨_, hrun⟩, fun m hm => ?_⟩
    rw [← (hemits [] c log' hrun).2 log' List.prefix_rfl]
    exact hmeans log' List.prefix_rfl m hm
  · rintro ⟨hp, hmeans⟩ log
    obtain ⟨⟨c, log'⟩, hrun⟩ := (hsucceeds log).2 hp
    refine ⟨c, log', hrun, fun full hfull m hm => ?_⟩
    rw [(hemits log c log' hrun).2 full hfull]
    exact hmeans m hm

end AltrStream.Lowering
