import AltrStream.Lowering.Postgres
import AltrStream.Lowering.SqlTruth

/-! # The truth of a PostgreSQL predicate

The three-valued truth of every condition that the PostgreSQL lowerer emits for
a field expression. The `IN` lists of the short forms and the element-by-element
forms come out the same, so one description covers both.
-/
namespace AltrStream.Lowering.PostgreSQL
open Foundations Python QueryEngine Semantics

section
variable (ρ : Reading) (v : Option Value)

def equalityTruth : ValueSetElement → Truth
  | .literal .null => isNullTruth v
  | .literal l => equalsTruth ρ v l
  | .range r => betweenTruth ρ v r
  | .constraint c =>
    match c.value, c.operator with
    | .null, op => nullTestTruth v op
    | l, .eq => equalsTruth ρ v l
    | l, op => plainTruth ρ v op l
  | .compound cs => compoundTruth ρ v cs

/-- An element without a predicate leaves every row in. -/
def inequalityTruth : ValueSetElement → Truth
  | .literal .null => isNotNullTruth v
  | .literal l => (plainTruth ρ v .neq l).or (isNullTruth v)
  | .range r => (outsideTruth ρ v r).or (isNullTruth v)
  | .constraint c =>
    match c.value, c.operator with
    | .null, .eq => isNotNullTruth v
    | .null, .neq => isNullTruth v
    | .null, _ => .yes
    | l, op => (plainTruth ρ v (invertOperator op) l).or (isNullTruth v)
  | .compound _ => .yes

def directTruth (op : ComparisonOperator) (l : LiteralValue) : Truth :=
  match l, op with
  | .null, op => nullTestTruth v op
  | l, .eq => equalsTruth ρ v l
  | .temporal t, op => plainTruth ρ v op (.temporal t)
  | l, .neq => (plainTruth ρ v .neq l).or (isNullTruth v)
  | l, op => plainTruth ρ v op l

def comparisonTruth (op : ComparisonOperator) : Operand → Truth
  | .literal l => directTruth ρ v op l
  | .range r => betweenTruth ρ v r
  | .compound cs => compoundTruth ρ v cs
  | .constraint c => bareConstraintTruth ρ v c
  | .valueSet elements =>
    match op with
    | .eq => .disj (elements.map (equalityTruth ρ v))
    | .neq => .conj (elements.map (inequalityTruth ρ v))
    | _ => .unknown

def truth : Operator → Operand → Truth
  | .comparison op, operand => comparisonTruth ρ v op operand
  | .string op, operand => stringTruth ρ v op operand

end

theorem style_faithful : style.Faithful where
  literal := by
    intro clock temporal l hk
    cases l with
    | temporal t =>
      cases t with
      | keyword k => exact absurd rfl (hk k)
      | value d => rfl
    | _ => rfl
  dayBound := fun _ _ => rfl

variable (S : Site)

private theorem emits_lowerEqualityElement {e : ValueSetElement} (he : e.WellFormed) :
    Emits (lowerEqualityElement S.col e) (S.HasTruth (equalityTruth S.reading S.value e)) := by
  have hs := style_faithful
  cases e with
  | literal l =>
    have hequals := emits_lowerEquals hs S l
    cases l with
    | null => exact Emits.pure fun _ => rfl
    | _ => exact hequals
  | range r => exact emits_lowerBetween hs S r
  | compound cs => exact emits_lowerCompound hs S cs he
  | constraint c =>
    obtain ⟨op, l⟩ := c
    have hequals := emits_lowerEquals hs S l
    cases l with
    | null => exact Emits.pure fun full => hasTruth_lowerNullTest S op full
    | _ =>
      cases op with
      | eq => exact hequals
      | _ => exact emits_lowerCompare hs S _ _

/-- What an element of a `!=` set contributes: nothing, or a predicate. -/
private def Contributes (t : Truth) (full : List Scalar) (pred : Option Condition) : Prop :=
  match pred with
  | some c => S.HasTruth t full c
  | none => t = .yes

private theorem emits_orNull {m : LowerM Condition} {t : Truth} (h : Emits m (S.HasTruth t)) :
    Emits (do return some (Condition.group (.or (← m) (.isNull S.col))))
      (Contributes S (t.or (isNullTruth S.value))) := by
  refine Emits.bind h fun c => Emits.pure fun full hc => ?_
  change Truth.or (c.eval _) _ = _
  rw [show c.eval _ = t from hc]
  rfl

private theorem emits_lowerInequalityElement (e : ValueSetElement) :
    Emits (lowerInequalityElement S.col e)
      (Contributes S (inequalityTruth S.reading S.value e)) := by
  have hs := style_faithful
  cases e with
  | literal l =>
    cases l with
    | null => exact Emits.pure fun _ => rfl
    | _ => exact emits_orNull S (emits_lowerCompare hs S _ _)
  | range r =>
    refine Emits.bind (emits_lowerLiteral hs S r.start) fun lo => ?_
    refine Emits.bind (emits_lowerLiteral hs S r.stop) fun hi => Emits.pure fun full hhi hlo => ?_
    change S.HasTruth _ _ _
    rw [inequalityTruth, outsideTruth, plainTruth, plainTruth, ← (show _ = _ from hlo),
      ← (show _ = _ from hhi)]
    rfl
  | compound cs => exact Emits.pure fun _ => rfl
  | constraint c =>
    obtain ⟨op, l⟩ := c
    cases l with
    | null => cases op <;> exact Emits.pure fun _ => rfl
    | _ => exact emits_orNull S (emits_lowerCompare hs S _ _)

private theorem conj_filterMap_of_contributes {full : List Scalar} {f : ValueSetElement → Truth}
    {elements : List ValueSetElement} {preds : List (Option Condition)}
    (h : List.Forall₂ (fun e => Contributes S (f e) full) elements preds) :
    Truth.conj ((preds.filterMap id).map (Condition.eval ⟨S.clock, full, S.row⟩)) =
      .conj (elements.map f) := by
  induction h with
  | nil => rfl
  | @cons e pred es ps he _ ih =>
    cases pred with
    | none =>
      rw [List.filterMap_cons_none rfl, ih, List.map_cons, show f e = .yes from he]
      exact (Truth.yes_and _).symm
    | some c =>
      change Truth.conj (c.eval _ :: (ps.filterMap id).map _) = _
      rw [List.map_cons, show c.eval _ = f e from he]
      exact congrArg (Truth.and (f e)) ih

/-! ### `IN` lists -/

/-- The value of an element that stands in an `IN` list. -/
private def elementValue (ρ : Reading) : ValueSetElement → Option Value
  | .literal l => ρ.literal l
  | _ => none

private theorem emits_lowerElement (e : ValueSetElement) :
    Emits (style.lowerElement e) (S.Denotes (elementValue S.reading e)) := by
  cases e with
  | literal l => exact emits_lowerLiteral style_faithful S l
  | _ => exact emits_addParam S .none

private theorem map_read {full : List Scalar} {elements : List ValueSetElement}
    {xs : List SqlOperand}
    (h : List.Forall₂ (fun e => S.Denotes (elementValue S.reading e) full) elements xs)
    (g : Option Value → Truth) :
    xs.map (fun x => g (Env.read ⟨S.clock, full, S.row⟩ S.col x)) =
      elements.map fun e => g (elementValue S.reading e) := by
  induction h with
  | nil => rfl
  | cons he _ ih => rw [List.map_cons, List.map_cons, ih, show Env.read _ _ _ = _ from he]

private theorem simple_cases {nonNull : List ValueSetElement}
    (h : allSimple S.col nonNull = true) {e : ValueSetElement} (he : e ∈ nonNull) :
    ∃ l, e = .literal l ∧ l ≠ .null ∧ S.reading.day? l = none := by
  simp only [allSimple, Bool.and_eq_true, List.all_eq_true, Bool.not_eq_true', Bool.and_eq_false_iff,
    List.any_eq_false] at h
  obtain ⟨hsimple, hday⟩ := h
  have hse := hsimple e he
  cases e with
  | literal l =>
    refine ⟨l, rfl, ?_, ?_⟩
    · rintro rfl
      cases hse
    · rcases hday with hts | hdate
      · cases l with
        | temporal t =>
          cases t with
          | keyword k => rfl
          | value d =>
            have hts' : S.reading.isTimestamp = false := hts
            simp [Reading.day?, hts']
        | _ => rfl
      · have hde := hdate _ he
        cases l with
        | temporal t =>
          cases t with
          | keyword k => rfl
          | value d => exact absurd rfl hde
        | _ => rfl
  | _ => cases hse

private theorem equalityTruth_of_simple {nonNull : List ValueSetElement}
    (h : allSimple S.col nonNull = true) :
    nonNull.map (equalityTruth S.reading S.value) =
      nonNull.map fun e => sqlCompare .eq S.value (elementValue S.reading e) := by
  refine List.map_congr_left fun e he => ?_
  obtain ⟨l, rfl, hnull, hday⟩ := simple_cases S h he
  cases l <;> simp_all [equalityTruth, equalsTruth, elementValue, plainTruth]

theorem sqlCompare_neq {V : Type*} [LinearOrder V] (x y : Option V) :
    sqlCompare .neq x y = (sqlCompare .eq x y).neg := by
  cases x with
  | none => rfl
  | some x =>
    cases y with
    | none => rfl
    | some y => by_cases h : x = y <;> simp [sqlCompare, ComparisonOperator.holds, h, Truth.ofBool, Truth.neg]

private theorem inequalityTruth_of_simple {nonNull : List ValueSetElement}
    (h : allSimple S.col nonNull = true) :
    Truth.conj (nonNull.map (inequalityTruth S.reading S.value)) =
      ((Truth.disj (nonNull.map fun e =>
        sqlCompare .eq S.value (elementValue S.reading e))).neg).or (isNullTruth S.value) := by
  rw [Truth.neg_disj, Truth.conj_or, List.map_map, List.map_map]
  congr 1
  refine List.map_congr_left fun e he => ?_
  obtain ⟨l, rfl, hnull, -⟩ := simple_cases S h he
  cases l <;> simp_all [inequalityTruth, elementValue, plainTruth, sqlCompare_neq]

/-- `IS NOT NULL` absorbs an alternative for NULL. -/
theorem orNull_and_notNull (v : Option Value) (t : Truth) :
    (t.or (isNullTruth v)).and (isNotNullTruth v) = t.and (isNotNullTruth v) := by
  cases v <;> cases t <;> rfl

/-! ### Value sets -/

private theorem emits_lowerEqualitySet {elements : List ValueSetElement}
    (h : (Operand.valueSet elements).WellFormed) :
    Emits (lowerEqualitySet S.col elements)
      (S.HasTruth (.disj (elements.map (equalityTruth S.reading S.value)))) := by
  have hnull : ∀ e ∈ elements, e.isNull = true →
      equalityTruth S.reading S.value e = isNullTruth S.value := by
    rintro (l | r | c | cs) - he
    · cases l <;> first | rfl | cases he
    all_goals cases he
  have hpart := Truth.disj_partition _ _ _ _ hnull
  unfold lowerEqualitySet
  simp only []
  split
  · rename_i hsimple hany hnil
    refine Emits.pure fun full => ?_
    rw [hpart, hany, hnil]
    exact (Truth.no_or _).symm
  · rename_i e hsimple hany hone
    rw [hone] at hsimple
    refine Emits.bind (emits_lowerElement S e) fun x => Emits.pure fun full hx => ?_
    rw [hpart, hany, hone, equalityTruth_of_simple S hsimple, List.map_singleton,
      ← (show _ = _ from hx)]
    exact congrArg (Truth.or · _) (Truth.or_no _).symm
  · rename_i hsimple hany _ _
    refine Emits.bind (Emits.mapM fun e _ => emits_lowerElement S e) fun xs =>
      Emits.pure fun full hxs => ?_
    rw [hpart, hany, equalityTruth_of_simple S hsimple, ← map_read S hxs]
    rfl
  · rename_i e es hsimple hany hcons
    refine Emits.bind (Emits.mapM fun e _ => emits_lowerElement S e) fun xs =>
      Emits.pure fun full hxs => ?_
    rw [hcons] at hsimple
    rw [hpart, hany, hcons, equalityTruth_of_simple S hsimple, ← map_read S hxs]
    exact (Truth.or_no _).symm
  · refine Emits.bind (Emits.mapM fun e he => emits_lowerEqualityElement S (h.2 e he)) fun preds =>
      Emits.pure fun full hpreds => ?_
    rw [Site.HasTruth, eval_anyOf _ (ne_nil_of_forall₂ hpreds h.1), map_eval_of_forall₂ hpreds]

private theorem emits_lowerInequalitySet (elements : List ValueSetElement) :
    Emits (lowerInequalitySet S.col elements)
      (S.HasTruth (.conj (elements.map (inequalityTruth S.reading S.value)))) := by
  have hnull : ∀ e ∈ elements, e.isNull = true →
      inequalityTruth S.reading S.value e = isNotNullTruth S.value := by
    rintro (l | r | c | cs) - he
    · cases l <;> first | rfl | cases he
    all_goals cases he
  have hpart := Truth.conj_partition _ _ _ _ hnull
  unfold lowerInequalitySet
  simp only []
  split
  · rename_i hsimple hany hnil
    refine Emits.pure fun full => ?_
    rw [hpart, hany, hnil]
    exact (Truth.yes_and _).symm
  · rename_i e hsimple hany hone
    rw [hone] at hsimple
    refine Emits.bind (emits_lowerElement S e) fun x => Emits.pure fun full hx => ?_
    rw [hpart, hany, hone, inequalityTruth_of_simple S hsimple, if_pos rfl, orNull_and_notNull,
      List.map_singleton, ← (show _ = _ from hx)]
    refine congrArg (Truth.and · _) ?_
    exact (sqlCompare_neq _ _).trans (congrArg Truth.neg (Truth.or_no _).symm)
  · rename_i hsimple hany _ _
    refine Emits.bind (Emits.mapM fun e _ => emits_lowerElement S e) fun xs =>
      Emits.pure fun full hxs => ?_
    rw [hpart, hany, inequalityTruth_of_simple S hsimple, if_pos rfl, orNull_and_notNull,
      ← map_read S hxs]
    rfl
  · rename_i e es hsimple hany hcons
    refine Emits.bind (Emits.mapM fun e _ => emits_lowerElement S e) fun xs =>
      Emits.pure fun full hxs => ?_
    rw [hcons] at hsimple
    rw [hpart, hany, hcons, inequalityTruth_of_simple S hsimple, ← map_read S hxs]
    exact (Truth.and_yes _).symm
  · refine Emits.bind (Emits.mapM fun e _ => emits_lowerInequalityElement S e) fun preds =>
      Emits.pure fun full hpreds => ?_
    rw [Site.HasTruth, eval_allOf, conj_filterMap_of_contributes S hpreds]

/-! ### Field expressions -/

private theorem emits_lowerDirectLiteral (op : ComparisonOperator) (l : LiteralValue) :
    Emits (lowerDirectLiteral S.col op l) (S.HasTruth (directTruth S.reading S.value op l)) := by
  have hs := style_faithful
  have horNull : Emits (do return .group (.or (← style.lowerCompare S.col .neq l) (.isNull S.col)))
      (S.HasTruth ((plainTruth S.reading S.value .neq l).or (isNullTruth S.value))) := by
    refine Emits.bind (emits_lowerCompare hs S .neq l) fun c => Emits.pure fun full hc => ?_
    rw [← (show _ = _ from hc)]
    rfl
  have hequals := emits_lowerEquals hs S l
  cases l with
  | null => exact Emits.pure fun full => hasTruth_lowerNullTest S op full
  | temporal t =>
    cases op with
    | eq => exact hequals
    | _ => exact emits_lowerCompare hs S _ _
  | _ =>
    cases op with
    | eq => exact hequals
    | neq => exact horNull
    | _ => exact emits_lowerCompare hs S _ _

private theorem emits_lowerComparison (op : ComparisonOperator) {operand : Operand}
    (h : operand.WellFormed) :
    Emits (lowerComparison S.col op operand)
      (S.HasTruth (comparisonTruth S.reading S.value op operand)) := by
  have hs := style_faithful
  cases operand with
  | literal l => exact emits_lowerDirectLiteral S op l
  | range r => exact emits_lowerBetween hs S r
  | compound cs => exact emits_lowerCompound hs S cs h
  | constraint c => exact emits_lowerConstraint hs S c
  | valueSet elements =>
    have hnone : Emits (do return Condition.compare S.col .eq (← addParam .none))
        (S.HasTruth .unknown) := by
      refine Emits.bind (emits_addParam S .none) fun x => Emits.pure fun full hx => ?_
      rw [Site.HasTruth, Condition.eval, show Env.read _ _ _ = _ from hx]
      exact sqlCompare_none_right _ _
    cases op with
    | eq => exact emits_lowerEqualitySet S h
    | neq => exact emits_lowerInequalitySet S elements
    | _ => exact hnone

/-- The emitted predicate has the described truth on every row. -/
theorem emits_lowerFieldExpression (expr : BoundFieldExpression) (clock : Clock)
    (row : FieldPath → Option Value) (h : expr.operand.WellFormed) :
    Emits (lowerFieldExpression expr) fun full c =>
      c.eval ⟨clock, full, row⟩ =
        truth (sqlReading clock expr.field) (row expr.field.path) expr.operator expr.operand := by
  obtain ⟨col, operator, operand⟩ := expr
  cases operator with
  | comparison op => exact emits_lowerComparison ⟨clock, row, col⟩ op h
  | string op =>
    exact emits_lowerStringOperator ⟨clock, row, col⟩ style_faithful op operand
      (by rintro rfl; exact h.1 rfl)

end AltrStream.Lowering.PostgreSQL
