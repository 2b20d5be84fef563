import AltrStream.Foundations.Checks
import AltrStream.Lowering.Positional
import AltrStream.Lowering.Postgres
import AltrStream.Lowering.Slots
import Mathlib.Algebra.Order.BigOperators.Group.List

/-! # What value sets leave in the three lowerers' predicates

MySQL's and SQLite's code provides for every element of a set. PostgreSQL's code
does so under `=`; under `!=` it has no branch for a compound constraint and for an
ordering against NULL, and what such an element asks for is missing.
-/
namespace AltrStream.Lowering
open Foundations Python QueryEngine Semantics

variable {style : ParameterStyle} {col : BoundFieldPath}

theorem contributions_constraint {op : ComparisonOperator} {l : LiteralValue} (h : l ≠ .null) :
    (ComparisonConstraint.mk op l).contributions = {.value l} := if_neg fun hnull => h hnull.1

theorem contributions_literal {l : LiteralValue} (h : l ≠ .null) :
    (ValueSetElement.literal l).contributions = {.value l} := by
  cases l <;> first | rfl | exact absurd rfl h

theorem contributions_of_isNull {e : ValueSetElement} (h : e.isNull = true) :
    e.contributions = {.nullTest} := by
  rcases e with (l | r | c | cs)
  · cases l <;> first | rfl | cases h
  all_goals cases h

theorem card_contributions_pos {e : ValueSetElement} (h : e.WellFormed) :
    0 < e.contributions.card := by
  cases e with
  | literal l => cases l <;> simp [ValueSetElement.contributions]
  | range r => simp [ValueSetElement.contributions, Range.contributions]
  | constraint c =>
    rw [ValueSetElement.contributions, ComparisonConstraint.contributions]
    split_ifs <;> simp
  | compound cs =>
    obtain ⟨c, cs, rfl⟩ := List.exists_cons_of_ne_nil h
    simp [ValueSetElement.contributions]

theorem card_setContributions_pos {elements : List ValueSetElement}
    (h : (Operand.valueSet elements).WellFormed) :
    0 < (setContributions ValueSetElement.contributions elements).card := by
  unfold setContributions
  split_ifs with hany
  · simp
  · obtain ⟨e, es, hes⟩ := List.exists_cons_of_ne_nil (nonNull_ne_nil h.1 hany)
    have he : e ∈ elements := List.mem_of_mem_filter (hes ▸ List.mem_cons_self)
    have hpos := card_contributions_pos (h.2 e he)
    simp only [hes, List.map_cons, List.sum_cons, zero_add, Multiset.card_add]
    omega

/-- One test for each NULL element is more than is asked for. -/
theorem setContributions_le (elements : List ValueSetElement) :
    setContributions ValueSetElement.contributions elements ≤
      (elements.map ValueSetElement.contributions).sum := by
  induction elements with
  | nil => simp [setContributions]
  | cons e es ih =>
    rw [List.map_cons, List.sum_cons]
    by_cases he : e.isNull = true
    · have hothers : ((es.filter (!·.isNull)).map ValueSetElement.contributions).sum ≤
          setContributions ValueSetElement.contributions es := Multiset.le_add_left _ _
      simp only [setContributions, List.any_cons, he, Bool.true_or, if_true, List.filter_cons,
        Bool.not_true, Bool.false_eq_true, if_false, contributions_of_isNull he]
      exact add_le_add_right (hothers.trans ih) _
    · simp only [setContributions, List.any_cons, he, Bool.false_or, List.filter_cons,
        Bool.not_false, if_true, List.map_cons, List.sum_cons]
      rw [add_left_comm]
      exact add_le_add_right ih _

theorem provides_withNull {each : ValueSetElement → Multiset Contribution}
    {elements : List ValueSetElement} {full : List Scalar} {slots : Multiset Slot}
    (hany : elements.any (·.isNull) = true)
    (h : SlotsProvide style col ((elements.filter (!·.isNull)).map each).sum full slots) :
    SlotsProvide style col (setContributions each elements) full (slots + {.nullTest col}) := by
  have hset := provides_set h
  rwa [if_pos hany, add_comm] at hset

theorem provides_withoutNull {each : ValueSetElement → Multiset Contribution}
    {elements : List ValueSetElement} {full : List Scalar} {slots : Multiset Slot}
    (hany : elements.any (·.isNull) = false)
    (h : SlotsProvide style col ((elements.filter (!·.isNull)).map each).sum full slots) :
    SlotsProvide style col (setContributions each elements) full slots := by
  have hset := provides_set h
  rwa [if_neg (by simp [hany]), zero_add] at hset

/-- A list of operands in parentheses. -/
theorem slotsProvide_list {elements : List ValueSetElement} {xs : List SqlOperand}
    {full : List Scalar}
    (h : List.Forall₂ (fun e x => SlotsProvide style col e.contributions full {.operand col x})
      elements xs) :
    SlotsProvide style col (elements.map ValueSetElement.contributions).sum full
      (xs.map fun x => {Slot.operand col x}).sum := SlotsProvide.sum h

namespace PostgreSQL

/-- An element of a `!=` set that has no branch of its own. -/
def isDropped : ValueSetElement → Bool
  | .compound _ => true
  | .constraint c => c.value.isNull && c.operator.isOrdering
  | _ => false

private theorem provides_lowerElement (col : BoundFieldPath) {e : ValueSetElement}
    (h : isSimple e = true) :
    Emits (PostgreSQL.style.lowerElement e) fun full x =>
      SlotsProvide PostgreSQL.style col e.contributions full {.operand col x} := by
  cases e with
  | literal l =>
    have hl : l ≠ .null := by
      rintro rfl
      cases h
    rw [contributions_literal hl]
    exact (binds_lowerLiteral _ l).mono fun _ _ hx => SlotsProvide.value hx
  | _ => cases h

private theorem provides_lowerEqualityElement {e : ValueSetElement} (he : e.WellFormed) :
    Emits (lowerEqualityElement col e) (Provides PostgreSQL.style col e.contributions) := by
  cases e with
  | literal l =>
    have hequals := provides_lowerEquals PostgreSQL.style col l
    cases l with
    | null => exact Emits.pure fun _ => SlotsProvide.nullTest
    | _ => exact hequals
  | range r => exact provides_lowerBetween _ col r
  | compound cs => exact provides_lowerCompound _ col he
  | constraint c =>
    obtain ⟨op, l⟩ := c
    have hequals := provides_lowerEquals PostgreSQL.style col l
    cases l with
    | null => exact Emits.pure fun full => provides_lowerNullTest _ col op full
    | _ =>
      rw [ValueSetElement.contributions, contributions_constraint (by simp)]
      cases op with
      | eq => exact hequals
      | _ => exact provides_lowerCompare _ col _ _

private theorem provides_orNull {m : LowerM Condition} {parts : Multiset Contribution}
    (h : Emits m (Provides PostgreSQL.style col parts)) :
    Emits (do return some (Condition.group (.or (← m) (.isNull col)))) fun full o =>
      ∃ c ∈ o, Provides PostgreSQL.style col parts full c :=
  Emits.bind h fun _ => Emits.pure fun _ hc => ⟨_, rfl, hc.withNullTest⟩

private theorem provides_lowerInequalityElement {e : ValueSetElement} (he : isDropped e = false) :
    Emits (lowerInequalityElement col e) fun full o =>
      ∃ c ∈ o, Provides PostgreSQL.style col e.contributions full c := by
  cases e with
  | literal l =>
    cases l with
    | null => exact Emits.pure fun _ => ⟨_, rfl, SlotsProvide.nullTest⟩
    | _ => exact provides_orNull (provides_lowerCompare _ col _ _)
  | range r =>
    refine Emits.bind (binds_lowerLiteral _ r.start) fun lo => ?_
    refine Emits.bind (binds_lowerLiteral _ r.stop) fun hi => Emits.pure fun full hhi hlo => ?_
    exact ⟨_, rfl, ((SlotsProvide.value hlo).add (SlotsProvide.value hhi)).withNullTest⟩
  | compound cs => cases he
  | constraint c =>
    obtain ⟨op, l⟩ := c
    cases l with
    | null =>
      cases op with
      | eq | neq => exact Emits.pure fun _ => ⟨_, rfl, SlotsProvide.nullTest⟩
      | _ => cases he
    | _ =>
      rw [ValueSetElement.contributions, contributions_constraint (by simp)]
      exact provides_orNull (provides_lowerCompare _ col _ _)

private theorem isSimple_of_allSimple {nonNull : List ValueSetElement}
    (h : allSimple col nonNull = true) {e : ValueSetElement} (he : e ∈ nonNull) :
    isSimple e = true := by
  rw [allSimple, Bool.and_eq_true] at h
  exact List.all_eq_true.1 h.1 e he

/-- A shortcut for plain literals writes the same list of operands in every form. -/
private theorem provides_simple {nonNull : List ValueSetElement}
    (h : allSimple col nonNull = true) :
    Emits (nonNull.mapM PostgreSQL.style.lowerElement) fun full xs =>
      SlotsProvide PostgreSQL.style col (nonNull.map ValueSetElement.contributions).sum full
        (xs.map fun x => {Slot.operand col x}).sum := by
  exact (Emits.mapM fun e he => provides_lowerElement col (isSimple_of_allSimple h he)).mono
    fun _ _ hxs => slotsProvide_list hxs

private theorem provides_lowerEqualitySet {elements : List ValueSetElement}
    (h : (Operand.valueSet elements).WellFormed) :
    Emits (lowerEqualitySet col elements)
      (Provides PostgreSQL.style col (setContributions ValueSetElement.contributions elements)) := by
  unfold lowerEqualitySet
  simp only []
  split
  · rename_i hany hnil
    rw [setContributions, hany, hnil]
    exact Emits.pure fun _ => SlotsProvide.nullTest
  · rename_i e hsimple hany hone
    rw [hone] at hsimple
    refine Emits.bind (provides_lowerElement col (isSimple_of_allSimple hsimple (by simp))) fun x =>
      Emits.pure fun full hx => ?_
    rw [← List.sum_singleton (x := e.contributions)] at hx
    exact provides_withNull hany (hone ▸ hx)
  · rename_i hsimple hany _ _
    refine Emits.bind (provides_simple hsimple) fun xs => Emits.pure fun full hxs => ?_
    exact provides_withNull hany hxs
  · rename_i hsimple hany hcons
    rw [hcons] at hsimple
    refine Emits.bind (provides_simple hsimple) fun xs => Emits.pure fun full hxs => ?_
    exact provides_withoutNull hany (hcons ▸ hxs)
  · refine Emits.bind (Emits.mapM fun e he => provides_lowerEqualityElement (h.2 e he)) fun preds =>
      Emits.pure fun full hpreds => ?_
    rw [Provides, slots_anyOf (ne_nil_of_forall₂ hpreds h.1)]
    exact (SlotsProvide.sum hpreds).mono (setContributions_le elements)

private theorem provides_lowerInequalitySet {elements : List ValueSetElement} (hne : elements ≠ [])
    (hkept : ∀ e ∈ elements, isDropped e = false) :
    Emits (lowerInequalitySet col elements)
      (Provides PostgreSQL.style col (setContributions ValueSetElement.contributions elements)) := by
  unfold lowerInequalitySet
  simp only []
  split
  · rename_i hany hnil
    rw [setContributions, hany, hnil]
    exact Emits.pure fun _ => SlotsProvide.nullTest
  · rename_i e hsimple hany hone
    rw [hone] at hsimple
    refine Emits.bind (provides_lowerElement col (isSimple_of_allSimple hsimple (by simp))) fun x =>
      Emits.pure fun full hx => ?_
    rw [← List.sum_singleton (x := e.contributions)] at hx
    exact provides_withNull hany (hone ▸ hx)
  · rename_i hsimple hany _ _
    refine Emits.bind (provides_simple hsimple) fun xs => Emits.pure fun full hxs => ?_
    exact provides_withNull hany hxs
  · rename_i hsimple hany hcons
    rw [hcons] at hsimple
    refine Emits.bind (provides_simple hsimple) fun xs => Emits.pure fun full hxs => ?_
    exact (provides_withoutNull hany (hcons ▸ hxs)).withNullTest
  · refine Emits.bind (Emits.mapM fun e he => provides_lowerInequalityElement (hkept e he)) fun os =>
      Emits.pure fun full hos => ?_
    have hpreds := forall₂_filterMap hos
    rw [Provides, slots_allOf (ne_nil_of_forall₂ hpreds hne)]
    exact (SlotsProvide.sum hpreds).mono (setContributions_le elements)

private theorem provides_lowerDirectLiteral (op : ComparisonOperator) (l : LiteralValue) :
    Emits (lowerDirectLiteral col op l)
      (Provides PostgreSQL.style col (ComparisonConstraint.mk op l).contributions) := by
  have hequals := provides_lowerEquals PostgreSQL.style col l
  by_cases hl : l = .null
  · subst hl
    exact Emits.pure fun full => provides_lowerNullTest _ col op full
  · rw [contributions_constraint hl]
    have horNull : Emits
        (do return Condition.group (.or (← PostgreSQL.style.lowerCompare col .neq l) (.isNull col)))
        (Provides PostgreSQL.style col {.value l}) :=
      Emits.bind (provides_lowerCompare _ col .neq l) fun _ => Emits.pure fun _ hc => hc.withNullTest
    have hcompare := fun op => provides_lowerCompare PostgreSQL.style col op l
    cases l with
    | null => exact absurd rfl hl
    | temporal t =>
      cases op with
      | eq => exact hequals
      | _ => exact hcompare _
    | _ =>
      cases op with
      | eq => exact hequals
      | neq => exact horNull
      | _ => exact hcompare _

/-- Under `!=`, no element of a set is dropped. -/
def KeepsElements : Operator → Operand → Prop
  | .comparison .neq, .valueSet elements => ∀ e ∈ elements, isDropped e = false
  | _, _ => True

theorem provides_lowerFieldExpression {leaf : BoundFieldExpression} (h : leaf.operand.WellFormed)
    (hparsed : leaf.operand.Parsed leaf.operator)
    (hkept : KeepsElements leaf.operator leaf.operand) :
    Emits (lowerFieldExpression leaf)
      (Provides PostgreSQL.style leaf.field (contributions leaf.operator leaf.operand)) := by
  obtain ⟨col, operator, operand⟩ := leaf
  cases operator with
  | string op => exact provides_lowerStringOperator op h hparsed
  | comparison op =>
    cases operand with
    | literal l => exact provides_lowerDirectLiteral op l
    | range r => exact provides_lowerBetween _ col r
    | constraint c => exact hparsed.elim
    | compound cs => exact hparsed.elim
    | valueSet elements =>
      cases op with
      | eq => exact provides_lowerEqualitySet h
      | neq => exact provides_lowerInequalitySet h.1 hkept
      | _ => cases hparsed

/-! ### What is missing

A value is only provided for by an operand, and the operands can be counted. -/

private def asked (parts : Multiset Contribution) : ℕ := parts.countP (·.isValue = true)

private def filled (slots : Multiset Slot) : ℕ := slots.countP (·.isOperand = true)

private theorem asked_le_filled {parts : Multiset Contribution} {full : List Scalar}
    {slots : Multiset Slot} (h : SlotsProvide style col parts full slots) :
    asked parts ≤ filled slots := by
  refine h.covered.countP_le fun part slot hfills hpart => ?_
  cases part with
  | value l => cases slot <;> first | rfl | cases hfills
  | _ => cases hpart

private theorem asked_sum (elements : List ValueSetElement) :
    asked (elements.map ValueSetElement.contributions).sum =
      (elements.map fun e => asked e.contributions).sum := by
  induction elements with
  | nil => rfl
  | cons e es ih =>
    rw [List.map_cons, List.sum_cons, List.map_cons, List.sum_cons, ← ih]
    exact Multiset.countP_add _ _ _

/-- NULL elements ask for no value. -/
private theorem asked_setContributions (elements : List ValueSetElement) :
    asked (setContributions ValueSetElement.contributions elements) =
      (elements.map fun e => asked e.contributions).sum := by
  have htest : asked (if elements.any (·.isNull) then {.nullTest} else 0) = 0 := by
    split_ifs <;> rfl
  have hset : asked (setContributions ValueSetElement.contributions elements) =
      0 + asked ((elements.filter (!·.isNull)).map ValueSetElement.contributions).sum :=
    htest ▸ Multiset.countP_add _ _ _
  rw [hset, zero_add, asked_sum]
  clear htest hset
  induction elements with
  | nil => rfl
  | cons e es ih =>
    rw [List.map_cons, List.sum_cons, ← ih]
    cases he : e.isNull with
    | true =>
      have hnone : asked e.contributions = 0 := contributions_of_isNull he ▸ rfl
      simp [he, hnone]
    | false => simp [he]

private theorem asked_pos_of_dropped {e : ValueSetElement} (he : e.WellFormed)
    (h : isDropped e = true) : 0 < asked e.contributions := by
  cases e with
  | compound cs =>
    obtain ⟨c, cs, rfl⟩ := List.exists_cons_of_ne_nil he
    simp [asked, ValueSetElement.contributions, Contribution.isValue]
  | constraint c =>
    obtain ⟨op, l⟩ := c
    cases op <;> cases l <;> first | decide | cases h
  | _ => cases h

private theorem filled_lowerCompare (col : BoundFieldPath) (op : ComparisonOperator) (l : LiteralValue) :
    Emits (PostgreSQL.style.lowerCompare col op l) fun _ c => filled c.slots = 1 :=
  Emits.bind (binds_lowerLiteral _ l) fun _ => Emits.pure fun _ _ => rfl

private theorem filled_orNull (col : BoundFieldPath) {m : LowerM Condition} {n : ℕ}
    (h : Emits m fun _ c => filled c.slots = n) :
    Emits (do return some (Condition.group (.or (← m) (.isNull col)))) fun _ o =>
      (o.elim 0 fun c => filled c.slots) = n := by
  refine Emits.bind h fun c => Emits.pure fun _ hc => ?_
  have hadd : filled (c.slots + {.nullTest col}) = filled c.slots + 0 := Multiset.countP_add _ _ _
  exact hadd.trans hc

private theorem filled_lowerInequalityElement (e : ValueSetElement) :
    Emits (lowerInequalityElement col e) fun _ o =>
      (o.elim 0 fun c => filled c.slots) =
        if isDropped e then 0 else asked e.contributions := by
  cases e with
  | literal l =>
    cases l with
    | null => exact Emits.pure fun _ => rfl
    | _ => exact filled_orNull col (filled_lowerCompare col _ _)
  | range r =>
    exact Emits.bind (binds_lowerLiteral _ r.start) fun lo =>
      Emits.bind (binds_lowerLiteral _ r.stop) fun hi => Emits.pure fun _ _ _ => rfl
  | compound cs => exact Emits.pure fun _ => rfl
  | constraint c =>
    obtain ⟨op, l⟩ := c
    have hasked : l ≠ .null → 1 = asked (ValueSetElement.constraint ⟨op, l⟩).contributions := by
      intro hl
      rw [ValueSetElement.contributions, contributions_constraint hl]
      rfl
    have hcompare := filled_orNull col (filled_lowerCompare col (invertOperator op) l)
    cases l with
    | null => cases op <;> exact Emits.pure fun _ => rfl
    | _ => exact hcompare.mono fun _ _ hone => hone.trans (hasked (by simp))

private theorem filled_allOf {os : List (Option Condition)} :
    filled (allOf (os.filterMap id)).slots =
      (os.map fun o => o.elim 0 fun c => filled c.slots).sum := by
  have hsum : ∀ os : List (Option Condition),
      filled ((os.filterMap id).map Condition.slots).sum =
        (os.map fun o => o.elim 0 fun c => filled c.slots).sum := by
    intro os
    induction os with
    | nil => rfl
    | cons o os ih =>
      cases o with
      | none => simpa using ih
      | some c =>
        rw [List.map_cons, List.sum_cons, ← ih]
        exact Multiset.countP_add _ _ _
  rw [← hsum]
  cases hnil : os.filterMap id with
  | nil => rfl
  | cons c cs => rw [slots_allOf (List.cons_ne_nil c cs)]

private theorem lowerInequalitySet_of_dropped {elements : List ValueSetElement}
    {e : ValueSetElement} (he : e ∈ elements) (hdropped : isDropped e = true) :
    lowerInequalitySet col elements = do
      return allOf ((← elements.mapM (lowerInequalityElement col)).filterMap id) := by
  have hnonNull : e ∈ elements.filter (!·.isNull) := by
    refine List.mem_filter.2 ⟨he, ?_⟩
    cases e <;> first | rfl | cases hdropped
  have hsimple : allSimple col (elements.filter (!·.isNull)) = false := by
    rw [allSimple, Bool.and_eq_false_iff]
    refine .inl (List.all_eq_false.2 ⟨e, hnonNull, ?_⟩)
    cases e <;> first | exact Bool.false_ne_true | cases hdropped
  unfold lowerInequalitySet
  simp only [hsimple]

private theorem not_provides_of_dropped_element {elements : List ValueSetElement}
    (h : (Operand.valueSet elements).WellFormed)
    (hdropped : ¬ ∀ e ∈ elements, isDropped e = false) :
    Emits (lowerInequalitySet col elements) fun full c =>
      ¬ Provides PostgreSQL.style col
        (setContributions ValueSetElement.contributions elements) full c := by
  push Not at hdropped
  obtain ⟨e, he, hdrop⟩ := hdropped
  have hdrop : isDropped e = true := by simpa using hdrop
  rw [lowerInequalitySet_of_dropped he hdrop]
  refine Emits.bind (Emits.mapM fun e _ => filled_lowerInequalityElement e) fun os =>
    Emits.pure fun full hos hprovides => ?_
  have hfilled : filled (allOf (os.filterMap id)).slots =
      (elements.map fun e => if isDropped e then 0 else asked e.contributions).sum := by
    rw [filled_allOf]
    clear h he hprovides
    induction hos with
    | nil => rfl
    | cons h _ ih => rw [List.map_cons, List.map_cons, List.sum_cons, List.sum_cons, ih, h]
  have hless : (elements.map fun e => if isDropped e then 0 else asked e.contributions).sum <
      (elements.map fun e => asked e.contributions).sum := by
    refine List.sum_lt_sum _ _ (fun e _ => ?_) ⟨e, he, ?_⟩
    · split_ifs
      · exact Nat.zero_le _
      · exact le_rfl
    · rw [if_pos hdrop]
      exact asked_pos_of_dropped (h.2 e he) hdrop
  have hle := asked_le_filled hprovides
  rw [asked_setContributions, hfilled] at hle
  omega

theorem not_provides_of_dropped {leaf : BoundFieldExpression} (h : leaf.operand.WellFormed)
    (hdropped : ¬ KeepsElements leaf.operator leaf.operand) :
    Emits (lowerFieldExpression leaf) fun full c =>
      ¬ Provides PostgreSQL.style leaf.field (contributions leaf.operator leaf.operand) full c := by
  obtain ⟨col, operator, operand⟩ := leaf
  cases operator with
  | string op => exact absurd trivial hdropped
  | comparison op =>
    cases op with
    | neq =>
      cases operand with
      | valueSet elements => exact not_provides_of_dropped_element h hdropped
      | _ => exact absurd trivial hdropped
    | _ => exact absurd trivial hdropped

end PostgreSQL

namespace Positional

variable {compound : BoundFieldPath → List ComparisonConstraint → LowerM Condition}
  (hcompound : ∀ cs ≠ [], Emits (compound col cs)
    (Provides style col (ValueSetElement.compound cs).contributions))

private theorem sum_partition (col : BoundFieldPath) (nonNull : List ValueSetElement) :
    (nonNull.map ValueSetElement.contributions).sum =
      ((nonNull.filter (isSimpleScalar col)).map ValueSetElement.contributions).sum +
        ((nonNull.filter (!isSimpleScalar col ·)).map ValueSetElement.contributions).sum := by
  induction nonNull with
  | nil => rfl
  | cons e es ih =>
    rw [List.map_cons, List.sum_cons, ih]
    cases he : isSimpleScalar col e with
    | true => simp [he, add_assoc]
    | false => simp [he, add_left_comm]

private theorem provides_lowerScalar {e : ValueSetElement} (h : isSimpleScalar col e = true) :
    Emits (lowerScalar style e) fun full x =>
      SlotsProvide style col e.contributions full {.operand col x} := by
  cases e with
  | literal l =>
    have hl : l ≠ .null := by
      rintro rfl
      cases h
    rw [contributions_literal hl]
    exact (binds_addParam style l).mono fun _ _ hx => SlotsProvide.value hx
  | _ => cases h

/-- The `IN` list, if there is one, provides for the simple scalars. -/
private theorem provides_lowerScalars {make : List SqlOperand → Condition}
    (hmake : ∀ xs, (make xs).slots = (xs.map fun x => {Slot.operand col x}).sum)
    (nonNull : List ValueSetElement) :
    Emits (lowerScalars style col make nonNull) fun full cs =>
      SlotsProvide style col
        ((nonNull.filter (isSimpleScalar col)).map ValueSetElement.contributions).sum full
        (cs.map Condition.slots).sum := by
  have hlist : Emits ((nonNull.filter (isSimpleScalar col)).mapM (lowerScalar style)) fun full xs =>
      SlotsProvide style col
        ((nonNull.filter (isSimpleScalar col)).map ValueSetElement.contributions).sum full
        (xs.map fun x => {Slot.operand col x}).sum :=
    (Emits.mapM fun e he => provides_lowerScalar (List.mem_filter.1 he).2).mono
      fun _ _ hxs => slotsProvide_list hxs
  unfold lowerScalars
  split
  · rename_i hnil
    rw [hnil]
    exact Emits.pure fun _ => SlotsProvide.zero
  · refine Emits.bind hlist fun xs => Emits.pure fun full hxs => ?_
    rw [List.map_singleton, List.sum_singleton, hmake]
    exact hxs

private theorem provides_predicate {m : LowerM Condition} {parts : Multiset Contribution}
    (h : Emits m (Provides style col parts)) :
    Emits (do return some (← m)) fun full o => ∃ c ∈ o, Provides style col parts full c :=
  Emits.bind h fun c => Emits.pure fun _ hc => ⟨c, rfl, hc⟩

/-- A literal that is not in the `IN` list is a date that stands for its day. -/
private theorem dateOnly_of_not_simple {l : LiteralValue}
    (hnull : (ValueSetElement.literal l).isNull = false) (h : isSimpleScalar col (.literal l) = false) :
    ∃ d, l = .temporal (.value d) ∧ col.isTimestampField = true := by
  cases l with
  | null => cases hnull
  | temporal t =>
    cases t with
    | keyword k => simp [isSimpleScalar, isDateOnlyLiteral, dateOnly?] at h
    | value d => exact ⟨d, rfl, by simpa [isSimpleScalar, isDateOnlyLiteral, dateOnly?] using h⟩
  | _ => simp [isSimpleScalar, isDateOnlyLiteral, dateOnly?] at h

/-- A comparison with NULL takes the place of a NULL test. -/
private theorem provides_compareConstraint (op : ComparisonOperator) (c : ComparisonConstraint) :
    Emits (style.lowerCompare col op c.value) (Provides style col c.contributions) := by
  obtain ⟨op', l⟩ := c
  by_cases hl : l = .null
  · subst hl
    have hnull : Emits (style.lowerLiteral .null) fun _ x => x = .null := Emits.pure fun _ => rfl
    refine Emits.bind hnull fun x => Emits.pure fun full hx => ?_
    subst hx
    unfold ComparisonConstraint.contributions
    split_ifs
    · exact SlotsProvide.operand ⟨rfl, rfl⟩
    · exact SlotsProvide.value (.inl ⟨rfl, rfl⟩)
  · rw [contributions_constraint hl]
    exact provides_lowerCompare style col op l

include hcompound in
private theorem provides_lowerEqualityElement {e : ValueSetElement} (he : e.WellFormed)
    (hnull : e.isNull = false) (hsimple : isSimpleScalar col e = false) :
    Emits (lowerEqualityElement style compound col e) fun full o =>
      ∃ c ∈ o, Provides style col e.contributions full c := by
  cases e with
  | range r => exact provides_predicate (provides_lowerBetween style col r)
  | compound cs => exact provides_predicate (hcompound cs he)
  | constraint c => exact provides_predicate (provides_compareConstraint c.operator c)
  | literal l =>
    obtain ⟨d, rfl, hts⟩ := dateOnly_of_not_simple hnull hsimple
    simp only [lowerEqualityElement, dateOnly?, hts, if_true]
    exact provides_predicate (provides_lowerDay style col rfl)

private theorem provides_lowerInequalityElement {e : ValueSetElement} (he : e.WellFormed)
    (hnull : e.isNull = false) (hsimple : isSimpleScalar col e = false) :
    Emits (lowerInequalityElement style col e) fun full o =>
      ∃ c ∈ o, Provides style col e.contributions full c := by
  cases e with
  | range r =>
    refine Emits.bind (binds_lowerLiteral style r.start) fun lo => ?_
    refine Emits.bind (binds_lowerLiteral style r.stop) fun hi => Emits.pure fun full hhi hlo => ?_
    exact ⟨_, rfl, (SlotsProvide.value hlo).add (SlotsProvide.value hhi)⟩
  | compound cs =>
    refine Emits.bind (Emits.mapM fun c _ => provides_lowerCompare style col _ c.value) fun preds =>
      Emits.pure fun full hpreds => ⟨_, rfl, ?_⟩
    rw [Provides, Condition.slots, slots_joinOr (ne_nil_of_forall₂ hpreds he)]
    exact SlotsProvide.sum hpreds
  | constraint c => exact provides_predicate (provides_compareConstraint _ c)
  | literal l =>
    obtain ⟨d, rfl, hts⟩ := dateOnly_of_not_simple hnull hsimple
    simp only [lowerInequalityElement, dateOnly?, hts, if_true]
    refine Emits.bind (binds_lowerDayBounds (l := .temporal (.value d)) style rfl) fun p =>
      Emits.pure fun full hp => ⟨_, rfl, ?_⟩
    have hstart : SlotsProvide style col {.value _} full {.operand col p.1} := SlotsProvide.value hp
    have hbounds := hstart.add (SlotsProvide.unasked (s := .operand col p.2) rfl)
    rwa [add_zero] at hbounds

/-- The elements that are not in the `IN` list are lowered one by one. -/
private theorem provides_others {lower : ValueSetElement → LowerM (Option Condition)}
    {elements : List ValueSetElement} (h : (Operand.valueSet elements).WellFormed)
    (hlower : ∀ e : ValueSetElement, e.WellFormed → e.isNull = false →
      isSimpleScalar col e = false → Emits (lower e) fun full o =>
        ∃ c ∈ o, Provides style col e.contributions full c) :
    Emits (((elements.filter (!·.isNull)).filter (!isSimpleScalar col ·)).mapM lower)
      fun full os => List.Forall₂ (fun e o => ∃ c ∈ o, Provides style col e.contributions full c)
        ((elements.filter (!·.isNull)).filter (!isSimpleScalar col ·)) os := by
  refine Emits.mapM fun e he => ?_
  obtain ⟨hnonNull, hsimple⟩ := List.mem_filter.1 he
  obtain ⟨he, hnull⟩ := List.mem_filter.1 hnonNull
  exact hlower e (h.2 e he) (by simpa using hnull) (by simpa using hsimple)

/-- The predicates of a set: a NULL test, the list of simple scalars, and the other elements. -/
private theorem provides_pieces {elements : List ValueSetElement} (test : Condition)
    {scalars : List Condition} {others : List (Option Condition)} {full : List Scalar}
    (htest : test.slots = {.nullTest col})
    (hscalars : SlotsProvide style col (((elements.filter (!·.isNull)).filter
      (isSimpleScalar col)).map ValueSetElement.contributions).sum full
        (scalars.map Condition.slots).sum)
    (hothers : List.Forall₂ (fun e o => ∃ c ∈ o, Provides style col e.contributions full c)
      ((elements.filter (!·.isNull)).filter (!isSimpleScalar col ·)) others) :
    SlotsProvide style col (setContributions ValueSetElement.contributions elements) full
      (((if elements.any (·.isNull) then [test] else []) ++ scalars ++ others.filterMap id).map
        Condition.slots).sum := by
  have hrest := hscalars.add (SlotsProvide.sum (forall₂_filterMap hothers))
  rw [← sum_partition] at hrest
  rw [List.append_assoc, List.map_append, List.sum_append, List.map_append, List.sum_append]
  have hset := provides_set hrest
  split_ifs at hset ⊢
  · rw [List.map_singleton, List.sum_singleton, htest]
    exact hset
  · exact hset

/-- Something is left of a set, so its predicates can be joined. -/
private theorem setPieces_ne_nil {elements : List ValueSetElement} {full : List Scalar}
    {preds : List Condition} (h : (Operand.valueSet elements).WellFormed)
    (hpreds : SlotsProvide style col (setContributions ValueSetElement.contributions elements) full
      (preds.map Condition.slots).sum) : preds ≠ [] := by
  rintro rfl
  have hpos := card_setContributions_pos h
  have hle := hpreds.covered.card_le
  simp only [List.map_nil, List.sum_nil, Multiset.card_zero] at hle
  omega

include hcompound in
private theorem provides_lowerEqualitySet {elements : List ValueSetElement}
    (h : (Operand.valueSet elements).WellFormed) :
    Emits (lowerEqualitySet style compound col elements)
      (Provides style col (setContributions ValueSetElement.contributions elements)) := by
  refine Emits.bind (provides_lowerScalars (fun _ => rfl) _) fun scalars => ?_
  refine Emits.bind (provides_others h fun e => provides_lowerEqualityElement hcompound)
    fun others => Emits.pure fun full hothers hscalars => ?_
  have hpieces := provides_pieces (.isNull col) rfl hscalars hothers
  rw [Provides, slots_bracketOr (setPieces_ne_nil h hpieces)]
  exact hpieces

private theorem provides_lowerInequalitySet {elements : List ValueSetElement}
    (h : (Operand.valueSet elements).WellFormed) :
    Emits (lowerInequalitySet style col elements)
      (Provides style col (setContributions ValueSetElement.contributions elements)) := by
  refine Emits.bind (provides_lowerScalars (fun _ => rfl) _) fun scalars => ?_
  refine Emits.bind (provides_others h fun e => provides_lowerInequalityElement)
    fun others => Emits.ite (fun hany => ?_) fun hany => ?_
  all_goals
    refine Emits.pure fun full hothers hscalars => ?_
    have hpieces := provides_pieces (.isNotNull col) rfl hscalars hothers
  · rw [Provides, slots_bracketAnd (setPieces_ne_nil h hpieces)]
    exact hpieces
  · rw [Provides, Condition.slots, Condition.slots, slots_bracketAnd (setPieces_ne_nil h hpieces)]
    exact hpieces.withNullTest

private theorem provides_lowerDirectLiteral (op : ComparisonOperator) (l : LiteralValue) :
    Emits (lowerDirectLiteral style col op l)
      (Provides style col (ComparisonConstraint.mk op l).contributions) := by
  have hequals := provides_lowerEquals style col l
  by_cases hl : l = .null
  · subst hl
    exact Emits.pure fun full => provides_lowerNullTest _ col op full
  · rw [contributions_constraint hl]
    have hdirect : ∀ op, Emits (lowerDirect style col op (.literal l))
        (Provides style col {.value l}) := fun op =>
      Emits.bind (binds_lowerLiteral style l) fun p =>
        Emits.ite (fun _ => Emits.pure fun _ hp => (SlotsProvide.value hp).withNullTest)
          fun _ => Emits.pure fun _ hp => SlotsProvide.value hp
    cases l with
    | null => exact absurd rfl hl
    | _ =>
      cases op with
      | eq => exact hequals
      | _ => exact hdirect _

include hcompound in
theorem provides_lowerFieldExpression {operator : Operator} {operand : Operand}
    (h : operand.WellFormed) (hparsed : operand.Parsed operator) :
    Emits (lowerFieldExpression style compound ⟨col, operator, operand⟩)
      (Provides style col (contributions operator operand)) := by
  cases operator with
  | string op => exact provides_lowerStringOperator op h hparsed
  | comparison op =>
    cases operand with
    | literal l => exact provides_lowerDirectLiteral op l
    | range r => exact provides_lowerBetween _ col r
    | constraint c => exact hparsed.elim
    | compound cs => exact hparsed.elim
    | valueSet elements =>
      cases op with
      | eq => exact provides_lowerEqualitySet hcompound h
      | neq => exact provides_lowerInequalitySet h
      | _ => cases hparsed

end Positional

end AltrStream.Lowering
