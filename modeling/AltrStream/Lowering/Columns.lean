import AltrStream.Foundations.Emission
import AltrStream.Lowering.Places

/-! # The columns of a condition

A leaf is lowered to a condition on its own column, whatever its operator and its
operand are. So a WHERE tree is lowered to a condition on the columns of its leaves.
-/
namespace AltrStream.Lowering
open Foundations Python QueryEngine Semantics

namespace Condition

/-- The columns of a condition from left to right. -/
def columns : Condition → List BoundFieldPath
  | constant | blank => []
  | isNull c | isNotNull c | compare c _ _ | between c _ _ | notBetween c _ _ | isIn c _ | notIn c _
  | like c _ | notLike c _ => [c]
  | and l r | or l r => l.columns ++ r.columns
  | not e | group e => e.columns

/-- A condition on one column. -/
def On (col : BoundFieldPath) (c : Condition) : Prop := ∀ x ∈ c.columns, x = col

end Condition

theorem collects_columns : Collects Condition.columns where
  constant := rfl
  blank := rfl
  and _ _ := rfl
  or _ _ := rfl
  not _ := rfl
  group _ := rfl

section
variable {col : BoundFieldPath} {preds : List Condition}

theorem on_flatMap (h : ∀ c ∈ preds, c.On col) {c : Condition}
    (hc : c.columns = preds.flatMap Condition.columns) : c.On col := by
  intro x hx
  rw [hc] at hx
  obtain ⟨c', hc', hx⟩ := List.mem_flatMap.1 hx
  exact h c' hc' x hx

theorem on_joinAnd (h : ∀ c ∈ preds, c.On col) : (Condition.joinAnd preds).On col :=
  on_flatMap h (collects_columns.joinAnd _)

theorem on_joinOr (h : ∀ c ∈ preds, c.On col) : (Condition.joinOr preds).On col :=
  on_flatMap h (collects_columns.joinOr _)

theorem on_bracketAnd (h : ∀ c ∈ preds, c.On col) : (bracketAnd preds).On col :=
  on_flatMap h (collects_columns.bracketAnd _)

theorem on_bracketOr (h : ∀ c ∈ preds, c.On col) : (bracketOr preds).On col :=
  on_flatMap h (collects_columns.bracketOr _)

theorem on_anyOf (h : ∀ c ∈ preds, c.On col) : (anyOf preds).On col :=
  on_flatMap h (collects_columns.anyOf _)

theorem on_allOf (h : ∀ c ∈ preds, c.On col) : (allOf preds).On col :=
  on_flatMap h (collects_columns.allOf _)

theorem on_and {l r : Condition} (hl : l.On col) (hr : r.On col) : (l.and r).On col :=
  List.forall_mem_append.2 ⟨hl, hr⟩

theorem on_or {l r : Condition} (hl : l.On col) (hr : r.On col) : (l.or r).On col :=
  List.forall_mem_append.2 ⟨hl, hr⟩

/-- A predicate without connectives. -/
theorem on_self {c : Condition} (h : c.columns = [col]) : c.On col := by
  intro x hx
  rw [h] at hx
  exact List.mem_singleton.1 hx

/-- A NULL test beside a list of predicates. -/
theorem on_optional (test : Prop) [Decidable test] {c : Condition} (hc : c.On col) :
    ∀ c' ∈ if test then [c] else [], c'.On col := by
  intro c' hc'
  split at hc'
  · exact List.mem_singleton.1 hc' ▸ hc
  · cases hc'

/-- The predicates of the elements that have one. -/
theorem on_filterMap {found : List (Option Condition)} (h : ∀ o ∈ found, ∀ c ∈ o, c.On col) :
    ∀ c ∈ found.filterMap id, c.On col := by
  intro c hc
  obtain ⟨o, ho, hoc⟩ := List.mem_filterMap.1 hc
  exact h o ho c hoc

end

/-! ### The shared code -/

/-- The conditions that a computation returns are on one column. -/
abbrev StaysOn (col : BoundFieldPath) (m : LowerM Condition) : Prop :=
  Returns m (Condition.On col)

/-- The condition that a computation may return is on one column. -/
abbrev MayStayOn (col : BoundFieldPath) (m : LowerM (Option Condition)) : Prop :=
  Returns m fun o => ∀ c ∈ o, c.On col

section
variable (style : ParameterStyle) (col : BoundFieldPath)

theorem staysOn_around {m : LowerM SqlOperand} {f : SqlOperand → Condition}
    (hf : ∀ x, (f x).On col) : StaysOn col (do return f (← m)) :=
  Returns.after fun x => Returns.pure (hf x)

theorem staysOn_compare (op : ComparisonOperator) (l : LiteralValue) :
    StaysOn col (style.lowerCompare col op l) := staysOn_around col fun _ => on_self rfl

theorem staysOn_bounds {m m' : LowerM SqlOperand} {f : SqlOperand → SqlOperand → Condition}
    (hf : ∀ x y, (f x y).On col) : StaysOn col (do
      let lo ← m
      let hi ← m'
      return f lo hi) :=
  Returns.after fun lo => Returns.after fun hi => Returns.pure (hf lo hi)

theorem staysOn_between (r : Range) : StaysOn col (style.lowerBetween col r) :=
  staysOn_bounds col fun _ _ => on_self rfl

theorem staysOn_comparisons (op : ComparisonConstraint → ComparisonOperator)
    (cs : List ComparisonConstraint) :
    Returns (cs.mapM fun c => style.lowerCompare col (op c) c.value) fun preds =>
      ∀ c ∈ preds, c.On col :=
  Returns.mapM fun c _ => staysOn_compare style col (op c) c.value

theorem staysOn_compound (cs : List ComparisonConstraint) :
    StaysOn col (style.lowerCompound col cs) :=
  Returns.bind (staysOn_comparisons style col (·.operator) cs) fun _ h =>
    Returns.pure (on_joinAnd h)

theorem staysOn_day (d : Date) : StaysOn col (style.lowerDay col d) :=
  Returns.after fun (_, _) => Returns.pure (on_and (on_self rfl) (on_self rfl))

theorem staysOn_equals (l : LiteralValue) : StaysOn col (style.lowerEquals col l) := by
  unfold ParameterStyle.lowerEquals
  split
  · exact Returns.ite (fun _ => staysOn_day style col _) fun _ => staysOn_compare style col _ _
  · exact staysOn_compare style col _ _

theorem on_lowerNullTest (op : ComparisonOperator) : (lowerNullTest col op).On col := by
  cases op <;> exact on_self rfl

theorem staysOn_orNull {m : LowerM Condition} (hm : StaysOn col m) :
    StaysOn col (do return .group (.or (← m) (.isNull col))) :=
  Returns.bind hm fun _ h => Returns.pure (on_or h (on_self rfl))

theorem staysOn_constraint (c : ComparisonConstraint) :
    StaysOn col (style.lowerConstraint col c) := by
  unfold ParameterStyle.lowerConstraint
  split
  · exact Returns.pure (on_lowerNullTest col _)
  · exact staysOn_equals style col _
  · exact staysOn_orNull col (staysOn_compare style col _ _)
  · exact staysOn_compare style col _ _

theorem staysOn_hasElement (e : ValueSetElement) : StaysOn col (style.lowerHasElement col e) := by
  cases e with
  | range r => exact staysOn_between style col r
  | _ => exact staysOn_around col fun _ => on_self rfl

theorem staysOn_notHasElement (e : ValueSetElement) :
    StaysOn col (style.lowerNotHasElement col e) := by
  cases e with
  | range r => exact staysOn_bounds col fun _ _ => on_or (on_self rfl) (on_self rfl)
  | _ => exact staysOn_around col fun _ => on_self rfl

theorem staysOn_hasSet (elements : List ValueSetElement) :
    StaysOn col (style.lowerHasSet col elements) :=
  Returns.bind (Returns.mapM fun e _ => staysOn_hasElement style col e) fun _ h =>
    Returns.pure (on_anyOf (List.forall_mem_append.2 ⟨on_optional _ (on_self rfl), h⟩))

theorem staysOn_notHasSet (elements : List ValueSetElement) :
    StaysOn col (style.lowerNotHasSet col elements) := by
  refine Returns.bind (Returns.mapM fun e _ => staysOn_notHasElement style col e) fun _ h => ?_
  refine Returns.ite (fun _ => Returns.ite (fun _ => ?_) fun _ => ?_)
    fun _ => Returns.ite (fun _ => ?_) fun _ => ?_
  · exact Returns.pure (on_self rfl)
  · exact Returns.pure (on_and (on_bracketAnd h) (on_self rfl))
  · exact Returns.pure (on_self rfl)
  · exact Returns.pure (on_or (on_bracketAnd h) (on_self rfl))

theorem staysOn_stringOperator (op : StringOperator) (operand : Operand) :
    StaysOn col (style.lowerStringOperator col op operand) := by
  unfold ParameterStyle.lowerStringOperator
  split
  · exact staysOn_hasSet style col _
  · exact staysOn_notHasSet style col _
  · exact staysOn_around col fun _ => on_self rfl
  · exact staysOn_around col fun _ => on_self rfl
  · exact staysOn_around col fun _ => on_self rfl
  · exact staysOn_around col fun _ => on_or (on_self rfl) (on_self rfl)

end

/-! ### PostgreSQL -/

namespace PostgreSQL
variable (col : BoundFieldPath)

theorem staysOn_equalityElement (e : ValueSetElement) :
    StaysOn col (lowerEqualityElement col e) := by
  unfold lowerEqualityElement
  split
  · exact Returns.pure (on_self rfl)
  · exact staysOn_between style col _
  · split
    · exact Returns.pure (on_lowerNullTest col _)
    · exact staysOn_equals style col _
    · exact staysOn_compare style col _ _
  · exact staysOn_compound style col _
  · exact staysOn_equals style col _

theorem mayStayOn_inequalityElement (e : ValueSetElement) :
    MayStayOn col (lowerInequalityElement col e) := by
  have horNull : ∀ op l, MayStayOn col (do
      let pred ← style.lowerCompare col op l
      return some (.group (.or pred (.isNull col)))) := fun op l =>
    Returns.bind (staysOn_compare style col op l) fun _ h => Returns.pure fun c hc =>
      Option.mem_some.1 hc ▸ on_or h (on_self rfl)
  unfold lowerInequalityElement
  split
  · exact Returns.pure fun c hc => Option.mem_some.1 hc ▸ on_self rfl
  · exact Returns.after fun _ => Returns.after fun _ => Returns.pure fun c hc =>
      Option.mem_some.1 hc ▸ on_or (on_or (on_self rfl) (on_self rfl)) (on_self rfl)
  · split
    · exact Returns.pure fun c hc => Option.mem_some.1 hc ▸ on_self rfl
    · exact Returns.pure fun c hc => Option.mem_some.1 hc ▸ on_self rfl
    · exact Returns.pure fun c hc => nomatch hc
    · exact horNull _ _
  · exact Returns.pure fun c hc => nomatch hc
  · exact horNull _ _

theorem staysOn_equalitySet (elements : List ValueSetElement) :
    StaysOn col (lowerEqualitySet col elements) := by
  unfold lowerEqualitySet
  dsimp only
  split
  · exact Returns.pure (on_self rfl)
  · exact staysOn_around col fun _ => on_or (on_self rfl) (on_self rfl)
  · exact Returns.after fun _ => Returns.pure (on_or (on_self rfl) (on_self rfl))
  · exact Returns.after fun _ => Returns.pure (on_self rfl)
  · exact Returns.bind (Returns.mapM fun e _ => staysOn_equalityElement col e) fun _ h =>
      Returns.pure (on_anyOf h)

theorem staysOn_inequalitySet (elements : List ValueSetElement) :
    StaysOn col (lowerInequalitySet col elements) := by
  unfold lowerInequalitySet
  dsimp only
  split
  · exact Returns.pure (on_self rfl)
  · exact staysOn_around col fun _ => on_and (on_self rfl) (on_self rfl)
  · exact Returns.after fun _ => Returns.pure (on_and (on_self rfl) (on_self rfl))
  · exact Returns.after fun _ => Returns.pure (on_or (on_self rfl) (on_self rfl))
  · exact Returns.bind (Returns.mapM fun e _ => mayStayOn_inequalityElement col e) fun _ h =>
      Returns.pure (on_allOf (on_filterMap h))

theorem staysOn_directLiteral (op : ComparisonOperator) (l : LiteralValue) :
    StaysOn col (lowerDirectLiteral col op l) := by
  unfold lowerDirectLiteral
  split
  · exact Returns.pure (on_lowerNullTest col _)
  · exact staysOn_equals style col _
  · exact staysOn_compare style col _ _
  · exact staysOn_orNull col (staysOn_compare style col _ _)
  · exact staysOn_compare style col _ _

theorem staysOn_lowerFieldExpression (leaf : BoundFieldExpression) :
    StaysOn leaf.field (lowerFieldExpression leaf) := by
  obtain ⟨col, op, operand⟩ := leaf
  cases op with
  | string op => exact staysOn_stringOperator style col op operand
  | comparison op =>
    cases operand with
    | literal l => exact staysOn_directLiteral col op l
    | range r => exact staysOn_between style col r
    | compound cs => exact staysOn_compound style col cs
    | constraint c => exact staysOn_constraint style col c
    | valueSet elements =>
      cases op with
      | eq => exact staysOn_equalitySet col elements
      | neq => exact staysOn_inequalitySet col elements
      | _ => exact staysOn_around col fun _ => on_self rfl

end PostgreSQL

/-! ### MySQL and SQLite -/

namespace Positional
variable (style : ParameterStyle) (col : BoundFieldPath)
  {compound : BoundFieldPath → List ComparisonConstraint → LowerM Condition}

theorem mayStayOn_some {m : LowerM Condition} (hm : StaysOn col m) :
    MayStayOn col (do return some (← m)) :=
  Returns.bind hm fun _ h => Returns.pure fun _ hc => Option.mem_some.1 hc ▸ h

theorem mayStayOn_equalityElement (hcompound : ∀ cs, StaysOn col (compound col cs))
    (e : ValueSetElement) : MayStayOn col (lowerEqualityElement style compound col e) := by
  have hnone : MayStayOn col (pure none) := Returns.pure fun c hc => nomatch hc
  unfold lowerEqualityElement
  split
  · exact mayStayOn_some col (staysOn_between style col _)
  · exact mayStayOn_some col (staysOn_compare style col _ _)
  · exact mayStayOn_some col (hcompound _)
  · split
    · exact Returns.ite (fun _ => mayStayOn_some col (staysOn_day style col _)) fun _ => hnone
    · exact hnone

theorem mayStayOn_inequalityElement (e : ValueSetElement) :
    MayStayOn col (lowerInequalityElement style col e) := by
  have hnone : MayStayOn col (pure none) := Returns.pure fun c hc => nomatch hc
  unfold lowerInequalityElement
  split
  · exact Returns.after fun _ => Returns.after fun _ => Returns.pure fun c hc =>
      Option.mem_some.1 hc ▸ on_self rfl
  · exact mayStayOn_some col (staysOn_compare style col _ _)
  · refine Returns.bind (staysOn_comparisons style col _ _) fun _ h => Returns.pure fun c hc => ?_
    exact Option.mem_some.1 hc ▸ on_joinOr h
  · split
    · refine Returns.ite (fun _ => Returns.after fun (_, _) => Returns.pure fun c hc => ?_)
        fun _ => hnone
      exact Option.mem_some.1 hc ▸ on_or (on_self rfl) (on_self rfl)
    · exact hnone

theorem staysOn_scalars {f : List SqlOperand → Condition} (hf : ∀ xs, (f xs).On col)
    (nonNull : List ValueSetElement) :
    Returns (lowerScalars style col f nonNull) fun preds => ∀ c ∈ preds, c.On col := by
  unfold lowerScalars
  split
  · exact Returns.pure fun c hc => nomatch hc
  · exact Returns.after fun xs => Returns.pure fun c hc => List.mem_singleton.1 hc ▸ hf xs

theorem staysOn_equalitySet (hcompound : ∀ cs, StaysOn col (compound col cs))
    (elements : List ValueSetElement) :
    StaysOn col (lowerEqualitySet style compound col elements) := by
  refine Returns.bind (staysOn_scalars style col (fun _ => on_self rfl) _) fun _ hs => ?_
  refine Returns.bind (Returns.mapM fun e _ => mayStayOn_equalityElement style col hcompound e)
    fun _ ho => Returns.pure (on_bracketOr ?_)
  exact List.forall_mem_append.2
    ⟨List.forall_mem_append.2 ⟨on_optional _ (on_self rfl), hs⟩, on_filterMap ho⟩

theorem staysOn_inequalitySet (elements : List ValueSetElement) :
    StaysOn col (lowerInequalitySet style col elements) := by
  refine Returns.bind (staysOn_scalars style col (fun _ => on_self rfl) _) fun _ hs => ?_
  refine Returns.bind (Returns.mapM fun e _ => mayStayOn_inequalityElement style col e)
    fun _ ho => ?_
  have hall := on_bracketAnd (List.forall_mem_append.2 ⟨List.forall_mem_append.2
    ⟨on_optional (elements.any (·.isNull) = true) (c := .isNotNull col) (on_self rfl), hs⟩,
    on_filterMap ho⟩)
  exact Returns.ite (fun _ => Returns.pure hall) fun _ => Returns.pure (on_or hall (on_self rfl))

theorem staysOn_direct (op : ComparisonOperator) (operand : Operand) :
    StaysOn col (lowerDirect style col op operand) := by
  refine Returns.after fun _ => Returns.ite (fun _ => Returns.pure ?_) fun _ => Returns.pure ?_
  · exact on_or (on_self rfl) (on_self rfl)
  · exact on_self rfl

theorem staysOn_directLiteral (op : ComparisonOperator) (l : LiteralValue) :
    StaysOn col (lowerDirectLiteral style col op l) := by
  unfold lowerDirectLiteral
  split
  · exact Returns.pure (on_lowerNullTest col _)
  · exact staysOn_equals style col _
  · exact staysOn_direct style col _ _

theorem staysOn_lowerFieldExpression (hcompound : ∀ col cs, StaysOn col (compound col cs))
    (leaf : BoundFieldExpression) :
    StaysOn leaf.field (lowerFieldExpression style compound leaf) := by
  obtain ⟨col, op, operand⟩ := leaf
  cases op with
  | string op => exact staysOn_stringOperator style col op operand
  | comparison op =>
    cases operand with
    | literal l => exact staysOn_directLiteral style col op l
    | range r => exact staysOn_between style col r
    | compound cs => exact staysOn_compound style col cs
    | constraint c => exact staysOn_constraint style col c
    | valueSet elements =>
      cases op with
      | eq => exact staysOn_equalitySet style col (hcompound col) elements
      | neq => exact staysOn_inequalitySet style col elements
      | _ => exact staysOn_direct style col _ _

end Positional
end AltrStream.Lowering
