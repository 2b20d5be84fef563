import AltrStream.Lowering.Places

/-! # The places of value sets

PostgreSQL writes the elements of a set in their order. MySQL and SQLite write the
simple scalars first, all in one `IN` list, and the other elements after them.
-/
namespace AltrStream.Lowering
open Foundations Python QueryEngine Semantics

section
variable (style : ParameterStyle) (col : BoundFieldPath)

theorem writes_lowerOperand (l : LiteralValue) :
    WritesOperand style (style.lowerOperand (.literal l)) [.literal l] := writes_lowerLiteral style l

/-- An operand that is not a literal has no value, and None is bound for it. -/
theorem writes_missing : WritesOperand style (addParam .none) [.missing] :=
  writes_addParam style rfl fun _ => rfl

private theorem flatMap_filterMap_id (preds : List (Option Condition)) :
    (preds.filterMap id).flatMap Condition.operands =
      preds.flatMap (·.elim [] Condition.operands) := by
  induction preds with
  | nil => rfl
  | cons pred preds ih =>
    cases pred with
    | none => exact ih
    | some c => exact congrArg (c.operands ++ ·) ih

/-- Predicates, some of which are left out. -/
theorem writes_optionals {f : ValueSetElement → LowerM (Option Condition)}
    {places : ValueSetElement → List Place} {elements : List ValueSetElement}
    (h : ∀ e ∈ elements, WritesOptional style (f e) (places e)) :
    WritesOperands style (fun preds => (preds.filterMap id).flatMap Condition.operands)
      (elements.mapM f) (elements.flatMap places) :=
  (Writes.mapM h).mono fun _ preds hxs => (flatMap_filterMap_id preds).trans hxs

/-- A predicate that is there. -/
theorem writes_some {m : LowerM Condition} {places : List Place}
    (hm : WritesCondition style m places) :
    WritesOptional style (do return some (← m)) places :=
  hm.bind_pure fun _ _ hxs => hxs

end

/-! ### PostgreSQL -/

namespace PostgreSQL

def elementPlaces : ValueSetElement → List Place
  | .literal l => [.literal l]
  | _ => [.missing]

def equalityPlaces (col : BoundFieldPath) : ValueSetElement → List Place
  | .literal .null => []
  | .range r => rangePlaces r
  | .constraint c => constraintPlaces col c
  | .compound cs => compoundPlaces cs
  | .literal l => equalsPlaces col l

/-- A compound constraint and an ordering against NULL have no branch under `!=`. -/
def inequalityPlaces : ValueSetElement → List Place
  | .literal .null => []
  | .range r => rangePlaces r
  | .constraint c => if c.value = .null then [] else [.literal c.value]
  | .compound _ => []
  | .literal l => [.literal l]

def setPlaces (col : BoundFieldPath) (negated : Bool) (elements : List ValueSetElement) :
    List Place :=
  let nonNull := elements.filter (!·.isNull)
  if allSimple col nonNull then nonNull.flatMap elementPlaces
  else if negated then elements.flatMap inequalityPlaces
  else elements.flatMap (equalityPlaces col)

variable (col : BoundFieldPath)

theorem writes_lowerElement (e : ValueSetElement) :
    WritesOperand style (style.lowerElement e) (elementPlaces e) := by
  cases e with
  | literal l => exact writes_lowerLiteral style l
  | _ => exact writes_missing style

theorem writes_lowerEqualityElement (e : ValueSetElement) :
    WritesCondition style (lowerEqualityElement col e) (equalityPlaces col e) := by
  cases e with
  | range r => exact writes_lowerBetween style col r
  | compound cs => exact writes_lowerCompound style col cs
  | literal l =>
    cases l with
    | null => exact Writes.pure rfl
    | _ =>
      dsimp only [lowerEqualityElement, equalityPlaces]
      exact writes_lowerEquals style col _
  | constraint c =>
    obtain ⟨op, l⟩ := c
    cases l with
    | null => exact writes_lowerNullTest style col op
    | _ =>
      cases op with
      | eq =>
        dsimp only [lowerEqualityElement, equalityPlaces, constraintPlaces]
        exact writes_lowerEquals style col _
      | _ => exact writes_lowerCompare style col _ _

theorem writes_lowerInequalityElement (e : ValueSetElement) :
    WritesOptional style (lowerInequalityElement col e) (inequalityPlaces e) := by
  have horNull : ∀ op l, WritesOptional style (do
      let pred ← style.lowerCompare col op l
      return some (.group (.or pred (.isNull col)))) [.literal l] := fun op l =>
    (writes_lowerCompare style col op l).bind_pure fun c xs hxs => by
      rw [← hxs]
      simp [Condition.operands]
  cases e with
  | range r =>
    exact Writes.bind (writes_lowerLiteral style r.start) fun lo =>
      (writes_lowerLiteral style r.stop).bind_pure fun hi ys hys xs hxs => by
        rw [← hxs, ← hys]
        rfl
  | compound cs => exact Writes.pure rfl
  | literal l =>
    cases l with
    | null => exact Writes.pure rfl
    | _ => exact horNull .neq _
  | constraint c =>
    obtain ⟨op, l⟩ := c
    cases l with
    | null => cases op <;> exact Writes.pure rfl
    | _ => exact horNull _ _

/-- The elements of an `IN` list. -/
theorem writes_elements {f : List SqlOperand → Condition} (hf : ∀ xs, (f xs).operands = xs)
    (es : List ValueSetElement) :
    WritesCondition style (do return f (← es.mapM style.lowerElement)) (es.flatMap elementPlaces) :=
  (Writes.mapM fun e _ => writes_lowerElement e).bind_pure fun xs ys hys => by
    rw [hf, ← hys, List.flatMap_singleton']

/-- A set that is neither all simple scalars nor all NULL is lowered element by element. -/
private theorem not_allSimple_of_empty {elements : List ValueSetElement}
    (hnull : elements.any (·.isNull) = false) (hnil : elements.filter (!·.isNull) = []) :
    elements = [] := by
  by_contra hne
  rw [any_isNull_of_filter_eq_nil hne hnil] at hnull
  cases hnull

theorem writes_lowerEqualitySet (elements : List ValueSetElement) :
    WritesCondition style (lowerEqualitySet col elements) (setPlaces col false elements) := by
  have hlist : ∀ es : List ValueSetElement, WritesCondition style
      (do return .group (.or (.isIn col (← es.mapM style.lowerElement)) (.isNull col)))
      (es.flatMap elementPlaces) := writes_elements fun xs => by simp [Condition.operands]
  have hone : ∀ e, WritesCondition style
      (do return .group (.or (.compare col .eq (← style.lowerElement e)) (.isNull col)))
      ([e].flatMap elementPlaces) := fun e => by
    rw [List.flatMap_singleton]
    exact writes_around style (writes_lowerElement e) fun _ => rfl
  have heach : WritesCondition style
      (do return anyOf (← elements.mapM (lowerEqualityElement col)))
      (elements.flatMap (equalityPlaces col)) :=
    (Writes.mapM fun e _ => writes_lowerEqualityElement col e).bind_pure fun _ _ hxs =>
      (operands_anyOf _).trans hxs
  unfold lowerEqualitySet setPlaces
  dsimp only
  generalize hnonNull : elements.filter (!·.isNull) = nonNull
  cases hsimple : allSimple col nonNull with
  | false => exact heach
  | true =>
    rw [if_pos rfl]
    cases hnull : elements.any (·.isNull) with
    | true =>
      obtain _ | ⟨e, _ | ⟨e', es⟩⟩ := nonNull
      · exact Writes.pure rfl
      · exact hone e
      · exact hlist (e :: e' :: es)
    | false =>
      cases nonNull with
      | nil =>
        rw [not_allSimple_of_empty hnull hnonNull] at heach ⊢
        exact heach
      | cons e es => exact writes_elements (fun _ => rfl) (e :: es)

theorem writes_lowerInequalitySet (elements : List ValueSetElement) :
    WritesCondition style (lowerInequalitySet col elements) (setPlaces col true elements) := by
  have hlist : ∀ es : List ValueSetElement, WritesCondition style
      (do return .group (.and (.notIn col (← es.mapM style.lowerElement)) (.isNotNull col)))
      (es.flatMap elementPlaces) := writes_elements fun xs => by simp [Condition.operands]
  have hone : ∀ e, WritesCondition style
      (do return .group (.and (.compare col .neq (← style.lowerElement e)) (.isNotNull col)))
      ([e].flatMap elementPlaces) := fun e => by
    rw [List.flatMap_singleton]
    exact writes_around style (writes_lowerElement e) fun _ => rfl
  have heach : WritesCondition style
      (do return allOf ((← elements.mapM (lowerInequalityElement col)).filterMap id))
      (elements.flatMap inequalityPlaces) :=
    (writes_optionals style fun e _ => writes_lowerInequalityElement col e).bind_pure
      fun _ _ hxs => (operands_allOf _).trans hxs
  unfold lowerInequalitySet setPlaces
  dsimp only
  generalize hnonNull : elements.filter (!·.isNull) = nonNull
  cases hsimple : allSimple col nonNull with
  | false => exact heach
  | true =>
    rw [if_pos rfl]
    cases hnull : elements.any (·.isNull) with
    | true =>
      obtain _ | ⟨e, _ | ⟨e', es⟩⟩ := nonNull
      · exact Writes.pure rfl
      · exact hone e
      · exact hlist (e :: e' :: es)
    | false =>
      cases nonNull with
      | nil =>
        rw [not_allSimple_of_empty hnull hnonNull] at heach ⊢
        exact heach
      | cons e es => exact writes_elements (fun xs => by simp [Condition.operands]) (e :: es)

theorem writes_lowerDirectLiteral (op : ComparisonOperator) (l : LiteralValue) :
    WritesCondition style (lowerDirectLiteral col op l) (constraintPlaces col ⟨op, l⟩) := by
  cases l with
  | null => exact writes_lowerNullTest style col op
  | temporal t =>
    cases op with
    | eq => exact writes_lowerEquals style col (.temporal t)
    | _ => exact writes_lowerCompare style col _ (.temporal t)
  | _ =>
    cases op with
    | eq =>
      dsimp only [lowerDirectLiteral, constraintPlaces]
      exact writes_lowerEquals style col _
    | neq => exact writes_orNull style col (writes_lowerCompare style col .neq _)
    | _ => exact writes_lowerCompare style col _ _

/-- A comparison is written in the places of its leaf. -/
theorem writes_lowerFieldExpression (leaf : BoundFieldExpression) :
    WritesCondition style (lowerFieldExpression leaf) (leafPlaces setPlaces leaf) := by
  obtain ⟨col, op, operand⟩ := leaf
  cases op with
  | string op => exact writes_lowerStringOperator style col op operand
  | comparison op =>
    cases operand with
    | range r => exact writes_lowerBetween style col r
    | compound cs => exact writes_lowerCompound style col cs
    | constraint c => exact writes_lowerConstraint style col c
    | valueSet elements =>
      cases op with
      | eq => exact writes_lowerEqualitySet col elements
      | neq => exact writes_lowerInequalitySet col elements
      | _ => exact writes_around style (writes_missing style) fun _ => rfl
    | literal l => exact writes_lowerDirectLiteral col op l

end PostgreSQL

/-! ### MySQL and SQLite -/

namespace Positional

/-- The literals of an `IN` list are bound as they are, keywords included. -/
def scalarPlaces : ValueSetElement → List Place
  | .literal l => [.bound l]
  | _ => [.missing]

/-- The places of an element that is not in the `IN` list. -/
def elementPlaces (col : BoundFieldPath) : ValueSetElement → List Place
  | .range r => rangePlaces r
  | .constraint c => [.literal c.value]
  | .compound cs => compoundPlaces cs
  | .literal l =>
    match dateOnly? l with
    | some d => if col.isTimestampField then dayPlaces d else []
    | none => []

def setPlaces (col : BoundFieldPath) (_ : Bool) (elements : List ValueSetElement) : List Place :=
  let nonNull := elements.filter (!·.isNull)
  (nonNull.filter (isSimpleScalar col)).flatMap scalarPlaces ++
    (nonNull.filter (!isSimpleScalar col ·)).flatMap (elementPlaces col)

variable (style : ParameterStyle)
  {compound : BoundFieldPath → List ComparisonConstraint → LowerM Condition} (col : BoundFieldPath)

theorem writes_lowerScalar (e : ValueSetElement) :
    WritesOperand style (lowerScalar style e) (scalarPlaces e) := by
  cases e with
  | literal l => exact writes_addParam style rfl fun _ => by cases l <;> rfl
  | _ => exact writes_missing style

theorem writes_lowerEqualityElement
    (hcompound : ∀ cs, WritesCondition style (compound col cs) (compoundPlaces cs))
    (e : ValueSetElement) :
    WritesOptional style (lowerEqualityElement style compound col e) (elementPlaces col e) := by
  cases e with
  | range r => exact writes_some style (writes_lowerBetween style col r)
  | constraint c => exact writes_some style (writes_lowerCompare style col c.operator c.value)
  | compound cs => exact writes_some style (hcompound cs)
  | literal l =>
    unfold lowerEqualityElement elementPlaces
    dsimp only
    cases dateOnly? l with
    | none => exact Writes.pure rfl
    | some d =>
      dsimp only
      split_ifs
      · exact writes_some style (writes_lowerDay style col d)
      · exact Writes.pure rfl

theorem writes_lowerInequalityElement (e : ValueSetElement) :
    WritesOptional style (lowerInequalityElement style col e) (elementPlaces col e) := by
  cases e with
  | range r =>
    exact Writes.bind (writes_lowerLiteral style r.start) fun lo =>
      (writes_lowerLiteral style r.stop).bind_pure fun hi ys hys xs hxs => by
        rw [← hxs, ← hys]
        rfl
  | constraint c => exact writes_some style (writes_lowerCompare style col _ c.value)
  | compound cs =>
    exact (writes_comparisons style col _ cs).bind_pure fun _ _ hxs => (operands_joinOr _).trans hxs
  | literal l =>
    unfold lowerInequalityElement elementPlaces
    dsimp only
    cases dateOnly? l with
    | none => exact Writes.pure rfl
    | some d =>
      dsimp only
      split_ifs
      · exact writes_lowerDayBounds
          (f := fun p q => some (Condition.group (.or (.compare col .lt p) (.compare col .gte q))))
          style d fun _ _ => rfl
      · exact Writes.pure rfl

/-- The `IN` list, if there is one. -/
theorem writes_lowerScalars {f : List SqlOperand → Condition} (hf : ∀ xs, (f xs).operands = xs)
    (nonNull : List ValueSetElement) :
    WritesOperands style (List.flatMap Condition.operands) (lowerScalars style col f nonNull)
      ((nonNull.filter (isSimpleScalar col)).flatMap scalarPlaces) := by
  unfold lowerScalars
  cases nonNull.filter (isSimpleScalar col) with
  | nil => exact Writes.pure rfl
  | cons e es =>
    refine (Writes.mapM fun e _ => writes_lowerScalar style e).bind_pure fun xs ys hys => ?_
    rw [List.flatMap_singleton, hf, ← hys, List.flatMap_singleton']

theorem writes_lowerEqualitySet
    (hcompound : ∀ cs, WritesCondition style (compound col cs) (compoundPlaces cs))
    (elements : List ValueSetElement) :
    WritesCondition style (lowerEqualitySet style compound col elements)
      (setPlaces col false elements) := by
  unfold lowerEqualitySet setPlaces
  dsimp only
  refine Writes.bind (writes_lowerScalars style col (fun _ => rfl) _) fun scalars =>
    (writes_optionals style fun e _ => writes_lowerEqualityElement style col hcompound e).bind_pure
      fun others ys hys xs hxs => ?_
  rw [operands_bracketOr, List.flatMap_append, List.flatMap_append, hxs, ← hys]
  split <;> rfl

theorem writes_lowerInequalitySet (elements : List ValueSetElement) :
    WritesCondition style (lowerInequalitySet style col elements) (setPlaces col true elements) := by
  unfold lowerInequalitySet setPlaces
  dsimp only
  rw [← List.append_nil ((elements.filter _).filter _ |>.flatMap (elementPlaces col))]
  refine Writes.bind (writes_lowerScalars style col (fun _ => rfl) _) fun scalars =>
    Writes.bind (writes_optionals style fun e _ => writes_lowerInequalityElement style col e)
      fun others => ?_
  have hconjunction : ∀ ys, (others.filterMap id).flatMap Condition.operands = ys → ∀ xs,
      scalars.flatMap Condition.operands = xs →
      (bracketAnd ((if elements.any (·.isNull) then [Condition.isNotNull col] else []) ++ scalars ++
        others.filterMap id)).operands = xs ++ ys := by
    intro ys hys xs hxs
    rw [operands_bracketAnd, List.flatMap_append, List.flatMap_append, hxs, hys]
    split <;> rfl
  refine Writes.ite (fun _ => Writes.pure fun ys hys xs hxs => ?_)
    fun _ => Writes.pure fun ys hys xs hxs => ?_
  · rw [hconjunction ys hys xs hxs, List.append_nil]
  · rw [Condition.operands, Condition.operands, hconjunction ys hys xs hxs, List.append_assoc]
    rfl

/-- An operand that is compared with the column, with a NULL test beside `!=`. -/
theorem writes_lowerDirect (op : ComparisonOperator) {operand : Operand} {place : Place}
    (hoperand : WritesOperand style (style.lowerOperand operand) [place]) :
    WritesCondition style (lowerDirect style col op operand) [place] := by
  rw [← List.append_nil [place]]
  refine Writes.bind hoperand fun x => Writes.ite (fun _ => Writes.pure fun xs hxs => ?_)
    fun _ => Writes.pure fun xs hxs => ?_
  · rw [← hxs]
    rfl
  · rw [← hxs]
    rfl

theorem writes_lowerDirectLiteral (op : ComparisonOperator) (l : LiteralValue) :
    WritesCondition style (lowerDirectLiteral style col op l) (constraintPlaces col ⟨op, l⟩) := by
  cases l with
  | null => exact writes_lowerNullTest style col op
  | _ =>
    cases op with
    | eq =>
      dsimp only [lowerDirectLiteral, constraintPlaces]
      exact writes_lowerEquals style col _
    | _ => exact writes_lowerDirect style col _ (writes_lowerOperand style _)

/-- A comparison is written in the places of its leaf. -/
theorem writes_lowerFieldExpression
    (hcompound : ∀ col cs, WritesCondition style (compound col cs) (compoundPlaces cs))
    (leaf : BoundFieldExpression) :
    WritesCondition style (lowerFieldExpression style compound leaf) (leafPlaces setPlaces leaf) := by
  obtain ⟨col, op, operand⟩ := leaf
  cases op with
  | string op => exact writes_lowerStringOperator style col op operand
  | comparison op =>
    cases operand with
    | literal l => exact writes_lowerDirectLiteral style col op l
    | range r => exact writes_lowerBetween style col r
    | compound cs => exact writes_lowerCompound style col cs
    | constraint c => exact writes_lowerConstraint style col c
    | valueSet elements =>
      cases op with
      | eq => exact writes_lowerEqualitySet style col (hcompound col) elements
      | neq => exact writes_lowerInequalitySet style col elements
      | _ => exact writes_lowerDirect style col _ (writes_missing style)

end Positional

namespace SqlSource

def setPlaces : SqlSource → BoundFieldPath → Bool → List ValueSetElement → List Place
  | postgresql => PostgreSQL.setPlaces
  | mysql | sqlite => Positional.setPlaces

/-- Every lowerer writes a leaf in its places. -/
theorem writes_leaf (src : SqlSource) (leaf : BoundFieldExpression) :
    WritesCondition src.lowerer.style (src.lowerer.lowerFieldExpression leaf)
      (leafPlaces src.setPlaces leaf) := by
  cases src with
  | postgresql => exact PostgreSQL.writes_lowerFieldExpression leaf
  | mysql =>
    exact Positional.writes_lowerFieldExpression _ (writes_lowerCompound MySQL.style) leaf
  | sqlite =>
    exact Positional.writes_lowerFieldExpression _ (fun _ _ => Writes.throw) leaf

end SqlSource

end AltrStream.Lowering
