import AltrStream.Foundations.Emission
import AltrStream.Lowering.Registry

/-! # The places of a statement's operands

Every operand of a lowered statement stands where the query has a literal, a text
to look for or the bounds of a day. The places of a leaf are read off the leaf
alone, in the order in which its predicate is written, and the lowering code
appends one parameter for each place that needs one, in that order.
-/
namespace AltrStream.Lowering
open Foundations Python QueryEngine Semantics

/-- What stands at an operand position. -/
inductive Place where
  /-- A literal as `lower_literal` writes it: NULL and the keywords need no parameter. -/
  | literal (l : LiteralValue)
  /-- A literal that is bound as a parameter whatever it is. -/
  | bound (l : LiteralValue)
  | pattern (text : List Char)
  | dayBound (t : DateTime)
  /-- An operand that is not a literal. -/
  | missing
  deriving DecidableEq

def ParameterStyle.marking (style : ParameterStyle) : Marking Place Scalar SqlOperand where
  entry
    | .literal .null | .literal (.temporal (.keyword _)) => none
    | .literal l | .bound l => some (style.convertLiteralToParameter l)
    | .pattern text => some (.str (String.ofList text))
    | .dayBound t => some (style.dayBound t)
    | .missing => some .none
  mark
    | .literal .null, _ => .null
    | .literal (.temporal (.keyword k)), _ => .current k
    | _, n => .param n

/-- The operands of a condition from left to right. -/
def Condition.operands : Condition → List SqlOperand
  | constant | blank | isNull _ | isNotNull _ => []
  | compare _ _ x | like _ x | notLike _ x => [x]
  | between _ lo hi | notBetween _ lo hi => [lo, hi]
  | isIn _ xs | notIn _ xs => xs
  | and l r | or l r => l.operands ++ r.operands
  | not e | group e => e.operands

/-! ### The places of a leaf -/

def rangePlaces (r : Range) : List Place := [.literal r.start, .literal r.stop]

def dayPlaces (d : Date) : List Place :=
  .dayBound (.ofDate d) :: ((DateTime.ofDate d).addDay?.map Place.dayBound).toList

def compoundPlaces (cs : List ComparisonConstraint) : List Place := cs.map fun c => .literal c.value

/-- `= literal`, where a date that meets a timestamp column stands for its day. -/
def equalsPlaces (col : BoundFieldPath) (l : LiteralValue) : List Place :=
  match dateOnly? l with
  | some d => if col.isTimestampField then dayPlaces d else [.literal l]
  | none => [.literal l]

/-- A NULL test has no operand, an ordering against NULL has. -/
def nullTestPlaces : ComparisonOperator → List Place
  | .eq | .neq => []
  | _ => [.literal .null]

/-- A literal that is compared with the column. -/
def constraintPlaces (col : BoundFieldPath) (c : ComparisonConstraint) : List Place :=
  match c.value, c.operator with
  | .null, op => nullTestPlaces op
  | l, .eq => equalsPlaces col l
  | l, _ => [.literal l]

def textPlaces : ValueSetElement → List Place
  | .range r => rangePlaces r
  | e => [.pattern (ParameterStyle.infixPattern (elementText e))]

def stringPlaces (op : StringOperator) (operand : Operand) : List Place :=
  match op, operand with
  | .has, .valueSet elements | .notHas, .valueSet elements =>
    (elements.filter (!·.isNull)).flatMap textPlaces
  | .starts, _ => [.pattern (escapeLikeOperand (operandText operand) ++ ['%'])]
  | .ends, _ => [.pattern ('%' :: escapeLikeOperand (operandText operand))]
  | _, _ => [.pattern (ParameterStyle.infixPattern (operandText operand))]

/-- The places of a leaf, given those of a set after `=` or, if the flag is set, `!=`. -/
def leafPlaces (setPlaces : BoundFieldPath → Bool → List ValueSetElement → List Place)
    (leaf : BoundFieldExpression) : List Place :=
  match leaf.operator, leaf.operand with
  | .string op, operand => stringPlaces op operand
  | .comparison op, .literal l => constraintPlaces leaf.field ⟨op, l⟩
  | .comparison _, .range r => rangePlaces r
  | .comparison _, .compound cs => compoundPlaces cs
  | .comparison _, .constraint c => constraintPlaces leaf.field c
  | .comparison .eq, .valueSet elements => setPlaces leaf.field false elements
  | .comparison .neq, .valueSet elements => setPlaces leaf.field true elements
  | .comparison _, .valueSet _ => [.missing]

/-! ### Operands of joined conditions -/

/-- A list that is read off a condition from left to right. -/
structure Collects {α : Type} (f : Condition → List α) : Prop where
  constant : f .constant = []
  blank : f .blank = []
  and (l r : Condition) : f (.and l r) = f l ++ f r
  or (l r : Condition) : f (.or l r) = f l ++ f r
  not (c : Condition) : f (.not c) = f c
  group (c : Condition) : f (.group c) = f c

namespace Collects
variable {α : Type} {f : Condition → List α}

private theorem foldl {join : Condition → Condition → Condition}
    (hjoin : ∀ l r, f (join l r) = f l ++ f r) (c : Condition) (cs : List Condition) :
    f (cs.foldl join c) = f c ++ cs.flatMap f := by
  induction cs generalizing c with
  | nil => simp
  | cons c' cs ih => rw [List.foldl_cons, ih, hjoin, List.flatMap_cons, List.append_assoc]

variable (hf : Collects f)
include hf

theorem joinAnd (cs : List Condition) : f (Condition.joinAnd cs) = cs.flatMap f := by
  cases cs with
  | nil => exact hf.blank
  | cons c cs => exact foldl hf.and c cs

theorem joinOr (cs : List Condition) : f (Condition.joinOr cs) = cs.flatMap f := by
  cases cs with
  | nil => exact hf.blank
  | cons c cs => exact foldl hf.or c cs

theorem bracketAnd (cs : List Condition) : f (bracketAnd cs) = cs.flatMap f := by
  match cs with
  | [] | _ :: _ :: _ => exact (hf.group _).trans (hf.joinAnd _)
  | [c] => simp [Lowering.bracketAnd]

theorem bracketOr (cs : List Condition) : f (bracketOr cs) = cs.flatMap f := by
  match cs with
  | [] | _ :: _ :: _ => exact (hf.group _).trans (hf.joinOr _)
  | [c] => simp [Lowering.bracketOr]

theorem anyOf (cs : List Condition) : f (anyOf cs) = cs.flatMap f := by
  cases cs with
  | nil => exact hf.constant
  | cons c cs => exact hf.bracketOr _

theorem allOf (cs : List Condition) : f (allOf cs) = cs.flatMap f := by
  cases cs with
  | nil => exact hf.constant
  | cons c cs => exact hf.bracketAnd _

theorem negate (d : SqlDialect) (c : Condition) : f (negate d c) = f c := by
  unfold Lowering.negate
  simp only []
  split
  · exact hf.not c
  · exact (hf.not _).trans (hf.group c)

end Collects

theorem collects_operands : Collects Condition.operands where
  constant := rfl
  blank := rfl
  and _ _ := rfl
  or _ _ := rfl
  not _ := rfl
  group _ := rfl

@[simp] theorem operands_joinAnd (cs : List Condition) :
    (Condition.joinAnd cs).operands = cs.flatMap Condition.operands := collects_operands.joinAnd cs

@[simp] theorem operands_joinOr (cs : List Condition) :
    (Condition.joinOr cs).operands = cs.flatMap Condition.operands := collects_operands.joinOr cs

@[simp] theorem operands_bracketAnd (cs : List Condition) :
    (bracketAnd cs).operands = cs.flatMap Condition.operands := collects_operands.bracketAnd cs

@[simp] theorem operands_bracketOr (cs : List Condition) :
    (bracketOr cs).operands = cs.flatMap Condition.operands := collects_operands.bracketOr cs

@[simp] theorem operands_anyOf (cs : List Condition) :
    (anyOf cs).operands = cs.flatMap Condition.operands := collects_operands.anyOf cs

@[simp] theorem operands_allOf (cs : List Condition) :
    (allOf cs).operands = cs.flatMap Condition.operands := collects_operands.allOf cs

@[simp] theorem operands_negate (d : SqlDialect) (c : Condition) :
    (negate d c).operands = c.operands := collects_operands.negate d c

/-! ### What the shared code writes -/

/-- A computation that writes the operands of its result. -/
abbrev WritesOperands (style : ParameterStyle) {α : Type} (operands : α → List SqlOperand)
    (m : LowerM α) (places : List Place) : Prop :=
  Writes style.marking m places fun xs a => operands a = xs

section
variable (style : ParameterStyle) (col : BoundFieldPath)

/-- A predicate. -/
abbrev WritesCondition (m : LowerM Condition) (places : List Place) : Prop :=
  WritesOperands style Condition.operands m places

/-- A predicate that may be left out. -/
abbrev WritesOptional (m : LowerM (Option Condition)) (places : List Place) : Prop :=
  WritesOperands style (·.elim [] Condition.operands) m places

/-- A single operand. -/
abbrev WritesOperand (m : LowerM SqlOperand) (places : List Place) : Prop :=
  WritesOperands style (fun x => [x]) m places

theorem writes_addParam {place : Place} {value : Scalar}
    (hentry : style.marking.entry place = some value)
    (hmark : ∀ n, style.marking.mark place n = .param n) :
    WritesOperand style (addParam value) [place] :=
  (Writes.emit hentry).bind_pure fun i xs hxs => by rw [hxs, hmark]

theorem writes_lowerLiteral (l : LiteralValue) :
    WritesOperand style (style.lowerLiteral l) [.literal l] := by
  have hunwritten : ∀ (l : LiteralValue) (x : SqlOperand), style.marking.entry (.literal l) = none →
      (∀ n, style.marking.mark (.literal l) n = x) →
      WritesOperand style (pure x) [.literal l] := by
    intro l x hentry hmark log a log' hrun
    obtain ⟨rfl, rfl⟩ := run_pure_eq_ok.1 hrun
    simp [Marking.entries, Marking.marks, hentry, hmark]
  cases l with
  | null => exact hunwritten _ _ rfl fun _ => rfl
  | temporal t =>
    cases t with
    | keyword k => exact hunwritten _ _ rfl fun _ => rfl
    | value d => exact writes_addParam style rfl fun _ => rfl
  | _ => exact writes_addParam style rfl fun _ => rfl

/-- A predicate around one operand. -/
theorem writes_around {m : LowerM SqlOperand} {places : List Place} {f : SqlOperand → Condition}
    (hm : WritesOperand style m places) (hf : ∀ x, (f x).operands = [x]) :
    WritesCondition style (do return f (← m)) places :=
  hm.bind_pure fun x _ hxs => (hf x).trans hxs

theorem writes_lowerCompare (op : ComparisonOperator) (l : LiteralValue) :
    WritesCondition style (style.lowerCompare col op l) [.literal l] :=
  writes_around style (writes_lowerLiteral style l) fun _ => rfl

/-- Two bounds of a range, compared in any way. -/
theorem writes_bounds {f : SqlOperand → SqlOperand → Condition} (r : Range)
    (hf : ∀ lo hi, (f lo hi).operands = [lo, hi]) :
    WritesCondition style (do
      let lo ← style.lowerLiteral r.start
      let hi ← style.lowerLiteral r.stop
      return f lo hi) (rangePlaces r) :=
  Writes.bind (writes_lowerLiteral style r.start) fun lo =>
    (writes_lowerLiteral style r.stop).bind_pure fun hi ys hys xs hxs => by
      rw [hf, ← hxs, ← hys]
      rfl

theorem writes_lowerBetween (r : Range) :
    WritesCondition style (style.lowerBetween col r) (rangePlaces r) :=
  writes_bounds style r fun _ _ => rfl

/-- Comparisons of the column with the literals of a compound constraint. -/
theorem writes_comparisons (op : ComparisonConstraint → ComparisonOperator)
    (cs : List ComparisonConstraint) :
    WritesOperands style (List.flatMap Condition.operands)
      (cs.mapM fun c => style.lowerCompare col (op c) c.value) (compoundPlaces cs) := by
  rw [compoundPlaces, List.map_eq_flatMap]
  exact Writes.mapM fun c _ => writes_lowerCompare style col (op c) c.value

theorem writes_lowerCompound (cs : List ComparisonConstraint) :
    WritesCondition style (style.lowerCompound col cs) (compoundPlaces cs) :=
  (writes_comparisons style col _ cs).bind_pure fun _ _ hxs => (operands_joinAnd _).trans hxs

/-- The bounds of a day, compared in any way. -/
theorem writes_lowerDayBounds {α : Type} {operands : α → List SqlOperand}
    {f : SqlOperand → SqlOperand → α} (d : Date) (hf : ∀ p q, operands (f p q) = [p, q]) :
    WritesOperands style operands (do
      let (p₁, p₂) ← style.lowerDayBounds d
      return f p₁ p₂) (dayPlaces d) := by
  have hbound : ∀ t, WritesOperand style (addParam (style.dayBound t)) [.dayBound t] := fun t =>
    writes_addParam style rfl fun _ => rfl
  unfold ParameterStyle.lowerDayBounds parseDateOnlyRange dayPlaces
  cases (DateTime.ofDate d).addDay? with
  | none => exact Writes.throw (e := dateOverflow)
  | some next =>
    simp only [pure_bind, bind_assoc]
    refine Writes.bind (hbound _) fun p => (hbound next).bind_pure fun q ys hys xs hxs => ?_
    rw [hf, ← hxs, ← hys]
    rfl

theorem writes_lowerDay (d : Date) :
    WritesCondition style (style.lowerDay col d) (dayPlaces d) :=
  writes_lowerDayBounds 
    (f := fun p q => Condition.group (.and (.compare col .gte p) (.compare col .lt q))) style d fun _ _ => rfl

theorem writes_lowerEquals (l : LiteralValue) :
    WritesCondition style (style.lowerEquals col l) (equalsPlaces col l) := by
  unfold ParameterStyle.lowerEquals equalsPlaces
  cases dateOnly? l with
  | none => exact writes_lowerCompare style col .eq l
  | some d =>
    dsimp only
    split_ifs
    · exact writes_lowerDay style col d
    · exact writes_lowerCompare style col .eq l

theorem writes_lowerNullTest (op : ComparisonOperator) :
    WritesCondition style (pure (lowerNullTest col op)) (nullTestPlaces op) := by
  cases op with
  | eq | neq => exact Writes.pure rfl
  | _ => exact writes_around style (writes_lowerLiteral style .null) fun _ => rfl

/-- A comparison with a literal other than NULL, and a NULL test beside it. -/
theorem writes_orNull {m : LowerM Condition} {places : List Place}
    (hm : WritesCondition style m places) :
    WritesCondition style (do return .group (.or (← m) (.isNull col))) places :=
  hm.bind_pure fun c xs hxs => by rw [← hxs]; simp [Condition.operands]

theorem writes_lowerConstraint (c : ComparisonConstraint) :
    WritesCondition style (style.lowerConstraint col c) (constraintPlaces col c) := by
  obtain ⟨op, l⟩ := c
  cases l with
  | null => exact writes_lowerNullTest style col op
  | _ =>
    cases op with
    | eq =>
      dsimp only [ParameterStyle.lowerConstraint, constraintPlaces]
      exact writes_lowerEquals style col _
    | neq => exact writes_orNull style col (writes_lowerCompare style col .neq _)
    | _ => exact writes_lowerCompare style col _ _

/-! ### String operators -/

theorem writes_addPattern (text : List Char) :
    WritesOperand style (ParameterStyle.addPattern text) [.pattern text] :=
  writes_addParam style rfl fun _ => rfl

theorem writes_lowerHasElement (e : ValueSetElement) :
    WritesCondition style (style.lowerHasElement col e) (textPlaces e) := by
  cases e with
  | range r => exact writes_lowerBetween style col r
  | _ => exact writes_around style (writes_addPattern style _) fun _ => rfl

theorem writes_lowerNotHasElement (e : ValueSetElement) :
    WritesCondition style (style.lowerNotHasElement col e) (textPlaces e) := by
  cases e with
  | range r => exact writes_bounds style r fun _ _ => rfl
  | _ => exact writes_around style (writes_addPattern style _) fun _ => rfl

theorem writes_lowerHasSet (elements : List ValueSetElement) :
    WritesCondition style (style.lowerHasSet col elements)
      ((elements.filter (!·.isNull)).flatMap textPlaces) :=
  (Writes.mapM fun e _ => writes_lowerHasElement style col e).bind_pure fun likes xs hxs => by
    rw [operands_anyOf, ← hxs]
    split <;> simp [Condition.operands]

theorem writes_lowerNotHasSet (elements : List ValueSetElement) :
    WritesCondition style (style.lowerNotHasSet col elements)
      ((elements.filter (!·.isNull)).flatMap textPlaces) := by
  rw [← List.append_nil (List.flatMap _ _)]
  refine Writes.bind (Writes.mapM fun e _ => writes_lowerNotHasElement style col e) fun preds => ?_
  have hdone : ∀ c : Condition, c.operands = preds.flatMap Condition.operands →
      Writes style.marking (pure c : LowerM Condition) [] fun ys b =>
        ∀ xs, preds.flatMap Condition.operands = xs → b.operands = xs ++ ys := fun c hc =>
    Writes.pure fun xs hxs => by rw [hc, hxs, List.append_nil]
  have hempty : preds.isEmpty = true → preds.flatMap Condition.operands = [] := fun h => by
    rw [List.isEmpty_iff.1 h, List.flatMap_nil]
  refine Writes.ite (fun _ => Writes.ite (fun h => hdone _ (hempty h).symm) fun _ => hdone _ ?_)
    fun _ => Writes.ite (fun h => hdone _ (hempty h).symm) fun _ => hdone _ ?_
  · simp [Condition.operands]
  · simp [Condition.operands]

theorem writes_lowerStringOperator (op : StringOperator) (operand : Operand) :
    WritesCondition style (style.lowerStringOperator col op operand) (stringPlaces op operand) := by
  have hlike : ∀ text, WritesCondition style
      (do return .like col (← ParameterStyle.addPattern text)) [.pattern text] := fun text =>
    writes_around style (writes_addPattern style text) fun _ => rfl
  have hnot : ∀ text, WritesCondition style (do
      let p ← ParameterStyle.addPattern text
      return .group (.or (.notLike col p) (.isNull col))) [.pattern text] := fun text =>
    writes_around style (writes_addPattern style text) fun _ => rfl
  cases operand with
  | valueSet elements =>
    cases op with
    | has => exact writes_lowerHasSet style col elements
    | notHas => exact writes_lowerNotHasSet style col elements
    | starts | ends => exact hlike _
  | _ =>
    cases op with
    | notHas => exact hnot _
    | _ => exact hlike _

end

end AltrStream.Lowering
