import AltrStream.QueryEngine.Binder
import AltrStream.Semantics.Meaning

/-! # The types of the literals that reach a lowerer

A checked comparison only compares a field with literals of the field's own
category, so that a value of the field is of the type of each of them.
-/
namespace AltrStream.Semantics
open QueryEngine

/-- The category of the fields that hold the value. -/
def Value.category : Value → LogicalTypeCategory
  | number _ => .numeric
  | text _ => .string
  | boolean _ => .boolean
  | instant _ => .temporal

end AltrStream.Semantics

namespace AltrStream.QueryEngine
open Foundations Semantics

def ValueSetElement.literals : ValueSetElement → List LiteralValue
  | literal l => [l]
  | range r => [r.start, r.stop]
  | constraint c => [c.value]
  | compound cs => cs.map (·.value)

def Operand.literals : Operand → List LiteralValue
  | literal l => [l]
  | range r => [r.start, r.stop]
  | constraint c => [c.value]
  | compound cs => cs.map (·.value)
  | valueSet elements => elements.flatMap (·.literals)

/-- The value is NULL or of the field's type. A path into a JSON column has the type of the
literals that it is compared with. -/
def BoundFieldExpression.Types (leaf : BoundFieldExpression) (v : Option Value) : Prop :=
  ∀ x ∈ v, if leaf.field.path.isNested then
      ∀ l ∈ leaf.operand.literals, ∀ c ∈ l.category?, c = x.category
    else x.category = leaf.field.logicalCategory

theorem requireCategory_eq_ok {field : BoundFieldPath} {l : LiteralValue} {message : String} :
    requireCategory field l message = .ok () ↔ ∀ c ∈ l.category?, c = field.logicalCategory := by
  unfold requireCategory
  cases l.category? with
  | none => simp
  | some c =>
    simp only [raiseIf_eq_ok, not_not, Option.mem_def, Option.some.injEq, forall_eq']
    exact eq_comm

theorem requireBounds_eq_ok {field : BoundFieldPath} {r : Range} {expected : String} {upper : Bool}
    {category : LogicalTypeCategory} :
    requireBounds field r expected upper category = .ok () ↔
      r.start.category? = some category ∧ r.stop.category? = some category := by
  simp [requireBounds]

theorem validateFieldRange_categories {field : BoundFieldPath} {r : Range}
    (h : validateFieldRange field r = .ok ()) (hknown : field.logicalCategory ≠ .unknown) :
    r.start.category? = some field.logicalCategory ∧
      r.stop.category? = some field.logicalCategory := by
  unfold validateFieldRange at h
  cases hcategory : field.logicalCategory <;> rw [hcategory] at h
  case boolean => cases h
  case unknown => exact absurd hcategory hknown
  all_goals exact requireBounds_eq_ok.1 h

theorem validateComparisonConstraint_category {field : BoundFieldPath} {c : ComparisonConstraint}
    (h : validateComparisonConstraint field c = .ok ()) :
    ∀ k ∈ c.value.category?, k = field.logicalCategory := by
  simp only [validateComparisonConstraint, bind_eq_ok] at h
  obtain ⟨-, -, -, -, h⟩ := h
  exact requireCategory_eq_ok.1 h

theorem validateFieldElement_categories {field : BoundFieldPath} {e : ValueSetElement}
    (h : validateFieldElement field e = .ok ()) (hknown : field.logicalCategory ≠ .unknown) :
    ∀ l ∈ e.literals, ∀ k ∈ l.category?, k = field.logicalCategory := by
  cases e with
  | literal l => simpa [ValueSetElement.literals] using requireCategory_eq_ok.1 h
  | range r =>
    obtain ⟨hstart, hstop⟩ := validateFieldRange_categories h hknown
    simp [ValueSetElement.literals, hstart, hstop]
  | constraint c =>
    simpa [ValueSetElement.literals] using validateComparisonConstraint_category h
  | compound cs =>
    simp only [validateFieldElement, bind_eq_ok, checkAll_eq_ok] at h
    obtain ⟨-, -, h⟩ := h
    simp only [ValueSetElement.literals, List.mem_map]
    rintro _ ⟨c, hc, rfl⟩
    exact validateComparisonConstraint_category (h c hc)

/-- The literals of a checked comparison are of the field's category. -/
theorem validateComparisonOperand_categories {field : BoundFieldPath} {operator : Operator}
    {operand : Operand} (hparsed : operand.Parsed operator)
    (h : validateComparisonOperand field operand = .ok ())
    (hknown : field.logicalCategory ≠ .unknown) :
    ∀ l ∈ operand.literals, ∀ k ∈ l.category?, k = field.logicalCategory := by
  cases operand with
  | literal l => simpa [Operand.literals] using requireCategory_eq_ok.1 h
  | range r =>
    obtain ⟨hstart, hstop⟩ := validateFieldRange_categories h hknown
    simp [Operand.literals, hstart, hstop]
  | constraint c => exact hparsed.elim
  | compound cs => exact hparsed.elim
  | valueSet elements =>
    have hall : ∀ e ∈ elements, validateFieldElement field e = .ok () := checkAll_eq_ok.1 h
    simp only [Operand.literals, List.mem_flatMap]
    rintro l ⟨e, he, hl⟩
    exact validateFieldElement_categories (hall e he) hknown l hl

/-- A value of the field's type is of the type of every literal that a checked comparison
compares it with. -/
theorem BoundFieldExpression.Types.category {leaf : BoundFieldExpression} {v : Option Value}
    (h : leaf.Types v) {op : ComparisonOperator} (hop : leaf.operator = .comparison op)
    (hparsed : leaf.operand.Parsed leaf.operator) (hchecked : leaf.TypeChecked) {x : Value}
    (hx : v = some x) : ∀ l ∈ leaf.operand.literals, ∀ c ∈ l.category?, c = x.category := by
  have hv := h x hx
  unfold TypeChecked validateFieldOperatorAndOperand at hchecked
  by_cases hnull : leaf.operand = .literal .null
  · simp [hnull, Operand.literals, LiteralValue.category?]
  · rw [if_neg hnull] at hchecked
    by_cases hnested : leaf.field.path.isNested = true
    · rwa [if_pos hnested] at hv
    · rw [if_neg hnested] at hv hchecked
      simp only [bind_eq_ok, raiseIf_eq_ok, hop] at hchecked
      obtain ⟨-, hknown, -, -, hoperand⟩ := hchecked
      rw [hv]
      exact validateComparisonOperand_categories hparsed hoperand hknown

end AltrStream.QueryEngine
