import AltrStream.Lowering.MongoMatching
import AltrStream.Lowering.Parity
import AltrStream.Lowering.Registry

/-! # Operators in front of a range

Neither the type validator nor a SQL lowerer looks at the operator in front of a
range: every comparison with a range is accepted where `=` is, and lowered to the
BETWEEN of `=`. MongoDB's lowerer makes an exception for `!=` only.
-/
namespace AltrStream.Lowering
open Foundations Python QueryEngine Semantics

/-- A leaf of the WHERE tree of some accepted query. -/
def AcceptedLeaf (leaf : BoundFieldExpression) : Prop :=
  ∃ q e, Accepted q ∧ q.where_ = some e ∧ leaf ∈ e.atoms

section
variable (col : BoundFieldPath) (op : ComparisonOperator) (r : Range)

/-- What a row is selected by under one operator and under the other are opposites. -/
def Opposite (op op' : ComparisonOperator) : Prop :=
  (∀ (src : SqlSource) (clock : Clock) (row : FieldPath → Option Value), ∃ p : Prop,
    Decides src.lowerer.lowerFieldExpression clock row ⟨col, .comparison op, .range r⟩ p ∧
    Decides src.lowerer.lowerFieldExpression clock row ⟨col, .comparison op', .range r⟩ ¬p) ∧
  ∀ (regex : String → String → Bool) (clock : Clock) (doc : MongoDB.Document), ∃ f g,
    MongoDB.lowerFieldExpression clock ⟨col, .comparison op, .range r⟩ = .ok f ∧
    MongoDB.lowerFieldExpression clock ⟨col, .comparison op', .range r⟩ = .ok g ∧
    (f.matches regex doc = !g.matches regex doc)

/-- The operator in front of a range is not ignored: an ordering is rejected, and what else is
accepted is not lowered to the predicate of `=`, but for `!=` to its opposite. -/
structure HonoursOperator : Prop where
  rejected : op.isOrdering = true → ¬ AcceptedLeaf ⟨col, .comparison op, .range r⟩
  distinct : AcceptedLeaf ⟨col, .comparison op, .range r⟩ → op ≠ .eq →
    (∀ src : SqlSource, src.lowerer.lowerFieldExpression ⟨col, .comparison op, .range r⟩ ≠
      src.lowerer.lowerFieldExpression ⟨col, .comparison .eq, .range r⟩) ∧
    ∀ clock, MongoDB.lowerFieldExpression clock ⟨col, .comparison op, .range r⟩ ≠
      MongoDB.lowerFieldExpression clock ⟨col, .comparison .eq, .range r⟩
  complement : AcceptedLeaf ⟨col, .comparison op, .range r⟩ → op = .neq → Opposite col r .neq .eq

/-- The type validator accepts a range after every comparison operator or after none. -/
theorem typeChecked_range_iff :
    (BoundFieldExpression.mk col (.comparison op) (.range r)).TypeChecked ↔
      (BoundFieldExpression.mk col (.comparison .eq) (.range r)).TypeChecked := by
  unfold BoundFieldExpression.TypeChecked validateFieldOperatorAndOperand
  simp only [reduceCtorEq, if_false]
  split
  · exact Iff.rfl
  · simp only [bind_eq_ok, validateComparisonOperand]
    refine exists_congr fun _ => and_congr_right fun _ => ?_
    constructor
    · rintro ⟨_, -, hrange⟩
      exact ⟨(), by simp [ComparisonOperator.isOrdering], hrange⟩
    · rintro ⟨_, -, hrange⟩
      refine ⟨(), ?_, hrange⟩
      by_cases hboolean : col.logicalCategory = .boolean
      · rw [validateFieldRange, hboolean] at hrange
        cases hrange
      · simp [hboolean]

/-- The SQL lowerers write BETWEEN after every operator. -/
theorem lowerFieldExpression_range (src : SqlSource) :
    src.lowerer.lowerFieldExpression ⟨col, .comparison op, .range r⟩ =
      src.lowerer.style.lowerBetween col r := by
  cases src <;> rfl

/-- MongoDB's lowerer tells `!=` from the other operators. -/
theorem mongoLower_range (clock : Clock) (h : op ≠ .neq) :
    MongoDB.lowerFieldExpression clock ⟨col, .comparison op, .range r⟩ =
      .ok (MongoDB.lowerBetween clock col.fullPath r) := by
  cases op <;> first | rfl | exact absurd rfl h

/-- The operator in front of a range is honoured exactly if it is `=` or the leaf is rejected. -/
theorem honoursOperator_iff : HonoursOperator col op r ↔
    (AcceptedLeaf ⟨col, .comparison op, .range r⟩ → op = .eq) := by
  constructor
  · intro hhonours haccepted
    by_contra hne
    refine (hhonours.distinct haccepted hne).1 .postgresql ?_
    rw [lowerFieldExpression_range, lowerFieldExpression_range]
  · intro h
    refine ⟨fun hordering haccepted => ?_, fun haccepted hne => absurd (h haccepted) hne,
      fun haccepted hneq => ?_⟩
    · rw [h haccepted] at hordering
      cases hordering
    · rw [h haccepted] at hneq
      cases hneq

end

open TestSchema in
/-- `age > 18..30` and `age != 18..30` are accepted and select what `age = 18..30` selects, the
latter in SQL only. -/
theorem not_honoursOperator :
    (∀ op ∈ [ComparisonOperator.gt, .lt, .gte, .lte, .neq],
      ¬ HonoursOperator age op ⟨.integer 18, .integer 30⟩) ∧
    ∀ op ∈ [ComparisonOperator.gt, .lt, .gte, .lte], ∀ clock,
      MongoDB.lowerFieldExpression clock ⟨age, .comparison op, .range ⟨.integer 18, .integer 30⟩⟩ =
        MongoDB.lowerFieldExpression clock
          ⟨age, .comparison .eq, .range ⟨.integer 18, .integer 30⟩⟩ := by
  have haccepted : ∀ op, op ∈ [ComparisonOperator.gt, .lt, .gte, .lte, .neq] →
      AcceptedLeaf ⟨age, .comparison op, .range ⟨.integer 18, .integer 30⟩⟩ := by
    intro op hop
    refine ⟨query .read (.atom ⟨age, .comparison op, .range ⟨.integer 18, .integer 30⟩⟩), _,
      ⟨.ascii, s!"GET users WHERE \x7b age {op.value} 18..30 \x7d;", schema, ?_⟩, rfl,
      List.mem_singleton_self _⟩
    simp only [List.mem_cons, List.not_mem_nil, or_false] at hop
    rcases hop with rfl | rfl | rfl | rfl | rfl <;>
      exact acceptedFrom_of_run (by decide +kernel)
  constructor
  · intro op hop hhonours
    refine (hhonours.distinct (haccepted op hop) ?_).1 .postgresql rfl
    rintro rfl
    exact absurd hop (by decide)
  · intro op hop clock
    rw [mongoLower_range _ _ _ _ (by rintro rfl; exact absurd hop (by decide)),
      mongoLower_range _ _ _ _ (by decide)]

end AltrStream.Lowering
