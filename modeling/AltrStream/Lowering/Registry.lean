import AltrStream.Lowering.PositionalTruth
import AltrStream.Lowering.PostgresTruth
import AltrStream.Lowering.SqlTotality

/-! # The SQL sources

The SQL part of `lowering/registry.py`, with what the truth and totality modules
say of each lowerer under one name, so that a result can range over the three.
-/
namespace AltrStream.Lowering
open Foundations Python QueryEngine Semantics

/-- The source types that a SQL lowerer is registered for. -/
inductive SqlSource where
  | postgresql
  | mysql
  | sqlite
  deriving DecidableEq, Repr

namespace SqlSource

def lowerer : SqlSource → SqlLowerer
  | postgresql => PostgreSQL.lowerer
  | mysql => MySQL.lowerer
  | sqlite => SQLite.lowerer

/-- The three-valued truth of a leaf's predicate. -/
def truth : SqlSource → Reading → Option Value → Operator → Operand → Truth
  | postgresql => PostgreSQL.truth
  | mysql | sqlite => Positional.truth

/-- A leaf is lowered without raising. -/
def Fits : SqlSource → BoundFieldExpression → Prop
  | postgresql => LeafFits PostgreSQL.Fits
  | mysql => LeafFits MySQL.Fits
  | sqlite => LeafFits SQLite.Fits

/-- The truth of a leaf on a row. -/
def leafTruth (src : SqlSource) (clock : Clock) (row : FieldPath → Option Value)
    (leaf : BoundFieldExpression) : Truth :=
  src.truth (sqlReading clock leaf.field) (row leaf.field.path) leaf.operator leaf.operand

theorem emits_leaf (src : SqlSource) (clock : Clock) (row : FieldPath → Option Value)
    (leaf : BoundFieldExpression) (h : leaf.operand.WellFormed) :
    Emits (src.lowerer.lowerFieldExpression leaf) fun full c =>
      c.eval ⟨clock, full, row⟩ = src.leafTruth clock row leaf := by
  cases src with
  | postgresql => exact PostgreSQL.emits_lowerFieldExpression leaf clock row h
  | mysql => exact MySQL.emits_lowerFieldExpression leaf clock row h
  | sqlite => exact SQLite.emits_lowerFieldExpression leaf clock row h

theorem leaf_succeeds (src : SqlSource) (leaf : BoundFieldExpression) :
    SucceedsIff (src.lowerer.lowerFieldExpression leaf) (src.Fits leaf) := by
  cases src with
  | postgresql => exact PostgreSQL.lowerFieldExpression_succeeds leaf
  | mysql => exact MySQL.lowerFieldExpression_succeeds leaf
  | sqlite => exact SQLite.lowerFieldExpression_succeeds leaf

/-- `lower_expression` of the source's lowerer. -/
def lowerExpression (src : SqlSource) : BoundExpression → LowerM Condition :=
  Lowering.lowerExpression src.lowerer.dialect src.lowerer.lowerFieldExpression

end SqlSource

end AltrStream.Lowering
