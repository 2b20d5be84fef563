import AltrStream.Lowering.Parity
import AltrStream.Lowering.SetContributions
import AltrStream.Lowering.WhereTree
import AltrStream.QueryEngine.BoundAst

/-! # Mutations that run unconfirmed

A mutation runs without a confirmation as soon as it has a WHERE tree. What keeps
it from touching the whole table is then only what the leaves leave in the emitted
condition.
-/
namespace AltrStream.Lowering
open Foundations Python QueryEngine Semantics

/-! ### The conditions of the leaves -/

/-- Put the conditions of the leaves together. -/
def assemble (d : SqlDialect) : Formula Condition → Condition
  | .atom c => c
  | .and l r => .group (.and (assemble d l) (assemble d r))
  | .or l r => .group (.or (assemble d l) (assemble d r))
  | .not e => negate d (assemble d e)

/-- Lowering a tree lowers its leaves from left to right and puts the results together. -/
theorem lowerExpression_eq_assemble (d : SqlDialect) (leaf : BoundFieldExpression → LowerM Condition)
    (e : BoundExpression) : lowerExpression d leaf e = assemble d <$> e.mapM leaf := by
  induction e with
  | atom a => simp [lowerExpression, Formula.mapM, assemble]
  | and l r hl hr | or l r hl hr => simp [lowerExpression, Formula.mapM, hl, hr, assemble]
  | not e ih => simp [lowerExpression, Formula.mapM, ih, assemble]

theorem emits_formula_mapM {α β ε π : Type} {f : α → Emit ε π β} {post : List π → α → β → Prop}
    (t : Formula α) (h : ∀ a ∈ t.atoms, Emits (f a) fun full b => post full a b) :
    Emits (t.mapM f) fun full t' => List.Forall₂ (post full) t.atoms t'.atoms := by
  induction t with
  | atom a =>
    exact Emits.bind (h a (List.mem_singleton_self a)) fun b =>
      Emits.pure fun full hb => .cons hb .nil
  | and l r hl hr | or l r hl hr =>
    refine Emits.bind (hl fun a ha => h a (List.mem_append_left _ ha)) fun l' => ?_
    refine Emits.bind (hr fun a ha => h a (List.mem_append_right _ ha)) fun r' => ?_
    exact Emits.pure fun full hr' hl' => List.rel_append hl' hr'
  | not t ih => exact Emits.bind (ih h) fun t' => Emits.pure fun full ht' => ht'

/-- A relation that only asks something of its left side. -/
theorem forall₂_iff {α β : Type} {R : α → β → Prop} {p : α → Prop} {l : List α} {l' : List β}
    (h : List.Forall₂ (fun a b => R a b ↔ p a) l l') : List.Forall₂ R l l' ↔ ∀ a ∈ l, p a := by
  induction h with
  | nil => simp
  | cons h _ ih => rw [List.forall₂_cons, List.forall_mem_cons, h, ih]

/-- The WHERE condition of a mutation is put together from the conditions of its leaves, which are
lowered after everything else. -/
theorem lowerStatement_where {L : SqlLowerer} {q : BoundAltrQueryIR} {e : BoundExpression}
    (hop : q.operation = .update ∨ q.operation = .delete) (he : q.where_ = some e)
    {stmt : SqlStatement} {params : List Scalar}
    (hrun : L.lowerStatement q [] = .ok (stmt, params)) :
    ∃ conditions log, e.mapM L.lowerFieldExpression log = .ok (conditions, params) ∧
      stmt.whereCondition = some (assemble L.dialect conditions) := by
  have hwhere : ∀ log w log', L.lowerWhere (some e) log = .ok (w, log') →
      ∃ conditions, e.mapM L.lowerFieldExpression log = .ok (conditions, log') ∧
        w = some (assemble L.dialect conditions) := by
    intro log w log' h
    simp only [SqlLowerer.lowerWhere, lowerExpression_eq_assemble, map_eq_pure_bind, bind_assoc,
      pure_bind, run_bind_eq_ok, run_pure_eq_ok] at h
    obtain ⟨conditions, log₁, hconditions, rfl, rfl⟩ := h
    exact ⟨conditions, hconditions, rfl⟩
  unfold SqlLowerer.lowerStatement at hrun
  rcases hop with hop | hop
  · simp only [hop, he, run_bind_eq_ok, run_pure_eq_ok] at hrun
    obtain ⟨_, log, -, w, log', hw, rfl, rfl⟩ := hrun
    obtain ⟨conditions, hconditions, rfl⟩ := hwhere _ _ _ hw
    exact ⟨conditions, log, hconditions, rfl⟩
  · simp only [hop, he, run_bind_eq_ok, run_pure_eq_ok] at hrun
    obtain ⟨w, log', hw, rfl, rfl⟩ := hrun
    obtain ⟨conditions, hconditions, rfl⟩ := hwhere _ _ _ hw
    exact ⟨conditions, [], hconditions, rfl⟩

theorem lower_single {L : SqlLowerer} {q : BoundAltrQueryIR} (hop : q.operation ≠ .create)
    {r : PhysicalQueryResult} : L.lower q = .ok r ↔
      ∃ stmt params, L.lowerStatement q [] = .ok (stmt, params) ∧
        r = .single ⟨L.dialect, stmt, params, q.sourceId, q.sourceName⟩ := by
  simp only [SqlLowerer.lower, hop, if_false, SqlLowerer.physicalQuery, bind_eq_ok, pure_eq_ok,
    StateT.run]
  constructor
  · rintro ⟨_, ⟨⟨stmt, params⟩, hrun, rfl⟩, rfl⟩
    exact ⟨stmt, params, hrun, rfl⟩
  · rintro ⟨stmt, params, hrun, rfl⟩
    exact ⟨_, ⟨(stmt, params), hrun, rfl⟩, rfl⟩

/-! ### Guarding leaves -/

/-- The values that a row can hold in a column. -/
def Holds (col : BoundFieldPath) : Option Value → Prop
  | none => col.nullable = true
  | some (.number _) => col.logicalCategory ∈ [.numeric, .boolean, .unknown]
  | some (.text _) => col.logicalCategory ∈ [.string, .unknown]
  | some (.boolean _) => col.logicalCategory ∈ [.unknown]
  | some (.instant _) => col.logicalCategory ∈ [.temporal, .unknown]

section
variable (ρ : Reading) (v : Option Value) (elements : List ValueSetElement)

/-- The comparisons that PostgreSQL makes for a set keep the value. -/
def PostgreSQL.SetKeeps : ComparisonOperator → Prop
  | .eq => ∃ e ∈ elements, SelectsPlainly ρ v e ∨ SelectsInPostgres ρ v e
  | .neq =>
    if v = none then ∀ e ∈ elements, ¬ (e.isNull = true ∨ e = .constraint ⟨.eq, .null⟩)
    else ∀ e ∈ elements, ¬ ExcludesPlainly ρ v e
  | _ => False

/-- The comparisons that MySQL and SQLite make for a set keep the value. -/
def Positional.SetKeeps : ComparisonOperator → Prop
  | .eq => ∃ e ∈ elements, SelectsPlainly ρ v e
  | .neq =>
    if v = none then ¬ elements.any (·.isNull) = true
    else ∀ e ∈ elements, ¬ (ExcludesPlainly ρ v e ∨ ExcludesInPositional ρ v e)
  | _ => False

end

namespace SqlSource

def SetKeeps (src : SqlSource) (ρ : Reading) (v : Option Value) (elements : List ValueSetElement) :
    ComparisonOperator → Prop :=
  match src with
  | postgresql => PostgreSQL.SetKeeps ρ v elements
  | mysql | sqlite => Positional.SetKeeps ρ v elements

/-- The predicate that a leaf is lowered to is a constraint on the leaf's column: everything the
leaf says has its place in it, and it is TRUE of every value only if a value set means that. -/
structure Guards (src : SqlSource) (full : List Scalar) (leaf : BoundFieldExpression)
    (c : Condition) : Prop where
  provides : Provides src.lowerer.style leaf.field (contributions leaf.operator leaf.operand) full c
  notVacuous : ∀ op elements, leaf.operator = .comparison op → leaf.operand = .valueSet elements →
    ∀ clock, (∀ v, Holds leaf.field v → c.eval ⟨clock, full, fun _ => v⟩ = .yes) →
      ∀ v, Holds leaf.field v →
        (sqlReading clock leaf.field).meaning v leaf.operator leaf.operand = some true

/-- The statement that is run for a query has a WHERE condition that is put together from
the leaves' predicates, all of which guard. -/
def Guarded (src : SqlSource) (q : BoundAltrQueryIR) : Prop :=
  ∀ physical, src.lowerer.lower q = .ok (.single physical) →
    ∃ e conditions log, q.where_ = some e ∧
      e.mapM src.lowerer.lowerFieldExpression log = .ok (conditions, physical.parameters) ∧
      physical.statement.whereCondition = some (assemble src.lowerer.dialect conditions) ∧
      List.Forall₂ (src.Guards physical.parameters) e.atoms conditions.atoms

/-- Nothing of a leaf is lost: PostgreSQL drops no element of a `!=` set, and a set whose
comparisons keep every value means to keep them. -/
def KeepsLeaf (src : SqlSource) (leaf : BoundFieldExpression) : Prop :=
  (src = postgresql → PostgreSQL.KeepsElements leaf.operator leaf.operand) ∧
  ∀ op elements, leaf.operator = .comparison op → leaf.operand = .valueSet elements →
    ∀ clock, (∀ v, Holds leaf.field v → src.SetKeeps (sqlReading clock leaf.field) v elements op) →
      ∀ v, Holds leaf.field v →
        (sqlReading clock leaf.field).meaning v leaf.operator leaf.operand = some true

end SqlSource

section
variable {ρ : Reading} (hρ : ProperReading ρ) (v : Option Value) {elements : List ValueSetElement}
  (h : (Operand.valueSet elements).WellFormed)
include hρ h

theorem PostgreSQL.truth_set_eq_yes (op : ComparisonOperator) :
    PostgreSQL.comparisonTruth ρ v op (.valueSet elements) = .yes ↔
      PostgreSQL.SetKeeps ρ v elements op := by
  cases op with
  | eq =>
    simp only [PostgreSQL.comparisonTruth, Truth.disj_eq_yes, List.mem_map,
      exists_exists_and_eq_and, postgres_equalityTruth_eq_yes hρ, PostgreSQL.SetKeeps]
  | neq =>
    simp only [PostgreSQL.comparisonTruth, Truth.conj_eq_yes, List.forall_mem_map,
      PostgreSQL.SetKeeps]
    split_ifs with hv
    · exact hv ▸ forall₂_congr fun e _ => postgres_inequalityTruth_none e
    · obtain ⟨x, rfl⟩ := Option.ne_none_iff_exists'.1 hv
      exact forall₂_congr fun e he => postgres_inequalityTruth_some hρ (h.2 e he)
  | _ => exact iff_of_false (by rintro ⟨⟩) id

theorem Positional.truth_set_eq_yes (op : ComparisonOperator) :
    Positional.comparisonTruth ρ v op (.valueSet elements) = .yes ↔
      Positional.SetKeeps ρ v elements op := by
  cases op with
  | eq =>
    simp only [Positional.comparisonTruth, Truth.disj_eq_yes, List.mem_map,
      exists_exists_and_eq_and, positional_equalityTruth_eq_yes hρ, Positional.SetKeeps]
  | neq =>
    simp only [Positional.comparisonTruth, Positional.SetKeeps]
    split_ifs with hv
    · exact hv ▸ positional_inequalitySetTruth_none elements
    · obtain ⟨x, rfl⟩ := Option.ne_none_iff_exists'.1 hv
      exact positional_inequalitySetTruth_some hρ h
  | _ => exact iff_of_false (by rintro ⟨⟩) id

theorem SqlSource.truth_set_eq_yes (src : SqlSource) (op : ComparisonOperator) :
    src.truth ρ v (.comparison op) (.valueSet elements) = .yes ↔ src.SetKeeps ρ v elements op := by
  cases src with
  | postgresql => exact PostgreSQL.truth_set_eq_yes hρ v h op
  | mysql | sqlite => exact Positional.truth_set_eq_yes hρ v h op

end

namespace SqlSource

theorem provides_leaf (src : SqlSource) {leaf : BoundFieldExpression} (h : leaf.operand.WellFormed)
    (hparsed : leaf.operand.Parsed leaf.operator) :
    Emits (src.lowerer.lowerFieldExpression leaf) fun full c =>
      (Provides src.lowerer.style leaf.field (contributions leaf.operator leaf.operand) full c ↔
        (src = postgresql → PostgreSQL.KeepsElements leaf.operator leaf.operand)) := by
  cases src with
  | postgresql =>
    by_cases hkept : PostgreSQL.KeepsElements leaf.operator leaf.operand
    · exact (PostgreSQL.provides_lowerFieldExpression h hparsed hkept).mono fun _ _ hprovides =>
        iff_of_true hprovides fun _ => hkept
    · exact (PostgreSQL.not_provides_of_dropped h hkept).mono fun _ _ hnot =>
        iff_of_false hnot fun himp => hkept (himp rfl)
  | mysql =>
    exact (Positional.provides_lowerFieldExpression (fun cs hcs => provides_lowerCompound _ _ hcs)
      h hparsed).mono fun _ _ hprovides => iff_of_true hprovides fun hsrc => nomatch hsrc
  | sqlite =>
    have hraises : ∀ cs ≠ [], Emits (SQLite.lowerCompoundElement leaf.field cs)
        (Provides SQLite.style leaf.field (ValueSetElement.compound cs).contributions) :=
      fun _ _ => Emits.throw
    exact (Positional.provides_lowerFieldExpression hraises h hparsed).mono
      fun _ _ hprovides => iff_of_true hprovides fun hsrc => nomatch hsrc

/-- A leaf's predicate guards exactly if nothing of the leaf is lost. -/
theorem emits_guards (src : SqlSource) {leaf : BoundFieldExpression} (h : leaf.operand.WellFormed)
    (hparsed : leaf.operand.Parsed leaf.operator) :
    Emits (src.lowerer.lowerFieldExpression leaf) fun full c =>
      (src.Guards full leaf c ↔ src.KeepsLeaf leaf) := by
  intro log c log' hrun
  obtain ⟨hpre, hprovides⟩ := src.provides_leaf h hparsed log c log' hrun
  refine ⟨hpre, fun full hfull => ?_⟩
  have htruth : ∀ clock v, c.eval ⟨clock, full, fun _ => v⟩ =
      src.leafTruth clock (fun _ => v) leaf := fun clock v =>
    (src.emits_leaf clock (fun _ => v) leaf h log c log' hrun).2 full hfull
  have hkeeps : ∀ op elements, leaf.operator = .comparison op → leaf.operand = .valueSet elements →
      ∀ clock v, (c.eval ⟨clock, full, fun _ => v⟩ = .yes ↔
        src.SetKeeps (sqlReading clock leaf.field) v elements op) := by
    intro op elements hop hset clock v
    rw [htruth, leafTruth, hop, hset]
    exact src.truth_set_eq_yes (sqlReading_proper clock leaf.field) v (hset ▸ h) op
  constructor
  · rintro ⟨hfills, hvacuous⟩
    refine ⟨(hprovides full hfull).1 hfills, fun op elements hop hset clock hall => ?_⟩
    exact hvacuous op elements hop hset clock fun v hv =>
      (hkeeps op elements hop hset clock v).2 (hall v hv)
  · rintro ⟨hkept, hmeant⟩
    refine ⟨(hprovides full hfull).2 hkept, fun op elements hop hset clock hall => ?_⟩
    exact hmeant op elements hop hset clock fun v hv =>
      (hkeeps op elements hop hset clock v).1 (hall v hv)

end SqlSource

end AltrStream.Lowering
