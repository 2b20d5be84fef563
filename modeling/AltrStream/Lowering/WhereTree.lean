import AltrStream.Lowering.Registry
import AltrStream.QueryEngine.Binder
import AltrStream.Lowering.WholeLeaves
import AltrStream.Foundations.Checks

/-! # The Boolean structure of a WHERE tree in SQL

The emitted condition is the tree over the three-valued truths of its leaves. It
keeps the rows that the tree is certainly true of, which is less than the
two-valued reading promises as soon as an undecided leaf stands under a NOT.
-/
namespace AltrStream.Lowering
open Foundations Python QueryEngine Semantics

theorem eval_negate (d : SqlDialect) (c : Condition) (env : Env) :
    (negate d c).eval env = (c.eval env).neg := by
  unfold negate
  simp only []
  split <;> rfl

section
variable {d : SqlDialect} {lowerLeaf : BoundFieldExpression → LowerM Condition}

theorem emits_lowerExpression {leafTruth : BoundFieldExpression → Truth} {clock : Clock}
    {row : FieldPath → Option Value} (e : BoundExpression)
    (h : ∀ leaf ∈ e.atoms, Emits (lowerLeaf leaf) fun full c =>
      c.eval ⟨clock, full, row⟩ = leafTruth leaf) :
    Emits (lowerExpression d lowerLeaf e) fun full c =>
      c.eval ⟨clock, full, row⟩ = e.evalTruth leafTruth := by
  induction e with
  | atom leaf => exact h leaf (by simp [Formula.atoms])
  | and l r hl hr =>
    refine Emits.bind (hl fun leaf hleaf => h leaf (by simp [Formula.atoms, hleaf])) fun cl => ?_
    refine Emits.bind (hr fun leaf hleaf => h leaf (by simp [Formula.atoms, hleaf])) fun cr => ?_
    refine Emits.pure fun full hcr hcl => ?_
    rw [Formula.evalTruth, ← hcl, ← hcr]
    rfl
  | or l r hl hr =>
    refine Emits.bind (hl fun leaf hleaf => h leaf (by simp [Formula.atoms, hleaf])) fun cl => ?_
    refine Emits.bind (hr fun leaf hleaf => h leaf (by simp [Formula.atoms, hleaf])) fun cr => ?_
    refine Emits.pure fun full hcr hcl => ?_
    rw [Formula.evalTruth, ← hcl, ← hcr]
    rfl
  | not e ih =>
    refine Emits.bind (ih fun leaf hleaf => h leaf (by simp [Formula.atoms, hleaf])) fun c => ?_
    refine Emits.pure fun full hc => ?_
    rw [eval_negate, hc]
    rfl

theorem lowerExpression_succeeds {fits : BoundFieldExpression → Prop}
    (h : ∀ leaf, SucceedsIff (lowerLeaf leaf) (fits leaf)) (e : BoundExpression) :
    SucceedsIff (lowerExpression d lowerLeaf e) (∀ leaf ∈ e.atoms, fits leaf) := by
  have hboth : ∀ l r : BoundExpression,
      ((∀ leaf ∈ l.atoms, fits leaf) ∧ (∀ leaf ∈ r.atoms, fits leaf) ↔
        ∀ leaf ∈ l.atoms ++ r.atoms, fits leaf) := by
    intro l r
    simp only [List.mem_append, or_imp, forall_and]
  induction e with
  | atom leaf => exact (h leaf).congr (by simp [Formula.atoms])
  | and l r hl hr | or l r hl hr =>
    exact (hl.bind fun _ => hr.bind_total fun _ => SucceedsIff.pure _).congr (hboth l r)
  | not e ih => exact ih.bind_total fun _ => SucceedsIff.pure _

end

namespace SqlSource

/-- What AltrQL means a leaf to be on a row, if it means anything. -/
def leafMeaning (clock : Clock) (row : FieldPath → Option Value) (leaf : BoundFieldExpression) :
    Option Bool :=
  (sqlReading clock leaf.field).meaning (row leaf.field.path) leaf.operator leaf.operand

/-- On the row, the condition that is emitted for a tree, with the parameters bound, is TRUE
exactly when the tree over the meanings of its leaves is. -/
def TreeMeansOn (src : SqlSource) (clock : Clock) (row : FieldPath → Option Value)
    (e : BoundExpression) : Prop :=
  ∀ log, ∃ c log', src.lowerExpression e log = .ok (c, log') ∧ ∀ full, log' <+: full →
    ∀ m : BoundFieldExpression → Bool,
      (∀ leaf ∈ e.atoms, leafMeaning clock row leaf = some (m leaf)) →
        (c.eval ⟨clock, full, row⟩ = .yes ↔ e.eval m = true)

end SqlSource

/-! ## The text of a WHERE tree is read as the tree

The conditions of two operands are joined in parentheses, and NOT stands in front
of parentheses or of a text that starts and ends with one. Since the condition of
every leaf is whole, so is that of every tree, and SQL's precedence reads the text
as the tree of the query with the predicates of its leaves.
-/

/-- The tree of an expression in which each leaf is replaced by the tree that its own predicate is
read as, lowered from left to right with the parameters before and after. -/
inductive Replaced (src : SqlSource) :
    BoundExpression → List Scalar → Formula Condition → List Scalar → Prop
  | atom {leaf : BoundFieldExpression} {before after : List Scalar} {c : Condition}
      {t : Formula Condition} (hrun : src.lowerer.lowerFieldExpression leaf before = .ok (c, after))
      (hread : readCondition c.tokens = some (t, [])) : Replaced src (.atom leaf) before t after
  | and {l r : BoundExpression} {before between after : List Scalar} {t u : Formula Condition}
      (hl : Replaced src l before t between) (hr : Replaced src r between u after) :
      Replaced src (.and l r) before (.and t u) after
  | or {l r : BoundExpression} {before between after : List Scalar} {t u : Formula Condition}
      (hl : Replaced src l before t between) (hr : Replaced src r between u after) :
      Replaced src (.or l r) before (.or t u) after
  | not {e : BoundExpression} {before after : List Scalar} {t : Formula Condition}
      (h : Replaced src e before t after) : Replaced src (.not e) before (.not t) after

theorem Condition.Whole.readAll {c : Condition} (h : c.Whole) :
    Lowering.readCondition c.tokens = some (c.tree, []) := by
  have hread := @Condition.Whole.readCondition _ h [] (by simp) (by simp)
  rwa [List.append_nil] at hread

/-- NOT in front of a whole condition, in parentheses or not. -/
theorem whole_negate (d : SqlDialect) {c : Condition} (h : c.Whole) :
    (negate d c).Whole ∧ (negate d c).tree = .not c.tree := by
  have hgroup : (Condition.group c).Whole :=
    @Condition.Whole.groupAnd [c] (List.cons_ne_nil _ _) (by simpa using h)
  unfold negate
  dsimp only
  split
  · exact ⟨.not h, rfl⟩
  · exact ⟨.not hgroup, rfl⟩

/-- What is lowered for a tree is whole and has the shape of the tree. -/
theorem SqlSource.whole_lowerExpression (src : SqlSource) {e : BoundExpression}
    (h : ∀ leaf ∈ e.atoms, leaf.operand.WellFormed) {before after : List Scalar} {c : Condition}
    (hrun : src.lowerExpression e before = .ok (c, after)) :
    c.Whole ∧ Replaced src e before c.tree after := by
  induction e generalizing before after c with
  | atom leaf =>
    have hwhole := src.whole_leaf (h leaf (List.mem_singleton_self _)) before c after hrun
    exact ⟨hwhole, .atom hrun hwhole.readAll⟩
  | and l r ihl ihr =>
    obtain ⟨hl, hr⟩ := List.forall_mem_append.1 h
    obtain ⟨cl, between, hrunl, hrun⟩ := run_bind_eq_ok.1 hrun
    obtain ⟨cr, after', hrunr, hrun⟩ := run_bind_eq_ok.1 hrun
    obtain ⟨rfl, rfl⟩ := run_pure_eq_ok.1 hrun
    obtain ⟨hwholel, htreel⟩ := ihl hl hrunl
    obtain ⟨hwholer, htreer⟩ := ihr hr hrunr
    exact ⟨.and hwholel hwholer, .and htreel htreer⟩
  | or l r ihl ihr =>
    obtain ⟨hl, hr⟩ := List.forall_mem_append.1 h
    obtain ⟨cl, between, hrunl, hrun⟩ := run_bind_eq_ok.1 hrun
    obtain ⟨cr, after', hrunr, hrun⟩ := run_bind_eq_ok.1 hrun
    obtain ⟨rfl, rfl⟩ := run_pure_eq_ok.1 hrun
    obtain ⟨hwholel, htreel⟩ := ihl hl hrunl
    obtain ⟨hwholer, htreer⟩ := ihr hr hrunr
    exact ⟨.or hwholel hwholer, .or htreel htreer⟩
  | not e ih =>
    obtain ⟨c', after', hrun', hrun⟩ := run_bind_eq_ok.1 hrun
    obtain ⟨rfl, rfl⟩ := run_pure_eq_ok.1 hrun
    obtain ⟨hwhole, htree⟩ := ih h hrun'
    obtain ⟨hnegated, hnot⟩ := whole_negate src.lowerer.dialect hwhole
    exact ⟨hnegated, hnot ▸ .not htree⟩

/-- `NOT { age = 18..30 OR name = NULL }` -/
def notInRange : BoundExpression :=
  .not (.or
    (.atom ⟨{ path := ⟨"age", []⟩, dataType := .integer, nativeType := "integer" },
      .comparison .eq, .range ⟨.integer 18, .integer 30⟩⟩)
    (.atom ⟨{ path := ⟨"name", []⟩, dataType := .string, nativeType := "text" },
      .comparison .eq, .literal .null⟩))

section
variable {L : SqlLowerer} {fits : BoundFieldExpression → Prop}

theorem lowerGroup_total (table : String) (group : List BoundCreateRecord) :
    SucceedsIff (L.lowerGroup table group) True :=
  SucceedsIff.total_bind
    (SucceedsIff.total_mapM fun _ _ => SucceedsIff.total_mapM fun _ _ => lowerLiteral_total _ _)
    fun _ => SucceedsIff.pure _

theorem lowerAssignments_total (assignments : List BoundMutationAssignment) :
    SucceedsIff (assignments.mapM L.lowerAssignment) True :=
  SucceedsIff.total_mapM fun _ _ =>
    SucceedsIff.total_bind (lowerLiteral_total _ _) fun _ => SucceedsIff.pure _

variable (hleaf : ∀ leaf, SucceedsIff (L.lowerFieldExpression leaf) (fits leaf))
include hleaf

theorem lowerWhere_succeeds (w : Option BoundExpression) :
    SucceedsIff (L.lowerWhere w) (∀ e ∈ w, ∀ leaf ∈ e.atoms, fits leaf) := by
  cases w with
  | none => exact (SucceedsIff.pure _).congr (by simp)
  | some e =>
    exact (SucceedsIff.bind_total (lowerExpression_succeeds hleaf e)
      fun _ => SucceedsIff.pure _).congr (by simp)

theorem lowerStatement_succeeds (query : BoundAltrQueryIR) :
    SucceedsIff (L.lowerStatement query) (∀ e ∈ query.where_, ∀ leaf ∈ e.atoms, fits leaf) := by
  have hwhere := lowerWhere_succeeds hleaf query.where_
  unfold SqlLowerer.lowerStatement
  cases query.operation with
  | update =>
    exact SucceedsIff.total_then (lowerAssignments_total _) fun _ =>
      SucceedsIff.bind_total hwhere fun _ => SucceedsIff.pure _
  | _ => exact SucceedsIff.bind_total hwhere fun _ => SucceedsIff.pure _

omit hleaf in
theorem physicalQuery_succeeds {p : Prop} (query : BoundAltrQueryIR) {lowering : LowerM SqlStatement}
    (h : SucceedsIff lowering p) : (∃ r, L.physicalQuery query lowering = .ok r) ↔ p := by
  rw [← h []]
  simp only [SqlLowerer.physicalQuery, bind_eq_ok, pure_eq_ok]
  constructor
  · rintro ⟨_, r, hr, -⟩
    exact ⟨r, hr⟩
  · rintro ⟨r, hr⟩
    exact ⟨_, r, hr, rfl⟩

/-- `lower` returns exactly if it is a CREATE or every leaf of its WHERE tree is lowered. -/
theorem lower_succeeds (query : BoundAltrQueryIR) :
    (∃ r, L.lower query = .ok r) ↔
      query.operation = .create ∨ ∀ e ∈ query.where_, ∀ leaf ∈ e.atoms, fits leaf := by
  unfold SqlLowerer.lower
  split_ifs with hop
  · refine iff_of_true ?_ (.inl hop)
    have hgroups : ∀ groups : List (List BoundCreateRecord), ∃ queries, groups.mapM (fun group =>
        L.physicalQuery query (L.lowerGroup (L.targetTable query.entity) group)) = .ok queries :=
      fun groups => mapM_succeeds fun group _ =>
        (physicalQuery_succeeds query (lowerGroup_total _ group)).2 trivial
    obtain ⟨queries, hqueries⟩ := hgroups (groupRecords (recordsToCreate query))
    dsimp only
    rw [hqueries]
    rcases queries with _ | ⟨q, _ | ⟨q', rest⟩⟩ <;> exact ⟨_, rfl⟩
  · rw [or_iff_right hop, ← physicalQuery_succeeds (L := L) query (lowerStatement_succeeds hleaf query)]
    simp only [bind_eq_ok, pure_eq_ok]
    constructor
    · rintro ⟨_, r, hr, -⟩
      exact ⟨r, hr⟩
    · rintro ⟨r, hr⟩
      exact ⟨_, r, hr, rfl⟩

end

end AltrStream.Lowering
