import AltrStream.Lowering.CreateGroups
import AltrStream.Lowering.Placeholders
import AltrStream.Lowering.PlacedSets
import AltrStream.QueryEngine.Binder
import AltrStream.QueryEngine.LogicalResolver

/-! # Parameters and their placeholders

The parameters of a lowered query are numbered in the order of its text, and each
stands for the literal that the query has at its place. MySQL's and SQLite's sets
are the exception: TODAY and NOW in them get a placeholder that nothing is bound to.
-/
namespace AltrStream.Lowering
open Foundations Python QueryEngine Semantics

/-- A query that an AltrQL text is bound to, over physical names or over those of a logical
model. -/
def Bound (q : BoundAltrQueryIR) : Prop :=
  ∃ u queryText ir schema, parseAltrql u queryText = .ok ir ∧
    (bindAltrql ir schema = .ok q ∨ ∃ py mapping physical,
      resolveLogicalIr py ir mapping = .ok physical ∧ bindAltrql physical schema = .ok q)

theorem Bound.of_accepted {q : BoundAltrQueryIR} (h : Accepted q) : Bound q :=
  have ⟨u, queryText, schema, ir, hparse, hbind⟩ := h
  ⟨u, queryText, ir, schema, hparse, .inl hbind⟩

/-- The leaves of a bound query have well-formed operands that the parser builds. -/
theorem Bound.leaves {q : BoundAltrQueryIR} (h : Bound q) {e : BoundExpression}
    (he : q.where_ = some e) {leaf : BoundFieldExpression} (hleaf : leaf ∈ e.atoms) :
    leaf.operand.WellFormed ∧ leaf.operand.Parsed leaf.operator := by
  obtain ⟨u, text, ir, schema, hparse, hbind⟩ := h
  have hbound : ∀ ir' : AltrQueryIR, bindAltrql ir' schema = .ok q →
      ∃ expr, ir'.where_ = some expr ∧ leaf.unbound ∈ expr.atoms := by
    intro ir' hbind
    obtain ⟨-, entity, hwhere⟩ := bindAltrql_where hbind
    obtain ⟨expr, hexpr, hbound⟩ := bindWhere_eq_some (he ▸ hwhere)
    refine ⟨expr, hexpr, ?_⟩
    rw [← (bindExpression_eq_ok hbound).1, Formula.atoms_map]
    exact List.mem_map_of_mem hleaf
  rcases hbind with hbind | ⟨py, mapping, physical, hresolve, hbind⟩
  · obtain ⟨expr, hexpr, hmem⟩ := hbound ir hbind
    exact parseAltrql_leaves hparse hexpr _ hmem
  · obtain ⟨expr', hexpr', hmem'⟩ := hbound physical hbind
    unfold resolveLogicalIr at hresolve
    split at hresolve
    · cases hresolve
      obtain ⟨expr, hexpr, rfl⟩ := Option.map_eq_some_iff.1 hexpr'
      rw [Formula.atoms_map] at hmem'
      obtain ⟨a, ha, heq⟩ := List.mem_map.1 hmem'
      have hparsed := parseAltrql_leaves hparse hexpr _ ha
      have hoperand : leaf.operand = a.operand := (congrArg FieldExpression.operand heq).symm
      have hoperator : leaf.operator = a.operator := (congrArg FieldExpression.operator heq).symm
      rwa [hoperand, hoperator]
    · cases hresolve

theorem Bound.parsed {q : BoundAltrQueryIR} (h : Bound q) {e : BoundExpression}
    (he : q.where_ = some e) {leaf : BoundFieldExpression} (hleaf : leaf ∈ e.atoms) :
    leaf.operand.Parsed leaf.operator := (h.leaves he hleaf).2

/-! ### What a place receives -/

namespace Place

/-- What an operand at the place stands for, given the parameters of its statement. -/
def Receives (style : ParameterStyle) (parameters : List Scalar) : Place → SqlOperand → Prop
  | literal .null, x | bound .null, x => x = .null
  | literal (.temporal (.keyword k)), x | bound (.temporal (.keyword k)), x => x = .current k
  | literal l, x | bound l, x =>
    ∃ i, x = .param i ∧ entryAt parameters i = some (style.convertLiteralToParameter l)
  | pattern text, x => ∃ i, x = .param i ∧ entryAt parameters i = some (.str (String.ofList text))
  | dayBound t, x => ∃ i, x = .param i ∧ entryAt parameters i = some (style.dayBound t)
  | missing, _ => False

/-- A literal at the place is written or bound with its value. -/
def Kept : Place → Prop
  | bound .null | bound (.temporal (.keyword _)) | missing => False
  | _ => True

end Place

theorem index?_mark (style : ParameterStyle) (place : Place) (n : ℕ) :
    (style.marking.mark place n).index? =
      if (style.marking.entry place).isSome then some n else none := by
  have hliteral : ∀ l : LiteralValue, (style.marking.mark (.literal l) n).index? =
      if (style.marking.entry (.literal l)).isSome then some n else none := by
    intro l
    cases l with
    | temporal t => cases t <;> rfl
    | _ => rfl
  cases place with
  | literal l => exact hliteral l
  | _ => rfl

/-- The mark of a place stands for its literal exactly where the place keeps it. -/
theorem receives_mark_iff (style : ParameterStyle) (parameters : List Scalar) (place : Place) (n : ℕ)
    (h : ∀ p, style.marking.entry place = some p → entryAt parameters n = some p) :
    place.Receives style parameters (style.marking.mark place n) ↔ place.Kept := by
  have hparam : ∀ p, style.marking.entry place = some p →
      ∃ i, SqlOperand.param n = .param i ∧ entryAt parameters i = some p :=
    fun p hp => ⟨n, rfl, h p hp⟩
  have hliteral : ∀ l, place = .literal l ∨ place = .bound l → l ≠ .null →
      (∀ k, l ≠ .temporal (.keyword k)) →
      (place.Receives style parameters (style.marking.mark place n) ↔ place.Kept) := by
    rintro l hplace hnull hkeyword
    cases l with
    | null => exact absurd rfl hnull
    | temporal t =>
      cases t with
      | keyword k => exact absurd rfl (hkeyword k)
      | value d => rcases hplace with rfl | rfl <;> exact iff_of_true (hparam _ rfl) trivial
    | _ => rcases hplace with rfl | rfl <;> exact iff_of_true (hparam _ rfl) trivial
  cases place with
  | literal l =>
    by_cases hnull : l = .null
    · subst hnull
      exact iff_of_true rfl trivial
    by_cases hkeyword : ∃ k, l = .temporal (.keyword k)
    · obtain ⟨k, rfl⟩ := hkeyword
      exact iff_of_true rfl trivial
    · exact hliteral l (.inl rfl) hnull fun k hk => hkeyword ⟨k, hk⟩
  | bound l =>
    by_cases hnull : l = .null
    · subst hnull
      exact iff_of_false (fun h => nomatch h) id
    by_cases hkeyword : ∃ k, l = .temporal (.keyword k)
    · obtain ⟨k, rfl⟩ := hkeyword
      exact iff_of_false (fun h => nomatch h) id
    · exact hliteral l (.inr rfl) hnull fun k hk => hkeyword ⟨k, hk⟩
  | pattern text => exact iff_of_true (hparam _ rfl) trivial
  | dayBound t => exact iff_of_true (hparam _ rfl) trivial
  | missing => exact iff_of_false id id

/-! ### Statements -/

namespace SqlSource
variable (src : SqlSource)

/-- The places of a WHERE tree. -/
def wherePlaces (w : Option BoundExpression) : List Place :=
  w.elim [] fun e => e.atoms.flatMap (leafPlaces src.setPlaces)

def assignmentPlaces (assignments : List BoundMutationAssignment) : List Place :=
  assignments.flatMap fun a => [.literal a.value]

/-- The places of each statement that a query is lowered to. -/
def places (q : BoundAltrQueryIR) : List (List Place) :=
  match q.operation with
  | .create => (groupRecords (recordsToCreate q)).map fun group =>
    group.flatMap fun rec => assignmentPlaces rec.assignments
  | .update => [assignmentPlaces q.assignments ++ src.wherePlaces q.where_]
  | _ => [src.wherePlaces q.where_]

theorem writes_lowerExpression (e : BoundExpression) :
    WritesCondition src.lowerer.style (src.lowerExpression e)
      (e.atoms.flatMap (leafPlaces src.setPlaces)) := by
  induction e with
  | atom leaf =>
    rw [Formula.atoms, List.flatMap_singleton]
    exact src.writes_leaf leaf
  | not e ih => exact ih.bind_pure fun c xs hxs => (operands_negate _ c).trans hxs
  | and l r hl hr | or l r hl hr =>
    rw [Formula.atoms, List.flatMap_append]
    refine Writes.bind hl fun left => hr.bind_pure fun right ys hys xs hxs => ?_
    rw [← hxs, ← hys]
    rfl

theorem writes_lowerWhere (w : Option BoundExpression) :
    WritesOptional src.lowerer.style (src.lowerer.lowerWhere w) (src.wherePlaces w) := by
  cases w with
  | none => exact Writes.pure rfl
  | some e => exact (src.writes_lowerExpression e).bind_pure fun _ _ hxs => hxs

theorem writes_lowerAssignments (assignments : List BoundMutationAssignment) :
    WritesOperands src.lowerer.style (List.map fun a : String × SqlOperand => a.2)
      (assignments.mapM src.lowerer.lowerAssignment) (assignmentPlaces assignments) := by
  have hone : ∀ a ∈ assignments, WritesOperands src.lowerer.style
      (fun item : String × SqlOperand => [item.2]) (src.lowerer.lowerAssignment a)
      [.literal a.value] := fun a _ =>
    (writes_lowerLiteral _ a.value).bind_pure fun _ _ hxs => hxs
  exact (Writes.mapM hone).mono fun xs items hxs => by rw [← hxs, List.map_eq_flatMap]

theorem writes_lowerStatement (q : BoundAltrQueryIR) (hop : q.operation ≠ .create) :
    ∃ places, src.places q = [places] ∧ WritesOperands src.lowerer.style SqlStatement.operands
      (src.lowerer.lowerStatement q) places := by
  unfold SqlSource.places SqlLowerer.lowerStatement
  cases h : q.operation with
  | create => exact absurd h hop
  | update =>
    refine ⟨_, rfl, Writes.bind (src.writes_lowerAssignments _) fun items => ?_⟩
    refine (src.writes_lowerWhere q.where_).bind_pure fun w ys hys xs hxs => ?_
    rw [← hxs, ← hys]
    rfl
  | delete | read =>
    exact ⟨_, rfl, (src.writes_lowerWhere q.where_).bind_pure fun _ _ hxs => hxs⟩

theorem writes_lowerGroup (table : String) (group : List BoundCreateRecord) :
    WritesOperands src.lowerer.style SqlStatement.operands (src.lowerer.lowerGroup table group)
      (group.flatMap fun rec => assignmentPlaces rec.assignments) := by
  have hrow : ∀ rec ∈ group, WritesOperands src.lowerer.style id
      (rec.assignments.mapM fun a => src.lowerer.style.lowerLiteral a.value)
      (assignmentPlaces rec.assignments) := fun rec _ =>
    (Writes.mapM fun a _ => writes_lowerLiteral _ a.value).mono fun xs row hxs => by
      rw [← hxs, List.flatMap_singleton', id]
  exact (Writes.mapM hrow).bind_pure fun rows xs hxs => by
    rw [← hxs, SqlStatement.operands, List.flatten_eq_flatMap]

end SqlSource

/-! ### Names -/

/-- The columns that the statements of a query refer to by their paths. -/
def pathColumns (q : BoundAltrQueryIR) : List BoundFieldPath :=
  let tested := q.where_.elim [] fun e => e.atoms.map (·.field)
  match q.operation with
  | .create => []
  | .update | .delete => tested
  | .read =>
    tested ++ q.projection.map (·.field) ++ q.ranking.toList.map (·.field) ++ q.sort.map (·.field)

/-- The names that the statements of a query put in quotes. -/
def identifiers (q : BoundAltrQueryIR) : List String :=
  [q.entity.namespace_, q.entity.name] ++ (pathColumns q).map (·.path.root) ++
    match q.operation with
    | .create => (recordsToCreate q).flatMap columnTuple
    | .update => q.assignments.map (·.field.path.leaf)
    | .delete => []
    | .read => q.projection.filterMap (·.alias_) ++
      if q.ranking.isNone && q.sort.isEmpty then q.entity.primaryKey else []

/-- The keys below JSON columns are free of quotes, as the lexer's identifiers are. -/
def PlainKeys (q : BoundAltrQueryIR) : Prop :=
  ∀ col ∈ pathColumns q, ∀ k ∈ col.path.keys, '\'' ∉ k.toList

namespace SqlSource
variable {src : SqlSource}

theorem staysOn_leaf (leaf : BoundFieldExpression) :
    StaysOn leaf.field (src.lowerer.lowerFieldExpression leaf) := by
  cases src with
  | postgresql => exact PostgreSQL.staysOn_lowerFieldExpression leaf
  | mysql => exact Positional.staysOn_lowerFieldExpression _ (staysOn_compound _) leaf
  | sqlite => exact Positional.staysOn_lowerFieldExpression _ (fun _ _ => Returns.throw) leaf

/-- A WHERE tree is lowered to a condition on the columns of its leaves. -/
theorem returns_lowerExpression {P : BoundFieldPath → Prop} {e : BoundExpression}
    (h : ∀ leaf ∈ e.atoms, P leaf.field) :
    Returns (src.lowerExpression e) fun c => ∀ x ∈ c.columns, P x := by
  induction e with
  | atom leaf =>
    exact (staysOn_leaf leaf).mono fun c hc x hx => hc x hx ▸ h leaf (List.mem_singleton.2 rfl)
  | not e ih =>
    refine Returns.bind (ih h) fun c hc => Returns.pure ?_
    rwa [collects_columns.negate]
  | and l r hl hr | or l r hl hr =>
    obtain ⟨hleft, hright⟩ := List.forall_mem_append.1 h
    refine Returns.bind (hl hleft) fun left hl => ?_
    exact Returns.bind (hr hright) fun right hr => Returns.pure (List.forall_mem_append.2 ⟨hl, hr⟩)

theorem returns_lowerWhere {P : BoundFieldPath → Prop} {w : Option BoundExpression}
    (h : ∀ x ∈ w.elim [] (fun e => e.atoms.map (·.field)), P x) :
    Returns (src.lowerer.lowerWhere w) fun c => ∀ x ∈ c.elim [] Condition.columns, P x := by
  cases w with
  | none => exact Returns.pure fun _ hx => nomatch hx
  | some e =>
    have hleaves : ∀ leaf ∈ e.atoms, P leaf.field := fun leaf hleaf =>
      h _ (List.mem_map_of_mem hleaf)
    exact Returns.bind (returns_lowerExpression hleaves) fun _ hc => Returns.pure hc

theorem spells_targetTable {entity : BoundEntity} (hspace : src.Quotable entity.namespace_)
    (hname : src.Quotable entity.name) : Spells src [] (src.lowerer.targetTable entity) := by
  have hboth : Spells src []
      (src.dialect.quoteIdent entity.namespace_ ++ ("." ++ src.dialect.quoteIdent entity.name)) :=
    (Spells.identifier _ hspace).before ((Spells.fixed src "." rfl).before (.identifier _ hname))
  cases src with
  | sqlite => exact .identifier _ hname
  | mysql =>
    change Spells _ [] (MySQL.targetTable entity)
    unfold MySQL.targetTable
    split
    · exact .identifier _ hname
    · exact hboth.regroup (by simp [dialect, lowerer, MySQL.lowerer, MySQL.dialect, toString])
  | postgresql =>
    change Spells _ [] (PostgreSQL.targetTable entity)
    unfold PostgreSQL.targetTable
    split
    · exact .identifier _ hname
    · exact hboth.regroup (by
        simp [dialect, lowerer, PostgreSQL.lowerer, PostgreSQL.dialect, toString])

theorem spells_nullOrder (direction : SortDirection) :
    Spells src [] (src.lowerer.nullOrder direction) := by
  cases src with
  | postgresql => cases direction <;> exact .fixed _ _ (by decide +kernel)
  | _ => exact .fixed _ "" rfl

variable {q : BoundAltrQueryIR}

theorem spells_table (hnames : ∀ n ∈ identifiers q, src.Quotable n) :
    Spells src [] (src.lowerer.targetTable q.entity) :=
  spells_targetTable (hnames _ (by simp [identifiers])) (hnames _ (by simp [identifiers]))

variable (hkeys : PlainKeys q) (hnames : ∀ n ∈ identifiers q, src.Quotable n)
include hnames

theorem returns_lowerGroup {group : List BoundCreateRecord} (hop : q.operation = .create)
    (hgroup : group ∈ groupRecords (recordsToCreate q)) :
    Returns (src.lowerer.lowerGroup (src.lowerer.targetTable q.entity) group)
      (SqlStatement.NamesSpelled src) := by
  refine Returns.after fun rows => Returns.pure ⟨spells_table hnames, fun c hc => ?_⟩
  obtain ⟨name, hname, rfl⟩ := List.mem_map.1 hc
  refine .identifier _ (hnames _ ?_)
  simp only [identifiers, hop, List.mem_append]
  obtain ⟨rec, hrec, hname⟩ : ∃ rec ∈ group, name ∈ columnTuple rec := by
    cases group with
    | nil => cases hname
    | cons rec rest => exact ⟨rec, List.mem_cons_self, hname⟩
  refine .inr (List.mem_flatMap.2 ⟨rec, ?_, hname⟩)
  rw [← flatten_groupRecords (recordsToCreate q)]
  exact List.mem_flatten.2 ⟨group, hgroup, hrec⟩

include hkeys

theorem readable_columns : ∀ x ∈ pathColumns q, src.Readable x := fun x hx =>
  ⟨hnames _ (by
    simp only [identifiers, List.mem_append]
    exact .inl (.inr (List.mem_map_of_mem hx))), hkeys x hx⟩

theorem returns_lowerStatement (hop : q.operation ≠ .create) :
    Returns (src.lowerer.lowerStatement q) (SqlStatement.NamesSpelled src) := by
  have hcolumns := readable_columns hkeys hnames
  have htable := spells_table hnames
  unfold SqlLowerer.lowerStatement
  unfold pathColumns at hcolumns
  cases h : q.operation with
  | create => exact absurd h hop
  | update =>
    rw [h] at hcolumns
    have hone : ∀ a ∈ q.assignments,
        Returns (src.lowerer.lowerAssignment a) fun item => Spells src [] item.1 := fun a ha =>
      Returns.after fun _ => Returns.pure (.identifier _ (hnames _ (by
        simp only [identifiers, h, List.mem_append]
        exact .inr (List.mem_map_of_mem ha))))
    refine Returns.bind (Returns.mapM hone) fun items hitems => ?_
    exact Returns.bind (returns_lowerWhere hcolumns) fun w hw =>
      Returns.pure ⟨htable, hitems, hw⟩
  | delete =>
    rw [h] at hcolumns
    exact Returns.bind (returns_lowerWhere hcolumns) fun w hw => Returns.pure ⟨htable, hw⟩
  | read =>
    rw [h] at hcolumns
    simp only [List.forall_mem_append] at hcolumns
    obtain ⟨⟨⟨hwhere, hprojection⟩, hranking⟩, hsort⟩ := hcolumns
    refine Returns.bind (returns_lowerWhere hwhere) fun w hw => Returns.pure ⟨htable, ?_, ?_, hw⟩
    · intro i hi
      obtain ⟨sel, hsel, rfl⟩ := List.mem_map.1 hi
      refine ⟨spells_lowerFieldPath (hprojection _ (List.mem_map_of_mem hsel)), fun a ha => ?_⟩
      obtain ⟨name, hname, rfl⟩ := Option.map_eq_some_iff.1 ha
      refine .identifier _ (hnames _ ?_)
      simp only [identifiers, h, List.mem_append]
      exact .inr (.inl (List.mem_filterMap.2 ⟨sel, hsel, Option.filter_eq_some_iff.1 hname |>.1⟩))
    · intro o ho
      simp only [SqlLowerer.orderItems, List.mem_append, List.mem_map] at ho
      rcases ho with (⟨r, hr, rfl⟩ | ⟨c, hc, rfl⟩) | ho
      · exact ⟨spells_lowerFieldPath (hranking _ (List.mem_map_of_mem hr)), .fixed src "" rfl⟩
      · exact ⟨spells_lowerFieldPath (hsort _ (List.mem_map_of_mem hc)), spells_nullOrder _⟩
      · split at ho
        · rename_i hplain
          obtain ⟨pk, hpk, rfl⟩ := List.mem_map.1 ho
          refine ⟨.identifier _ (hnames _ ?_), .fixed src "" rfl⟩
          simp only [identifiers, h, List.mem_append, hplain, if_true]
          exact .inr (.inr hpk)
        · cases ho

end SqlSource

/-! ### The literals of a leaf -/

/-- TODAY or NOW stands in a set that is compared with the column. -/
def KeywordInSet (leaf : BoundFieldExpression) : Prop :=
  ∃ op elements k, leaf.operator = .comparison op ∧ leaf.operand = .valueSet elements ∧
    ValueSetElement.literal (.temporal (.keyword k)) ∈ elements

/-- Every place keeps its literal. -/
abbrev AllKept (places : List Place) : Prop := ∀ place ∈ places, place.Kept

section
variable (col : BoundFieldPath)

theorem allKept_literals {α : Type} (value : α → LiteralValue) (l : List α) :
    AllKept (l.map fun a => .literal (value a)) := by
  intro place hplace
  obtain ⟨a, -, rfl⟩ := List.mem_map.1 hplace
  exact trivial

theorem allKept_literal (l : LiteralValue) : AllKept [.literal l] := allKept_literals id [l]

theorem allKept_rangePlaces (r : Range) : AllKept (rangePlaces r) :=
  allKept_literals id [r.start, r.stop]

theorem allKept_dayPlaces (d : Date) : AllKept (dayPlaces d) := by
  intro place hplace
  rcases List.mem_cons.1 hplace with rfl | hplace
  · exact trivial
  · obtain ⟨t, -, rfl⟩ := Option.map_eq_some_iff.1 (Option.mem_toList.1 hplace)
    exact trivial

theorem allKept_equalsPlaces (l : LiteralValue) : AllKept (equalsPlaces col l) := by
  unfold equalsPlaces
  split
  · split
    · exact allKept_dayPlaces _
    · exact allKept_literal _
  · exact allKept_literal _

theorem allKept_constraintPlaces (c : ComparisonConstraint) : AllKept (constraintPlaces col c) := by
  unfold constraintPlaces
  split
  · unfold nullTestPlaces
    split
    · exact fun _ h => nomatch h
    · exact fun _ h => nomatch h
    · exact allKept_literal _
  · exact allKept_equalsPlaces col _
  · exact allKept_literal _

theorem allKept_pattern (text : List Char) : AllKept [.pattern text] :=
  fun _ h => List.mem_singleton.1 h ▸ trivial

theorem allKept_flatMap {α : Type} {f : α → List Place} {l : List α} (h : ∀ a ∈ l, AllKept (f a)) :
    AllKept (l.flatMap f) := by
  intro place hplace
  obtain ⟨a, ha, hplace⟩ := List.mem_flatMap.1 hplace
  exact h a ha place hplace

theorem allKept_stringPlaces (op : StringOperator) (operand : Operand) :
    AllKept (stringPlaces op operand) := by
  have htext : ∀ e, AllKept (textPlaces e) := by
    intro e
    cases e with
    | range r => exact allKept_rangePlaces r
    | _ => exact allKept_pattern _
  unfold stringPlaces
  split
  · exact allKept_flatMap fun e _ => htext e
  · exact allKept_flatMap fun e _ => htext e
  · exact allKept_pattern _
  · exact allKept_pattern _
  · exact allKept_pattern _

theorem allKept_postgresSet (negated : Bool) (elements : List ValueSetElement) :
    AllKept (PostgreSQL.setPlaces col negated elements) := by
  unfold PostgreSQL.setPlaces
  dsimp only
  split
  · rename_i hsimple
    simp only [PostgreSQL.allSimple, Bool.and_eq_true, List.all_eq_true] at hsimple
    refine allKept_flatMap fun e he => ?_
    have hliteral := hsimple.1 e he
    cases e with
    | literal l => exact allKept_literal l
    | _ => cases hliteral
  · split
    · refine allKept_flatMap fun e _ => ?_
      unfold PostgreSQL.inequalityPlaces
      split
      · exact fun _ h => absurd h List.not_mem_nil
      · exact allKept_rangePlaces _
      · split
        · exact fun _ h => absurd h List.not_mem_nil
        · exact allKept_literal _
      · exact fun _ h => absurd h List.not_mem_nil
      · exact allKept_literal _
    · refine allKept_flatMap fun e _ => ?_
      unfold PostgreSQL.equalityPlaces
      split
      · exact fun _ h => absurd h List.not_mem_nil
      · exact allKept_rangePlaces _
      · exact allKept_constraintPlaces col _
      · exact allKept_literals _ _
      · exact allKept_equalsPlaces col _

/-- A set of MySQL or SQLite keeps its literals exactly without TODAY and NOW. -/
theorem allKept_positionalSet_iff (negated : Bool) (elements : List ValueSetElement) :
    AllKept (Positional.setPlaces col negated elements) ↔
      ∀ k, ValueSetElement.literal (.temporal (.keyword k)) ∉ elements := by
  have hothers : ∀ e, AllKept (Positional.elementPlaces col e) := by
    intro e
    unfold Positional.elementPlaces
    split
    · exact allKept_rangePlaces _
    · exact allKept_literal _
    · exact allKept_literals _ _
    · split
      · split
        · exact allKept_dayPlaces _
        · exact fun _ h => nomatch h
      · exact fun _ h => nomatch h
  unfold Positional.setPlaces
  dsimp only
  constructor
  · intro h k hk
    refine h (.bound (.temporal (.keyword k))) (List.mem_append_left _ (List.mem_flatMap.2
      ⟨.literal (.temporal (.keyword k)), ?_, List.mem_singleton.2 rfl⟩))
    simp [hk, ValueSetElement.isNull, LiteralValue.isNull, Positional.isSimpleScalar, isDateOnlyLiteral, dateOnly?]
  · intro h
    refine List.forall_mem_append.2 ⟨allKept_flatMap fun e he => ?_, allKept_flatMap fun e _ => hothers e⟩
    obtain ⟨⟨hmem, -⟩, hsimple⟩ : (e ∈ elements ∧ _) ∧ Positional.isSimpleScalar col e = true := by
      simpa only [List.mem_filter] using he
    intro place hplace
    cases e with
    | literal l =>
      rw [List.mem_singleton.1 hplace]
      cases l with
      | null => cases hsimple
      | temporal t =>
        cases t with
        | keyword k => exact absurd hmem (h k)
        | value d => trivial
      | _ => trivial
    | _ => cases hsimple

end

/-- A leaf keeps its literals unless a set of MySQL or SQLite has TODAY or NOW in it. -/
theorem allKept_leafPlaces_iff (src : SqlSource) {leaf : BoundFieldExpression}
    (hparsed : leaf.operand.Parsed leaf.operator) :
    AllKept (leafPlaces src.setPlaces leaf) ↔ src = .postgresql ∨ ¬ KeywordInSet leaf := by
  obtain ⟨col, op, operand⟩ := leaf
  have hnoSet : (∀ elements, operand ≠ .valueSet elements) → ¬ KeywordInSet ⟨col, op, operand⟩ :=
    fun h ⟨_, elements, _, _, hset, _⟩ => h elements hset
  cases op with
  | string op =>
    exact iff_of_true (allKept_stringPlaces op operand) (.inr fun ⟨_, _, _, hop, _⟩ => nomatch hop)
  | comparison op =>
    cases operand with
    | literal l =>
      exact iff_of_true (allKept_constraintPlaces col _) (.inr (hnoSet fun _ h => nomatch h))
    | range r => exact iff_of_true (allKept_rangePlaces r) (.inr (hnoSet fun _ h => nomatch h))
    | compound cs => exact hparsed.elim
    | constraint c => exact hparsed.elim
    | valueSet elements =>
      have hset : KeywordInSet ⟨col, .comparison op, .valueSet elements⟩ ↔
          ∃ k, ValueSetElement.literal (.temporal (.keyword k)) ∈ elements := by
        constructor
        · rintro ⟨_, _, k, -, hset, hmem⟩
          cases hset
          exact ⟨k, hmem⟩
        · rintro ⟨k, hmem⟩
          exact ⟨op, elements, k, rfl, rfl, hmem⟩
      have hplaces : ∃ negated, leafPlaces src.setPlaces ⟨col, .comparison op, .valueSet elements⟩ =
          src.setPlaces col negated elements := by
        cases op with
        | eq => exact ⟨false, rfl⟩
        | neq => exact ⟨true, rfl⟩
        | _ => cases hparsed
      obtain ⟨negated, hplaces⟩ := hplaces
      rw [hplaces, hset, not_exists]
      cases src with
      | postgresql => exact iff_of_true (allKept_postgresSet col negated elements) (.inl rfl)
      | _ =>
        rw [or_iff_right (fun h => nomatch h)]
        exact allKept_positionalSet_iff col negated elements

/-! ### The physical queries -/

def PhysicalQueryResult.queries : PhysicalQueryResult → List PhysicalQuery
  | single q => [q]
  | batch _ qs _ _ => qs

/-- The parameters of a physical query are those of its placeholders, in the order of the text,
and each placeholder stands for the literal at its place. -/
structure Aligned (src : SqlSource) (places : List Place) (p : PhysicalQuery) : Prop where
  numbered : indices p.statement.operands = List.range' 1 p.parameters.length
  spelled : src.placeholders none p.query.toList =
    (List.range' 1 p.parameters.length).map src.dialect.placeholder
  filled : List.Forall₂ (Place.Receives src.lowerer.style p.parameters) places p.statement.operands

/-- The names can be quoted as one identifier each, and no set of MySQL or SQLite has TODAY or
NOW in it. -/
def Bindable (src : SqlSource) (q : BoundAltrQueryIR) : Prop :=
  match src with
  | .postgresql => ∀ name ∈ identifiers q, '"' ∉ name.toList
  | .mysql | .sqlite =>
    q.operation = .create ∨ ∀ e ∈ q.where_, ∀ leaf ∈ e.atoms, ¬ KeywordInSet leaf

namespace SqlSource
variable {src : SqlSource} {q : BoundAltrQueryIR} {places : List Place} {p : PhysicalQuery}
  {m : LowerM SqlStatement}

/-- The operands of a statement refer to its parameters one after another. -/
theorem indices_of_run {statement : SqlStatement} {parameters : List Scalar}
    (hm : WritesOperands src.lowerer.style SqlStatement.operands m places)
    (hrun : m.run [] = .ok (statement, parameters)) :
    indices statement.operands = List.range' 1 parameters.length := by
  obtain ⟨hlog, hoperands⟩ := hm [] statement parameters hrun
  rw [List.nil_append] at hlog
  rw [hoperands, hlog]
  exact Marking.positions_marks _ (index?_mark _) 0 places

/-- One statement: its operands are the marks of its places on an empty parameter list. -/
theorem aligned_iff_of_run (hm : WritesOperands src.lowerer.style SqlStatement.operands m places)
    (hrun : src.lowerer.physicalQuery q m = .ok p) :
    (AllKept places → Returns m (SqlStatement.NamesSpelled src) → Aligned src places p) ∧
      (Aligned src places p → AllKept places) := by
  simp only [SqlLowerer.physicalQuery, bind_eq_ok, pure_eq_ok] at hrun
  obtain ⟨⟨statement, parameters⟩, hrun, rfl⟩ := hrun
  obtain ⟨hlog, hoperands⟩ := hm [] statement parameters hrun
  rw [List.nil_append] at hlog
  have hfilled : List.Forall₂ (Place.Receives src.lowerer.style parameters) places
      statement.operands ↔ AllKept places := by
    rw [hoperands]
    exact Marking.forall₂_marks_iff _
      (fun place n hp => receives_mark_iff _ _ place n hp) [] rfl (by rw [hlog]; exact List.prefix_rfl)
  have hnumbered := indices_of_run hm hrun
  refine ⟨fun hkept hnames => ⟨hnumbered, ?_, hfilled.2 hkept⟩, fun h => hfilled.1 h.filled⟩
  have hspelled := spells_statementText (hnames [] statement parameters hrun)
  rw [hnumbered] at hspelled
  exact hspelled.placeholders_eq

/-- The queries of a result, each with its places and the run that has lowered it. -/
theorem queries_of_lower {r : PhysicalQueryResult} (h : src.lowerer.lower q = .ok r) :
    List.Forall₂ (fun places p => ∃ m : LowerM SqlStatement,
      src.lowerer.physicalQuery q m = .ok p ∧
      WritesOperands src.lowerer.style SqlStatement.operands m places ∧
      (PlainKeys q → (∀ n ∈ identifiers q, src.Quotable n) →
        Returns m (SqlStatement.NamesSpelled src))) (src.places q) r.queries := by
  unfold SqlLowerer.lower at h
  split at h
  · rename_i hop
    simp only [bind_eq_ok] at h
    obtain ⟨queries, hqueries, h⟩ := h
    have hr : r.queries = queries := by
      split at h <;> (rw [← pure_eq_ok.1 h]; rfl)
    rw [hr, SqlSource.places, hop, List.forall₂_map_left_iff]
    obtain ⟨hlength, hzip⟩ := List.forall₂_iff_zip.1 (mapM_eq_ok.1 hqueries)
    refine List.forall₂_iff_zip.2 ⟨hlength, fun {group p} hmem => ?_⟩
    exact ⟨_, hzip hmem, src.writes_lowerGroup _ group, fun _ hnames =>
      returns_lowerGroup hnames hop (List.of_mem_zip hmem).1⟩
  · rename_i hop
    simp only [bind_eq_ok, pure_eq_ok] at h
    obtain ⟨p, hp, rfl⟩ := h
    obtain ⟨places, hplaces, hwrites⟩ := src.writes_lowerStatement q hop
    rw [hplaces]
    exact .cons ⟨_, hp, hwrites, fun hkeys hnames => returns_lowerStatement hkeys hnames hop⟩ .nil

/-- The statements of a query keep its literals exactly if its leaves do. -/
theorem allKept_places_iff (hq : Bound q) :
    (∀ places ∈ src.places q, AllKept places) ↔ src = .postgresql ∨ q.operation = .create ∨
      ∀ e ∈ q.where_, ∀ leaf ∈ e.atoms, ¬ KeywordInSet leaf := by
  have hassign : ∀ l, AllKept (assignmentPlaces l) := fun l =>
    allKept_flatMap fun a _ => allKept_literal a.value
  have hwhere : AllKept (src.wherePlaces q.where_) ↔
      src = .postgresql ∨ ∀ e ∈ q.where_, ∀ leaf ∈ e.atoms, ¬ KeywordInSet leaf := by
    unfold wherePlaces
    cases hw : q.where_ with
    | none => exact iff_of_true (fun _ h => nomatch h) (.inr fun _ h => nomatch h)
    | some e =>
      have hleaf : ∀ leaf ∈ e.atoms, (AllKept (leafPlaces src.setPlaces leaf) ↔
          src = .postgresql ∨ ¬ KeywordInSet leaf) := fun leaf hleaf =>
        allKept_leafPlaces_iff src (hq.parsed hw hleaf)
      calc AllKept (e.atoms.flatMap (leafPlaces src.setPlaces))
          ↔ ∀ leaf ∈ e.atoms, AllKept (leafPlaces src.setPlaces leaf) := by
            simp only [AllKept, List.mem_flatMap]
            grind
        _ ↔ ∀ leaf ∈ e.atoms, src = .postgresql ∨ ¬ KeywordInSet leaf := by
            exact forall₂_congr hleaf
        _ ↔ src = .postgresql ∨ ∀ e' ∈ some e, ∀ leaf ∈ e'.atoms, ¬ KeywordInSet leaf := by
            simp only [forall_or_left, Option.mem_some_iff, forall_eq']
  unfold places
  cases hop : q.operation with
  | create =>
    refine iff_of_true ?_ (.inr (.inl rfl))
    simp only [List.forall_mem_map]
    exact fun group _ => allKept_flatMap fun rec _ => hassign _
  | update =>
    simp only [List.forall_mem_singleton, reduceCtorEq, false_or]
    exact ⟨fun h => hwhere.1 (List.forall_mem_append.1 h).2,
      fun h => List.forall_mem_append.2 ⟨hassign _, hwhere.2 h⟩⟩
  | read | delete => simpa only [List.forall_mem_singleton, reduceCtorEq, false_or] using hwhere

theorem bindable_iff : Bindable src q ↔ (∀ n ∈ identifiers q, src.Quotable n) ∧
    (src = .postgresql ∨ q.operation = .create ∨
      ∀ e ∈ q.where_, ∀ leaf ∈ e.atoms, ¬ KeywordInSet leaf) := by
  cases src <;> simp [Bindable, Quotable]

end SqlSource

/-- The parameters of every physical query are aligned with its placeholders if the query is
bindable; for MySQL and SQLite, only then. -/
theorem aligned_of_bindable {src : SqlSource} {q : BoundAltrQueryIR} {r : PhysicalQueryResult}
    (hq : Bound q) (hkeys : PlainKeys q) (h : src.lowerer.lower q = .ok r) :
    (Bindable src q → List.Forall₂ (Aligned src) (src.places q) r.queries) ∧
      (src ≠ .postgresql → List.Forall₂ (Aligned src) (src.places q) r.queries →
        Bindable src q) := by
  have hruns := SqlSource.queries_of_lower h
  rw [SqlSource.bindable_iff]
  constructor
  · rintro ⟨hnames, hkept⟩
    rw [← SqlSource.allKept_places_iff hq] at hkept
    obtain ⟨hlength, hzip⟩ := List.forall₂_iff_zip.1 hruns
    refine List.forall₂_iff_zip.2 ⟨hlength, fun {places p} hmem => ?_⟩
    obtain ⟨m, hrun, hwrites, hspelled⟩ := hzip hmem
    exact (SqlSource.aligned_iff_of_run hwrites hrun).1 (hkept places (List.of_mem_zip hmem).1)
      (hspelled hkeys hnames)
  · intro hsrc haligned
    refine ⟨fun n _ hpg => absurd hpg hsrc, ?_⟩
    rw [← SqlSource.allKept_places_iff hq]
    have hkept : ∀ {l : List (List Place)} {qs : List PhysicalQuery}, List.Forall₂ (Aligned src) l qs →
        List.Forall₂ (fun places p => Aligned src places p → AllKept places) l qs →
        ∀ places ∈ l, AllKept places := by
      intro l qs ha hk
      induction ha with
      | nil => exact fun _ hmem => nomatch hmem
      | cons ha _ ih =>
        cases hk with
        | cons hk hks => exact List.forall_mem_cons.2 ⟨hk ha, ih hks⟩
    refine hkept haligned (hruns.imp fun places p hp => ?_)
    obtain ⟨m, hrun, hwrites, -⟩ := hp
    exact (SqlSource.aligned_iff_of_run hwrites hrun).2

open TestSchema in
/-- The bounds of a range are aligned in PostgreSQL. -/
theorem aligned_range_postgresql :
    let q := query .delete (.atom ⟨age, .comparison .eq, .range ⟨.integer 18, .integer 30⟩⟩)
    ∃ r, SqlSource.postgresql.lowerer.lower q = .ok r ∧
      List.Forall₂ (Aligned .postgresql) (SqlSource.postgresql.places q) r.queries :=
  ⟨_, rfl, (aligned_of_bindable
    (.of_accepted ⟨.ascii, "DELETE users WHERE { age = 18..30 };", schema,
      acceptedFrom_of_run (by decide +kernel)⟩)
    (by unfold PlainKeys; decide) rfl).1 (by unfold Bindable; decide)⟩

open TestSchema in
/-- TODAY in a set of MySQL has a placeholder whose parameter is None, and a name with a double
quote ends PostgreSQL's quoted identifier. -/
theorem not_aligned :
    (let q := query .read (.atom ⟨createdAt, .comparison .eq,
        .valueSet [.literal (.temporal (.keyword .today)), .literal (.temporal (.keyword .now))]⟩)
     AcceptedFrom .ascii "GET users WHERE { created_at = { TODAY, NOW } };" schema q ∧
       ∃ r, SqlSource.mysql.lowerer.lower q = .ok r ∧
         ¬ List.Forall₂ (Aligned .mysql) (SqlSource.mysql.places q) r.queries) ∧
    (let oddUsers := { users with namespace_ := "pub\"lic" }
     let q := { query .read (.atom ⟨age, .comparison .eq, .literal (.integer 18)⟩) with
       entity := boundEntity oddUsers }
     AcceptedFrom .ascii "GET users WHERE { age = 18 };" { schema with entities := [oddUsers] } q ∧
       ∃ r, SqlSource.postgresql.lowerer.lower q = .ok r ∧
         ¬ List.Forall₂ (Aligned .postgresql) (SqlSource.postgresql.places q) r.queries) := by
  refine ⟨⟨acceptedFrom_of_run (by decide +kernel), _, rfl, fun h => ?mysql⟩,
    acceptedFrom_of_run (by decide +kernel), _, rfl, fun h => ?postgresql⟩
  case mysql =>
    rcases h with _ | ⟨h, _⟩
    rcases h.filled with _ | ⟨htoday, _⟩
    cases htoday
  case postgresql =>
    rcases h with _ | ⟨h, _⟩
    have hspelled := h.spelled
    revert hspelled
    decide +kernel

end AltrStream.Lowering
