import AltrStream.Foundations.Emission
import AltrStream.Lowering.Spelling

/-! # Every predicate that is lowered is whole

Whatever a lowerer writes for a leaf is one predicate or one group, so it keeps
its meaning under NOT, AND and OR.
-/
namespace AltrStream.Lowering
open Foundations Python QueryEngine Semantics

section
variable {preds : List Condition}

theorem whole_bracketAnd (hne : preds ≠ []) (h : ∀ c ∈ preds, c.Whole) : (bracketAnd preds).Whole := by
  match preds, hne with
  | [pred], _ => exact h pred (List.mem_singleton_self _)
  | p :: q :: rest, hne => exact .groupAnd hne h

theorem whole_bracketOr (hne : preds ≠ []) (h : ∀ c ∈ preds, c.Whole) : (bracketOr preds).Whole := by
  match preds, hne with
  | [pred], _ => exact h pred (List.mem_singleton_self _)
  | p :: q :: rest, hne => exact .groupOr hne h

theorem whole_anyOf (h : ∀ c ∈ preds, c.Whole) : (anyOf preds).Whole := by
  cases preds with
  | nil => exact .predicate trivial
  | cons p ps => exact whole_bracketOr (List.cons_ne_nil _ _) h

theorem whole_allOf (h : ∀ c ∈ preds, c.Whole) : (allOf preds).Whole := by
  cases preds with
  | nil => exact .predicate trivial
  | cons p ps => exact whole_bracketAnd (List.cons_ne_nil _ _) h

theorem whole_optional (test : Prop) [Decidable test] {c : Condition} (hc : c.Whole) :
    ∀ c' ∈ (if test then [c] else []), c'.Whole := by
  intro c' hc'
  split_ifs at hc'
  · exact List.mem_singleton.1 hc' ▸ hc
  · cases hc'

theorem whole_filterMap {found : List (Option Condition)} (h : ∀ o ∈ found, ∀ c ∈ o, c.Whole) :
    ∀ c ∈ found.filterMap id, c.Whole := by
  intro c hc
  obtain ⟨o, ho, hoc⟩ := List.mem_filterMap.1 hc
  exact h o ho c hoc

end

/-- What a computation returns is whole. -/
abbrev ReturnsWhole (m : LowerM Condition) : Prop := Returns m Condition.Whole

/-- What a computation may return is whole. -/
abbrev MayReturnWhole (m : LowerM (Option Condition)) : Prop := Returns m fun o => ∀ c ∈ o, c.Whole

/-! ### The shared code -/

section
variable (style : ParameterStyle) (col : BoundFieldPath)

theorem whole_compare (op : ComparisonOperator) (l : LiteralValue) :
    ReturnsWhole (style.lowerCompare col op l) := Returns.after fun _ => Returns.pure (.predicate trivial)

theorem whole_between (r : Range) : ReturnsWhole (style.lowerBetween col r) :=
  Returns.after fun _ => Returns.after fun _ => Returns.pure (.predicate trivial)

theorem whole_comparisons (op : ComparisonConstraint → ComparisonOperator)
    {cs : List ComparisonConstraint} (hne : cs ≠ []) :
    Returns (cs.mapM fun c => style.lowerCompare col (op c) c.value) fun preds =>
      preds ≠ [] ∧ ∀ c ∈ preds, c.Whole :=
  (Returns.mapM_ne_nil hne).and (Returns.mapM fun c _ => whole_compare style col (op c) c.value)

theorem whole_compound {cs : List ComparisonConstraint} (hne : cs ≠ []) :
    ReturnsWhole (style.lowerCompound col cs) :=
  Returns.bind (whole_comparisons style col (·.operator) hne) fun _ h =>
    Returns.pure (.groupAnd h.1 h.2)

theorem whole_day (d : Date) : ReturnsWhole (style.lowerDay col d) :=
  Returns.after fun (_, _) => Returns.pure (.and (.predicate trivial) (.predicate trivial))

theorem whole_equals (l : LiteralValue) : ReturnsWhole (style.lowerEquals col l) := by
  unfold ParameterStyle.lowerEquals
  split
  · exact Returns.ite (fun _ => whole_day style col _) fun _ => whole_compare style col _ _
  · exact whole_compare style col _ _

theorem whole_lowerNullTest (op : ComparisonOperator) : (lowerNullTest col op).Whole := by
  cases op <;> exact .predicate trivial

theorem whole_orNull {m : LowerM Condition} (hm : ReturnsWhole m) :
    ReturnsWhole (do return .group (.or (← m) (.isNull col))) :=
  Returns.bind hm fun _ h => Returns.pure (.or h (.predicate trivial))

theorem whole_constraint (c : ComparisonConstraint) : ReturnsWhole (style.lowerConstraint col c) := by
  unfold ParameterStyle.lowerConstraint
  split
  · exact Returns.pure (whole_lowerNullTest col _)
  · exact whole_equals style col _
  · exact whole_orNull col (whole_compare style col _ _)
  · exact whole_compare style col _ _

theorem whole_hasElement (e : ValueSetElement) : ReturnsWhole (style.lowerHasElement col e) := by
  cases e with
  | range r => exact whole_between style col r
  | _ => exact Returns.after fun _ => Returns.pure (.predicate trivial)

theorem whole_notHasElement (e : ValueSetElement) : ReturnsWhole (style.lowerNotHasElement col e) := by
  cases e with
  | range r =>
    exact Returns.after fun _ => Returns.after fun _ =>
      Returns.pure (.or (.predicate trivial) (.predicate trivial))
  | _ => exact Returns.after fun _ => Returns.pure (.predicate trivial)

theorem whole_hasSet (elements : List ValueSetElement) :
    ReturnsWhole (style.lowerHasSet col elements) :=
  Returns.bind (Returns.mapM fun e _ => whole_hasElement style col e) fun _ h =>
    Returns.pure (whole_anyOf (List.forall_mem_append.2 ⟨whole_optional _ (.predicate trivial), h⟩))

theorem whole_notHasSet (elements : List ValueSetElement) :
    ReturnsWhole (style.lowerNotHasSet col elements) := by
  refine Returns.bind (Returns.mapM fun e _ => whole_notHasElement style col e) fun notLikes h => ?_
  have hall : ¬ notLikes.isEmpty = true → (bracketAnd notLikes).Whole := fun hne =>
    whole_bracketAnd (by simpa using hne) h
  refine Returns.ite (fun _ => Returns.ite (fun _ => ?_) fun hne => ?_)
    fun _ => Returns.ite (fun _ => ?_) fun hne => ?_
  · exact Returns.pure (.predicate trivial)
  · exact Returns.pure (.and (hall hne) (.predicate trivial))
  · exact Returns.pure (.predicate trivial)
  · exact Returns.pure (.or (hall hne) (.predicate trivial))

theorem whole_stringOperator (op : StringOperator) (operand : Operand) :
    ReturnsWhole (style.lowerStringOperator col op operand) := by
  unfold ParameterStyle.lowerStringOperator
  split
  · exact whole_hasSet style col _
  · exact whole_notHasSet style col _
  · exact Returns.after fun _ => Returns.pure (.predicate trivial)
  · exact Returns.after fun _ => Returns.pure (.predicate trivial)
  · exact Returns.after fun _ => Returns.pure (.predicate trivial)
  · exact Returns.after fun _ => Returns.pure (.or (.predicate trivial) (.predicate trivial))

end

/-! ### PostgreSQL -/

namespace PostgreSQL
variable (col : BoundFieldPath)

theorem whole_equalityElement {e : ValueSetElement} (he : e.WellFormed) :
    ReturnsWhole (lowerEqualityElement col e) := by
  unfold lowerEqualityElement
  split
  · exact Returns.pure (.predicate trivial)
  · exact whole_between style col _
  · split
    · exact Returns.pure (whole_lowerNullTest col _)
    · exact whole_equals style col _
    · exact whole_compare style col _ _
  · exact whole_compound style col he
  · exact whole_equals style col _

theorem mayReturnWhole_inequalityElement (e : ValueSetElement) :
    MayReturnWhole (lowerInequalityElement col e) := by
  have horNull : ∀ op l, MayReturnWhole (do
      let pred ← style.lowerCompare col op l
      return some (.group (.or pred (.isNull col)))) := fun op l =>
    Returns.bind (whole_compare style col op l) fun _ h => Returns.pure fun c hc =>
      Option.mem_some.1 hc ▸ .or h (.predicate trivial)
  unfold lowerInequalityElement
  split
  · exact Returns.pure fun c hc => Option.mem_some.1 hc ▸ .predicate trivial
  · refine Returns.after fun lo => Returns.after fun hi => Returns.pure fun c hc =>
      Option.mem_some.1 hc ▸ @Condition.Whole.groupOr
        [.compare col .lt lo, .compare col .gt hi, .isNull col] (List.cons_ne_nil _ _) ?_
    simp only [List.forall_mem_cons]
    exact ⟨.predicate trivial, .predicate trivial, .predicate trivial, by simp⟩
  · split
    · exact Returns.pure fun c hc => Option.mem_some.1 hc ▸ .predicate trivial
    · exact Returns.pure fun c hc => Option.mem_some.1 hc ▸ .predicate trivial
    · exact Returns.pure fun c hc => nomatch hc
    · exact horNull _ _
  · exact Returns.pure fun c hc => nomatch hc
  · exact horNull _ _

theorem whole_equalitySet {elements : List ValueSetElement} (h : ∀ e ∈ elements, e.WellFormed) :
    ReturnsWhole (lowerEqualitySet col elements) := by
  unfold lowerEqualitySet
  dsimp only
  split
  · exact Returns.pure (.predicate trivial)
  · exact Returns.after fun _ => Returns.pure (.or (.predicate trivial) (.predicate trivial))
  · rename_i hne _
    exact Returns.bind (Returns.mapM_ne_nil hne) fun xs hxs =>
      Returns.pure (.or (.predicate hxs) (.predicate trivial))
  · exact Returns.bind (Returns.mapM_ne_nil (List.cons_ne_nil _ _)) fun xs hxs =>
      Returns.pure (.predicate hxs)
  · exact Returns.bind (Returns.mapM fun e he => whole_equalityElement col (h e he)) fun _ h =>
      Returns.pure (whole_anyOf h)

theorem whole_inequalitySet (elements : List ValueSetElement) :
    ReturnsWhole (lowerInequalitySet col elements) := by
  unfold lowerInequalitySet
  dsimp only
  split
  · exact Returns.pure (.predicate trivial)
  · exact Returns.after fun _ => Returns.pure (.and (.predicate trivial) (.predicate trivial))
  · rename_i hne _
    exact Returns.bind (Returns.mapM_ne_nil hne) fun xs hxs =>
      Returns.pure (.and (.predicate hxs) (.predicate trivial))
  · exact Returns.bind (Returns.mapM_ne_nil (List.cons_ne_nil _ _)) fun xs hxs =>
      Returns.pure (.or (.predicate hxs) (.predicate trivial))
  · exact Returns.bind (Returns.mapM fun e _ => mayReturnWhole_inequalityElement col e) fun _ h =>
      Returns.pure (whole_allOf (whole_filterMap h))

theorem whole_directLiteral (op : ComparisonOperator) (l : LiteralValue) :
    ReturnsWhole (lowerDirectLiteral col op l) := by
  unfold lowerDirectLiteral
  split
  · exact Returns.pure (whole_lowerNullTest col _)
  · exact whole_equals style col _
  · exact whole_compare style col _ _
  · exact whole_orNull col (whole_compare style col _ _)
  · exact whole_compare style col _ _

theorem whole_lowerFieldExpression {leaf : BoundFieldExpression} (h : leaf.operand.WellFormed) :
    ReturnsWhole (lowerFieldExpression leaf) := by
  obtain ⟨col, op, operand⟩ := leaf
  cases op with
  | string op => exact whole_stringOperator style col op operand
  | comparison op =>
    cases operand with
    | literal l => exact whole_directLiteral col op l
    | range r => exact whole_between style col r
    | compound cs => exact whole_compound style col h
    | constraint c => exact whole_constraint style col c
    | valueSet elements =>
      cases op with
      | eq => exact whole_equalitySet col h.2
      | neq => exact whole_inequalitySet col elements
      | _ => exact Returns.after fun _ => Returns.pure (.predicate trivial)

end PostgreSQL

/-! ### MySQL and SQLite -/

namespace Positional
variable (style : ParameterStyle) (col : BoundFieldPath)
  {compound : BoundFieldPath → List ComparisonConstraint → LowerM Condition}

/-- A predicate that is certainly there. -/
abbrev ReturnsSomeWhole (m : LowerM (Option Condition)) : Prop :=
  Returns m fun o => ∃ c, o = some c ∧ c.Whole

theorem someWhole {m : LowerM Condition} (hm : ReturnsWhole m) :
    ReturnsSomeWhole (do return some (← m)) :=
  Returns.bind hm fun c h => Returns.pure ⟨c, rfl, h⟩

/-- A literal that is left out of the `IN` list is a date that stands for its day. -/
theorem date_of_not_simple {l : LiteralValue} (hnull : l.isNull = false)
    (h : isSimpleScalar col (.literal l) = false) :
    ∃ d, dateOnly? l = some d ∧ col.isTimestampField = true := by
  have hsimple : (!(col.isTimestampField && isDateOnlyLiteral l)) = false := by
    cases l with
    | null => cases hnull
    | _ => exact h
  rw [Bool.not_eq_false', Bool.and_eq_true] at hsimple
  obtain ⟨d, hd⟩ := Option.isSome_iff_exists.1 hsimple.2
  exact ⟨d, hd, hsimple.1⟩

theorem someWhole_equalityElement (hcompound : ∀ cs, cs ≠ [] → ReturnsWhole (compound col cs))
    {e : ValueSetElement} (he : e.WellFormed) (hnull : e.isNull = false)
    (hsimple : isSimpleScalar col e = false) :
    ReturnsSomeWhole (lowerEqualityElement style compound col e) := by
  cases e with
  | range r => exact someWhole (whole_between style col r)
  | constraint c => exact someWhole (whole_compare style col _ _)
  | compound cs => exact someWhole (hcompound cs he)
  | literal l =>
    obtain ⟨d, hd, htimestamp⟩ := date_of_not_simple col hnull hsimple
    simp only [lowerEqualityElement, hd, htimestamp, if_true]
    exact someWhole (whole_day style col d)

theorem someWhole_inequalityElement {e : ValueSetElement} (he : e.WellFormed)
    (hnull : e.isNull = false) (hsimple : isSimpleScalar col e = false) :
    ReturnsSomeWhole (lowerInequalityElement style col e) := by
  cases e with
  | range r =>
    exact Returns.after fun _ => Returns.after fun _ => Returns.pure ⟨_, rfl, .predicate trivial⟩
  | constraint c => exact someWhole (whole_compare style col _ _)
  | compound cs =>
    exact Returns.bind (whole_comparisons style col _ he) fun preds h =>
      Returns.pure ⟨_, rfl, .groupOr h.1 h.2⟩
  | literal l =>
    obtain ⟨d, hd, htimestamp⟩ := date_of_not_simple col hnull hsimple
    simp only [lowerInequalityElement, hd, htimestamp, if_true]
    exact Returns.after fun _ =>
      Returns.pure ⟨_, rfl, .or (.predicate trivial) (.predicate trivial)⟩

/-- The list of the plain literals, if there are any. -/
theorem whole_scalars {f : List SqlOperand → Condition} (hf : ∀ xs, xs ≠ [] → (f xs).Whole)
    (nonNull : List ValueSetElement) :
    Returns (lowerScalars style col f nonNull) fun preds =>
      (nonNull.filter (isSimpleScalar col) ≠ [] → preds ≠ []) ∧ ∀ c ∈ preds, c.Whole := by
  unfold lowerScalars
  split
  · rename_i hnil
    exact Returns.pure ⟨fun hne => absurd hnil hne, fun c hc => nomatch hc⟩
  · rename_i hne
    refine Returns.bind (Returns.mapM_ne_nil hne) fun xs hxs => Returns.pure ⟨?_, fun c hc => ?_⟩
    · exact fun _ => List.cons_ne_nil _ _
    · exact List.mem_singleton.1 hc ▸ hf xs hxs

/-- The predicates of a set: its NULL test, its list and the rest. -/
theorem whole_pieces {elements : List ValueSetElement} (h : (Operand.valueSet elements).WellFormed)
    {nullTest : Condition} (hnullTest : nullTest.Whole) {f : List SqlOperand → Condition}
    (hf : ∀ xs, xs ≠ [] → (f xs).Whole) {lower : ValueSetElement → LowerM (Option Condition)}
    (hlower : ∀ e ∈ elements, e.isNull = false → isSimpleScalar col e = false →
      ReturnsSomeWhole (lower e)) {m : List Condition → LowerM Condition}
    (hm : ∀ preds, preds ≠ [] → (∀ c ∈ preds, c.Whole) → ReturnsWhole (m preds)) :
    ReturnsWhole (do
      let scalars ← lowerScalars style col f (elements.filter (!·.isNull))
      let others ← ((elements.filter (!·.isNull)).filter (!isSimpleScalar col ·)).mapM lower
      m ((if elements.any (·.isNull) then [nullTest] else []) ++ scalars ++
        others.filterMap id)) := by
  refine Returns.bind (whole_scalars style col hf _) fun scalars hscalars => ?_
  have hothers : Returns (((elements.filter (!·.isNull)).filter (!isSimpleScalar col ·)).mapM lower)
      fun others => ∀ o ∈ others, ∃ c, o = some c ∧ c.Whole := by
    refine Returns.mapM fun e he => ?_
    simp only [List.mem_filter, Bool.not_eq_true'] at he
    exact hlower e he.1.1 he.1.2 he.2
  have hfilled : Returns (((elements.filter (!·.isNull)).filter (!isSimpleScalar col ·)).mapM lower)
      fun others => (elements.filter (!·.isNull)).filter (!isSimpleScalar col ·) ≠ [] →
        others ≠ [] := by
    by_cases hne : (elements.filter (!·.isNull)).filter (!isSimpleScalar col ·) = []
    · exact Returns.any.mono fun _ _ h => absurd hne h
    · exact (Returns.mapM_ne_nil hne).mono fun _ h _ => h
  refine Returns.bind (hothers.and hfilled) fun others hothers => ?_
  refine hm _ ?_ ?_
  · intro hempty
    obtain ⟨hempty, hrest⟩ := List.append_eq_nil_iff.1 hempty
    obtain ⟨hnulls, hscalarsNil⟩ := List.append_eq_nil_iff.1 hempty
    have hnoNull : ∀ e ∈ elements, e.isNull = false := by
      split_ifs at hnulls with hany
      simpa using hany
    have hnonNull : elements.filter (!·.isNull) = elements :=
      List.filter_eq_self.2 fun e he => by simp [hnoNull e he]
    have hothersNil : others = [] := by
      refine List.eq_nil_iff_forall_not_mem.2 fun o ho => ?_
      obtain ⟨c, rfl, -⟩ := hothers.1 o ho
      have hnone : some c = none := List.filterMap_eq_nil_iff.1 hrest _ ho
      cases hnone
    have hplain : elements.filter (isSimpleScalar col) = [] := by
      by_contra hne
      exact hscalars.1 (hnonNull.symm ▸ hne) hscalarsNil
    have hspecial : elements.filter (!isSimpleScalar col ·) = [] := by
      by_contra hne
      exact hothers.2 (hnonNull.symm ▸ hne) hothersNil
    obtain ⟨e, he⟩ := List.exists_mem_of_ne_nil _ h.1
    have hnot := List.filter_eq_nil_iff.1 hplain e he
    have hsimple := List.filter_eq_nil_iff.1 hspecial e he
    simp [hnot] at hsimple
  · refine List.forall_mem_append.2 ⟨List.forall_mem_append.2
      ⟨whole_optional _ hnullTest, hscalars.2⟩, whole_filterMap fun o ho c hc => ?_⟩
    obtain ⟨c', rfl, hwhole⟩ := hothers.1 o ho
    exact Option.mem_some.1 hc ▸ hwhole

theorem whole_equalitySet (hcompound : ∀ cs, cs ≠ [] → ReturnsWhole (compound col cs))
    {elements : List ValueSetElement} (h : (Operand.valueSet elements).WellFormed) :
    ReturnsWhole (lowerEqualitySet style compound col elements) :=
  @whole_pieces style col _ h (.isNull col) (.predicate trivial) (.isIn col)
    (fun _ hxs => .predicate hxs) _
    (fun e he => someWhole_equalityElement style col hcompound (h.2 e he)) _
    fun _ hne hpreds => Returns.pure (whole_bracketOr hne hpreds)

theorem whole_inequalitySet {elements : List ValueSetElement}
    (h : (Operand.valueSet elements).WellFormed) :
    ReturnsWhole (lowerInequalitySet style col elements) :=
  @whole_pieces style col _ h (.isNotNull col) (.predicate trivial) (.notIn col)
    (fun _ hxs => .predicate hxs) _
    (fun e he => someWhole_inequalityElement style col (h.2 e he))
    (fun preds => if elements.any (·.isNull) then return bracketAnd preds
      else return .group (.or (bracketAnd preds) (.isNull col)))
    fun _ hne hpreds => Returns.ite (fun _ => Returns.pure (whole_bracketAnd hne hpreds))
      fun _ => Returns.pure (.or (whole_bracketAnd hne hpreds) (.predicate trivial))

theorem whole_direct (op : ComparisonOperator) (operand : Operand) :
    ReturnsWhole (lowerDirect style col op operand) :=
  Returns.after fun _ => Returns.ite
    (fun _ => Returns.pure (.or (.predicate trivial) (.predicate trivial)))
    fun _ => Returns.pure (.predicate trivial)

theorem whole_directLiteral (op : ComparisonOperator) (l : LiteralValue) :
    ReturnsWhole (lowerDirectLiteral style col op l) := by
  unfold lowerDirectLiteral
  split
  · exact Returns.pure (whole_lowerNullTest col _)
  · exact whole_equals style col _
  · exact whole_direct style col _ _

theorem whole_lowerFieldExpression
    (hcompound : ∀ col cs, cs ≠ [] → ReturnsWhole (compound col cs))
    {leaf : BoundFieldExpression} (h : leaf.operand.WellFormed) :
    ReturnsWhole (lowerFieldExpression style compound leaf) := by
  obtain ⟨col, op, operand⟩ := leaf
  cases op with
  | string op => exact whole_stringOperator style col op operand
  | comparison op =>
    cases operand with
    | literal l => exact whole_directLiteral style col op l
    | range r => exact whole_between style col r
    | compound cs => exact whole_compound style col h
    | constraint c => exact whole_constraint style col c
    | valueSet elements =>
      cases op with
      | eq => exact whole_equalitySet style col (hcompound col) h
      | neq => exact whole_inequalitySet style col h
      | _ => exact whole_direct style col _ _

end Positional

/-- The condition of a leaf is whole, whatever the source. -/
theorem SqlSource.whole_leaf (src : SqlSource) {leaf : BoundFieldExpression}
    (h : leaf.operand.WellFormed) : ReturnsWhole (src.lowerer.lowerFieldExpression leaf) := by
  cases src with
  | postgresql => exact PostgreSQL.whole_lowerFieldExpression h
  | mysql =>
    exact Positional.whole_lowerFieldExpression _ (fun col _ hne => whole_compound _ col hne) h
  | sqlite => exact Positional.whole_lowerFieldExpression _ (fun _ _ _ => Returns.throw) h

end AltrStream.Lowering
