import AltrStream.Lowering.Positional
import AltrStream.Lowering.SqlTruth

/-! # The truth of a MySQL or SQLite predicate

Both lowerers collect plain literals in an `IN` list and negate element by
element, so the `!=` predicate of a set is the three-valued negation of its `=`
predicate, with `OR col IS NULL` added unless NULL is an element. A keyword in a
set becomes a NULL parameter.
-/
namespace AltrStream.Lowering.Positional
open Foundations Python QueryEngine Semantics

section
variable (ρ : Reading) (v : Option Value)

def equalityTruth : ValueSetElement → Truth
  | .literal .null => isNullTruth v
  | .literal (.temporal (.keyword _)) => .unknown
  | .literal l => equalsTruth ρ v l
  | .range r => betweenTruth ρ v r
  | .constraint c => constraintTruth ρ v c
  | .compound cs => compoundTruth ρ v cs

def directTruth (op : ComparisonOperator) (l : LiteralValue) : Truth :=
  match l, op with
  | .null, op => nullTestTruth v op
  | l, .eq => equalsTruth ρ v l
  | l, .neq => (plainTruth ρ v .neq l).or (isNullTruth v)
  | l, op => plainTruth ρ v op l

/-- A `!=` set: none of the elements, and NULL rows too unless NULL is an element. -/
def inequalitySetTruth (elements : List ValueSetElement) : Truth :=
  let excluded := (Truth.disj (elements.map (equalityTruth ρ v))).neg
  if elements.any (·.isNull) then excluded else excluded.or (isNullTruth v)

def comparisonTruth (op : ComparisonOperator) : Operand → Truth
  | .literal l => directTruth ρ v op l
  | .range r => betweenTruth ρ v r
  | .compound cs => compoundTruth ρ v cs
  | .constraint c => bareConstraintTruth ρ v c
  | .valueSet elements =>
    match op with
    | .eq => .disj (elements.map (equalityTruth ρ v))
    | .neq => inequalitySetTruth ρ v elements
    | _ => .unknown

def truth : Operator → Operand → Truth
  | .comparison op, operand => comparisonTruth ρ v op operand
  | .string op, operand => stringTruth ρ v op operand

end

/-- Every literal is bound as what it denotes, and a keyword as NULL. -/
structure FaithfulStyle (style : ParameterStyle) : Prop extends style.Faithful where
  keyword : ∀ k, style.convertLiteralToParameter (.temporal (.keyword k)) = .none

private theorem ofBool_decide_of_iff_not {p q : Prop} [Decidable p] [Decidable q] (h : q ↔ ¬ p) :
    Truth.ofBool (decide q) = (Truth.ofBool (decide p)).neg := by
  by_cases hp : p <;> simp [h, hp, Truth.ofBool, Truth.neg]

/-- Comparing with the inverted operator negates, UNKNOWN included. -/
theorem sqlCompare_invert (op : ComparisonOperator) (x y : Option Value) :
    sqlCompare (invertOperator op) x y = (sqlCompare op x y).neg := by
  cases x with
  | none => rfl
  | some x =>
    cases y with
    | none => rfl
    | some y =>
      cases op with
      | eq => exact ofBool_decide_of_iff_not Iff.rfl
      | neq => exact ofBool_decide_of_iff_not not_not.symm
      | gt => exact ofBool_decide_of_iff_not not_lt.symm
      | lt => exact ofBool_decide_of_iff_not not_lt.symm
      | gte => exact ofBool_decide_of_iff_not not_le.symm
      | lte => exact ofBool_decide_of_iff_not not_le.symm

section
variable {style : ParameterStyle} (hs : FaithfulStyle style) (S : Site)
  {compound : BoundFieldPath → List ComparisonConstraint → LowerM Condition}
  (hcompound : ∀ cs, cs ≠ [] →
    Emits (compound S.col cs) (S.HasTruth (compoundTruth S.reading S.value cs)))

/-- The elements of the `IN` list. -/
private def scalarsOf (col : BoundFieldPath) (elements : List ValueSetElement) :
    List ValueSetElement := (elements.filter (!·.isNull)).filter (isSimpleScalar col)

private def othersOf (col : BoundFieldPath) (elements : List ValueSetElement) :
    List ValueSetElement := (elements.filter (!·.isNull)).filter (!isSimpleScalar col ·)

/-- The conditions made of the scalars: none, or one list with truth `t` of the list's own. -/
private def ScalarsHave (t : Truth → Truth) (elements : List ValueSetElement)
    (full : List Scalar) (preds : List Condition) : Prop :=
  (scalarsOf S.col elements = [] ∧ preds = []) ∨ ∃ pred, preds = [pred] ∧ S.HasTruth
    (t (.disj ((scalarsOf S.col elements).map (equalityTruth S.reading S.value)))) full pred

private theorem ScalarsHave.ne_nil {t : Truth → Truth} {elements : List ValueSetElement}
    {full : List Scalar} {preds : List Condition} (h : ScalarsHave S t elements full preds) :
    scalarsOf S.col elements = [] ∨ preds ≠ [] := by
  rcases h with ⟨hnil, -⟩ | ⟨pred, rfl, -⟩
  · exact .inl hnil
  · exact .inr (List.cons_ne_nil _ _)

/-- What a scalar in an `IN` list is bound as. -/
private def scalarValue (ρ : Reading) : ValueSetElement → Option Value
  | .literal (.temporal (.keyword _)) => none
  | .literal l => ρ.literal l
  | _ => none

/-- The predicate exists and has truth `t`. -/
private def Predicate (t : Truth) (full : List Scalar) (pred : Option Condition) : Prop :=
  ∃ c, pred = some c ∧ S.HasTruth t full c

private theorem emits_predicate {m : LowerM Condition} {t : Truth} (h : Emits m (S.HasTruth t)) :
    Emits (do return some (← m)) (Predicate S t) :=
  Emits.bind h fun c => Emits.pure fun _ hc => ⟨c, rfl, hc⟩

private theorem map_eval_filterMap {full : List Scalar} {f : ValueSetElement → Truth}
    {elements : List ValueSetElement} {preds : List (Option Condition)}
    (h : List.Forall₂ (fun e => Predicate S (f e) full) elements preds) :
    (preds.filterMap id).map (Condition.eval ⟨S.clock, full, S.row⟩) = elements.map f := by
  induction h with
  | nil => rfl
  | @cons e pred es ps he _ ih =>
    obtain ⟨c, rfl, hc⟩ := he
    change c.eval _ :: (ps.filterMap id).map _ = _
    rw [List.map_cons, ih, show c.eval _ = f e from hc]

include hs

private theorem emits_lowerScalar (e : ValueSetElement) :
    Emits (lowerScalar style e) (S.Denotes (scalarValue S.reading e)) := by
  cases e with
  | literal l =>
    have hadd := emits_addParam S (style.convertLiteralToParameter l)
    have hliteral := hs.literal S.clock S.col.isTemporal l
    cases l with
    | temporal t =>
      cases t with
      | keyword k =>
        change Emits (addParam (style.convertLiteralToParameter _)) _
        rw [hs.keyword k]
        exact emits_addParam S .none
      | value d => rwa [hliteral (by simp)] at hadd
    | _ => rwa [hliteral (by simp)] at hadd
  | _ => exact emits_addParam S .none

omit hs in
private theorem map_scalar {full : List Scalar} {elements : List ValueSetElement}
    {xs : List SqlOperand}
    (h : List.Forall₂ (fun e => S.Denotes (scalarValue S.reading e) full) elements xs)
    (hsimple : ∀ e ∈ elements, isSimpleScalar S.col e = true) :
    xs.map (fun x => sqlCompare .eq S.value (Env.read ⟨S.clock, full, S.row⟩ S.col x)) =
      elements.map (equalityTruth S.reading S.value) := by
  induction h with
  | nil => rfl
  | @cons e x es xs he _ ih =>
    rw [List.map_cons, List.map_cons, ih fun e he => hsimple e (List.mem_cons_of_mem _ he),
      show Env.read _ _ _ = _ from he]
    congr 1
    have hse := hsimple e (by simp)
    cases e with
    | literal l =>
      cases l with
      | null => cases hse
      | temporal t =>
        cases t with
        | keyword k => exact sqlCompare_none_right _ _
        | value d =>
          have hts : S.col.isTimestampField = false := by
            simpa [isSimpleScalar, isDateOnlyLiteral, dateOnly?] using hse
          replace hts : S.reading.isTimestamp = false := hts
          simp [equalityTruth, equalsTruth, Reading.day?, hts, scalarValue, plainTruth]
      | _ => rfl
    | _ => cases hse

private theorem emits_lowerScalars {make : List SqlOperand → Condition} {t : Truth → Truth}
    (hmake : ∀ full xs, (make xs).eval ⟨S.clock, full, S.row⟩ =
      t ((Condition.isIn S.col xs).eval ⟨S.clock, full, S.row⟩))
    (elements : List ValueSetElement) :
    Emits (lowerScalars style S.col make (elements.filter (!·.isNull)))
      (ScalarsHave S t elements) := by
  unfold lowerScalars
  cases hscalars : (elements.filter (!·.isNull)).filter (isSimpleScalar S.col) with
  | nil => exact Emits.pure fun _ => .inl ⟨hscalars, rfl⟩
  | cons e es =>
    refine Emits.bind (Emits.mapM fun e _ => emits_lowerScalar hs S e) fun xs =>
      Emits.pure fun full hxs => .inr ⟨_, rfl, ?_⟩
    have hsimple : ∀ e' ∈ e :: es, isSimpleScalar S.col e' = true := fun e' he' =>
      (List.mem_filter.mp (hscalars ▸ he')).2
    rw [Site.HasTruth, hmake, scalarsOf, hscalars, ← map_scalar S hxs hsimple]
    rfl

omit hs in
private theorem isTimestamp_of_not_simple {l : LiteralValue} (hnull : l ≠ .null)
    (h : isSimpleScalar S.col (.literal l) = false) :
    ∃ d, l = .temporal (.value d) ∧ S.col.isTimestampField = true := by
  cases l with
  | null => exact absurd rfl hnull
  | temporal t =>
    cases t with
    | keyword k => simp [isSimpleScalar, isDateOnlyLiteral, dateOnly?] at h
    | value d => exact ⟨d, rfl, by simpa [isSimpleScalar, isDateOnlyLiteral, dateOnly?] using h⟩
  | _ => simp [isSimpleScalar, isDateOnlyLiteral, dateOnly?] at h

include hcompound

private theorem emits_lowerEqualityElement {e : ValueSetElement} (he : e.WellFormed)
    (hnull : e.isNull = false) (hsimple : isSimpleScalar S.col e = false) :
    Emits (lowerEqualityElement style compound S.col e)
      (Predicate S (equalityTruth S.reading S.value e)) := by
  cases e with
  | range r => exact emits_predicate S (emits_lowerBetween hs.toFaithful S r)
  | constraint c => exact emits_predicate S (emits_lowerCompare hs.toFaithful S _ _)
  | compound cs => exact emits_predicate S (hcompound cs he)
  | literal l =>
    obtain ⟨d, rfl, hts⟩ := isTimestamp_of_not_simple S (by rintro rfl; cases hnull) hsimple
    have hts' : S.reading.isTimestamp = true := hts
    simp only [lowerEqualityElement, dateOnly?, hts, if_true, equalityTruth, equalsTruth,
      Reading.day?, hts', Option.elim_some]
    exact emits_predicate S (emits_lowerDay hs.toFaithful S d hts)

omit hs hcompound in
/-- A set is its NULL elements, its `IN` list and the rest. -/
private theorem disj_pieces (elements : List ValueSetElement) :
    Truth.disj (elements.map (equalityTruth S.reading S.value)) =
      ((if elements.any (·.isNull) then isNullTruth S.value else .no).or
        (.disj ((scalarsOf S.col elements).map (equalityTruth S.reading S.value)))).or
        (.disj ((othersOf S.col elements).map (equalityTruth S.reading S.value))) := by
  have hnull : ∀ e ∈ elements, e.isNull = true →
      equalityTruth S.reading S.value e = isNullTruth S.value := by
    rintro (l | r | c | cs) - he
    · cases l <;> first | rfl | cases he
    all_goals cases he
  rw [Truth.disj_partition _ _ _ _ hnull, Truth.or_assoc, Truth.or_comm]
  exact congrArg _ (Truth.disj_filter _ _ _)

omit hs hcompound in
private theorem pieces_ne_nil {elements : List ValueSetElement} (h : elements ≠ [])
    (nullTest : Condition) (scalars others : List Condition)
    (hscalars : scalarsOf S.col elements = [] ∨ scalars ≠ [])
    (hothers : others.length = (othersOf S.col elements).length) :
    (if elements.any (·.isNull) then [nullTest] else []) ++ scalars ++ others ≠ [] := by
  intro hempty
  obtain ⟨hempty', rfl⟩ := List.append_eq_nil_iff.mp hempty
  obtain ⟨hnonull, rfl⟩ := List.append_eq_nil_iff.mp hempty'
  have hsimple := hscalars.resolve_right fun hne => hne rfl
  have hrest := List.eq_nil_of_length_eq_zero hothers.symm
  have hnil : elements.filter (!·.isNull) = [] := by
    refine List.eq_nil_iff_forall_not_mem.mpr fun e he => ?_
    have h₁ := List.filter_eq_nil_iff.mp hsimple e he
    have h₂ := List.filter_eq_nil_iff.mp hrest e he
    simp_all
  simp [any_isNull_of_filter_eq_nil h hnil] at hnonull

/-- The elements outside the `IN` list each get a predicate. -/
private theorem emits_equalityElements {elements : List ValueSetElement}
    (h : ∀ e ∈ elements, e.WellFormed) :
    Emits ((othersOf S.col elements).mapM (lowerEqualityElement style compound S.col))
      fun full preds => (preds.filterMap id).map (Condition.eval ⟨S.clock, full, S.row⟩) =
        (othersOf S.col elements).map (equalityTruth S.reading S.value) := by
  refine Emits.mono (Emits.mapM fun e he => ?_) fun full preds hpreds => map_eval_filterMap S hpreds
  have hmem := List.mem_filter.mp he
  have hmem' := List.mem_filter.mp hmem.1
  exact emits_lowerEqualityElement hs S hcompound (h e hmem'.1) (by simpa using hmem'.2)
    (by simpa using hmem.2)

private theorem emits_lowerEqualitySet {elements : List ValueSetElement}
    (h : (Operand.valueSet elements).WellFormed) :
    Emits (lowerEqualitySet style compound S.col elements)
      (S.HasTruth (.disj (elements.map (equalityTruth S.reading S.value)))) := by
  refine Emits.bind (emits_lowerScalars hs S (t := id) (fun _ _ => rfl) elements) fun scalars => ?_
  refine Emits.bind (emits_equalityElements hs S hcompound h.2) fun others =>
    Emits.pure fun full hothers hscalars => ?_
  have hnulls : ∀ b : Bool, Truth.disj ((if b then [Condition.isNull S.col] else []).map
      (Condition.eval ⟨S.clock, full, S.row⟩)) = if b then isNullTruth S.value else .no := by
    rintro (_ | _)
    · rfl
    · exact Truth.or_no _
  have hlist : Truth.disj (scalars.map (Condition.eval ⟨S.clock, full, S.row⟩)) =
      .disj ((scalarsOf S.col elements).map (equalityTruth S.reading S.value)) := by
    rcases hscalars with ⟨hnil, rfl⟩ | ⟨pred, rfl, hpred⟩
    · rw [hnil]
      rfl
    · rw [List.map_singleton, show pred.eval _ = _ from hpred]
      exact Truth.or_no _
  have hne := pieces_ne_nil S h.1 (.isNull S.col) scalars (others.filterMap id) hscalars.ne_nil
    (by simpa using congrArg List.length hothers)
  rw [disj_pieces S elements, Site.HasTruth, eval_bracketOr _ hne, List.map_append, List.map_append,
    Truth.disj_append, Truth.disj_append, hnulls, hlist, hothers]

omit hcompound in
private theorem emits_lowerInequalityElement {e : ValueSetElement} (he : e.WellFormed)
    (hnull : e.isNull = false) (hsimple : isSimpleScalar S.col e = false) :
    Emits (lowerInequalityElement style S.col e)
      (Predicate S (equalityTruth S.reading S.value e).neg) := by
  have hcompare : ∀ c : ComparisonConstraint,
      Emits (style.lowerCompare S.col (invertOperator c.operator) c.value)
        (S.HasTruth (constraintTruth S.reading S.value c).neg) := by
    intro c
    rw [constraintTruth, plainTruth, ← sqlCompare_invert]
    exact emits_lowerCompare hs.toFaithful S _ _
  cases e with
  | range r =>
    refine Emits.bind (emits_lowerLiteral hs.toFaithful S r.start) fun lo => ?_
    refine Emits.bind (emits_lowerLiteral hs.toFaithful S r.stop) fun hi =>
      Emits.pure fun full hhi hlo => ⟨_, rfl, ?_⟩
    rw [equalityTruth, betweenTruth, plainTruth, plainTruth, ← (show _ = _ from hlo),
      ← (show _ = _ from hhi)]
    rfl
  | constraint c => exact emits_predicate S (hcompare c)
  | compound cs =>
    refine Emits.bind (Emits.mapM fun c _ => hcompare c) fun preds =>
      Emits.pure fun full hpreds => ⟨_, rfl, ?_⟩
    change (Condition.joinOr preds).eval _ = _
    rw [Condition.eval_joinOr _ (ne_nil_of_forall₂ hpreds he), map_eval_of_forall₂ hpreds,
      equalityTruth, compoundTruth, Truth.neg_conj, List.map_map]
    rfl
  | literal l =>
    obtain ⟨d, rfl, hts⟩ := isTimestamp_of_not_simple S (by rintro rfl; cases hnull) hsimple
    have hts' : S.reading.isTimestamp = true := hts
    simp only [lowerInequalityElement, dateOnly?, hts, if_true, equalityTruth, equalsTruth,
      Reading.day?, hts', Option.elim_some]
    refine Emits.bind (emits_lowerDayBounds hs.toFaithful S d hts) fun p =>
      Emits.pure fun full hp => ⟨_, rfl, ?_⟩
    rw [dayTruth, Truth.neg_and, ← sqlCompare_invert, ← sqlCompare_invert]
    change ((sqlCompare .lt S.value (Env.read _ _ p.1)).or
      (sqlCompare .gte S.value (Env.read _ _ p.2))) = _
    rw [show Env.read _ _ p.1 = _ from hp.1, show Env.read _ _ p.2 = _ from hp.2]
    rfl

omit hcompound in
private theorem emits_inequalityElements {elements : List ValueSetElement}
    (h : ∀ e ∈ elements, e.WellFormed) :
    Emits ((othersOf S.col elements).mapM (lowerInequalityElement style S.col))
      fun full preds => (preds.filterMap id).map (Condition.eval ⟨S.clock, full, S.row⟩) =
        (othersOf S.col elements).map fun e => (equalityTruth S.reading S.value e).neg := by
  refine Emits.mono (Emits.mapM fun e he => ?_) fun full preds hpreds => map_eval_filterMap S hpreds
  have hmem := List.mem_filter.mp he
  have hmem' := List.mem_filter.mp hmem.1
  exact emits_lowerInequalityElement hs S (h e hmem'.1) (by simpa using hmem'.2)
    (by simpa using hmem.2)

omit hs hcompound in
/-- The conjunction of all pieces under `!=` negates the disjunction under `=`. -/
private theorem eval_inequalityPieces {elements : List ValueSetElement} (h : elements ≠ [])
    (full : List Scalar) (scalars others : List Condition)
    (hscalars : ScalarsHave S Truth.neg elements full scalars)
    (hothers : others.map (Condition.eval ⟨S.clock, full, S.row⟩) =
      (othersOf S.col elements).map fun e => (equalityTruth S.reading S.value e).neg) :
    (bracketAnd ((if elements.any (·.isNull) then [Condition.isNotNull S.col] else []) ++
      scalars ++ others)).eval ⟨S.clock, full, S.row⟩ =
      (Truth.disj (elements.map (equalityTruth S.reading S.value))).neg := by
  have hnulls : ∀ b : Bool, Truth.conj ((if b then [Condition.isNotNull S.col] else []).map
      (Condition.eval ⟨S.clock, full, S.row⟩)) = (if b then isNullTruth S.value else .no).neg := by
    rintro (_ | _)
    · rfl
    · refine (Truth.and_yes _).trans ?_
      change Truth.ofBool S.value.isSome = (Truth.ofBool S.value.isNone).neg
      cases S.value <;> rfl
  have hlist : Truth.conj (scalars.map (Condition.eval ⟨S.clock, full, S.row⟩)) =
      (Truth.disj ((scalarsOf S.col elements).map (equalityTruth S.reading S.value))).neg := by
    rcases hscalars with ⟨hnil, rfl⟩ | ⟨pred, rfl, hpred⟩
    · rw [hnil]
      rfl
    · rw [List.map_singleton, show pred.eval _ = _ from hpred]
      exact Truth.and_yes _
  have hne := pieces_ne_nil S h (.isNotNull S.col) scalars others hscalars.ne_nil
    (by simpa using congrArg List.length hothers)
  rw [disj_pieces S elements, eval_bracketAnd _ hne, List.map_append, List.map_append,
    Truth.conj_append, Truth.conj_append, hnulls, hlist, hothers, Truth.conj_map_neg,
    Truth.neg_or, Truth.neg_or]

omit hcompound in
private theorem emits_lowerInequalitySet {elements : List ValueSetElement}
    (h : (Operand.valueSet elements).WellFormed) :
    Emits (lowerInequalitySet style S.col elements)
      (S.HasTruth (inequalitySetTruth S.reading S.value elements)) := by
  refine Emits.bind (emits_lowerScalars hs S (t := Truth.neg) (fun _ _ => rfl) elements)
    fun scalars => ?_
  refine Emits.bind (emits_inequalityElements hs S h.2) fun others => ?_
  have hpieces := fun full hothers hscalars =>
    eval_inequalityPieces S h.1 full scalars (others.filterMap id) hscalars hothers
  unfold inequalitySetTruth
  by_cases hany : elements.any (·.isNull) = true
  · simp only [hany, if_true] at hpieces ⊢
    exact Emits.pure fun full hothers hscalars => hpieces full hothers hscalars
  · simp only [hany, if_false, Bool.false_eq_true] at hpieces ⊢
    refine Emits.pure fun full hothers hscalars => ?_
    rw [← hpieces full hothers hscalars]
    rfl

/-! ### Field expressions -/

omit hcompound in
private theorem emits_lowerDirect (op : ComparisonOperator) (l : LiteralValue) :
    Emits (lowerDirect style S.col op (.literal l)) (S.HasTruth
      (if op = .neq then (plainTruth S.reading S.value .neq l).or (isNullTruth S.value)
        else plainTruth S.reading S.value op l)) := by
  refine Emits.bind (emits_lowerLiteral hs.toFaithful S l) fun x => ?_
  split_ifs
  · refine Emits.pure fun full hx => ?_
    rw [plainTruth, ← (show _ = _ from hx)]
    rfl
  · refine Emits.pure fun full hx => ?_
    rw [plainTruth, ← (show _ = _ from hx)]
    rfl

private theorem emits_lowerComparison (op : ComparisonOperator) {operand : Operand}
    (h : operand.WellFormed) :
    Emits (lowerComparison style compound S.col op operand)
      (S.HasTruth (comparisonTruth S.reading S.value op operand)) := by
  cases operand with
  | literal l =>
    have hequals := emits_lowerEquals hs.toFaithful S l
    have hdirect := emits_lowerDirect hs S op l
    cases l with
    | null => exact Emits.pure fun full => hasTruth_lowerNullTest S op full
    | _ =>
      cases op with
      | eq => exact hequals
      | _ => exact hdirect
  | range r => exact emits_lowerBetween hs.toFaithful S r
  | compound cs => exact emits_lowerCompound hs.toFaithful S cs h
  | constraint c => exact emits_lowerConstraint hs.toFaithful S c
  | valueSet elements =>
    have hnone : op ≠ .neq → Emits (lowerDirect style S.col op (.valueSet elements))
        (S.HasTruth .unknown) := by
      intro hop
      refine Emits.bind (emits_addParam S .none) fun x => ?_
      rw [if_neg hop]
      refine Emits.pure fun full hx => ?_
      rw [Site.HasTruth, Condition.eval, show Env.read _ _ _ = _ from hx]
      exact sqlCompare_none_right _ _
    cases op with
    | eq => exact emits_lowerEqualitySet hs S hcompound h
    | neq => exact emits_lowerInequalitySet hs S h
    | _ => exact hnone (by decide)

end

variable {style : ParameterStyle} (hs : FaithfulStyle style)
  {compound : BoundFieldPath → List ComparisonConstraint → LowerM Condition}

include hs in
/-- The emitted predicate has the described truth on every row. -/
theorem emits_lowerFieldExpression (expr : BoundFieldExpression) (clock : Clock)
    (row : FieldPath → Option Value)
    (hcompound : ∀ cs, cs ≠ [] → Emits (compound expr.field cs) (Site.HasTruth ⟨clock, row, expr.field⟩
      (compoundTruth (sqlReading clock expr.field) (row expr.field.path) cs)))
    (h : expr.operand.WellFormed) :
    Emits (lowerFieldExpression style compound expr) fun full c =>
      c.eval ⟨clock, full, row⟩ =
        truth (sqlReading clock expr.field) (row expr.field.path) expr.operator expr.operand := by
  obtain ⟨col, operator, operand⟩ := expr
  cases operator with
  | comparison op => exact emits_lowerComparison hs ⟨clock, row, col⟩ hcompound op h
  | string op =>
    exact emits_lowerStringOperator ⟨clock, row, col⟩ hs.toFaithful op operand
      (by rintro rfl; exact h.1 rfl)

end AltrStream.Lowering.Positional

namespace AltrStream.Lowering
open Foundations Python QueryEngine Semantics

theorem MySQL.style_faithful : Positional.FaithfulStyle MySQL.style where
  literal := by
    intro clock temporal l hk
    cases l with
    | temporal t =>
      cases t with
      | keyword k => exact absurd rfl (hk k)
      | value d => exact readScalar_str_isoformat temporal d
    | _ => rfl
  dayBound := readScalar_str_datetime
  keyword := fun _ => rfl

theorem SQLite.style_faithful : Positional.FaithfulStyle SQLite.style where
  literal := by
    intro clock temporal l hk
    cases l with
    | temporal t =>
      cases t with
      | keyword k => exact absurd rfl (hk k)
      | value d => exact readScalar_str_isoformat temporal d
    | boolean b => cases b <;> rfl
    | _ => rfl
  dayBound := readScalar_str_datetime
  keyword := fun _ => rfl

theorem MySQL.emits_lowerFieldExpression (expr : BoundFieldExpression) (clock : Clock)
    (row : FieldPath → Option Value) (h : expr.operand.WellFormed) :
    Emits (MySQL.lowerFieldExpression expr) fun full c =>
      c.eval ⟨clock, full, row⟩ = Positional.truth (sqlReading clock expr.field)
        (row expr.field.path) expr.operator expr.operand :=
  Positional.emits_lowerFieldExpression MySQL.style_faithful expr clock row
    (fun cs hcs => emits_lowerCompound MySQL.style_faithful.toFaithful ⟨clock, row, expr.field⟩ cs hcs) h

theorem SQLite.emits_lowerFieldExpression (expr : BoundFieldExpression) (clock : Clock)
    (row : FieldPath → Option Value) (h : expr.operand.WellFormed) :
    Emits (SQLite.lowerFieldExpression expr) fun full c =>
      c.eval ⟨clock, full, row⟩ = Positional.truth (sqlReading clock expr.field)
        (row expr.field.path) expr.operator expr.operand :=
  Positional.emits_lowerFieldExpression SQLite.style_faithful expr clock row
    (fun _ _ => Emits.throw) h

end AltrStream.Lowering
