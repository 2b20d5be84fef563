import AltrStream.Foundations.Kleene
import AltrStream.Lowering.SqlLowerer
import AltrStream.Semantics.Meaning

/-! # The truth of what the shared code emits

For every piece of the shared lowering code, the three-valued truth of its
condition as a function of the column's value and of the literals alone. The
parameters that the code appends are found again in every statement that the
condition becomes a part of, so the truth does not mention them.
-/
namespace AltrStream.Lowering
open Foundations Python QueryEngine Semantics

/-! ### Truths -/

section
variable (ρ : Reading) (v : Option Value)

/-- `col op literal` -/
def plainTruth (op : ComparisonOperator) (l : LiteralValue) : Truth :=
  sqlCompare op v (ρ.literal l)

def isNullTruth : Truth := .ofBool v.isNone

def isNotNullTruth : Truth := .ofBool v.isSome

/-- `col >= start AND col < stop` -/
def dayTruth (day : Value × Value) : Truth :=
  (sqlCompare .gte v (some day.1)).and (sqlCompare .lt v (some day.2))

/-- Equality that reads a date as a day. -/
def equalsTruth (l : LiteralValue) : Truth :=
  (ρ.day? l).elim (plainTruth ρ v .eq l) (dayTruth v)

def betweenTruth (r : Range) : Truth :=
  (plainTruth ρ v .gte r.start).and (plainTruth ρ v .lte r.stop)

/-- `col < start OR col > stop` -/
def outsideTruth (r : Range) : Truth :=
  (plainTruth ρ v .lt r.start).or (plainTruth ρ v .gt r.stop)

def constraintTruth (c : ComparisonConstraint) : Truth := plainTruth ρ v c.operator c.value

def compoundTruth (cs : List ComparisonConstraint) : Truth := .conj (cs.map (constraintTruth ρ v))

def nullTestTruth : ComparisonOperator → Truth
  | .eq => isNullTruth v
  | .neq => isNotNullTruth v
  | _ => .unknown

/-- A constraint that stands alone as operand. -/
def bareConstraintTruth (c : ComparisonConstraint) : Truth :=
  match c.value, c.operator with
  | .null, op => nullTestTruth v op
  | l, .eq => equalsTruth ρ v l
  | l, .neq => (plainTruth ρ v .neq l).or (isNullTruth v)
  | l, op => plainTruth ρ v op l

/-- `col LIKE pattern`, for a pattern that tests texts with `test`. -/
def likeTruth (test : List Char → Bool) : Truth :=
  if v.isSome then .ofBool (textTest test v) else .unknown

def infixTruth (text : String) : Truth := likeTruth v fun t => text.toList <:+: t

def hasElementTruth : ValueSetElement → Truth
  | .range r => betweenTruth ρ v r
  | .literal .null => isNullTruth v
  | e => infixTruth v (elementText e)

def notHasElementTruth : ValueSetElement → Truth
  | .range r => outsideTruth ρ v r
  | .literal .null => isNotNullTruth v
  | e => (infixTruth v (elementText e)).neg

def stringTruth (op : StringOperator) (operand : Operand) : Truth :=
  match op, operand with
  | .has, .valueSet elements => .disj (elements.map (hasElementTruth ρ v))
  | .notHas, .valueSet elements =>
    let tests := Truth.conj (elements.map (notHasElementTruth ρ v))
    if elements.any (·.isNull) then tests else tests.or (isNullTruth v)
  | .starts, _ => likeTruth v fun t => (operandText operand).toList <+: t
  | .ends, _ => likeTruth v fun t => (operandText operand).toList <:+ t
  | .has, _ => infixTruth v (operandText operand)
  | .notHas, _ => ((infixTruth v (operandText operand)).neg).or (isNullTruth v)

end

/-! ### Escaped patterns -/

private theorem replaceChar_cons (c : Char) (t : List Char) (x : Char) (s : List Char) :
    replaceChar c t (x :: s) = (if x = c then t else [x]) ++ replaceChar c t s := by
  simp [replaceChar]

private theorem replaceChar_append (c : Char) (t s s' : List Char) :
    replaceChar c t (s ++ s') = replaceChar c t s ++ replaceChar c t s' := by
  simp [replaceChar]

/-- The three successive replacements escape each special character once. -/
theorem escapeLikeOperand_eq (s : String) : escapeLikeOperand s = likeEscape s.toList := by
  unfold escapeLikeOperand
  induction s.toList with
  | nil => rfl
  | cons c s ih =>
    have hsplit : likeEscape (c :: s) = likeEscape [c] ++ likeEscape s := by simp [likeEscape]
    rw [hsplit, ← ih, replaceChar_cons, replaceChar_append, replaceChar_append]
    congr 1
    by_cases h₁ : c = '\\'
    · subst h₁; decide
    · by_cases h₂ : c = '%'
      · subst h₂; decide
      · by_cases h₃ : c = '_'
        · subst h₃; decide
        · simp [h₁, h₂, h₃, replaceChar, likeEscape]

private theorem sqlLike_eq_likeTruth (v : Option Value) (pattern : List Char)
    (test : List Char → Bool) (h : ∀ s, likeMatch pattern s = test s) :
    sqlLike v (.str (String.ofList pattern)) = likeTruth v test := by
  cases v with
  | none => rfl
  | some x =>
    cases x with
    | text s => simp [sqlLike, likeTruth, textTest, h]
    | _ => rfl

/-! ### What the shared code emits -/

/-- A parameter style binds every literal as the value it denotes. -/
structure ParameterStyle.Faithful (style : ParameterStyle) : Prop where
  literal : ∀ (clock : Clock) (temporal : Bool) (l : LiteralValue),
    (∀ k, l ≠ .temporal (.keyword k)) →
      readScalar temporal (style.convertLiteralToParameter l) = readLiteral clock temporal l
  dayBound : ∀ (temporal : Bool) (d : Date),
    readScalar temporal (style.dayBound (.ofDate d)) = readScalar temporal (.datetime (.ofDate d))

/-- A column of a row, and the time at which it is tested. -/
structure Site where
  clock : Clock
  row : FieldPath → Option Value
  col : BoundFieldPath

namespace Site

variable (S : Site)

def value : Option Value := S.row S.col.path

def reading : Reading := sqlReading S.clock S.col

/-- The operand denotes `w`, in every statement with these parameters. -/
def Denotes (w : Option Value) (full : List Scalar) (x : SqlOperand) : Prop :=
  Env.read ⟨S.clock, full, S.row⟩ S.col x = w

/-- The condition has truth `t`, in every statement with these parameters. -/
def HasTruth (t : Truth) (full : List Scalar) (c : Condition) : Prop :=
  c.eval ⟨S.clock, full, S.row⟩ = t

end Site

theorem map_eval_of_forall₂ {α : Type*} {S : Site} {f : α → Truth} {full : List Scalar}
    {l : List α} {cs : List Condition} (h : List.Forall₂ (fun a c => S.HasTruth (f a) full c) l cs) :
    cs.map (Condition.eval ⟨S.clock, full, S.row⟩) = l.map f := by
  induction h with
  | nil => rfl
  | cons h _ ih => rw [List.map_cons, List.map_cons, ih, h]

theorem eval_bracketAnd (env : Env) {preds : List Condition} (h : preds ≠ []) :
    (bracketAnd preds).eval env = .conj (preds.map (Condition.eval env)) := by
  match preds, h with
  | [pred], _ => simp [bracketAnd, Truth.conj]
  | p :: q :: rest, h => exact Condition.eval_joinAnd env h

theorem eval_bracketOr (env : Env) {preds : List Condition} (h : preds ≠ []) :
    (bracketOr preds).eval env = .disj (preds.map (Condition.eval env)) := by
  match preds, h with
  | [pred], _ => simp [bracketOr, Truth.disj]
  | p :: q :: rest, h => exact Condition.eval_joinOr env h

theorem eval_allOf (env : Env) (preds : List Condition) :
    (allOf preds).eval env = .conj (preds.map (Condition.eval env)) := by
  cases preds with
  | nil => rfl
  | cons p ps => exact eval_bracketAnd env (List.cons_ne_nil p ps)

theorem eval_anyOf (env : Env) {preds : List Condition} (h : preds ≠ []) :
    (anyOf preds).eval env = .disj (preds.map (Condition.eval env)) := by
  cases preds with
  | nil => exact absurd rfl h
  | cons p ps => exact eval_bracketOr env h

/-- The null elements of a set leave others behind unless they are all there is. -/
theorem any_isNull_of_filter_eq_nil {elements : List ValueSetElement} (h : elements ≠ [])
    (hnil : elements.filter (!·.isNull) = []) : elements.any (·.isNull) = true := by
  cases elements with
  | nil => exact absurd rfl h
  | cons e es =>
    have he := List.filter_eq_nil_iff.mp hnil e (by simp)
    simp only [Bool.not_eq_true', Bool.not_eq_false] at he
    simp [he]

theorem ne_nil_of_forall₂ {α β : Type*} {R : α → β → Prop} {l : List α} {l' : List β}
    (h : List.Forall₂ R l l') (hne : l ≠ []) : l' ≠ [] := by
  rintro rfl
  cases h
  exact hne rfl

theorem sqlCompare_none_right {V : Type*} [LinearOrder V] (op : ComparisonOperator) (v : Option V) :
    sqlCompare op v none = .unknown := by cases v <;> rfl

theorem hasTruth_lowerNullTest (S : Site) (op : ComparisonOperator) (full : List Scalar) :
    S.HasTruth (nullTestTruth S.value op) full (lowerNullTest S.col op) := by
  cases op <;> first | rfl | exact sqlCompare_none_right _ _

section
variable {style : ParameterStyle} (hs : style.Faithful) (S : Site)

theorem emits_addParam (s : Scalar) :
    Emits (addParam s) (S.Denotes (readScalar S.col.isTemporal s)) := by
  refine Emits.bind (Emits.emit s) fun i => Emits.pure fun full hi => ?_
  simp [Site.Denotes, Env.read, Env.scalar, hi]

include hs

theorem emits_lowerLiteral (l : LiteralValue) :
    Emits (style.lowerLiteral l) (S.Denotes (S.reading.literal l)) := by
  have hparam : (∀ k, l ≠ .temporal (.keyword k)) →
      Emits (addParam (style.convertLiteralToParameter l)) (S.Denotes (S.reading.literal l)) := by
    intro hk
    have hadd := emits_addParam S (style.convertLiteralToParameter l)
    rw [hs.literal S.clock _ l hk] at hadd
    exact hadd
  cases l with
  | temporal t =>
    cases t with
    | keyword k => exact Emits.pure fun full => rfl
    | value d => exact hparam (by simp)
  | null => exact Emits.pure fun full => rfl
  | string s => exact hparam (by simp)
  | integer n => exact hparam (by simp)
  | float x => exact hparam (by simp)
  | boolean b => exact hparam (by simp)

theorem emits_lowerCompare (op : ComparisonOperator) (l : LiteralValue) :
    Emits (style.lowerCompare S.col op l) (S.HasTruth (plainTruth S.reading S.value op l)) := by
  refine Emits.bind (emits_lowerLiteral hs S l) fun x => Emits.pure fun full hx => ?_
  simp only [Site.HasTruth, Condition.eval, plainTruth, ← (show _ = _ from hx)]
  rfl

theorem emits_lowerBetween (r : Range) :
    Emits (style.lowerBetween S.col r) (S.HasTruth (betweenTruth S.reading S.value r)) := by
  refine Emits.bind (emits_lowerLiteral hs S r.start) fun lo => ?_
  refine Emits.bind (emits_lowerLiteral hs S r.stop) fun hi => Emits.pure fun full hhi hlo => ?_
  simp only [Site.HasTruth, Condition.eval, betweenTruth, plainTruth,
    ← (show _ = _ from hlo), ← (show _ = _ from hhi)]
  rfl

theorem emits_lowerCompound (cs : List ComparisonConstraint) (hcs : cs ≠ []) :
    Emits (style.lowerCompound S.col cs) (S.HasTruth (compoundTruth S.reading S.value cs)) := by
  refine Emits.bind (Emits.mapM fun c _ => emits_lowerCompare hs S c.operator c.value) fun preds =>
    Emits.pure fun full hpreds => ?_
  change (Condition.joinAnd preds).eval _ = _
  rw [Condition.eval_joinAnd _ (ne_nil_of_forall₂ hpreds hcs), map_eval_of_forall₂ hpreds]
  rfl

/-- The day of a date, as values of a timestamp column. -/
def dayOf (d : Date) : Value × Value := (.instant d.midnight, .instant (d.midnight + dayLength))

theorem emits_lowerDayBounds (d : Date) (hts : S.col.isTimestampField = true) :
    Emits (style.lowerDayBounds d) fun full p =>
      S.Denotes (some (dayOf d).1) full p.1 ∧ S.Denotes (some (dayOf d).2) full p.2 := by
  have htemporal := BoundFieldPath.isTemporal_of_isTimestampField hts
  have hbound : ∀ d' : Date, readScalar S.col.isTemporal (style.dayBound (.ofDate d')) =
      some (.instant d'.midnight) := by
    intro d'
    rw [hs.dayBound, htemporal]
    simp [readScalar]
  cases hnext : d.next? with
  | none =>
    have hrange : parseDateOnlyRange d = throw dateOverflow := by
      simp [parseDateOnlyRange, DateTime.addDay?_ofDate, hnext]
    simp only [ParameterStyle.lowerDayBounds, hrange]
    exact Emits.throw (e := dateOverflow)
  | some d' =>
    have hrange : parseDateOnlyRange d = pure (.ofDate d, .ofDate d') := by
      simp [parseDateOnlyRange, DateTime.addDay?_ofDate, hnext]
    simp only [ParameterStyle.lowerDayBounds, hrange, pure_bind]
    refine Emits.bind (emits_addParam S _) fun p₁ => ?_
    refine Emits.bind (emits_addParam S _) fun p₂ => Emits.pure fun full hp₂ hp₁ => ?_
    rw [hbound] at hp₁ hp₂
    rw [dayOf, ← Date.midnight_next? hnext]
    exact ⟨hp₁, hp₂⟩

theorem emits_lowerDay (d : Date) (hts : S.col.isTimestampField = true) :
    Emits (style.lowerDay S.col d) (S.HasTruth (dayTruth S.value (dayOf d))) := by
  refine Emits.bind (emits_lowerDayBounds hs S d hts) fun p => Emits.pure fun full hp => ?_
  rw [dayTruth, ← (show _ = _ from hp.1), ← (show _ = _ from hp.2)]
  rfl

theorem emits_lowerEquals (l : LiteralValue) :
    Emits (style.lowerEquals S.col l) (S.HasTruth (equalsTruth S.reading S.value l)) := by
  have hplain := emits_lowerCompare hs S .eq l
  by_cases hday : S.reading.day? l = none
  · rw [equalsTruth, hday, Option.elim_none]
    unfold ParameterStyle.lowerEquals
    split
    · rename_i d hd
      rw [if_neg]
      · exact hplain
      · intro hts
        have hts' : S.reading.isTimestamp = true := hts
        cases l with
        | temporal t => cases t <;> simp_all [dateOnly?, Reading.day?]
        | _ => cases hd
    · exact hplain
  · obtain ⟨d, rfl, hts⟩ : ∃ d, l = .temporal (.value d) ∧ S.reading.isTimestamp = true := by
      cases l with
      | temporal t =>
        cases t with
        | keyword k => exact absurd rfl hday
        | value d =>
          refine ⟨d, rfl, ?_⟩
          by_contra hts
          exact hday (by simp [Reading.day?, hts])
      | _ => exact absurd rfl hday
    have hts' : S.col.isTimestampField = true := hts
    simp only [ParameterStyle.lowerEquals, dateOnly?, hts', if_true, equalsTruth, Reading.day?, hts,
      Option.elim_some]
    exact emits_lowerDay hs S d hts'

theorem emits_lowerConstraint (c : ComparisonConstraint) :
    Emits (style.lowerConstraint S.col c)
      (S.HasTruth (bareConstraintTruth S.reading S.value c)) := by
  obtain ⟨op, l⟩ := c
  have hcompare := fun op => emits_lowerCompare hs S op l
  have horNull : Emits (do return .group (.or (← style.lowerCompare S.col .neq l) (.isNull S.col)))
      (S.HasTruth ((plainTruth S.reading S.value .neq l).or (isNullTruth S.value))) := by
    refine Emits.bind (hcompare .neq) fun pred => Emits.pure fun full hpred => ?_
    rw [← (show _ = _ from hpred)]
    rfl
  have hequals := emits_lowerEquals hs S l
  cases l with
  | null => exact Emits.pure fun full => hasTruth_lowerNullTest S op full
  | _ =>
    cases op with
    | eq => exact hequals
    | neq => exact horNull
    | _ => exact hcompare _

end

/-! ### String operators -/

theorem likeMatch_infixPattern (text : String) (s : List Char) :
    likeMatch (ParameterStyle.infixPattern text) s = decide (text.toList <:+: s) := by
  rw [ParameterStyle.infixPattern, escapeLikeOperand_eq, Bool.eq_iff_iff, likeMatch_infix,
    decide_eq_true_iff]

section
variable (S : Site)

theorem emits_addPattern (pattern : List Char) :
    Emits (ParameterStyle.addPattern pattern) fun full x =>
      (Env.scalar ⟨S.clock, full, S.row⟩ x) = .str (String.ofList pattern) := by
  refine Emits.bind (Emits.emit _) fun i => Emits.pure fun full hi => ?_
  simp [Env.scalar, hi]

/-- A `LIKE` with a pattern that stands for `test`. -/
theorem emits_like {pattern : List Char} {test : List Char → Bool}
    (h : ∀ s, likeMatch pattern s = test s) :
    Emits (do return Condition.like S.col (← ParameterStyle.addPattern pattern))
      (S.HasTruth (likeTruth S.value test)) := by
  refine Emits.bind (emits_addPattern S pattern) fun x => Emits.pure fun full hx => ?_
  simp only [Site.HasTruth, Condition.eval, hx]
  exact sqlLike_eq_likeTruth _ _ _ h

theorem emits_notLike (text : String) :
    Emits (do
      let p ← ParameterStyle.addPattern (ParameterStyle.infixPattern text)
      return Condition.notLike S.col p) (S.HasTruth (infixTruth S.value text).neg) := by
  refine Emits.bind (emits_addPattern S _) fun x => Emits.pure fun full hx => ?_
  simp only [Site.HasTruth, Condition.eval, hx]
  exact congrArg Truth.neg (sqlLike_eq_likeTruth _ _ _ (likeMatch_infixPattern text))

variable {style : ParameterStyle} (hs : style.Faithful)
include hs

theorem emits_lowerOutside (r : Range) (make : SqlOperand → SqlOperand → Condition)
    (t : Truth → Truth)
    (hmake : ∀ full lo hi, (make lo hi).eval ⟨S.clock, full, S.row⟩ =
      t ((Condition.compare S.col .lt lo).eval ⟨S.clock, full, S.row⟩ |>.or
        ((Condition.compare S.col .gt hi).eval ⟨S.clock, full, S.row⟩))) :
    Emits (do
      let lo ← style.lowerLiteral r.start
      let hi ← style.lowerLiteral r.stop
      return make lo hi) (S.HasTruth (t (outsideTruth S.reading S.value r))) := by
  refine Emits.bind (emits_lowerLiteral hs S r.start) fun lo => ?_
  refine Emits.bind (emits_lowerLiteral hs S r.stop) fun hi => Emits.pure fun full hhi hlo => ?_
  rw [Site.HasTruth, hmake, outsideTruth, plainTruth, plainTruth, ← (show _ = _ from hlo),
    ← (show _ = _ from hhi)]
  rfl

theorem emits_lowerHasElement {e : ValueSetElement} (he : e.isNull = false) :
    Emits (style.lowerHasElement S.col e) (S.HasTruth (hasElementTruth S.reading S.value e)) := by
  cases e with
  | range r => exact emits_lowerBetween hs S r
  | literal l =>
    cases l with
    | null => cases he
    | _ => exact emits_like S (likeMatch_infixPattern _)
  | _ => exact emits_like S (likeMatch_infixPattern _)

theorem emits_lowerNotHasElement {e : ValueSetElement} (he : e.isNull = false) :
    Emits (style.lowerNotHasElement S.col e)
      (S.HasTruth (notHasElementTruth S.reading S.value e)) := by
  cases e with
  | range r => exact emits_lowerOutside S hs r _ id fun _ _ _ => rfl
  | literal l =>
    cases l with
    | null => cases he
    | _ => exact emits_notLike S _
  | _ => exact emits_notLike S _

theorem emits_lowerHasSet {elements : List ValueSetElement} (hne : elements ≠ []) :
    Emits (style.lowerHasSet S.col elements)
      (S.HasTruth (.disj (elements.map (hasElementTruth S.reading S.value)))) := by
  have hnull : ∀ e ∈ elements, e.isNull = true →
      hasElementTruth S.reading S.value e = isNullTruth S.value := by
    rintro (l | r | c | cs) - he
    · cases l <;> first | rfl | cases he
    all_goals cases he
  refine Emits.bind (Emits.mapM fun e he => emits_lowerHasElement S hs
    (by simpa using (List.mem_filter.mp he).2)) fun likes => Emits.pure fun full hlikes => ?_
  rw [Truth.disj_partition _ _ _ _ hnull, ← map_eval_of_forall₂ hlikes, Site.HasTruth, eval_anyOf]
  · rw [List.map_append, Truth.disj_append]
    split_ifs
    · rw [Truth.or_comm]
      congr 1
      exact Truth.or_no _
    · rw [List.map_nil, Truth.or_no]
      exact Truth.no_or _
  · intro hnil
    obtain ⟨hnil₁, rfl⟩ := List.append_eq_nil_iff.mp hnil
    have hany := any_isNull_of_filter_eq_nil hne (List.forall₂_nil_right_iff.mp hlikes)
    simp [hany] at hnil₁

theorem emits_lowerNotHasSet {elements : List ValueSetElement} (hne : elements ≠ []) :
    Emits (style.lowerNotHasSet S.col elements)
      (S.HasTruth (stringTruth S.reading S.value .notHas (.valueSet elements))) := by
  have hnull : ∀ e ∈ elements, e.isNull = true →
      notHasElementTruth S.reading S.value e = isNotNullTruth S.value := by
    rintro (l | r | c | cs) - he
    · cases l <;> first | rfl | cases he
    all_goals cases he
  unfold ParameterStyle.lowerNotHasSet
  refine Emits.bind (Emits.mapM fun e he => emits_lowerNotHasElement S hs
    (by simpa using (List.mem_filter.mp he).2)) fun notLikes => ?_
  simp only [stringTruth, Truth.conj_partition _ _ _ _ hnull]
  by_cases hany : elements.any (·.isNull) = true
  · simp only [hany, if_true]
    by_cases hempty : notLikes = []
    · subst hempty
      refine Emits.pure fun full hlikes => ?_
      rw [List.forall₂_nil_right_iff.mp hlikes]
      exact (Truth.yes_and _).symm
    · rw [if_neg (by simpa using hempty)]
      refine Emits.pure fun full hlikes => ?_
      rw [← map_eval_of_forall₂ hlikes, ← eval_bracketAnd _ hempty]
      rfl
  · simp only [hany, if_false, Bool.false_eq_true]
    by_cases hempty : notLikes = []
    · subst hempty
      refine Emits.pure fun full hlikes => ?_
      exact absurd (any_isNull_of_filter_eq_nil hne (List.forall₂_nil_right_iff.mp hlikes)) hany
    · rw [if_neg (by simpa using hempty)]
      refine Emits.pure fun full hlikes => ?_
      rw [Truth.and_yes, ← map_eval_of_forall₂ hlikes, ← eval_bracketAnd _ hempty]
      rfl

theorem emits_lowerStringOperator (op : StringOperator) (operand : Operand)
    (hne : operand ≠ .valueSet []) :
    Emits (style.lowerStringOperator S.col op operand)
      (S.HasTruth (stringTruth S.reading S.value op operand)) := by
  have hinit : ∀ t s : List Char, likeMatch (likeEscape t ++ ['%']) s = decide (t <+: s) := by
    intro t s
    rw [Bool.eq_iff_iff, likeMatch_startsWith, decide_eq_true_iff]
  have hsuffix : ∀ t s : List Char, likeMatch ('%' :: likeEscape t) s = decide (t <:+ s) := by
    intro t s
    rw [Bool.eq_iff_iff, likeMatch_suffix, decide_eq_true_iff]
  have hstarts : Emits (style.lowerStringOperator S.col .starts operand)
      (S.HasTruth (stringTruth S.reading S.value .starts operand)) :=
    emits_like S fun s => by rw [escapeLikeOperand_eq, hinit]
  have hends : Emits (style.lowerStringOperator S.col .ends operand)
      (S.HasTruth (stringTruth S.reading S.value .ends operand)) :=
    emits_like S fun s => by rw [escapeLikeOperand_eq, hsuffix]
  have hnotHas : ∀ text, Emits (do
      let p ← ParameterStyle.addPattern (ParameterStyle.infixPattern text)
      return Condition.group (.or (.notLike S.col p) (.isNull S.col)))
      (S.HasTruth ((infixTruth S.value text).neg.or (isNullTruth S.value))) := by
    intro text
    refine Emits.bind (emits_addPattern S _) fun x => Emits.pure fun full hx => ?_
    simp only [Site.HasTruth, Condition.eval, hx]
    rw [sqlLike_eq_likeTruth _ _ _ (likeMatch_infixPattern text)]
    rfl
  cases op with
  | starts => exact hstarts
  | ends => exact hends
  | has =>
    cases operand with
    | valueSet elements => exact emits_lowerHasSet S hs fun h => hne (by rw [h])
    | _ => exact emits_like S (likeMatch_infixPattern _)
  | notHas =>
    cases operand with
    | valueSet elements => exact emits_lowerNotHasSet S hs fun h => hne (by rw [h])
    | _ => exact hnotHas _

end

end AltrStream.Lowering
