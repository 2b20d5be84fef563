import AltrStream.Lowering.MongoMatching
import AltrStream.Lowering.SqlMeaning
import AltrStream.QueryEngine.LiteralTypes

/-! # Which MongoDB filters mean what AltrQL says

A compound constraint keeps one constraint of each operator, an element of a
`!=` set that is no scalar does not match a missing field, and a comparison
other than `=` does not read a date as a day.
-/
namespace AltrStream.Lowering.MongoDB
open Foundations Python QueryEngine Semantics

section
variable (ρ : Reading) (v : Option Value)

/-- A constraint that the filter decides otherwise than meant. -/
def misreadConstraint (c : ComparisonConstraint) : Prop :=
  match c.operator with
  | .eq | .neq => InsideDay ρ v c.value
  | .gte | .lte => c.value = .null ∧ v = none
  | .gt | .lt => False

/-- A constraint whose inversion is decided otherwise than meant. -/
def misreadInverted (c : ComparisonConstraint) : Prop :=
  match c.operator with
  | .eq | .neq => InsideDay ρ v c.value
  | .gt | .lt => ¬ (c.value = .null ↔ v = none)
  | .gte | .lte => c.value = .null ∨ v = none

/-- A later constraint has the same operator and another literal. -/
def Dropped (cs : List ComparisonConstraint) (c : ComparisonConstraint) : Prop :=
  (constraintDict cs).get? c.operator ≠ some c.value

/-- A dropped constraint always passes. -/
def misreadMember (cs : List ComparisonConstraint) (c : ComparisonConstraint) : Prop :=
  (Dropped cs c ∧ ¬ ρ.compare v c.operator c.value = true) ∨
    (¬ Dropped cs c ∧ misreadConstraint ρ v c)

/-- The elements of an `=` set that are decided otherwise than meant. -/
def misreadEquality : ValueSetElement → Prop
  | .constraint c => misreadConstraint ρ v c
  | .compound cs =>
    ¬ AllSettled cs (fun c => ρ.compare v c.operator c.value = true) (misreadMember ρ v cs)
  | _ => False

/-- The elements of a `!=` set that are decided otherwise than meant. -/
def misreadInequality : ValueSetElement → Prop
  | .literal l => ρ.day? l ≠ none ∧ v = none
  | .range _ => v = none
  | .constraint c => misreadInverted ρ v c
  | .compound cs =>
    ¬ AnySettled cs (fun c => ¬ ρ.compare v c.operator c.value = true) (misreadInverted ρ v)

/-- The comparison of the document's value with the operand comes out as meant. -/
def ReadsRight : ComparisonOperator → Operand → Prop
  | .eq, .valueSet elements =>
    AnySettled elements (fun e => ρ.memberOf v e = true) (misreadEquality ρ v)
  | .neq, .valueSet elements =>
    AllSettled elements (fun e => ¬ ρ.memberOf v e = true) (misreadInequality ρ v)
  | .eq, _ => True
  | op, .literal l => ¬ misreadConstraint ρ v ⟨op, l⟩
  | _, _ => True

/-- A value that is compared with the literal has its type. -/
def SameTypeAs (l : LiteralValue) : Prop :=
  ∀ x y, v = some x → ρ.literal l = some y → sameType x y = true

end

section
variable {ρ : Reading} {v : Option Value} (hρ : ProperReading ρ)
include hρ

theorem compareLiteral_null (op : ComparisonOperator) :
    compareLiteral ρ v op .null = compareBson op v none := by
  rw [compareLiteral, (hρ.literal .null).2 rfl]

theorem compareLiteral_ordering {op : ComparisonOperator} (hop : op.isOrdering = true)
    {l : LiteralValue} (hl : l ≠ .null) (htype : SameTypeAs ρ v l) :
    compareLiteral ρ v op l = Reading.order op v (ρ.literal l) := by
  obtain ⟨y, hy⟩ := Option.ne_none_iff_exists'.1 (mt (hρ.literal l).1 hl)
  unfold compareLiteral
  rw [hy]
  cases v with
  | none => cases op <;> first | rfl | cases hop
  | some x =>
    have hsame : sameType x y = true := htype x y rfl hy
    cases op with
    | eq | neq => cases hop
    | _ => simp [compareBson, Reading.order, hsame]

/-- A value that has the type of a date has the type of the bounds of its day. -/
theorem sameType_day {l : LiteralValue} {day : Value × Value} (hday : ρ.day? l = some day) {x : Value}
    (htype : SameTypeAs ρ (some x) l) : sameType x day.1 = true ∧ sameType x day.2 = true := by
  have hsame : sameType x day.1 = true := htype x day.1 rfl (hρ.day l day.1 day.2 hday).1
  refine ⟨hsame, ?_⟩
  rcases l with s | n | y | b | _ | (k | d) <;> try cases hday
  by_cases hts : ρ.isTimestamp = true
  · obtain rfl : day = (.instant d.midnight, .instant (d.midnight + dayLength)) :=
      (Option.some.inj ((if_pos hts).symm.trans hday)).symm
    cases x <;> first | rfl | cases hsame
  · exact nomatch (if_neg hts).symm.trans hday

theorem equalsLiteral_eq {l : LiteralValue} (htype : SameTypeAs ρ v l) :
    equalsLiteral ρ v l = ρ.equals v l := by
  unfold equalsLiteral Reading.equals
  cases hday : ρ.day? l with
  | none => rfl
  | some day =>
    cases v with
    | none => rfl
    | some x =>
      obtain ⟨hstart, hstop⟩ := sameType_day hρ hday htype
      simp [insideBounds, compareBson, Reading.order, hstart, hstop]

theorem excludesLiteral_iff {l : LiteralValue} (htype : SameTypeAs ρ v l) :
    excludesElement ρ v (.literal l) = true ↔
      ¬ ρ.equals v l = true ∧ ¬ (ρ.day? l ≠ none ∧ v = none) := by
  unfold excludesElement Reading.equals
  cases hday : ρ.day? l with
  | none => simp [hday]
  | some day =>
    cases v with
    | none => simp [hday, compareBson]
    | some x =>
      obtain ⟨hstart, hstop⟩ := sameType_day hρ hday htype
      simp [hday, compareBson, Reading.order, hstart, hstop, ComparisonOperator.holds]
      grind

/-- Equality is equality of the values, or membership of the literal's day. -/
theorem equals_iff {l : LiteralValue} :
    ρ.equals v l = true ↔ v = ρ.literal l ∨ InsideDay ρ v l := by
  by_cases hl : l = .null
  · subst hl
    have hday : ¬ InsideDay ρ v .null := fun h => h.ne_null rfl
    rw [equals_null hρ, (hρ.literal .null).2 rfl, or_iff_left hday]
  · rw [equals_eq_true hρ hl, plainTruth_eq_yes]
    obtain ⟨y, hy⟩ := Option.ne_none_iff_exists'.1 (mt (hρ.literal l).1 hl)
    rw [hy]
    cases v <;> simp [Reading.order, ComparisonOperator.holds]

theorem InsideDay.ne_literal {l : LiteralValue} (h : InsideDay ρ v l) : v ≠ ρ.literal l := by
  obtain ⟨start, stop, x, hday, rfl, hlt, -⟩ := h
  rw [(hρ.day l start stop hday).1]
  exact fun heq => hlt.ne' (Option.some.inj heq)

theorem misreadConstraint_iff {c : ComparisonConstraint} (htype : SameTypeAs ρ v c.value) :
    misreadConstraint ρ v c ↔ ¬ (compareLiteral ρ v c.operator c.value = true ↔
      ρ.compare v c.operator c.value = true) := by
  obtain ⟨op, l⟩ := c
  have hequals := equals_iff hρ (v := v) (l := l)
  have hday := fun h : InsideDay ρ v l => InsideDay.ne_literal hρ h
  have hordering : op.isOrdering = true → l ≠ .null → compareLiteral ρ v op l =
      Reading.order op v (ρ.literal l) := fun hop hl => compareLiteral_ordering hρ hop hl htype
  cases op with
  | eq =>
    have hcompare : compareLiteral ρ v .eq l = true ↔ v = ρ.literal l := decide_eq_true_iff
    simp only [misreadConstraint, hcompare, Reading.compare, hequals]
    tauto
  | neq =>
    have hcompare : compareLiteral ρ v .neq l = true ↔ v ≠ ρ.literal l := decide_eq_true_iff
    simp only [misreadConstraint, hcompare, Reading.compare, Bool.not_eq_true',
      ← Bool.not_eq_true, hequals]
    tauto
  | _ =>
    by_cases hl : l = .null
    · subst hl
      rw [compareLiteral_null hρ]
      cases v <;> simp [misreadConstraint, compareBson, Reading.compare, Reading.order,
        (hρ.literal .null).2 rfl]
    · simp [misreadConstraint, hordering rfl hl, Reading.compare, hl]

theorem misreadInverted_iff {c : ComparisonConstraint} (htype : SameTypeAs ρ v c.value) :
    misreadInverted ρ v c ↔ ¬ (compareLiteral ρ v (invertOperator c.operator) c.value = true ↔
      ¬ ρ.compare v c.operator c.value = true) := by
  obtain ⟨op, l⟩ := c
  have hequals := equals_iff hρ (v := v) (l := l)
  have hday := fun h : InsideDay ρ v l => InsideDay.ne_literal hρ h
  cases op with
  | eq =>
    have hcompare : compareLiteral ρ v .neq l = true ↔ v ≠ ρ.literal l := decide_eq_true_iff
    simp only [misreadInverted, invertOperator, hcompare, Reading.compare, hequals]
    tauto
  | neq =>
    have hcompare : compareLiteral ρ v .eq l = true ↔ v = ρ.literal l := decide_eq_true_iff
    simp only [misreadInverted, invertOperator, hcompare, Reading.compare, Bool.not_eq_true',
      ← Bool.not_eq_true, hequals]
    tauto
  | _ =>
    by_cases hl : l = .null
    · subst hl
      simp only [invertOperator]
      rw [compareLiteral_null hρ]
      cases v <;> simp [misreadInverted, compareBson, Reading.compare, Reading.order,
        (hρ.literal .null).2 rfl]
    · obtain ⟨y, hy⟩ := Option.ne_none_iff_exists'.1 (mt (hρ.literal l).1 hl)
      simp only [invertOperator]
      rw [compareLiteral_ordering hρ rfl hl htype]
      cases v <;> simp [misreadInverted, Reading.compare, Reading.order, hl, hy,
        ComparisonOperator.holds]

omit hρ in
/-- A compound constraint tests the constraints that it has not dropped. -/
theorem matchesCompound_iff {cs : List ComparisonConstraint} :
    matchesCompound ρ v cs = true ↔
      ∀ c ∈ cs, Dropped cs c ∨ compareLiteral ρ v c.operator c.value = true := by
  unfold matchesCompound
  rw [List.all_eq_true]
  constructor
  · intro h c hc
    by_cases hkept : (constraintDict cs).get? c.operator = some c.value
    · exact .inr (h (c.operator, c.value) (Dict.mem_ofEntries_iff.2 hkept))
    · exact .inl hkept
  · rintro h ⟨op, l⟩ he
    have hkept : (constraintDict cs).get? op = some l := Dict.mem_ofEntries_iff.1 he
    rcases Dict.get?_update_cases hkept with hnil | hmem
    · cases hnil
    · obtain ⟨⟨op', l'⟩, hc, heq⟩ := List.mem_map.1 hmem
      cases heq
      exact (h _ hc).resolve_left fun hdropped => hdropped hkept

theorem misreadMember_iff {cs : List ComparisonConstraint} {c : ComparisonConstraint}
    (htype : SameTypeAs ρ v c.value) :
    misreadMember ρ v cs c ↔ ¬ (Dropped cs c ∨ compareLiteral ρ v c.operator c.value = true ↔
      ρ.compare v c.operator c.value = true) := by
  have hconstraint := misreadConstraint_iff hρ htype
  unfold misreadMember
  tauto

theorem matchesCompound_agrees {cs : List ComparisonConstraint}
    (htypes : ∀ c ∈ cs, SameTypeAs ρ v c.value) :
    (matchesCompound ρ v cs = true ↔ ρ.memberOf v (.compound cs) = true) ↔
      AllSettled cs (fun c => ρ.compare v c.operator c.value = true) (misreadMember ρ v cs) := by
  rw [matchesCompound_iff, Reading.memberOf, List.all_eq_true]
  exact all_agrees_iff fun c hc => misreadMember_iff hρ (htypes c hc)

theorem between_agrees {r : Range} (hr : r.WellFormed) (hstart : SameTypeAs ρ v r.start)
    (hstop : SameTypeAs ρ v r.stop) : betweenLiterals ρ v r = ρ.between v r := by
  rw [betweenLiterals, compareLiteral_ordering hρ rfl hr.1 hstart,
    compareLiteral_ordering hρ rfl hr.2 hstop, Reading.between]

/-- Outside a range is the complement of inside it, but for NULL. -/
theorem outside_agrees {r : Range} (hr : r.WellFormed) (hstart : SameTypeAs ρ v r.start)
    (hstop : SameTypeAs ρ v r.stop) :
    outsideLiterals ρ v r = true ↔ v ≠ none ∧ ¬ ρ.between v r = true := by
  obtain ⟨start, hs⟩ := Option.ne_none_iff_exists'.1 (mt (hρ.literal _).1 hr.1)
  obtain ⟨stop, ht⟩ := Option.ne_none_iff_exists'.1 (mt (hρ.literal _).1 hr.2)
  rw [outsideLiterals, compareLiteral_ordering hρ rfl hr.1 hstart,
    compareLiteral_ordering hρ rfl hr.2 hstop, Reading.between, hs, ht]
  cases v with
  | none => simp [Reading.order]
  | some x =>
    simp [Reading.order, ComparisonOperator.holds]
    grind

theorem misreadEquality_iff {e : ValueSetElement} (he : e.WellFormed)
    (htypes : ∀ l ∈ e.literals, SameTypeAs ρ v l) :
    misreadEquality ρ v e ↔ ¬ (matchesElement ρ v e = true ↔ ρ.memberOf v e = true) := by
  cases e with
  | literal l =>
    have hequals : equalsLiteral ρ v l = ρ.equals v l := equalsLiteral_eq hρ (htypes l (by simp [ValueSetElement.literals]))
    simp [misreadEquality, matchesElement, Reading.memberOf, hequals]
  | range r =>
    have hbetween : betweenLiterals ρ v r = ρ.between v r :=
      between_agrees hρ he (htypes _ (by simp [ValueSetElement.literals]))
        (htypes _ (by simp [ValueSetElement.literals]))
    simp [misreadEquality, matchesElement, Reading.memberOf, hbetween]
  | constraint c => exact misreadConstraint_iff hρ (htypes _ (by simp [ValueSetElement.literals]))
  | compound cs =>
    exact not_congr (matchesCompound_agrees hρ fun c hc => htypes _ (List.mem_map_of_mem hc)).symm

theorem misreadInequality_iff {e : ValueSetElement} (he : e.WellFormed)
    (htypes : ∀ l ∈ e.literals, SameTypeAs ρ v l) :
    misreadInequality ρ v e ↔ ¬ (excludesElement ρ v e = true ↔ ¬ ρ.memberOf v e = true) := by
  cases e with
  | literal l =>
    have hexcludes := excludesLiteral_iff hρ (v := v) (htypes l (by simp [ValueSetElement.literals]))
    have hnull : v = none → ρ.day? l ≠ none → ¬ ρ.equals v l = true := by
      rintro rfl hday
      obtain ⟨day, hday⟩ := Option.ne_none_iff_exists'.1 hday
      simp [Reading.equals, hday, Reading.order]
    rw [hexcludes]
    simp only [misreadInequality, Reading.memberOf]
    tauto
  | range r =>
    have houtside := outside_agrees hρ (v := v) he (htypes _ (by simp [ValueSetElement.literals]))
      (htypes _ (by simp [ValueSetElement.literals]))
    simp only [misreadInequality, excludesElement, Reading.memberOf, houtside]
    cases v <;> simp [Reading.between, Reading.order]
  | constraint c => exact misreadInverted_iff hρ (htypes _ (by simp [ValueSetElement.literals]))
  | compound cs =>
    have hany := any_agrees_iff (l := cs)
      (t := fun c => compareLiteral ρ v (invertOperator c.operator) c.value = true)
      fun c hc => misreadInverted_iff hρ (htypes _ (List.mem_map_of_mem hc))
    simp only [misreadInequality, excludesElement, Reading.memberOf, List.any_eq_true,
      List.all_eq_true, ← hany]
    push Not
    rfl

theorem matchesLiteral_agrees (op : ComparisonOperator) {l : LiteralValue} (htype : SameTypeAs ρ v l)
    {m : Bool} (hm : ρ.comparison v op (.literal l) = some m) :
    matchesComparison ρ v op (.literal l) = m ↔ ReadsRight ρ v op (.literal l) := by
  by_cases hop : op = .eq
  · subst hop
    obtain rfl := Option.some.inj hm
    exact iff_of_true (equalsLiteral_eq hρ htype) trivial
  · have hmisread := misreadConstraint_iff hρ (c := ⟨op, l⟩) htype
    have hmeaning : ρ.compare v op l = m := by
      cases op <;> first | exact absurd rfl hop | exact Option.some.inj hm
    have hmatches : matchesComparison ρ v op (.literal l) = compareLiteral ρ v op l := by
      cases op <;> first | exact absurd rfl hop | rfl
    have hreads : ReadsRight ρ v op (.literal l) ↔ ¬ misreadConstraint ρ v ⟨op, l⟩ := by
      cases op <;> first | exact absurd rfl hop | exact Iff.rfl
    rw [hreads, hmisread, not_not, hmatches, ← hmeaning, Bool.eq_iff_iff]

/-- A filter comes out as meant exactly where `ReadsRight` holds. -/
theorem matchesComparison_agrees (op : ComparisonOperator) {operand : Operand} (h : operand.WellFormed)
    (hparsed : operand.Parsed (.comparison op)) (htypes : ∀ l ∈ operand.literals, SameTypeAs ρ v l)
    {m : Bool} (hm : ρ.comparison v op operand = some m) :
    matchesComparison ρ v op operand = m ↔ ReadsRight ρ v op operand := by
  cases operand with
  | literal l => exact matchesLiteral_agrees hρ op (htypes l (by simp [Operand.literals])) hm
  | constraint c => exact hparsed.elim
  | compound cs => exact hparsed.elim
  | range r =>
    have hstart := htypes r.start (by simp [Operand.literals])
    have hstop := htypes r.stop (by simp [Operand.literals])
    have hbetween : betweenLiterals ρ v r = ρ.between v r := between_agrees hρ h hstart hstop
    have houtside := outside_agrees hρ (v := v) h hstart hstop
    refine iff_of_true ?_ (by cases op <;> trivial)
    cases op with
    | eq => exact hbetween.trans (Option.some.inj hm)
    | neq =>
      rw [← Option.some.inj hm, matchesComparison, Reading.member, Bool.eq_iff_iff, Bool.or_eq_true,
        houtside, Bool.not_eq_true', ← Bool.not_eq_true, Option.isNone_iff_eq_none]
      have hnull : v = none → ¬ ρ.between v r = true := by
        rintro rfl
        simp [Reading.between, Reading.order]
      tauto
    | _ =>
      cases v with
      | none =>
        rw [← Option.some.inj hm]
        exact hbetween.trans rfl
      | some x => cases hm
  | valueSet elements =>
    have htypes : ∀ e ∈ elements, ∀ l ∈ e.literals, SameTypeAs ρ v l := fun e he l hl =>
      htypes l (List.mem_flatMap.2 ⟨e, he, hl⟩)
    cases op with
    | eq =>
      have hany := any_agrees_iff (l := elements) (t := fun e => matchesElement ρ v e = true)
        fun e he => misreadEquality_iff hρ (h.2 e he) (htypes e he)
      rw [← Option.some.inj hm, Bool.eq_iff_iff, matchesComparison, Reading.member, List.any_eq_true,
        List.any_eq_true]
      exact hany
    | neq =>
      have hall := all_agrees_iff (l := elements) (t := fun e => excludesElement ρ v e = true)
        fun e he => misreadInequality_iff hρ (h.2 e he) (htypes e he)
      rw [← Option.some.inj hm, Bool.eq_iff_iff, matchesComparison, Reading.member, List.all_eq_true,
        Bool.not_eq_true', List.any_eq_false]
      exact hall
    | _ => cases hparsed

end

/-! ### Filters of WHERE trees -/

theorem mongoReading_proper (clock : Clock) (col : BoundFieldPath) :
    ProperReading (mongoReading clock col) where
  literal := by
    intro l
    rcases l with s | n | x | b | _ | (k | d)
    case keyword => cases k <;> exact iff_of_false nofun nofun
    case null => exact iff_of_true rfl rfl
    all_goals exact iff_of_false nofun nofun
  day := by
    intro l start stop h
    cases l with
    | temporal t =>
      cases t with
      | keyword k => cases h
      | value d =>
        by_cases hts : col.isTimestampField = true
        · obtain ⟨rfl, rfl⟩ := Prod.mk.inj (Option.some.inj ((if_pos hts).symm.trans h))
          have hlt : d.midnight < d.midnight + dayLength := Nat.lt_add_of_pos_right (by decide)
          exact ⟨rfl, Sum.Lex.inr_lt_inr_iff.2 (Sum.Lex.inr_lt_inr_iff.2
            (Sum.Lex.inr_lt_inr_iff.2 hlt))⟩
        · exact nomatch (if_neg hts).symm.trans h
    | _ => cases h

theorem category_of_literal {clock : Clock} {col : BoundFieldPath} {l : LiteralValue} {y : Value}
    (h : (mongoReading clock col).literal l = some y) : l.category? = some y.category := by
  rcases l with s | n | x | b | _ | (k | d)
  case null => cases h
  case keyword =>
    cases k <;>
    · cases h
      rfl
  all_goals
    cases h
    rfl

theorem sameType_iff {x y : Value} : sameType x y = true ↔ x.category = y.category := by
  cases x <;> cases y <;> simp [sameType, Value.category]

section
variable (regex : String → String → Bool) (clock : Clock) (doc : Document)

/-- What AltrQL means a leaf to be on a document, if it means anything. -/
def leafMeaning (leaf : BoundFieldExpression) : Option Bool :=
  (mongoReading clock leaf.field).meaning (doc leaf.field.fullPath).read leaf.operator leaf.operand

/-- The document is kept by the filter of the leaf as the leaf is meant. -/
def LeafReadsRight (leaf : BoundFieldExpression) : Prop :=
  ∀ op, leaf.operator = .comparison op →
    ReadsRight (mongoReading clock leaf.field) (doc leaf.field.fullPath).read op leaf.operand

/-- The filter of a WHERE tree matches the document exactly when the tree over the meanings of
its leaves is true. -/
def MatchesAsMeant (e : BoundExpression) : Prop :=
  ∃ f, lowerExpression clock e = .ok f ∧ ∀ m : BoundFieldExpression → Bool,
    (∀ leaf ∈ e.atoms, leafMeaning clock doc leaf = some (m leaf)) →
      (f.matches regex doc = true ↔ e.eval m = true)

variable {regex clock doc}

theorem leafMatches_agrees {leaf : BoundFieldExpression} (hwf : leaf.operand.WellFormed)
    (hparsed : leaf.operand.Parsed leaf.operator) (hchecked : leaf.TypeChecked)
    (hop : ∃ op, leaf.operator = .comparison op) (htypes : leaf.Types (doc leaf.field.fullPath).read)
    {m : Bool} (hm : leafMeaning clock doc leaf = some m) :
    leafMatches regex clock doc leaf = m ↔ LeafReadsRight clock doc leaf := by
  obtain ⟨op, hop⟩ := hop
  have hsame : ∀ l ∈ leaf.operand.literals,
      SameTypeAs (mongoReading clock leaf.field) (doc leaf.field.fullPath).read l := by
    intro l hl x y hx hy
    have hcategory := htypes.category hop hparsed hchecked hx l hl _ (category_of_literal hy)
    exact sameType_iff.2 hcategory.symm
  have hreads : LeafReadsRight clock doc leaf ↔ ReadsRight (mongoReading clock leaf.field)
      (doc leaf.field.fullPath).read op leaf.operand :=
    ⟨fun h => h op hop, fun h op' hop' => by cases hop.symm.trans hop'; exact h⟩
  rw [leafMeaning, hop] at hm
  rw [hreads, leafMatches, hop]
  exact matchesComparison_agrees (mongoReading_proper clock leaf.field) op hwf (hop ▸ hparsed) hsame hm

/-- A filter matches the documents that its tree is meant to keep exactly where no leaf raises
and where reading the misread leaves the other way leaves the tree's value as it is. -/
theorem matchesAsMeant_iff {q : BoundAltrQueryIR} (hq : Accepted q) {e : BoundExpression}
    (he : q.where_ = some e) (hops : ∀ leaf ∈ e.atoms, ∃ op, leaf.operator = .comparison op)
    (htypes : ∀ leaf ∈ e.atoms, leaf.Types (doc leaf.field.fullPath).read) :
    MatchesAsMeant regex clock doc e ↔ (∀ leaf ∈ e.atoms, LeafFits Fits leaf) ∧
      ∀ m t : BoundFieldExpression → Bool,
        (∀ leaf ∈ e.atoms, leafMeaning clock doc leaf = some (m leaf)) →
        (∀ leaf ∈ e.atoms, (t leaf = m leaf ↔ LeafReadsRight clock doc leaf)) →
          e.eval t = e.eval m := by
  have hsettles := settles_lowerExpression regex clock doc e fun leaf hleaf =>
    (hq.leaves he hleaf).1
  have hagrees : ∀ m : BoundFieldExpression → Bool,
      (∀ leaf ∈ e.atoms, leafMeaning clock doc leaf = some (m leaf)) → ∀ leaf ∈ e.atoms,
        (leafMatches regex clock doc leaf = m leaf ↔ LeafReadsRight clock doc leaf) :=
    fun m hm leaf hleaf => leafMatches_agrees (hq.leaves he hleaf).1 (hq.leaves he hleaf).2.1
      (hq.leaves he hleaf).2.2 (hops leaf hleaf) (htypes leaf hleaf) (hm leaf hleaf)
  constructor
  · rintro ⟨f, hlower, hmeans⟩
    obtain ⟨hfits, hmatches⟩ := hsettles.of_eq_ok hlower
    refine ⟨hfits, fun m t hm ht => ?_⟩
    have hsame : ∀ leaf ∈ e.atoms, t leaf = leafMatches regex clock doc leaf := by
      intro leaf hleaf
      have hiff := (ht leaf hleaf).trans (hagrees m hm leaf hleaf).symm
      generalize t leaf = a at hiff ⊢
      generalize leafMatches regex clock doc leaf = b at hiff ⊢
      generalize m leaf = c at hiff
      revert a b c
      decide
    rw [Formula.eval_congr hsame, ← hmatches]
    exact Bool.eq_iff_iff.2 (hmeans m hm)
  · rintro ⟨hfits, hflip⟩
    obtain ⟨f, hlower⟩ := hsettles.returns_iff.2 hfits
    refine ⟨f, hlower, fun m hm => ?_⟩
    rw [(hsettles.of_eq_ok hlower).2, hflip m _ hm (hagrees m hm)]

end

open TestSchema in
/-- `age = 18..30` does not match a missing field, as it should not. -/
theorem matchesAsMeant_range :
    MatchesAsMeant (fun _ _ => false) .newYear (fun _ => .missing)
      (.atom ⟨age, .comparison .eq, .range ⟨.integer 18, .integer 30⟩⟩) := by
  have haccepted : Accepted (query .read
      (.atom ⟨age, .comparison .eq, .range ⟨.integer 18, .integer 30⟩⟩)) :=
    ⟨.ascii, "GET users WHERE { age = 18..30 };", schema, acceptedFrom_of_run (by decide +kernel)⟩
  refine (matchesAsMeant_iff haccepted rfl (fun leaf hleaf => ?_) fun leaf hleaf => ?_).2
    ⟨fun leaf hleaf => ?_, fun m t hm ht => ?_⟩
  · obtain rfl := List.mem_singleton.1 hleaf
    exact ⟨.eq, rfl⟩
  · exact nofun
  · obtain rfl := List.mem_singleton.1 hleaf
    trivial
  · exact (ht _ (List.mem_singleton_self _)).2 fun op hop => by
      cases hop
      trivial

open TestSchema in
/-- Of `age = { >=30 & >=18 }` only `>=18` is left, and a document of age 20 is matched. -/
theorem eq_compound_not_meant :
    let leaf : BoundFieldExpression :=
      ⟨age, .comparison .eq, .valueSet [.compound [⟨.gte, .integer 30⟩, ⟨.gte, .integer 18⟩]]⟩
    AcceptedFrom .ascii "GET users WHERE { age = { >=30 & >=18 } };" schema
        (query .read (.atom leaf)) ∧
      leaf.Types (some (.number (20 : ℚ))) ∧
      ¬ MatchesAsMeant (fun _ _ => false) .newYear (fun _ => .value (.number (20 : ℚ)))
        (.atom leaf) := by
  refine ⟨acceptedFrom_of_run (by decide +kernel), ?_, ?_⟩
  · rintro x hx
    cases hx
    rfl
  · rintro ⟨f, hlower, hmeans⟩
    cases hlower
    have hmember : leafMeaning .newYear (fun _ => .value (.number (20 : ℚ)))
        ⟨age, .comparison .eq, .valueSet [.compound [⟨.gte, .integer 30⟩, ⟨.gte, .integer 18⟩]]⟩ =
          some false := by
      decide +kernel
    have hfalse := (hmeans (fun _ => false) fun leaf hleaf => by
      obtain rfl := List.mem_singleton.1 hleaf
      exact hmember).1 (by decide +kernel)
    cases hfalse

end AltrStream.Lowering.MongoDB
