import AltrStream.Foundations.Checks
import AltrStream.Lowering.Mongo
import AltrStream.Lowering.SqlTotality
import AltrStream.Semantics.Meaning

/-! # Which documents a MongoDB filter matches

Comparisons only match values of the operand's own type, NULL equals a missing
field, and `$ne` and `$nin` match missing fields. The second half says when the
lowerer raises and what the filter of a comparison matches, in terms of the
field's value and of the literals alone.
-/
namespace AltrStream.Lowering.MongoDB
open Foundations Python QueryEngine Semantics

/-- What a document has at a path. -/
inductive Stored where
  | missing
  | null
  | value (v : Value)

/-- A missing field is read as NULL. -/
def Stored.read : Stored → Option Value
  | missing | null => none
  | value v => some v

def Stored.isMissing : Stored → Bool
  | missing => true
  | _ => false

abbrev Document := String → Stored

/-- The BSON value of a parameter; dates stand for their first instant. -/
def bsonValue : Scalar → Option Value
  | .none => none
  | .bool b => some (.boolean b)
  | .int n => some (.number ((n : ℚ) : PyFloat))
  | .float x => some (.number x)
  | .str s => some (.text s)
  | .date d => some (.instant d.midnight)
  | .datetime t => some (.instant t.instant)

def sameType : Value → Value → Bool
  | .number _, .number _ | .text _, .text _ | .boolean _, .boolean _ | .instant _, .instant _ => true
  | _, _ => false

/-- `$eq` and `$ne` compare NULL as a value, `$gte` and `$lte` match NULL with NULL. -/
def compareBson (op : ComparisonOperator) (v y : Option Value) : Bool :=
  match op with
  | .eq => v = y
  | .neq => v ≠ y
  | .gte | .lte => match v, y with
    | some a, some b => sameType a b && op.holds a b
    | none, none => true
    | _, _ => false
  | .gt | .lt => match v, y with
    | some a, some b => sameType a b && op.holds a b
    | _, _ => false

section
variable (regex : String → String → Bool)

/-- `regex pattern text` is the outcome of the server's regular expression search. -/
def regexTest (pattern : String) : Option Value → Bool
  | some (.text s) => regex pattern s
  | _ => false

def FieldTest.matches (stored : Stored) : FieldTest → Bool
  | compare op x => compareBson op stored.read (bsonValue x)
  | isIn xs => xs.any fun x => stored.read = bsonValue x
  | notIn xs => xs.all fun x => stored.read ≠ bsonValue x
  | .exists => !stored.isMissing
  | .regex p => regexTest regex p stored.read
  | notRegex p => !regexTest regex p stored.read

mutual

def Filter.matches (doc : Document) : Filter → Bool
  | .all => true
  | .equals path x => (doc path).read = bsonValue x
  | .tests path ts => ts.all (FieldTest.matches regex (doc path))
  | .and fs => matchesAll doc fs
  | .or fs => matchesAny doc fs
  | .nor fs => !matchesAny doc fs

def matchesAll (doc : Document) : List Filter → Bool
  | [] => true
  | f :: fs => f.matches doc && matchesAll doc fs

def matchesAny (doc : Document) : List Filter → Bool
  | [] => false
  | f :: fs => f.matches doc || matchesAny doc fs

end

end

section
variable {regex : String → String → Bool} {doc : Document}

theorem matchesAll_eq (fs : List Filter) :
    matchesAll regex doc fs = fs.all (Filter.matches regex doc) := by
  induction fs with
  | nil => rfl
  | cons f fs ih => rw [matchesAll, ih, List.all_cons]

theorem matchesAny_eq (fs : List Filter) :
    matchesAny regex doc fs = fs.any (Filter.matches regex doc) := by
  induction fs with
  | nil => rfl
  | cons f fs ih => rw [matchesAny, ih, List.any_cons]

theorem matches_compareWith (path : String) (op : ComparisonOperator) (x : Scalar) :
    (compareWith path op x).matches regex doc = compareBson op (doc path).read (bsonValue x) := by
  simp [compareWith, Filter.matches, FieldTest.matches]

theorem matches_present (path : String) :
    (present path).matches regex doc = (doc path).read.isSome := by
  cases h : doc path <;>
    simp [present, Filter.matches, FieldTest.matches, Stored.read, Stored.isMissing, compareBson,
      bsonValue, h]

theorem matches_combine_or {fs : List Filter} :
    (combine .or fs).matches regex doc = fs.any (Filter.matches regex doc) := by
  rcases fs with _ | ⟨f, _ | ⟨f', fs⟩⟩ <;> simp [combine, Filter.matches, matchesAny_eq]

theorem matches_combine_and {fs : List Filter} :
    (combine .and fs).matches regex doc = fs.all (Filter.matches regex doc) := by
  rcases fs with _ | ⟨f, _ | ⟨f', fs⟩⟩ <;> simp [combine, Filter.matches, matchesAll_eq]

end

/-! ### What comparisons match -/

/-- The value of a literal for a document's field. -/
def mongoReading (clock : Clock) (col : BoundFieldPath) : Reading where
  literal := fun l => bsonValue (convertLiteralToParameter clock l)
  isTimestamp := col.isTimestampField

section
variable (ρ : Reading) (v : Option Value)

/-- `{path: {op: literal}}` -/
def compareLiteral (op : ComparisonOperator) (l : LiteralValue) : Bool :=
  compareBson op v (ρ.literal l)

/-- At or after the start of a day and before its end. -/
def insideBounds (day : Value × Value) : Bool :=
  compareBson .gte v (some day.1) && compareBson .lt v (some day.2)

def equalsLiteral (l : LiteralValue) : Bool :=
  (ρ.day? l).elim (v = ρ.literal l) (insideBounds v)

def betweenLiterals (r : Range) : Bool :=
  compareLiteral ρ v .gte r.start && compareLiteral ρ v .lte r.stop

def outsideLiterals (r : Range) : Bool :=
  compareLiteral ρ v .lt r.start || compareLiteral ρ v .gt r.stop

/-- Only the last constraint with each operator counts. -/
def matchesCompound (cs : List ComparisonConstraint) : Bool :=
  (constraintDict cs).all fun e => compareLiteral ρ v e.1 e.2

def matchesElement : ValueSetElement → Bool
  | .literal l => equalsLiteral ρ v l
  | .range r => betweenLiterals ρ v r
  | .constraint c => compareLiteral ρ v c.operator c.value
  | .compound cs => matchesCompound ρ v cs

/-- The filter of an element of a `!=` set. -/
def excludesElement : ValueSetElement → Bool
  | .literal l => (ρ.day? l).elim (v ≠ ρ.literal l)
      fun day => compareBson .lt v (some day.1) || compareBson .gte v (some day.2)
  | .range r => outsideLiterals ρ v r
  | .constraint c => compareLiteral ρ v (invertOperator c.operator) c.value
  | .compound cs => cs.any fun c => compareLiteral ρ v (invertOperator c.operator) c.value

def matchesConstraint (c : ComparisonConstraint) : Bool :=
  match c.operator with
  | .eq => equalsLiteral ρ v c.value
  | op => compareLiteral ρ v op c.value

def matchesComparison (op : ComparisonOperator) : Operand → Bool
  | .literal l => matchesConstraint ρ v ⟨op, l⟩
  | .range r =>
    match op with
    | .neq => outsideLiterals ρ v r || v.isNone
    | _ => betweenLiterals ρ v r
  | .compound cs => matchesCompound ρ v cs
  | .constraint c => matchesConstraint ρ v c
  | .valueSet elements =>
    match op with
    | .eq => elements.any (matchesElement ρ v)
    | .neq => elements.all (excludesElement ρ v)
    | op => compareBson op v none

end

/-- The lowering does not raise: no day of 9999-12-31 is asked for. -/
abbrev Fits (col : BoundFieldPath) : ComparisonOperator → Operand → Prop := Positional.Fits col True

/-- A field of a document, and the time and server at which it is tested. -/
structure Site where
  regex : String → String → Bool
  clock : Clock
  doc : Document
  col : BoundFieldPath

namespace Site

variable (S : Site)

def value : Option Value := (S.doc S.col.fullPath).read

def reading : Reading := mongoReading S.clock S.col

/-- The filter has this outcome on the document. -/
def HasOutcome (b : Bool) (f : Filter) : Prop := f.matches S.regex S.doc = b

end Site

section
variable (S : Site)

theorem hasOutcome_compare (op : ComparisonOperator) (l : LiteralValue) :
    S.HasOutcome (compareLiteral S.reading S.value op l)
      (compareWith S.col.fullPath op (convertLiteralToParameter S.clock l)) :=
  matches_compareWith _ _ _

theorem hasOutcome_between (r : Range) :
    S.HasOutcome (betweenLiterals S.reading S.value r) (lowerBetween S.clock S.col.fullPath r) := by
  simp only [Site.HasOutcome, lowerBetween, Filter.matches, List.all_cons, List.all_nil,
    Bool.and_true]
  rfl

theorem any_lowerOutside (r : Range) :
    (lowerOutside S.clock S.col.fullPath r).any (Filter.matches S.regex S.doc) =
      outsideLiterals S.reading S.value r := by
  simp only [lowerOutside, List.any_cons, List.any_nil, Bool.or_false, matches_compareWith]
  rfl

theorem hasOutcome_compound (cs : List ComparisonConstraint) :
    S.HasOutcome (matchesCompound S.reading S.value cs)
      (lowerCompound S.clock S.col.fullPath cs) := by
  simp only [Site.HasOutcome, lowerCompound, Filter.matches, List.all_map]
  rfl

theorem hasOutcome_nullTest (op : ComparisonOperator) :
    S.HasOutcome (compareBson op S.value none) (lowerNullTest S.col.fullPath op) := by
  unfold Site.HasOutcome
  cases op with
  | eq =>
    rw [lowerNullTest, Filter.matches, bsonValue]
    rfl
  | neq =>
    rw [lowerNullTest, matches_present]
    cases h : (S.doc S.col.fullPath).read <;> simp [compareBson, Site.value, h]
  | _ => exact matches_compareWith _ _ _

theorem settles_parseDateOnlyRange (d : Date) :
    Settles (parseDateOnlyRange d) (d ≠ Date.last) fun p => p.1.instant = d.midnight ∧
      p.2.instant = d.midnight + dayLength := by
  cases hnext : d.next? with
  | none =>
    rw [Date.next?_eq_none] at hnext
    subst hnext
    exact (Settles.error dateOverflow).congr (by simp)
  | some d' =>
    have hlast : d ≠ Date.last := by
      rintro rfl
      rw [(Date.next?_eq_none _).2 rfl] at hnext
      cases hnext
    rw [parseDateOnlyRange, DateTime.addDay?_ofDate, hnext]
    exact ⟨hlast, DateTime.instant_ofDate d,
      (DateTime.instant_ofDate d').trans (Date.midnight_next? hnext)⟩

/-- The day of a date, as values of a timestamp field. -/
def dayOf (d : Date) : Value × Value := (.instant d.midnight, .instant (d.midnight + dayLength))

theorem settles_lowerDay (d : Date) :
    Settles (lowerDay S.col.fullPath d) (d ≠ Date.last)
      (S.HasOutcome (insideBounds S.value (dayOf d))) := by
  refine Settles.bind_ok (settles_parseDateOnlyRange d) fun p hp => Settles.ok ?_
  simp only [Site.HasOutcome, Filter.matches, List.all_cons, List.all_nil, Bool.and_true,
    FieldTest.matches, bsonValue, hp]
  rfl

theorem settles_lowerOutsideDay (d : Date) :
    Settles (lowerOutsideDay S.col.fullPath d) (d ≠ Date.last)
      (S.HasOutcome (compareBson .lt S.value (some (dayOf d).1) ||
        compareBson .gte S.value (some (dayOf d).2))) := by
  refine Settles.bind_ok (settles_parseDateOnlyRange d) fun p hp => Settles.ok ?_
  simp only [Site.HasOutcome, Filter.matches, matchesAny, Bool.or_false, matches_compareWith,
    bsonValue, hp]
  rfl

theorem settles_lowerEquals (l : LiteralValue) :
    Settles (lowerEquals S.clock S.col l) (DayFits S.col l)
      (S.HasOutcome (equalsLiteral S.reading S.value l)) := by
  have hplain : S.reading.day? l = none → DayFits S.col l →
      Settles (.ok (.equals S.col.fullPath (convertLiteralToParameter S.clock l)) :
        Except PyError Filter) (DayFits S.col l)
        (S.HasOutcome (equalsLiteral S.reading S.value l)) := by
    intro hday hfits
    refine ⟨hfits, ?_⟩
    rw [Site.HasOutcome, Filter.matches, equalsLiteral, hday]
    rfl
  have hday := settles_lowerDay S
  rcases l with s | n | x | b | _ | (k | d)
  all_goals try exact hplain rfl (by simp [DayFits])
  by_cases hts : S.col.isTimestampField = true
  · have hreading : S.reading.day? (.temporal (.value d)) = some (dayOf d) := if_pos hts
    rw [equalsLiteral, hreading]
    simp only [lowerEquals, dateOnly?, hts, if_true]
    exact (hday d).congr (by simp [DayFits, hts])
  · have hreading : S.reading.day? (.temporal (.value d)) = none := if_neg hts
    simp only [lowerEquals, dateOnly?, hts]
    exact hplain hreading (by simp [DayFits, hts])

theorem settles_lowerConstraint (c : ComparisonConstraint) :
    Settles (lowerConstraint S.clock S.col c) (constraintFits S.col c)
      (S.HasOutcome (matchesConstraint S.reading S.value c)) := by
  obtain ⟨op, l⟩ := c
  have hequals := settles_lowerEquals S l
  by_cases hl : l = .null
  · subst hl
    have hnull : matchesConstraint S.reading S.value ⟨op, .null⟩ = compareBson op S.value none := by
      cases op <;> rfl
    rw [hnull]
    exact ⟨fun _ => by simp [DayFits], hasOutcome_nullTest S op⟩
  · by_cases hop : op = .eq
    · subst hop
      have hlower : lowerConstraint S.clock S.col ⟨.eq, l⟩ = lowerEquals S.clock S.col l := by
        cases l <;> rfl
      rw [hlower]
      exact hequals.congr (by simp [constraintFits])
    · have hlower : lowerConstraint S.clock S.col ⟨op, l⟩ =
          .ok (compareWith S.col.fullPath op (convertLiteralToParameter S.clock l)) := by
        cases l <;> cases op <;> first | rfl | exact absurd rfl hl | exact absurd rfl hop
      have hmatches : matchesConstraint S.reading S.value ⟨op, l⟩ =
          compareLiteral S.reading S.value op l := by
        cases op <;> first | rfl | exact absurd rfl hop
      rw [hlower, hmatches]
      exact ⟨fun h => absurd h hop, hasOutcome_compare S op l⟩

/-! ### Value sets -/

/-- The value of an element that is a scalar. -/
def elementValue (e : ValueSetElement) : Option Value := bsonValue (scalarOf S.clock e)

theorem any_scalars (es : List ValueSetElement) :
    (lowerScalars S.clock (.equals S.col.fullPath) (fun xs => .tests S.col.fullPath [.isIn xs])
      es).any (Filter.matches S.regex S.doc) = es.any fun e => S.value = elementValue S e := by
  rcases es with _ | ⟨e, _ | ⟨e', es⟩⟩
  · rfl
  · simp only [lowerScalars, List.any_cons, List.any_nil, Filter.matches]
    rfl
  · have hlist : (lowerScalars S.clock (.equals S.col.fullPath)
        (fun xs => .tests S.col.fullPath [.isIn xs]) (e :: e' :: es)).any
        (Filter.matches S.regex S.doc) =
          ((e :: e' :: es).map (scalarOf S.clock)).any fun x => S.value = bsonValue x :=
      (Bool.or_false _).trans (Bool.and_true _)
    rw [hlist, List.any_map]
    rfl

theorem all_scalars (es : List ValueSetElement) :
    (lowerScalars S.clock (compareWith S.col.fullPath .neq)
      (fun xs => .tests S.col.fullPath [.notIn xs]) es).all (Filter.matches S.regex S.doc) =
        es.all fun e => S.value ≠ elementValue S e := by
  rcases es with _ | ⟨e, _ | ⟨e', es⟩⟩
  · rfl
  · simp only [lowerScalars, List.all_cons, List.all_nil, matches_compareWith]
    rfl
  · have hlist : (lowerScalars S.clock (compareWith S.col.fullPath .neq)
        (fun xs => .tests S.col.fullPath [.notIn xs]) (e :: e' :: es)).all
        (Filter.matches S.regex S.doc) =
          ((e :: e' :: es).map (scalarOf S.clock)).all fun x => S.value ≠ bsonValue x :=
      (Bool.and_true _).trans (Bool.and_true _)
    rw [hlist, List.all_map]
    rfl

/-- The elements of a set that are no simple scalar. -/
def othersOf (elements : List ValueSetElement) : List ValueSetElement :=
  (elements.filter (!·.isNull)).filter (!isSimpleScalar S.col ·)

def scalarsOf (elements : List ValueSetElement) : List ValueSetElement :=
  (elements.filter (!·.isNull)).filter (isSimpleScalar S.col)

theorem mem_parts {elements : List ValueSetElement} {e : ValueSetElement} :
    e ∈ elements ↔ (e ∈ elements ∧ e.isNull = true) ∨ e ∈ scalarsOf S elements ∨
      e ∈ othersOf S elements := by
  simp only [scalarsOf, othersOf, List.mem_filter, Bool.not_eq_true']
  cases e.isNull <;> cases isSimpleScalar S.col e <;> simp

theorem day?_of_simple {e : ValueSetElement} (h : isSimpleScalar S.col e = true) :
    ∃ l, e = .literal l ∧ S.reading.day? l = none := by
  cases e with
  | literal l =>
    refine ⟨l, rfl, ?_⟩
    rcases l with s | n | x | b | _ | (k | d) <;> try rfl
    have hts : ¬ S.col.isTimestampField = true := by
      simpa [isSimpleScalar, isDateOnlyLiteral, dateOnly?] using h
    exact if_neg hts
  | _ => cases h

theorem dateOnly_of_not_simple {l : LiteralValue} (hnull : (ValueSetElement.literal l).isNull = false)
    (h : isSimpleScalar S.col (.literal l) = false) :
    ∃ d, l = .temporal (.value d) ∧ S.col.isTimestampField = true := by
  rcases l with s | n | x | b | _ | (k | d)
  case null => cases hnull
  case value => exact ⟨d, rfl, by simpa [isSimpleScalar, isDateOnlyLiteral, dateOnly?] using h⟩
  all_goals simp [isSimpleScalar, isDateOnlyLiteral, dateOnly?] at h

theorem dayFits_of_simple {e : ValueSetElement} (h : isSimpleScalar S.col e = true) :
    Positional.ElementFits S.col True e := by
  cases e with
  | literal l =>
    rintro ⟨hts, rfl⟩
    simp [isSimpleScalar, isDateOnlyLiteral, dateOnly?, hts] at h
  | _ => trivial

theorem settles_lowerEqualityElement {e : ValueSetElement} (hnull : e.isNull = false)
    (hsimple : isSimpleScalar S.col e = false) :
    Settles (lowerEqualityElement S.clock S.col e) (Positional.ElementFits S.col True e)
      fun o => ∃ f ∈ o, S.HasOutcome (matchesElement S.reading S.value e) f := by
  cases e with
  | range r => exact Settles.ok ⟨_, rfl, hasOutcome_between S r⟩
  | constraint c => exact Settles.ok ⟨_, rfl, hasOutcome_compare S c.operator c.value⟩
  | compound cs => exact Settles.ok ⟨_, rfl, hasOutcome_compound S cs⟩
  | literal l =>
    obtain ⟨d, rfl, hts⟩ := dateOnly_of_not_simple S hnull hsimple
    have hreading : S.reading.day? (.temporal (.value d)) = some (dayOf d) := if_pos hts
    simp only [lowerEqualityElement, dateOnly?, hts, if_true, matchesElement, equalsLiteral,
      hreading, Option.elim_some]
    refine (Settles.map (settles_lowerDay S d) fun f hf => ⟨f, rfl, hf⟩).congr ?_
    simp [Positional.ElementFits, DayFits, hts]

theorem settles_lowerInequalityElement {e : ValueSetElement} (hnull : e.isNull = false)
    (hsimple : isSimpleScalar S.col e = false) :
    Settles (lowerInequalityElement S.clock S.col e) (Positional.ExcludedFits S.col e)
      fun o => ∃ f ∈ o, S.HasOutcome (excludesElement S.reading S.value e) f := by
  cases e with
  | range r =>
    refine Settles.ok ⟨_, rfl, ?_⟩
    rw [Site.HasOutcome, Filter.matches, matchesAny_eq]
    exact any_lowerOutside S r
  | constraint c => exact Settles.ok ⟨_, rfl, hasOutcome_compare S _ c.value⟩
  | compound cs =>
    refine Settles.ok ⟨_, rfl, ?_⟩
    rw [Site.HasOutcome, Filter.matches, matchesAny_eq, List.any_map]
    exact congrArg cs.any (funext fun c => hasOutcome_compare S _ c.value)
  | literal l =>
    obtain ⟨d, rfl, hts⟩ := dateOnly_of_not_simple S hnull hsimple
    have hreading : S.reading.day? (.temporal (.value d)) = some (dayOf d) := if_pos hts
    simp only [lowerInequalityElement, dateOnly?, hts, if_true, excludesElement, hreading,
      Option.elim_some]
    refine (Settles.map (settles_lowerOutsideDay S d) fun f hf => ⟨f, rfl, hf⟩).congr ?_
    simp [Positional.ExcludedFits, DayFits, hts]

/-- Filters that each match as their element does match together as the elements do. -/
theorem exists_matches {p : ValueSetElement → Bool} {l : List ValueSetElement} {fs : List Filter}
    (h : List.Forall₂ (fun e f => S.HasOutcome (p e) f) l fs) :
    (∃ f ∈ fs, f.matches S.regex S.doc = true) ↔ ∃ e ∈ l, p e = true := by
  induction h with
  | nil => simp
  | cons h _ ih =>
    simp only [List.mem_cons, exists_eq_or_imp, ih, show Filter.matches _ _ _ = _ from h]

theorem forall_matches {p : ValueSetElement → Bool} {l : List ValueSetElement} {fs : List Filter}
    (h : List.Forall₂ (fun e f => S.HasOutcome (p e) f) l fs) :
    (∀ f ∈ fs, f.matches S.regex S.doc = true) ↔ ∀ e ∈ l, p e = true := by
  induction h with
  | nil => simp
  | cons h _ ih =>
    rw [List.forall_mem_cons, List.forall_mem_cons, ih, show Filter.matches _ _ _ = _ from h]

/-- A test of a set's elements, part by part. -/
theorem exists_parts {elements : List ValueSetElement} {p : ValueSetElement → Prop} {isNullValue : Prop}
    (hnull : ∀ e ∈ elements, e.isNull = true → (p e ↔ isNullValue)) :
    (∃ e ∈ elements, p e) ↔ (elements.any (·.isNull) = true ∧ isNullValue) ∨
      (∃ e ∈ scalarsOf S elements, p e) ∨ ∃ e ∈ othersOf S elements, p e := by
  simp only [List.any_eq_true]
  constructor
  · rintro ⟨e, he, hp⟩
    rcases (mem_parts S).1 he with ⟨he, hisNull⟩ | he | he
    · exact .inl ⟨⟨e, he, hisNull⟩, (hnull e he hisNull).1 hp⟩
    · exact .inr (.inl ⟨e, he, hp⟩)
    · exact .inr (.inr ⟨e, he, hp⟩)
  · rintro (⟨⟨e, he, hisNull⟩, hvalue⟩ | ⟨e, he, hp⟩ | ⟨e, he, hp⟩)
    · exact ⟨e, he, (hnull e he hisNull).2 hvalue⟩
    · exact ⟨e, (mem_parts S).2 (.inr (.inl he)), hp⟩
    · exact ⟨e, (mem_parts S).2 (.inr (.inr he)), hp⟩

theorem matchesElement_of_simple {e : ValueSetElement} (h : isSimpleScalar S.col e = true) :
    matchesElement S.reading S.value e = true ↔ S.value = elementValue S e := by
  obtain ⟨l, rfl, hday⟩ := day?_of_simple S h
  rw [matchesElement, equalsLiteral, hday, Option.elim_none, decide_eq_true_iff]
  rfl

theorem excludesElement_of_simple {e : ValueSetElement} (h : isSimpleScalar S.col e = true) :
    excludesElement S.reading S.value e = true ↔ S.value ≠ elementValue S e := by
  obtain ⟨l, rfl, hday⟩ := day?_of_simple S h
  rw [excludesElement, hday, Option.elim_none, decide_eq_true_iff]
  rfl

theorem matchesElement_of_isNull {e : ValueSetElement} (h : e.isNull = true) :
    matchesElement S.reading S.value e = true ↔ S.value = none := by
  rcases e with (l | r | c | cs)
  · cases l <;> first | exact decide_eq_true_iff | cases h
  all_goals cases h

theorem excludesElement_of_isNull {e : ValueSetElement} (h : e.isNull = true) :
    excludesElement S.reading S.value e = true ↔ S.value ≠ none := by
  rcases e with (l | r | c | cs)
  · cases l <;> first | exact decide_eq_true_iff | cases h
  all_goals cases h

theorem settles_others {lower : ValueSetElement → Except PyError (Option Filter)}
    {fits : ValueSetElement → Prop} {p : ValueSetElement → Bool} (elements : List ValueSetElement)
    (hlower : ∀ e : ValueSetElement, e.isNull = false → isSimpleScalar S.col e = false →
      Settles (lower e) (fits e) fun o => ∃ f ∈ o, S.HasOutcome (p e) f)
    (hsimple : ∀ e, isSimpleScalar S.col e = true → fits e) (hnull : ∀ e, e.isNull = true → fits e) :
    Settles ((othersOf S elements).mapM lower) (∀ e ∈ elements, fits e)
      fun os => List.Forall₂ (fun e f => S.HasOutcome (p e) f) (othersOf S elements)
        (os.filterMap id) := by
  have hmap : Settles ((othersOf S elements).mapM lower) (∀ e ∈ othersOf S elements, fits e)
      (List.Forall₂ (fun e o => ∃ f ∈ o, S.HasOutcome (p e) f) (othersOf S elements)) := by
    refine Settles.mapM fun e he => ?_
    obtain ⟨hnonNull, hs⟩ := List.mem_filter.1 he
    exact hlower e (by simpa using (List.mem_filter.1 hnonNull).2) (by simpa using hs)
  refine (hmap.mono fun os hos => forall₂_filterMap hos).congr ⟨fun h e he => ?_, fun h e he => ?_⟩
  · rcases (mem_parts S).1 he with ⟨-, hisNull⟩ | he | he
    · exact hnull e hisNull
    · exact hsimple e (List.mem_filter.1 he).2
    · exact h e he
  · exact h e ((mem_parts S).2 (.inr (.inr he)))

theorem elementFits_of_isNull {e : ValueSetElement} (h : e.isNull = true) : e = .literal .null := by
  rcases e with (l | r | c | cs)
  · cases l <;> first | rfl | cases h
  all_goals cases h

theorem lowerScalars_eq_nil {one : Scalar → Filter} {many : List Scalar → Filter}
    {es : List ValueSetElement} : lowerScalars S.clock one many es = [] ↔ es = [] := by
  rcases es with _ | ⟨e, _ | ⟨e', es⟩⟩ <;> simp [lowerScalars]

theorem parts_ne_nil {elements : List ValueSetElement} (hne : elements ≠ []) :
    elements.any (·.isNull) = true ∨ scalarsOf S elements ≠ [] ∨ othersOf S elements ≠ [] := by
  obtain ⟨e, he⟩ := List.exists_mem_of_ne_nil elements hne
  rcases (mem_parts S).1 he with ⟨he, hisNull⟩ | he | he
  · exact .inl (List.any_eq_true.2 ⟨e, he, hisNull⟩)
  · exact .inr (.inl (List.ne_nil_of_mem he))
  · exact .inr (.inr (List.ne_nil_of_mem he))

theorem settles_lowerEqualitySet {elements : List ValueSetElement} (hne : elements ≠ []) :
    Settles (lowerEqualitySet S.clock S.col elements)
      (∀ e ∈ elements, Positional.ElementFits S.col True e)
      (S.HasOutcome (elements.any (matchesElement S.reading S.value))) := by
  have hothers := settles_others S elements (fun e => settles_lowerEqualityElement S)
    (fun e => dayFits_of_simple S) fun e h => by
      rw [elementFits_of_isNull h]
      simp [Positional.ElementFits, DayFits]
  refine Settles.bind_ok hothers fun os hos => Settles.ok ?_
  let nullTest := if elements.any (·.isNull) then [Filter.equals S.col.fullPath .none] else []
  let scalars := lowerScalars S.clock (.equals S.col.fullPath)
    (fun xs => .tests S.col.fullPath [.isIn xs]) (scalarsOf S elements)
  have hnull : (∃ f ∈ nullTest, f.matches S.regex S.doc = true) ↔
      elements.any (·.isNull) = true ∧ S.value = none := by
    by_cases hany : elements.any (·.isNull) = true
    · rw [show nullTest = [Filter.equals S.col.fullPath .none] from if_pos hany]
      simp only [List.mem_singleton, exists_eq_left, Filter.matches, hany, true_and]
      exact decide_eq_true_iff
    · rw [show nullTest = [] from if_neg hany]
      simp [hany]
  have hscalars : (∃ f ∈ scalars, f.matches S.regex S.doc = true) ↔
      ∃ e ∈ scalarsOf S elements, matchesElement S.reading S.value e = true := by
    rw [← List.any_eq_true, any_scalars, List.any_eq_true]
    refine exists_congr fun e => and_congr_right fun he => ?_
    rw [matchesElement_of_simple S (List.mem_filter.1 he).2, decide_eq_true_iff]
  have hmatches : (∃ f ∈ nullTest ++ scalars ++ os.filterMap id, f.matches S.regex S.doc = true) ↔
      ∃ e ∈ elements, matchesElement S.reading S.value e = true := by
    rw [exists_parts S fun e _ h => matchesElement_of_isNull S h, ← exists_matches S hos, ← hnull,
      ← hscalars]
    simp only [List.mem_append, or_and_right, exists_or, or_assoc]
  have hnonempty : ¬ (nullTest ++ scalars ++ os.filterMap id).isEmpty = true := by
    rw [List.isEmpty_iff, List.append_eq_nil_iff, List.append_eq_nil_iff]
    rintro ⟨⟨hnone, hscalar⟩, hother⟩
    rcases parts_ne_nil S hne with h | h | h
    · rw [show nullTest = [Filter.equals S.col.fullPath .none] from if_pos h] at hnone
      cases hnone
    · exact h ((lowerScalars_eq_nil S).1 hscalar)
    · rw [hother] at hos
      exact h (List.forall₂_nil_right_iff.1 hos)
  change S.HasOutcome _ (if (nullTest ++ scalars ++ os.filterMap id).isEmpty = true then .all
    else combine .or (nullTest ++ scalars ++ os.filterMap id))
  rw [if_neg hnonempty, Site.HasOutcome, matches_combine_or, Bool.eq_iff_iff, List.any_eq_true,
    List.any_eq_true]
  exact hmatches

/-- As `exists_parts`, for a test that all elements have to pass. -/
theorem forall_parts {elements : List ValueSetElement} {p : ValueSetElement → Prop}
    {isNullValue : Prop} (hnull : ∀ e ∈ elements, e.isNull = true → (p e ↔ isNullValue)) :
    (∀ e ∈ elements, p e) ↔ (elements.any (·.isNull) = true → isNullValue) ∧
      (∀ e ∈ scalarsOf S elements, p e) ∧ ∀ e ∈ othersOf S elements, p e := by
  have hparts := @exists_parts S elements (fun e => ¬ p e) (¬ isNullValue)
    fun e he h => not_congr (hnull e he h)
  have hall : ∀ l : List ValueSetElement, (∀ e ∈ l, p e) ↔ ¬ ∃ e ∈ l, ¬ p e := fun l => by
    push Not
    rfl
  rw [hall, hall, hall, hparts, not_or, not_or, not_and, not_not]

theorem settles_lowerInequalitySet (elements : List ValueSetElement) :
    Settles (lowerInequalitySet S.clock S.col elements)
      (∀ e ∈ elements, Positional.ExcludedFits S.col e)
      (S.HasOutcome (elements.all (excludesElement S.reading S.value))) := by
  have hothers := settles_others S elements (fun e => settles_lowerInequalityElement S)
    (fun e h => by
      cases e with
      | literal l => exact dayFits_of_simple S h
      | _ => trivial) fun e h => by
      rw [elementFits_of_isNull h]
      simp [Positional.ExcludedFits, DayFits]
  refine Settles.bind_ok hothers fun os hos => Settles.ok ?_
  let nullTest := if elements.any (·.isNull) then [present S.col.fullPath] else []
  let scalars := lowerScalars S.clock (compareWith S.col.fullPath .neq)
    (fun xs => .tests S.col.fullPath [.notIn xs]) (scalarsOf S elements)
  have hnull : (∀ f ∈ nullTest, f.matches S.regex S.doc = true) ↔
      (elements.any (·.isNull) = true → S.value ≠ none) := by
    by_cases hany : elements.any (·.isNull) = true
    · rw [show nullTest = [present S.col.fullPath] from if_pos hany]
      simp only [List.mem_singleton, forall_eq, matches_present, hany, true_imp_iff]
      exact Option.isSome_iff_ne_none
    · rw [show nullTest = [] from if_neg hany]
      simp [hany]
  have hscalars : (∀ f ∈ scalars, f.matches S.regex S.doc = true) ↔
      ∀ e ∈ scalarsOf S elements, excludesElement S.reading S.value e = true := by
    rw [← List.all_eq_true, all_scalars, List.all_eq_true]
    refine forall_congr' fun e => imp_congr_right fun he => ?_
    rw [excludesElement_of_simple S (List.mem_filter.1 he).2, decide_eq_true_iff]
  change S.HasOutcome _ (combine .and (scalars ++ os.filterMap id ++ nullTest))
  rw [Site.HasOutcome, matches_combine_and, Bool.eq_iff_iff, List.all_eq_true, List.all_eq_true,
    forall_parts S fun e _ h => excludesElement_of_isNull S h, ← hnull, ← hscalars,
    ← forall_matches S hos]
  simp only [List.mem_append, or_imp, forall_and]
  tauto

/-! ### Leaves -/

theorem settles_lowerLiteral (op : ComparisonOperator) (l : LiteralValue) :
    Settles (lowerComparison S.clock S.col op (.literal l)) (Fits S.col op (.literal l))
      (S.HasOutcome (matchesConstraint S.reading S.value ⟨op, l⟩)) := by
  have hlower : lowerComparison S.clock S.col op (.literal l) =
      lowerConstraint S.clock S.col ⟨op, l⟩ := by
    cases l <;> cases op <;> rfl
  rw [hlower]
  refine (settles_lowerConstraint S ⟨op, l⟩).congr ?_
  cases op <;> simp [Fits, Positional.Fits, constraintFits]

theorem settles_lowerRange (op : ComparisonOperator) (r : Range) :
    Settles (lowerComparison S.clock S.col op (.range r)) True
      (S.HasOutcome (matchesComparison S.reading S.value op (.range r))) := by
  cases op with
  | neq =>
    refine Settles.ok ?_
    have hnull : Filter.matches S.regex S.doc (.equals S.col.fullPath .none) = S.value.isNone := by
      rw [Filter.matches, Bool.eq_iff_iff, decide_eq_true_iff]
      exact Option.isNone_iff_eq_none.symm
    rw [Site.HasOutcome, Filter.matches, matchesAny_eq, List.any_append, any_lowerOutside,
      List.any_cons, List.any_nil, Bool.or_false, hnull]
    rfl
  | _ => exact Settles.ok (hasOutcome_between S r)

theorem settles_lowerSet (op : ComparisonOperator) {elements : List ValueSetElement}
    (hne : elements ≠ []) :
    Settles (lowerComparison S.clock S.col op (.valueSet elements)) (Fits S.col op (.valueSet elements))
      (S.HasOutcome (matchesComparison S.reading S.value op (.valueSet elements))) := by
  cases op with
  | eq => exact settles_lowerEqualitySet S hne
  | neq => exact settles_lowerInequalitySet S elements
  | _ => exact Settles.ok (matches_compareWith _ _ _)

theorem settles_lowerComparison (op : ComparisonOperator) {operand : Operand}
    (hset : operand ≠ .valueSet []) :
    Settles (lowerComparison S.clock S.col op operand) (Fits S.col op operand)
      (S.HasOutcome (matchesComparison S.reading S.value op operand)) := by
  cases operand with
  | literal l => exact settles_lowerLiteral S op l
  | range r => exact (settles_lowerRange S op r).congr (by cases op <;> simp [Fits, Positional.Fits])
  | constraint c =>
    exact (settles_lowerConstraint S c).congr (by cases op <;> simp [Fits, Positional.Fits])
  | compound cs =>
    exact (Settles.ok (hasOutcome_compound S cs)).congr
      (by cases op <;> simp [Fits, Positional.Fits])
  | valueSet elements => exact settles_lowerSet S op (by rintro rfl; exact hset rfl)

end

/-! ### WHERE trees -/

section
variable (regex : String → String → Bool) (clock : Clock) (doc : Document)

/-- Whether the document is kept by the filter of a leaf. -/
def leafMatches (leaf : BoundFieldExpression) : Bool :=
  match leaf.operator with
  | .comparison op => matchesComparison (mongoReading clock leaf.field)
      (doc leaf.field.fullPath).read op leaf.operand
  | .string op => (lowerStringOperator leaf.field.fullPath op leaf.operand).matches regex doc

theorem settles_lowerFieldExpression {leaf : BoundFieldExpression} (h : leaf.operand.WellFormed) :
    Settles (lowerFieldExpression clock leaf) (LeafFits Fits leaf)
      fun f => f.matches regex doc = leafMatches regex clock doc leaf := by
  obtain ⟨field, operator, operand⟩ := leaf
  have hset : operand ≠ .valueSet [] := by
    rintro rfl
    exact h.1 rfl
  cases operator with
  | comparison op => exact settles_lowerComparison ⟨regex, clock, doc, field⟩ op hset
  | string op => exact Settles.ok rfl

theorem settles_lowerExpression (e : BoundExpression)
    (h : ∀ leaf ∈ e.atoms, leaf.operand.WellFormed) :
    Settles (lowerExpression clock e) (∀ leaf ∈ e.atoms, LeafFits Fits leaf)
      fun f => f.matches regex doc = e.eval (leafMatches regex clock doc) := by
  induction e with
  | atom leaf =>
    exact (settles_lowerFieldExpression regex clock doc (h leaf (List.mem_singleton_self _))).congr
      (by simp [Formula.atoms])
  | not e ih =>
    refine Settles.bind_ok (ih h) fun f hf => Settles.ok ?_
    rw [Filter.matches, matchesAny_eq, List.any_cons, List.any_nil, Bool.or_false, hf, Formula.eval]
  | and l r ihl ihr =>
    rw [Formula.atoms, List.forall_mem_append] at h
    refine (Settles.bind (ihl h.1) fun f hf => Settles.bind_ok (ihr h.2) fun f' hf' =>
      Settles.ok ?_).congr (by simp only [Formula.atoms, List.forall_mem_append])
    rw [Filter.matches, matchesAll_eq, List.all_cons, List.all_cons, List.all_nil, Bool.and_true, hf,
      hf', Formula.eval]
  | or l r ihl ihr =>
    rw [Formula.atoms, List.forall_mem_append] at h
    refine (Settles.bind (ihl h.1) fun f hf => Settles.bind_ok (ihr h.2) fun f' hf' =>
      Settles.ok ?_).congr (by simp only [Formula.atoms, List.forall_mem_append])
    rw [Filter.matches, matchesAny_eq, List.any_cons, List.any_cons, List.any_nil, Bool.or_false, hf,
      hf', Formula.eval]

end

/-- `lower` returns exactly if it is a CREATE or every leaf of its WHERE tree is lowered. -/
theorem lower_succeeds (clock : Clock) (query : BoundAltrQueryIR)
    (h : ∀ e ∈ query.where_, ∀ leaf ∈ e.atoms, leaf.operand.WellFormed) :
    (∃ r, lower clock query = .ok r) ↔ query.operation = .create ∨
      ∀ e ∈ query.where_, ∀ leaf ∈ e.atoms, LeafFits Fits leaf := by
  have hwhere : (∃ f, lowerWhere clock query.where_ = .ok f) ↔
      ∀ e ∈ query.where_, ∀ leaf ∈ e.atoms, LeafFits Fits leaf := by
    cases hw : query.where_ with
    | none => simp [lowerWhere]
    | some e =>
      have hleaves := h e hw
      have hreturns := (settles_lowerExpression (fun _ _ => false) clock (fun _ => .missing) e
        hleaves).returns_iff
      simpa [lowerWhere] using hreturns
  have hcommand : (∃ r, lower clock query = .ok r) ↔ ∃ c, lowerCommand clock query = .ok c := by
    simp only [lower, bind_eq_ok, pure_eq_ok]
    constructor
    · rintro ⟨_, c, hc, -⟩
      exact ⟨c, hc⟩
    · rintro ⟨c, hc⟩
      exact ⟨_, c, hc, rfl⟩
  rw [hcommand, ← hwhere]
  cases hop : query.operation <;> simp [lowerCommand, hop, map_succeeds]

end AltrStream.Lowering.MongoDB
