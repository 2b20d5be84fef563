import AltrStream.Lowering.Mongo
import AltrStream.QueryEngine.Binder

/-! # Which commands MongoDB's driver can encode

The driver's default codec encodes texts, Booleans, None, floats, datetimes and
integers of 64 bits. The lowerer turns a date into datetimes only where it stands
for a day, and passes integers through as they are.
-/
namespace AltrStream.Lowering.MongoDB
open Foundations Python QueryEngine Semantics

def InInt64 (n : ℤ) : Prop := -2 ^ 63 ≤ n ∧ n < 2 ^ 63

instance (n : ℤ) : Decidable (InInt64 n) := inferInstanceAs (Decidable (_ ∧ _))

/-- The default BSON codec encodes the value. -/
def Encodes : Scalar → Prop
  | .date _ => False
  | .int n => InInt64 n
  | _ => True

/-! ### The scalars of a command -/

def FieldTest.scalars : FieldTest → List Scalar
  | compare _ x => [x]
  | isIn xs | notIn xs => xs
  | .exists => [.bool true]
  | .regex pattern | notRegex pattern => [.str pattern]

mutual

def Filter.scalars : Filter → List Scalar
  | .all => []
  | .equals _ x => [x]
  | .tests _ ts => ts.flatMap FieldTest.scalars
  | .and fs | .or fs | .nor fs => scalarsOfFilters fs

def scalarsOfFilters : List Filter → List Scalar
  | [] => []
  | f :: fs => f.scalars ++ scalarsOfFilters fs

end

/-- The scalars at any depth of a command's specification. -/
def Command.scalars : Command → List Scalar
  | insertMany _ documents => documents.flatMap fun d => d.map (·.2)
  | updateMany _ filter set => filter.scalars ++ set.map (·.2)
  | deleteMany _ filter => filter.scalars
  | find _ filter projection _ sort limit skip =>
    filter.scalars ++ (projection.elim [] fun p => p.map fun e => .int e.2) ++
      sort.map (fun s => .int s.2) ++ limit.toList.map .int ++ skip.toList.map .int

/-- Every scalar of the command is encoded. -/
def Command.Encodable (c : Command) : Prop := ∀ x ∈ c.scalars, Encodes x

/-! ### The literals of a query that become scalars -/

/-- A literal that the codec can encode as a scalar of its own. -/
def EncodesLiteral : LiteralValue → Prop
  | .temporal (.value _) => False
  | .integer n => InInt64 n
  | _ => True

/-- A date that stands for its day on the column. -/
def standsForDay (col : BoundFieldPath) (l : LiteralValue) : Bool :=
  col.isTimestampField && isDateOnlyLiteral l

/-- The literal of `=` that is bound as it is. -/
def equalsLiterals (col : BoundFieldPath) (l : LiteralValue) : List LiteralValue :=
  if standsForDay col l then [] else [l]

/-- Of the constraints with one operator the last is kept under `=`. -/
def compoundLiterals (cs : List ComparisonConstraint) : List LiteralValue :=
  (constraintDict cs).map (·.2)

def elementLiterals (col : BoundFieldPath) (negated : Bool) : ValueSetElement → List LiteralValue
  | .literal l => equalsLiterals col l
  | .range r => [r.start, r.stop]
  | .constraint c => [c.value]
  | .compound cs => if negated then cs.map (·.value) else compoundLiterals cs

def comparedLiterals (col : BoundFieldPath) (op : ComparisonOperator) (l : LiteralValue) :
    List LiteralValue :=
  if op = .eq then equalsLiterals col l else [l]

/-- The literals of a leaf that are bound as they are; string operators bind texts. -/
def leafLiterals (leaf : BoundFieldExpression) : List LiteralValue :=
  match leaf.operator, leaf.operand with
  | .string _, _ => []
  | .comparison op, .literal l => comparedLiterals leaf.field op l
  | .comparison _, .range r => [r.start, r.stop]
  | .comparison _, .compound cs => compoundLiterals cs
  | .comparison _, .constraint c => comparedLiterals leaf.field c.operator c.value
  | .comparison .eq, .valueSet elements => elements.flatMap (elementLiterals leaf.field false)
  | .comparison .neq, .valueSet elements => elements.flatMap (elementLiterals leaf.field true)
  | .comparison _, .valueSet _ => []

def whereLiterals (w : Option BoundExpression) : List LiteralValue :=
  w.elim [] fun e => e.atoms.flatMap leafLiterals

/-- The values that are assigned; of two assignments to one field the last is kept. -/
def assignedLiterals (assignments : List BoundMutationAssignment) : List LiteralValue :=
  (Dict.ofEntries (assignments.map fun a => (a.field.fullPath, a.value))).map (·.2)

/-- The literals of a query that its command holds as they are. -/
def boundLiterals (query : BoundAltrQueryIR) : List LiteralValue :=
  match query.operation with
  | .create => (recordsToCreate query).flatMap fun rec => assignedLiterals rec.assignments
  | .update => whereLiterals query.where_ ++ assignedLiterals query.assignments
  | .delete | .read => whereLiterals query.where_

/-- LIMIT, or the count of a ranking in its place, and OFFSET. -/
def rowCounts (query : BoundAltrQueryIR) : List ℤ :=
  match query.operation with
  | .read =>
    ((query.ranking.map (·.count)).orElse fun _ => query.limit).toList ++ query.offset.toList
  | _ => []

/-! ### Filters -/

@[simp] theorem scalarsOfFilters_eq (fs : List Filter) :
    scalarsOfFilters fs = fs.flatMap Filter.scalars := by
  induction fs with
  | nil => rfl
  | cons f fs ih => rw [scalarsOfFilters, ih, List.flatMap_cons]

section
variable (clock : Clock)

theorem encodes_convert_iff (l : LiteralValue) :
    Encodes (convertLiteralToParameter clock l) ↔ EncodesLiteral l := by
  cases l with
  | temporal t =>
    cases t with
    | keyword k => cases k <;> exact Iff.rfl
    | value d => exact Iff.rfl
  | _ => exact Iff.rfl

/-- Scalars that the codec encodes exactly if it encodes the literals. -/
def Carry (scalars : List Scalar) (literals : List LiteralValue) : Prop :=
  (∀ x ∈ scalars, Encodes x) ↔ ∀ l ∈ literals, EncodesLiteral l

namespace Carry
variable {clock}

theorem nil : Carry [] [] := iff_of_true (fun _ h => nomatch h) fun _ h => nomatch h

/-- Scalars that are always encoded. -/
theorem plain {scalars : List Scalar} (h : ∀ x ∈ scalars, Encodes x) : Carry scalars [] :=
  iff_of_true h fun _ h => nomatch h

theorem append {xs ys : List Scalar} {ls ms : List LiteralValue} (h : Carry xs ls)
    (h' : Carry ys ms) : Carry (xs ++ ys) (ls ++ ms) := by
  unfold Carry at *
  rw [List.forall_mem_append, List.forall_mem_append, h, h']

theorem flatMap {α β : Type} {f : α → List Scalar} {g : β → List LiteralValue} {as : List α}
    {bs : List β} (h : List.Forall₂ (fun a b => Carry (f a) (g b)) as bs) :
    Carry (as.flatMap f) (bs.flatMap g) := by
  induction h with
  | nil => exact nil
  | cons h _ ih => exact h.append ih

/-- The literals, each as it is. -/
theorem map (clock : Clock) (ls : List LiteralValue) : Carry (ls.map (convertLiteralToParameter clock)) ls := by
  unfold Carry
  rw [List.forall_mem_map]
  exact forall₂_congr fun l _ => encodes_convert_iff clock l

end Carry

/-- The scalars of a filter carry the literals. -/
abbrev Carries (f : Filter) (literals : List LiteralValue) : Prop := Carry f.scalars literals

section
variable (path : String) (col : BoundFieldPath)

theorem carries_compareWith (op : ComparisonOperator) (l : LiteralValue) :
    Carries (compareWith path op (convertLiteralToParameter clock l)) [l] := by
  simpa [Carries, compareWith, Filter.scalars, FieldTest.scalars] using Carry.map clock [l]

theorem carries_equals (l : LiteralValue) :
    Carries (.equals path (convertLiteralToParameter clock l)) [l] := by
  simpa [Carries, Filter.scalars] using Carry.map clock [l]

theorem carries_between (r : Range) : Carries (lowerBetween clock path r) [r.start, r.stop] := by
  simpa [Carries, lowerBetween, Filter.scalars, FieldTest.scalars] using
    Carry.map _ [r.start, r.stop]

theorem carry_outside (r : Range) :
    Carry ((lowerOutside clock path r).flatMap Filter.scalars) [r.start, r.stop] := by
  simpa [lowerOutside, compareWith, Filter.scalars, FieldTest.scalars] using
    Carry.map _ [r.start, r.stop]

theorem carries_compound (cs : List ComparisonConstraint) :
    Carries (lowerCompound clock path cs) (compoundLiterals cs) := by
  have hscalars : (lowerCompound clock path cs).scalars =
      (compoundLiterals cs).map (convertLiteralToParameter clock) := by
    rw [lowerCompound, Filter.scalars, List.flatMap_map, compoundLiterals, List.map_map,
      List.map_eq_flatMap]
    rfl
  rw [Carries, hscalars]
  exact Carry.map _ _

theorem carries_nullTest (op : ComparisonOperator) :
    Carries (lowerNullTest path op) (comparedLiterals col op .null) := by
  have hliterals : ∀ l ∈ comparedLiterals col op .null, EncodesLiteral l := by
    unfold comparedLiterals equalsLiterals
    split <;> simp [standsForDay, isDateOnlyLiteral, dateOnly?, EncodesLiteral]
  refine iff_of_true ?_ hliterals
  cases op <;>
    simp [lowerNullTest, present, compareWith, Filter.scalars, FieldTest.scalars, Encodes]

theorem carries_lowerDay {d : Date} {f : Filter} (h : lowerDay path d = .ok f) :
    Carries f [] := by
  simp only [lowerDay, bind_eq_ok, pure_eq_ok] at h
  obtain ⟨⟨start, stop⟩, -, rfl⟩ := h
  exact Carry.plain (by simp [Filter.scalars, FieldTest.scalars, Encodes])

theorem carries_lowerOutsideDay {d : Date} {f : Filter} (h : lowerOutsideDay path d = .ok f) :
    Carries f [] := by
  simp only [lowerOutsideDay, bind_eq_ok, pure_eq_ok] at h
  obtain ⟨⟨start, stop⟩, -, rfl⟩ := h
  exact Carry.plain (by simp [compareWith, Filter.scalars, FieldTest.scalars, Encodes])

theorem carries_lowerEquals {l : LiteralValue} {f : Filter} (h : lowerEquals clock col l = .ok f) :
    Carries f (equalsLiterals col l) := by
  unfold lowerEquals at h
  unfold equalsLiterals standsForDay isDateOnlyLiteral
  split at h
  · rename_i d hd
    rw [hd]
    split at h
    · rename_i htime
      rw [htime]
      exact carries_lowerDay _ h
    · rename_i htime
      cases h
      simpa [htime] using carries_equals clock col.fullPath l
  · rename_i hd
    cases h
    simpa [hd] using carries_equals clock col.fullPath l

theorem carries_lowerConstraint {c : ComparisonConstraint} {f : Filter}
    (h : lowerConstraint clock col c = .ok f) :
    Carries f (comparedLiterals col c.operator c.value) := by
  unfold lowerConstraint at h
  split at h
  · rename_i op hnull
    cases h
    rw [hnull]
    exact carries_nullTest _ col _
  · rename_i hop _
    rw [comparedLiterals, if_pos hop]
    exact carries_lowerEquals clock col h
  · rename_i hop
    cases h
    rw [comparedLiterals, if_neg fun heq => hop heq]
    exact carries_compareWith clock _ _ _

/-! ### Value sets -/

theorem scalars_combine {join : List Filter → Filter}
    (hjoin : ∀ fs, (join fs).scalars = fs.flatMap Filter.scalars) (fs : List Filter) :
    (combine join fs).scalars = fs.flatMap Filter.scalars := by
  match fs with
  | [] | _ :: _ :: _ => exact hjoin _
  | [f] => simp [combine]

/-- No predicate at all is the filter of everything. -/
theorem scalars_anyOf (fs : List Filter) :
    (if fs.isEmpty then .all else combine .or fs : Filter).scalars = fs.flatMap Filter.scalars := by
  split
  · rename_i hempty
    rw [List.isEmpty_iff.1 hempty]
    rfl
  · exact scalars_combine (fun fs => by rw [Filter.scalars, scalarsOfFilters_eq]) fs

theorem scalars_lowerScalars (one : Scalar → Filter) (many : List Scalar → Filter)
    (hone : ∀ x, (one x).scalars = [x]) (hmany : ∀ xs, (many xs).scalars = xs)
    (es : List ValueSetElement) :
    (lowerScalars clock one many es).flatMap Filter.scalars = es.map (scalarOf clock) := by
  match es with
  | [] => rfl
  | [e] => simp [lowerScalars, hone]
  | e :: e' :: es => simp [lowerScalars, hmany]

/-- The simple scalars of a set. -/
theorem carry_simple (negated : Bool) (es : List ValueSetElement)
    (h : ∀ e ∈ es, isSimpleScalar col e = true) :
    Carry (es.map (scalarOf clock)) (es.flatMap (elementLiterals col negated)) := by
  rw [List.map_eq_flatMap]
  refine Carry.flatMap (List.forall₂_same.2 fun e he => ?_)
  have hsimple := h e he
  cases e with
  | literal l =>
    have hday : standsForDay col l = false := by
      cases l with
      | null => cases hsimple
      | _ => simpa only [isSimpleScalar, standsForDay, Bool.not_eq_true'] using hsimple
    simpa [elementLiterals, equalsLiterals, hday, scalarOf] using Carry.map clock [l]
  | _ => cases hsimple

/-- A literal that is neither NULL nor simple stands for its day. -/
theorem standsForDay_of_not_simple {l : LiteralValue}
    (hnull : (ValueSetElement.literal l).isNull = false)
    (hsimple : isSimpleScalar col (.literal l) = false) : standsForDay col l = true := by
  cases l with
  | null => cases hnull
  | _ => simpa [isSimpleScalar, standsForDay] using hsimple

theorem carry_equalityElement {e : ValueSetElement} {o : Option Filter} (hnull : e.isNull = false)
    (hsimple : isSimpleScalar col e = false) (h : lowerEqualityElement clock col e = .ok o) :
    Carry (o.elim [] Filter.scalars) (elementLiterals col false e) := by
  cases e with
  | range r =>
    cases h
    exact carries_between clock col.fullPath r
  | constraint c =>
    cases h
    exact carries_compareWith clock col.fullPath _ _
  | compound cs =>
    cases h
    exact carries_compound clock col.fullPath cs
  | literal l =>
    have hday := standsForDay_of_not_simple col hnull hsimple
    rw [elementLiterals, equalsLiterals, if_pos hday]
    simp only [standsForDay, isDateOnlyLiteral, Bool.and_eq_true, Option.isSome_iff_exists] at hday
    obtain ⟨htime, d, hd⟩ := hday
    simp only [lowerEqualityElement, hd, htime, if_true] at h
    obtain ⟨f, hf, rfl⟩ := map_eq_ok.1 h
    exact carries_lowerDay _ hf

theorem carry_inequalityElement {e : ValueSetElement} {o : Option Filter}
    (hnull : e.isNull = false) (hsimple : isSimpleScalar col e = false)
    (h : lowerInequalityElement clock col e = .ok o) :
    Carry (o.elim [] Filter.scalars) (elementLiterals col true e) := by
  cases e with
  | range r =>
    cases h
    simpa [Filter.scalars, elementLiterals] using carry_outside clock col.fullPath r
  | constraint c =>
    cases h
    exact carries_compareWith clock col.fullPath _ _
  | compound cs =>
    cases h
    have hmap := Carry.map clock (cs.map (·.value))
    simpa [Filter.scalars, compareWith, FieldTest.scalars, elementLiterals, List.flatMap_map,
      List.map_map, Function.comp_def, ← List.map_eq_flatMap] using hmap
  | literal l =>
    have hday := standsForDay_of_not_simple col hnull hsimple
    rw [elementLiterals, equalsLiterals, if_pos hday]
    simp only [standsForDay, isDateOnlyLiteral, Bool.and_eq_true, Option.isSome_iff_exists] at hday
    obtain ⟨htime, d, hd⟩ := hday
    simp only [lowerInequalityElement, hd, htime, if_true] at h
    obtain ⟨f, hf, rfl⟩ := map_eq_ok.1 h
    exact carries_lowerOutsideDay _ hf

/-- The filters of the elements that are not simple. -/
theorem carry_others {lower : ValueSetElement → Except PyError (Option Filter)} {negated : Bool}
    (hlower : ∀ e o, e.isNull = false → isSimpleScalar col e = false → lower e = .ok o →
      Carry (o.elim [] Filter.scalars) (elementLiterals col negated e))
    {elements : List ValueSetElement} {others : List (Option Filter)}
    (h : ((elements.filter (!·.isNull)).filter (!isSimpleScalar col ·)).mapM lower = .ok others) :
    Carry ((others.filterMap id).flatMap Filter.scalars)
      (((elements.filter (!·.isNull)).filter (!isSimpleScalar col ·)).flatMap
        (elementLiterals col negated)) := by
  have hflat : (others.filterMap id).flatMap Filter.scalars =
      others.flatMap (·.elim [] Filter.scalars) := by
    clear h
    induction others with
    | nil => rfl
    | cons o others ih => cases o <;> simpa using ih
  rw [hflat]
  refine Carry.flatMap ?_
  obtain ⟨hlength, hzip⟩ := List.forall₂_iff_zip.1 (mapM_eq_ok.1 h)
  refine (List.forall₂_iff_zip.2 ⟨hlength, fun {e o} hmem => ?_⟩).flip
  have he := (List.of_mem_zip hmem).1
  simp only [List.mem_filter, Bool.not_eq_true'] at he
  exact hlower e o he.1.2 he.2 (hzip hmem)

/-- The literals of a set are those of its simple scalars and of its other elements. -/
theorem carry_parts {negated : Bool} {elements : List ValueSetElement} {xs : List Scalar}
    (h : Carry xs (((elements.filter (!·.isNull)).filter (isSimpleScalar col)).flatMap
        (elementLiterals col negated) ++
      ((elements.filter (!·.isNull)).filter (!isSimpleScalar col ·)).flatMap
        (elementLiterals col negated))) :
    Carry xs (elements.flatMap (elementLiterals col negated)) := by
  refine Iff.trans h ?_
  simp only [List.forall_mem_append, List.forall_mem_flatMap, List.mem_filter, Bool.not_eq_true']
  constructor
  · rintro ⟨hsimple, hothers⟩ e he
    cases hnull : e.isNull with
    | true =>
      cases e with
      | literal l =>
        cases l with
        | null => simp [elementLiterals, equalsLiterals, standsForDay, isDateOnlyLiteral, dateOnly?,
            EncodesLiteral]
        | _ => cases hnull
      | _ => cases hnull
    | false =>
      cases hscalar : isSimpleScalar col e with
      | true => exact hsimple e ⟨⟨he, hnull⟩, hscalar⟩
      | false => exact hothers e ⟨⟨he, hnull⟩, hscalar⟩
  · exact fun hall => ⟨fun e he => hall e he.1.1, fun e he => hall e he.1.1⟩

theorem carries_lowerEqualitySet {elements : List ValueSetElement} {f : Filter}
    (h : lowerEqualitySet clock col elements = .ok f) :
    Carries f (elements.flatMap (elementLiterals col false)) := by
  simp only [lowerEqualitySet, bind_eq_ok, pure_eq_ok] at h
  obtain ⟨others, hothers, rfl⟩ := h
  have hrest := carry_others col (fun e o => carry_equalityElement clock col) hothers
  have hscalars := scalars_lowerScalars clock (.equals col.fullPath)
    (fun vs => .tests col.fullPath [.isIn vs]) (fun _ => rfl)
    (fun _ => by simp [Filter.scalars, FieldTest.scalars])
    ((elements.filter (!·.isNull)).filter (isSimpleScalar col))
  have hnull : Carry ((if elements.any (·.isNull) then [Filter.equals col.fullPath .none]
      else []).flatMap Filter.scalars) [] := by
    refine Carry.plain ?_
    split <;> simp [Filter.scalars, Encodes]
  have hsimple := carry_simple clock col false
    ((elements.filter (!·.isNull)).filter (isSimpleScalar col))
    fun e he => (List.mem_filter.1 he).2
  rw [← hscalars] at hsimple
  have hall := (hnull.append hsimple).append hrest
  rw [← List.flatMap_append, ← List.flatMap_append, List.nil_append] at hall
  refine carry_parts col ?_
  rwa [scalars_anyOf]

theorem carries_lowerInequalitySet {elements : List ValueSetElement} {f : Filter}
    (h : lowerInequalitySet clock col elements = .ok f) :
    Carries f (elements.flatMap (elementLiterals col true)) := by
  simp only [lowerInequalitySet, bind_eq_ok, pure_eq_ok] at h
  obtain ⟨others, hothers, rfl⟩ := h
  have hrest := carry_others col (fun e o => carry_inequalityElement clock col) hothers
  have hscalars := scalars_lowerScalars clock (compareWith col.fullPath .neq)
    (fun vs => .tests col.fullPath [.notIn vs])
    (fun _ => by simp [compareWith, Filter.scalars, FieldTest.scalars])
    (fun _ => by simp [Filter.scalars, FieldTest.scalars])
    ((elements.filter (!·.isNull)).filter (isSimpleScalar col))
  have hnull : Carry ((if elements.any (·.isNull) then [present col.fullPath]
      else []).flatMap Filter.scalars) [] := by
    refine Carry.plain ?_
    split <;> simp [present, Filter.scalars, FieldTest.scalars, Encodes]
  have hsimple := carry_simple clock col true
    ((elements.filter (!·.isNull)).filter (isSimpleScalar col))
    fun e he => (List.mem_filter.1 he).2
  rw [← hscalars] at hsimple
  have hall := (hsimple.append hrest).append hnull
  rw [← List.flatMap_append, ← List.flatMap_append, List.append_nil] at hall
  refine carry_parts col ?_
  rwa [scalars_combine fun fs => by rw [Filter.scalars, scalarsOfFilters_eq]]

/-! ### Expressions and commands -/

/-- String operators bind texts. -/
theorem carries_lowerStringOperator (path : String) (op : StringOperator) (operand : Operand) :
    Carries (lowerStringOperator path op operand) [] := by
  have hhas : ∀ e, ∀ x ∈ (lowerHasElement path e).scalars, Encodes x := by
    intro e
    cases e <;> simp [lowerHasElement, Filter.scalars, FieldTest.scalars, Encodes]
  have hnotHas : ∀ e, ∀ x ∈ (lowerNotHasElement path e).scalars, Encodes x := by
    intro e
    cases e <;> simp [lowerNotHasElement, compareWith, Filter.scalars, FieldTest.scalars, Encodes]
  have hand : ∀ fs, (Filter.and fs).scalars = fs.flatMap Filter.scalars := fun fs => by
    rw [Filter.scalars, scalarsOfFilters_eq]
  have heach : ∀ {g : ValueSetElement → Filter} (es : List ValueSetElement),
      (∀ e, ∀ x ∈ (g e).scalars, Encodes x) →
      ∀ x ∈ (es.map g).flatMap Filter.scalars, Encodes x := by
    intro g es hg
    rw [List.flatMap_map]
    exact List.forall_mem_flatMap.2 fun e _ => hg e
  refine Carry.plain ?_
  unfold lowerStringOperator
  dsimp only
  split
  · unfold lowerHasSet
    dsimp only
    rw [scalars_anyOf, List.flatMap_append]
    refine List.forall_mem_append.2 ⟨?_, heach _ hhas⟩
    split <;> simp [Filter.scalars, Encodes]
  · rename_i elements
    have hall := heach (elements.filter (!·.isNull)) hnotHas
    unfold lowerNotHasSet
    dsimp only
    split <;> split
    · simp [present, Filter.scalars, FieldTest.scalars, Encodes]
    · rw [hand, List.flatMap_append]
      refine List.forall_mem_append.2 ⟨hall, ?_⟩
      simp [present, Filter.scalars, FieldTest.scalars, Encodes]
    · simp [Filter.scalars, Encodes]
    · simp only [Filter.scalars, scalarsOfFilters_eq, List.flatMap_cons, List.flatMap_nil,
        scalars_combine hand, List.append_nil]
      exact List.forall_mem_append.2 ⟨hall, by simp [Encodes]⟩
  all_goals simp [Filter.scalars, FieldTest.scalars, Encodes]

theorem carries_lowerDirect {op : ComparisonOperator} (hop : op ≠ .eq) (l : LiteralValue) :
    Carries (lowerDirect clock col op (.literal l)) (comparedLiterals col op l) := by
  rw [comparedLiterals, if_neg hop]
  exact carries_compareWith clock col.fullPath op l

theorem carries_lowerDirectLiteral {op : ComparisonOperator} {l : LiteralValue} {f : Filter}
    (h : lowerComparison clock col op (.literal l) = .ok f) :
    Carries f (comparedLiterals col op l) := by
  cases l with
  | null =>
    cases h
    exact carries_nullTest col.fullPath col op
  | _ =>
    cases op with
    | eq => exact carries_lowerEquals clock col h
    | _ =>
      cases h
      exact carries_lowerDirect clock col (by decide) _

theorem carries_lowerFieldExpression {leaf : BoundFieldExpression} {f : Filter}
    (h : lowerFieldExpression clock leaf = .ok f) : Carries f (leafLiterals leaf) := by
  obtain ⟨col, op, operand⟩ := leaf
  cases op with
  | string op =>
    cases h
    exact carries_lowerStringOperator _ op operand
  | comparison op =>
    cases operand with
    | literal l => exact carries_lowerDirectLiteral clock col h
    | range r =>
      unfold lowerFieldExpression lowerComparison at h
      dsimp only at h
      split at h
      · cases h
        have hscalars : (Filter.or (lowerOutside clock col.fullPath r ++
            [.equals col.fullPath .none])).scalars =
            (lowerOutside clock col.fullPath r).flatMap Filter.scalars ++ [.none] := by
          simp [Filter.scalars]
        rw [Carries, hscalars]
        have hnull : Carry [.none] [] := Carry.plain (by simp [Encodes])
        exact (carry_outside clock col.fullPath r).append hnull
      · cases h
        exact carries_between clock col.fullPath r
    | compound cs =>
      cases h
      exact carries_compound clock col.fullPath cs
    | constraint c => exact carries_lowerConstraint clock col h
    | valueSet elements =>
      cases op with
      | eq => exact carries_lowerEqualitySet clock col h
      | neq => exact carries_lowerInequalitySet clock col h
      | _ =>
        cases h
        exact Carry.plain (by
          simp [lowerDirect, scalarOfOperand, compareWith, Filter.scalars, FieldTest.scalars, Encodes])

theorem carries_lowerExpression {e : BoundExpression} {f : Filter}
    (h : lowerExpression clock e = .ok f) : Carries f (e.atoms.flatMap leafLiterals) := by
  induction e generalizing f with
  | atom leaf =>
    rw [Formula.atoms, List.flatMap_singleton]
    exact carries_lowerFieldExpression clock h
  | not e ih =>
    simp only [lowerExpression, bind_eq_ok, pure_eq_ok] at h
    obtain ⟨g, hg, rfl⟩ := h
    simpa [Carries, Filter.scalars, Formula.atoms] using ih hg
  | and l r hl hr | or l r hl hr =>
    simp only [lowerExpression, bind_eq_ok, pure_eq_ok] at h
    obtain ⟨g, hg, g', hg', rfl⟩ := h
    rw [Formula.atoms, List.flatMap_append]
    simpa [Carries, Filter.scalars] using (hl hg).append (hr hg')

theorem carries_lowerWhere {w : Option BoundExpression} {f : Filter}
    (h : lowerWhere clock w = .ok f) : Carries f (whereLiterals w) := by
  cases w with
  | none =>
    cases h
    exact Carry.nil
  | some e => exact carries_lowerExpression clock h

/-- The documents of assignments. -/
theorem carry_lowerAssignments (assignments : List BoundMutationAssignment) :
    Carry ((lowerAssignments clock assignments).map (·.2)) (assignedLiterals assignments) := by
  have hmap : (lowerAssignments clock assignments).map (·.2) =
      (assignedLiterals assignments).map (convertLiteralToParameter clock) := by
    rw [lowerAssignments, assignedLiterals, List.map_map]
    have hmap := Dict.ofEntries_map (convertLiteralToParameter clock)
      (assignments.map fun a => (a.field.fullPath, a.value))
    rw [List.map_map] at hmap
    exact (congrArg (List.map Prod.snd) hmap).trans (List.map_map ..)
  rw [hmap]
  exact Carry.map _ _

end

end

theorem le_one_of_mem_lowerProjection {projection : List BoundFieldSelection} {e : String × ℕ}
    (h : e ∈ lowerProjection projection) : e.2 ≤ 1 := by
  have hone : ∀ e ∈ Dict.ofEntries ((projection.map (·.field.fullPath)).map fun c => (c, 1)),
      e.2 ≤ 1 := by
    intro e he
    obtain ⟨c, -, rfl⟩ := List.mem_map.1 (Dict.mem_of_mem_ofEntries he)
    exact le_rfl
  unfold lowerProjection at h
  dsimp only at h
  split at h
  · exact hone e h
  · rcases Dict.mem_set h with rfl | h
    · exact Nat.zero_le 1
    · exact hone e h

theorem sign_of_mem_sortItems {query : BoundAltrQueryIR} {s : String × ℤ}
    (h : s ∈ sortItems query) : 0 ≤ s.2 + 1 ∧ s.2 ≤ 1 := by
  simp only [sortItems, List.mem_append, List.mem_map] at h
  rcases h with (⟨r, -, rfl⟩ | ⟨c, -, rfl⟩) | h
  · dsimp only
    split <;> decide
  · dsimp only
    split <;> decide
  · split at h
    · split at h
      · rw [List.mem_singleton.1 h]
        decide
      · obtain ⟨pk, -, rfl⟩ := List.mem_map.1 h
        exact ⟨Int.le.intro 2 rfl, le_rfl⟩
    · cases h

/-- The command of a query can be encoded exactly if the literals that it holds as they are can
be, and so can the numbers of its LIMIT and OFFSET. -/
theorem encodable_iff {clock : Clock} {query : BoundAltrQueryIR} {p : PhysicalQuery}
    (h : lower clock query = .ok p) : p.command.Encodable ↔
      (∀ l ∈ boundLiterals query, EncodesLiteral l) ∧ ∀ n ∈ rowCounts query, InInt64 n := by
  simp only [lower, bind_eq_ok, pure_eq_ok] at h
  obtain ⟨command, hcommand, rfl⟩ := h
  unfold lowerCommand at hcommand
  unfold Command.Encodable boundLiterals rowCounts
  cases hop : query.operation with
  | create =>
    simp only [hop, pure_eq_ok] at hcommand
    subst hcommand
    have hrecords : Carry (((recordsToCreate query).map fun rec =>
        lowerAssignments clock rec.assignments).flatMap fun d => d.map (·.2))
        ((recordsToCreate query).flatMap fun rec => assignedLiterals rec.assignments) := by
      rw [List.flatMap_map]
      exact Carry.flatMap (List.forall₂_same.2 fun rec _ => carry_lowerAssignments clock _)
    exact hrecords.trans (by simp)
  | update =>
    simp only [hop, bind_eq_ok, pure_eq_ok] at hcommand
    obtain ⟨f, hf, rfl⟩ := hcommand
    exact ((carries_lowerWhere clock hf).append (carry_lowerAssignments clock _)).trans (by simp)
  | delete =>
    simp only [hop, bind_eq_ok, pure_eq_ok] at hcommand
    obtain ⟨f, hf, rfl⟩ := hcommand
    exact (carries_lowerWhere clock hf).trans (by simp)
  | read =>
    simp only [hop, bind_eq_ok, pure_eq_ok] at hcommand
    obtain ⟨f, hf, rfl⟩ := hcommand
    have hplain : ∀ n : ℤ, 0 ≤ n + 1 ∧ n ≤ 1 → InInt64 n := fun n hn => by unfold InInt64; omega
    have hprojection : ∀ x ∈ (if !query.isWildcardProjection then
        some (lowerProjection query.projection) else none).elim []
          fun p => p.map fun e => (.int e.2 : Scalar), Encodes x := by
      split
      · refine List.forall_mem_map.2 fun e he => hplain _ ?_
        have hle := le_one_of_mem_lowerProjection he
        omega
      · exact fun _ h => absurd h List.not_mem_nil
    have hsort : ∀ x ∈ (sortItems query).map fun s => (.int s.2 : Scalar), Encodes x :=
      List.forall_mem_map.2 fun s hs => hplain _ (sign_of_mem_sortItems hs)
    have hcounts : ∀ o : Option ℤ, (∀ x ∈ o.toList.map Scalar.int, Encodes x) ↔
        ∀ n ∈ o.toList, InInt64 n := fun o => List.forall_mem_map
    have hfilter : (∀ x ∈ f.scalars, Encodes x) ↔ _ := carries_lowerWhere clock hf
    rw [Command.scalars, List.forall_mem_append, List.forall_mem_append, List.forall_mem_append,
      List.forall_mem_append, hcounts, hcounts, List.forall_mem_append, hfilter]
    tauto

open TestSchema in
/-- The bounds of a range of integers can be encoded. -/
theorem encodable_range : ∃ p, lower .newYear
      (query .read (.atom ⟨age, .comparison .eq, .range ⟨.integer 18, .integer 30⟩⟩)) = .ok p ∧
    p.command.Encodable := by
  refine ⟨_, rfl, (@encodable_iff .newYear (query .read
    (.atom ⟨age, .comparison .eq, .range ⟨.integer 18, .integer 30⟩⟩)) _ rfl).2
    ⟨fun l hl => ?_, fun n hn => nomatch hn⟩⟩
  change l ∈ [LiteralValue.integer 18, .integer 30] at hl
  simp only [List.mem_cons, List.not_mem_nil, or_false] at hl
  rcases hl with rfl | rfl <;> exact ⟨by decide, by decide⟩

open TestSchema in
/-- A date that is not compared with `=`, and an integer beyond 64 bits, are accepted and reach the
driver as they are. -/
theorem not_encodable :
    (∃ q p, AcceptedFrom .ascii "GET users WHERE { created_at > @2026-01-01 };" schema q ∧
      lower .newYear q = .ok p ∧ ¬ p.command.Encodable) ∧
    ∃ q p, AcceptedFrom .ascii "GET users WHERE { age = 9223372036854775808 };" schema q ∧
      lower .newYear q = .ok p ∧ ¬ p.command.Encodable := by
  constructor
  · refine ⟨query .read (.atom ⟨createdAt, .comparison .gt,
      .literal (.temporal (.value ⟨2026, 1, 1, by decide⟩))⟩), _,
      acceptedFrom_of_run (by decide +kernel), rfl, fun h => ?_⟩
    exact h _ (List.mem_append_left _ (List.mem_append_left _ (List.mem_append_left _
      (List.mem_append_left _ (List.mem_singleton_self _)))))
  · refine ⟨query .read (.atom ⟨age, .comparison .eq, .literal (.integer 9223372036854775808)⟩), _,
      acceptedFrom_of_run (by decide +kernel), rfl, fun h => ?_⟩
    have hrange := h _ (List.mem_append_left _ (List.mem_append_left _ (List.mem_append_left _
      (List.mem_append_left _ (List.mem_singleton_self _)))))
    exact absurd hrange.2 (by decide)

end AltrStream.Lowering.MongoDB
