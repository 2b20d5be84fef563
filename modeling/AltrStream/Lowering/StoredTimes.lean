import AltrStream.Lowering.SqlTotality
import AltrStream.Python.IsoOrder
import AltrStream.QueryEngine.Binder

/-! # Timestamps as texts in SQLite

SQLite keeps a timestamp as the text that was assigned and compares it character by
character. The bounds of a day have a `T` behind the date, `DATETIME('now')` a blank,
a date nothing at all, so the texts do not always stand in the order of the times.
-/
namespace AltrStream.Lowering.SQLite
open Foundations Python QueryEngine Semantics

/-- `HH:MM:SS` -/
def timeChars (seconds : ℕ) : List Char :=
  zeroPad 2 (seconds / 3600) ++ ':' :: (zeroPad 2 (seconds / 60 % 60) ++ ':' :: zeroPad 2 (seconds % 60))

/-- What `DATE('now')` and `DATETIME('now')` give at a time. -/
def currentText (now : DateTime) : TemporalKeyword → String
  | .today => now.date.isoformat
  | .now => String.ofList (now.date.isoChars ++ ' ' :: timeChars (now.micros / 1000000))

/-- The text at an operand position; NULL and what is no text have none. -/
def textAt (now : DateTime) (parameters : List Scalar) : SqlOperand → Option String
  | .param i =>
    match entryAt parameters i with
    | some (.str s) => some s
    | _ => none
  | .current k => some (currentText now k)
  | .null => none

/-- The truth of a condition whose columns hold a text. -/
def textTruth (now : DateTime) (parameters : List Scalar) (stored : Option String) :
    Condition → Truth
  | .constant => .yes
  | .blank => .unknown
  | .isNull _ => .ofBool stored.isNone
  | .isNotNull _ => .ofBool stored.isSome
  | .compare _ op x => sqlCompare op stored (textAt now parameters x)
  | .between _ lo hi =>
    (sqlCompare .gte stored (textAt now parameters lo)).and
      (sqlCompare .lte stored (textAt now parameters hi))
  | .notBetween _ lo hi =>
    ((sqlCompare .gte stored (textAt now parameters lo)).and
      (sqlCompare .lte stored (textAt now parameters hi))).neg
  | .isIn _ xs => .disj (xs.map fun x => sqlCompare .eq stored (textAt now parameters x))
  | .notIn _ xs => (Truth.disj (xs.map fun x => sqlCompare .eq stored (textAt now parameters x))).neg
  | .like _ p => textLike stored (textAt now parameters p)
  | .notLike _ p => (textLike stored (textAt now parameters p)).neg
  | .and l r => (textTruth now parameters stored l).and (textTruth now parameters stored r)
  | .or l r => (textTruth now parameters stored l).or (textTruth now parameters stored r)
  | .not e => (textTruth now parameters stored e).neg
  | .group e => textTruth now parameters stored e
where
  textLike : Option String → Option String → Truth
    | some s, some p => .ofBool (likeMatch p.toList s.toList)
    | _, _ => .unknown

/-- A column that is assigned the literal at that time, in a CREATE or an UPDATE, holds the text. -/
def Stores (now : DateTime) (l : TemporalLiteral) (text : String) : Prop :=
  ∃ before x parameters, style.lowerLiteral (.temporal l) before = .ok (x, parameters) ∧
    ∀ after, textAt now (parameters ++ after) x = some text

/-- The date that a text is stored for. -/
def storedDate (now : DateTime) : TemporalLiteral → Date
  | .keyword _ => now.date
  | .value d => d

/-- The microseconds behind the date; `DATETIME('now')` has whole seconds. -/
def storedMicros (now : DateTime) : TemporalLiteral → ℕ
  | .keyword .now => now.micros / 1000000 * 1000000
  | _ => 0

/-- The instant that is stored. -/
def storedInstant (now : DateTime) (l : TemporalLiteral) : ℕ :=
  (storedDate now l).midnight + storedMicros now l

/-- `=` asks for an instant of the day, the orderings compare with its start. -/
def Chronological (op : ComparisonOperator) (t : ℕ) (d : Date) : Prop :=
  match op with
  | .eq => d.midnight ≤ t ∧ t < d.midnight + dayLength
  | .neq => ¬ (d.midnight ≤ t ∧ t < d.midnight + dayLength)
  | op => op.holds t d.midnight = true

/-- The predicate of `col op @d` is true of what the literal was stored as at that time exactly if the
times are so related. -/
def ComparesAsTime (col : BoundFieldPath) (op : ComparisonOperator) (now : DateTime)
    (l : TemporalLiteral) (d : Date) : Prop :=
  ∀ before, ∃ c parameters, lowerFieldExpression
      ⟨col, .comparison op, .literal (.temporal (.value d))⟩ before = .ok (c, parameters) ∧
    ∀ later after text, Stores now l text →
      (textTruth later (parameters ++ after) (some text) c = .yes ↔
        Chronological op (storedInstant now l) d)

/-- `=` compares with bounds in another format, in which the whole day comes before its start, and a
time of the day comes behind the date alone, also midnight. -/
def TimeFits (op : ComparisonOperator) (now : DateTime) (l : TemporalLiteral) (d : Date) : Prop :=
  match op with
  | .eq => d ≠ Date.last ∧ storedDate now l ≠ d ∧ d.next? ≠ some (storedDate now l)
  | .neq => ¬ (l = .keyword .now ∧ now.date = d)
  | .gt | .lte => ¬ (l = .keyword .now ∧ now.date = d ∧ now.micros < 1000000)
  | .lt | .gte => True

/-! ### What is stored -/

/-- What follows the date in a stored text. -/
def storedTail (now : DateTime) : TemporalLiteral → List Char
  | .keyword .now => ' ' :: timeChars (now.micros / 1000000)
  | _ => []

def storedText (now : DateTime) (l : TemporalLiteral) : String :=
  String.ofList ((storedDate now l).isoChars ++ storedTail now l)

theorem textAt_param (now : DateTime) (before : List Scalar) (s : String) (rest : List Scalar) :
    textAt now (before ++ .str s :: rest) (.param (before.length + 1)) = some s := by
  simp [textAt, entryAt]

theorem stores_iff (now : DateTime) (l : TemporalLiteral) (text : String) :
    Stores now l text ↔ text = storedText now l := by
  have hrun : ∀ before, ∃ x parameters,
      style.lowerLiteral (.temporal l) before = .ok (x, parameters) ∧
        ∀ after, textAt now (parameters ++ after) x = some (storedText now l) := by
    intro before
    cases l with
    | keyword k =>
      refine ⟨_, _, rfl, fun after => ?_⟩
      cases k <;> simp [textAt, currentText, storedText, storedDate, storedTail, Date.isoformat]
    | value d =>
      refine ⟨_, _, rfl, fun after => ?_⟩
      rw [List.append_assoc, List.singleton_append]
      refine (textAt_param now before _ after).trans ?_
      simp [storedText, storedDate, storedTail, Date.isoformat]
  constructor
  · rintro ⟨before, x, parameters, h, htext⟩
    obtain ⟨x', parameters', h', htext'⟩ := hrun before
    cases h.symm.trans h'
    exact Option.some.inj ((htext []).symm.trans (htext' []))
  · rintro rfl
    obtain ⟨x, parameters, h, htext⟩ := hrun []
    exact ⟨[], x, parameters, h, htext⟩

/-! ### Texts against dates -/

theorem ofList_lt_ofList (s t : List Char) : String.ofList s < String.ofList t ↔ s < t := by
  rw [String.lt_iff_toList_lt, String.toList_ofList, String.toList_ofList]

section
variable (now : DateTime) (l : TemporalLiteral) (d : Date)

theorem storedTail_eq_nil : storedTail now l = [] ↔ l ≠ .keyword .now := by
  cases l with
  | keyword k => cases k <;> simp [storedTail]
  | value d => simp [storedTail]

theorem storedText_lt_iff : storedText now l < d.isoformat ↔
    (storedDate now l).toordinal < d.toordinal := by
  have h := Date.isoChars_append_lt_iff (storedDate now l) d (storedTail now l) []
  rw [List.append_nil] at h
  rw [storedText, Date.isoformat, ofList_lt_ofList, h]
  simp

theorem lt_storedText_iff : d.isoformat < storedText now l ↔
    d.toordinal < (storedDate now l).toordinal ∨ storedDate now l = d ∧ l = .keyword .now := by
  have h := Date.isoChars_append_lt_iff d (storedDate now l) [] (storedTail now l)
  have htail : [] < storedTail now l ↔ l = .keyword .now := by
    rw [← not_iff_not, ← ne_eq, ← storedTail_eq_nil now l]
    cases storedTail now l <;> simp
  rw [List.append_nil, htail, @eq_comm _ d] at h
  rw [storedText, Date.isoformat, ofList_lt_ofList, h]

theorem storedText_eq_iff : storedText now l = d.isoformat ↔
    storedDate now l = d ∧ l ≠ .keyword .now := by
  have hlt := storedText_lt_iff now l d
  have hgt := lt_storedText_iff now l d
  have hdate : storedDate now l = d ↔ (storedDate now l).toordinal = d.toordinal :=
    Date.toordinal_injective.eq_iff.symm
  rw [← not_iff_not, ← ne_eq, ne_iff_lt_or_gt, hlt, hgt, hdate]
  by_cases hl : l = .keyword .now
  · simp only [hl, and_true, ne_eq, not_true, and_false, not_false_iff, iff_true]
    omega
  · simp only [hl, and_false, or_false, ne_eq, not_false_iff, and_true]
    omega

/-- The bounds of a day have a `T` behind the date, which comes behind the end of the text and
behind a blank. -/
theorem storedText_lt_bound_iff : storedText now l < (DateTime.ofDate d).isoformat ↔
    (storedDate now l).toordinal ≤ d.toordinal := by
  have htail : storedTail now l < "T00:00:00".toList := by
    unfold storedTail
    split
    · exact List.cons_lt_cons_iff.2 (.inl (by decide))
    · decide
  have hdate : storedDate now l = d ↔ (storedDate now l).toordinal = d.toordinal :=
    Date.toordinal_injective.eq_iff.symm
  rw [storedText, DateTime.isoformat, DateTime.isoChars_ofDate, ofList_lt_ofList,
    Date.isoChars_append_lt_iff, hdate]
  simp only [htail, and_true]
  omega

/-! ### Instants against dates -/

theorem storedMicros_lt : storedMicros now l < dayLength := by
  have hnow := now.valid
  unfold storedMicros
  split
  · exact (Nat.div_mul_le_self _ _).trans_lt hnow
  · decide

theorem storedInstant_lt_iff : storedInstant now l < d.midnight ↔
    (storedDate now l).toordinal < d.toordinal := by
  have hmicros := storedMicros_lt now l
  unfold storedInstant Date.midnight dayLength at *
  omega

theorem lt_storedInstant_iff : d.midnight < storedInstant now l ↔
    d.toordinal < (storedDate now l).toordinal ∨
      storedDate now l = d ∧ 0 < storedMicros now l := by
  have hmicros := storedMicros_lt now l
  have hdate : storedDate now l = d ↔ (storedDate now l).toordinal = d.toordinal :=
    Date.toordinal_injective.eq_iff.symm
  rw [hdate]
  unfold storedInstant Date.midnight dayLength at *
  omega

theorem storedInstant_of_day_iff : d.midnight ≤ storedInstant now l ∧
    storedInstant now l < d.midnight + dayLength ↔ storedDate now l = d := by
  have hmicros := storedMicros_lt now l
  have hdate : storedDate now l = d ↔ (storedDate now l).toordinal = d.toordinal :=
    Date.toordinal_injective.eq_iff.symm
  rw [hdate]
  unfold storedInstant Date.midnight dayLength at *
  omega

theorem storedMicros_pos_iff : 0 < storedMicros now l ↔
    l = .keyword .now ∧ 1000000 ≤ now.micros := by
  cases l with
  | keyword k =>
    cases k with
    | today => simp [storedMicros]
    | now =>
      simp only [storedMicros, true_and]
      omega
  | value d => simp [storedMicros]

end

/-! ### Predicates -/

theorem sqlCompare_eq_yes {V : Type*} [LinearOrder V] (op : ComparisonOperator) (x y : V) :
    sqlCompare op (some x) (some y) = .yes ↔ op.holds x y = true := by
  cases h : op.holds x y <;> simp [sqlCompare, h, Truth.ofBool]

section
variable (col : BoundFieldPath) (now : DateTime) (l : TemporalLiteral) (d : Date)

/-- What a lowered predicate says of the stored text is compared with the order of the times. -/
theorem comparesAsTime_iff_of_run {op : ComparisonOperator} {p : Prop}
    (hrun : ∀ before, ∃ c parameters, lowerFieldExpression
      ⟨col, .comparison op, .literal (.temporal (.value d))⟩ before = .ok (c, parameters) ∧
        ∀ later after, textTruth later (parameters ++ after) (some (storedText now l)) c = .yes ↔ p) :
    ComparesAsTime col op now l d ↔ (p ↔ Chronological op (storedInstant now l) d) := by
  constructor
  · intro h
    obtain ⟨c, parameters, hc, htruth⟩ := h []
    obtain ⟨c', parameters', hc', htruth'⟩ := hrun []
    cases hc.symm.trans hc'
    rw [← htruth now [] _ ((stores_iff now l _).2 rfl)]
    exact (htruth' now []).symm
  · intro h before
    obtain ⟨c, parameters, hc, htruth⟩ := hrun before
    refine ⟨c, parameters, hc, fun later after text htext => ?_⟩
    rw [(stores_iff now l text).1 htext, htruth]
    exact h

/-- Apart from `=`, the text of the date is compared. -/
theorem comparesAsTime_direct_iff {op : ComparisonOperator} (heq : op ≠ .eq) :
    ComparesAsTime col op now l d ↔ (op.holds (storedText now l) d.isoformat = true ↔
      Chronological op (storedInstant now l) d) := by
  refine comparesAsTime_iff_of_run col now l d fun before => ?_
  have htext : ∀ later after, textAt later (before ++ [.str d.isoformat] ++ after)
      (.param (before.length + 1)) = some d.isoformat := by
    intro later after
    rw [List.append_assoc]
    exact textAt_param later before _ after
  by_cases hneq : op = .neq
  · subst hneq
    refine ⟨_, _, rfl, fun later after => ?_⟩
    change (sqlCompare .neq (some (storedText now l)) (textAt later (before ++ [.str d.isoformat] ++
      after) (.param (before.length + 1)))).or .no = .yes ↔ _
    rw [htext, Truth.or_no, sqlCompare_eq_yes]
  · refine ⟨.compare col op (.param (before.length + 1)), before ++ [.str d.isoformat], ?_,
      fun later after => ?_⟩
    · cases op <;> first | rfl | contradiction
    · rw [textTruth, htext, sqlCompare_eq_yes]

/-- `=` finds the texts that lie between the start of the day and that of the next one, and raises
for a date without a next one. -/
theorem comparesAsTime_day_iff (hcol : col.isTimestampField = true) :
    ComparesAsTime col .eq now l d ↔ ∃ d', d.next? = some d' ∧
      (storedDate now l = d' ↔ Chronological .eq (storedInstant now l) d) := by
  have hlower : ∀ before, lowerFieldExpression
      ⟨col, .comparison .eq, .literal (.temporal (.value d))⟩ before =
        style.lowerDay col d before := by
    intro before
    change style.lowerEquals col (.temporal (.value d)) before = _
    simp only [ParameterStyle.lowerEquals, dateOnly?, hcol, if_true]
  cases hnext : d.next? with
  | none =>
    have hlast := (Date.next?_eq_none d).1 hnext
    refine iff_of_false (fun h => ?_) (by simp)
    obtain ⟨c, parameters, hrun, -⟩ := h []
    rw [hlower] at hrun
    exact ((lowerDay_succeeds style col d) []).1 ⟨_, hrun⟩ hlast
  | some d' =>
    have hordinal := Date.toordinal_next? hnext
    have hdate : storedDate now l = d' ↔ (storedDate now l).toordinal = d'.toordinal :=
      Date.toordinal_injective.eq_iff.symm
    have hrange : parseDateOnlyRange d = pure (.ofDate d, .ofDate d') := by
      simp [parseDateOnlyRange, DateTime.addDay?_ofDate, hnext]
    have hrun := @comparesAsTime_iff_of_run col now l d .eq (storedDate now l = d') fun before => by
      refine ⟨.group (.and (.compare col .gte (.param (before.length + 1)))
        (.compare col .lt (.param ((before ++ [style.dayBound (.ofDate d)]).length + 1)))),
        before ++ [style.dayBound (.ofDate d)] ++ [style.dayBound (.ofDate d')], ?_,
        fun later after => ?_⟩
      · rw [hlower]
        simp only [ParameterStyle.lowerDay, ParameterStyle.lowerDayBounds, hrange, pure_bind]
        rfl
      · have hstart := textAt_param later before (DateTime.ofDate d).isoformat
          (style.dayBound (.ofDate d') :: after)
        have hend := textAt_param later (before ++ [style.dayBound (.ofDate d)])
          (DateTime.ofDate d').isoformat after
        have hlist : before ++ [style.dayBound (.ofDate d)] ++ [style.dayBound (.ofDate d')] ++ after =
            before ++ style.dayBound (.ofDate d) :: style.dayBound (.ofDate d') :: after := by simp
        have hlist' : before ++ [style.dayBound (.ofDate d)] ++ style.dayBound (.ofDate d') :: after =
            before ++ style.dayBound (.ofDate d) :: style.dayBound (.ofDate d') :: after := by simp
        change textAt later (before ++ style.dayBound (.ofDate d) ::
          style.dayBound (.ofDate d') :: after) _ = _ at hstart
        change textAt later (before ++ [style.dayBound (.ofDate d)] ++
          style.dayBound (.ofDate d') :: after) _ = _ at hend
        rw [hlist'] at hend
        rw [textTruth, textTruth, textTruth, textTruth, hlist, hstart, hend, Truth.and_eq_yes,
          sqlCompare_eq_yes, sqlCompare_eq_yes]
        simp only [ComparisonOperator.holds, decide_eq_true_iff]
        rw [← not_lt, storedText_lt_bound_iff, storedText_lt_bound_iff, hdate]
        omega
    exact hrun.trans (by simp)

/-- A predicate on a timestamp column compares what was stored as the times do exactly under the
condition on its operator. -/
theorem comparesAsTime_iff (hcol : col.isTimestampField = true) (op : ComparisonOperator) :
    ComparesAsTime col op now l d ↔ TimeFits op now l d := by
  have hbehind : ((d.toordinal < (storedDate now l).toordinal ∨
        storedDate now l = d ∧ l = .keyword .now) ↔
      (d.toordinal < (storedDate now l).toordinal ∨
        storedDate now l = d ∧ l = .keyword .now ∧ 1000000 ≤ now.micros)) ↔
      ¬ (l = .keyword .now ∧ now.date = d ∧ now.micros < 1000000) := by
    by_cases hl : l = .keyword .now
    · subst hl
      have hdate : storedDate now (.keyword .now) = now.date := rfl
      by_cases hd : now.date = d
      · simp [hdate, hd]
      · simp [hdate, hd]
    · simp [hl]
  cases op with
  | eq =>
    rw [comparesAsTime_day_iff col now l d hcol]
    simp only [Chronological, TimeFits, storedInstant_of_day_iff, ne_eq, ← Date.next?_eq_none d]
    cases hnext : d.next? with
    | none => simp
    | some d' =>
      have hne : d ≠ d' := by
        rintro rfl
        have := Date.toordinal_next? hnext
        omega
      simp only [Option.some.injEq, exists_eq_left', reduceCtorEq, not_false_iff, true_and]
      constructor
      · intro h
        refine ⟨fun hd => hne (hd.symm.trans (h.2 hd)), fun hd' => ?_⟩
        exact hne ((h.1 hd'.symm).symm.trans hd'.symm)
      · rintro ⟨hd, hd'⟩
        exact iff_of_false (fun h => hd' h.symm) hd
  | neq =>
    rw [comparesAsTime_direct_iff col now l d (by decide)]
    simp only [ComparisonOperator.holds, decide_eq_true_iff, ne_eq, storedText_eq_iff, Chronological,
      storedInstant_of_day_iff, TimeFits]
    by_cases hl : l = .keyword .now
    · subst hl
      have hdate : storedDate now (.keyword .now) = now.date := rfl
      simp [hdate]
    · simp [hl]
  | gt =>
    rw [comparesAsTime_direct_iff col now l d (by decide)]
    simp only [ComparisonOperator.holds, decide_eq_true_iff, lt_storedText_iff, Chronological,
      lt_storedInstant_iff, storedMicros_pos_iff, TimeFits]
    exact hbehind
  | lt =>
    rw [comparesAsTime_direct_iff col now l d (by decide)]
    simp only [ComparisonOperator.holds, decide_eq_true_iff, storedText_lt_iff, Chronological,
      storedInstant_lt_iff, TimeFits]
  | gte =>
    rw [comparesAsTime_direct_iff col now l d (by decide)]
    simp only [ComparisonOperator.holds, decide_eq_true_iff, ← not_lt, storedText_lt_iff, Chronological,
      storedInstant_lt_iff, TimeFits]
  | lte =>
    rw [comparesAsTime_direct_iff col now l d (by decide)]
    simp only [ComparisonOperator.holds, decide_eq_true_iff, Chronological, TimeFits]
    rw [← not_lt, ← not_lt, not_iff_not, lt_storedText_iff, lt_storedInstant_iff, storedMicros_pos_iff]
    exact hbehind

end

open TestSchema

/-- The orderings that leave the start of the day on the side of what follows are right. -/
theorem comparesAsTime_lt_newYear : ComparesAsTime createdAt .lt (.ofDate Clock.newYear.today)
    (.keyword .now) Clock.newYear.today :=
  (comparesAsTime_iff createdAt _ _ _ rfl .lt).2 trivial

/-- `created_at = @2026-01-01` is not true of what `@2026-01-01` is stored as. -/
theorem not_comparesAsTime_newYear : ¬ ComparesAsTime createdAt .eq (.ofDate Clock.newYear.today)
    (.value Clock.newYear.today) Clock.newYear.today := by
  intro h
  obtain ⟨d', hnext, hiff⟩ := (comparesAsTime_day_iff createdAt _ _ _ rfl).1 h
  have hday : Clock.newYear.today = d' := hiff.2 ((storedInstant_of_day_iff _ _ _).2 rfl)
  have := Date.toordinal_next? hnext
  rw [← hday] at this
  omega

end AltrStream.Lowering.SQLite
