import AltrStream.QueryEngine.LiteralTypes

/-! # What binding guarantees

Binding resolves every field of a query, checks every comparison and assignment
against the type of its field, and keeps the query as it is. What it lets through is
told here without its checks: which literals stand where, for every kind of operand.
-/
namespace AltrStream.QueryEngine
open Foundations Semantics

/-! ### Operands -/

def ValueSetElement.constraints : ValueSetElement → List ComparisonConstraint
  | constraint c => [c]
  | compound cs => cs
  | _ => []

def ValueSetElement.ranges : ValueSetElement → List Range
  | range r => [r]
  | _ => []

/-- Whether the element is a compound constraint. -/
def ValueSetElement.isCompound : ValueSetElement → Bool
  | compound _ => true
  | _ => false

/-- The comparisons with a constraint, alone or in a compound. -/
def Operand.constraints : Operand → List ComparisonConstraint
  | constraint c => [c]
  | compound cs => cs
  | valueSet elements => elements.flatMap (·.constraints)
  | _ => []

def Operand.ranges : Operand → List Range
  | range r => [r]
  | valueSet elements => elements.flatMap (·.ranges)
  | _ => []

/-- Whether there is a compound constraint in the operand. -/
def Operand.hasCompound : Operand → Bool
  | compound _ => true
  | valueSet elements => elements.any (·.isCompound)
  | _ => false

/-- A comparison of a field of the category. -/
structure WellTyped (category : LogicalTypeCategory) (operator : Operator) (operand : Operand) :
    Prop where
  literals : ∀ l ∈ operand.literals, l = .null ∨ l.category? = some category
  null : operand = .literal .null → operator = .comparison .eq ∨ operator = .comparison .neq
  bounds : ∀ r ∈ operand.ranges, r.start ≠ .null ∧ r.stop ≠ .null
  constraints : ∀ c ∈ operand.constraints, c.value = .null → c.operator = .eq ∨ c.operator = .neq
  ordered : category = .boolean → ∀ op, operator = .comparison op → op.isOrdering = false
  constrained : category = .boolean →
    operand.hasCompound = false ∧ ∀ c ∈ operand.constraints, c.operator.isOrdering = false
  strings : ∀ op, operator = .string op →
    category = .string ∧ ∀ l ∈ operand.literals, ∃ s, l = .string s

/-- A comparison that binding lets through. A path into a column is only asked about a NULL operand,
and a column of another type than AltrQL's has no other operand. -/
structure LeafTyped (field : BoundFieldPath) (operator : Operator) (operand : Operand) : Prop where
  typed : field.path.isNested = false → WellTyped field.logicalCategory operator operand
  null : operand = .literal .null → operator = .comparison .eq ∨ operator = .comparison .neq
  known : field.path.isNested = false → operand ≠ .literal .null →
    field.logicalCategory ≠ .unknown

/-- An assignment that binding lets through. -/
def Assignable (field : BoundFieldPath) (value : LiteralValue) : Prop :=
  value = .null ∧ field.nullable = true ∨ value.category? = some field.logicalCategory

/-! ### The checks of a leaf -/

theorem category?_eq_none {l : LiteralValue} : l.category? = none ↔ l = .null := by
  cases l <;> simp [LiteralValue.category?]

theorem isOrdering_eq_false {op : ComparisonOperator} :
    op.isOrdering = false ↔ op = .eq ∨ op = .neq := by
  cases op <;> decide

section
variable {field : BoundFieldPath}

theorem requireCategory_eq_ok_iff {l : LiteralValue} {message : String} :
    requireCategory field l message = .ok () ↔
      l = .null ∨ l.category? = some field.logicalCategory := by
  rw [requireCategory_eq_ok, ← category?_eq_none]
  cases l.category? <;> simp

theorem validateComparisonConstraint_eq_ok {c : ComparisonConstraint} :
    validateComparisonConstraint field c = .ok () ↔
      (c.value = .null ∨ c.value.category? = some field.logicalCategory) ∧
        (c.value = .null → c.operator = .eq ∨ c.operator = .neq) ∧
        (field.logicalCategory = .boolean → c.operator.isOrdering = false) := by
  simp only [validateComparisonConstraint, bind_eq_ok, raiseIf_eq_ok, validateMember,
    requireCategory_eq_ok_iff, ← isOrdering_eq_false]
  cases c.operator.isOrdering
  · simp
  · simp
    tauto

theorem validateFieldRange_eq_ok {r : Range} (hknown : field.logicalCategory ≠ .unknown) :
    validateFieldRange field r = .ok () ↔ field.logicalCategory ≠ .boolean ∧
      r.start.category? = some field.logicalCategory ∧
      r.stop.category? = some field.logicalCategory := by
  unfold validateFieldRange
  cases hcategory : field.logicalCategory with
  | boolean => simp
  | unknown => exact absurd hcategory hknown
  | _ => simp [requireBounds_eq_ok]

/-- No range of a validated query has Boolean bounds. -/
theorem category_ne_boolean_of_validateRange {r : Range} {x : Unit} (h : validateRange r = .ok x) :
    r.start.category? ≠ some .boolean := by
  obtain ⟨start, stop⟩ := r
  cases start with
  | boolean b => cases h
  | _ => simp [LiteralValue.category?]

/-- The checks of an element, as conditions on its parts. -/
structure ElementTyped (category : LogicalTypeCategory) (e : ValueSetElement) : Prop where
  literals : ∀ l ∈ e.literals, l = .null ∨ l.category? = some category
  bounds : ∀ r ∈ e.ranges, r.start ≠ .null ∧ r.stop ≠ .null
  constraints : ∀ c ∈ e.constraints, c.value = .null → c.operator = .eq ∨ c.operator = .neq
  constrained : category = .boolean →
    e.isCompound = false ∧ ∀ c ∈ e.constraints, c.operator.isOrdering = false

/-- The bounds of a range are checked as its literals are. -/
theorem validateFieldRange_eq_ok_iff {r : Range} (hknown : field.logicalCategory ≠ .unknown)
    (hvalid : validateRange r = .ok ()) : validateFieldRange field r = .ok () ↔
      (r.start = .null ∨ r.start.category? = some field.logicalCategory) ∧
        (r.stop = .null ∨ r.stop.category? = some field.logicalCategory) := by
  have hbounds := Range.wellFormed_of_validateRange hvalid
  rw [validateFieldRange_eq_ok hknown, or_iff_right hbounds.1, or_iff_right hbounds.2]
  refine and_iff_right_of_imp fun h hboolean => ?_
  exact category_ne_boolean_of_validateRange hvalid (hboolean ▸ h.1)

theorem validateFieldElement_eq_ok {e : ValueSetElement} (hknown : field.logicalCategory ≠ .unknown)
    (hvalid : validateValueSetElement e = .ok ()) :
    validateFieldElement field e = .ok () ↔ ElementTyped field.logicalCategory e := by
  cases e with
  | literal l =>
    refine requireCategory_eq_ok_iff.trans ⟨fun h => ⟨?_, ?_, ?_, ?_⟩, fun h => ?_⟩
    · simpa [ValueSetElement.literals] using h
    · simp [ValueSetElement.ranges]
    · simp [ValueSetElement.constraints]
    · simp [ValueSetElement.isCompound, ValueSetElement.constraints]
    · exact h.literals l (List.mem_singleton_self _)
  | range r =>
    refine (validateFieldRange_eq_ok_iff hknown hvalid).trans ⟨fun h => ⟨?_, ?_, ?_, ?_⟩, fun h => ?_⟩
    · simpa [ValueSetElement.literals] using h
    · exact fun r' hr => List.mem_singleton.1 hr ▸ Range.wellFormed_of_validateRange hvalid
    · simp [ValueSetElement.constraints]
    · simp [ValueSetElement.isCompound, ValueSetElement.constraints]
    · exact ⟨h.literals _ (by simp [ValueSetElement.literals]),
        h.literals _ (by simp [ValueSetElement.literals])⟩
  | constraint c =>
    refine validateComparisonConstraint_eq_ok.trans ⟨fun h => ⟨?_, ?_, ?_, ?_⟩, fun h => ?_⟩
    · simpa [ValueSetElement.literals] using h.1
    · simp [ValueSetElement.ranges]
    · simpa [ValueSetElement.constraints] using h.2.1
    · simpa [ValueSetElement.isCompound, ValueSetElement.constraints] using h.2.2
    · exact ⟨h.literals _ (List.mem_singleton_self _), h.constraints c (List.mem_singleton_self _),
        fun hboolean => (h.constrained hboolean).2 c (List.mem_singleton_self _)⟩
  | compound cs =>
    simp only [validateFieldElement, bind_eq_ok, raiseIf_eq_ok, checkAll_eq_ok,
      validateComparisonConstraint_eq_ok]
    constructor
    · rintro ⟨-, hboolean, h⟩
      refine ⟨?_, ?_, ?_, ?_⟩
      · simpa [ValueSetElement.literals] using fun c hc => (h c hc).1
      · simp [ValueSetElement.ranges]
      · exact fun c hc => (h c hc).2.1
      · exact fun hb => absurd hb hboolean
    · intro h
      refine ⟨(), fun hboolean => absurd (h.constrained hboolean).1 (by simp [ValueSetElement.isCompound]),
        fun c hc => ⟨?_, ?_, ?_⟩⟩
      · exact h.literals _ (List.mem_map_of_mem hc)
      · exact h.constraints c hc
      · exact fun hboolean => (h.constrained hboolean).2 c hc

theorem wellTyped_valueSet_iff {category : LogicalTypeCategory} {operator : Operator}
    {elements : List ValueSetElement} : WellTyped category operator (.valueSet elements) ↔
      (∀ e ∈ elements, ElementTyped category e) ∧
      (category = .boolean → ∀ op, operator = .comparison op → op.isOrdering = false) ∧
      ∀ op, operator = .string op → category = .string ∧
        ∀ e ∈ elements, ∀ l ∈ e.literals, ∃ s, l = .string s := by
  constructor
  · intro h
    have hmem : ∀ {β : Type} {f : ValueSetElement → List β} {e : ValueSetElement} {b : β},
        e ∈ elements → b ∈ f e → b ∈ elements.flatMap f := fun he hb =>
      List.mem_flatMap.2 ⟨_, he, hb⟩
    refine ⟨fun e he => ⟨fun l hl => h.literals l (hmem he hl), fun r hr => h.bounds r (hmem he hr),
      fun c hc => h.constraints c (hmem he hc), fun hboolean => ?_⟩, h.ordered, fun op hop => ?_⟩
    · obtain ⟨hcompound, hordering⟩ := h.constrained hboolean
      exact ⟨Bool.eq_false_iff.2 (List.any_eq_false.1 hcompound e he),
        fun c hc => hordering c (hmem he hc)⟩
    · exact ⟨(h.strings op hop).1, fun e he l hl => (h.strings op hop).2 l (hmem he hl)⟩
  · rintro ⟨helements, hordered, hstrings⟩
    refine ⟨fun l hl => ?_, fun hnull => (nomatch hnull), fun r hr => ?_, fun c hc => ?_, hordered,
      fun hboolean => ⟨?_, fun c hc => ?_⟩, fun op hop => ⟨(hstrings op hop).1, fun l hl => ?_⟩⟩
    · obtain ⟨e, he, hl⟩ := List.mem_flatMap.1 hl
      exact (helements e he).literals l hl
    · obtain ⟨e, he, hr⟩ := List.mem_flatMap.1 hr
      exact (helements e he).bounds r hr
    · obtain ⟨e, he, hc⟩ := List.mem_flatMap.1 hc
      exact (helements e he).constraints c hc
    · exact List.any_eq_false.2 fun e he => Bool.eq_false_iff.1 ((helements e he).constrained hboolean).1
    · obtain ⟨e, he, hc⟩ := List.mem_flatMap.1 hc
      exact ((helements e he).constrained hboolean).2 c hc
    · obtain ⟨e, he, hl⟩ := List.mem_flatMap.1 hl
      exact (hstrings op hop).2 e he l hl

/-- The operand of a comparison on a column. -/
theorem validateComparisonOperand_iff {op : ComparisonOperator} {operand : Operand} {path : FieldPath}
    (hparsed : operand.Parsed (.comparison op))
    (hvalid : validateFieldExpression ⟨path, .comparison op, operand⟩ = .ok ())
    (hnull : operand ≠ .literal .null) (hknown : field.logicalCategory ≠ .unknown) :
    ¬ (op.isOrdering = true ∧ field.logicalCategory = .boolean) ∧
        validateComparisonOperand field operand = .ok () ↔
      WellTyped field.logicalCategory (.comparison op) operand := by
  have hstrings : ∀ s, Operator.comparison op ≠ .string s := fun _ => Operator.noConfusion
  have hordered : ¬ (op.isOrdering = true ∧ field.logicalCategory = .boolean) ↔
      (field.logicalCategory = .boolean →
        ∀ op', Operator.comparison op = .comparison op' → op'.isOrdering = false) := by
    simp only [Operator.comparison.injEq, forall_eq', ← Bool.not_eq_true]
    tauto
  rw [hordered]
  cases operand with
  | literal l =>
    have hne : l ≠ .null := fun h => hnull (congrArg _ h)
    have hcheck : validateComparisonOperand field (.literal l) = .ok () ↔
        l = .null ∨ l.category? = some field.logicalCategory := requireCategory_eq_ok_iff
    rw [hcheck]
    refine ⟨fun hchecked => ⟨?_, fun h => absurd h hnull, ?_, ?_, hchecked.1, ?_, ?_⟩,
      fun h => ⟨h.ordered, ?_⟩⟩
    · simpa [Operand.literals] using hchecked.2
    · simp [Operand.ranges]
    · simp [Operand.constraints]
    · simp [Operand.hasCompound, Operand.constraints]
    · exact fun s hs => absurd hs (hstrings s)
    · exact h.literals l (List.mem_singleton_self _)
  | range r =>
    have hrange : validateRange r = .ok () := by
      simpa [validateFieldExpression, bind_eq_ok, validateStringOperand, validateOperand] using hvalid
    have hcheck : validateComparisonOperand field (.range r) = .ok () ↔ _ :=
      validateFieldRange_eq_ok_iff hknown hrange
    rw [hcheck]
    refine ⟨fun hchecked => ⟨?_, by rintro ⟨⟩, ?_, ?_, hchecked.1, ?_, ?_⟩,
      fun h => ⟨h.ordered, ?_⟩⟩
    · simpa [Operand.literals] using hchecked.2
    · exact fun r' hr => List.mem_singleton.1 hr ▸ Range.wellFormed_of_validateRange hrange
    · simp [Operand.constraints]
    · simp [Operand.hasCompound, Operand.constraints]
    · exact fun s hs => absurd hs (hstrings s)
    · exact ⟨h.literals _ (by simp [Operand.literals]), h.literals _ (by simp [Operand.literals])⟩
  | valueSet elements =>
    have hset : ∀ e ∈ elements, validateValueSetElement e = .ok () := by
      simp only [validateFieldExpression, bind_eq_ok, validateOperand, validateValueSet,
        checkAll_eq_ok] at hvalid
      obtain ⟨-, -, -, -, hset⟩ := hvalid
      exact hset
    have hcheck : validateComparisonOperand field (.valueSet elements) = .ok () ↔
        ∀ e ∈ elements, ElementTyped field.logicalCategory e :=
      checkAll_eq_ok.trans (forall₂_congr fun e he => validateFieldElement_eq_ok hknown (hset e he))
    rw [hcheck, wellTyped_valueSet_iff]
    simp only [hstrings, false_implies, implies_true, and_true]
    exact and_comm
  | constraint c => exact hparsed.elim
  | compound cs => exact hparsed.elim

/-- The operand of a string operator on a column. -/
theorem validateFieldStringOperand_iff {op : StringOperator} {operand : Operand} {path : FieldPath}
    (hparsed : operand.Parsed (.string op))
    (hvalid : validateFieldExpression ⟨path, .string op, operand⟩ = .ok ())
    (hnull : operand ≠ .literal .null) (hknown : field.logicalCategory ≠ .unknown) :
    validateFieldStringOperand field op operand = .ok () ↔
      WellTyped field.logicalCategory (.string op) operand := by
  have hcomparison : ∀ o, Operator.string op ≠ .comparison o := fun _ => Operator.noConfusion
  have hoperator : Operator.string op = .string op := rfl
  simp only [validateFieldExpression, bind_eq_ok] at hvalid
  obtain ⟨_, hstring, hoperand⟩ := hvalid
  cases operand with
  | literal l =>
    have htext : ∃ s, l = .string s := by
      cases l with
      | string s => exact ⟨s, rfl⟩
      | null => exact absurd rfl hnull
      | _ => cases hstring
    obtain ⟨s, rfl⟩ := htext
    simp only [validateFieldStringOperand, bind_eq_ok, raiseIf_eq_ok, not_not]
    constructor
    · rintro ⟨-, hcategory, -⟩
      refine ⟨?_, fun h => absurd h hnull, ?_, ?_, ?_, ?_, ?_⟩
      · simp [Operand.literals, LiteralValue.category?, hcategory]
      · simp [Operand.ranges]
      · simp [Operand.constraints]
      · exact fun _ o ho => absurd ho (hcomparison o)
      · simp [Operand.hasCompound, Operand.constraints]
      · simp [Operand.literals, hcategory]
    · exact fun h => ⟨(), (h.strings op rfl).1, trivial⟩
  | valueSet elements =>
    have hset : ∀ e ∈ elements, validateValueSetElement e = .ok () := by
      simp only [validateOperand, validateValueSet, bind_eq_ok, checkAll_eq_ok] at hoperand
      obtain ⟨-, -, hset⟩ := hoperand
      exact hset
    have htexts : ∀ e ∈ elements, ∀ l ∈ e.literals, ∃ s, l = .string s := by
      simp only [validateStringOperand, bind_eq_ok, checkAll_eq_ok] at hstring
      obtain ⟨-, -, htexts⟩ := hstring
      intro e he l hl
      have hone := htexts e he
      cases e with
      | literal l' =>
        cases l' with
        | string s => exact ⟨s, List.mem_singleton.1 hl⟩
        | _ => cases hone
      | _ => cases hone
    have hcheck : validateFieldValueSet field elements = .ok () ↔
        ∀ e ∈ elements, ElementTyped field.logicalCategory e :=
      checkAll_eq_ok.trans (forall₂_congr fun e he => validateFieldElement_eq_ok hknown (hset e he))
    simp only [validateFieldStringOperand, bind_eq_ok, raiseIf_eq_ok, not_not, hcheck,
      wellTyped_valueSet_iff, hcomparison, false_implies, implies_true, true_and]
    constructor
    · rintro ⟨-, hcategory, h⟩
      exact ⟨h, fun _ _ => ⟨hcategory, htexts⟩⟩
    · rintro ⟨h, hcategory⟩
      exact ⟨(), (hcategory op rfl).1, h⟩
  | range r => cases hstring
  | constraint c => exact hparsed.elim
  | compound cs => exact hparsed.elim

/-- A leaf is let through exactly if it is typed. -/
theorem validateFieldOperatorAndOperand_iff {operator : Operator} {operand : Operand}
    {path : FieldPath} (hparsed : operand.Parsed operator)
    (hvalid : validateFieldExpression ⟨path, operator, operand⟩ = .ok ()) :
    validateFieldOperatorAndOperand field operator operand = .ok () ↔
      LeafTyped field operator operand := by
  unfold validateFieldOperatorAndOperand
  split_ifs with hnull hnested
  · subst hnull
    have hcheck : validateNullOperand field operator = .ok () ↔
        operator = .comparison .eq ∨ operator = .comparison .neq := by
      cases operator with
      | string op => simp [validateNullOperand]
      | comparison op => simp [validateNullOperand, isOrdering_eq_false]
    rw [hcheck]
    refine ⟨fun h => ⟨fun _ => ⟨?_, fun _ => h, ?_, ?_, ?_, ?_, ?_⟩, fun _ => h, fun _ hne => absurd rfl hne⟩,
      fun h => h.null rfl⟩
    · simp [Operand.literals]
    · simp [Operand.ranges]
    · simp [Operand.constraints]
    · rintro - op rfl
      exact isOrdering_eq_false.2 (by simpa using h)
    · simp [Operand.hasCompound, Operand.constraints]
    · rintro op rfl
      simp at h
  · refine iff_of_true rfl ⟨fun h => ?_, fun h => absurd h hnull, fun h => ?_⟩
    · rw [hnested] at h
      cases h
    · rw [hnested] at h
      cases h
  · have hflat : field.path.isNested = false := Bool.eq_false_iff.2 hnested
    have htyped : LeafTyped field operator operand ↔ field.logicalCategory ≠ .unknown ∧
        WellTyped field.logicalCategory operator operand :=
      ⟨fun h => ⟨h.known hflat hnull, h.typed hflat⟩,
        fun h => ⟨fun _ => h.2, fun h => absurd h hnull, fun _ _ => h.1⟩⟩
    rw [htyped]
    simp only [bind_eq_ok, raiseIf_eq_ok]
    constructor
    · rintro ⟨-, hknown, hcheck⟩
      refine ⟨hknown, ?_⟩
      cases operator with
      | string op => exact (validateFieldStringOperand_iff hparsed hvalid hnull hknown).1 hcheck
      | comparison op =>
        simp only [bind_eq_ok, raiseIf_eq_ok] at hcheck
        obtain ⟨-, hordering, hcheck⟩ := hcheck
        exact (validateComparisonOperand_iff hparsed hvalid hnull hknown).1 ⟨hordering, hcheck⟩
    · rintro ⟨hknown, h⟩
      refine ⟨(), hknown, ?_⟩
      cases operator with
      | string op => exact (validateFieldStringOperand_iff hparsed hvalid hnull hknown).2 h
      | comparison op =>
        simp only [bind_eq_ok, raiseIf_eq_ok]
        exact ⟨(), (validateComparisonOperand_iff hparsed hvalid hnull hknown).2 h⟩

/-- An assignment is let through exactly if it is typed. -/
theorem validateAssignmentValue_iff {value : LiteralValue} :
    validateAssignmentValue field value = .ok () ↔ Assignable field value := by
  unfold validateAssignmentValue Assignable
  dsimp only
  by_cases hnull : value = .null
  · subst hnull
    simp [LiteralValue.category?]
  · rw [if_neg hnull]
    by_cases hcategory : field.logicalCategory = .unknown
    · rw [if_pos hcategory]
      refine iff_of_false (by rintro ⟨⟩) ?_
      rintro (⟨h, -⟩ | h)
      · exact hnull h
      · rw [hcategory] at h
        cases value <;> simp [LiteralValue.category?] at h
    · rw [if_neg hcategory]
      simp only [raiseIf_eq_ok, ne_eq, not_not, hnull, false_and, false_or]

end

end AltrStream.QueryEngine
