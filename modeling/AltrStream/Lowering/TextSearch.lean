import AltrStream.Lowering.Registry

/-! # String operators in SQL

`STARTS`, `ENDS`, `HAS` and `NOT HAS` become `LIKE` predicates over escaped
patterns. They select the values with a prefix, a suffix or an infix among the
strings of the operand, and `NOT HAS` the NULL values too.
-/
namespace AltrStream.Lowering
open Foundations Python QueryEngine Semantics

/-- The strings that a string operator looks for: one, or a set under `HAS` and `NOT HAS`. -/
inductive TextOperand : StringOperator → Operand → List String → Prop
  | one (op : StringOperator) (s : String) : TextOperand op (.literal (.string s)) [s]
  | anyOf (strings : List String) (h : strings ≠ []) :
    TextOperand .has (.valueSet (strings.map fun s => .literal (.string s))) strings
  | noneOf (strings : List String) (h : strings ≠ []) :
    TextOperand .notHas (.valueSet (strings.map fun s => .literal (.string s))) strings

/-- The column values that an operator is meant to select, `none` for NULL. -/
def Selected (strings : List String) (v : Option String) : StringOperator → Prop
  | .starts => ∃ t, v = some t ∧ ∃ s ∈ strings, s.toList <+: t.toList
  | .ends => ∃ t, v = some t ∧ ∃ s ∈ strings, s.toList <:+ t.toList
  | .has => ∃ t, v = some t ∧ ∃ s ∈ strings, s.toList <:+: t.toList
  | .notHas => ∀ t, v = some t → ∀ s ∈ strings, ¬ s.toList <:+: t.toList

/-- A backslash in a string literal of MySQL makes the next character literal. -/
def unescape : List Char → List Char
  | '\\' :: c :: rest => c :: unescape rest
  | c :: rest => c :: unescape rest
  | [] => []

/-- The characters that a quoted string literal of a dialect stands for. -/
def SqlSource.literalChars (src : SqlSource) (body : List Char) : List Char :=
  if src = .mysql then unescape body else body

/-! ### The truth of the emitted predicate -/

section
variable (v : Option String)

theorem likeTruth_text_eq_yes (test : List Char → Bool) :
    likeTruth (v.map .text) test = .yes ↔ ∃ t, v = some t ∧ test t.toList = true := by
  cases v with
  | none => simp [likeTruth]
  | some t => cases htest : test t.toList <;> simp [likeTruth, textTest, Truth.ofBool, htest]

theorem likeTruth_text_eq_no (test : List Char → Bool) :
    likeTruth (v.map .text) test = .no ↔ ∃ t, v = some t ∧ test t.toList = false := by
  cases v with
  | none => simp [likeTruth]
  | some t => cases htest : test t.toList <;> simp [likeTruth, textTest, Truth.ofBool, htest]

theorem infixTruth_text_eq_yes (s : String) :
    infixTruth (v.map .text) s = .yes ↔ ∃ t, v = some t ∧ s.toList <:+: t.toList := by
  simp only [infixTruth, likeTruth_text_eq_yes, decide_eq_true_iff]

theorem infixTruth_text_eq_no (s : String) :
    infixTruth (v.map .text) s = .no ↔ ∃ t, v = some t ∧ ¬ s.toList <:+: t.toList := by
  simp only [infixTruth, likeTruth_text_eq_no, decide_eq_false_iff_not]

theorem isNullTruth_text_eq_yes : isNullTruth (v.map .text) = .yes ↔ v = none := by
  cases v <;> simp [isNullTruth, Truth.ofBool]

theorem isNull_strings (strings : List String) :
    (strings.map fun s => ValueSetElement.literal (.string s)).any (·.isNull) = false := by
  simp [ValueSetElement.isNull, LiteralValue.isNull]

/-- A row is kept by `NOT LIKE ... OR col IS NULL` unless a string occurs in its text. -/
theorem excluded_or_null (strings : List String) :
    (∀ s ∈ strings, infixTruth (v.map .text) s = .no) ∨ v = none ↔ Selected strings v .notHas := by
  simp only [infixTruth_text_eq_no, Selected]
  cases v <;> simp

theorem stringTruth_eq_yes_iff (ρ : Reading) {op : StringOperator} {operand : Operand}
    {strings : List String} (h : TextOperand op operand strings) :
    stringTruth ρ (v.map .text) op operand = .yes ↔ Selected strings v op := by
  cases h with
  | one op s =>
    cases op with
    | starts =>
      change likeTruth (v.map .text) (fun t => s.toList <+: t) = .yes ↔ _
      simp only [likeTruth_text_eq_yes, decide_eq_true_iff, Selected, List.mem_singleton,
        exists_eq_left]
    | ends =>
      change likeTruth (v.map .text) (fun t => s.toList <:+ t) = .yes ↔ _
      simp only [likeTruth_text_eq_yes, decide_eq_true_iff, Selected, List.mem_singleton,
        exists_eq_left]
    | has => simp only [stringTruth, infixTruth_text_eq_yes, operandText, valueText, Selected,
        List.mem_singleton, exists_eq_left]
    | notHas =>
      have hone : (∀ s' ∈ [s], infixTruth (v.map .text) s' = .no) ↔
          infixTruth (v.map .text) s = .no := by simp
      rw [← excluded_or_null v, hone, ← isNullTruth_text_eq_yes, ← Truth.neg_eq_yes]
      exact Truth.or_eq_yes _ _
  | anyOf strings hne =>
    simp only [stringTruth, Truth.disj_eq_yes, List.mem_map, exists_exists_and_eq_and]
    constructor
    · rintro ⟨s, hs, hyes⟩
      obtain ⟨t, ht, hinfix⟩ := (infixTruth_text_eq_yes v s).1 hyes
      exact ⟨t, ht, s, hs, hinfix⟩
    · rintro ⟨t, ht, s, hs, hinfix⟩
      exact ⟨s, hs, (infixTruth_text_eq_yes v s).2 ⟨t, ht, hinfix⟩⟩
  | noneOf strings hne =>
    have hneg : ∀ s, notHasElementTruth ρ (v.map .text) (.literal (.string s)) = .yes ↔
        infixTruth (v.map .text) s = .no := fun s => Truth.neg_eq_yes _
    simp only [stringTruth, isNull_strings, Bool.false_eq_true, if_false, Truth.or_eq_yes,
      Truth.conj_eq_yes, List.forall_mem_map, hneg, isNullTruth_text_eq_yes, excluded_or_null]

end

theorem TextOperand.wellFormed {op : StringOperator} {operand : Operand} {strings : List String}
    (h : TextOperand op operand strings) : operand.WellFormed := by
  cases h with
  | one op s => trivial
  | anyOf strings hne => exact ⟨by simpa using hne, by simp [ValueSetElement.WellFormed]⟩
  | noneOf strings hne => exact ⟨by simpa using hne, by simp [ValueSetElement.WellFormed]⟩

theorem SqlSource.truth_string (src : SqlSource) (ρ : Reading) (v : Option Value)
    (op : StringOperator) (operand : Operand) :
    src.truth ρ v (.string op) operand = stringTruth ρ v op operand := by
  cases src <;> rfl

/-- A leaf with a string operator is lowered, and its predicate selects as meant in every
statement that it becomes a part of. -/
theorem SqlSource.lowers_string (src : SqlSource) {leaf : BoundFieldExpression}
    {op : StringOperator} {strings : List String} (hop : leaf.operator = .string op)
    (h : TextOperand op leaf.operand strings) (before : List Scalar) :
    ∃ c added, src.lowerExpression (.atom leaf) before = .ok (c, before ++ added) ∧
      ∀ after clock row v, row leaf.field.path = v.map Value.text →
        (c.eval ⟨clock, before ++ added ++ after, row⟩ = .yes ↔ Selected strings v op) := by
  have hfits : src.Fits leaf := by cases src <;> simp [SqlSource.Fits, LeafFits, hop]
  obtain ⟨⟨c, params⟩, hrun⟩ := (src.leaf_succeeds leaf before).2 hfits
  have hemits := fun clock row =>
    src.emits_leaf clock row leaf h.wellFormed before c params hrun
  obtain ⟨added, rfl⟩ := (hemits Clock.newYear fun _ => none).1
  refine ⟨c, added, hrun, fun after clock row v hv => ?_⟩
  rw [(hemits clock row).2 _ (List.prefix_append _ _), SqlSource.leafTruth, hop, src.truth_string, hv,
    stringTruth_eq_yes_iff v _ h]

/-- Escaped patterns test for a prefix, a suffix and an infix, the escape character is the
backslash in every dialect, and so the string operators select by these tests. -/
theorem SqlSource.string_operators (src : SqlSource) :
    (∀ s t : String,
      (likeMatch (escapeLikeOperand s ++ ['%']) t.toList = true ↔ s.toList <+: t.toList) ∧
      (likeMatch ('%' :: escapeLikeOperand s) t.toList = true ↔ s.toList <:+ t.toList) ∧
      (likeMatch ('%' :: (escapeLikeOperand s ++ ['%'])) t.toList = true ↔
        s.toList <:+: t.toList)) ∧
    (∃ body, src.lowerer.dialect.likeEscape.toList = '\'' :: (body ++ ['\'']) ∧
      src.literalChars body = ['\\']) ∧
    ∀ (leaf : BoundFieldExpression) (op : StringOperator) (strings : List String),
      leaf.operator = .string op → TextOperand op leaf.operand strings →
      ∀ before : List Scalar, ∃ c added,
        src.lowerExpression (.atom leaf) before = .ok (c, before ++ added) ∧
        ∀ after clock row v, row leaf.field.path = v.map Value.text →
          (c.eval ⟨clock, before ++ added ++ after, row⟩ = .yes ↔ Selected strings v op) := by
  refine ⟨fun s t => ?_, ?_, fun leaf op strings hop h => src.lowers_string hop h⟩
  · rw [escapeLikeOperand_eq]
    exact ⟨likeMatch_startsWith _ _, likeMatch_suffix _ _, likeMatch_infix _ _⟩
  · cases src with
    | postgresql => exact ⟨['\\'], by decide, rfl⟩
    | mysql => exact ⟨['\\', '\\'], by decide, rfl⟩
    | sqlite => exact ⟨['\\'], by decide, rfl⟩

/-- The leaf `name NOT HAS { "50%", "a_b" }` over a text column. -/
def namesWithoutPatterns : BoundFieldExpression where
  field := { path := ⟨"name", []⟩, dataType := .string, nativeType := "text" }
  operator := .string .notHas
  operand := .valueSet [.literal (.string "50%"), .literal (.string "a_b")]

theorem string_operators_names : TextOperand .notHas namesWithoutPatterns.operand ["50%", "a_b"] ∧
    ∃ c added, SqlSource.mysql.lowerExpression (.atom namesWithoutPatterns) [] = .ok (c, added) ∧
      ∀ clock row v, row namesWithoutPatterns.field.path = v.map Value.text →
        (c.eval ⟨clock, added, row⟩ = .yes ↔ Selected ["50%", "a_b"] v .notHas) := by
  have h : TextOperand .notHas namesWithoutPatterns.operand ["50%", "a_b"] :=
    .noneOf ["50%", "a_b"] (List.cons_ne_nil _ _)
  obtain ⟨c, added, hrun, hselects⟩ :=
    (SqlSource.string_operators .mysql).2.2 namesWithoutPatterns .notHas _ rfl h []
  refine ⟨h, c, added, hrun, fun clock row v hv => ?_⟩
  simpa using hselects [] clock row v hv

end AltrStream.Lowering
