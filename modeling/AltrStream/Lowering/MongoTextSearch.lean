import AltrStream.Foundations.Regex
import AltrStream.Lowering.MongoMatching
import AltrStream.Lowering.TextSearch

/-! # String operators in MongoDB

The string operators become `$regex` documents over escaped texts. They search
as the SQL predicates do, with two exceptions: `$` lets a final newline follow
the suffix, and `$not` keeps values that are no text.
-/
namespace AltrStream.Lowering.MongoDB
open Foundations Python QueryEngine Semantics

/-- The stored values that an operator is meant to select. -/
def Selects (strings : List String) (stored : Stored) (op : StringOperator) : Prop :=
  ∃ v : Option String, stored.read = v.map Value.text ∧ Selected strings v op

/-- `ENDS` does not meet a text that goes on behind the suffix with one final newline, and
`NOT HAS` meets no value that is not a text. -/
def SearchedRight (strings : List String) (stored : Stored) : StringOperator → Prop
  | .ends => ∀ t, stored = .value (.text t) → ∀ s ∈ strings,
      s.toList ++ ['\n'] <:+ t.toList → ∀ c ∈ s.toList, c = '\n'
  | .notHas => ∀ v, stored = .value v → ∃ t, v = .text t
  | _ => True

/-! ### Patterns -/

theorem parse_reEscape (s : String) (rest : List Char) :
    Regex.parse ((reEscape s).toList ++ rest) =
      (Regex.parse rest).map (s.toList.map .char ++ ·) := by
  have hescape : (reEscape s).toList = Regex.escape specialChars s.toList := by
    rw [reEscape, String.toList_ofList]
    rfl
  rw [hescape]
  exact Regex.parse_escape (by decide) (by decide) _ _

theorem search_has (s t : String) :
    Regex.search (reEscape s) t = true ↔ s.toList <:+: t.toList := by
  have hparse := parse_reEscape s []
  rw [List.append_nil] at hparse
  rw [Regex.search, hparse, ← Regex.search_literal]
  simp [Regex.parse]

theorem search_starts (s t : String) :
    Regex.search s!"^{reEscape s}" t = true ↔ s.toList <+: t.toList := by
  have htext : (s!"^{reEscape s}").toList = '^' :: ((reEscape s).toList ++ []) := by
    simp [toString]
  rw [Regex.search, htext, ← Regex.search_start, Regex.parse, parse_reEscape]
  simp [Regex.parse]

theorem search_ends (s t : String) :
    Regex.search s!"{reEscape s}$" t = true ↔
      s.toList <:+ t.toList ∨ s.toList ++ ['\n'] <:+ t.toList := by
  have htext : (s!"{reEscape s}$").toList = (reEscape s).toList ++ ['$'] := by simp [toString]
  rw [Regex.search, htext, ← Regex.search_stop, parse_reEscape]
  simp [Regex.parse]

/-- A text of newlines only is a suffix of what it is a suffix of before a newline. -/
theorem suffix_of_suffix_newline {s t : List Char} (h : s ++ ['\n'] <:+ t) :
    s <:+ t ↔ ∀ c ∈ s, c = '\n' := by
  constructor
  · intro hs
    have hrev : ∀ s : List Char, s <+: '\n' :: s → ∀ c ∈ s, c = '\n' := by
      intro s
      induction s with
      | nil => simp
      | cons c s ih =>
        intro hp
        obtain ⟨rfl, hp⟩ := List.cons_prefix_cons.1 hp
        exact List.forall_mem_cons.2 ⟨rfl, ih hp⟩
    have hsuffix : s <:+ s ++ ['\n'] := List.suffix_of_suffix_length_le hs h (by simp)
    have hprefix := List.reverse_prefix.2 hsuffix
    rw [List.reverse_append] at hprefix
    simpa using hrev _ hprefix
  · intro hnewline
    have hs : s = List.replicate s.length '\n' := List.eq_replicate_iff.2 ⟨rfl, hnewline⟩
    refine List.IsSuffix.trans ⟨['\n'], ?_⟩ h
    rw [hs, ← List.replicate_succ', List.replicate_succ]
    rfl

/-! ### Filters -/

section
variable (doc : Document) (path : String)

theorem matches_regex (p : String) :
    (Filter.tests path [.regex p]).matches Regex.search doc = true ↔
      ∃ t, (doc path).read = some (.text t) ∧ Regex.search p t = true := by
  rw [Filter.matches, List.all_cons, List.all_nil, Bool.and_true, FieldTest.matches]
  cases (doc path).read with
  | none => simp [regexTest]
  | some v => cases v <;> simp [regexTest]

theorem matches_notRegex (p : String) :
    (Filter.tests path [.notRegex p]).matches Regex.search doc = true ↔
      ∀ t, (doc path).read = some (.text t) → ¬ Regex.search p t = true := by
  have hnot : (Filter.tests path [.notRegex p]).matches Regex.search doc =
      !(Filter.tests path [.regex p]).matches Regex.search doc := by
    simp only [Filter.matches, List.all_cons, List.all_nil, Bool.and_true]
    rfl
  rw [hnot, Bool.not_eq_true', ← Bool.not_eq_true, matches_regex]
  simp

theorem matches_equals_none :
    (Filter.equals path .none).matches Regex.search doc = true ↔ (doc path).read = none := by
  exact decide_eq_true_iff

/-- What the filter of a string operator keeps. -/
def Keeps (strings : List String) (stored : Stored) : StringOperator → Prop
  | .starts => ∃ t, stored.read = some (.text t) ∧ ∃ s ∈ strings, s.toList <+: t.toList
  | .ends => ∃ t, stored.read = some (.text t) ∧
      ∃ s ∈ strings, s.toList <:+ t.toList ∨ s.toList ++ ['\n'] <:+ t.toList
  | .has => ∃ t, stored.read = some (.text t) ∧ ∃ s ∈ strings, s.toList <:+: t.toList
  | .notHas => ∀ t, stored.read = some (.text t) → ∀ s ∈ strings, ¬ s.toList <:+: t.toList

theorem matches_lowerHasSet {strings : List String} (h : strings ≠ []) :
    (lowerHasSet path (strings.map fun s => .literal (.string s))).matches Regex.search doc = true ↔
      Keeps strings (doc path) .has := by
  have hfilter : (strings.map fun s => ValueSetElement.literal (.string s)).filter (!·.isNull) =
      strings.map fun s => .literal (.string s) := by
    rw [List.filter_eq_self]
    simp [ValueSetElement.isNull, LiteralValue.isNull]
  unfold lowerHasSet
  simp only [isNull_strings, Bool.false_eq_true, if_false, List.nil_append, hfilter, List.map_map]
  rw [if_neg (by simpa using h), matches_combine_or, List.any_map, List.any_eq_true]
  have helement : ∀ s, (Filter.matches Regex.search doc ∘ lowerHasElement path ∘
      fun s => .literal (.string s)) s = true ↔
        ∃ t, (doc path).read = some (.text t) ∧ s.toList <:+: t.toList := by
    intro s
    simp only [← search_has]
    exact matches_regex doc path (reEscape s)
  simp only [helement]
  constructor
  · rintro ⟨s, hs, t, ht, hinfix⟩
    exact ⟨t, ht, s, hs, hinfix⟩
  · rintro ⟨t, ht, s, hs, hinfix⟩
    exact ⟨s, hs, t, ht, hinfix⟩

theorem matches_lowerNotHasSet {strings : List String} (h : strings ≠ []) :
    (lowerNotHasSet path (strings.map fun s => .literal (.string s))).matches Regex.search doc =
      true ↔ Keeps strings (doc path) .notHas := by
  have hfilter : (strings.map fun s => ValueSetElement.literal (.string s)).filter (!·.isNull) =
      strings.map fun s => .literal (.string s) := by
    rw [List.filter_eq_self]
    simp [ValueSetElement.isNull, LiteralValue.isNull]
  unfold lowerNotHasSet
  simp only [isNull_strings, Bool.false_eq_true, if_false, hfilter, List.map_map]
  rw [if_neg (by simpa using h)]
  have helement : ∀ s, (Filter.matches Regex.search doc ∘ lowerNotHasElement path ∘
      fun s => .literal (.string s)) s = true ↔
        ∀ t, (doc path).read = some (.text t) → ¬ s.toList <:+: t.toList := by
    intro s
    simp only [← search_has]
    exact matches_notRegex doc path (reEscape s)
  have hall : (combine .and (strings.map (lowerNotHasElement path ∘
      fun s => .literal (.string s)))).matches Regex.search doc = true ↔
        Keeps strings (doc path) .notHas := by
    rw [matches_combine_and, List.all_map, List.all_eq_true]
    simp only [helement]
    exact ⟨fun hno t ht s hs => hno s hs t ht, fun hno s hs t ht => hno t ht s hs⟩
  rw [Filter.matches, matchesAny, matchesAny, matchesAny, Bool.or_false, Bool.or_eq_true, hall,
    matches_equals_none]
  refine or_iff_left_of_imp fun hnone t ht => ?_
  rw [hnone] at ht
  cases ht

/-- What a string operator keeps, as a fact about the stored value. -/
theorem matches_lowerStringOperator {op : StringOperator} {operand : Operand}
    {strings : List String} (h : TextOperand op operand strings) :
    (lowerStringOperator path op operand).matches Regex.search doc = true ↔
      Keeps strings (doc path) op := by
  cases h with
  | anyOf strings hne => exact matches_lowerHasSet doc path hne
  | noneOf strings hne => exact matches_lowerNotHasSet doc path hne
  | one op s =>
    cases op with
    | starts =>
      refine (matches_regex doc path s!"^{reEscape s}").trans ?_
      simp only [search_starts, Keeps, List.mem_singleton, exists_eq_left]
    | ends =>
      refine (matches_regex doc path s!"{reEscape s}$").trans ?_
      simp only [search_ends, Keeps, List.mem_singleton, exists_eq_left]
    | has =>
      refine (matches_regex doc path (reEscape s)).trans ?_
      simp only [search_has, Keeps, List.mem_singleton, exists_eq_left]
    | notHas =>
      -- one string is searched as a set of one
      exact matches_lowerNotHasSet doc path (List.cons_ne_nil s [])

end

/-! ### Exactness -/

section
variable {strings : List String} {stored : Stored}

theorem read_eq_some_iff {v : Value} : stored.read = some v ↔ stored = .value v := by
  cases stored <;> simp [Stored.read]

theorem selects_iff_selected {v : Option String} (h : stored.read = v.map Value.text)
    (op : StringOperator) : Selects strings stored op ↔ Selected strings v op := by
  have hinj : Function.Injective (Option.map Value.text) :=
    Option.map_injective fun a b hab => Value.text.inj hab
  constructor
  · rintro ⟨v', hv', hselected⟩
    rwa [hinj (h.symm.trans hv')]
  · intro hselected
    exact ⟨v, h, hselected⟩

/-- An operator that asks for a text selects by it. -/
theorem exists_selected_iff (test : String → Prop) :
    (∃ v : Option String, stored.read = v.map Value.text ∧ ∃ t, v = some t ∧ test t) ↔
      ∃ t, stored.read = some (.text t) ∧ test t := by
  constructor
  · rintro ⟨_, hread, t, rfl, htest⟩
    exact ⟨t, hread, htest⟩
  · rintro ⟨t, hread, htest⟩
    exact ⟨some t, hread, t, rfl, htest⟩

theorem keeps_ends_iff (s : String) :
    (Keeps [s] stored .ends ↔ Selects [s] stored .ends) ↔ SearchedRight [s] stored .ends := by
  rw [show Selects [s] stored .ends ↔ _ from exists_selected_iff _]
  simp only [Keeps, SearchedRight, List.mem_singleton, exists_eq_left, forall_eq, ← read_eq_some_iff]
  constructor
  · intro hiff t ht hnewline
    obtain ⟨t', ht', hsuffix⟩ := hiff.1 ⟨t, ht, .inr hnewline⟩
    obtain rfl : t = t' := Value.text.inj (Option.some.inj (ht.symm.trans ht'))
    exact (suffix_of_suffix_newline hnewline).1 hsuffix
  · intro hnewlines
    constructor
    · rintro ⟨t, ht, hsuffix | hnewline⟩
      · exact ⟨t, ht, hsuffix⟩
      · exact ⟨t, ht, (suffix_of_suffix_newline hnewline).2 (hnewlines t ht hnewline)⟩
    · rintro ⟨t, ht, hsuffix⟩
      exact ⟨t, ht, .inl hsuffix⟩

theorem keeps_notHas_iff :
    (Keeps strings stored .notHas ↔ Selects strings stored .notHas) ↔
      SearchedRight strings stored .notHas := by
  cases stored with
  | value x =>
    simp only [SearchedRight, Stored.value.injEq, forall_eq']
    constructor
    · intro hiff
      by_contra hno
      have hkeeps : Keeps strings (.value x) .notHas := fun t ht =>
        absurd ⟨t, Option.some.inj ht⟩ hno
      obtain ⟨v, hv, -⟩ := hiff.1 hkeeps
      obtain ⟨t, -, ht⟩ := Option.map_eq_some_iff.1 hv.symm
      exact hno ⟨t, ht.symm⟩
    · rintro ⟨t, rfl⟩
      rw [selects_iff_selected (v := some t) rfl]
      simp [Keeps, Selected, Stored.read]
  | _ =>
    rw [selects_iff_selected (v := none) rfl]
    simp [Keeps, Selected, Stored.read, SearchedRight]

theorem keeps_iff_selects {op : StringOperator} {operand : Operand}
    (h : TextOperand op operand strings) :
    (Keeps strings stored op ↔ Selects strings stored op) ↔ SearchedRight strings stored op := by
  cases op with
  | starts => exact iff_true_intro (exists_selected_iff _).symm
  | has => exact iff_true_intro (exists_selected_iff _).symm
  | notHas => exact keeps_notHas_iff
  | ends =>
    cases h with
    | one op s => exact keeps_ends_iff s

end

/-- The filter of a leaf with a string operator searches as meant, and as the SQL predicates
do, exactly on the values that `SearchedRight` describes. -/
theorem string_operators_iff {leaf : BoundFieldExpression} {op : StringOperator}
    {strings : List String} (hop : leaf.operator = .string op)
    (h : TextOperand op leaf.operand strings) (clock : Clock) (doc : Document) :
    ∃ f, lowerExpression clock (.atom leaf) = .ok f ∧
      ((f.matches Regex.search doc = true ↔ Selects strings (doc leaf.field.fullPath) op) ↔
        SearchedRight strings (doc leaf.field.fullPath) op) ∧
      ∀ (src : SqlSource) before c params, src.lowerExpression (.atom leaf) before = .ok (c, params) →
        ∀ row (v : Option String), (doc leaf.field.fullPath).read = v.map Value.text →
          row leaf.field.path = v.map Value.text →
          ((f.matches Regex.search doc = true ↔ c.eval ⟨clock, params, row⟩ = .yes) ↔
            SearchedRight strings (doc leaf.field.fullPath) op) := by
  refine ⟨lowerStringOperator leaf.field.fullPath op leaf.operand, ?_, ?_, ?_⟩
  · rw [lowerExpression, lowerFieldExpression, hop]
  · rw [matches_lowerStringOperator doc _ h]
    exact keeps_iff_selects h
  · intro src before c params hrun row v hdoc hrow
    obtain ⟨c', added, hrun', hselects⟩ := src.lowers_string hop h before
    obtain ⟨rfl, rfl⟩ := Prod.mk.inj (Except.ok.inj (hrun'.symm.trans hrun))
    have hsql := hselects [] clock row v hrow
    rw [List.append_nil] at hsql
    rw [matches_lowerStringOperator doc _ h, hsql, ← selects_iff_selected hdoc op]
    exact keeps_iff_selects h

/-- The leaf `name ENDS "a"`. -/
def namesThatEndInA : BoundFieldExpression where
  field := { path := ⟨"name", []⟩, dataType := .string, nativeType := "string" }
  operator := .string .ends
  operand := .literal (.string "a")

theorem string_operators_ends_a : ∃ f, lowerExpression Clock.newYear (.atom namesThatEndInA) = .ok f ∧
    ((f.matches Regex.search (fun _ => .value (.text "ba")) = true ↔
      Selects ["a"] (.value (.text "ba")) .ends) ↔
        SearchedRight ["a"] (.value (.text "ba")) .ends) := by
  obtain ⟨f, hf, hiff, -⟩ := @string_operators_iff namesThatEndInA .ends ["a"] rfl
    (.one .ends "a") Clock.newYear fun _ => .value (.text "ba")
  exact ⟨f, hf, hiff⟩

/-- `ENDS "a"` keeps a text that ends in `a` and a newline. -/
theorem not_selects_ends_newline : ¬ ∀ (leaf : BoundFieldExpression) (op : StringOperator)
    (strings : List String), leaf.operator = .string op → TextOperand op leaf.operand strings →
    ∀ clock doc f, lowerExpression clock (.atom leaf) = .ok f →
      (f.matches Regex.search doc = true ↔ Selects strings (doc leaf.field.fullPath) op) := by
  intro hclaim
  have hoperand : TextOperand .ends namesThatEndInA.operand ["a"] := .one .ends "a"
  have hiff := hclaim namesThatEndInA .ends ["a"] rfl hoperand Clock.newYear
    (fun _ => .value (.text "a\n")) _ rfl
  rw [matches_lowerStringOperator _ _ hoperand] at hiff
  have hright := keeps_ends_iff "a" |>.1 hiff "a\n" rfl "a" (List.mem_singleton_self _) (by decide)
  exact absurd (hright 'a' (by decide)) (by decide)

end AltrStream.Lowering.MongoDB
