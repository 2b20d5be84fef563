import AltrStream.Foundations.MixedOrder
import AltrStream.Planning.RowOrder
import AltrStream.Planning.SourceValues
import Mathlib.Data.Prod.Lex

/-! # When the federated comparator is a total preorder

Values of one kind are in a linear order, values of different kinds in the order of their texts. The
two can contradict each other: 9 is before 10, "10" before "1a" and "1a" before "9".
-/
namespace AltrStream.Planning
open Foundations Python QueryEngine

/-- Values that compare with each other. -/
inductive ValueKind where
  | number
  | text
  | date
  | naive
  | aware
  | uuid
  deriving DecidableEq, Repr

namespace SourceValue

def kind : SourceValue → ValueKind
  | bool _ | int _ | float _ | decimal _ => .number
  | str _ => .text
  | date _ => .date
  | naive _ => .naive
  | aware _ _ => .aware
  | uuid _ => .uuid

/-- A decimal that is not a number. -/
def IsNaN (v : SourceValue) : Prop := v.number? = some none

/-- An integer as a number. -/
def whole (n : ℤ) : Extended := ((n : ℚ) : WithTop ℚ)

/-- Where a value stands among those of its kind. -/
def position : SourceValue → Extended ×ₗ String
  | str value => toLex (whole 0, value)
  | date value => toLex (whole value.toordinal, "")
  | naive value => toLex (whole value.instant, "")
  | aware value utcoffset => toLex (whole (utc value utcoffset), "")
  | uuid value => toLex (whole value.val, "")
  | v => toLex (v.number?.join.getD (whole 0), "")

variable {a b : SourceValue}

theorem whole_lt {m n : ℤ} : whole m < whole n ↔ m < n := by
  unfold whole
  rw [WithBot.coe_lt_coe, WithTop.coe_lt_coe, Int.cast_lt]

theorem toLex_number_lt {x y : Extended} :
    toLex (x, "") < toLex (y, "") ↔ x < y := by
  rw [Prod.Lex.toLex_lt_toLex]
  simp

theorem toLex_text_lt {s t : String} : toLex (whole 0, s) < toLex (whole 0, t) ↔ s < t := by
  rw [Prod.Lex.toLex_lt_toLex]
  simp

theorem kind_eq_number : a.kind = .number ↔ ∃ x, a.number? = some x := by
  cases a with
  | decimal d => cases d <;> simp [kind, number?]
  | _ => simp [kind, number?]

theorem lt_other (h : a.kind ≠ b.kind) : lt a b = .error .typeError := by
  unfold lt
  split
  case h_6 =>
    split
    · rename_i x y hx hy
      exact absurd ((kind_eq_number.2 ⟨x, hx⟩).trans (kind_eq_number.2 ⟨y, hy⟩).symm) h
    · rfl
  all_goals exact absurd rfl h

theorem lt_number {x y : Extended} (ha : a.number? = some (some x)) (hb : b.number? = some (some y)) :
    lt a b = .ok (decide (x < y)) := by
  unfold lt
  split
  case h_6 => rw [ha, hb]; rfl
  all_goals cases ha

theorem position_number {x : Extended} (ha : a.number? = some (some x)) :
    a.position = toLex (x, "") := by
  unfold position
  split
  case h_6 => rw [ha]; rfl
  all_goals cases ha

/-- Values of one kind compare by their positions, unless one is NaN. -/
theorem lt_same (h : a.kind = b.kind) (ha : ¬a.IsNaN) (hb : ¬b.IsNaN) :
    lt a b = .ok (decide (a.position < b.position)) := by
  by_cases hnumber : a.kind = .number
  · obtain ⟨x, hx⟩ := kind_eq_number.1 hnumber
    obtain ⟨y, hy⟩ := kind_eq_number.1 (h ▸ hnumber)
    cases x with
    | none => exact absurd hx ha
    | some x =>
      cases y with
      | none => exact absurd hy hb
      | some y =>
        rw [lt_number hx hy, position_number hx, position_number hy]
        simp only [toLex_number_lt]
  · cases a with
    | str s =>
      cases b with
      | str t => exact congrArg Except.ok (decide_eq_decide.2 toLex_text_lt.symm)
      | _ => exact ValueKind.noConfusion h
    | date d =>
      cases b with
      | date e => exact congrArg Except.ok (decide_eq_decide.2 (by
          rw [position, position, toLex_number_lt, whole_lt, Nat.cast_lt]))
      | _ => exact ValueKind.noConfusion h
    | naive t =>
      cases b with
      | naive t' => exact congrArg Except.ok (decide_eq_decide.2 (by
          rw [position, position, toLex_number_lt, whole_lt, Nat.cast_lt]))
      | _ => exact ValueKind.noConfusion h
    | aware t o =>
      cases b with
      | aware t' o' => exact congrArg Except.ok (decide_eq_decide.2 (by
          rw [position, position, toLex_number_lt, whole_lt]))
      | _ => exact ValueKind.noConfusion h
    | uuid n =>
      cases b with
      | uuid m => exact congrArg Except.ok (decide_eq_decide.2 (by
          rw [position, position, toLex_number_lt, whole_lt, Nat.cast_lt, Fin.lt_def]))
      | _ => exact ValueKind.noConfusion h
    | _ => exact absurd rfl hnumber

/-! ### Comparing two values -/

/-- A comparison of two values when nothing is raised. -/
def compareKinds (a b : SourceValue) : Ordering := compareMixed kind position textOf a b

theorem compareDirectly_same (h : a.kind = b.kind) (ha : ¬a.IsNaN) (hb : ¬b.IsNaN) :
    compareDirectly a b = .ok (compareKinds a b) := by
  unfold compareDirectly gt compareKinds compareMixed
  rw [lt_same h ha hb, lt_same h.symm hb ha, if_pos h]
  rcases lt_trichotomy a.position b.position with hlt | heq | hgt
  · rw [compare_lt_iff_lt.2 hlt, decide_eq_true hlt]
    rfl
  · rw [compare_eq_iff_eq.2 heq, heq, decide_eq_false (lt_irrefl _)]
    rfl
  · rw [compare_gt_iff_gt.2 hgt, decide_eq_true hgt, decide_eq_false hgt.not_gt]
    rfl

theorem compareDirectly_other (h : a.kind ≠ b.kind) :
    compareDirectly a b = .error .typeError := by
  unfold compareDirectly
  rw [lt_other h]
  rfl

theorem compareTexts_eq (ha : a.hasText = true) (hb : b.hasText = true) :
    compareTexts a b = .ok (compare a.textOf b.textOf) := by
  unfold compareTexts text
  rw [if_pos ha, if_pos hb]
  rcases lt_trichotomy a.textOf b.textOf with hlt | heq | hgt
  · rw [compare_lt_iff_lt.2 hlt]
    exact congrArg Except.ok (if_pos hlt)
  · rw [compare_eq_iff_eq.2 heq, heq]
    exact congrArg Except.ok ((if_neg (lt_irrefl _)).trans (if_neg (lt_irrefl _)))
  · rw [compare_gt_iff_gt.2 hgt]
    exact congrArg Except.ok ((if_neg hgt.not_gt).trans (if_pos hgt))

theorem compareOrFallBack_of_ok {o : Ordering} (h : compareDirectly a b = .ok o) :
    compareOrFallBack a b = .ok o := by
  unfold compareOrFallBack
  rw [h]

theorem compareOrFallBack_of_typeError (h : compareDirectly a b = .error .typeError) :
    compareOrFallBack a b = compareTexts a b := by
  unfold compareOrFallBack
  rw [h]

/-- Two built-in numbers are of one kind. -/
theorem kind_of_isIntOrFloat (h : a.isIntOrFloat = true) : a.kind = .number := by
  cases a <;> first | rfl | cases h

end SourceValue

open SourceValue

variable {a b : SourceValue}

theorem compareSourceValues_same (h : a.kind = b.kind) (ha : ¬a.IsNaN) (hb : ¬b.IsNaN) :
    compareSourceValues (some a) (some b) = .ok (compareKinds a b) := by
  have hdirect := compareDirectly_same h ha hb
  change compareNumbersFirst a b = _
  unfold compareNumbersFirst
  rw [hdirect, compareOrFallBack_of_ok hdirect, ite_self]

theorem compareSourceValues_other (h : a.kind ≠ b.kind) :
    compareSourceValues (some a) (some b) = compareTexts a b := by
  change compareNumbersFirst a b = _
  unfold compareNumbersFirst
  rw [if_neg, compareOrFallBack_of_typeError (compareDirectly_other h)]
  intro hboth
  rw [Bool.and_eq_true] at hboth
  exact h ((kind_of_isIntOrFloat hboth.1).trans (kind_of_isIntOrFloat hboth.2).symm)

theorem hasText_of_compareTexts {o : Ordering} (h : compareTexts a b = .ok o) :
    a.hasText = true := by
  by_contra hno
  unfold compareTexts text at h
  rw [if_neg hno] at h
  cases h

/-- A NaN does not even compare with itself. -/
theorem compareSourceValues_nan (h : a.IsNaN) :
    compareSourceValues (some a) (some a) = .error .invalidOperation := by
  cases a with
  | decimal d =>
    cases d with
    | nan negative signaling payload => rfl
    | _ => cases h
  | _ => cases h

/-! ### Values that compare without an exception -/

/-- No value is NaN, and what stands beside a value of another kind has a text. -/
structure Printable (s : Set SourceValue) : Prop where
  notNaN : ∀ a ∈ s, ¬a.IsNaN
  hasText : ∀ a ∈ s, ∀ b ∈ s, a.kind ≠ b.kind → a.hasText = true

variable {s : Set SourceValue}

theorem Printable.compareSourceValues (h : Printable s) {o o' : Option SourceValue}
    (ho : o ∈ cellsOf s) (ho' : o' ∈ cellsOf s) :
    compareSourceValues o o' = .ok (missingFirst compareKinds o o') := by
  cases o with
  | none => cases o' <;> rfl
  | some a =>
    cases o' with
    | none => rfl
    | some b =>
      have ha := ho a rfl
      have hb := ho' b rfl
      by_cases hkind : a.kind = b.kind
      · exact compareSourceValues_same hkind (h.notNaN a ha) (h.notNaN b hb)
      · have hkind' : b.kind ≠ a.kind := fun heq => hkind heq.symm
        rw [compareSourceValues_other hkind,
          compareTexts_eq (h.hasText a ha b hb hkind) (h.hasText b hb a ha hkind')]
        exact congrArg Except.ok (if_neg hkind).symm

/-- Without an exception the merger's comparison is the same. -/
theorem Printable.compareValues (h : Printable s) (rt : SourceRuntime) {o o' : Option SourceValue}
    (ho : o ∈ cellsOf s) (ho' : o' ∈ cellsOf s) :
    compareValues rt.toRuntime o o' = missingFirst compareKinds o o' := by
  cases o with
  | none => cases o' <;> rfl
  | some a =>
    cases o' with
    | none => rfl
    | some b =>
      have ha := h.notNaN a (ho a rfl)
      have hb := h.notNaN b (ho' b rfl)
      unfold Planning.compareValues missingFirst compareKinds compareMixed
      simp only
      rw [rt.lt_eq, rt.gt_eq, rt.str_eq, rt.str_eq]
      by_cases hkind : a.kind = b.kind
      · rw [if_pos hkind, gt, lt_same hkind ha hb, lt_same hkind.symm hb ha]
        rcases lt_trichotomy a.position b.position with hlt | heq | hgt
        · rw [compare_lt_iff_lt.2 hlt, decide_eq_true hlt]
          rfl
        · rw [compare_eq_iff_eq.2 heq, heq, decide_eq_false (lt_irrefl _)]
          rfl
        · rw [compare_gt_iff_gt.2 hgt, decide_eq_true hgt, decide_eq_false hgt.not_gt]
          rfl
      · rw [if_neg hkind, lt_other hkind]
        rfl

end AltrStream.Planning
